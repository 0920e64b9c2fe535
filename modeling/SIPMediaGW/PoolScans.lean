import Mathlib.Data.Finset.Card
import Mathlib.Tactic.Linarith
import SIPMediaGW.ScalerIdempotence

/-! # Scans over bad entries

`/start`, `downScale` and `cleanup` go through the entries of the registry. A key that cannot be
read gives an entry without fields, wherever it stands in the scan. An address is any value of the
entry here; the provider reads it. -/
namespace PoolScans

open FieldMap
open MediaCleanup
open MediaScaler
open ProxyRegistry
open PythonJson
open Scaler
open ScalerIdempotence (Addressed)
open StatefulExceptions

instance (r : Redis) (key : String) : Decidable (Pickable r key) :=
  inferInstanceAs (Decidable (_ ∧ _))

/-- The idle gateways with an address, among the keys of a scan. -/
def idleIn (r : Redis) (scan : List String) : Finset String :=
  scan.toFinset.filter fun key => Pickable r key

/-- A key comes before that many different idle gateways, after those of `before`. -/
def ReachedAfter (r : Redis) (numGW : ℕ) (before scan : List String) (key : String) : Prop :=
  ∃ first rest, scan = first ++ key :: rest ∧ (idleIn r (before ++ first)).card < numGW

def Reached (r : Redis) (numGW : ℕ) (scan : List String) (key : String) : Prop :=
  ReachedAfter r numGW [] scan key

section Reaching

variable {r : Redis} {numGW : ℕ} {before scan : List String} {k key : String}

theorem reachedAfter_cons : ReachedAfter r numGW before (k :: scan) key ↔
    key = k ∧ (idleIn r before).card < numGW ∨
      ReachedAfter r numGW (before ++ [k]) scan key := by
  constructor
  · rintro ⟨first, rest, hscan, hcard⟩
    cases first with
    | nil =>
      obtain ⟨rfl, -⟩ := List.cons_eq_cons.mp hscan
      rw [List.append_nil] at hcard
      exact Or.inl ⟨rfl, hcard⟩
    | cons j first =>
      obtain ⟨rfl, htail⟩ := List.cons_eq_cons.mp hscan
      exact Or.inr ⟨first, rest, htail, by rwa [List.append_assoc, List.singleton_append]⟩
  · rintro (⟨rfl, hcard⟩ | ⟨first, rest, rfl, hcard⟩)
    · exact ⟨[], scan, rfl, by rwa [List.append_nil]⟩
    · refine ⟨k :: first, rest, rfl, ?_⟩
      rwa [List.append_assoc, List.singleton_append] at hcard

theorem not_reachedAfter_nil : ¬ ReachedAfter r numGW before [] key := by
  rintro ⟨first, rest, hscan, -⟩
  exact List.append_ne_nil_of_right_ne_nil _ (List.cons_ne_nil _ _) hscan.symm

theorem mem_idleIn : key ∈ idleIn r scan ↔ key ∈ scan ∧ Pickable r key := by
  rw [idleIn, Finset.mem_filter, List.mem_toFinset]

theorem idleIn_append (first rest : List String) :
    idleIn r (first ++ rest) = idleIn r first ∪ idleIn r rest := by
  ext key
  simp only [Finset.mem_union, mem_idleIn, List.mem_append]
  tauto

theorem idleIn_append_self (h : ¬ Pickable r k ∨ k ∈ before) :
    idleIn r (before ++ [k]) = idleIn r before := by
  ext key
  simp only [mem_idleIn, List.mem_append, List.mem_singleton]
  constructor
  · rintro ⟨hmem | rfl, hpick⟩
    · exact ⟨hmem, hpick⟩
    · exact ⟨h.resolve_left (not_not.mpr hpick), hpick⟩
  · exact fun ⟨hmem, hpick⟩ => ⟨Or.inl hmem, hpick⟩

theorem card_idleIn_append (hpick : Pickable r k) (hnew : k ∉ before) :
    (idleIn r (before ++ [k])).card = (idleIn r before).card + 1 := by
  have hinsert : idleIn r (before ++ [k]) = insert k (idleIn r before) := by
    ext key
    simp only [Finset.mem_insert, mem_idleIn, List.mem_append, List.mem_singleton]
    constructor
    · rintro ⟨hmem | rfl, hkey⟩
      · exact Or.inr ⟨hmem, hkey⟩
      · exact Or.inl rfl
    · rintro (rfl | ⟨hmem, hkey⟩)
      · exact ⟨Or.inr rfl, hpick⟩
      · exact ⟨Or.inl hmem, hkey⟩
  rw [hinsert, Finset.card_insert_of_notMem fun hmem => hnew (mem_idleIn.mp hmem).1]

theorem card_idleIn_le (first rest : List String) :
    (idleIn r first).card ≤ (idleIn r (first ++ rest)).card := by
  rw [idleIn_append]
  exact Finset.card_le_card Finset.subset_union_left

/-- Nothing is reached once there are enough idle gateways. -/
theorem not_reachedAfter (h : numGW ≤ (idleIn r before).card) :
    ¬ ReachedAfter r numGW before scan key := by
  rintro ⟨first, rest, -, hcard⟩
  have hle := card_idleIn_le (r := r) before first
  omega

end Reaching

section Finding

variable {r : Redis} {before scan : List String} {key : String}

def HasAddress (r : Redis) (key : String) : Prop :=
  ((gwLoad (r.lookup key)).lookup "gw_ip").isSome

/-- A gateway is found exactly when there is an idle one with an address. -/
def FindsIdle (r : Redis) (scan : List String) : Prop :=
  ∃ found, findAvailableGateway r scan = .ok found ∧ (found.isSome ↔ ∃ key, Pickable r key)

theorem find_ok (hnone : idleIn r before = ∅)
    (h : ∀ key, ReachedAfter r 1 before scan key → HasAddress r key) :
    ∃ found, findAvailableGateway r scan = .ok found ∧
      (found.isSome ↔ ∃ key ∈ scan, Pickable r key) := by
  induction scan generalizing before with
  | nil => exact ⟨none, rfl, by simp⟩
  | cons k scan ih =>
    have hfirst : (idleIn r before).card < 1 := by rw [hnone, Finset.card_empty]; exact one_pos
    have haddress : HasAddress r k := h k (reachedAfter_cons.mpr (Or.inl ⟨rfl, hfirst⟩))
    by_cases hpick : Pickable r k
    · obtain ⟨gwIp, hfound⟩ := findAvailableGateway_first hpick scan
      exact ⟨some (k, gwIp), hfound, iff_of_true rfl ⟨k, List.mem_cons_self, hpick⟩⟩
    · have hnone' : idleIn r (before ++ [k]) = ∅ := by
        rw [idleIn_append_self (Or.inl hpick), hnone]
      obtain ⟨found, hrest, hfound⟩ := ih hnone' fun key hkey =>
        h key (reachedAfter_cons.mpr (Or.inr hkey))
      obtain ⟨gwIp, hip⟩ := Option.isSome_iff_exists.mp haddress
      have hbusy : isFree (gwLoad (r.lookup k)) = false :=
        Bool.eq_false_iff.mpr fun hfree => hpick ⟨hfree, haddress⟩
      refine ⟨found, ?_, ?_⟩
      · simp only [findAvailableGateway, hip, hbusy, Bool.false_eq_true, if_false]
        exact hrest
      · rw [hfound, List.exists_mem_cons_iff, or_iff_right hpick]

theorem hasAddress_of_find {found : Option (String × Json)}
    (hfind : findAvailableGateway r scan = .ok found) :
    ∀ key, ReachedAfter r 1 before scan key → HasAddress r key := by
  induction scan generalizing before with
  | nil => exact fun key hkey => absurd hkey not_reachedAfter_nil
  | cons k scan ih =>
    simp only [findAvailableGateway] at hfind
    cases hip : (gwLoad (r.lookup k)).lookup "gw_ip" with
    | none =>
      rw [hip] at hfind
      cases hfind
    | some gwIp =>
      rw [hip] at hfind
      have haddress : HasAddress r k := by rw [HasAddress, hip]; rfl
      intro key hkey
      rcases reachedAfter_cons.mp hkey with ⟨rfl, -⟩ | hrest
      · exact haddress
      · by_cases hfree : isFree (gwLoad (r.lookup k)) = true
        · have hmem : k ∈ idleIn r (before ++ [k]) :=
            mem_idleIn.mpr ⟨by simp, hfree, haddress⟩
          exact absurd hrest (not_reachedAfter (Finset.card_pos.mpr ⟨k, hmem⟩))
        · simp only [hfree, Bool.false_eq_true, if_false] at hfind
          exact ih hfind key hrest

theorem findsIdle_iff (hscan : keys r ⊆ scan) :
    FindsIdle r scan ↔ ∀ key, Reached r 1 scan key → HasAddress r key := by
  constructor
  · rintro ⟨found, hfind, -⟩
    exact hasAddress_of_find hfind
  · intro h
    obtain ⟨found, hfind, hfound⟩ := find_ok (show idleIn r [] = ∅ from rfl) h
    refine ⟨found, hfind, hfound.trans ⟨fun ⟨key, _, hkey⟩ => ⟨key, hkey⟩, ?_⟩⟩
    exact fun ⟨key, hkey⟩ => ⟨key, hscan hkey.mem_keys, hkey⟩

end Finding

section Stopping

variable {dates : Dates} {now : ℤ} {r : Redis} {numGW : ℕ} {before scan : List String}
variable {w : World Redis} {k key : String}

/-- The entry that `downScale` writes. -/
def stoppingEntry (dates : Dates) (now : ℤ) (r : Redis) (key : String) : Dict :=
  putAll (gwLoad (r.lookup key)) (stoppingFields (.str (dates.isoformat ⟨now, none⟩)))

/-- The store after the idle gateways among some keys have been stopped. -/
def Marked (dates : Dates) (now : ℤ) (r : Redis) (before : List String) (store : Redis) : Prop :=
  ∀ key, store.lookup key = if key ∈ idleIn r before
    then some (gwDumpMedia (stoppingEntry dates now r key)) else r.lookup key

theorem Marked.gwIpOf_eq (h : Marked dates now r before w.store) (key : String) :
    gwIpOf (gwLoad (w.store.lookup key)) = gwIpOf (gwLoad (r.lookup key)) := by
  rw [h key]
  split
  · have hip : (stoppingEntry dates now r key).lookup "gw_ip" =
        (gwLoad (r.lookup key)).lookup "gw_ip" :=
      lookup_putAll_of_notMem _ _ (by simp [stoppingFields, keys])
    rw [gwDumpMedia, gwLoad, gwIpOf, hip, gwIpOf]
  · rfl

theorem stoppingEntry_state (dates : Dates) (now : ℤ) (r : Redis) (key : String) :
    field (stoppingEntry dates now r key) "gw_state" = .str "stopping" := by
  rw [field, stoppingEntry, lookup_putAll]
  rfl

theorem Marked.isFree_eq (h : Marked dates now r before w.store) (key : String) :
    isFree (gwLoad (w.store.lookup key)) =
      (isFree (gwLoad (r.lookup key)) && decide (key ∉ idleIn r before)) := by
  rw [h key]
  split
  · next hmem =>
    rw [gwDumpMedia, gwLoad, isFree, stoppingEntry_state, decide_eq_false (not_not.mpr hmem),
      Bool.and_false]
    rfl
  · next hmem => rw [decide_eq_true hmem, Bool.and_true]

/-- Stopping a gateway that is idle for the first time. -/
theorem Marked.stop (h : Marked dates now r before w.store) (hpick : Pickable r k)
    (hnew : k ∉ before) :
    Marked dates now r (before ++ [k]) (markStopping w.store k (gwLoad (w.store.lookup k))
      (.str (dates.isoformat ⟨now, none⟩))) := by
  have hk : w.store.lookup k = r.lookup k := by
    rw [h k, if_neg fun hmem => hnew (mem_idleIn.mp hmem).1]
  intro key
  rw [markStopping, lookup_put]
  by_cases hkey : key = k
  · subst hkey
    have hmem : key ∈ idleIn r (before ++ [key]) := mem_idleIn.mpr ⟨by simp, hpick⟩
    rw [if_pos rfl, if_pos hmem, hk]
    rfl
  · have hiff : key ∈ idleIn r (before ++ [k]) ↔ key ∈ idleIn r before := by
      simp [mem_idleIn, hkey]
    rw [if_neg hkey, h key]
    simp only [hiff]

theorem address_of_gwIpOf {gw : Dict} {address : String} (h : gwIpOf gw = .ok address) :
    (gw.lookup "gw_ip").isSome := by
  rw [gwIpOf] at h
  cases hip : gw.lookup "gw_ip" with
  | none =>
    rw [hip] at h
    cases h
  | some v => rfl

/-- One turn of the loop, for a key that is reached. -/
theorem exec_stopIdle_cons (h : Marked dates now r before w.store)
    (hlt : (idleIn r before).card < numGW) (k : String) (scan : List String) :
    match gwIpOf (gwLoad (r.lookup k)) with
    | .error e => exec (stopIdle dates now (k :: scan) (numGW - (idleIn r before).card)) w =
        (.error e, w)
    | .ok address => ∃ store, Marked dates now r (before ++ [k]) store ∧
        exec (stopIdle dates now (k :: scan) (numGW - (idleIn r before).card)) w =
          exec (do
            let ipList ← stopIdle dates now scan (numGW - (idleIn r (before ++ [k])).card)
            pure (if Pickable r k ∧ k ∉ before then hostOf address :: ipList else ipList))
            ⟨store, w.calls⟩ := by
  have hnum : ¬ ((numGW : ℤ) - (idleIn r before).card ≤ 0) := by omega
  have hsame := h.gwIpOf_eq k
  rw [stopIdle, if_neg hnum, exec_bind_ok (exec_get w)]
  cases hip : gwIpOf (gwLoad (r.lookup k)) with
  | error e => exact exec_bind_error (by rw [hsame, hip, exec_liftM])
  | ok address =>
    dsimp only
    rw [exec_bind_ok (by rw [hsame, hip, exec_liftM]), h.isFree_eq]
    by_cases hfresh : Pickable r k ∧ k ∉ before
    · obtain ⟨hpick, hnew⟩ := hfresh
      have hnotmem : k ∉ idleIn r before := fun hmem => hnew (mem_idleIn.mp hmem).1
      have hleft : (numGW : ℤ) - (idleIn r before).card - 1 =
          numGW - (idleIn r (before ++ [k])).card := by
        rw [card_idleIn_append hpick hnew]
        push_cast
        omega
      refine ⟨_, h.stop hpick hnew, ?_⟩
      have hfirst (ipList : List String) : (if Pickable r k ∧ k ∉ before
          then hostOf address :: ipList else ipList) = hostOf address :: ipList :=
        if_pos ⟨hpick, hnew⟩
      rw [hpick.1, decide_eq_true hnotmem, Bool.and_true, if_pos rfl,
        exec_bind_ok (exec_modify _ _), hleft]
      simp only [hfirst]
    · have hseen : ¬ Pickable r k ∨ k ∈ before := by
        by_cases hnew : k ∈ before
        · exact Or.inr hnew
        · exact Or.inl fun hpick => hfresh ⟨hpick, hnew⟩
      have hbusy : (isFree (gwLoad (r.lookup k)) && decide (k ∉ idleIn r before)) = false := by
        rw [Bool.and_eq_false_iff]
        rcases hseen with hpick | hmem
        · exact Or.inl (Bool.eq_false_iff.mpr fun hfree => hpick ⟨hfree, address_of_gwIpOf hip⟩)
        · by_cases hpick : Pickable r k
          · exact Or.inr (decide_eq_false (not_not.mpr (mem_idleIn.mpr ⟨hmem, hpick⟩)))
          · exact Or.inl (Bool.eq_false_iff.mpr fun hfree =>
              hpick ⟨hfree, address_of_gwIpOf hip⟩)
      refine ⟨w.store, fun key => ?_, ?_⟩
      · rw [h key, idleIn_append_self hseen]
      · have hnone (ipList : List String) : (if Pickable r k ∧ k ∉ before
            then hostOf address :: ipList else ipList) = ipList := if_neg hfresh
        simp only [hnone, hbusy, Bool.false_eq_true, if_false, idleIn_append_self hseen, bind_pure]

/-- The host of an idle gateway that is reached and not yet stopped. -/
def HostReached (r : Redis) (numGW : ℕ) (before scan : List String) (host : String) : Prop :=
  ∃ key address, ReachedAfter r numGW before scan key ∧ key ∉ before ∧ Pickable r key ∧
    (gwLoad (r.lookup key)).lookup "gw_ip" = some (.str address) ∧ host = hostOf address

theorem hostReached_cons {host address : String} (hlt : (idleIn r before).card < numGW)
    (hip : (gwLoad (r.lookup k)).lookup "gw_ip" = some (.str address)) :
    HostReached r numGW before (k :: scan) host ↔
      (Pickable r k ∧ k ∉ before) ∧ host = hostOf address ∨
        HostReached r numGW (before ++ [k]) scan host := by
  constructor
  · rintro ⟨key, other, hreached, hnew, hpick, hother, rfl⟩
    by_cases hkey : key = k
    · subst hkey
      rw [hip] at hother
      obtain rfl := Json.str.inj (Option.some.inj hother)
      exact Or.inl ⟨⟨hpick, hnew⟩, rfl⟩
    · rcases reachedAfter_cons.mp hreached with ⟨heq, -⟩ | hrest
      · exact absurd heq hkey
      · exact Or.inr ⟨key, other, hrest, by simp [hnew, hkey], hpick, hother, rfl⟩
  · rintro (⟨⟨hpick, hnew⟩, rfl⟩ | ⟨key, other, hreached, hnew, hpick, hother, rfl⟩)
    · exact ⟨k, address, reachedAfter_cons.mpr (Or.inl ⟨rfl, hlt⟩), hnew, hpick, hip, rfl⟩
    · refine ⟨key, other, reachedAfter_cons.mpr (Or.inr hreached), ?_, hpick, hother, rfl⟩
      exact fun hmem => hnew (List.mem_append_left _ hmem)

theorem not_hostReached {host : String} (h : ∀ key, ¬ ReachedAfter r numGW before scan key) :
    ¬ HostReached r numGW before scan host := by
  rintro ⟨key, address, hreached, -⟩
  exact h key hreached

/-- Where every key that is reached has an address, the loop stops as many gateways as it is
asked for, or all that are idle. -/
theorem exec_stopIdle_ok (hmarked : Marked dates now r before w.store)
    (hle : (idleIn r before).card ≤ numGW)
    (h : ∀ key, ReachedAfter r numGW before scan key → Addressed r key) :
    ∃ seen ipList store,
      exec (stopIdle dates now scan (numGW - (idleIn r before).card)) w =
        (.ok ipList, ⟨store, w.calls⟩) ∧
      Marked dates now r (before ++ seen) store ∧
      (idleIn r (before ++ seen)).card = min numGW (idleIn r (before ++ scan)).card ∧
      ∀ host, host ∈ ipList ↔ HostReached r numGW before scan host := by
  induction scan generalizing before w with
  | nil =>
    refine ⟨[], [], w.store, rfl, by rwa [List.append_nil], ?_, fun host => ?_⟩
    · rw [List.append_nil]
      omega
    · exact iff_of_false List.not_mem_nil (not_hostReached fun key => not_reachedAfter_nil)
  | cons k scan ih =>
    by_cases hlt : (idleIn r before).card < numGW
    · obtain ⟨address, haddress⟩ := h k (reachedAfter_cons.mpr (Or.inl ⟨rfl, hlt⟩))
      have hip : gwIpOf (gwLoad (r.lookup k)) = .ok address := by rw [gwIpOf, haddress]
      have hstep := exec_stopIdle_cons hmarked hlt k scan
      rw [hip] at hstep
      obtain ⟨store, hmarked', hrun⟩ := hstep
      have hle' : (idleIn r (before ++ [k])).card ≤ numGW := by
        by_cases hfresh : Pickable r k ∧ k ∉ before
        · rw [card_idleIn_append hfresh.1 hfresh.2]
          omega
        · rwa [idleIn_append_self (by tauto)]
      obtain ⟨seen, ipList, store', hrest, hmarked'', hcard, hhosts⟩ :=
        ih (w := ⟨store, w.calls⟩) hmarked' hle' fun key hkey =>
          h key (reachedAfter_cons.mpr (Or.inr hkey))
      rw [List.append_assoc, List.singleton_append] at hmarked'' hcard
      rw [List.append_assoc, List.singleton_append] at hcard
      refine ⟨k :: seen, _, store', by rw [hrun, exec_bind_ok hrest, exec_pure], hmarked'', hcard,
        fun host => ?_⟩
      rw [hostReached_cons hlt haddress, ← hhosts]
      split
      · next hfresh => rw [List.mem_cons, and_iff_right hfresh]
      · next hfresh => rw [or_iff_right fun hnot => hfresh hnot.1]
    · have hstop : exec (stopIdle dates now (k :: scan) (numGW - (idleIn r before).card)) w =
          (.ok [], w) := by
        rw [stopIdle, if_pos (by omega)]
        rfl
      have hgrow := card_idleIn_le (r := r) before (k :: scan)
      refine ⟨[], [], w.store, hstop, by rwa [List.append_nil], ?_, fun host => ?_⟩
      · rw [List.append_nil]
        omega
      · exact iff_of_false List.not_mem_nil
          (not_hostReached fun key => not_reachedAfter (by omega))

theorem text_of_gwIpOf {gw : Dict} {address : String} (h : gwIpOf gw = .ok address) :
    gw.lookup "gw_ip" = some (.str address) := by
  rw [gwIpOf] at h
  split at h
  · cases h
  · next s hip =>
    obtain rfl := Except.ok.inj h
    exact hip
  · cases h

/-- A loop that returns has read an address for every key it reached. -/
theorem addressed_of_ok {ipList : List String} {w' : World Redis}
    (hmarked : Marked dates now r before w.store)
    (hrun : exec (stopIdle dates now scan (numGW - (idleIn r before).card)) w = (.ok ipList, w')) :
    ∀ key, ReachedAfter r numGW before scan key → Addressed r key := by
  induction scan generalizing before w ipList w' with
  | nil => exact fun key hkey => absurd hkey not_reachedAfter_nil
  | cons k scan ih =>
    by_cases hlt : (idleIn r before).card < numGW
    · have hstep := exec_stopIdle_cons hmarked hlt k scan
      cases hip : gwIpOf (gwLoad (r.lookup k)) with
      | error e =>
        rw [hip] at hstep
        cases hstep.symm.trans hrun
      | ok address =>
        rw [hip] at hstep
        obtain ⟨store, hmarked', hstep⟩ := hstep
        rw [hstep, exec_bind] at hrun
        intro key hkey
        rcases reachedAfter_cons.mp hkey with ⟨rfl, -⟩ | hrest
        · exact ⟨address, text_of_gwIpOf hip⟩
        · cases hloop : exec (stopIdle dates now scan
              (numGW - (idleIn r (before ++ [k])).card)) ⟨store, w.calls⟩ with
          | mk result w₁ =>
            cases result with
            | error e =>
              rw [hloop] at hrun
              cases hrun
            | ok rest => exact ih (w := ⟨store, w.calls⟩) hmarked' hloop key hrest
    · exact fun key hkey => absurd hkey (not_reachedAfter (by omega))

end Stopping

section Reclaiming

variable {dates : Dates} {csp : Provider dates} {now : ℤ} {r : Redis} {numGW : ℕ}
variable {scan : List String}

/-- The gateways marked are as many as asked for, or all the idle ones, and no other entry
changes. -/
def Reclaims (csp : Provider dates) (now : ℤ) (r : Redis) (scan : List String) (numGW : ℕ) :
    Prop :=
  ∃ w, exec (downScale csp now scan numGW) ⟨r, []⟩ = (.ok (), w) ∧
    ((idleIn r (keys r)).filter fun key => isStopping (gwLoad (w.store.lookup key)) = true).card =
      min numGW (idleIn r (keys r)).card ∧
    ∀ key, ¬ Pickable r key → w.store.lookup key = r.lookup key

/-- An address that is a text, and the host of one that can be read where the gateway is idle. -/
def Reclaimable (csp : Provider dates) (r : Redis) (key : String) : Prop :=
  ∃ address, (gwLoad (r.lookup key)).lookup "gw_ip" = some (.str address) ∧
    (isFree (gwLoad (r.lookup key)) = true → csp.ipAddress (hostOf address) = true)

theorem not_stopping_of_free {gw : Dict} (h : isFree gw = true) : isStopping gw = false := by
  rw [Bool.eq_false_iff]
  intro hstopping
  rcases Bool.or_eq_true_iff.mp h with hcreated | hstopped
  · exact absurd (isText_unique hstopping hcreated) (by decide)
  · exact absurd (isText_unique hstopping hstopped) (by decide)

theorem Marked.filter_stopping {before : List String} {store : Redis}
    (h : Marked dates now r before store) :
    ((idleIn r (keys r)).filter fun key => isStopping (gwLoad (store.lookup key)) = true) =
      idleIn r before := by
  ext key
  rw [Finset.mem_filter]
  constructor
  · rintro ⟨hidle, hstopping⟩
    by_contra hmem
    rw [h key, if_neg hmem, not_stopping_of_free (mem_idleIn.mp hidle).2.1] at hstopping
    cases hstopping
  · intro hmem
    have hpick := (mem_idleIn.mp hmem).2
    refine ⟨mem_idleIn.mpr ⟨hpick.mem_keys, hpick⟩, ?_⟩
    rw [h key, if_pos hmem, gwDumpMedia, gwLoad, isStopping, stoppingEntry_state]
    decide

theorem idleIn_keys (hscan : keys r ⊆ scan) : idleIn r scan = idleIn r (keys r) := by
  ext key
  simp only [mem_idleIn]
  exact ⟨fun h => ⟨h.2.mem_keys, h.2⟩, fun h => ⟨hscan h.1, h.2⟩⟩

theorem marked_start (dates : Dates) (now : ℤ) (r : Redis) : Marked dates now r [] r :=
  fun _ => (if_neg (Finset.notMem_empty _)).symm

theorem reclaims_iff (hscan : keys r ⊆ scan) :
    Reclaims csp now r scan numGW ↔ ∀ key, Reached r numGW scan key → Reclaimable csp r key := by
  have hstart : (numGW : ℤ) = numGW - (idleIn r []).card := by
    rw [show idleIn r [] = ∅ from rfl, Finset.card_empty]
    omega
  constructor
  · rintro ⟨w, hrun, -⟩ key hkey
    rw [downScale, exec_bind, hstart] at hrun
    cases hloop : exec (stopIdle dates now scan (numGW - (idleIn r []).card)) ⟨r, []⟩ with
    | mk result w₁ =>
      rw [hloop] at hrun
      cases result with
      | error e => cases hrun
      | ok ipList =>
        have haddressed := addressed_of_ok (w := ⟨r, []⟩) (marked_start dates now r) hloop
        obtain ⟨seen, ipList', store, hloop', -, -, hhosts⟩ :=
          exec_stopIdle_ok (w := ⟨r, []⟩) (marked_start dates now r) (Nat.zero_le numGW) haddressed
        obtain ⟨hlist, -⟩ := Prod.mk.inj (hloop'.symm.trans hloop)
        obtain rfl := Except.ok.inj hlist
        obtain ⟨address, hip⟩ := haddressed key hkey
        refine ⟨address, hip, fun hfree => ?_⟩
        have hpick : Pickable r key := ⟨hfree, by rw [hip]; rfl⟩
        have hhost : hostOf address ∈ ipList' :=
          (hhosts _).mpr ⟨key, address, hkey, List.not_mem_nil, hpick, hip, rfl⟩
        dsimp only at hrun
        rw [if_pos (List.ne_nil_of_mem hhost)] at hrun
        cases hall : ipList'.all csp.ipAddress with
        | true => exact List.all_eq_true.mp hall _ hhost
        | false =>
          rw [exec_destroyInstances_error hall] at hrun
          cases hrun
  · intro h
    obtain ⟨seen, ipList, store, hloop, hmarked, hcard, hhosts⟩ :=
      exec_stopIdle_ok (w := ⟨r, []⟩) (marked_start dates now r) (Nat.zero_le numGW)
        fun key hkey => (h key hkey).imp fun _ haddress => haddress.1
    rw [← hstart] at hloop
    have hall : ipList.all csp.ipAddress = true := by
      refine List.all_eq_true.mpr fun host hhost => ?_
      obtain ⟨key, address, hreached, -, hpick, hip, rfl⟩ := (hhosts host).mp hhost
      obtain ⟨other, hother, hreads⟩ := h key hreached
      rw [hip] at hother
      obtain rfl := Json.str.inj (Option.some.inj hother)
      exact hreads hpick.1
    obtain ⟨w, hrun, hstore⟩ : ∃ w, exec (downScale csp now scan numGW) ⟨r, []⟩ = (.ok (), w) ∧
        w.store = store := by
      rw [downScale, exec_bind_ok hloop]
      split
      · exact ⟨_, exec_destroyInstances hall _, rfl⟩
      · exact ⟨_, exec_pure _ _, rfl⟩
    refine ⟨w, hrun, ?_, fun key hkey => ?_⟩
    · rw [hstore, hmarked.filter_stopping, hcard, List.nil_append, idleIn_keys hscan]
    · rw [hstore, hmarked key, if_neg fun hmem => hkey (mem_idleIn.mp hmem).2]

end Reclaiming

section Cleaning

variable {dates : Dates} (csp : Provider dates) (cfg : Config) (now : ℤ)
variable (ipAddress : Json → Bool) (repr : Json → String)

/-- Whether an entry has been stopping for longer than the threshold. -/
def isStale (dates : Dates) (cfg : Config) (now : ℤ) (gw : Dict) : Except PyError Bool := do
  if isText (field gw "gw_state") "stopping" && truthy (field gw "start_time") then
    match field gw "start_time" with
    | .str lastUpdate =>
      let date ← parseDate dates lastUpdate
      let age ← elapsed now date
      .ok (decide ((age : ℚ) / 1000000 > cfg.cleanupThresholdSeconds.getD 600))
    | _ => .error .typeError
  else .ok false

/-- The loop of `cleanup`. -/
def staleIps (dates : Dates) (cfg : Config) (now : ℤ) (r : Redis) :
    List String → Except PyError (List Json)
  | [] => .ok []
  | key :: rest => do
    let gw := gwLoad (r.lookup key)
    match gw.lookup "gw_ip" with
    | none => .error (.keyError "gw_ip")
    | some gwIp =>
      let stale ← isStale dates cfg now gw
      let ipList ← staleIps dates cfg now r rest
      .ok (if stale then gwIp :: ipList else ipList)

/-- A list of values handed to the provider, which raises on one it cannot read. -/
def destroyValues (ipList : List Json) : MediaScaling Unit := do
  modify fun w => { w with calls := w.calls ++ [.destroyInstances (ipList.map (pyStr repr))] }
  if ipList.all ipAddress then pure () else throw .valueError

def cleanup (scan : List String) : MediaScaling Unit := do
  let ipList ← liftM (staleIps dates cfg now (← get).store scan)
  if ipList ≠ [] then destroyValues ipAddress repr ipList
  csp.cleanup cfg now

/-- An entry with an address; the date of a stopping one can be subtracted, and the address of
one that is stale can be read. -/
def Cleanable (dates : Dates) (cfg : Config) (now : ℤ) (ipAddress : Json → Bool) (r : Redis)
    (key : String) : Prop :=
  ∃ gwIp, (gwLoad (r.lookup key)).lookup "gw_ip" = some gwIp ∧
    (isStopping (gwLoad (r.lookup key)) = true →
      truthy (field (gwLoad (r.lookup key)) "start_time") = true →
      ∃ lastUpdate wall offset, field (gwLoad (r.lookup key)) "start_time" = .str lastUpdate ∧
        dates.parse lastUpdate = some ⟨wall, some offset⟩ ∧
        (((now - (wall - offset) : ℤ) : ℚ) / 1000000 > cfg.cleanupThresholdSeconds.getD 600 →
          ipAddress gwIp = true))

variable {csp cfg now ipAddress repr} {r : Redis} {key : String} {scan : List String}

/-- The date of a stopping entry that can be subtracted. -/
theorem isStale_eq_ok {gw : Dict} {stale : Bool} :
    isStale dates cfg now gw = .ok stale ↔
      (isStopping gw && truthy (field gw "start_time")) = false ∧ stale = false ∨
      (isStopping gw && truthy (field gw "start_time")) = true ∧
        ∃ lastUpdate wall offset, field gw "start_time" = .str lastUpdate ∧
          dates.parse lastUpdate = some ⟨wall, some offset⟩ ∧
          stale = decide (((now - (wall - offset) : ℤ) : ℚ) / 1000000 >
            cfg.cleanupThresholdSeconds.getD 600) := by
  have hstopping : isText (field gw "gw_state") "stopping" = isStopping gw := rfl
  rw [isStale, hstopping]
  cases hcond : (isStopping gw && truthy (field gw "start_time")) with
  | false =>
    simp only [Bool.false_eq_true, if_false, Except.ok.injEq, false_and, or_false, true_and]
    exact eq_comm
  | true =>
    simp only [if_true, Bool.true_eq_false, false_and, false_or, true_and]
    cases hdate : field gw "start_time" with
    | str lastUpdate =>
      simp only [Json.str.injEq, parseDate]
      cases hparse : dates.parse lastUpdate with
      | none => simp [hparse, bind, Except.bind]
      | some date =>
        obtain ⟨wall, offset⟩ := date
        cases offset with
        | none => simp [hparse, bind, Except.bind, elapsed]
        | some offset => simp [hparse, bind, Except.bind, elapsed, eq_comm]
    | _ => simp

theorem exec_destroyValues {ipList : List Json} (h : ipList.all ipAddress = true)
    (w : World Redis) :
    exec (destroyValues ipAddress repr ipList) w = (.ok (), { w with
      calls := w.calls ++ [.destroyInstances (ipList.map (pyStr repr))] }) := by
  rw [destroyValues, exec_bind_ok (exec_modify _ _), if_pos h, exec_pure]

theorem exec_destroyValues_error {ipList : List Json} (h : ipList.all ipAddress = false)
    (w : World Redis) :
    exec (destroyValues ipAddress repr ipList) w = (.error .valueError, { w with
      calls := w.calls ++ [.destroyInstances (ipList.map (pyStr repr))] }) := by
  rw [destroyValues, exec_bind_ok (exec_modify _ _), h]
  rfl

theorem staleIps_ok (h : ∀ key ∈ scan, Cleanable dates cfg now ipAddress r key) :
    ∃ ipList, staleIps dates cfg now r scan = .ok ipList ∧ ipList.all ipAddress = true := by
  induction scan with
  | nil => exact ⟨[], rfl, rfl⟩
  | cons key scan ih =>
    obtain ⟨⟨gwIp, hip, hstale⟩, hrest⟩ := List.forall_mem_cons.mp h
    obtain ⟨ipList, hlist, hall⟩ := ih hrest
    cases hcond : (isStopping (gwLoad (r.lookup key)) &&
        truthy (field (gwLoad (r.lookup key)) "start_time")) with
    | false =>
      have hno : isStale dates cfg now (gwLoad (r.lookup key)) = .ok false :=
        isStale_eq_ok.mpr (Or.inl ⟨hcond, rfl⟩)
      refine ⟨ipList, ?_, hall⟩
      rw [staleIps, hip, hno, hlist]
      rfl
    | true =>
      obtain ⟨hstopping, htruthy⟩ := Bool.and_eq_true_iff.mp hcond
      obtain ⟨lastUpdate, wall, offset, hdate, hparse, hreads⟩ := hstale hstopping htruthy
      have hage : isStale dates cfg now (gwLoad (r.lookup key)) =
          .ok (decide (((now - (wall - offset) : ℤ) : ℚ) / 1000000 >
            cfg.cleanupThresholdSeconds.getD 600)) :=
        isStale_eq_ok.mpr (Or.inr ⟨hcond, lastUpdate, wall, offset, hdate, hparse, rfl⟩)
      refine ⟨_, by rw [staleIps, hip, hage, hlist]; rfl, ?_⟩
      split
      · next hold => rw [List.all_cons, hreads (of_decide_eq_true hold), hall, Bool.and_true]
      · exact hall

theorem cleanable_of_ok {ipList : List Json} (hrun : staleIps dates cfg now r scan = .ok ipList)
    (hall : ipList.all ipAddress = true) :
    ∀ key ∈ scan, Cleanable dates cfg now ipAddress r key := by
  induction scan generalizing ipList with
  | nil => exact fun key hkey => nomatch hkey
  | cons key scan ih =>
    rw [staleIps] at hrun
    cases hip : (gwLoad (r.lookup key)).lookup "gw_ip" with
    | none =>
      rw [hip] at hrun
      cases hrun
    | some gwIp =>
      rw [hip] at hrun
      obtain ⟨stale, hstale, hrun⟩ := bind_eq_ok hrun
      obtain ⟨rest, hrest, hrun⟩ := bind_eq_ok hrun
      obtain rfl := Except.ok.inj hrun
      have hreads : stale = true → ipAddress gwIp = true := by
        rintro rfl
        exact (Bool.and_eq_true_iff.mp hall).1
      have hothers : rest.all ipAddress = true := by
        cases stale with
        | true => exact (Bool.and_eq_true_iff.mp hall).2
        | false => exact hall
      refine List.forall_mem_cons.mpr ⟨⟨gwIp, hip, fun hstopping htruthy => ?_⟩, ih hrest hothers⟩
      rcases isStale_eq_ok.mp hstale with
        ⟨hcond, -⟩ | ⟨-, lastUpdate, wall, offset, hdate, hparse, rfl⟩
      · rw [hstopping, htruthy] at hcond
        cases hcond
      · exact ⟨lastUpdate, wall, offset, hdate, hparse, fun hold => hreads (decide_eq_true hold)⟩

theorem cleanup_iff : (exec (cleanup csp cfg now ipAddress repr scan) ⟨r, []⟩).1 = .ok () ↔
    ∀ key ∈ scan, Cleanable dates cfg now ipAddress r key := by
  have hbase (calls : List ProviderCall) : (exec (csp.cleanup cfg now) ⟨r, calls⟩).1 = .ok () := by
    obtain ⟨base, hbase⟩ := exec_baseCleanup csp cfg now (⟨r, calls⟩ : World Redis)
    rw [hbase]
  rw [cleanup, exec_bind_ok (exec_get _)]
  constructor
  · intro hrun
    cases hlist : staleIps dates cfg now r scan with
    | error e =>
      rw [hlist, exec_bind_error (exec_liftM _ _)] at hrun
      cases hrun
    | ok ipList =>
      refine cleanable_of_ok hlist ?_
      rw [hlist, exec_bind_ok (exec_liftM _ _)] at hrun
      cases hall : ipList.all ipAddress with
      | true => rfl
      | false =>
        have hne : ipList ≠ [] := by
          rintro rfl
          cases hall
        rw [if_pos hne, exec_bind_error (exec_destroyValues_error hall _)] at hrun
        cases hrun
  · intro h
    obtain ⟨ipList, hlist, hall⟩ := staleIps_ok h
    rw [hlist, exec_bind_ok (exec_liftM _ _)]
    by_cases hne : ipList ≠ []
    · rw [if_pos hne, exec_bind_ok (exec_destroyValues hall _)]
      exact hbase _
    · rw [if_neg hne]
      exact hbase _

theorem staleAddress_text {gw : Dict} {address : String}
    (h : gw.lookup "gw_ip" = some (.str address)) :
    staleAddress dates cfg now gw =
      (isStale dates cfg now gw).map fun stale => if stale then some address else none := by
  have hip : gwIpOf gw = .ok address := by rw [gwIpOf, h]
  rw [staleAddress, isStale, hip]
  cases hcond : (isText (field gw "gw_state") "stopping" && truthy (field gw "start_time")) with
  | false => rfl
  | true =>
    cases field gw "start_time" with
    | str lastUpdate =>
      cases hdate : parseDate dates lastUpdate with
      | error e => simp [hdate, bind, Except.bind, Except.map]
      | ok date =>
        cases hage : elapsed now date with
        | error e => simp [hdate, hage, bind, Except.bind, Except.map]
        | ok age => simp [hdate, hage, bind, Except.bind, Except.map]
    | _ => rfl

theorem staleIps_texts (h : ∀ key ∈ scan, ∀ v, (gwLoad (r.lookup key)).lookup "gw_ip" = some v →
    ∃ address, v = .str address) :
    staleIps dates cfg now r scan =
      (staleAddresses dates cfg now r scan).map (List.map Json.str) := by
  induction scan with
  | nil => rfl
  | cons key scan ih =>
    obtain ⟨hkey, hrest⟩ := List.forall_mem_cons.mp h
    cases hip : (gwLoad (r.lookup key)).lookup "gw_ip" with
    | none =>
      have hmissing : staleAddress dates cfg now (gwLoad (r.lookup key)) =
          .error (.keyError "gw_ip") := by
        rw [staleAddress, gwIpOf, hip]
        rfl
      rw [staleIps, staleAddresses, hip, hmissing]
      rfl
    | some v =>
      obtain ⟨address, rfl⟩ := hkey v hip
      rw [staleIps, staleAddresses, hip, staleAddress_text hip, ih hrest]
      cases isStale dates cfg now (gwLoad (r.lookup key)) with
      | error e => rfl
      | ok stale =>
        cases staleAddresses dates cfg now r scan with
        | error e => rfl
        | ok ipList => cases stale <;> rfl

/-- On addresses that are texts, this is the cleanup of the media scaler. -/
theorem cleanup_texts (h : ∀ key ∈ scan, ∀ v, (gwLoad (r.lookup key)).lookup "gw_ip" = some v →
    ∃ address, v = .str address)
    (hreads : ∀ address, ipAddress (.str address) = csp.ipAddress address) :
    exec (cleanup csp cfg now ipAddress repr scan) ⟨r, []⟩ =
      exec (MediaScaler.cleanup csp cfg now scan) ⟨r, []⟩ := by
  have hdestroy (ipList : List String) :
      destroyValues ipAddress repr (ipList.map Json.str) = csp.destroyInstances ipList := by
    have htexts : (ipList.map Json.str).map (pyStr repr) = ipList := by
      rw [List.map_map]
      exact List.map_id ipList
    have hall : (ipList.map Json.str).all ipAddress = ipList.all csp.ipAddress := by
      rw [List.all_map]
      exact congrArg ipList.all (funext hreads)
    rw [destroyValues, Provider.destroyInstances, htexts, hall]
  rw [cleanup, MediaScaler.cleanup, exec_bind_ok (exec_get _), exec_bind_ok (exec_get _),
    staleIps_texts h]
  cases staleAddresses dates cfg now r scan with
  | error e => rfl
  | ok ipList =>
    have hempty : ipList.map Json.str ≠ [] ↔ ipList ≠ [] := by simp
    rw [Except.map, exec_bind_ok (exec_liftM _ _), exec_bind_ok (exec_liftM _ _), hdestroy]
    simp only [hempty]

end Cleaning

/-- When each of the three scans gets past the entries of the registry. -/
theorem pool_unblocked_iff {dates : Dates} (csp : Provider dates) (cfg : Config)
    (ipAddress : Json → Bool) (repr : Json → String) (now localNow : ℤ) (r : Redis)
    (scan : List String) (hscan : keys r ⊆ scan) :
    (FindsIdle r scan ↔ ∀ key, Reached r 1 scan key → HasAddress r key) ∧
    (∀ numGW, Reclaims csp localNow r scan numGW ↔
      ∀ key, Reached r numGW scan key → Reclaimable csp r key) ∧
    ((exec (cleanup csp cfg now ipAddress repr scan) ⟨r, []⟩).1 = .ok () ↔
      ∀ key ∈ scan, Cleanable dates cfg now ipAddress r key) :=
  ⟨findsIdle_iff hscan, fun _ => reclaims_iff hscan, cleanup_iff⟩

def plainAddress : Json → Bool
  | .str address => plainProvider.ipAddress address
  | _ => false

/-- An idle gateway, and an entry that cannot be read. -/
def mixedPool : Redis := idleGateway ++ [("gw2", .garbage)]

/-- What cannot be read comes after the one that is looked for; the cleanup looks at both. -/
theorem late_garbage_unblocked : FindsIdle mixedPool ["gw1", "gw2"] ∧
    Reclaims plainProvider 1790238048000000 mixedPool ["gw1", "gw2"] 1 ∧
    (exec (cleanup plainProvider plainConfig 0 plainAddress (fun _ => "") ["gw1", "gw2"])
      ⟨mixedPool, []⟩).1 ≠ .ok () := by
  obtain ⟨hfinds, hreclaims, hcleans⟩ := pool_unblocked_iff plainProvider plainConfig plainAddress
    (fun _ => "") 0 1790238048000000 mixedPool ["gw1", "gw2"] (by decide)
  have hcount : (idleIn mixedPool ["gw1"]).card = 1 := by decide +kernel
  have honly {key : String} (h : Reached mixedPool 1 ["gw1", "gw2"] key) : key = "gw1" := by
    rcases reachedAfter_cons.mp h with ⟨hkey, -⟩ | h
    · exact hkey
    · rcases reachedAfter_cons.mp h with ⟨-, hcard⟩ | ⟨first, rest, hnil, -⟩
      · exact absurd hcard (by rw [List.nil_append, hcount]; exact lt_irrefl 1)
      · exact absurd hnil.symm (List.append_ne_nil_of_right_ne_nil _ (List.cons_ne_nil _ _))
  refine ⟨hfinds.mpr fun key hkey => ?_, (hreclaims 1).mpr fun key hkey => ?_, fun hrun => ?_⟩
  · rw [honly hkey]
    exact (rfl : HasAddress mixedPool "gw1")
  · rw [honly hkey]
    exact ⟨"10.0.0.1:8080", rfl, fun _ => by decide⟩
  · obtain ⟨gwIp, hgwIp, -⟩ := hcleans.mp hrun "gw2" (by decide)
    cases hgwIp

/-- A key that is gone when it is read comes before the idle gateway. -/
theorem vanished_key_blocks : ¬ ∀ (r : Redis) (scan : List String), keys r ⊆ scan →
    FindsIdle r scan := by
  intro h
  obtain ⟨found, hfound, -⟩ := h idleGateway ["gw0", "gw1"] (by decide)
  have hraises : findAvailableGateway idleGateway ["gw0", "gw1"] = .error "gw_ip" := rfl
  cases hraises.symm.trans hfound

end PoolScans
