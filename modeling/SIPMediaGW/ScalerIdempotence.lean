import SIPMediaGW.ListCounting
import SIPMediaGW.ScalerOvershoot

/-! # Scaling twice in a row

An iteration counts as busy every registered gateway that is not ready. The gateways it stops
stay registered: the next iteration counts them as busy. -/
namespace ScalerIdempotence

open FieldMap
open PythonArithmetic
open PythonJson
open ProxyRegistry
open Scaler
open ScalerCreation
open MediaScaler
open MediaCleanup
open ScalerOvershoot (idle)
open StatefulExceptions

def gwStates : List String := ["created", "started", "stopped", "deleted", "stopping"]

def inState (registry : Redis) (state key : String) : Bool :=
  isText (field (gwLoad (registry.lookup key)) "gw_state") state

def Addressed (registry : Redis) (key : String) : Prop :=
  ∃ address, (gwLoad (registry.lookup key)).lookup "gw_ip" = some (.str address)

/-- The entries of distinct gateways, each with an address and a state. -/
structure Pool (registry : Redis) : Prop where
  nodup : (keys registry).Nodup
  address : ∀ key ∈ keys registry, Addressed registry key
  state : ∀ key ∈ keys registry, ∃ state ∈ gwStates, inState registry state key = true

def started (registry : Redis) : ℕ := (keys registry).countP (inState registry "started")

/-- The registered gateways that are not ready. -/
def busy (registry : Redis) : ℤ := (keys registry).length - idle registry (keys registry)

/-- Sizes that can be created, and a slot with its two bounds. -/
structure Setting (dates : Dates) where
  arithmetic : Arithmetic
  csp : Provider dates
  cfg : Config
  sizes : Multiples 1 csp.instType
  offered : csp.instType ≠ []
  cpu_pos : 0 < cfg.cpuPerGw
  timeLine : List (String × Slot)
  slot : Slot
  maxGw : ℚ
  slot_max : slot.maxGw = some maxGw
  loadMax : ℚ
  slot_load : slot.loadMax = some loadMax
  load_pos : 0 < loadMax
  load_le_one : loadMax ≤ 1

/-- An iteration reads the clock and goes three times through the registry. -/
structure Iteration where
  scaleTime : String
  localNow : ℤ
  registered : List String
  ready : List String
  stoppable : List String

/-- The busy number of an iteration that is given no number of calls. -/
def inCallNum (it : Iteration) : MediaScaling ℤ := do
  let currentCapacity ← getCurrentCapacity it.registered
  let readyToRunNum ← getReadyToRunCapacity it.ready
  pure (currentCapacity - readyToRunNum)

section Setting

variable {dates : Dates} (S : Setting dates)

def Setting.scale (it : Iteration) : MediaScaling Unit :=
  Scaler.scale S.arithmetic S.csp S.cfg S.timeLine it.scaleTime none
    (getCurrentCapacity it.registered) (getReadyToRunCapacity it.ready)
    (downScale S.csp it.localNow it.stoppable)

/-- An iteration in the slot, whose scans return each key of the registry. -/
structure Setting.Reads (it : Iteration) (registry : Redis) : Prop where
  slot : slotAt S.timeLine it.scaleTime = .ok S.slot
  registered : it.registered.Perm (keys registry)
  ready : it.ready.Perm (keys registry)
  stoppable : it.stoppable.Perm (keys registry)

/-- The gateways that keep the buffer of ready ones while some are busy. -/
def Setting.buffer (busy : ℤ) : ℚ :=
  S.arithmetic.number (S.arithmetic.number (S.slot.unlockedMin.getD 0) + busy)

/-- The gateways that keep the load. -/
def Setting.load (busy : ℤ) : ℚ :=
  S.arithmetic.number (busy / S.arithmetic.number S.loadMax)

/-- What the slot asks for while some gateways are busy, `maxGw` left aside. -/
def Setting.demand (busy : ℤ) : ℚ :=
  max (max (S.arithmetic.number (S.slot.minGw.getD 0)) (S.buffer busy)) (S.load busy)

/-- Less than one gateway of `n` is too many. -/
def Setting.Near (target : ℚ) (n : ℤ) : Prop := -1 < S.arithmetic.number (target - n)

def Setting.after (it : Iteration) (registry : Redis) : Redis :=
  (exec (S.scale it) ⟨registry, []⟩).2.store

/-- The provider is asked to destroy instances, and for nothing else. -/
def Setting.OnlyDownscales (it : Iteration) (registry : Redis) : Prop :=
  ∃ ipList, (exec (S.scale it) ⟨registry, []⟩).2.calls = [.destroyInstances ipList]

/-- The provider is asked for nothing. -/
def Setting.Quiet (it : Iteration) (registry : Redis) : Prop :=
  (exec (S.scale it) ⟨registry, []⟩).2.calls = []

/-- The busy number is that of the started gateways, and a second iteration does nothing after
one that only stopped gateways. -/
def Setting.Idempotent (first second : Iteration) (registry : Redis) : Prop :=
  exec (inCallNum first) ⟨registry, []⟩ = (.ok (started registry : ℤ), ⟨registry, []⟩) ∧
    (S.OnlyDownscales first registry → S.Quiet second (S.after first registry))

/-- With `n` gateways, `s` of them started, the gateways that are stopped are busy beside those:
neither the buffer nor the load of them all asks for more than `n`, and one of the two for more
than one less. -/
def Setting.Settles (n s : ℤ) : Prop :=
  let stopped := -missing S.arithmetic (S.demand s) n
  0 < stopped →
    S.buffer (s + stopped) ≤ n ∧ S.load (s + stopped) ≤ n ∧
      (S.Near (S.buffer (s + stopped)) n ∨ S.Near (S.load (s + stopped)) n)

end Setting

section Counting

variable {registry : Redis} {it : Iteration} {dates : Dates} {S : Setting dates}

theorem idle_perm {scan scan' : List String} (h : scan.Perm scan') :
    idle registry scan = idle registry scan' := h.countP_eq _

theorem exec_getReadyToRunCapacity (scan : List String) (w : World Redis) :
    exec (getReadyToRunCapacity scan) w = (.ok (idle w.store scan : ℤ), w) := by
  rw [getReadyToRunCapacity, exec_bind_ok (exec_get w)]
  rfl

theorem exec_inCallNum (h : S.Reads it registry) (calls : List ProviderCall) :
    exec (inCallNum it) ⟨registry, calls⟩ = (.ok (busy registry), ⟨registry, calls⟩) := by
  have hcurrent : exec (getCurrentCapacity it.registered) (⟨registry, calls⟩ : World Redis) =
      (.ok (it.registered.length : ℤ), ⟨registry, calls⟩) := rfl
  rw [inCallNum, exec_bind_ok hcurrent, exec_bind_ok (exec_getReadyToRunCapacity _ _), exec_pure,
    busy, h.registered.length_eq, idle_perm h.ready]

theorem idle_le_length (registry : Redis) (scan : List String) :
    idle registry scan ≤ scan.length := List.countP_le_length

theorem busy_nonneg (registry : Redis) : 0 ≤ busy registry := by
  have hle := idle_le_length registry (keys registry)
  rw [busy]
  omega

/-- A state excludes the others. -/
theorem inState_unique {state other key : String} (h : inState registry state key = true)
    (h' : inState registry other key = true) : state = other :=
  isText_unique h h'

theorem isFree_iff {key : String} : isFree (gwLoad (registry.lookup key)) = true ↔
    inState registry "created" key = true ∨ inState registry "stopped" key = true := by
  rw [isFree, Bool.or_eq_true]
  rfl

theorem busy_eq_countP (registry : Redis) : busy registry =
    (keys registry).countP fun key => !isFree (gwLoad (registry.lookup key)) := by
  have hsplit := List.length_eq_countP_add_countP
    (fun key => isFree (gwLoad (registry.lookup key))) (l := keys registry)
  simp only [Bool.not_eq_true, Bool.decide_eq_false] at hsplit
  rw [busy, idle]
  omega

theorem started_busy {key : String} (h : inState registry "started" key = true) :
    (!isFree (gwLoad (registry.lookup key))) = true := by
  rw [Bool.not_eq_true', Bool.eq_false_iff]
  intro hfree
  rcases isFree_iff.mp hfree with hc | hs
  · exact absurd (inState_unique h hc) (by decide)
  · exact absurd (inState_unique h hs) (by decide)

/-- The busy number is that of the started gateways where none is stopping or deleted. -/
theorem busy_eq_started_iff (pool : Pool registry) : busy registry = started registry ↔
    ∀ key ∈ keys registry, inState registry "stopping" key = false ∧
      inState registry "deleted" key = false := by
  rw [busy_eq_countP, started, Nat.cast_inj]
  constructor
  · intro heq key hkey
    have hstarted : (!isFree (gwLoad (registry.lookup key))) = true →
        inState registry "started" key = true :=
      ListCounting.of_countP_eq (fun k _ => started_busy) heq.symm hkey
    have hother : ∀ state ∈ ["stopping", "deleted"], inState registry state key = false := by
      intro state hstate
      rw [Bool.eq_false_iff]
      intro h
      have hnot : isFree (gwLoad (registry.lookup key)) = false := by
        rw [Bool.eq_false_iff]
        intro hfree
        rcases isFree_iff.mp hfree with hc | hs
        · rw [inState_unique h hc] at hstate
          revert hstate
          decide
        · rw [inState_unique h hs] at hstate
          revert hstate
          decide
      rw [inState_unique h (hstarted (by rw [hnot, Bool.not_false]))] at hstate
      revert hstate
      decide
    exact ⟨hother _ (by decide), hother _ (by decide)⟩
  · intro hnone
    apply List.countP_congr
    intro key hkey
    refine ⟨fun hbusy => ?_, started_busy⟩
    obtain ⟨state, hmem, hstate⟩ := pool.state key hkey
    have hnot : isFree (gwLoad (registry.lookup key)) ≠ true := by
      intro hfree
      rw [hfree] at hbusy
      cases hbusy
    simp only [gwStates, List.mem_cons, List.not_mem_nil, or_false] at hmem
    rcases hmem with rfl | rfl | rfl | rfl | rfl
    · exact absurd (isFree_iff.mpr (Or.inl hstate)) hnot
    · exact hstate
    · exact absurd (isFree_iff.mpr (Or.inr hstate)) hnot
    · rw [(hnone key hkey).2] at hstate
      cases hstate
    · rw [(hnone key hkey).1] at hstate
      cases hstate

end Counting

section Stopping

variable {dates : Dates} {now : ℤ}

theorem mem_keys_of_addressed {registry : Redis} {key : String} (h : Addressed registry key) :
    key ∈ keys registry := by
  obtain ⟨address, haddress⟩ := h
  rw [mem_keys_iff]
  cases hlookup : registry.lookup key with
  | some raw => rfl
  | none =>
    rw [hlookup] at haddress
    cases haddress

theorem addressed_markStopping {registry : Redis} {key other : String} (date : Json)
    (h : Addressed registry other) :
    Addressed (markStopping registry key (gwLoad (registry.lookup key)) date) other := by
  by_cases heq : other = key
  · subst heq
    obtain ⟨address, haddress⟩ := h
    refine ⟨address, ?_⟩
    simp only [markStopping, lookup_put_self, gwLoad, gwDumpMedia]
    rw [lookup_putAll_of_notMem _ _ (by simp [stoppingFields, keys])]
    exact haddress
  · obtain ⟨address, haddress⟩ := h
    refine ⟨address, ?_⟩
    rw [markStopping, lookup_put_ne _ _ heq]
    exact haddress

theorem isFree_markStopping_self (registry : Redis) (key : String) (gw : Dict) (date : Json) :
    isFree (gwLoad ((markStopping registry key gw date).lookup key)) = false := by
  rw [markStopping, lookup_put_self, gwDumpMedia, gwLoad, isFree]
  have hstate : field (putAll gw (stoppingFields date)) "gw_state" = .str "stopping" := by
    rw [field, lookup_putAll]
    rfl
  rw [hstate]
  decide

/-- What stopping up to `numGW` gateways of a scan leaves. -/
structure Stops (registry : Redis) (scan : List String) (numGW : ℤ) (ipList : List String)
    (registry' : Redis) : Prop where
  keys_eq : keys registry' = keys registry
  addressed : ∀ key, Addressed registry key → Addressed registry' key
  others : ∀ key, key ∉ scan → registry'.lookup key = registry.lookup key
  number : (ipList.length : ℤ) = min (max numGW 0) (idle registry scan)
  left : idle registry' scan + ipList.length = idle registry scan

theorem idle_cons (registry : Redis) (key : String) (scan : List String) :
    idle registry (key :: scan) =
      idle registry scan + if isFree (gwLoad (registry.lookup key)) then 1 else 0 :=
  List.countP_cons

theorem idle_congr {registry registry' : Redis} {scan : List String}
    (h : ∀ key ∈ scan, registry'.lookup key = registry.lookup key) :
    idle registry' scan = idle registry scan := by
  apply List.countP_congr
  intro key hkey
  rw [h key hkey]

/-- The loop goes on from the rest of the scan, where the gateway it stopped is not any more. -/
theorem exec_stopIdle (dates : Dates) (now : ℤ) {scan : List String} (hnodup : scan.Nodup)
    (numGW : ℤ) (w : World Redis)
    (haddressed : ∀ key ∈ scan, Addressed w.store key) :
    ∃ ipList registry', exec (stopIdle dates now scan numGW) w =
        (.ok ipList, ⟨registry', w.calls⟩) ∧ Stops w.store scan numGW ipList registry' := by
  induction scan generalizing numGW w with
  | nil => exact ⟨[], w.store, rfl, rfl, fun _ h => h, fun _ _ => rfl, by simp [idle], rfl⟩
  | cons key rest ih =>
    obtain ⟨hkey, hrest⟩ := List.nodup_cons.mp hnodup
    have haddress := haddressed key List.mem_cons_self
    have hothers : ∀ k ∈ rest, Addressed w.store k :=
      fun k hk => haddressed k (List.mem_cons_of_mem _ hk)
    by_cases hnum : numGW ≤ 0
    · refine ⟨[], w.store, by rw [stopIdle, if_pos hnum]; rfl, rfl, fun _ h => h, fun _ _ => rfl,
        ?_, rfl⟩
      simp only [List.length_nil]
      omega
    · obtain ⟨address, hlookup⟩ := haddress
      have hip : gwIpOf (gwLoad (w.store.lookup key)) = .ok address := by
        simp only [gwIpOf, hlookup]
      rw [stopIdle, if_neg hnum, exec_bind_ok (exec_get w), exec_bind_ok (by rw [hip, exec_liftM])]
      by_cases hfree : isFree (gwLoad (w.store.lookup key)) = true
      · rw [if_pos hfree, exec_bind_ok (exec_modify _ _)]
        set marked := markStopping w.store key (gwLoad (w.store.lookup key))
          (.str (dates.isoformat ⟨now, none⟩)) with hmarked
        have hlookup_ne : ∀ k, k ≠ key → marked.lookup k = w.store.lookup k := by
          intro k hk
          rw [hmarked, markStopping, lookup_put_ne _ _ hk]
        obtain ⟨ipList, registry', hrun, hstops⟩ := ih hrest (numGW - 1) ⟨marked, w.calls⟩
          fun k hk => addressed_markStopping _ (hothers k hk)
        rw [exec_bind_ok hrun]
        have hidle : idle marked rest = idle w.store rest :=
          idle_congr fun k hk => hlookup_ne k fun heq => hkey (heq ▸ hk)
        have hstopped : isFree (gwLoad (registry'.lookup key)) = false := by
          rw [hstops.others key hkey]
          exact isFree_markStopping_self _ _ _ _
        have hnumber := hstops.number
        have hleft := hstops.left
        refine ⟨hostOf address :: ipList, registry', rfl, ?_, ?_, ?_, ?_, ?_⟩
        · rw [hstops.keys_eq]
          exact keys_put_of_mem (mem_keys_of_addressed ⟨address, hlookup⟩) _
        · exact fun k hk => hstops.addressed k (addressed_markStopping _ hk)
        · intro k hk
          rw [hstops.others k fun hmem => hk (List.mem_cons_of_mem _ hmem)]
          exact hlookup_ne k fun heq => hk (heq ▸ List.mem_cons_self)
        · rw [idle_cons, if_pos hfree, List.length_cons]
          rw [hidle] at hnumber
          push_cast
          omega
        · rw [idle_cons, idle_cons, hstopped, if_pos hfree, List.length_cons]
          rw [hidle] at hleft
          simp only [Bool.false_eq_true, if_false]
          omega
      · rw [if_neg hfree]
        obtain ⟨ipList, registry', hrun, hstops⟩ := ih hrest numGW w hothers
        have hleft := hstops.left
        have hsame : registry'.lookup key = w.store.lookup key := hstops.others key hkey
        refine ⟨ipList, registry', hrun, hstops.keys_eq, hstops.addressed, ?_, ?_, ?_⟩
        · exact fun k hk => hstops.others k fun hmem => hk (List.mem_cons_of_mem _ hmem)
        · rw [idle_cons, if_neg hfree]
          exact hstops.number
        · rw [idle_cons, idle_cons, hsame, if_neg hfree]
          exact hleft

/-- Where some gateway can be stopped, the provider is asked once, even if it refuses. -/
theorem downScale_stops (csp : Provider dates) {registry : Redis} {scan : List String}
    (hnodup : scan.Nodup) (haddressed : ∀ key ∈ scan, Addressed registry key) {numGW : ℤ}
    (hnum : 0 < numGW) (hidle : 0 < idle registry scan) (calls : List ProviderCall) :
    ∃ ipList registry', (exec (downScale csp now scan numGW) ⟨registry, calls⟩).2 =
        ⟨registry', calls ++ [.destroyInstances ipList]⟩ ∧
      Stops registry scan numGW ipList registry' := by
  obtain ⟨ipList, registry', hrun, hstops⟩ :=
    exec_stopIdle dates now hnodup numGW ⟨registry, calls⟩ haddressed
  refine ⟨ipList, registry', ?_, hstops⟩
  have hne : ipList ≠ [] := by
    rintro rfl
    have hnumber := hstops.number
    simp only [List.length_nil] at hnumber
    omega
  rw [downScale, exec_bind_ok hrun, if_pos hne]
  cases hall : ipList.all csp.ipAddress with
  | true => rw [exec_destroyInstances hall]
  | false => rw [exec_destroyInstances_error hall]

end Stopping

section Iterations

variable {dates : Dates} {S : Setting dates} {registry : Redis} {it : Iteration}

/-- A pool whose iteration is not held back by `maxGw`. -/
structure Setting.Decides (S : Setting dates) (it : Iteration) (registry : Redis) : Prop where
  nodup : (keys registry).Nodup
  address : ∀ key ∈ keys registry, Addressed registry key
  reads : S.Reads it registry
  free : S.demand (busy registry) ≤ S.arithmetic.number S.maxGw

/-- The gateways the iteration adds, or stops when negative. -/
def Setting.change (S : Setting dates) (registry : Redis) : ℤ :=
  missing S.arithmetic (S.demand (busy registry)) (keys registry).length

theorem Setting.Decides.increase (h : S.Decides it registry) :
    capacityIncrease S.arithmetic S.slot (keys registry).length
      (idle registry (keys registry)) none = .ok (S.change registry) := by
  refine capacityIncrease_eq_ok.mpr
    ⟨S.maxGw, S.loadMax, S.slot_max, S.slot_load, S.load_pos.ne', ?_⟩
  rw [Slot.asked, ← busy]
  exact congrArg (missing S.arithmetic · _) (min_eq_right h.free).symm

theorem Setting.Decides.exec_scale (h : S.Decides it registry) :
    exec (S.scale it) ⟨registry, []⟩ =
      exec (adjust S.arithmetic S.csp S.cfg (downScale S.csp it.localNow it.stoppable)
        (S.change registry)) ⟨registry, []⟩ := by
  have hcurrent : exec (getCurrentCapacity it.registered) (⟨registry, []⟩ : World Redis) =
      (.ok ((keys registry).length : ℤ), ⟨registry, []⟩) := by
    rw [← h.reads.registered.length_eq]
    rfl
  have hready : exec (getReadyToRunCapacity it.ready) (⟨registry, []⟩ : World Redis) =
      (.ok (idle registry (keys registry) : ℤ), ⟨registry, []⟩) := by
    rw [← idle_perm h.reads.ready]
    exact exec_getReadyToRunCapacity _ _
  rw [Setting.scale, Scaler.exec_scale h.reads.slot hcurrent hready, h.increase]

/-- The busy gateways are not more than what is asked for. -/
theorem busy_le_demand (S : Setting dates) (registry : Redis) :
    busy registry ≤ S.demand (busy registry) := by
  have hbusy : (0 : ℚ) ≤ busy registry := by exact_mod_cast busy_nonneg registry
  have hone : S.arithmetic.number S.loadMax ≤ 1 := by
    have hle := @number_le_of_le S.arithmetic S.loadMax 1 (by exact_mod_cast S.load_le_one)
    exact_mod_cast hle
  have hload : (busy registry : ℚ) ≤ S.load (busy registry) :=
    le_number_of_le (le_div_self hbusy (number_pos S.load_pos) hone)
  exact hload.trans (le_max_right _ _)

/-- Gateways that are not asked for are idle. -/
theorem change_add_idle (S : Setting dates) (registry : Redis) :
    0 ≤ S.change registry + idle registry (keys registry) := by
  have hdemand : (-(idle registry (keys registry) : ℤ) : ℚ) ≤
      S.demand (busy registry) - ((keys registry).length : ℤ) := by
    have hle := busy_le_demand S registry
    rw [busy] at hle ⊢
    push_cast at hle ⊢
    linarith
  have hnumber : ((-(idle registry (keys registry) : ℤ) : ℤ) : ℚ) ≤
      S.arithmetic.number (S.demand (busy registry) - ((keys registry).length : ℤ)) :=
    le_number_of_le (by exact_mod_cast hdemand)
  have hceil : -(idle registry (keys registry) : ℤ) ≤ S.change registry := by
    exact_mod_cast hnumber.trans (Int.le_ceil _)
  omega

theorem Setting.Decides.creates (h : S.Decides it registry) (hmore : 0 < S.change registry) :
    created (exec (S.scale it) ⟨registry, []⟩).2.calls ≠ [] := by
  have hcreates : ∀ w : World Redis, ∃ more,
      exec (S.csp.upScale (S.cfg.cpusOf S.arithmetic (S.change registry))) w =
        (.ok (), { w with calls := w.calls ++ more }) ∧ created more ≠ [] :=
    upScale_creates S.sizes S.offered (cpusOf_pos S.arithmetic S.cpu_pos hmore)
  obtain ⟨more, hrun, hcreated⟩ := hcreates ⟨registry, []⟩
  rw [h.exec_scale, adjust, if_pos hmore, hrun, List.nil_append]
  exact hcreated

theorem Setting.Decides.rests (h : S.Decides it registry) (hnone : S.change registry = 0) :
    exec (S.scale it) ⟨registry, []⟩ = (.ok (), ⟨registry, []⟩) := by
  rw [h.exec_scale, hnone, adjust, if_neg (lt_irrefl 0), if_neg (lt_irrefl 0), exec_pure]

theorem Setting.Decides.stops (h : S.Decides it registry) (hless : S.change registry < 0) :
    ∃ ipList registry', (exec (S.scale it) ⟨registry, []⟩).2 =
        ⟨registry', [.destroyInstances ipList]⟩ ∧
      Stops registry it.stoppable (-S.change registry) ipList registry' := by
  have hidle : 0 < idle registry it.stoppable := by
    have hsum := change_add_idle S registry
    rw [idle_perm h.reads.stoppable]
    omega
  have hnodup : it.stoppable.Nodup := h.reads.stoppable.nodup_iff.mpr h.nodup
  have haddress : ∀ key ∈ it.stoppable, Addressed registry key :=
    fun key hkey => h.address key (h.reads.stoppable.subset hkey)
  rw [h.exec_scale, adjust, if_neg (by omega), if_pos hless, abs_of_neg hless]
  exact downScale_stops S.csp hnodup haddress (by omega) hidle []

/-- The stopped gateways are busy for the next iteration, which decides as this one did. -/
theorem Setting.Decides.busy_after (h : S.Decides it registry) (hless : S.change registry < 0)
    {ipList : List String} {registry' : Redis}
    (hstops : Stops registry it.stoppable (-S.change registry) ipList registry') :
    busy registry' = busy registry + -S.change registry := by
  have hnumber := hstops.number
  have hleft := hstops.left
  have hsum := change_add_idle S registry
  rw [idle_perm h.reads.stoppable] at hnumber
  rw [idle_perm h.reads.stoppable, idle_perm h.reads.stoppable] at hleft
  rw [busy, busy, hstops.keys_eq]
  omega

end Iterations

section Decision

variable {dates : Dates} (S : Setting dates)

theorem near_max_iff {p q : ℚ} {n : ℤ} : S.Near (max p q) n ↔ S.Near p n ∨ S.Near q n := by
  have hmono : Monotone fun target => S.arithmetic.number (target - n) :=
    fun _ _ h => number_mono S.arithmetic (sub_le_sub_right h _)
  have hmax : S.arithmetic.number (max p q - n) =
      max (S.arithmetic.number (p - n)) (S.arithmetic.number (q - n)) := hmono.map_max
  rw [Setting.Near, hmax, lt_max_iff]
  rfl

/-- When the busy gateways and those in excess of what they ask for ask for all `n`. -/
theorem missing_stopped_iff {n b k : ℤ} (hless : missing S.arithmetic (S.demand b) n < 0) :
    missing S.arithmetic (S.demand k) n = 0 ↔
      S.buffer k ≤ n ∧ S.load k ≤ n ∧ (S.Near (S.buffer k) n ∨ S.Near (S.load k) n) := by
  set floor := S.arithmetic.number (S.slot.minGw.getD 0) with hfloor
  have hbelow : S.arithmetic.number (S.demand b - n) ≤ -1 := missing_neg_iff.mp hless
  have hasked : floor ≤ S.demand b := (le_max_left _ _).trans (le_max_left _ _)
  -- The floor asks for no more than before, which was too little.
  have hfar : ¬ S.Near floor n := by
    have hle := number_mono S.arithmetic (sub_le_sub_right hasked (n : ℚ))
    exact not_lt.mpr (hle.trans hbelow)
  have hfits : floor ≤ n := by
    by_contra hlt
    have hpos : 0 < S.arithmetic.number (floor - n) := number_pos (sub_pos.mpr (not_le.mp hlt))
    exact hfar (by unfold Setting.Near; linarith)
  rw [missing_eq_zero_iff, Setting.demand, max_le_iff, max_le_iff, ← hfloor]
  change (_ ∧ S.Near _ n) ↔ _
  rw [near_max_iff, near_max_iff, or_iff_right hfar, and_iff_right hfits, and_assoc]

end Decision

section Twice

variable {dates : Dates} {S : Setting dates} {registry : Redis} {first second : Iteration}

theorem Setting.Decides.onlyDownscales_iff (h : S.Decides first registry) :
    S.OnlyDownscales first registry ↔ S.change registry < 0 := by
  constructor
  · rintro ⟨ipList, hcalls⟩
    rcases lt_trichotomy (S.change registry) 0 with hlt | heq | hgt
    · exact hlt
    · rw [h.rests heq] at hcalls
      cases hcalls
    · refine absurd ?_ (h.creates hgt)
      rw [hcalls]
      rfl
  · intro hlt
    obtain ⟨ipList, registry', hrun, -⟩ := h.stops hlt
    exact ⟨ipList, by rw [hrun]⟩

theorem Setting.Decides.quiet_iff (h : S.Decides second registry) :
    S.Quiet second registry ↔ S.change registry = 0 := by
  constructor
  · intro hquiet
    rcases lt_trichotomy (S.change registry) 0 with hlt | heq | hgt
    · obtain ⟨ipList, registry', hrun, -⟩ := h.stops hlt
      rw [Setting.Quiet, hrun] at hquiet
      cases hquiet
    · exact heq
    · refine absurd ?_ (h.creates hgt)
      rw [hquiet]
      rfl
  · intro heq
    rw [Setting.Quiet, h.rests heq]

/-- The second iteration does nothing when the busy number it finds asks for all there are. -/
theorem Setting.Decides.second_quiet_iff (h : S.Decides first registry)
    (hsecond : S.Reads second (S.after first registry))
    (hfree : S.demand (busy (S.after first registry)) ≤ S.arithmetic.number S.maxGw) :
    (S.OnlyDownscales first registry → S.Quiet second (S.after first registry)) ↔
      S.Settles (keys registry).length (busy registry) := by
  have hstopped : S.change registry < 0 ↔
      0 < -missing S.arithmetic (S.demand (busy registry)) (keys registry).length := by
    rw [Setting.change, neg_pos]
  rw [h.onlyDownscales_iff, Setting.Settles, hstopped]
  refine forall_congr' fun hmore => ?_
  have hless := hstopped.mpr hmore
  obtain ⟨ipList, registry', hrun, hstops⟩ := h.stops hless
  have hafter : S.after first registry = registry' := by rw [Setting.after, hrun]
  rw [hafter] at hsecond hfree ⊢
  have hsecond' : S.Decides second registry' := by
    refine ⟨?_, ?_, hsecond, hfree⟩
    · rw [hstops.keys_eq]
      exact h.nodup
    · intro key hkey
      rw [hstops.keys_eq] at hkey
      exact hstops.addressed key (h.address key hkey)
  rw [hsecond'.quiet_iff, Setting.change, h.busy_after hless hstops, hstops.keys_eq]
  exact missing_stopped_iff S hless

/-- Only calls count as busy, and a second iteration changes nothing, exactly when no gateway is
stopping or deleted and those the first one stops settle as busy ones. -/
theorem scale_idempotent_iff (S : Setting dates) (registry : Redis) (first second : Iteration)
    (pool : Pool registry) (hfirst : S.Reads first registry)
    (hsecond : S.Reads second (S.after first registry))
    (hfree : S.demand (busy registry) ≤ S.arithmetic.number S.maxGw)
    (hfree' : S.demand (busy (S.after first registry)) ≤ S.arithmetic.number S.maxGw) :
    S.Idempotent first second registry ↔
      (∀ key ∈ keys registry, inState registry "stopping" key = false ∧
        inState registry "deleted" key = false) ∧
      S.Settles (keys registry).length (started registry) := by
  have hdecides : S.Decides first registry := ⟨pool.nodup, pool.address, hfirst, hfree⟩
  have hcount : exec (inCallNum first) ⟨registry, []⟩ =
      (.ok (started registry : ℤ), ⟨registry, []⟩) ↔ busy registry = started registry := by
    rw [exec_inCallNum hfirst]
    simp only [Prod.mk.injEq, Except.ok.injEq, and_true]
  rw [Setting.Idempotent, hcount, hdecides.second_quiet_iff hsecond hfree',
    ← busy_eq_started_iff pool]
  constructor
  · rintro ⟨hbusy, hsettles⟩
    exact ⟨hbusy, hbusy ▸ hsettles⟩
  · rintro ⟨hbusy, hsettles⟩
    exact ⟨hbusy, hbusy.symm ▸ hsettles⟩

end Twice

def floorSlot : Slot := ⟨some 4, none, some 1, some (1 / 2)⟩

def floored : Setting plainDates where
  arithmetic := .binary64
  csp := plainProvider
  cfg := plainConfig
  sizes := plain_sizes
  offered := plain_offered
  cpu_pos := plain_cpu_pos
  timeLine := [("07:00:00", floorSlot)]
  slot := floorSlot
  maxGw := 4
  slot_max := rfl
  loadMax := 1 / 2
  slot_load := rfl
  load_pos := by norm_num
  load_le_one := by norm_num

def gateway (address state : String) : RedisText :=
  gwDumpMedia [("gw_ip", .str address), ("gw_state", .str state)]

def idleEntries : List (String × String × String) :=
  [("gw1", "10.0.0.1:8080", "created"), ("gw2", "10.0.0.2:8080", "stopped"),
   ("gw3", "10.0.0.3:8080", "stopped")]

def registryOf (entries : List (String × String × String)) : Redis :=
  entries.map fun e => (e.1, gateway e.2.1 e.2.2)

def iterationOf (registry : Redis) : Iteration :=
  ⟨"08:00:00", 1790238048000000, keys registry, keys registry, keys registry⟩

theorem pool_registryOf {entries : List (String × String × String)}
    (hnodup : (entries.map Prod.fst).Nodup) (hstate : ∀ e ∈ entries, e.2.2 ∈ gwStates) :
    Pool (registryOf entries) := by
  have hkeys : keys (registryOf entries) = entries.map Prod.fst := by
    rw [keys, registryOf, List.map_map]
    rfl
  have hlookup : ∀ key ∈ keys (registryOf entries), ∃ e ∈ entries,
      (registryOf entries).lookup key = some (gateway e.2.1 e.2.2) := by
    intro key hkey
    rw [hkeys] at hkey
    clear hnodup hstate hkeys
    induction entries with
    | nil => cases hkey
    | cons e rest ih =>
      rw [registryOf, List.map_cons, List.lookup_cons]
      by_cases heq : key = e.1
      · exact ⟨e, List.mem_cons_self, by simp [heq]⟩
      · obtain ⟨e', he', hl⟩ := ih (List.mem_of_ne_of_mem heq hkey)
        refine ⟨e', List.mem_cons_of_mem _ he', ?_⟩
        rw [beq_eq_false_iff_ne.mpr heq]
        exact hl
  refine ⟨by rw [hkeys]; exact hnodup, ?_, ?_⟩
  · intro key hkey
    obtain ⟨e, -, hl⟩ := hlookup key hkey
    exact ⟨e.2.1, by rw [hl]; rfl⟩
  · intro key hkey
    obtain ⟨e, he, hl⟩ := hlookup key hkey
    refine ⟨e.2.2, hstate e he, ?_⟩
    rw [inState, hl]
    exact beq_self_eq_true _

theorem floored_reads (registry : Redis) : floored.Reads (iterationOf registry) registry where
  slot := show slotAt [("07:00:00", floorSlot)] "08:00:00" = .ok floorSlot by decide +kernel
  registered := .refl _
  ready := .refl _
  stoppable := .refl _

/-- Some of three idle gateways. -/
def idlePool (n : ℕ) : Redis := registryOf (idleEntries.take n)

/-- Of two idle gateways one is stopped, and the next iteration leaves things there. -/
theorem two_idle_settle :
    floored.Idempotent (iterationOf (idlePool 2))
        (iterationOf (floored.after (iterationOf (idlePool 2)) (idlePool 2))) (idlePool 2) ↔
      (∀ key ∈ keys (idlePool 2), inState (idlePool 2) "stopping" key = false ∧
        inState (idlePool 2) "deleted" key = false) ∧
      floored.Settles (keys (idlePool 2)).length (started (idlePool 2)) :=
  scale_idempotent_iff floored _ _ _ (pool_registryOf (by decide) (by decide)) (floored_reads _)
    (floored_reads _) (by decide +kernel) (by decide +kernel)

/-- Of three idle gateways two are stopped, and the next iteration creates one. -/
theorem scale_not_idempotent :
    ¬ ∀ (dates : Dates) (S : Setting dates) (registry : Redis) (first second : Iteration),
      Pool registry → S.Reads first registry → S.Reads second (S.after first registry) →
      S.demand (busy registry) ≤ S.arithmetic.number S.maxGw →
      S.demand (busy (S.after first registry)) ≤ S.arithmetic.number S.maxGw →
      S.Idempotent first second registry := by
  intro h
  have hquiet := (h plainDates floored (idlePool 3) (iterationOf _) (iterationOf _)
    (pool_registryOf (by decide) (by decide)) (floored_reads _) (floored_reads _)
    (by decide +kernel) (by decide +kernel)).2
  have hfirst : floored.OnlyDownscales (iterationOf (idlePool 3)) (idlePool 3) :=
    ⟨["10.0.0.1", "10.0.0.2"], by decide +kernel⟩
  have hsecond : (exec (floored.scale (iterationOf (floored.after (iterationOf (idlePool 3))
      (idlePool 3)))) ⟨floored.after (iterationOf (idlePool 3)) (idlePool 3), []⟩).2.calls =
        [.createInstance "4"] := by decide +kernel
  have hnone := hquiet hfirst
  rw [Setting.Quiet, hsecond] at hnone
  cases hnone

end ScalerIdempotence
