import SIPMediaGW.ProxyInterleaving

/-! # Write-backs of a copy read before an await

A status fetch stores the whole entry it read before its request. What the other writers
did to the entry in between is lost, and an entry removed in between comes back. -/
namespace ProxyLostUpdate

open FieldMap
open LabelledExecutions
open PythonJson
open ProxyRegistry
open ProxyInterleaving

/-- The fields a status answer sets by itself. -/
def assigned (repr : Json → String) (response : Option Json) : List String :=
  match reportOf response with
  | some data => keys (reportedFields repr data)
  | none => []

/-- Every field another step assigned since the read, and the report does not set, holds
its assigned value after the write. -/
def Lossless (repr : Json → String) (s : System) : Event → System → Prop
  | .fetchDone i response, t => ∀ f, s.fetches[i]? = some f → ∀ k v,
      f.wrote.lookup k = some v → k ∉ assigned repr response →
      entryField t.redis f.gw_id k = some v
  | _, _ => True

/-- The copy still agrees with what was assigned since it was read; an answer that deletes
the entry needs that nothing was. -/
def FreshCopy (repr : Json → String) (s : System) : Event → Prop
  | .fetchDone i response => ∀ f, s.fetches[i]? = some f →
      match reportOf response with
      | some data => ∀ k v, f.wrote.lookup k = some v → k ∉ keys (reportedFields repr data) →
          f.copy.lookup k = some v
      | none => f.wrote = []
  | _ => True

/-- Gateways unregistered during a status fetch are absent. -/
def GoneAbsent (s : System) : Prop := ∀ g ∈ s.gone, s.redis.lookup g = none

/-- A step that stores an entry finds its gateway not unregistered since the read. -/
def StillRegistered (s : System) : Event → Prop
  | .startDone i response => ∀ f, s.starts[i]? = some f → startSucceeded response = true →
      f.gw_id ∉ s.gone
  | .fetchDone i response => ∀ f, s.fetches[i]? = some f → (reportOf response).isSome = true →
      f.gw_id ∉ s.gone
  | .stopDone i response => ∀ f, s.stops[i]? = some f → stopAccepted response = true →
      f.gw_id ∉ s.gone
  | .scaleWrite i _ => ∀ f, s.scales[i]? = some f → f.key ∉ s.gone
  | _ => True

theorem eq_nil_of_lookup_none {κ ν : Type*} [DecidableEq κ] {m : List (κ × ν)}
    (h : ∀ k v, m.lookup k ≠ some v) : m = [] := by
  cases m with
  | nil => rfl
  | cons e m =>
    obtain ⟨k, v⟩ := e
    exact absurd List.lookup_cons_self (h k v)

/-- A status answer loses nothing exactly when its copy is fresh. -/
theorem lossless_iff_fresh {repr : Json → String} {s t : System} {e : Event}
    (h : Step repr s e t) : Lossless repr s e t ↔ FreshCopy repr s e := by
  cases step_effect h with
  | fetched i f response inFlight =>
    simp only [Lossless, FreshCopy, inFlight, Option.some.injEq, forall_eq', assigned,
      finishFetch]
    split
    · rename_i data hdata
      have hback : ∀ k, k ∉ keys (reportedFields repr data) →
          entryField (updateProgressInfo repr s.redis f.gw_id f.copy data) f.gw_id k =
            f.copy.lookup k := by
        intro k hk
        rw [updateProgressInfo, entryField_put_self, lookup_gwLoad_gwDump,
          lookup_putAll_of_notMem _ _ hk]
      simp only [System.wrote, fetchAndStoreGatewayStatus, hdata]
      exact forall_congr' fun k => forall_congr' fun v => imp_congr_right fun _ =>
        imp_congr_ctx Iff.rfl fun hk => by rw [hback k hk]
    · rename_i hdata
      simp only [System.removed, fetchAndStoreGatewayStatus, hdata, entryField_del_self]
      constructor
      · intro hl
        exact eq_nil_of_lookup_none fun k v hkv =>
          absurd (hl k v hkv List.not_mem_nil) (by simp)
      · intro hw k v hkv
        rw [hw] at hkv
        cases hkv
  | reads _ reading => cases e <;> first | exact reading.elim | exact Iff.rfl
  | _ => exact Iff.rfl

theorem absent_put_iff {r : Redis} {gone : List String} (h : ∀ g ∈ gone, r.lookup g = none)
    (gw_id : String) (raw : RedisText) :
    (∀ g ∈ gone, (put r gw_id raw).lookup g = none) ↔ gw_id ∉ gone := by
  constructor
  · intro hp hm
    have hnone := hp gw_id hm
    rw [lookup_put_self] at hnone
    cases hnone
  · intro hn g hg
    rw [lookup_put_ne _ _ (show g ≠ gw_id from fun he => hn (he ▸ hg))]
    exact h g hg

theorem absent_del {r : Redis} {gone : List String} (h : ∀ g ∈ gone, r.lookup g = none)
    (gw_id : String) : ∀ g ∈ gone, (del r gw_id).lookup g = none := by
  intro g hg
  rw [lookup_del]
  split
  · rfl
  · exact h g hg

theorem goneAbsent_register {s : System} (hs : GoneAbsent s) (gw_id : String)
    (gwIp gwType startTime : Json) :
    GoneAbsent (registerGateway s gw_id gwIp gwType startTime) := by
  have hkept : ∀ g ∈ s.gone.filter fun g => decide (g ≠ gw_id), s.redis.lookup g = none :=
    fun g hg => hs g (List.mem_of_mem_filter hg)
  exact (absent_put_iff hkept gw_id _).mpr (by simp)

theorem goneAbsent_unregister {s t : System} {gw_id : String} (hs : GoneAbsent s)
    (h : unregisterGateway s gw_id = some t) : GoneAbsent t := by
  rw [unregisterGateway] at h
  split at h
  · obtain rfl := Option.some.inj h
    intro g hg
    simp only [System.removed] at hg ⊢
    rw [lookup_del]
    by_cases hk : g = gw_id
    · rw [if_pos hk]
    · rw [if_neg hk]
      split at hg
      · exact hs g ((List.mem_cons.mp hg).resolve_left hk)
      · exact hs g hg
  · cases h

/-- From a state where they are absent, unregistered gateways stay so exactly when no step
stores an entry for one of them. -/
theorem goneAbsent_step_iff {repr : Json → String} {s t : System} {e : Event}
    (hs : GoneAbsent s) (h : Step repr s e t) : GoneAbsent t ↔ StillRegistered s e := by
  cases step_effect h with
  | reads hr reading =>
    have ht : GoneAbsent t := by
      intro g hg
      rw [hr.gone_eq] at hg
      rw [hr.redis_eq]
      exact hs g hg
    cases e <;> first | exact reading.elim | exact iff_of_true ht trivial
  | picked scan room browsing =>
    refine iff_of_true ?_ trivial
    intro g hg
    rw [pickStart_gone] at hg
    rw [pickStart_redis]
    exact hs g hg
  | started i f response inFlight =>
    simp only [StillRegistered, inFlight, Option.some.injEq, forall_eq', finishStart]
    split
    · rename_i hok
      simp only [hok, forall_const]
      exact absent_put_iff hs f.gw_id _
    · rename_i hok
      exact iff_of_true hs fun ht => absurd ht hok
  | fetched i f response inFlight =>
    simp only [StillRegistered, inFlight, Option.some.injEq, forall_eq', finishFetch]
    split
    · rename_i data hdata
      simp only [System.wrote, fetchAndStoreGatewayStatus, hdata, updateProgressInfo,
        Option.isSome_some, forall_const]
      exact absent_put_iff hs f.gw_id _
    · rename_i hdata
      simp only [System.removed, fetchAndStoreGatewayStatus, hdata, Option.isSome_none]
      exact iff_of_true (absent_del hs f.gw_id) (by simp)
  | stopped i f response inFlight =>
    simp only [StillRegistered, inFlight, Option.some.injEq, forall_eq', finishStop]
    split
    · rename_i hok
      simp only [hok, forall_const]
      exact absent_put_iff hs f.gw_id _
    · rename_i hok
      exact iff_of_true hs fun ht => absurd ht hok
  | registered gw_id gwIp gwType startTime =>
    exact iff_of_true (goneAbsent_register hs gw_id gwIp gwType startTime) trivial
  | unregistered gw_id t known =>
    exact iff_of_true (goneAbsent_unregister hs known) trivial
  | marked i f now inFlight =>
    simp only [StillRegistered, inFlight, Option.some.injEq, forall_eq']
    exact absent_put_iff hs f.key _

/-- The condition a step of a lossless run meets. -/
def UpToDate (repr : Json → String) (s : System) (e : Event) : Prop :=
  FreshCopy repr s e ∧ StillRegistered s e

def WritesKept (repr : Json → String) : Prop :=
  ∀ r s e t, Execution (Step repr) (quiet r) s → Step repr s e t → Lossless repr s e t

def UnregisteredAbsent (repr : Json → String) : Prop :=
  ∀ r s, Execution (Step repr) (quiet r) s → GoneAbsent s

/-- Runs whose steps are up to date lose no field and revive no gateway, and step by step
the condition is exact. -/
theorem registry_kept_when_up_to_date (repr : Json → String) :
    (∀ r s, Execution (Guarded (UpToDate repr) (Step repr)) (quiet r) s →
      GoneAbsent s ∧
        ∀ e t, UpToDate repr s e → Step repr s e t → Lossless repr s e t) ∧
    (∀ s e t, Step repr s e t → (Lossless repr s e t ↔ FreshCopy repr s e)) ∧
    ∀ s e t, GoneAbsent s → Step repr s e t → (GoneAbsent t ↔ StillRegistered s e) := by
  refine ⟨fun r s h => ⟨?_, fun e t hp st => (lossless_iff_fresh st).mpr hp.1⟩,
    fun s e t st => lossless_iff_fresh st, fun s e t hs st => goneAbsent_step_iff hs st⟩
  have hquiet : GoneAbsent (quiet r) := fun _ hg => absurd hg List.not_mem_nil
  exact h.guarded_invariant (I := GoneAbsent)
    (fun _ _ _ hs hp st => (goneAbsent_step_iff hs st).mpr hp.2) hquiet

/-- A gateway registers a new address while its status is fetched: the old address comes
back. One unregistered meanwhile comes back whole. -/
theorem monitor_loses_writes_and_revives :
    ¬ (WritesKept fun _ => "") ∧ ¬ UnregisteredAbsent fun _ => "" := by
  constructor
  · intro h
    let es : List Event := [.monitorRead "gw01",
      .register "gw01" (.str "192.0.2.99:8100") (.str "media") (.str "2026-09-24T08:20:48")]
    have hrun : ∃ s, runEvents (next fun _ => "") (quiet idleGateway) es = some s ∧
        ∃ t, next (fun _ => "") s (.fetchDone 0 (statusAnswer "up")) = some t ∧
          (∃ f, s.fetches[0]? = some f ∧ f.gw_id = "gw01" ∧
            f.wrote.lookup "gw_ip" = some (.str "192.0.2.99:8100")) ∧
          entryField t.redis "gw01" "gw_ip" = some (.str "192.0.2.21:8100") :=
      ⟨_, rfl, _, rfl, ⟨_, rfl, rfl, rfl⟩, rfl⟩
    obtain ⟨s, hs, t, ht, ⟨f, hf, hid, hw⟩, hafter⟩ := hrun
    have hl := h idleGateway s _ t (runEvents_execution hs) ht f hf "gw_ip" _ hw (by decide)
    rw [hid, hafter] at hl
    simp at hl
  · intro h
    let es : List Event := [.monitorRead "gw01", .unregister "gw01",
      .fetchDone 0 (statusAnswer "up")]
    have hrun : ∃ t, runEvents (next fun _ => "") (quiet idleGateway) es = some t ∧
        t.gone = ["gw01"] ∧ (t.redis.lookup "gw01").isSome = true := ⟨_, rfl, rfl, rfl⟩
    obtain ⟨t, ht, hgone, hback⟩ := hrun
    have hnone := h idleGateway t (runEvents_execution ht) "gw01" (by rw [hgone]; simp)
    rw [hnone] at hback
    cases hback

end ProxyLostUpdate
