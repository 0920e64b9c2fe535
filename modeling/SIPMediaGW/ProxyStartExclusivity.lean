import SIPMediaGW.ProxyInterleaving
import Mathlib.Data.List.Nodup

/-! # Two `/start` requests and one gateway

The pick and the write that takes the gateway out of the pool are separated by the
request to the gateway. Nothing marks the entry in between. -/
namespace ProxyStartExclusivity

open FieldMap
open LabelledExecutions
open PythonJson
open ProxyRegistry
open ProxyInterleaving

/-- No two requests in flight were forwarded to the same gateway. A request is in flight
from its pick to its last step, so two of them overlap exactly when both are. -/
def Exclusive (s : System) : Prop := (s.starts.map StartFlight.gw_id).Nodup

/-- No gateway a `/start` is waiting for can be picked again. -/
def Reserved (s : System) : Prop :=
  ∀ f ∈ s.starts, ∀ key, gwIdOf key = f.gw_id → ¬ Pickable s.redis key

/-- A pick made while every gateway waited for is already out of the pool. -/
def ReservedPick (s : System) : Event → Prop
  | .startPick _ _ _ => Reserved s
  | _ => True

theorem starts_of_other {repr : Json → String} {s t : System} {e : Event}
    (h : Effect repr s e t) (he : ∀ scan room browsing, e ≠ .startPick scan room browsing) :
    t.starts.Sublist s.starts := by
  cases h with
  | reads h _ => rw [h.starts_eq]
  | picked scan room browsing => exact absurd rfl (he scan room browsing)
  | started i f response =>
    rw [finishStart]
    split <;> exact List.eraseIdx_sublist ..
  | fetched i f response =>
    rw [finishFetch]
    split <;> exact List.Sublist.refl _
  | stopped i f response =>
    rw [finishStop]
    split <;> exact List.Sublist.refl _
  | registered => exact List.Sublist.refl _
  | unregistered gw_id t known =>
    rw [unregisterGateway] at known
    split at known
    · obtain rfl := Option.some.inj known
      exact List.Sublist.refl _
    · cases known
  | marked => exact List.Sublist.refl _

theorem exclusive_of_other {repr : Json → String} {s t : System} {e : Event}
    (hs : Exclusive s) (h : Effect repr s e t)
    (he : ∀ scan room browsing, e ≠ .startPick scan room browsing) : Exclusive t :=
  List.Nodup.sublist ((starts_of_other h he).map _) hs

theorem pickStart_exclusive {s : System} (hs : Exclusive s) (hr : Reserved s)
    (scan : List String) (room browsing : Json) :
    Exclusive (pickStart s scan room browsing) := by
  rw [pickStart]
  split
  · rename_i key gwIp hfind
    have hpick := findAvailableGateway_pickable hfind
    have hnew : gwIdOf key ∉ s.starts.map StartFlight.gw_id := by
      intro hm
      obtain ⟨f, hf, hid⟩ := List.mem_map.mp hm
      exact hr f hf key hid.symm hpick
    simp only [Exclusive, List.map_append, List.map_cons, List.map_nil]
    exact List.Nodup.append hs (List.nodup_singleton _) (by simpa using hnew)
  · exact hs

theorem exclusive_step {repr : Json → String} {s t : System} {e : Event} (hs : Exclusive s)
    (hp : ReservedPick s e) (h : Step repr s e t) : Exclusive t := by
  cases e with
  | startPick scan room browsing =>
    cases step_effect h with
    | reads _ reading => exact reading.elim
    | picked => exact pickStart_exclusive hs hp scan room browsing
  | _ => exact exclusive_of_other hs (step_effect h) (by intros; simp)

/-- Redis may return any key first, so one pickable key of a gateway waited for is enough
to forward a second request to it. -/
theorem reserved_of_every_pick {repr : Json → String} {s : System}
    (h : ∀ scan room browsing t, Step repr s (.startPick scan room browsing) t → Exclusive t) :
    Reserved s := by
  intro f hf key hid hpick
  let scan := key :: keys s.redis
  have order : ScanOrder s.redis scan :=
    ⟨List.cons_subset.mpr ⟨hpick.mem_keys, List.Subset.refl _⟩, List.subset_cons_self _ _⟩
  obtain ⟨gwIp, hfind⟩ := findAvailableGateway_first hpick (keys s.redis)
  have ht := h scan .null .null (pickStart s scan .null .null)
    (show next repr s _ = some _ by simp only [next, order, if_true])
  simp only [Exclusive, pickStart, scan, hfind, List.map_append, List.map_cons,
    List.map_nil] at ht
  exact (List.disjoint_of_nodup_append ht) (List.mem_map.mpr ⟨f, hf, hid.symm⟩)
    (List.mem_singleton.mpr rfl)

/-- Exclusivity over every content of the registry and every interleaving. -/
def StartExclusivity (repr : Json → String) : Prop :=
  ∀ r t, Execution (Step repr) (quiet r) t → Exclusive t

/-- Requests stay apart in every run whose picks find the gateways waited for out of the
pool, and in an exclusive state that condition is exactly what every pick needs. -/
theorem start_exclusive_when_reserved (repr : Json → String) :
    (∀ r t, Execution (Guarded ReservedPick (Step repr)) (quiet r) t → Exclusive t) ∧
    ∀ s, Exclusive s →
      ((∀ scan room browsing t,
        Step repr s (.startPick scan room browsing) t → Exclusive t) ↔ Reserved s) := by
  constructor
  · intro r t h
    exact h.guarded_invariant (fun _ _ _ hs hp st => exclusive_step hs hp st) List.nodup_nil
  · intro s hs
    refine ⟨reserved_of_every_pick, ?_⟩
    intro hr scan room browsing t h
    have hp : ReservedPick s (.startPick scan room browsing) := hr
    exact exclusive_step hs hp h

/-- Two requests arrive before the gateway answers the first: both are sent to it. -/
theorem two_starts_share_a_gateway : ¬ StartExclusivity fun _ => "" := by
  intro h
  let picks : List Event :=
    [.startPick ["gw01"] (.str "math101") (.str "jitsi"),
     .startPick ["gw01"] (.str "physics") (.str "jitsi")]
  have hrun : ∃ t, runEvents (next fun _ => "") (quiet idleGateway) picks = some t ∧
      t.starts.map StartFlight.gw_id = ["gw01", "gw01"] := ⟨_, rfl, by decide⟩
  obtain ⟨t, ht, hids⟩ := hrun
  have hx := h idleGateway t (runEvents_execution ht)
  rw [Exclusive, hids] at hx
  exact absurd hx (by decide)

end ProxyStartExclusivity
