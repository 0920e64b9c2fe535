import SIPMediaGW.ListCounting
import SIPMediaGW.SipLockExclusivity

/-! # Machines `downScale` destroys

An update is kept when it touches as many rows as were counted on the machine. That they are
all its rows is what keeps a machine with a call from being destroyed. -/
namespace SipDownScale

open LabelledExecutions
open ListCounting
open SipInterleaving
open SipLocation
open SipLockExclusivity (Reserved locked_change unlocked_of_returns reserved_step)
open SqlStatements

section Safety

variable (S : Server)

def onList (ipList : List (Option String)) (r : Registration) : Bool :=
  ipList.any fun vm => S.collation.same r.vm vm

/-- Every row of a machine, locked or not. -/
def rowsOn (db : Database) (vm : Option String) : ℕ :=
  db.location.countP fun r => S.collation.same r.vm vm

/-- Gateways registered on the machines of a list. -/
def gatewaysOn (db : Database) (ipList : List (Option String)) : ℕ :=
  db.location.countP fun r => isGateway S.collation S.gwNamePrefix r && onList S ipList r

/-- The machines handed over have no gateway held or locked for a call, and no more gateways
than were asked for. -/
def Spares (s : System) (e : Event) : Prop :=
  ∀ i run, e = .scaleDone i → s.scales[i]? = some run →
    (∀ r ∈ s.db.location, onList S run.ipList r = true →
      r.username ∉ s.held ∧ (r.locked = true → r.toStop = true)) ∧
    gatewaysOn S s.db run.ipList ≤ run.asked

/-- A machine whose update touches as many rows as were counted has no other row; none
registers on a machine that is to be destroyed. -/
def Fits (s : System) (e : Event) : Prop :=
  SipLockExclusivity.Fits S s e ∧
    match e with
    | .scaleUpdate i => ∀ run g, s.turn i = some (run, g) → s.commits S run g →
        rowsOn S s.db g.1.vm = g.2
    | .register username contact socket received => ∀ run ∈ s.scales,
        onList S run.ipList ⟨username, contact, socket, received, false, false⟩ = false
    | _ => True

/-- What a run has stopped stays stopped, and within what it was asked for. -/
structure Stopped (s : System) (ipList : List (Option String)) (numGW asked : ℤ) : Prop where
  marked : ∀ r ∈ s.db.location, onList S ipList r = true →
    r.locked = true ∧ r.toStop = true ∧ r.username ∉ s.held
  count : gatewaysOn S s.db ipList + numGW ≤ asked
  nonneg : 0 ≤ numGW

end Safety

section Steps

variable {S : Server} {s t : System} {e : Event} {r : Registration}
variable {ipList : List (Option String)} {numGW asked : ℤ}

@[simp] theorem onList_change : onList S ipList (s.change S e r) = onList S ipList r := by
  simp only [onList, change_vm]

theorem isGateway_change : isGateway S.collation S.gwNamePrefix (s.change S e r) =
    isGateway S.collation S.gwNamePrefix r := by
  simp only [isGateway, change_username]

/-- No event but a registration adds a gateway to a machine. -/
theorem gatewaysOn_effect_le
    (hregister : ∀ username contact socket received,
      e = .register username contact socket received →
      onList S ipList ⟨username, contact, socket, received, false, false⟩ = false) :
    gatewaysOn S (s.effect S e) ipList ≤ gatewaysOn S s.db ipList := by
  unfold gatewaysOn
  rcases effect_location S s e with ⟨username, contact, socket, received, rfl, hloc⟩ |
    ⟨i, rfl, hloc⟩ | hloc
  · rw [hloc, List.countP_append, List.countP_singleton, hregister _ _ _ _ rfl, Bool.and_false]
    simp
  · rw [hloc]
    exact (List.eraseIdx_sublist _ i).countP_le
  · rw [hloc, List.countP_map]
    apply le_of_eq
    apply List.countP_congr
    intro r _
    simp only [Function.comp_apply, isGateway_change, onList_change]

/-- A row that is to stop stays so, and is not held. -/
theorem marked_step (hreserved : Reserved s)
    (hfits : SipLockExclusivity.Fits S s e)
    (hr : r ∈ s.db.location) (hlocked : r.locked = true) (hstop : r.toStop = true)
    (hheld : r.username ∉ s.held) :
    (s.change S e r).locked = true ∧ (s.change S e r).toStop = true ∧
      r.username ∉ s.holds S e := by
  refine ⟨?_, ?_, ?_⟩
  · apply locked_change hlocked
    rintro dstUser rfl
    cases hlike : S.collation.likeAround dstUser r.contact with
    | false => rfl
    | true =>
      rw [(hfits r hr hlike hlocked).2] at hstop
      cases hstop
  · rcases change_eq S s e r with h | h | h | h
    · rwa [h]
    · rwa [h]
    · rwa [h]
    · rw [h]
      rfl
  · intro hnew
    rcases mem_holds hnew with ⟨hold, -⟩ | ⟨contact, hreturns, hname⟩
    · exact hheld hold
    · obtain ⟨q, hq, hqname, hunlocked, -⟩ := unlocked_of_returns hreturns hfits
      obtain rfl := hreserved.eq_of_username hr hq (hname.trans hqname.symm)
      rw [hlocked] at hunlocked
      cases hunlocked

/-- What a run has stopped, an event leaves stopped. -/
theorem stopped_step (hreserved : Reserved s)
    (hfits : SipLockExclusivity.Fits S s e)
    (hregister : ∀ username contact socket received,
      e = .register username contact socket received →
      onList S ipList ⟨username, contact, socket, received, false, false⟩ = false)
    (h : Stopped S s ipList numGW asked) :
    Stopped S (next S s e) ipList numGW asked := by
  constructor
  · intro r' hr' hlist
    rcases mem_effect hr' with ⟨username, contact, socket, received, rfl, rfl⟩ | ⟨r, hr, rfl⟩
    · rw [hregister _ _ _ _ rfl] at hlist
      cases hlist
    · rw [onList_change] at hlist
      obtain ⟨hlocked, hstop, hheld⟩ := h.marked r hr hlist
      rw [change_username]
      exact marked_step hreserved hfits hr hlocked hstop hheld
  · have hle := gatewaysOn_effect_le (s := s) hregister
    have hcount := h.count
    change (gatewaysOn S (s.effect S e) ipList : ℤ) + numGW ≤ asked
    omega
  · exact h.nonneg

/-- Where as many rows are unlocked as there are on the machine, all of them are. -/
theorem unlocked_of_rowcount {vm : Option String}
    (h : rowcount S.collation s.db vm = rowsOn S s.db vm) (hr : r ∈ s.db.location)
    (hvm : S.collation.same r.vm vm = true) : r.locked = false := by
  have honVm : onVm S.collation vm r = true :=
    of_countP_eq (fun x _ hx => (Bool.and_eq_true_iff.mp hx).2) h hr hvm
  simpa using (Bool.and_eq_true_iff.mp honVm).1

theorem rowsOn_effect {i : ℕ} (vm : Option String) :
    rowsOn S (s.effect S (.scaleUpdate i)) vm = rowsOn S s.db vm := by
  rcases effect_location S s (.scaleUpdate i) with ⟨_, _, _, _, hevent, -⟩ | ⟨_, hevent, -⟩ | hloc
  · cases hevent
  · cases hevent
  · rw [rowsOn, rowsOn, hloc, List.countP_map]
    apply List.countP_congr
    intro r _
    simp only [Function.comp_apply, change_vm]

/-- Gateways on one more machine are at most the rows of that machine more. -/
theorem gatewaysOn_append_le (ipList : List (Option String)) (db : Database)
    (vm : Option String) :
    gatewaysOn S db (ipList ++ [vm]) ≤ gatewaysOn S db ipList + rowsOn S db vm := by
  apply countP_le_add
  intro r _ hr
  simp only [onList, List.any_append, List.any_cons, List.any_nil, Bool.or_false,
    Bool.and_eq_true, Bool.or_eq_true] at hr ⊢
  rcases hr with ⟨hgateway, hlist | hvm⟩
  · exact .inl ⟨hgateway, hlist⟩
  · exact .inr hvm

/-- A commit stops every row of its machine. -/
theorem stopped_commit {i : ℕ} {run : ScaleRun} {g : Registration × ℕ} (hreserved : Reserved s)
    (hfits : SipLockExclusivity.Fits S s (.scaleUpdate i)) (hturn : s.turn i = some (run, g))
    (hcommits : s.commits S run g) (hrows : rowsOn S s.db g.1.vm = g.2)
    (h : Stopped S s run.ipList run.numGW run.asked) :
    Stopped S (next S s (.scaleUpdate i)) (run.ipList ++ [g.1.vm]) (run.numGW - g.2)
      run.asked := by
  have hbefore := stopped_step hreserved hfits (by simp) h
  constructor
  · intro r' hr' hlist
    simp only [onList, List.any_append, List.any_cons, List.any_nil, Bool.or_false,
      Bool.or_eq_true] at hlist
    rcases hlist with hlist | hvm
    · exact hbefore.marked r' hr' hlist
    · rcases mem_effect hr' with ⟨username, contact, socket, received, hevent, -⟩ | ⟨r, hr, rfl⟩
      · cases hevent
      · rw [change_vm] at hvm
        have hunlocked := unlocked_of_rowcount (hcommits.2.trans hrows.symm) hr hvm
        have hstop : s.change S (.scaleUpdate i) r = stop r := by
          simp only [System.change, hturn]
          exact if_pos ⟨hcommits, by simp [onVm, hunlocked, hvm]⟩
        rw [hstop]
        refine ⟨rfl, rfl, fun hheld => ?_⟩
        rw [hreserved.held r hr hheld] at hunlocked
        cases hunlocked
  · have hle := gatewaysOn_append_le (S := S) run.ipList
      (s.effect S (.scaleUpdate i)) g.1.vm
    have hcount := hbefore.count
    rw [rowsOn_effect, hrows] at hle
    change (gatewaysOn S (s.effect S (.scaleUpdate i)) run.ipList : ℤ) + run.numGW ≤ run.asked
      at hcount
    change (gatewaysOn S (s.effect S (.scaleUpdate i)) (run.ipList ++ [g.1.vm]) : ℤ) +
      (run.numGW - g.2) ≤ run.asked
    omega
  · have hfit := hcommits.1
    omega

/-- The runs of a system, and its tables. -/
structure Sound (S : Server) (s : System) : Prop extends Reserved s where
  runs : ∀ run ∈ s.scales, Stopped S s run.ipList run.numGW run.asked

theorem sound_step (h : Sound S s) (hfits : Fits S s e) (hstep : Step S s e t) : Sound S t := by
  refine ⟨reserved_step h.toReserved hfits.1 hstep, ?_⟩
  obtain ⟨henabled, rfl⟩ := hstep
  intro run hrun
  rcases mem_runs hrun with ⟨vmList, numGW, rfl, rfl⟩ | ⟨i, before, g, rfl, hturn, hcommits, rfl⟩ |
    ⟨before, hmem, hnumGW, hlist, hasked⟩
  · refine ⟨fun r _ hlist => ?_, ?_, henabled.2⟩
    · cases hlist
    · simp [gatewaysOn, onList]
  · exact stopped_commit h.toReserved hfits.1 hturn hcommits (hfits.2 before g hturn hcommits)
      (h.runs before (turn_mem hturn))
  · rw [hnumGW, hlist, hasked]
    apply stopped_step h.toReserved hfits.1 _ (h.runs before hmem)
    rintro username contact socket received rfl
    exact hfits.2 before hmem

theorem spares_of_sound (h : Sound S s) : Spares S s e := by
  rintro i run rfl hrun
  obtain ⟨hmarked, hcount, hnonneg⟩ := h.runs run (List.mem_of_getElem? hrun)
  refine ⟨fun r hr hlist => ?_, by omega⟩
  obtain ⟨-, hstop, hheld⟩ := hmarked r hr hlist
  exact ⟨hheld, fun _ => hstop⟩

/-- From any tables in which a gateway has one row, in every run whose steps fit, the machines
`downScale` destroys carry no call, and no more gateways than it was to remove. -/
theorem down_scale_spares (S : Server) (db : Database) (s : System) (e : Event)
    (hsingle : (db.location.map Registration.username).Nodup)
    (hrun : Execution (Guarded (Fits S) (Step S)) (quiet db) s) : Spares S s e := by
  have hquiet : Sound S (quiet db) :=
    ⟨⟨hsingle, fun _ _ h => by cases h⟩, fun _ h => by cases h⟩
  have hsound : Sound S s := hrun.guarded_invariant
    (fun _ _ _ h hfits hstep => sound_step h hfits hstep) hquiet
  exact spares_of_sound hsound

end Steps

section Runs

open SipLockExclusivity (server gateway twoGateways twoGateways_selects fits_lockUpdate)

def oneGateway : Database := ⟨[gateway "mediagw.1" "10.0.0.1:5060"], []⟩

theorem oneGateway_selects :
    Selects server.collation server.gwNamePart oneGateway [gateway "mediagw.1" "10.0.0.1:5060"] :=
  .inr ⟨candidates_nil (by decide), candidates_singleton (by decide)⟩

theorem oneGateway_idle : IdleVms server.collation server.gwNamePrefix oneGateway
    [(gateway "mediagw.1" "10.0.0.1:5060", 1)] :=
  idleVms_singleton (by decide)

def selected : System :=
  next server (quiet oneGateway) (.scaleSelect [(gateway "mediagw.1" "10.0.0.1:5060", 1)] 1)

theorem selected_step : Step server (quiet oneGateway)
    (.scaleSelect [(gateway "mediagw.1" "10.0.0.1:5060", 1)] 1) selected :=
  ⟨⟨oneGateway_idle, by decide⟩, rfl⟩

/-- A worker holds `mediagw.1`, and another one tries `mediagw.10` when its machine is stopped. -/
def oneHeld : System :=
  [.lockSelect twoGateways.location, .lockUpdate 0,
    .scaleSelect [(gateway "mediagw.10" "10.0.0.2:5060", 1)] 1,
    .lockSelect [gateway "mediagw.10" "10.0.0.2:5060"], .scaleUpdate 0,
    .lockUpdate 0].foldl (next server) (quiet twoGateways)

theorem oneHeld_execution :
    Execution (Guarded (Fits server) (Step server)) (quiet twoGateways) oneHeld := by
  apply Execution.tail (e := .lockUpdate 0)
  · apply Execution.tail (e := .scaleUpdate 0)
    · apply Execution.tail (e := .lockSelect [gateway "mediagw.10" "10.0.0.2:5060"])
      · apply Execution.tail (e := .scaleSelect [(gateway "mediagw.10" "10.0.0.2:5060", 1)] 1)
        · apply Execution.tail (e := .lockUpdate 0)
          · exact .tail (e := .lockSelect twoGateways.location) (.refl _)
              ⟨⟨trivial, trivial⟩, twoGateways_selects, rfl⟩
          · exact ⟨⟨fits_lockUpdate (by decide), trivial⟩, rfl, rfl⟩
        · exact ⟨⟨trivial, trivial⟩, ⟨idleVms_singleton (by decide), by decide⟩, rfl⟩
      · exact ⟨⟨trivial, trivial⟩,
          .inr ⟨candidates_nil (by decide), candidates_singleton (by decide)⟩, rfl⟩
    · refine ⟨⟨trivial, fun run g hturn _ => ?_⟩, rfl, rfl⟩
      obtain ⟨rfl, rfl⟩ := Prod.mk.inj (Option.some.inj hturn)
      decide
  · exact ⟨⟨fits_lockUpdate (by decide), trivial⟩, rfl, rfl⟩

/-- The machine of the idle gateway is destroyed, that of the held one is not. -/
theorem held_machine_spared :
    oneHeld.held = ["mediagw.1"] ∧
    (oneHeld.scales.map ScaleRun.ipList) = [[(gateway "mediagw.10" "10.0.0.2:5060").vm]] ∧
    Spares server oneHeld (.scaleDone 0) := by
  refine ⟨by decide, by decide, ?_⟩
  exact down_scale_spares server twoGateways oneHeld _ (by decide) oneHeld_execution

/-- Between the query and the update, a worker locks the gateway and another registers. -/
def raced : System :=
  [.lockSelect [gateway "mediagw.1" "10.0.0.1:5060"], .lockUpdate 0,
    .register "mediagw.2" "sip:mediagw.2@10.0.0.1:5062" "udp:192.0.2.1:5060"
      (some "sip:10.0.0.1:5062"), .scaleUpdate 0].foldl (next server) selected

theorem raced_execution : Execution (Step server) (quiet oneGateway) raced := by
  apply Execution.tail (e := .scaleUpdate 0)
  · apply Execution.tail (e := .register "mediagw.2" "sip:mediagw.2@10.0.0.1:5062"
      "udp:192.0.2.1:5060" (some "sip:10.0.0.1:5062"))
    · apply Execution.tail (e := .lockUpdate 0)
      · apply Execution.tail (e := .lockSelect [gateway "mediagw.1" "10.0.0.1:5060"])
        · exact .tail (.refl _) selected_step
        · exact ⟨oneGateway_selects, rfl⟩
      · exact ⟨rfl, rfl⟩
    · exact ⟨trivial, rfl⟩
  · exact ⟨rfl, rfl⟩

/-- The two cancel in the count, and the machine of a held gateway is destroyed. -/
theorem lock_and_registration_cancel :
    ¬ ∀ (S : Server) (db : Database) (s : System) (e : Event),
      (db.location.map Registration.username).Nodup →
      Execution (Step S) (quiet db) s → Spares S s e := by
  intro h
  have hspares := h server oneGateway raced (.scaleDone 0) (by decide) raced_execution 0
    ⟨[], 0, [some "10.0.0.1"], 1⟩ rfl (by decide)
  exact (hspares.1 (lock (gateway "mediagw.1" "10.0.0.1:5060")) (by decide) (by decide)).1
    (by decide)

end Runs

end SipDownScale
