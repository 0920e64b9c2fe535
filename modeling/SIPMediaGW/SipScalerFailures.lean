import SIPMediaGW.MediaCleanup
import SIPMediaGW.ScalerCreation
import SIPMediaGW.SipScaler

/-! # An iteration of the SIP scaler whose queries fail

Where a capacity query fails, zero takes the place of the number. What an iteration marks, it
destroys; but it may be the zero it acts on. -/
namespace SipScalerFailures

open MediaCleanup
open PythonArithmetic
open Scaler
open ScalerCreation
open SipLocation
open SipScaler
open SqlStatements
open StatefulExceptions

/-- Sizes `upScale` can use, and gateways that take CPUs. -/
structure Deployment (dates : Dates) where
  arithmetic : Arithmetic
  csp : Provider dates
  cfg : Config
  sizes : Multiples 1 csp.instType
  some_size : csp.instType ≠ []
  cpu_pos : 0 < cfg.cpuPerGw

/-- The tables an iteration finds, the queries that fail in it, and the orders in which the
others return their rows. -/
structure Iteration (dates : Dates) extends Deployment dates where
  collation : Collation
  timeLine : List (String × Slot)
  scaleTime : String
  now : ℤ
  db : Database
  fails : Query → Bool
  idleList : List (Registration × ℕ)
  idle : IdleVms collation cfg.gwNamePrefix db idleList
  stoppedList : List Registration
  stopped : StoppedVms collation cfg.gwNamePrefix db stoppedList

def destroyed (calls : List ProviderCall) : List String :=
  calls.flatMap fun call =>
    match call with
    | .createInstance _ => []
    | .destroyInstances ipList => ipList

section Properties

variable {dates : Dates} (I : Iteration dates)

def Iteration.scaling : SipScaling Unit :=
  scale I.arithmetic I.csp I.cfg I.timeLine I.scaleTime none
    (getCurrentCapacity I.cfg I.collation) (getReadyToRunCapacity I.cfg I.collation)
    (SipScaler.downScale I.csp I.collation I.idleList)

def Iteration.run : Except PyError Answer × World SipStore :=
  exec (autoIteration (SipScaler.cleanup I.csp I.cfg I.now I.stoppedList) I.scaling)
    ⟨⟨I.db, I.fails⟩, []⟩

def Iteration.capacityFails : Bool := I.fails .currentCapacity || I.fails .readyToRun

/-- A machine on the list, or one whose gateways are to stop. -/
def Iteration.Due (w : World SipStore) (address : String) : Prop :=
  (∃ inst ∈ I.csp.instances, address = inst.priv) ∨
    ∃ row ∈ w.store.db.location, row.toStop = true ∧
      ∃ vm, address = vmAddress vm ∧ I.collation.groupKey row.vm = I.collation.groupKey vm

/-- A row that is to stop was so before, or its machine is destroyed. -/
def Iteration.Answered (w : World SipStore) (r r' : Registration) : Prop :=
  r'.vm = r.vm ∧ (r.toStop = true → r'.toStop = true) ∧
    (r'.toStop = true → r.toStop = true ∨
      ∃ vm, I.collation.same r.vm vm = true ∧ vmAddress vm ∈ destroyed w.calls)

/-- A failed query does not scale: without a capacity, nothing is created or marked, a failure
does not raise, and the machines destroyed are those whose gateways are marked. -/
structure Harmless (I : Iteration dates) : Prop where
  creates : I.capacityFails = true → created I.run.2.calls = []
  marks : I.capacityFails = true → I.run.2.store.db = I.db
  raises : I.run.1 ≠ .ok (.failed (.unboundLocalError "ipList"))
  due : ∀ address ∈ destroyed I.run.2.calls, I.Due I.run.2 address
  answered : List.Forall₂ (I.Answered I.run.2) I.db.location I.run.2.store.db.location

/-- The cleanup hands over an address that cannot be read, which ends the iteration. -/
def Iteration.Blocked : Prop :=
  I.fails .cleanup = false ∧
    ¬ (I.stoppedList.map fun row => vmAddress row.vm).all I.csp.ipAddress = true

/-- `downScale` gets as far as a commit: a machine that fits has only gateways among its
unlocked rows, and up to it no query fails. -/
def Commits (c : Collation) (db : Database) (fails : Query → Bool)
    (vmList : List (Registration × ℕ)) (start : ℕ) (numGW : ℤ) : Prop :=
  ∃ i g, vmList[i]? = some g ∧ g.2 ≤ numGW ∧ rowcount c db g.1.vm = g.2 ∧
    ∀ j ≤ i, ∀ h, vmList[j]? = some h → h.2 ≤ numGW →
      fails (.update (start + j)) = false ∧ fails (.finish (start + j)) = false

/-- What the iteration takes for the two capacities. -/
def Iteration.current : ℤ :=
  if I.fails .currentCapacity then 0 else registeredCount I.collation I.cfg.gwNamePrefix I.db

def Iteration.ready : ℤ :=
  if I.fails .readyToRun then 0 else readyCount I.collation I.cfg.gwNamePrefix I.db

/-- A target that does no harm: without a capacity it asks for no gateway more, and one that
asks for fewer finds the machines, and without a capacity has none to commit. -/
def Iteration.Spared (target : ℚ) : Prop :=
  (I.capacityFails = true → target ≤ I.current) ∧
    (missing I.arithmetic target I.current < 0 → I.fails .idleVms = false ∧
      (I.capacityFails = true →
        ¬ Commits I.collation I.db I.fails I.idleList 0
          (-missing I.arithmetic target I.current)))

end Properties

section Session

variable {c : Collation} {vmList : List (Registration × ℕ)} {s : Session} {q : Query}
variable {P : Session → Prop} {i : ℕ} {numGW : ℤ} {db : Database}

theorem exec_execute_ok (h : s.store.fails q = false) : exec (execute q) s = (.ok (), s) := by
  rw [execute, exec_bind_ok (exec_get s), h]
  rfl

theorem exec_execute_error (h : s.store.fails q = true) :
    exec (execute q) s = (.error (.error q), s) := by
  rw [execute, exec_bind_ok (exec_get s), h]
  rfl

theorem keeps_execute (q : Query) : Keeps P (execute q) := by
  intro s hs
  cases hq : s.store.fails q with
  | false => rwa [exec_execute_ok hq]
  | true => rwa [exec_execute_error hq]

/-- The loop keeps what its commits keep. -/
theorem keeps_stopVms (hP : ∀ g ∈ vmList, ∀ s, P s → rowcount c s.store.db g.1.vm = g.2 →
    P (s.commit c g.1.vm)) (i : ℕ) (numGW : ℤ) : Keeps P (stopVms c vmList i numGW) := by
  induction vmList generalizing i numGW with
  | nil => exact keeps_pure _
  | cons g rest ih =>
    obtain ⟨row, count⟩ := g
    have hrest := ih fun g hg => hP g (List.mem_cons_of_mem _ hg)
    unfold stopVms
    split
    · refine (keeps_execute _).bind fun _ => ?_
      apply keeps_get_bind
      intro s hs
      split
      · rename_i hcount
        cases hq : s.store.fails (.finish i) with
        | true =>
          rw [exec_bind_error (exec_execute_error hq)]
          exact hs
        | false =>
          rw [exec_bind_ok (exec_execute_ok hq), exec_bind_ok (exec_modify _ _)]
          exact hrest _ _ _ (hP _ List.mem_cons_self s hs hcount)
      · exact (keeps_execute _).bind (fun _ => hrest _ _) s hs
    · exact hrest _ _

theorem commits_cons {fails : Query → Bool} {g : Registration × ℕ} :
    Commits c db fails (g :: vmList) i numGW ↔
      if (g.2 : ℤ) ≤ numGW then
        fails (.update i) = false ∧ fails (.finish i) = false ∧
          (rowcount c db g.1.vm = g.2 ∨ Commits c db fails vmList (i + 1) numGW)
      else Commits c db fails vmList (i + 1) numGW := by
  have hshift : ∀ j, i + (j + 1) = i + 1 + j := by omega
  constructor
  · rintro ⟨k, h, hk, hfit, hcount, hbefore⟩
    have hrest : ∀ l, k = l + 1 → Commits c db fails vmList (i + 1) numGW := by
      rintro l rfl
      refine ⟨l, h, hk, hfit, hcount, fun j hj g' hg' hfit' => ?_⟩
      have hj' := hbefore (j + 1) (Nat.succ_le_succ hj) g' hg' hfit'
      rwa [hshift] at hj'
    split
    · rename_i hhead
      obtain ⟨hupdate, hfinish⟩ := hbefore 0 (Nat.zero_le k) g rfl hhead
      refine ⟨hupdate, hfinish, ?_⟩
      cases k with
      | zero =>
        obtain rfl := Option.some.inj hk
        exact .inl hcount
      | succ l => exact .inr (hrest l rfl)
    · rename_i hhead
      cases k with
      | zero =>
        obtain rfl := Option.some.inj hk
        exact absurd hfit hhead
      | succ l => exact hrest l rfl
  · intro h
    have hcons : (g.2 ≤ numGW → fails (.update i) = false ∧ fails (.finish i) = false) →
        Commits c db fails vmList (i + 1) numGW →
        Commits c db fails (g :: vmList) i numGW := by
      rintro hhead ⟨l, h, hl, hfit, hcount, hbefore⟩
      refine ⟨l + 1, h, hl, hfit, hcount, fun j hj g' hg' hfit' => ?_⟩
      cases j with
      | zero =>
        obtain rfl := Option.some.inj hg'
        exact hhead hfit'
      | succ j =>
        rw [hshift]
        exact hbefore j (Nat.le_of_succ_le_succ hj) g' hg' hfit'
    split at h
    · rename_i hhead
      obtain ⟨hupdate, hfinish, hcount | hrest⟩ := h
      · refine ⟨0, g, rfl, hhead, hcount, fun j hj _ _ _ => ?_⟩
        obtain rfl := Nat.le_zero.mp hj
        exact ⟨hupdate, hfinish⟩
      · exact hcons (fun _ => ⟨hupdate, hfinish⟩) hrest
    · rename_i hhead
      exact hcons (fun hfit => absurd hfit hhead) h

/-- One machine of the loop, by what becomes of its update. -/
theorem exec_stopVms_cons {g : Registration × ℕ} :
    (exec (stopVms c (g :: vmList) i numGW) s).2 =
      if (g.2 : ℤ) ≤ numGW then
        if s.store.fails (.update i) = true ∨ s.store.fails (.finish i) = true then s
        else if rowcount c s.store.db g.1.vm = g.2 then
          (exec (stopVms c vmList (i + 1) (numGW - g.2)) (s.commit c g.1.vm)).2
        else (exec (stopVms c vmList (i + 1) numGW) s).2
      else (exec (stopVms c vmList (i + 1) numGW) s).2 := by
  obtain ⟨row, count⟩ := g
  dsimp only
  by_cases hfit : (count : ℤ) ≤ numGW
  · rw [stopVms, if_pos hfit, if_pos hfit]
    cases hupdate : s.store.fails (.update i) with
    | true => rw [exec_bind_error (exec_execute_error hupdate), if_pos (.inl rfl)]
    | false =>
      rw [exec_bind_ok (exec_execute_ok hupdate), exec_bind_ok (exec_get s)]
      by_cases hcount : rowcount c s.store.db row.vm = count
      · rw [if_pos hcount, if_pos hcount]
        cases hfinish : s.store.fails (.finish i) with
        | true => rw [exec_bind_error (exec_execute_error hfinish), if_pos (.inr rfl)]
        | false =>
          rw [exec_bind_ok (exec_execute_ok hfinish), exec_bind_ok (exec_modify _ _),
            if_neg (by simp)]
      · rw [if_neg hcount, if_neg hcount]
        cases hfinish : s.store.fails (.finish i) with
        | true => rw [exec_bind_error (exec_execute_error hfinish), if_pos (.inr rfl)]
        | false => rw [exec_bind_ok (exec_execute_ok hfinish), if_neg (by simp)]
  · rw [stopVms, if_neg hfit, if_neg hfit]

/-- Without a commit the loop leaves everything as it was. -/
theorem stopVms_of_not_commits
    (h : ¬ Commits c s.store.db s.store.fails vmList i numGW) :
    (exec (stopVms c vmList i numGW) s).2 = s := by
  induction vmList generalizing i with
  | nil => rfl
  | cons g rest ih =>
    rw [commits_cons] at h
    rw [exec_stopVms_cons]
    by_cases hfit : (g.2 : ℤ) ≤ numGW
    · rw [if_pos hfit] at h ⊢
      split
      · rfl
      · rename_i hok
        rw [not_or, Bool.not_eq_true, Bool.not_eq_true] at hok
        have hnone : ¬ (rowcount c s.store.db g.1.vm = g.2 ∨
            Commits c s.store.db s.store.fails rest (i + 1) numGW) :=
          fun hor => h ⟨hok.1, hok.2, hor⟩
        rw [not_or] at hnone
        rw [if_neg hnone.1]
        exact ih hnone.2
    · rw [if_neg hfit] at h ⊢
      exact ih h

def unlocked (db : Database) : ℕ := db.location.countP fun r => !r.locked

/-- What an update touches is no longer unlocked. -/
theorem unlocked_stopVm (c : Collation) (db : Database) (vm : Option String) :
    unlocked (db.stopVm c vm) + rowcount c db vm = unlocked db := by
  apply countP_updateWhere
  intro r hr
  exact ⟨(Bool.and_eq_true_iff.mp hr).1, rfl⟩

theorem unlocked_stopVms_le (vmList : List (Registration × ℕ)) (i : ℕ) (numGW : ℤ) (s : Session) :
    unlocked (exec (stopVms c vmList i numGW) s).2.store.db ≤ unlocked s.store.db := by
  apply keeps_stopVms (P := fun t => unlocked t.store.db ≤ unlocked s.store.db) _ i numGW s le_rfl
  intro g _ t ht _
  have hstop := unlocked_stopVm c t.store.db g.1.vm
  exact le_trans (by simp only [Session.commit]; omega) ht

/-- A commit marks a gateway for good. -/
theorem stopVms_of_commits (hpos : ∀ g ∈ vmList, 0 < g.2)
    (h : Commits c s.store.db s.store.fails vmList i numGW) :
    (exec (stopVms c vmList i numGW) s).2.store.db ≠ s.store.db := by
  induction vmList generalizing i with
  | nil =>
    obtain ⟨k, g, hg, -⟩ := h
    cases hg
  | cons g rest ih =>
    have hrest := fun i => ih (i := i) fun g hg => hpos g (List.mem_cons_of_mem _ hg)
    rw [commits_cons] at h
    rw [exec_stopVms_cons]
    by_cases hfit : (g.2 : ℤ) ≤ numGW
    · rw [if_pos hfit] at h ⊢
      obtain ⟨hupdate, hfinish, hcount⟩ := h
      rw [if_neg (by simp [hupdate, hfinish])]
      split
      · rename_i heq
        intro hsame
        have hle := unlocked_stopVms_le (c := c) rest (i + 1) (numGW - g.2) (s.commit c g.1.vm)
        have hstop := unlocked_stopVm c s.store.db g.1.vm
        have hg := hpos g List.mem_cons_self
        rw [hsame] at hle
        simp only [Session.commit] at hle
        omega
      · rename_i hne
        exact hrest _ (hcount.resolve_left hne)
    · rw [if_neg hfit] at h ⊢
      exact hrest _ h

end Session

section Iterations

variable {dates : Dates} {I : Iteration dates} {w : World SipStore} {s : Session} {numGW : ℤ}

theorem destroyed_append (calls more : List ProviderCall) :
    destroyed (calls ++ more) = destroyed calls ++ destroyed more := List.flatMap_append ..

/-- What the iteration has done before its first decision. -/
structure Ready (I : Iteration dates) (w : World SipStore) : Prop where
  store : w.store = ⟨I.db, I.fails⟩
  creates : created w.calls = []
  due : ∀ address ∈ destroyed w.calls, I.Due w address

theorem due_append {calls : List ProviderCall} (h : ∀ address ∈ destroyed w.calls, I.Due w address)
    (hmore : ∀ address ∈ destroyed calls, I.Due w address) :
    ∀ address ∈ destroyed (w.calls ++ calls),
      I.Due { w with calls := w.calls ++ calls } address := by
  intro address haddress
  rw [destroyed_append] at haddress
  rcases List.mem_append.mp haddress with haddress | haddress
  · exact h address haddress
  · exact hmore address haddress

/-- The machines of the cleanup are those of rows that are to stop. -/
theorem due_stopped (hstore : w.store = ⟨I.db, I.fails⟩) {row : Registration}
    (hrow : row ∈ I.stoppedList) : I.Due w (vmAddress row.vm) := by
  obtain ⟨counts, hgroups, hlist⟩ := I.stopped.groups
  rw [hlist] at hrow
  obtain ⟨g, hg, rfl⟩ := List.mem_map.mp hrow
  have hmem := List.mem_filter.mp (hgroups.member g hg)
  refine .inr ⟨g.1, ?_, (Bool.and_eq_true_iff.mp hmem.2).2, g.1.vm, rfl, rfl⟩
  rw [hstore]
  exact hmem.1

theorem keeps_cleanup : Keeps (Ready I) (SipScaler.cleanup I.csp I.cfg I.now I.stoppedList) := by
  have hbase : Keeps (Ready I) (I.csp.cleanup I.cfg I.now) := by
    apply keeps_baseCleanup
    rintro inst hinst w ⟨hstore, hcreates, hdue⟩
    refine ⟨hstore, (created_destroy _ _).trans hcreates, due_append hdue ?_⟩
    intro address haddress
    obtain rfl := List.mem_singleton.mp haddress
    exact .inl ⟨inst, hinst, rfl⟩
  have hstopped : Keeps (Ready I)
      (I.csp.destroyInstances (I.stoppedList.map fun row => vmAddress row.vm)) := by
    apply keeps_destroyInstances
    rintro w ⟨hstore, hcreates, hdue⟩
    refine ⟨hstore, (created_destroy _ _).trans hcreates, due_append hdue ?_⟩
    intro address haddress
    simp only [destroyed, List.flatMap_singleton] at haddress
    obtain ⟨row, hrow, rfl⟩ := List.mem_map.mp haddress
    exact due_stopped hstore hrow
  unfold SipScaler.cleanup
  apply keeps_get_bind
  intro w hw
  split
  · exact hw
  · split
    · exact hstopped.bind (fun _ => hbase) w hw
    · exact hbase w hw

theorem cleanup_of_blocked (h : I.Blocked) :
    (exec (SipScaler.cleanup I.csp I.cfg I.now I.stoppedList) ⟨⟨I.db, I.fails⟩, []⟩).1 =
      .error .valueError := by
  obtain ⟨hquery, hread⟩ := h
  have hsome : I.stoppedList ≠ [] := by
    intro hnil
    rw [hnil] at hread
    exact hread rfl
  rw [SipScaler.cleanup, exec_bind_ok (exec_get _)]
  simp only [hquery, Bool.false_eq_true, if_false, if_pos hsome]
  rw [exec_bind_error (exec_destroyInstances_error (Bool.not_eq_true _ ▸ hread) _)]

theorem cleanup_of_not_blocked (h : ¬ I.Blocked) :
    (exec (SipScaler.cleanup I.csp I.cfg I.now I.stoppedList) ⟨⟨I.db, I.fails⟩, []⟩).1 =
      .ok () := by
  rw [SipScaler.cleanup, exec_bind_ok (exec_get _)]
  cases hquery : I.fails .cleanup with
  | true => simp only [hquery, if_true, exec_pure]
  | false =>
    have hread : (I.stoppedList.map fun row => vmAddress row.vm).all I.csp.ipAddress = true :=
      not_not.mp fun hnot => h ⟨hquery, hnot⟩
    simp only [hquery, Bool.false_eq_true, if_false]
    by_cases hsome : I.stoppedList ≠ []
    · rw [if_pos hsome, exec_bind_ok (exec_destroyInstances hread _)]
      obtain ⟨base, hbase⟩ := exec_baseCleanup I.csp I.cfg I.now
        (⟨⟨I.db, I.fails⟩, [.destroyInstances (I.stoppedList.map fun row => vmAddress row.vm)]⟩ :
          World SipStore)
      exact congrArg Prod.fst hbase
    · rw [if_neg hsome]
      obtain ⟨base, hbase⟩ := exec_baseCleanup I.csp I.cfg I.now
        (⟨⟨I.db, I.fails⟩, []⟩ : World SipStore)
      exact congrArg Prod.fst hbase

/-- What the loop has committed: the marked rows, and the machines it noted for them. -/
structure Recorded (I : Iteration dates) (s : Session) : Prop where
  rows : List.Forall₂ (fun r r' : Registration => r'.vm = r.vm ∧
      (r.toStop = true → r'.toStop = true) ∧ (r'.toStop = true → r.toStop = true ∨
        ∃ vm ∈ s.ipList.getD [], I.collation.same r.vm vm = true))
    I.db.location s.store.db.location
  machines : ∀ vm ∈ s.ipList.getD [], ∃ row ∈ s.store.db.location, row.toStop = true ∧
    I.collation.groupKey row.vm = I.collation.groupKey vm
  some_list : s.ipList.isSome = true

theorem Recorded.initial : Recorded I ⟨⟨I.db, I.fails⟩, some []⟩ where
  rows := List.forall₂_same.mpr fun _ _ => ⟨rfl, id, .inl⟩
  machines _ h := by cases h
  some_list := rfl

/-- A commit that touched rows marks them and notes their machine. -/
theorem recorded_commit {vm : Option String} (h : Recorded I s)
    (hrow : 0 < rowcount I.collation s.store.db vm) :
    Recorded I (s.commit I.collation vm) := by
  obtain ⟨ipList, hlist⟩ := Option.isSome_iff_exists.mp h.some_list
  have hnoted : (s.commit I.collation vm).ipList = some (ipList ++ [vm]) := by
    rw [Session.commit, hlist]
    rfl
  have hmarked : ∀ row ∈ s.store.db.location, row.toStop = true ∨
      onVm I.collation vm row = true → ∃ row' ∈ (s.store.db.stopVm I.collation vm).location,
        row'.toStop = true ∧ row'.vm = row.vm := by
    intro row hmem hstop
    refine ⟨if onVm I.collation vm row then stop row else row, ?_, ?_⟩
    · exact mem_updateWhere.mpr ⟨row, hmem, rfl⟩
    · cases hon : onVm I.collation vm row with
      | true => exact ⟨rfl, rfl⟩
      | false =>
        rw [hon] at hstop
        exact ⟨hstop.resolve_right Bool.false_ne_true, rfl⟩
  constructor
  · rw [hnoted]
    apply List.forall₂_map_right_iff.mpr
    have hrows := h.rows
    rw [hlist] at hrows
    apply hrows.imp
    rintro r r' ⟨hvm, hkept, hnew⟩
    cases hon : onVm I.collation vm r' with
    | true =>
      have hsame := (Bool.and_eq_true_iff.mp hon).2
      rw [hvm] at hsame
      exact ⟨hvm, fun _ => rfl, fun _ => .inr ⟨vm, by simp, hsame⟩⟩
    | false =>
      refine ⟨hvm, hkept, fun hstop => ?_⟩
      rcases hnew hstop with hold | ⟨vm', hvm', hsame⟩
      · exact .inl hold
      · exact .inr ⟨vm', List.mem_append_left _ hvm', hsame⟩
  · rw [hnoted]
    intro vm' hvm'
    rcases List.mem_append.mp hvm' with hvm' | hvm'
    · have hmachines := h.machines
      rw [hlist] at hmachines
      obtain ⟨row, hmem, hstop, hkey⟩ := hmachines vm' hvm'
      obtain ⟨row', hmem', hstop', hvm''⟩ := hmarked row hmem (.inl hstop)
      exact ⟨row', hmem', hstop', by rw [hvm'', hkey]⟩
    · obtain rfl := List.mem_singleton.mp hvm'
      obtain ⟨row, hmem, hon⟩ := List.countP_pos_iff.mp hrow
      obtain ⟨row', hmem', hstop', hvm''⟩ := hmarked row hmem (.inr hon)
      refine ⟨row', hmem', hstop', ?_⟩
      rw [hvm'']
      exact I.collation.groupKey_of_same (Bool.and_eq_true_iff.mp hon).2
  · rw [hnoted]
    rfl

theorem idle_pos : ∀ g ∈ I.idleList, 0 < g.2 := fun _ hg => I.idle.groups.count_pos hg

theorem recorded_stopVms (I : Iteration dates) (numGW : ℤ) :
    Recorded I (exec (stopVms I.collation I.idleList 0 numGW) ⟨⟨I.db, I.fails⟩, some []⟩).2 := by
  refine keeps_stopVms ?_ 0 numGW _ Recorded.initial
  intro g hg s hs hcount
  apply recorded_commit hs
  rw [hcount]
  exact idle_pos g hg

/-- `downScale` without its machines raises for want of a list. -/
theorem downScale_of_fails (hw : w.store = ⟨I.db, I.fails⟩) (h : I.fails .idleVms = true) :
    exec (SipScaler.downScale I.csp I.collation I.idleList numGW) w =
      (.error (.unboundLocalError "ipList"), w) := by
  have hquery : w.store.fails .idleVms = true := by
    rw [hw]
    exact h
  have hsession : (exec (selectAndStop I.collation I.idleList numGW) ⟨w.store, none⟩).2 =
      ⟨w.store, none⟩ := by
    rw [selectAndStop, exec_bind_error (exec_execute_error hquery)]
  rw [SipScaler.downScale, exec_bind_ok (exec_get w), exec_bind_ok (exec_modify _ _)]
  simp only [hsession]
  rfl

/-- What `downScale` leaves: the tables of the loop, and the machines it noted destroyed. -/
theorem downScale_of_selects (numGW : ℤ) (hw : w.store = ⟨I.db, I.fails⟩)
    (h : I.fails .idleVms = false) :
    ∃ ipList r more,
      (exec (stopVms I.collation I.idleList 0 numGW) ⟨w.store, some []⟩).2.ipList = some ipList ∧
      exec (SipScaler.downScale I.csp I.collation I.idleList numGW) w =
        (r, ⟨(exec (stopVms I.collation I.idleList 0 numGW) ⟨w.store, some []⟩).2.store,
          w.calls ++ more⟩) ∧
      r ≠ .error (.unboundLocalError "ipList") ∧ created more = [] ∧
      destroyed more = ipList.map vmAddress := by
  have hquery : w.store.fails .idleVms = false := by
    rw [hw]
    exact h
  have hsession : (exec (selectAndStop I.collation I.idleList numGW) ⟨w.store, none⟩).2 =
      (exec (stopVms I.collation I.idleList 0 numGW) ⟨w.store, some []⟩).2 := by
    rw [selectAndStop, exec_bind_ok (exec_execute_ok hquery), exec_bind_ok (exec_modify _ _)]
  have hrecorded := recorded_stopVms I numGW
  obtain ⟨ipList, hlist⟩ := Option.isSome_iff_exists.mp hrecorded.some_list
  rw [← hw] at hlist
  refine ⟨ipList, ?_⟩
  rw [SipScaler.downScale, exec_bind_ok (exec_get w), exec_bind_ok (exec_modify _ _)]
  simp only [hsession, hlist]
  by_cases hsome : ipList ≠ []
  · rw [if_pos hsome]
    cases hread : (ipList.map vmAddress).all I.csp.ipAddress with
    | true =>
      rw [exec_destroyInstances hread]
      exact ⟨.ok (), _, trivial, rfl, by simp, rfl, List.flatMap_singleton ..⟩
    | false =>
      rw [exec_destroyInstances_error hread]
      exact ⟨.error .valueError, _, trivial, rfl, by simp, rfl, List.flatMap_singleton ..⟩
  · rw [if_neg hsome]
    rw [not_not] at hsome
    subst hsome
    exact ⟨.ok (), [], trivial, by rw [List.append_nil, exec_pure], by simp, rfl, rfl⟩

/-- The machines destroyed and the rows marked answer to each other. -/
structure Accounted (I : Iteration dates) (w : World SipStore) : Prop where
  due : ∀ address ∈ destroyed w.calls, I.Due w address
  answered : List.Forall₂ (I.Answered w) I.db.location w.store.db.location

theorem Ready.accounted (h : Ready I w) : Accounted I w where
  due := h.due
  answered := by
    rw [h.store]
    exact List.forall₂_same.mpr fun _ _ => ⟨rfl, id, .inl⟩

theorem accounted_upScale (h : Ready I w) (n : ℤ) :
    Accounted I (exec (I.csp.upScale n) w).2 := by
  apply keeps_upScale _ n w h.accounted
  rintro cpu w ⟨hdue, hanswered⟩
  have hcalls : destroyed (w.calls ++ [.createInstance cpu]) = destroyed w.calls := by
    rw [destroyed_append]
    exact List.append_nil _
  constructor
  · rw [hcalls]
    exact hdue
  · apply hanswered.imp
    intro r r' hr
    rw [Iteration.Answered, hcalls]
    exact hr

theorem accounted_downScale (h : Ready I w) :
    Accounted I (exec (SipScaler.downScale I.csp I.collation I.idleList numGW) w).2 := by
  cases hquery : I.fails .idleVms with
  | true =>
    rw [downScale_of_fails h.store hquery]
    exact h.accounted
  | false =>
    have hrecorded := recorded_stopVms I numGW
    obtain ⟨ipList, r, more, hlist, hrun, -, -, hmore⟩ :=
      downScale_of_selects numGW h.store hquery
    rw [h.store] at hlist hrun
    rw [hrun]
    revert hrecorded hlist
    generalize (exec (stopVms I.collation I.idleList 0 numGW)
      ⟨⟨I.db, I.fails⟩, some []⟩).2 = t
    intro hrecorded hlist
    have hrows := hrecorded.rows
    have hmachines := hrecorded.machines
    rw [hlist, Option.getD_some] at hrows hmachines
    constructor
    · intro address haddress
      rw [destroyed_append] at haddress
      rcases List.mem_append.mp haddress with haddress | haddress
      · rcases h.due address haddress with hinst | ⟨row, hmem, hstop, vm, hvm, hkey⟩
        · exact .inl hinst
        · rw [h.store] at hmem
          obtain ⟨row', hmem', hvm', hkept, -⟩ := exists_mem_of_forall₂ hrows hmem
          exact .inr ⟨row', hmem', hkept hstop, vm, hvm, by rw [hvm', hkey]⟩
      · rw [hmore] at haddress
        obtain ⟨vm, hvm, rfl⟩ := List.mem_map.mp haddress
        obtain ⟨row, hmem, hstop, hkey⟩ := hmachines vm hvm
        exact .inr ⟨row, hmem, hstop, vm, rfl, hkey⟩
    · apply hrows.imp
      rintro r r' ⟨hvm, hkept, hnew⟩
      refine ⟨hvm, hkept, fun hstop => ?_⟩
      rcases hnew hstop with hold | ⟨vm, hmem, hsame⟩
      · exact .inl hold
      · refine .inr ⟨vm, hsame, ?_⟩
        rw [destroyed_append, hmore]
        exact List.mem_append_right _ (List.mem_map_of_mem hmem)

theorem exec_capacities (h : w.store = ⟨I.db, I.fails⟩) :
    exec (getCurrentCapacity I.cfg I.collation) w = (.ok I.current, w) ∧
      exec (getReadyToRunCapacity I.cfg I.collation) w = (.ok I.ready, w) := by
  rw [getCurrentCapacity, getReadyToRunCapacity, exec_bind_ok (exec_get w),
    exec_bind_ok (exec_get w), h]
  exact ⟨rfl, rfl⟩

/-- Without a capacity nothing is created or marked, and nothing raises for want of a list. -/
structure Safe (I : Iteration dates) (out : Except PyError Unit × World SipStore) : Prop where
  creates : I.capacityFails = true → created out.2.calls = []
  marks : I.capacityFails = true → out.2.store.db = I.db
  raises : out.1 ≠ .error (.unboundLocalError "ipList")

/-- Acting on a target is safe exactly when the target does no harm. -/
theorem safe_adjust_iff (h : Ready I w) (target : ℚ) :
    Safe I (exec (adjust I.arithmetic I.csp I.cfg
      (SipScaler.downScale I.csp I.collation I.idleList)
      (missing I.arithmetic target I.current)) w) ↔ I.Spared target := by
  have hle : target ≤ I.current ↔ missing I.arithmetic target I.current ≤ 0 := by
    rw [← not_lt, ← missing_pos_iff, not_lt]
  unfold Iteration.Spared adjust
  rw [hle]
  generalize missing I.arithmetic target I.current = increase
  by_cases hpos : increase > 0
  · have hceil := cpusOf_pos I.arithmetic I.cpu_pos hpos
    obtain ⟨more, hrun, hcreated⟩ := upScale_creates I.sizes I.some_size hceil w
    rw [if_pos hpos, hrun]
    constructor
    · rintro ⟨hcreates, -, -⟩
      refine ⟨fun hfails => ?_, fun hneg => absurd hneg (by omega)⟩
      have hnone := hcreates hfails
      rw [created_append] at hnone
      exact absurd (List.append_eq_nil_iff.mp hnone).2 hcreated
    · rintro ⟨hnot, -⟩
      refine ⟨fun hfails => absurd (hnot hfails) (by omega), fun hfails => ?_, by simp⟩
      rw [h.store]
  · rw [if_neg hpos]
    by_cases hneg : increase < 0
    · rw [if_pos hneg, ← abs_of_neg hneg]
      have hnone : increase ≤ 0 := by omega
      cases hquery : I.fails .idleVms with
      | true =>
        rw [downScale_of_fails h.store hquery]
        constructor
        · rintro ⟨-, -, hraises⟩
          exact absurd rfl hraises
        · rintro ⟨-, hselects⟩
          cases (hselects hneg).1
      | false =>
        obtain ⟨ipList, r, more, -, hrun, hraises, hmore, -⟩ :=
          downScale_of_selects |increase| h.store hquery
        rw [hrun, h.store]
        constructor
        · rintro ⟨-, hmarks, -⟩
          refine ⟨fun _ => hnone, fun _ => ⟨rfl, fun hfails hcommits => ?_⟩⟩
          exact stopVms_of_commits idle_pos hcommits (hmarks hfails)
        · rintro ⟨-, hselects⟩
          refine ⟨fun _ => ?_, fun hfails => ?_, hraises⟩
          · rw [created_append, h.creates, hmore]
            rfl
          · have hstays := (hselects hneg).2 hfails
            rw [stopVms_of_not_commits (s := ⟨⟨I.db, I.fails⟩, some []⟩) hstays]
    · rw [if_neg hneg]
      constructor
      · intro _
        exact ⟨fun _ => by omega, fun hneg' => absurd hneg' hneg⟩
      · intro _
        refine ⟨fun _ => h.creates, fun _ => ?_, by simp⟩
        rw [exec_pure, h.store]

theorem safe_of_ready (h : Ready I w) {r : Except PyError Unit}
    (hr : r ≠ .error (.unboundLocalError "ipList")) : Safe I (r, w) where
  creates _ := h.creates
  marks _ := by rw [h.store]
  raises := hr

theorem capacityIncrease_error {arithmetic : Arithmetic} {slot : Slot} {current ready : ℤ}
    {incallsNum : Option ℤ} {e : PyError}
    (h : capacityIncrease arithmetic slot current ready incallsNum = .error e) :
    e ≠ .unboundLocalError "ipList" := by
  rintro rfl
  simp only [capacityIncrease] at h
  split at h
  · cases h
  · cases h
  · split at h <;> cases h

/-- What the slot asks for does no harm, where it has a number and a load to go by. -/
def Iteration.Decides (I : Iteration dates) : Prop :=
  ∀ slot maxGw loadMax, slotAt I.timeLine I.scaleTime = .ok slot → slot.maxGw = some maxGw →
    slot.loadMax = some loadMax → loadMax ≠ 0 →
    I.Spared (slot.asked I.arithmetic maxGw loadMax (I.current - I.ready))

theorem safe_scaling_iff (h : Ready I w) : Safe I (exec I.scaling w) ↔ I.Decides := by
  obtain ⟨hcurrent, hready⟩ := exec_capacities h.store
  unfold Iteration.scaling
  cases hslot : slotAt I.timeLine I.scaleTime with
  | error e =>
    rw [exec_scale_error hslot]
    refine iff_of_true (safe_of_ready h ?_) fun slot _ _ hslot' => ?_
    · rw [slotAt_error hslot]
      simp
    · rw [hslot] at hslot'
      cases hslot'
  | ok slot =>
    rw [exec_scale hslot hcurrent hready]
    cases hinc : capacityIncrease I.arithmetic slot I.current I.ready none with
    | error e =>
      refine iff_of_true (safe_of_ready h ?_) fun slot' _ _ hslot' hmax hload hzero => ?_
      · exact fun he => capacityIncrease_error hinc (Except.error.inj he)
      · rw [hslot] at hslot'
        obtain rfl := Except.ok.inj hslot'
        rw [capacityIncrease_eq_ok.mpr ⟨_, _, hmax, hload, hzero, rfl⟩] at hinc
        cases hinc
    | ok increase =>
      obtain ⟨maxGw, loadMax, hmax, hload, hzero, rfl⟩ := capacityIncrease_eq_ok.mp hinc
      refine (safe_adjust_iff h _).trans
        ⟨fun hspared slot' _ _ hslot' hmax' hload' _ => ?_, fun hdecides => ?_⟩
      · rw [hslot] at hslot'
        obtain rfl := Except.ok.inj hslot'
        obtain rfl := Option.some.inj (hmax.symm.trans hmax')
        obtain rfl := Option.some.inj (hload.symm.trans hload')
        exact hspared
      · exact hdecides slot maxGw loadMax hslot hmax hload hzero

theorem accounted_scaling (h : Ready I w) : Accounted I (exec I.scaling w).2 := by
  obtain ⟨hcurrent, hready⟩ := exec_capacities h.store
  unfold Iteration.scaling
  cases hslot : slotAt I.timeLine I.scaleTime with
  | error e =>
    rw [exec_scale_error hslot]
    exact h.accounted
  | ok slot =>
    rw [exec_scale hslot hcurrent hready]
    cases capacityIncrease I.arithmetic slot I.current I.ready none with
    | error e => exact h.accounted
    | ok increase =>
      simp only [adjust]
      by_cases hpos : increase > 0
      · rw [if_pos hpos]
        exact accounted_upScale h _
      · rw [if_neg hpos]
        by_cases hneg : increase < 0
        · rw [if_pos hneg]
          exact accounted_downScale h
        · rw [if_neg hneg]
          exact h.accounted

/-- The whole iteration, before its answer is written. -/
def Iteration.body (I : Iteration dates) : SipScaling Unit :=
  SipScaler.cleanup I.csp I.cfg I.now I.stoppedList >>= fun _ => I.scaling

theorem harmless_iff_safe (I : Iteration dates) :
    Harmless I ↔ Safe I (exec I.body ⟨⟨I.db, I.fails⟩, []⟩) ∧
      Accounted I (exec I.body ⟨⟨I.db, I.fails⟩, []⟩).2 := by
  have hsnd : I.run.2 = (exec I.body ⟨⟨I.db, I.fails⟩, []⟩).2 := exec_autoIteration_snd _ _
  have hfst : I.run.1 = .ok (.failed (.unboundLocalError "ipList")) ↔
      (exec I.body ⟨⟨I.db, I.fails⟩, []⟩).1 = .error (.unboundLocalError "ipList") := by
    rw [Iteration.run, exec_autoIteration, Iteration.body]
    cases exec (SipScaler.cleanup I.csp I.cfg I.now I.stoppedList >>= fun _ => I.scaling)
      ⟨⟨I.db, I.fails⟩, []⟩ with
    | mk r w => cases r <;> simp
  constructor
  · rintro ⟨hcreates, hmarks, hraises, hdue, hanswered⟩
    rw [hsnd] at hcreates hmarks hdue hanswered
    exact ⟨⟨hcreates, hmarks, fun h => hraises (hfst.mpr h)⟩, hdue, hanswered⟩
  · rintro ⟨⟨hcreates, hmarks, hraises⟩, hdue, hanswered⟩
    rw [← hsnd] at hcreates hmarks hdue hanswered
    exact ⟨hcreates, hmarks, fun h => hraises (hfst.mp h), hdue, hanswered⟩

end Iterations

/-- A scaler of four gateways at most, two of them idle, while no query of it goes through. -/
def databaseDown : Iteration plainDates where
  arithmetic := .binary64
  csp := plainProvider
  cfg := plainConfig
  sizes := plain_sizes
  some_size := plain_offered
  cpu_pos := plain_cpu_pos
  collation := ⟨Char.toLower⟩
  timeLine := [("07:00:00", ⟨some 4, some 2, none, some (3 / 4)⟩)]
  scaleTime := "08:00:00"
  now := 0
  db := ⟨[], []⟩
  fails _ := true
  idleList := []
  idle := ⟨⟨List.nodup_nil, by simp, by simp, by simp⟩, List.Pairwise.nil⟩
  stoppedList := []
  stopped := ⟨[], ⟨List.nodup_nil, by simp, by simp, by simp⟩, rfl⟩

theorem databaseDown_creates : created databaseDown.run.2.calls = [⟨"8", 0⟩] := by
  decide +kernel

end SipScalerFailures
