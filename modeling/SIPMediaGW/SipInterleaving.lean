import SIPMediaGW.LabelledExecutions
import SIPMediaGW.SipLocation

/-! # Kamailio workers, the log reader and the scaler over one location table

Each committed statement is one event. A worker in `lockGw` carries the contacts it has still
to try, a scaler in `downScale` the machines it has still to update. `starved`, `asked` and
`held` are ghost observations. -/
namespace SipInterleaving

open LabelledExecutions
open SipLocation
open SqlStatements

/-- The collation of the tables, and the gateway name parts of the two programs. -/
structure Server where
  collation : Collation
  gwNamePart : String
  gwNamePrefix : String

/-- A `lockGw` call after its queries: whether at some instant since no gateway was available. -/
structure LockCall where
  contactList : List Registration
  starved : Bool
  deriving DecidableEq, Repr

/-- A `downScale` call after its query, with the number it was asked to remove. -/
structure ScaleRun where
  vmList : List (Registration × ℕ)
  numGW : ℤ
  ipList : List (Option String)
  asked : ℤ
  deriving DecidableEq, Repr

/-- `held` lists the gateways `lockGw` returned, not unlocked since nor at the end of a call. -/
structure System where
  db : Database
  locks : List LockCall
  scales : List ScaleRun
  held : List String
  deriving DecidableEq, Repr

inductive Event where
  | lockSelect (contactList : List Registration)
  | lockUpdate (i : ℕ)
  | unlock (dstUser : String)
  | dialogStart (d : Dialog)
  | dialogEnd (i : ℕ)
  | register (username contact socket : String) (received : Option String)
  | unregister (i : ℕ)
  | scaleSelect (vmList : List (Registration × ℕ)) (numGW : ℤ)
  | scaleUpdate (i : ℕ)
  | scaleDone (i : ℕ)
  deriving DecidableEq, Repr

section Steps

variable (S : Server)

/-- A registered gateway that is unlocked and has no call of its own. -/
def availableRow (db : Database) (r : Registration) : Bool :=
  isGateway S.collation S.gwNamePart r && !r.locked &&
    !(db.dialog.any fun d => d.callee == r.username)

def available (db : Database) : Bool := db.location.any (availableRow S db)

/-- The contact a worker tries next. -/
def System.trial (s : System) (i : ℕ) : Option Registration :=
  s.locks[i]?.bind fun call => call.contactList.head?

/-- The rows that trial locks. -/
def System.touched (s : System) (first : Registration) : ℕ :=
  s.db.location.countP (lockable S.collation s.db first.contact first.username)

/-- The machine a scaler updates next, with the gateways counted on it. -/
def System.turn (s : System) (i : ℕ) : Option (ScaleRun × Registration × ℕ) :=
  s.scales[i]?.bind fun run => run.vmList.head?.map fun g => (run, g)

/-- The update is kept: the machine fits, and as many rows were touched as counted. -/
def System.commits (s : System) (run : ScaleRun) (g : Registration × ℕ) : Prop :=
  g.2 ≤ run.numGW ∧ rowcount S.collation s.db g.1.vm = g.2

instance (s : System) (run : ScaleRun) (g : Registration × ℕ) : Decidable (s.commits S run g) :=
  inferInstanceAs (Decidable (_ ∧ _))

/-- The tables after an event. -/
def System.effect (s : System) : Event → Database
  | .lockUpdate i =>
    match s.trial i with
    | some first => s.db.lockContact S.collation first.contact first.username
    | none => s.db
  | .unlock dstUser => s.db.unlock S.collation dstUser
  | .dialogStart d => { s.db with dialog := s.db.dialog ++ [d] }
  | .dialogEnd i => { s.db with dialog := s.db.dialog.eraseIdx i }
  | .register username contact socket received =>
    { s.db with location := s.db.location ++ [⟨username, contact, socket, received, false, false⟩] }
  | .unregister i => { s.db with location := s.db.location.eraseIdx i }
  | .scaleUpdate i =>
    match s.turn i with
    | some (run, g) => if s.commits S run g then s.db.stopVm S.collation g.1.vm else s.db
    | none => s.db
  | .lockSelect _ => s.db
  | .scaleSelect _ _ => s.db
  | .scaleDone _ => s.db

/-- The calls in flight after an event: a call ends with a gateway, or with its last contact. -/
def System.calls (s : System) : Event → List LockCall
  | .lockSelect contactList =>
    if contactList = [] then s.locks else s.locks ++ [⟨contactList, false⟩]
  | .lockUpdate i =>
    match s.locks[i]? with
    | some ⟨first :: rest, starved⟩ =>
      if 0 < s.touched S first ∨ rest = [] then s.locks.eraseIdx i
      else s.locks.set i ⟨rest, starved⟩
    | _ => s.locks
  | _ => s.locks

def System.runs (s : System) : Event → List ScaleRun
  | .scaleSelect vmList numGW => s.scales ++ [⟨vmList, numGW, [], numGW⟩]
  | .scaleUpdate i =>
    match s.turn i with
    | some (run, g) =>
      let rest := run.vmList.tail
      if s.commits S run g then
        s.scales.set i ⟨rest, run.numGW - g.2, run.ipList ++ [g.1.vm], run.asked⟩
      else s.scales.set i { run with vmList := rest }
    | none => s.scales
  | .scaleDone i => s.scales.eraseIdx i
  | _ => s.scales

def System.holds (s : System) : Event → List String
  | .lockUpdate i =>
    match s.trial i with
    | some first => if 0 < s.touched S first then first.username :: s.held else s.held
    | none => s.held
  | .unlock dstUser => s.held.filter (· ≠ dstUser)
  | .dialogEnd i =>
    match s.db.dialog[i]? with
    | some d => s.held.filter (· ≠ d.callee)
    | none => s.held
  | _ => s.held

/-- A call sees the tables after every event. -/
def LockCall.observe (db : Database) (call : LockCall) : LockCall :=
  { call with starved := call.starved || !available S db }

def next (s : System) (e : Event) : System where
  db := s.effect S e
  locks := (s.calls S e).map (LockCall.observe S (s.effect S e))
  scales := s.runs S e
  held := s.holds S e

def Enabled (s : System) : Event → Prop
  | .lockSelect contactList => Selects S.collation S.gwNamePart s.db contactList
  | .lockUpdate i => (s.trial i).isSome = true
  | .dialogEnd i => i < s.db.dialog.length
  | .unregister i => i < s.db.location.length
  | .scaleSelect vmList numGW => IdleVms S.collation S.gwNamePrefix s.db vmList ∧ 0 ≤ numGW
  | .scaleUpdate i => (s.turn i).isSome = true
  | .scaleDone i => ∃ run, s.scales[i]? = some run ∧ run.vmList = []
  | _ => True

def Step (s : System) (e : Event) (t : System) : Prop := Enabled S s e ∧ t = next S s e

/-- The event ends a `lockGw` call with a contact. -/
def Returns (s : System) (e : Event) (contact : Registration) : Prop :=
  ∃ i, e = .lockUpdate i ∧ s.trial i = some contact ∧ 0 < s.touched S contact

/-- No call is in flight, and none has been answered. -/
def quiet (db : Database) : System := ⟨db, [], [], []⟩

/-- What an event makes of a row that was there. -/
def System.change (s : System) : Event → Registration → Registration
  | .lockUpdate i, r =>
    match s.trial i with
    | some first =>
      if lockable S.collation s.db first.contact first.username r then lock r else r
    | none => r
  | .unlock dstUser, r => if S.collation.likeAround dstUser r.contact then release r else r
  | .scaleUpdate i, r =>
    match s.turn i with
    | some (run, g) => if s.commits S run g ∧ onVm S.collation g.1.vm r then stop r else r
    | none => r
  | _, r => r

/-- The rows an event leaves: it neither locks nor removes them, nor calls them. -/
def System.left (s : System) : Event → List Registration
  | .lockUpdate i =>
    match s.trial i with
    | some first =>
      s.db.location.filter fun r => !lockable S.collation s.db first.contact first.username r
    | none => s.db.location
  | .dialogStart d => s.db.location.filter fun r => d.callee != r.username
  | .unregister i => s.db.location.eraseIdx i
  | .scaleUpdate i =>
    match s.turn i with
    | some (run, g) =>
      if s.commits S run g then s.db.location.filter fun r => !onVm S.collation g.1.vm r
      else s.db.location
    | none => s.db.location
  | _ => s.db.location

end Steps

section Rows

variable {S : Server} {s : System} {e : Event} {r r' : Registration}

/-- An event changes nothing of a row but its two marks. -/
theorem change_eq (S : Server) (s : System) (e : Event) (r : Registration) :
    s.change S e r = r ∨ s.change S e r = lock r ∨ s.change S e r = release r ∨
      s.change S e r = stop r := by
  cases e with
  | lockUpdate i =>
    simp only [System.change]
    split
    · split
      · exact .inr (.inl rfl)
      · exact .inl rfl
    · exact .inl rfl
  | unlock dstUser =>
    simp only [System.change]
    split
    · exact .inr (.inr (.inl rfl))
    · exact .inl rfl
  | scaleUpdate i =>
    simp only [System.change]
    split
    · split
      · exact .inr (.inr (.inr rfl))
      · exact .inl rfl
    · exact .inl rfl
  | _ => exact .inl rfl

@[simp] theorem change_username : (s.change S e r).username = r.username := by
  rcases change_eq S s e r with h | h | h | h <;> rw [h] <;> rfl

@[simp] theorem change_vm : (s.change S e r).vm = r.vm := by
  rcases change_eq S s e r with h | h | h | h <;> rw [h] <;> rfl

theorem map_change_id (h : ∀ r, s.change S e r = r) :
    s.db.location = s.db.location.map (s.change S e) := by
  rw [funext h]
  exact (List.map_id _).symm

/-- A registration adds a row, its end removes one, and every other event changes the rows in
their places. -/
theorem effect_location (S : Server) (s : System) (e : Event) :
    (∃ username contact socket received, e = .register username contact socket received ∧
        (s.effect S e).location =
          s.db.location ++ [⟨username, contact, socket, received, false, false⟩]) ∨
      (∃ i, e = .unregister i ∧ (s.effect S e).location = s.db.location.eraseIdx i) ∨
      (s.effect S e).location = s.db.location.map (s.change S e) := by
  cases e with
  | register username contact socket received =>
    exact .inl ⟨username, contact, socket, received, rfl, rfl⟩
  | unregister i => exact .inr (.inl ⟨i, rfl, rfl⟩)
  | lockUpdate i =>
    refine .inr (.inr ?_)
    cases htrial : s.trial i with
    | none =>
      simp only [System.effect, htrial]
      exact map_change_id fun r => by simp only [System.change, htrial]
    | some first =>
      have hchange : s.change S (.lockUpdate i) = fun r =>
          if lockable S.collation s.db first.contact first.username r then lock r else r := by
        funext r
        simp only [System.change, htrial]
      simp only [System.effect, htrial, hchange]
      rfl
  | scaleUpdate i =>
    refine .inr (.inr ?_)
    cases hturn : s.turn i with
    | none =>
      simp only [System.effect, hturn]
      exact map_change_id fun r => by simp only [System.change, hturn]
    | some turn =>
      obtain ⟨run, g⟩ := turn
      by_cases hcommits : s.commits S run g
      · have hchange : s.change S (.scaleUpdate i) = fun r =>
            if onVm S.collation g.1.vm r then stop r else r := by
          funext r
          simp only [System.change, hturn, hcommits, true_and]
        simp only [System.effect, hturn, if_pos hcommits, hchange]
        rfl
      · simp only [System.effect, hturn, if_neg hcommits]
        exact map_change_id fun r => by
          simp only [System.change, hturn, hcommits, false_and, if_false]
  | unlock dstUser => exact .inr (.inr rfl)
  | lockSelect contactList => exact .inr (.inr (List.map_id _).symm)
  | dialogStart d => exact .inr (.inr (List.map_id _).symm)
  | dialogEnd i => exact .inr (.inr (List.map_id _).symm)
  | scaleSelect vmList numGW => exact .inr (.inr (List.map_id _).symm)
  | scaleDone i => exact .inr (.inr (List.map_id _).symm)

/-- The rows after an event: those that were there, changed, and a new registration. -/
theorem mem_effect (h : r' ∈ (s.effect S e).location) :
    (∃ username contact socket received, e = .register username contact socket received ∧
        r' = ⟨username, contact, socket, received, false, false⟩) ∨
      ∃ r ∈ s.db.location, s.change S e r = r' := by
  rcases effect_location S s e with ⟨username, contact, socket, received, rfl, hloc⟩ |
    ⟨i, rfl, hloc⟩ | hloc
  · rw [hloc] at h
    rcases List.mem_append.mp h with h | h
    · exact .inr ⟨r', h, rfl⟩
    · exact .inl ⟨username, contact, socket, received, rfl, List.mem_singleton.mp h⟩
  · rw [hloc] at h
    exact .inr ⟨r', List.mem_of_mem_eraseIdx h, rfl⟩
  · rw [hloc] at h
    exact .inr (List.mem_map.mp h)

theorem trial_eq_some {i : ℕ} {first : Registration} :
    s.trial i = some first ↔ ∃ rest starved, s.locks[i]? = some ⟨first :: rest, starved⟩ := by
  simp only [System.trial, Option.bind_eq_some_iff]
  constructor
  · rintro ⟨⟨contactList, starved⟩, hcall, hhead⟩
    cases contactList with
    | nil => cases hhead
    | cons c rest =>
      obtain rfl := Option.some.inj hhead
      exact ⟨rest, starved, hcall⟩
  · rintro ⟨rest, starved, hcall⟩
    exact ⟨_, hcall, rfl⟩

/-- The calls after an event: a new one, those that others leave alone, and one that goes on
to its next contact. -/
theorem mem_calls {call : LockCall} (henabled : Enabled S s e) (h : call ∈ s.calls S e) :
    (∃ contactList, e = .lockSelect contactList ∧ contactList ≠ [] ∧ call = ⟨contactList, false⟩) ∨
      (∃ j : ℕ, s.locks[j]? = some call ∧ e ≠ .lockUpdate j) ∨
      ∃ i first rest starved, e = .lockUpdate i ∧
        s.locks[i]? = some ⟨first :: rest, starved⟩ ∧ s.touched S first = 0 ∧
        call = ⟨rest, starved⟩ := by
  have hkept : call ∈ s.locks → (∀ j, e ≠ .lockUpdate j) →
      ∃ j : ℕ, s.locks[j]? = some call ∧ e ≠ .lockUpdate j := by
    intro hmem hne
    obtain ⟨j, hj⟩ := List.mem_iff_getElem?.mp hmem
    exact ⟨j, hj, hne j⟩
  cases e with
  | lockSelect contactList =>
    simp only [System.calls] at h
    split at h
    · exact .inr (.inl (hkept h (by simp)))
    · rename_i hne
      rcases List.mem_append.mp h with h | h
      · exact .inr (.inl (hkept h (by simp)))
      · exact .inl ⟨contactList, rfl, hne, List.mem_singleton.mp h⟩
  | lockUpdate i =>
    obtain ⟨first, hfirst⟩ := Option.isSome_iff_exists.mp henabled
    obtain ⟨rest, starved, hcall⟩ := trial_eq_some.mp hfirst
    simp only [System.calls, hcall] at h
    by_cases hends : 0 < s.touched S first ∨ rest = []
    · rw [if_pos hends] at h
      obtain ⟨j, hne, hj⟩ := List.mem_eraseIdx_iff_getElem?.mp h
      exact .inr (.inl ⟨j, hj, fun heq => hne (Event.lockUpdate.inj heq).symm⟩)
    · rw [if_neg hends] at h
      obtain ⟨j, hj⟩ := List.mem_iff_getElem?.mp h
      rw [List.getElem?_set] at hj
      by_cases hij : i = j
      · subst hij
        have hlt : i < s.locks.length := (List.getElem?_eq_some_iff.mp hcall).1
        rw [if_pos rfl, if_pos hlt] at hj
        exact .inr (.inr ⟨i, first, rest, starved, rfl, hcall, by omega,
          (Option.some.inj hj).symm⟩)
      · rw [if_neg hij] at hj
        exact .inr (.inl ⟨j, hj, fun heq => hij (Event.lockUpdate.inj heq)⟩)
  | _ => exact .inr (.inl (hkept h (by simp)))

theorem turn_mem {i : ℕ} {run : ScaleRun} {g : Registration × ℕ} (h : s.turn i = some (run, g)) :
    run ∈ s.scales := by
  simp only [System.turn, Option.bind_eq_some_iff, Option.map_eq_some_iff] at h
  obtain ⟨found, hfound, first, -, hpair⟩ := h
  obtain ⟨rfl, -⟩ := Prod.mk.inj hpair
  exact List.mem_of_getElem? hfound

/-- The runs after an event: a new one, one that has committed, and those whose numbers and
addresses are as before. -/
theorem mem_runs {run : ScaleRun} (h : run ∈ s.runs S e) :
    (∃ vmList numGW, e = .scaleSelect vmList numGW ∧ run = ⟨vmList, numGW, [], numGW⟩) ∨
      (∃ i before g, e = .scaleUpdate i ∧ s.turn i = some (before, g) ∧ s.commits S before g ∧
        run = ⟨before.vmList.tail, before.numGW - g.2, before.ipList ++ [g.1.vm],
          before.asked⟩) ∨
      ∃ before ∈ s.scales, run.numGW = before.numGW ∧ run.ipList = before.ipList ∧
        run.asked = before.asked := by
  cases e with
  | scaleSelect vmList numGW =>
    rcases List.mem_append.mp h with h | h
    · exact .inr (.inr ⟨run, h, rfl, rfl, rfl⟩)
    · exact .inl ⟨vmList, numGW, rfl, List.mem_singleton.mp h⟩
  | scaleUpdate i =>
    simp only [System.runs] at h
    cases hturn : s.turn i with
    | none =>
      rw [hturn] at h
      exact .inr (.inr ⟨run, h, rfl, rfl, rfl⟩)
    | some turn =>
      obtain ⟨before, g⟩ := turn
      rw [hturn] at h
      by_cases hcommits : s.commits S before g
      · simp only [if_pos hcommits] at h
        rcases List.mem_or_eq_of_mem_set h with h | rfl
        · exact .inr (.inr ⟨run, h, rfl, rfl, rfl⟩)
        · exact .inr (.inl ⟨i, before, g, rfl, hturn, hcommits, rfl⟩)
      · simp only [if_neg hcommits] at h
        rcases List.mem_or_eq_of_mem_set h with h | rfl
        · exact .inr (.inr ⟨run, h, rfl, rfl, rfl⟩)
        · exact .inr (.inr ⟨before, turn_mem hturn, rfl, rfl, rfl⟩)
  | scaleDone i => exact .inr (.inr ⟨run, List.mem_of_mem_eraseIdx h, rfl, rfl, rfl⟩)
  | _ => exact .inr (.inr ⟨run, h, rfl, rfl, rfl⟩)

/-- A gateway is held since before, or since the event returned it. -/
theorem mem_holds {g : String} (h : g ∈ s.holds S e) :
    g ∈ s.held ∧ e ≠ .unlock g ∨ ∃ contact, Returns S s e contact ∧ g = contact.username := by
  cases e with
  | lockUpdate i =>
    simp only [System.holds] at h
    cases htrial : s.trial i with
    | none =>
      rw [htrial] at h
      exact .inl ⟨h, by simp⟩
    | some first =>
      rw [htrial] at h
      by_cases htouched : 0 < s.touched S first
      · simp only [if_pos htouched] at h
        rcases List.mem_cons.mp h with rfl | h
        · exact .inr ⟨first, ⟨i, rfl, htrial, htouched⟩, rfl⟩
        · exact .inl ⟨h, by simp⟩
      · simp only [if_neg htouched] at h
        exact .inl ⟨h, by simp⟩
  | unlock dstUser =>
    have hmem := List.mem_filter.mp h
    refine .inl ⟨hmem.1, fun heq => ?_⟩
    obtain rfl := Event.unlock.inj heq
    simp at hmem
  | dialogEnd i =>
    simp only [System.holds] at h
    split at h
    · exact .inl ⟨(List.mem_filter.mp h).1, by simp⟩
    · exact .inl ⟨h, by simp⟩
  | _ => exact .inl ⟨h, by simp⟩

end Rows

end SipInterleaving
