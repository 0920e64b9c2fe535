import SIPMediaGW.SqlStatements

/-! # The location and dialog tables of the SIP proxy

The statements of the scaler, of the gateway selection and of the log reader on them. -/
namespace SipLocation

open SqlStatements

structure Registration where
  username : String
  contact : String
  socket : String
  received : Option String
  locked : Bool
  toStop : Bool
  deriving DecidableEq, Repr

/-- A row of `dialog`. No statement reads the gateway the call was sent to, which is noted
beside it. -/
structure Dialog where
  calleeContact : String
  callee : String
  deriving DecidableEq, Repr

structure Database where
  location : List Registration
  dialog : List Dialog
  deriving DecidableEq, Repr

/-- `SUBSTRING_INDEX(SUBSTRING_INDEX(received,'sip:',-1),':',1)`. -/
def Registration.vm (r : Registration) : Option String :=
  r.received.map fun s =>
    String.ofList (beforeFirst [':'] (afterLast ['s', 'i', 'p', ':'] s.toList))

/-- `SUBSTRING_INDEX(SUBSTRING_INDEX(callee_contact,'alias=',-1),'~',1)`. -/
def Dialog.vm (d : Dialog) : String :=
  String.ofList
    (beforeFirst ['~'] (afterLast ['a', 'l', 'i', 'a', 's', '='] d.calleeContact.toList))

def lock (r : Registration) : Registration := { r with locked := true }

def release (r : Registration) : Registration := { r with locked := false }

def stop (r : Registration) : Registration := { r with locked := true, toStop := true }

section Statements

variable (c : Collation) (namePrefix : String) (db : Database)

def isGateway (r : Registration) : Bool := c.likeAround namePrefix r.username

def inDialog (username : String) : Bool :=
  db.dialog.any fun d => c.likeAround username d.calleeContact

def hasCall (vm : Option String) : Bool := db.dialog.any fun d => c.same (some d.vm) vm

def hasLocked (vm : Option String) : Bool :=
  db.location.any fun r => c.same vm r.vm && r.locked

def selectable (busy : Bool) (r : Registration) : Bool :=
  !r.locked && !inDialog c db r.username && isGateway c namePrefix r &&
    (hasCall c db r.vm == busy)

/-- The contacts a query of `lockGw` returns: one for each machine, those with fewest rows
first. -/
structure Candidates (busy : Bool) (contactList : List Registration) : Prop where
  groups : ∃ counts : List (Registration × ℕ), Groups (fun r => c.groupKey r.vm)
    (db.location.filter (selectable c namePrefix db busy)) counts ∧
      (counts.Pairwise fun g h => g.2 ≤ h.2) ∧ contactList = counts.map Prod.fst

/-- `contactList`: machines without a call are looked at where the others have nothing. -/
def Selects (contactList : List Registration) : Prop :=
  (Candidates c namePrefix db true contactList ∧ contactList ≠ []) ∨
    (Candidates c namePrefix db true [] ∧ Candidates c namePrefix db false contactList)

def lockable (contact username : String) (r : Registration) : Bool :=
  c.same (some r.contact) (some contact) && !r.locked && !inDialog c db username

def Database.lockContact (contact username : String) : Database :=
  { db with location := updateWhere (lockable c db contact username) lock db.location }

def Database.unlock (dstUser : String) : Database :=
  { db with location := updateWhere (fun r => c.likeAround dstUser r.contact) release db.location }

def idleRow (r : Registration) : Bool :=
  !r.locked && isGateway c namePrefix r && !hasLocked c db r.vm && !hasCall c db r.vm

def onVm (vm : Option String) (r : Registration) : Bool := !r.locked && c.same r.vm vm

def Database.stopVm (vm : Option String) : Database :=
  { db with location := updateWhere (onVm c vm) stop db.location }

def rowcount (vm : Option String) : ℕ := db.location.countP (onVm c vm)

/-- The machines `downScale` goes through: those with most gateways first. -/
structure IdleVms (vmList : List (Registration × ℕ)) : Prop where
  groups : Groups (fun r => c.groupKey r.vm) (db.location.filter (idleRow c namePrefix db)) vmList
  order : vmList.Pairwise fun g h => h.2 ≤ g.2

def stoppedRow (r : Registration) : Bool := isGateway c namePrefix r && r.toStop

structure StoppedVms (vmList : List Registration) : Prop where
  groups : ∃ counts, Groups (fun r => c.groupKey r.vm)
    (db.location.filter (stoppedRow c namePrefix)) counts ∧ vmList = counts.map Prod.fst

def registeredCount : ℕ :=
  db.location.countP fun r => isGateway c namePrefix r && !r.toStop

def readyCount : ℕ :=
  db.location.countP fun r => !r.locked && isGateway c namePrefix r && !inDialog c db r.username

end Statements

section Selections

variable {c : Collation} {namePrefix : String} {db : Database} {busy : Bool} {r : Registration}

theorem candidates_nil (h : db.location.filter (selectable c namePrefix db busy) = []) :
    Candidates c namePrefix db busy [] :=
  ⟨[], by rw [h]; exact Groups.nil _, List.Pairwise.nil, rfl⟩

theorem candidates_singleton
    (h : db.location.filter (selectable c namePrefix db busy) = [r]) :
    Candidates c namePrefix db busy [r] :=
  ⟨[(r, 1)], by rw [h]; exact Groups.singleton _ r, List.pairwise_singleton _ _, rfl⟩

theorem candidates_pair {q : Registration}
    (h : db.location.filter (selectable c namePrefix db busy) = [r, q])
    (hvm : c.groupKey r.vm ≠ c.groupKey q.vm) : Candidates c namePrefix db busy [r, q] :=
  ⟨[(r, 1), (q, 1)], by rw [h]; exact Groups.pair hvm, List.pairwise_pair.mpr le_rfl, rfl⟩

theorem idleVms_singleton (h : db.location.filter (idleRow c namePrefix db) = [r]) :
    IdleVms c namePrefix db [(r, 1)] where
  groups := by
    rw [h]
    exact Groups.singleton _ r
  order := List.pairwise_singleton _ _

end Selections

end SipLocation
