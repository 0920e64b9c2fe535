import SIPMediaGW.MediaScaler
import SIPMediaGW.SipLocation

/-! # The SIP scaler

Gateways are counted, stopped and cleaned up from the location table. Any of its queries may
fail: each function has its own handler. The rows of a grouping come in any order the query
allows. -/
namespace SipScaler

open Scaler
open SipLocation
open SqlStatements
open StatefulExceptions

/-- The queries of one iteration. `update` and `finish`, a commit or a rollback, are those of
a machine `downScale` goes through. -/
inductive Query where
  | cleanup
  | currentCapacity
  | readyToRun
  | idleVms
  | update (i : ℕ)
  | finish (i : ℕ)
  deriving DecidableEq, Repr

structure SipStore where
  db : Database
  /-- The queries that raise, connecting for them included. -/
  fails : Query → Bool

abbrev SipScaling (α : Type) := Scaling SipStore α

inductive MysqlError where
  | error (query : Query)
  deriving DecidableEq, Repr

/-- The `try` block of `downScale`: the store, and its list of addresses once there is one. -/
structure Session where
  store : SipStore
  ipList : Option (List (Option String))

abbrev Sql (α : Type) := Action Session MysqlError α

def execute (q : Query) : Sql Unit := do
  if (← get).store.fails q then throw (.error q)

/-- An address as text: NULL is `None`. -/
def vmAddress (vm : Option String) : String := vm.getD "None"

def Session.commit (c : Collation) (vm : Option String) (s : Session) : Session where
  store := { s.store with db := s.store.db.stopVm c vm }
  ipList := s.ipList.map (· ++ [vm])

/-- The loop of `downScale` over its machines, from the `i`-th. -/
def stopVms (c : Collation) : List (Registration × ℕ) → ℕ → ℤ → Sql Unit
  | [], _, _ => pure ()
  | (row, count) :: rest, i, numGW => do
    if count ≤ numGW then
      execute (.update i)
      if rowcount c (← get).store.db row.vm = count then
        execute (.finish i)
        modify (Session.commit c row.vm)
        stopVms c rest (i + 1) (numGW - count)
      else
        execute (.finish i)
        stopVms c rest (i + 1) numGW
    else stopVms c rest (i + 1) numGW

/-- The `try` block. -/
def selectAndStop (c : Collation) (vmList : List (Registration × ℕ)) (numGW : ℤ) : Sql Unit := do
  execute .idleVms
  modify fun s => { s with ipList := some [] }
  stopVms c vmList 0 numGW

section Functions

variable {dates : Dates} (csp : Provider dates) (cfg : Config) (c : Collation)

/-- The handler prints, and the function goes on with what the block left. -/
def downScale (vmList : List (Registration × ℕ)) (numGW : ℤ) : SipScaling Unit := do
  let session := (exec (selectAndStop c vmList numGW) ⟨(← get).store, none⟩).2
  modify fun w => { w with store := session.store }
  match session.ipList with
  | none => throw (.unboundLocalError "ipList")
  | some ipList => if ipList ≠ [] then csp.destroyInstances (ipList.map vmAddress)

def cleanup (now : ℤ) (vmList : List Registration) : SipScaling Unit := do
  if (← get).store.fails .cleanup then pure ()
  else
    if vmList ≠ [] then csp.destroyInstances (vmList.map fun row => vmAddress row.vm)
    csp.cleanup cfg now

def getCurrentCapacity : SipScaling ℤ := do
  let store := (← get).store
  pure (if store.fails .currentCapacity then 0
    else registeredCount c cfg.gwNamePrefix store.db)

def getReadyToRunCapacity : SipScaling ℤ := do
  let store := (← get).store
  pure (if store.fails .readyToRun then 0 else readyCount c cfg.gwNamePrefix store.db)

end Functions

end SipScaler
