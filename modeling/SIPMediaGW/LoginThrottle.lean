import Mathlib.Algebra.Order.Field.Rat
import Mathlib.Logic.Function.Basic
import SIPMediaGW.LabelledExecutions

/-! # The sign-in throttle

The two routes that verify a password share one count per address: checked before the
verification, written after it. The account named goes to the log only. -/
namespace LoginThrottle

open LabelledExecutions

def maxFailures : ℕ := 5

def lockSeconds : ℚ := 60

/-- `_failures`: per address, the count and the instant it unlocks. -/
abbrev Failures := String → Option (ℕ × ℚ)

/-- The dict after the check, and whether the request is refused. -/
def loginThrottled (failures : Failures) (now : ℚ) (ip : String) : Failures × Bool :=
  match failures ip with
  | none => (failures, false)
  | some (count, unlockAt) =>
    if count < maxFailures then (failures, false)
    else if unlockAt ≤ now then (Function.update failures ip none, false)
    else (failures, true)

/-- Expired entries go on every insertion. -/
def withoutExpired (failures : Failures) (now : ℚ) : Failures :=
  fun ip => (failures ip).filter fun entry => decide (now < entry.2)

def recordLoginFailure (failures : Failures) (now : ℚ) (ip : String) : Failures :=
  let kept := withoutExpired failures now
  let count := ((kept ip).map Prod.fst).getD 0 + 1
  Function.update kept ip (some (count, now + lockSeconds))

def clearLoginFailures (failures : Failures) (ip : String) : Failures :=
  Function.update failures ip none

inductive Route where
  | login
  | ownPassword
  deriving DecidableEq, Repr

inductive Outcome where
  | failed
  | succeeded
  | refused
  deriving DecidableEq, Repr

/-- The end of a request, with the number of clearings of its address so far. -/
structure Ending where
  outcome : Outcome
  endedAt : ℚ
  seen : ℕ

/-- A request past its check. `seen` counts the clearings of its address before the check. -/
structure Attempt where
  ip : String
  route : Route
  checkedAt : ℚ
  seen : ℕ
  startedAt : Option ℚ
  ended : Option Ending

/-- `attempts` and `clears`, the instants at which an address was cleared, are ghosts but
for the requests in progress. -/
structure System where
  failures : Failures
  now : ℚ
  attempts : List Attempt
  clears : String → List ℚ

def quiet (now : ℚ) : System := ⟨fun _ => none, now, [], fun _ => []⟩

/-- `refuse` stands for the answers given between the check and the verification. -/
inductive Event where
  | tick (d : ℚ)
  | check (ip : String) (route : Route)
  | refuse (i : ℕ)
  | start (i : ℕ)
  | finish (i : ℕ) (ok : Bool)

def passedCheck (s : System) (ip : String) (route : Route) : System :=
  { s with
    failures := (loginThrottled s.failures s.now ip).1
    attempts := s.attempts ++ [⟨ip, route, s.now, (s.clears ip).length, none, none⟩] }

def Attempt.close (a : Attempt) (outcome : Outcome) (now : ℚ) (seen : ℕ) : Attempt :=
  { a with ended := some ⟨outcome, now, seen⟩ }

def System.replace (s : System) (i : ℕ) (a : Attempt) : System :=
  { s with attempts := s.attempts.set i a }

def finishFailed (s : System) (i : ℕ) (a : Attempt) : System :=
  { s.replace i (a.close .failed s.now (s.clears a.ip).length) with
    failures := recordLoginFailure s.failures s.now a.ip }

def System.clearAddress (s : System) (ip : String) : System :=
  { s with
    failures := clearLoginFailures s.failures ip
    clears := Function.update s.clears ip (s.clears ip ++ [s.now]) }

/-- A sign-in clears its address; a change of one's own password does not. -/
def finishSucceeded (s : System) (i : ℕ) (a : Attempt) : System :=
  let s' := s.replace i (a.close .succeeded s.now (s.clears a.ip).length)
  match a.route with
  | .login => s'.clearAddress a.ip
  | .ownPassword => s'

/-- `none` where the event is not enabled. A throttled request ends at its check. -/
def next (s : System) : Event → Option System
  | .tick d => if 0 ≤ d then some { s with now := s.now + d } else none
  | .check ip route =>
    if (loginThrottled s.failures s.now ip).2 then some s else some (passedCheck s ip route)
  | .refuse i => (s.attempts[i]?).bind fun a =>
      if a.startedAt.isNone && a.ended.isNone then
        some (s.replace i (a.close .refused s.now (s.clears a.ip).length))
      else none
  | .start i => (s.attempts[i]?).bind fun a =>
      if a.startedAt.isNone && a.ended.isNone then
        some (s.replace i { a with startedAt := some s.now })
      else none
  | .finish i ok => (s.attempts[i]?).bind fun a =>
      if a.startedAt.isSome && a.ended.isNone then
        some (if ok then finishSucceeded s i a else finishFailed s i a)
      else none

def Step : System → Event → System → Prop := StepOf next

/-- What one step can do. -/
inductive Effect (s : System) : Event → System → Prop where
  | ticked (d) (later : 0 ≤ d) : Effect s (.tick d) { s with now := s.now + d }
  | throttled (ip route) : Effect s (.check ip route) s
  | passed (ip route) (open_ : (loginThrottled s.failures s.now ip).2 = false) :
      Effect s (.check ip route) (passedCheck s ip route)
  | refused (i a) (inProgress : s.attempts[i]? = some a) (idle : a.startedAt = none)
      (running : a.ended = none) :
      Effect s (.refuse i) (s.replace i (a.close .refused s.now (s.clears a.ip).length))
  | started (i a) (inProgress : s.attempts[i]? = some a) (idle : a.startedAt = none)
      (running : a.ended = none) :
      Effect s (.start i) (s.replace i { a with startedAt := some s.now })
  | failed (i a t) (inProgress : s.attempts[i]? = some a) (begun : a.startedAt = some t)
      (running : a.ended = none) : Effect s (.finish i false) (finishFailed s i a)
  | succeeded (i a t) (inProgress : s.attempts[i]? = some a) (begun : a.startedAt = some t)
      (running : a.ended = none) : Effect s (.finish i true) (finishSucceeded s i a)

theorem step_effect {s t : System} {e : Event} (h : Step s e t) : Effect s e t := by
  change next s e = some t at h
  cases e with
  | tick d =>
    simp only [next] at h
    split at h
    · rename_i later
      obtain rfl := Option.some.inj h
      exact .ticked d later
    · cases h
  | check ip route =>
    simp only [next] at h
    split at h
    · obtain rfl := Option.some.inj h
      exact .throttled ip route
    · rename_i hopen
      obtain rfl := Option.some.inj h
      exact .passed ip route (by simpa using hopen)
  | refuse i =>
    obtain ⟨a, inProgress, h⟩ := Option.bind_eq_some_iff.mp h
    split at h
    · rename_i hidle
      obtain rfl := Option.some.inj h
      simp only [Bool.and_eq_true, Option.isNone_iff_eq_none] at hidle
      exact .refused i a inProgress hidle.1 hidle.2
    · cases h
  | start i =>
    obtain ⟨a, inProgress, h⟩ := Option.bind_eq_some_iff.mp h
    split at h
    · rename_i hidle
      obtain rfl := Option.some.inj h
      simp only [Bool.and_eq_true, Option.isNone_iff_eq_none] at hidle
      exact .started i a inProgress hidle.1 hidle.2
    · cases h
  | finish i ok =>
    obtain ⟨a, inProgress, h⟩ := Option.bind_eq_some_iff.mp h
    split at h
    · rename_i hrunning
      obtain rfl := Option.some.inj h
      simp only [Bool.and_eq_true, Option.isNone_iff_eq_none] at hrunning
      obtain ⟨t, begun⟩ := Option.isSome_iff_exists.mp hrunning.1
      cases ok with
      | true => exact .succeeded i a t inProgress begun hrunning.2
      | false => exact .failed i a t inProgress begun hrunning.2
    · cases h

end LoginThrottle
