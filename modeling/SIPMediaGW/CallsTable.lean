import SIPMediaGW.IngestMapping
import SIPMediaGW.PartialUniqueIndex

/-! # The calls table and the route that fills it

The columns no statement of the ingestion sets (the organisational unit) are left out. A
push the database refuses is rolled back: only those it stores or ignores stand here. -/
namespace CallsTable

open IngestMapping
open PartialUniqueIndex
open PythonJson

inductive Outcome where
  | notEstablished
  | completed
  | failed
  | ivrOnly
  deriving DecidableEq, Repr

/-- Which close reasons are technical failures; a NULL reason never is. -/
abbrev Whitelist := String → Bool

/-- The patterns of the shipped `is_technical_failure`, each a prefix. -/
def technicalReasons : List String :=
  ["No common audio or video codecs", "Invalid argument", "Protocol error",
    "Connection timed out", "Local timeout", "rtp stream error"]

def shippedWhitelist : Whitelist := fun reason =>
  technicalReasons.any fun r => r.toList.isPrefixOf reason.toList

def isTechnicalFailure (whitelist : Whitelist) (reason : Option String) : Bool :=
  reason.any whitelist

structure StoredCall where
  id : ℕ
  receivedAt : ℤ
  call : CallRow
  established : Bool
  outcome : Outcome
  raw : Json

/-- The rule of the outcome, as the trigger and the recompute write it. -/
def outcomeOf (whitelist : Whitelist) (established : Bool) (room closeReason : Option String) :
    Outcome :=
  if ! established then .notEstablished
  else if room.isSome then .completed
  else if isTechnicalFailure whitelist closeReason then .failed
  else .ivrOnly

theorem outcomeOf_eq_completed {whitelist : Whitelist} {established : Bool}
    {room closeReason : Option String} :
    outcomeOf whitelist established room closeReason = .completed ↔
      established = true ∧ room.isSome = true := by
  cases established with
  | false => simp [outcomeOf]
  | true =>
    cases room with
    | some room => simp [outcomeOf]
    | none =>
      simp only [outcomeOf, Bool.not_true, Bool.false_eq_true, if_false, Option.isSome_none,
        and_false, iff_false]
      split <;> simp

def nullIfEmpty (value : Option String) : Option String := value.filter fun s => decide (s ≠ "")

theorem nullIfEmpty_ne (value : Option String) : nullIfEmpty value ≠ some "" := by
  intro h
  have hfilter := Option.filter_eq_some_iff.mp h
  simp at hfilter

theorem nullIfEmpty_eq {value : Option String} (h : value ≠ some "") :
    nullIfEmpty value = value := by
  cases value with
  | none => rfl
  | some v =>
    have hv : v ≠ "" := fun he => h (by rw [he])
    simp [nullIfEmpty, Option.filter, hv]

/-- The `BEFORE INSERT` trigger: a call with no start is dated by its reception. -/
def callsSetOutcome (whitelist : Whitelist) (new : StoredCall) : StoredCall :=
  let room := nullIfEmpty new.call.room
  let established := new.established && new.call.callStart.isSome
  let outcome := outcomeOf whitelist established room new.call.closeReason
  { new with
    established := established
    outcome := outcome
    call :=
      { new.call with
        callId := nullIfEmpty new.call.callId
        room := room
        callStart := some (new.call.callStart.getD new.receivedAt)
        occupancyS := some ((new.call.occupancyS.or new.call.durationS).getD 0)
        durationS := if outcome = .completed then new.call.durationS else some 0 } }

/-- `calls_replay_uidx` and `calls_replay_unestablished_uidx`: the second has no instant. -/
def replayIndexes : List (StoredCall → Option (String × Option ℤ)) :=
  [fun r => r.call.callId.bind fun callId => r.call.callStart.map fun start => (callId, some start),
    fun r => if r.established then none else r.call.callId.map fun callId => (callId, none)]

structure StoredMedia where
  callPk : ℕ
  row : MediaRow
  deriving DecidableEq

def mediaKey : List (StoredMedia → Option (ℕ × Media × ℤ × Direction)) :=
  [fun r => some (r.callPk, r.row.media, r.row.streamIndex, r.row.direction)]

/-- Both tables, and the next value of the `id` sequence, which a conflict uses up too. -/
structure Tables where
  calls : Table replayIndexes
  media : Table mediaKey
  nextId : ℕ

def emptyTables : Tables := ⟨.empty _, .empty _, 1⟩

def newCall (id : ℕ) (receivedAt : ℤ) (call : CallRow) (raw : Json) : StoredCall :=
  { id := id, receivedAt := receivedAt, call := call, established := true
    outcome := .ivrOnly, raw := raw }

def mediaOf (id : ℕ) (media : List MediaRow) : List StoredMedia := media.map fun m => ⟨id, m⟩

/-- One transaction: the call, then its media rows unless it was already there. -/
def store (whitelist : Whitelist) (t : Tables) (receivedAt : ℤ) (call : CallRow)
    (media : List MediaRow) (raw : Json) : Tables × Option ℕ :=
  let row := callsSetOutcome whitelist (newCall t.nextId receivedAt call raw)
  if t.calls.conflicts row then ({ t with nextId := t.nextId + 1 }, none)
  else
    ({ calls := t.calls.insertOrIgnore row
       media := t.media.insertAll (mediaOf t.nextId media)
       nextId := t.nextId + 1 }, some t.nextId)

structure Refusal where
  status : ℕ
  detail : String
  deriving DecidableEq

def refusalOf : MappingError → Refusal
  | .valueError message => ⟨400, message⟩
  | .typeError => ⟨400, "the payload does not have the expected shape"⟩
  | .overflowError => ⟨500, "Internal Server Error"⟩

/-- The rows of a payload the route accepts, or the answer that refuses it. -/
def mapPush (py : PythonText) (payload : Json) : Except Refusal (CallRow × List MediaRow) := do
  let mapped : Except MappingError (CallRow × List MediaRow) := do
    let call ← callRow py payload
    let object ← callOf payload
    let media ← mediaRows py (field object "mediaStats")
    .ok (call, media)
  match mapped with
  | .error e => .error (refusalOf e)
  | .ok rows =>
    if rows.1.callId.isNone then .error ⟨400, "callId is missing"⟩ else .ok rows

inductive Answer where
  | stored (callPk mediaRows : ℕ)
  | duplicate
  | refused (r : Refusal)
  deriving DecidableEq

/-- `ingestCall` on a decoded body. -/
def ingestCall (py : PythonText) (whitelist : Whitelist) (t : Tables) (receivedAt : ℤ)
    (payload : Json) : Tables × Answer :=
  match mapPush py payload with
  | .error r => (t, .refused r)
  | .ok (call, media) =>
    match store whitelist t receivedAt call media payload with
    | (t', none) => (t', .duplicate)
    | (t', some callPk) => (t', .stored callPk media.length)

end CallsTable
