import Mathlib.Algebra.Order.Field.Rat
import Mathlib.Logic.Function.Basic
import SIPMediaGW.LabelledExecutions
import SIPMediaGW.PythonJson

/-! # Guesses of a pairing code

`/pairing/resolve` and `/interact` share one counter of failures per caller. The first checks it,
awaits its body and looks the code up; the second does all three at once. A front end stands
before both. -/
namespace CodeTries

open LabelledExecutions
open PythonJson

structure Config where
  trustForwarded : Bool
  codeTryLimit : ℤ
  codeTryWindow : ℤ
  repr : Json → String
  upper : String → String

/-- What a request carries of its origin: the peer, and `X-Forwarded-For`, empty if absent. -/
structure Origin where
  client : Option String
  forwarded : String

structure Visitor where
  address : String
  sent : Option String
  deriving DecidableEq

/-- The front end appends the address it sees. -/
def viaFrontEnd (frontEnd : String) (v : Visitor) : Origin where
  client := some frontEnd
  forwarded := match v.sent with
    | none => v.address
    | some header => header ++ ", " ++ v.address

def callerAddress (cfg : Config) (origin : Origin) : String :=
  if cfg.trustForwarded && decide (origin.forwarded ≠ "") then
    String.ofList (stripChars isSpace ((split ',' origin.forwarded.toList).headD []))
  else origin.client.getD "unknown"

structure Counter where
  value : ℕ
  expireAt : Option ℚ

/-- The counters by address. `expirations` and `lookups` are ghosts: how often the counter of
an address has expired, and the lookups of unknown codes, each with the client that made it and
the expirations of the counter of its address until then. -/
structure Tries where
  counters : String → Option Counter
  now : ℚ
  expirations : String → ℕ
  lookups : List (String × ℕ)

def Tries.value (s : Tries) (address : String) : ℕ :=
  ((s.counters address).map Counter.value).getD 0

def Tries.incr (s : Tries) (address : String) : Tries :=
  { s with
    counters := Function.update s.counters address
      (some ⟨s.value address + 1, (s.counters address).bind Counter.expireAt⟩) }

def Tries.remove (s : Tries) (address : String) : Tries :=
  { s with
    counters := Function.update s.counters address none
    expirations := Function.update s.expirations address (s.expirations address + 1) }

/-- `EXPIRE` deletes a key at once where the time is not positive. -/
def Tries.expire (s : Tries) (address : String) (seconds : ℤ) : Tries :=
  if seconds ≤ 0 then s.remove address
  else
    { s with
      counters := Function.update s.counters address
        (some ⟨s.value address, some (s.now + seconds)⟩) }

def expired (now : ℚ) (counter : Counter) : Bool := counter.expireAt.any fun t => decide (t ≤ now)

def Tries.advance (s : Tries) (d : ℚ) : Tries where
  counters address := (s.counters address).filter fun counter => !expired (s.now + d) counter
  now := s.now + d
  expirations address :=
    s.expirations address + if (s.counters address).any (expired (s.now + d)) then 1 else 0
  lookups := s.lookups

def Tries.lookedUp (s : Tries) (address : String) : Tries :=
  { s with lookups := s.lookups ++ [(address, s.expirations address)] }

section Routes

variable (cfg : Config)

def tooManyCodeTries (s : Tries) (origin : Origin) : Bool :=
  if cfg.codeTryLimit ≤ 0 then false
  else decide (cfg.codeTryLimit ≤ s.value (callerAddress cfg origin))

def noteFailedCodeTry (s : Tries) (origin : Origin) : Tries :=
  if cfg.codeTryLimit ≤ 0 then s
  else
    let key := callerAddress cfg origin
    let s' := s.incr key
    if s'.value key = 1 then s'.expire key cfg.codeTryWindow else s'

/-- `pending` holds the requests of `/pairing/resolve` past their check. -/
structure System where
  tries : Tries
  codes : String → Option String
  pending : List Visitor

inductive Answer where
  -- 429.
  | tooMany
  -- 404, or the way back to the pairing page.
  | unknown
  | resolved (gwId : String)
  -- The page of the gateway named in the query, or the pairing page.
  | page (gwId : Option String)
  -- A body without fields.
  | raised
  deriving DecidableEq

def nonEmpty (v : Option String) : Option String := v.filter fun s => decide (s ≠ "")

def lookUp (frontEnd code : String) (s : System) (v : Visitor) : Answer × Tries :=
  match nonEmpty (s.codes code) with
  | some gwId => (.resolved gwId, s.tries)
  | none => (.unknown, noteFailedCodeTry cfg (s.tries.lookedUp v.address) (viaFrontEnd frontEnd v))

/-- `pairingResolve` until its body: an answer, or a request that waits. -/
def resolveCheck (frontEnd : String) (s : System) (v : Visitor) : Option Answer × System :=
  if tooManyCodeTries cfg s.tries (viaFrontEnd frontEnd v) then (some .tooMany, s)
  else (none, { s with pending := s.pending ++ [v] })

def typedCode : Json → Option String
  | .obj body =>
    let code := field body "code"
    some (cfg.upper (strip (if truthy code then pyStr cfg.repr code else "")))
  | _ => none

def resolveBody (frontEnd : String) (s : System) (v : Visitor) (body : Option Json) :
    Answer × Tries :=
  match typedCode cfg (body.getD (.obj [])) with
  | none => (.raised, s.tries)
  | some code =>
    if code = "" then (.unknown, noteFailedCodeTry cfg s.tries (viaFrontEnd frontEnd v))
    else lookUp cfg frontEnd code s v

structure Query where
  gwId : Option String
  gw_id : Option String
  pairingCode : Option String

def interact (frontEnd : String) (s : System) (v : Visitor) (query : Query) : Answer × Tries :=
  match nonEmpty ((nonEmpty query.gwId).or query.gw_id), nonEmpty query.pairingCode with
  | some gwId, _ => (.page (some gwId), s.tries)
  | none, none => (.page none, s.tries)
  | none, some pairingCode =>
    if tooManyCodeTries cfg s.tries (viaFrontEnd frontEnd v) then (.tooMany, s.tries)
    else lookUp cfg frontEnd pairingCode s v

inductive Event where
  | tick (d : ℚ)
  | codes (codes : String → Option String)
  | resolve (v : Visitor)
  | body (i : ℕ) (body : Option Json)
  | interact (v : Visitor) (query : Query)

def next (frontEnd : String) (s : System) : Event → Option System
  | .tick d => if 0 ≤ d then some { s with tries := s.tries.advance d } else none
  | .codes codes => some { s with codes := codes }
  | .resolve v => some (resolveCheck cfg frontEnd s v).2
  | .body i body => (s.pending[i]?).map fun v =>
      { s with tries := (resolveBody cfg frontEnd s v body).2, pending := s.pending.eraseIdx i }
  | .interact v query => some { s with tries := (CodeTries.interact cfg frontEnd s v query).2 }

def Step (frontEnd : String) : System → Event → System → Prop := StepOf (next cfg frontEnd)

end Routes

def quiet (now : ℚ) (codes : String → Option String) : System :=
  ⟨⟨fun _ => none, now, fun _ => 0, []⟩, codes, []⟩

def lookupsIn (s : Tries) (address : String) (n : ℕ) : ℕ := s.lookups.count (address, n)

/-- No address ever makes more than `codeTryLimit` lookups between two expirations. -/
def GuessesLimited (cfg : Config) (frontEnd : String) : Prop :=
  ∀ now codes s, Execution (Step cfg frontEnd) (quiet now codes) s →
    ∀ address n, (lookupsIn s.tries address n : ℤ) ≤ cfg.codeTryLimit

def searching (cfg : Config) (frontEnd : String) (s : System) : Event → Option Visitor
  | .body i body => (s.pending[i]?).filter fun _ =>
      (typedCode cfg (body.getD (.obj []))).any fun code =>
        decide (code ≠ "") && (nonEmpty (s.codes code)).isNone
  | .interact v query =>
    if (nonEmpty ((nonEmpty query.gwId).or query.gw_id)).isNone &&
        (nonEmpty query.pairingCode).any (fun code => (nonEmpty (s.codes code)).isNone) &&
        !tooManyCodeTries cfg s.tries (viaFrontEnd frontEnd v) then some v
    else none
  | _ => none

inductive Effect (cfg : Config) (frontEnd : String) (s : System) (e : Event) : Tries → Prop where
  | kept : Effect cfg frontEnd s e s.tries
  | advanced (d) (later : 0 ≤ d) : Effect cfg frontEnd s e (s.tries.advance d)
  | noted (v : Visitor) :
      Effect cfg frontEnd s e (noteFailedCodeTry cfg s.tries (viaFrontEnd frontEnd v))
  | searched (v : Visitor) (h : searching cfg frontEnd s e = some v) :
      Effect cfg frontEnd s e
        (noteFailedCodeTry cfg (s.tries.lookedUp v.address) (viaFrontEnd frontEnd v))

section Effects

variable {cfg : Config} {frontEnd : String} {s t : System} {e : Event}

theorem effect_lookUp {code : String} {v : Visitor}
    (h : nonEmpty (s.codes code) = none → searching cfg frontEnd s e = some v) :
    Effect cfg frontEnd s e (lookUp cfg frontEnd code s v).2 := by
  rw [lookUp]
  cases hcode : nonEmpty (s.codes code) with
  | some gwId => exact .kept
  | none => exact .searched v (h hcode)

theorem effect_interact (v : Visitor) (query : Query) :
    Effect cfg frontEnd s (.interact v query) (interact cfg frontEnd s v query).2 := by
  rw [interact]
  cases hgw : nonEmpty ((nonEmpty query.gwId).or query.gw_id) with
  | some gwId => exact .kept
  | none =>
    cases hcode : nonEmpty query.pairingCode with
    | none => exact .kept
    | some code =>
      dsimp only
      split
      · exact .kept
      · rename_i hfew
        refine effect_lookUp fun hunknown => ?_
        simp only [searching, hgw, hcode, Option.isNone_none, Option.any_some, hunknown,
          Bool.true_and, Bool.not_eq_true', if_pos (Bool.eq_false_iff.mpr hfew)]

theorem effect_body {i : ℕ} {v : Visitor} (hi : s.pending[i]? = some v) (body : Option Json) :
    Effect cfg frontEnd s (.body i body) (resolveBody cfg frontEnd s v body).2 := by
  rw [resolveBody]
  cases hcode : typedCode cfg (body.getD (.obj [])) with
  | none => exact .kept
  | some code =>
    dsimp only
    split
    · exact .noted v
    · rename_i hne
      refine effect_lookUp fun hunknown => ?_
      simp only [searching, hi, hcode, Option.any_some, hunknown, Option.isNone_none, Bool.and_true,
        Option.filter_some, if_pos (decide_eq_true hne)]

theorem step_effect (h : Step cfg frontEnd s e t) : Effect cfg frontEnd s e t.tries := by
  change next cfg frontEnd s e = some t at h
  cases e with
  | tick d =>
    simp only [next] at h
    split at h
    · rename_i later
      obtain rfl := Option.some.inj h
      exact .advanced d later
    · cases h
  | codes codes =>
    obtain rfl := Option.some.inj h
    exact .kept
  | resolve v =>
    obtain rfl := Option.some.inj h
    rw [resolveCheck]
    split
    · exact .kept
    · exact .kept
  | body i body =>
    obtain ⟨v, hi, rfl⟩ := Option.map_eq_some_iff.mp h
    exact effect_body hi body
  | interact v query =>
    obtain rfl := Option.some.inj h
    exact effect_interact v query

end Effects

end CodeTries
