import Mathlib.Algebra.Order.Group.Int
import Mathlib.Data.Int.SuccPred
import Mathlib.Tactic.Ring
import SIPMediaGW.Calendar
import SIPMediaGW.CallsTable
import SIPMediaGW.OrderedQuery

/-! # The counts of the Quality view and the lists of the Journal

Both read the calls table through a query of their own. Instants are microseconds of the Unix
epoch; one time zone serves the process and the database session. -/
namespace QualityCounts

open Calendar
open CallsTable
open IngestMapping
open OrderedQuery
open PythonJson

/-- A row of the calls table, with the unit that the rules of the units give it. -/
structure CallRecord where
  stored : StoredCall
  orgUnit : Option String

def dayUs : ℤ := 86400 * 1000000

/-- The ordinal of 1 January 1970. -/
def epochDay : ℤ := 719163

/-- Midnight of a day as a local time. -/
def midnight (d : Date) : ℤ := (d.toordinal - epochDay) * dayUs

/-- The offset at each local time. Every day begins after the one before it. -/
structure Zone where
  offset : ℤ → ℤ
  forward : ∀ n : ℤ, n * dayUs - offset (n * dayUs) < (n + 1) * dayUs - offset ((n + 1) * dayUs)

def Zone.instant (zone : Zone) (wall : ℤ) : ℤ := wall - zone.offset wall

def NoChangeAtMidnight (zone : Zone) : Prop :=
  ∀ n : ℤ, zone.offset (n * dayUs - 1) = zone.offset (n * dayUs)

/-- `aware`: a time without an offset is a local one. -/
def aware (zone : Zone) (value : Datetime) : ℤ :=
  match value.utcoffset with
  | some offset => value.wall - offset
  | none => zone.instant value.wall

section Instants

variable (py : PythonText) (zone : Zone)

def parseInstant (value : Option String) : Except Refusal (Option ℤ) :=
  match value with
  | none => .ok none
  | some text =>
    if text = "" then .ok none
    else match py.fromisoformat (zuluAsOffset text) with
      | some d => .ok (some (aware zone d))
      | none => .error ⟨400, "invalid datetime: " ++ text⟩

/-- The explicit window; today by default. -/
def callWindow (today : Date) (start stop : Option String) : Except Refusal (ℤ × ℤ) := do
  let since := (← parseInstant py zone start).getD (zone.instant (midnight today))
  let until' := (← parseInstant py zone stop).getD (zone.instant (midnight today + dayUs - 1))
  if until' < since then .error ⟨400, "end is before start"⟩ else .ok (since, until')

end Instants

def PERIODS : List String :=
  ["today", "week", "last_week", "month", "last_month", "year", "last_year"]

/-- A number on a width, zeros in front. -/
def padded (width n : ℕ) : List Char :=
  List.replicate (width - (Nat.toDigits 10 n).length) '0' ++ Nat.toDigits 10 n

/-- `first.isoformat()[:7]`. -/
def isoMonth (d : Date) : List Char := padded 4 d.year.toNat ++ '-' :: padded 2 d.month

def isoDate (d : Date) : List Char := isoMonth d ++ '-' :: padded 2 d.day

def previousMonth (today : Date) : Date := (today.firstOfMonth.subDays 1).firstOfMonth

def nextMonth (first : Date) : Date :=
  ((first.withDay 28 (Nat.le_add_left 1 27) le_rfl).addDays 7).firstOfMonth

def checkedYear (year : ℤ) : Except Refusal ℤ :=
  if 1970 ≤ year ∧ year ≤ 2100 then .ok year
  else .error ⟨400, "year out of range (1970-2100)"⟩

structure Period where
  since : Date
  stop : Date
  label : String

def daysPeriod (first : Date) (n : ℕ) (label : List Char) : Period :=
  ⟨first, first.addDays n, String.ofList label⟩

def monthPeriod (first : Date) (label : List Char) : Period :=
  ⟨first, nextMonth first, String.ofList label⟩

def yearPeriod (year : ℤ) (label : List Char) : Period :=
  ⟨.newYear year, .newYear (year + 1), String.ofList label⟩

def isDigits (n : ℕ) (cs : List Char) : Bool :=
  decide (cs.length = n) && cs.all fun c => (decimalDigit c).isSome

/-- `int(cs)` for decimal digits. -/
def number (cs : List Char) : ℕ := (naturalOfText cs).getD 0

/-- `YYYY-MM`. -/
def typedMonth (cs : List Char) : Except Refusal Period :=
  let month := number (cs.drop 5)
  if h : 1 ≤ month ∧ month ≤ 12 then
    (checkedYear (number (cs.take 4))).map fun year =>
      monthPeriod (.first year month h.1 h.2) cs
  else .error ⟨400, "month out of range"⟩

def resolvePeriod (period : Option String) (today : Date) : Except Refusal Period :=
  let name := period.getD ""
  let cs := name.toList
  if name = "" ∨ name = "last_month" then
    .ok (monthPeriod (previousMonth today) (isoMonth (previousMonth today)))
  else if name = "today" then
    .ok (daysPeriod today 1 (isoDate today))
  else if name = "week" then
    let first := today.subDays today.weekday
    .ok (daysPeriod first 7 ("week of ".toList ++ isoDate first))
  else if name = "last_week" then
    let first := today.subDays (today.weekday + 7)
    .ok (daysPeriod first 7 ("week of ".toList ++ isoDate first))
  else if name = "month" then .ok (monthPeriod today.firstOfMonth (isoMonth today.firstOfMonth))
  else if name = "year" then
    .ok (yearPeriod today.year (Nat.toDigits 10 today.year.toNat))
  else if name = "last_year" then
    .ok (yearPeriod (today.year - 1) (Nat.toDigits 10 (today.year - 1).toNat))
  else if isDigits 4 cs then
    (checkedYear (number cs)).map fun year => yearPeriod year cs
  else if isDigits 4 (cs.take 4) && cs[4]? == some '-' && isDigits 2 (cs.drop 5) then typedMonth cs
  else .error ⟨400, "period must be YYYY-MM, YYYY or one of " ++ ", ".intercalate PERIODS⟩

def isUserCall (mainApp : Option String) : Bool :=
  mainApp.all fun app => app ∉ ["recording", "streaming"]

def NO_REASON : String := "(aucune cause)"

/-- `COALESCE(NULLIF(close_reason, ''), '(aucune cause)')`. -/
def reasonName (closeReason : Option String) : String := (nullIfEmpty closeReason).getD NO_REASON

def outcomeText : Outcome → String
  | .notEstablished => "not_established"
  | .completed => "completed"
  | .failed => "failed"
  | .ivrOnly => "ivr_only"

def videoStateText : VideoState → String
  | .ok => "ok"
  | .oneway => "oneway"
  | .stalled => "stalled"
  | .noPicture => "no_picture"

namespace CallRecord

variable (r : CallRecord)

def outcome : Outcome := r.stored.outcome

def closeReason : Option String := r.stored.call.closeReason

def videoState : Option VideoState := r.stored.call.summary.videoState

def isUser : Bool := isUserCall r.stored.call.mainApp

/-- A call start in the half-open interval of two days. -/
def inPeriod (zone : Zone) (period : Period) : Bool :=
  r.stored.call.callStart.any fun start =>
    decide (zone.instant (midnight period.since) ≤ start) &&
      decide (start < zone.instant (midnight period.stop))

/-- A call start between two instants, both included. -/
def inWindow (since stop : ℤ) : Bool :=
  r.stored.call.callStart.any fun start => decide (since ≤ start) && decide (start ≤ stop)

end CallRecord

/-- The units a request names; none of them means every unit. -/
def wantedUnits (units : Option String) : List String :=
  ((split ',' (units.getD "").toList).map fun u => strip (String.ofList u)).filter (· ≠ "")

def unitFilter (units : Option String) (r : CallRecord) : Bool :=
  let wanted := wantedUnits units
  if wanted = [] then true
  else
    let named := wanted.filter (· ≠ "(unassigned)")
    r.orgUnit.any (fun u => decide (u ∈ named)) ||
      (decide (named.length ≠ wanted.length) && r.orgUnit.isNone)

def callScope (units : Option String) (r : CallRecord) : Bool := r.isUser && unitFilter units r

/-- `ROUND(q)` of a numeric: halves away from zero. -/
def roundHalfUp (q : ℚ) : ℤ := if 0 ≤ q then (q + 1 / 2).floor else -(-q + 1 / 2).floor

/-- `ROUND(q, 1)`. -/
def roundOneDigit (q : ℚ) : ℚ := roundHalfUp (q * 10) / 10

/-- The occupancies that are not NULL. -/
def occupancies (rows : List CallRecord) : List ℤ :=
  rows.filterMap fun r => r.stored.call.occupancyS

/-- `ROUND(SUM(occupancy_s) / 3600.0, 1)`. -/
def gatewayHours (rows : List CallRecord) : Option ℚ :=
  if occupancies rows = [] then none
  else some (roundOneDigit ((occupancies rows).sum / 3600))

/-- `ROUND(AVG(occupancy_s))`. -/
def avgOccupancy (rows : List CallRecord) : Option ℤ :=
  if occupancies rows = [] then none
  else some (roundHalfUp ((occupancies rows).sum / (occupancies rows).length))

structure OutcomeRow where
  outcome : Outcome
  sessions : ℕ
  gatewayHours : Option ℚ

structure ReasonRow where
  closeReason : String
  outcome : Outcome
  isFailure : Bool
  sessions : ℕ
  pct : ℚ
  avgOccupancyS : Option ℤ

structure VideoStateRow where
  videoState : String
  sessions : ℕ

section Routes

variable (zone : Zone) (table : List CallRecord) (today : Date)

def outcomes (period units : Option String) : Except Refusal (Period × List OutcomeRow) := do
  let period ← resolvePeriod period today
  let rows := table.filter fun r => r.inPeriod zone period && callScope units r
  let groups := (groupBy CallRecord.outcome rows).map fun g =>
    (⟨g.1, g.2.length, gatewayHours g.2⟩ : OutcomeRow)
  .ok (period, orderBy (fun row => OrderDual.toDual row.sessions) groups)

/-- The three columns that a reason is counted by. -/
def reasonKey (r : CallRecord) : String × Outcome × Bool :=
  (reasonName r.closeReason, r.outcome, isTechnicalFailure shippedWhitelist r.closeReason)

/-- A row of every group; the share is of all the calls that the groups count. -/
def reasonRow (total : ℕ) (g : (String × Outcome × Bool) × List CallRecord) : ReasonRow where
  closeReason := g.1.1
  outcome := g.1.2.1
  isFailure := g.1.2.2
  sessions := g.2.length
  pct := roundOneDigit (100 * g.2.length / total)
  avgOccupancyS := avgOccupancy g.2

def ivrReasons (period : Option String) (limit : ℕ) : Except Refusal (List ReasonRow) := do
  let period ← resolvePeriod period today
  let rows := table.filter fun r => r.isUser && r.inPeriod zone period
  let groups := (groupBy reasonKey rows).map (reasonRow rows.length)
  .ok ((orderBy (fun row => OrderDual.toDual row.sessions) groups).take limit)

/-- `COALESCE(video_state, 'unknown')`. -/
def videoStateName (state : Option VideoState) : String := (state.map videoStateText).getD "unknown"

def videoStates (period units : Option String) : Except Refusal (Period × List VideoStateRow) := do
  let period ← resolvePeriod period today
  let rows := table.filter fun r =>
    decide (r.outcome = .completed) && r.inPeriod zone period && callScope units r
  let groups := (groupBy (fun r => videoStateName r.videoState) rows).map fun g =>
    (⟨g.1, g.2.length⟩ : VideoStateRow)
  .ok (period, orderBy (fun row => OrderDual.toDual row.sessions) groups)

end Routes

def OUTCOMES : List String := ["not_established", "completed", "failed", "ivr_only"]

def VIDEO_STATES : List String := ["ok", "oneway", "stalled", "no_picture", "unknown"]

/-- One value or several, separated by commas; every one must be known. -/
def choices (value : Option String) (allowed : List String) (what : String) :
    Except Refusal (List String) :=
  let picked := ((split ',' (value.getD "").toList).filter (· ≠ [])).map String.ofList
  if picked.any fun item => item ∉ allowed then .error ⟨400, "unknown " ++ what⟩ else .ok picked

/-- A request the framework passes on: its lengths and its numbers are checked. -/
structure CallsRequest where
  start : Option String
  stop : Option String
  q : String
  reason : Option String
  outcome : Option String
  video : Option String
  limit : ℕ
  offset : ℕ
  q_length : q.length ≤ 120
  reason_length : ∀ r ∈ reason, r.length ≤ 300
  outcome_length : ∀ o ∈ outcome, o.length ≤ 120
  video_length : ∀ v ∈ video, v.length ≤ 120
  limit_range : 1 ≤ limit ∧ limit ≤ 500

/-- The exact filters; any of them keeps to user calls. -/
def exactFilters (reason : Option String) (outcomes videos : List String) (r : CallRecord) : Bool :=
  let known := videos.filter (· ≠ "unknown")
  let byReason := reason.all fun text => decide (reasonName r.closeReason = text)
  let byOutcome := outcomes.isEmpty || decide (outcomeText r.outcome ∈ outcomes)
  let byVideo := videos.isEmpty ||
    (r.videoState.any (fun state => decide (videoStateText state ∈ known)) ||
      (decide ("unknown" ∈ videos) && r.videoState.isNone))
  let unfiltered := reason.isNone && outcomes.isEmpty && videos.isEmpty
  (unfiltered || r.isUser) && byReason && byOutcome && byVideo

structure Page where
  total : ℕ
  limit : ℕ
  offset : ℕ
  start : ℤ
  stop : ℤ
  calls : List CallRecord

/-- `#` and a call number. -/
def callNumber (q : String) : Option ℕ :=
  match (strip q).toList with
  | '#' :: cs =>
    if 1 ≤ cs.length ∧ cs.length ≤ 18 ∧ cs.all (fun c => (decimalDigit c).isSome) then
      some (number cs)
    else none
  | _ => none

/-- What the search box finds in a row: `ILIKE` on the searched columns. -/
abbrev Search := String → CallRecord → Bool

/-- The latest call first, a call without a start last. -/
def startKey (r : CallRecord) : OrderDual (WithBot ℤ) :=
  OrderDual.toDual (r.stored.call.callStart : WithBot ℤ)

def searchCalls (py : PythonText) (zone : Zone) (search : Search) (table : List CallRecord)
    (today : Date) (request : CallsRequest) : Except Refusal Page := do
  let outcomes ← choices request.outcome OUTCOMES "outcome"
  let videos ← choices request.video VIDEO_STATES "video state"
  let (since, stop) ← callWindow py zone today request.start request.stop
  match callNumber request.q with
  | some id =>
    let rows := table.filter fun r => decide (r.stored.id = id)
    .ok ⟨rows.length, request.limit, 0, since, stop, rows⟩
  | none =>
    let rows := table.filter fun r => r.inWindow since stop &&
      (decide (request.q = "") || search request.q r) &&
      exactFilters request.reason outcomes videos r
    let page := ((orderBy startKey rows).drop request.offset).take request.limit
    .ok ⟨if page.isEmpty then 0 else rows.length, request.limit, request.offset, since, stop, page⟩

/-- A text of a local time without an offset. -/
structure Writes (py : PythonText) (text : String) (wall : ℤ) : Prop where
  nonempty : text ≠ ""
  read : py.fromisoformat (zuluAsOffset text) = some ⟨wall, none⟩

/-- The days of a period, the last one to its last microsecond. -/
structure Bounds (py : PythonText) (period : Period) (start stop : String) : Prop where
  start : Writes py start (midnight period.since)
  stop : Writes py stop (midnight (period.stop.subDays 1) + dayUs - 1)

structure Opens (request : CallsRequest) (start stop : String)
    (reason outcome video : Option String) : Prop where
  start : request.start = some start
  stop : request.stop = some stop
  q : request.q = ""
  offset : request.offset = 0
  reason : request.reason = reason
  outcome : request.outcome = outcome
  video : request.video = video

section Windows

variable {zone : Zone} {period : Option String} {today : Date} {p : Period}

theorem daysPeriod_lt (first : Date) {n : ℕ} (label : List Char) (h : 0 < n) :
    (daysPeriod first n label).since.toordinal < (daysPeriod first n label).stop.toordinal := by
  change first.toordinal < (first.addDays n).toordinal
  rw [Date.toordinal_addDays]
  omega

theorem monthPeriod_lt {first : Date} (label : List Char) (hfirst : first.day = 1) :
    (monthPeriod first label).since.toordinal < (monthPeriod first label).stop.toordinal := by
  have hday := ((first.withDay 28 (Nat.succ_pos 27) le_rfl).addDays 7).day_le_thirtyOne
  change first.toordinal < (nextMonth first).toordinal
  rw [nextMonth, Date.toordinal_firstOfMonth, Date.toordinal_addDays, Date.toordinal_withDay,
    hfirst]
  omega

theorem yearPeriod_lt (year : ℤ) (label : List Char) :
    (yearPeriod year label).since.toordinal < (yearPeriod year label).stop.toordinal :=
  Date.toordinal_newYear_lt year

theorem typedMonth_lt {cs : List Char} (h : typedMonth cs = .ok p) :
    p.since.toordinal < p.stop.toordinal := by
  unfold typedMonth at h
  dsimp only at h
  split at h
  · cases hyear : checkedYear (number (cs.take 4)) with
    | error e =>
      rw [hyear] at h
      cases h
    | ok year =>
      rw [hyear] at h
      obtain rfl := Except.ok.inj h
      exact monthPeriod_lt cs rfl
  · cases h

/-- Every period has a day at least. -/
theorem resolvePeriod_lt (h : resolvePeriod period today = .ok p) :
    p.since.toordinal < p.stop.toordinal := by
  unfold resolvePeriod at h
  dsimp only at h
  by_cases hlast : period.getD "" = "" ∨ period.getD "" = "last_month"
  · rw [if_pos hlast] at h
    obtain rfl := Except.ok.inj h
    exact monthPeriod_lt _ rfl
  rw [if_neg hlast] at h
  by_cases htoday : period.getD "" = "today"
  · rw [if_pos htoday] at h
    obtain rfl := Except.ok.inj h
    exact daysPeriod_lt today _ Nat.one_pos
  rw [if_neg htoday] at h
  by_cases hweek : period.getD "" = "week"
  · rw [if_pos hweek] at h
    obtain rfl := Except.ok.inj h
    exact daysPeriod_lt _ _ (Nat.succ_pos 6)
  rw [if_neg hweek] at h
  by_cases hlastWeek : period.getD "" = "last_week"
  · rw [if_pos hlastWeek] at h
    obtain rfl := Except.ok.inj h
    exact daysPeriod_lt _ _ (Nat.succ_pos 6)
  rw [if_neg hlastWeek] at h
  by_cases hmonth : period.getD "" = "month"
  · rw [if_pos hmonth] at h
    obtain rfl := Except.ok.inj h
    exact monthPeriod_lt _ rfl
  rw [if_neg hmonth] at h
  by_cases hyear : period.getD "" = "year"
  · rw [if_pos hyear] at h
    obtain rfl := Except.ok.inj h
    exact yearPeriod_lt today.year _
  rw [if_neg hyear] at h
  by_cases hlastYear : period.getD "" = "last_year"
  · rw [if_pos hlastYear] at h
    obtain rfl := Except.ok.inj h
    exact yearPeriod_lt (today.year - 1) _
  rw [if_neg hlastYear] at h
  split at h
  · cases hyear : checkedYear (number (period.getD "").toList) with
    | error e =>
      rw [hyear] at h
      cases h
    | ok year =>
      rw [hyear] at h
      obtain rfl := Except.ok.inj h
      exact yearPeriod_lt year _
  split at h
  · exact typedMonth_lt h
  · cases h

theorem midnights_lt (zone : Zone) {m n : ℤ} (h : m < n) :
    zone.instant (m * dayUs) < zone.instant (n * dayUs) :=
  strictMono_int_of_lt_succ (f := fun n : ℤ => zone.instant (n * dayUs)) (fun n => zone.forward n) h

theorem instant_midnight_lt (zone : Zone) {d e : Date} (h : d.toordinal < e.toordinal) :
    zone.instant (midnight d) < zone.instant (midnight e) :=
  midnights_lt zone (by omega)

/-- The last microsecond before a midnight. -/
theorem instant_before_midnight (hzone : NoChangeAtMidnight zone) (d : Date) :
    zone.instant (midnight d - 1) = zone.instant (midnight d) - 1 := by
  have hoffset : zone.offset (midnight d - 1) = zone.offset (midnight d) :=
    hzone (d.toordinal - epochDay)
  rw [Zone.instant, Zone.instant, hoffset]
  omega

theorem dayBefore_end (d : Date) : midnight (d.subDays 1) + dayUs - 1 = midnight d - 1 := by
  rw [midnight, midnight, Date.toordinal_subDays]
  ring

/-- The half-open interval of the counts is the closed one of the lists. -/
theorem inPeriod_eq_inWindow (hzone : NoChangeAtMidnight zone) (r : CallRecord) :
    r.inPeriod zone p =
      r.inWindow (zone.instant (midnight p.since)) (zone.instant (midnight p.stop - 1)) := by
  rw [CallRecord.inPeriod, CallRecord.inWindow, instant_before_midnight hzone]
  simp only [Int.le_sub_one_iff]

variable {py : PythonText} {start stop : String}

theorem parseInstant_writes {text : String} {wall : ℤ} (h : Writes py text wall) :
    parseInstant py zone (some text) = .ok (some (zone.instant wall)) := by
  simp only [parseInstant, if_neg h.nonempty, h.read]
  rfl

theorem callWindow_bounds (hzone : NoChangeAtMidnight zone) (now : Date)
    (h : p.since.toordinal < p.stop.toordinal) (hbounds : Bounds py p start stop) :
    callWindow py zone now (some start) (some stop) =
      .ok (zone.instant (midnight p.since), zone.instant (midnight p.stop - 1)) := by
  have hstop := hbounds.stop
  rw [dayBefore_end] at hstop
  have horder := instant_midnight_lt zone h
  have hlast := instant_before_midnight hzone p.stop
  simp only [callWindow, parseInstant_writes hbounds.start, parseInstant_writes hstop]
  change (if _ < _ then _ else _) = _
  exact if_neg (by simp only [Option.getD_some]; omega)

end Windows

section Counts

variable {py : PythonText} {zone : Zone} {search : Search} {table : List CallRecord}
variable {now : Date} {request : CallsRequest} {since stop : ℤ} {os vs : List String}

/-- The total stands on a first page that is empty only when no row is found. -/
theorem total_firstPage {rows : List CallRecord} {limit : ℕ} (h : 1 ≤ limit) :
    (if ((orderBy startKey rows).take limit).isEmpty then 0 else rows.length) = rows.length := by
  split
  · next hempty =>
    have hlen := congrArg List.length (List.isEmpty_iff.mp hempty)
    rw [List.length_take, (orderBy_perm startKey rows).length_eq, List.length_nil] at hlen
    omega
  · rfl

/-- With nothing in the search box the total is the number of rows in the window that pass the
filters. -/
theorem total_searchCalls (hq : request.q = "") (hoffset : request.offset = 0)
    (houtcome : choices request.outcome OUTCOMES "outcome" = .ok os)
    (hvideo : choices request.video VIDEO_STATES "video state" = .ok vs)
    (hwindow : callWindow py zone now request.start request.stop = .ok (since, stop)) :
    (searchCalls py zone search table now request).map Page.total =
      .ok (table.countP fun r =>
        r.inWindow since stop && exactFilters request.reason os vs r) := by
  rw [searchCalls, houtcome, hvideo, hwindow]
  simp only [bind, Except.bind, hq, hoffset, decide_true, Bool.true_or, Bool.and_true,
    List.drop_zero]
  change Except.ok _ = _
  rw [List.countP_eq_length_filter]
  exact congrArg Except.ok (total_firstPage request.limit_range.1)

theorem choices_none (allowed : List String) (what : String) :
    choices none allowed what = .ok [] := rfl

theorem choices_outcome (o : Outcome) :
    choices (some (outcomeText o)) OUTCOMES "outcome" = .ok [outcomeText o] := by
  cases o <;> rfl

theorem choices_videoState (state : Option VideoState) :
    choices (some (videoStateName state)) VIDEO_STATES "video state" =
      .ok [videoStateName state] := by
  rcases state with _ | (_ | _ | _ | _) <;> rfl

theorem outcomeText_inj {a b : Outcome} : outcomeText a = outcomeText b ↔ a = b := by
  cases a <;> cases b <;> decide

theorem videoStateName_inj {a b : Option VideoState} :
    videoStateName a = videoStateName b ↔ a = b := by
  rcases a with _ | (_ | _ | _ | _) <;> rcases b with _ | (_ | _ | _ | _) <;> decide

/-- A reason names its verdict: neither an empty reason nor its name is a technical failure. -/
theorem isTechnicalFailure_reasonName (closeReason : Option String) :
    isTechnicalFailure shippedWhitelist closeReason =
      shippedWhitelist (reasonName closeReason) := by
  cases closeReason with
  | none => decide
  | some text =>
    by_cases hempty : text = ""
    · subst hempty
      decide
    · simp [isTechnicalFailure, reasonName, nullIfEmpty, Option.filter, hempty]

theorem reasonKey_eq_iff (r : CallRecord) (k : CallRecord) :
    reasonKey r = reasonKey k ↔
      reasonName r.closeReason = reasonName k.closeReason ∧ r.outcome = k.outcome := by
  simp only [reasonKey, isTechnicalFailure_reasonName, Prod.mk.injEq]
  exact ⟨fun h => ⟨h.1, h.2.1⟩, fun h => ⟨h.1, h.2, by rw [h.1]⟩⟩

theorem exactFilters_outcome (o : Outcome) (r : CallRecord) :
    exactFilters none [outcomeText o] [] r = (r.isUser && decide (r.outcome = o)) := by
  simp [exactFilters, outcomeText_inj]

theorem exactFilters_reason (text : String) (o : Outcome) (r : CallRecord) :
    exactFilters (some text) [outcomeText o] [] r =
      (r.isUser && decide (reasonName r.closeReason = text ∧ r.outcome = o)) := by
  simp [exactFilters, outcomeText_inj, Bool.and_assoc]

/-- The clause of one video state: NULL is named, the other states are compared. -/
theorem videoClause (state found : Option VideoState) :
    (found.any (fun a => decide (videoStateText a ∈
        [videoStateName state].filter fun v => decide (v ≠ "unknown"))) ||
      (decide ("unknown" ∈ [videoStateName state]) && found.isNone)) = decide (found = state) := by
  rcases state with _ | (_ | _ | _ | _) <;> rcases found with _ | (_ | _ | _ | _) <;> decide

theorem exactFilters_videoState (state : Option VideoState) (r : CallRecord) :
    exactFilters none [outcomeText .completed] [videoStateName state] r =
      (r.isUser && decide (r.outcome = .completed ∧ r.videoState = state)) := by
  simp only [exactFilters, videoClause]
  simp [outcomeText_inj, Bool.and_assoc]

variable {start stop' : String} {p : Period} {units : Option String} {today : Date}

/-- The Journal finds as many calls as the row counts, whatever request opens it. -/
def Lists (journal : CallsRequest → Except Refusal Page) (start stop : String)
    (reason outcome video : Option String) (sessions : ℕ) : Prop :=
  ∀ request, Opens request start stop reason outcome video →
    (journal request).map Page.total = .ok sessions

variable (search table now) in
/-- A row that counts the user calls of the period for which a condition holds. -/
theorem lists_of_countP (hzone : NoChangeAtMidnight zone)
    (hlt : p.since.toordinal < p.stop.toordinal) (hbounds : Bounds py p start stop')
    {reason outcome video : Option String}
    (houtcome : choices outcome OUTCOMES "outcome" = .ok os)
    (hvideo : choices video VIDEO_STATES "video state" = .ok vs) {q : CallRecord → Bool}
    (hfilter : ∀ r, exactFilters reason os vs r = (r.isUser && q r)) :
    Lists (searchCalls py zone search table now) start stop' reason outcome video
      (table.countP fun r => r.inPeriod zone p && r.isUser && q r) := by
  intro request hopens
  have hwindow : callWindow py zone now request.start request.stop =
      .ok (zone.instant (midnight p.since), zone.instant (midnight p.stop - 1)) := by
    rw [hopens.start, hopens.stop, callWindow_bounds hzone now hlt hbounds]
  rw [total_searchCalls hopens.q hopens.offset (by rw [hopens.outcome, houtcome])
    (by rw [hopens.video, hvideo]) hwindow]
  refine congrArg Except.ok (List.countP_congr fun r _ => ?_)
  rw [inPeriod_eq_inWindow hzone, hopens.reason, hfilter, Bool.and_assoc]

theorem length_filter_groupBy {κ : Type} [DecidableEq κ] {key : CallRecord → κ}
    {inScope : CallRecord → Bool} {g : κ × List CallRecord}
    (hg : g ∈ groupBy key (table.filter inScope)) :
    g.2.length = table.countP fun r => inScope r && decide (key r = g.1) := by
  rw [(mem_groupBy.mp hg).2, List.filter_filter, ← List.countP_eq_length_filter]
  exact List.countP_congr fun r _ => by rw [Bool.and_comm]

theorem callScope_of_every_unit (hunits : wantedUnits units = []) (r : CallRecord) :
    callScope units r = r.isUser := by
  rw [callScope, unitFilter, hunits]
  exact Bool.and_true _

theorem outcomes_lists (hzone : NoChangeAtMidnight zone) (hunits : wantedUnits units = [])
    {period : Option String} (hperiod : resolvePeriod period today = .ok p)
    (hbounds : Bounds py p start stop') {p' : Period} {rows : List OutcomeRow}
    (h : outcomes zone table today period units = .ok (p', rows)) {row : OutcomeRow}
    (hrow : row ∈ rows) :
    Lists (searchCalls py zone search table now) start stop' none (some (outcomeText row.outcome))
      none row.sessions := by
  obtain ⟨period', hperiod', h⟩ := bind_eq_ok h
  obtain rfl := Except.ok.inj (hperiod.symm.trans hperiod')
  obtain ⟨-, rfl⟩ := Prod.mk.inj (Except.ok.inj h)
  obtain ⟨g, hg, rfl⟩ := List.mem_map.mp (mem_orderBy.mp hrow)
  have hlists := lists_of_countP search table now hzone
    (resolvePeriod_lt hperiod) hbounds (choices_outcome g.1)
    (choices_none _ _) (exactFilters_outcome g.1)
  simp only [length_filter_groupBy hg, callScope_of_every_unit hunits]
  exact hlists

theorem ivrReasons_lists (hzone : NoChangeAtMidnight zone) {period : Option String}
    (hperiod : resolvePeriod period today = .ok p) (hbounds : Bounds py p start stop')
    {limit : ℕ} {rows : List ReasonRow}
    (h : ivrReasons zone table today period limit = .ok rows) {row : ReasonRow}
    (hrow : row ∈ rows) :
    Lists (searchCalls py zone search table now) start stop' (some row.closeReason)
      (some (outcomeText row.outcome)) none row.sessions := by
  obtain ⟨period', hperiod', h⟩ := bind_eq_ok h
  obtain rfl := Except.ok.inj (hperiod.symm.trans hperiod')
  obtain rfl := Except.ok.inj h
  obtain ⟨g, hg, rfl⟩ := List.mem_map.mp (mem_orderBy.mp (List.mem_of_mem_take hrow))
  obtain ⟨⟨k, -, hk⟩, -⟩ := mem_groupBy.mp hg
  have hlists := lists_of_countP search table now hzone
    (resolvePeriod_lt hperiod) hbounds (choices_outcome g.1.2.1)
    (choices_none _ _) (exactFilters_reason g.1.1 g.1.2.1)
  have hkey (r : CallRecord) : reasonKey r = g.1 ↔
      reasonName r.closeReason = g.1.1 ∧ r.outcome = g.1.2.1 := by
    rw [← hk]
    exact reasonKey_eq_iff r k
  simp only [reasonRow, length_filter_groupBy hg, hkey]
  simpa only [Bool.and_comm] using hlists

theorem videoStates_lists (hzone : NoChangeAtMidnight zone) (hunits : wantedUnits units = [])
    {period : Option String} (hperiod : resolvePeriod period today = .ok p)
    (hbounds : Bounds py p start stop') {p' : Period} {rows : List VideoStateRow}
    (h : videoStates zone table today period units = .ok (p', rows)) {row : VideoStateRow}
    (hrow : row ∈ rows) :
    Lists (searchCalls py zone search table now) start stop' none
      (some (outcomeText .completed)) (some row.videoState) row.sessions := by
  obtain ⟨period', hperiod', h⟩ := bind_eq_ok h
  obtain rfl := Except.ok.inj (hperiod.symm.trans hperiod')
  obtain ⟨-, rfl⟩ := Prod.mk.inj (Except.ok.inj h)
  obtain ⟨g, hg, rfl⟩ := List.mem_map.mp (mem_orderBy.mp hrow)
  obtain ⟨⟨k, -, hk⟩, -⟩ := mem_groupBy.mp hg
  have hlists := lists_of_countP search table now hzone
    (resolvePeriod_lt hperiod) hbounds (choices_outcome .completed)
    (choices_videoState k.videoState) (exactFilters_videoState k.videoState)
  simp only [length_filter_groupBy hg, callScope_of_every_unit hunits, ← hk, videoStateName_inj]
  simpa only [Bool.decide_and, Bool.and_assoc, Bool.and_comm, Bool.and_left_comm] using hlists

/-- Every row of the three routes counts the calls of one Journal list. -/
structure CountsAreLists (py : PythonText) (zone : Zone) (search : Search)
    (table : List CallRecord) (today now : Date) (period units : Option String)
    (start stop : String) : Prop where
  outcomes : ∀ p rows, outcomes zone table today period units = .ok (p, rows) → ∀ row ∈ rows,
    Lists (searchCalls py zone search table now) start stop none
      (some (outcomeText row.outcome)) none row.sessions
  reasons : ∀ limit rows, ivrReasons zone table today period limit = .ok rows → ∀ row ∈ rows,
    Lists (searchCalls py zone search table now) start stop (some row.closeReason)
      (some (outcomeText row.outcome)) none row.sessions
  videoStates : ∀ p rows, videoStates zone table today period units = .ok (p, rows) → ∀ row ∈ rows,
    Lists (searchCalls py zone search table now) start stop none
      (some (outcomeText .completed)) (some row.videoState) row.sessions

/-- The counts of a period are the lists of its days. -/
theorem counts_are_lists (hzone : NoChangeAtMidnight zone) (hunits : wantedUnits units = [])
    {period : Option String} (hperiod : resolvePeriod period today = .ok p)
    (hbounds : Bounds py p start stop') :
    CountsAreLists py zone search table today now period units start stop' where
  outcomes _ _ h _ hrow := outcomes_lists hzone hunits hperiod hbounds h hrow
  reasons _ _ h _ hrow := ivrReasons_lists hzone hperiod hbounds h hrow
  videoStates _ _ h _ hrow := videoStates_lists hzone hunits hperiod hbounds h hrow

end Counts

/-- August 2026, its first and its last instant. -/
def augustDays : PythonText where
  repr _ := "{}"
  floatOfText _ := none
  fromisoformat s :=
    if s = "2026-08-01T00:00:00" then some ⟨1785542400000000, none⟩
    else if s = "2026-08-31T23:59:59.999999" then some ⟨1788220799999999, none⟩ else none

def twoHoursEast : Zone where
  offset _ := 2 * 3600 * 1000000
  forward n := by simp [dayUs]

/-- A call of a start, an end and a picture. -/
def pictureCall (start : ℤ) (closeReason : Option String) (state : Option VideoState) :
    CallRecord where
  stored := callsSetOutcome shippedWhitelist (newCall 1 start
    { callColumns augustDays [] ⟨none, none, none, none, state⟩ with
      room := some "room", callStart := some start, closeReason := closeReason } (.obj []))
  orgUnit := none

theorem august_counts : CountsAreLists augustDays twoHoursEast (fun _ _ => false)
    [pictureCall 1788213599999999 (some "") (some .stalled), pictureCall 1788213600000000 none none]
    (.newYear 2027) (.newYear 2027) (some "2026-08") none "2026-08-01T00:00:00"
    "2026-08-31T23:59:59.999999" :=
  counts_are_lists (fun _ => rfl) rfl
    (p := monthPeriod (.first 2026 8 (by decide) (by decide)) "2026-08".toList) rfl
    { start := ⟨by decide, by decide +kernel⟩, stop := ⟨by decide, by decide +kernel⟩ }

end QualityCounts
