import Mathlib.Data.Prod.Lex
import SIPMediaGW.QualityCounts
import SIPMediaGW.RunningSums

/-! # The Usage routes

How much the service is used over a period: the headline figures with the most calls at once,
the shares of the platforms and of the units. -/
namespace UsageRoutes

open Calendar
open CallsTable
open IngestMapping
open OrderedQuery
open PythonJson
open QualityCounts
open RunningSums

structure Summary where
  calls : ℕ
  hours : ℚ
  seconds : ℤ
  sessions : ℕ
  gatewayHours : ℚ
  failed : ℕ
  ivrOnly : ℕ
  notEstablished : ℕ
  endpoints : ℕ
  peakConcurrent : ℤ
  label : String
  since : Date
  stop : Date

structure PlatformRow where
  platform : String
  calls : ℕ
  hours : Option ℚ

structure UnitRow where
  orgUnit : String
  calls : ℕ
  hours : Option ℚ
  pct : ℚ

structure MixRow where
  orgUnit : String
  platform : String
  calls : ℕ

structure UnitShares where
  label : String
  units : List UnitRow
  platformMix : List MixRow

/-- The durations that are not NULL. -/
def durations (rows : List CallRecord) : List ℤ := rows.filterMap fun r => r.stored.call.durationS

/-- `ROUND(_ / 3600.0, 1)`. -/
def hoursOf (seconds : ℤ) : ℚ := roundOneDigit (seconds / 3600)

/-- `ROUND(SUM(duration_s) / 3600.0, 1)`. -/
def durationHours (rows : List CallRecord) : Option ℚ :=
  if durations rows = [] then none else some (hoursOf (durations rows).sum)

/-- `COUNT(*) FILTER (WHERE outcome = _)`. -/
def ofOutcome (outcome : Outcome) (rows : List CallRecord) : List CallRecord :=
  rows.filter fun r => decide (r.outcome = outcome)

/-- `COUNT(DISTINCT source_number)`. -/
def distinctNumbers (rows : List CallRecord) : ℕ :=
  (rows.filterMap fun r => r.stored.call.sourceNumber).dedup.length

/-- A call that overlaps the half-open interval of two instants. -/
def overlaps (since stop : ℤ) (r : CallRecord) : Bool :=
  r.stored.established && r.stored.call.callStart.isSome && r.stored.call.callEnd.isSome &&
    r.stored.call.callEnd.any (fun t => decide (since < t)) &&
    r.stored.call.callStart.any fun t => decide (t < stop)

section Tables

variable (table : List CallRecord) (units : Option String)

/-- The starts and the ends of the calls that overlap the interval. -/
def sweptEvents (since stop : ℤ) : List (ℤ × ℤ) :=
  let rows := table.filter fun r => overlaps since stop r && callScope units r
  (rows.filterMap fun r => r.stored.call.callStart.map fun t => (t, 1)) ++
    rows.filterMap fun r => r.stored.call.callEnd.map fun t => (t, -1)

def peakConcurrent (since stop : ℤ) : ℤ := peak (sweptEvents table units since stop)

end Tables

section Routes

variable (zone : Zone) (table : List CallRecord) (today : Date)

/-- The headline figures of a period. -/
def figures (period : Period) (units : Option String) : Summary :=
  let rows := table.filter fun r => r.inPeriod zone period && callScope units r
  let seconds := (durations (ofOutcome .completed rows)).sum
  { calls := (ofOutcome .completed rows).length
    hours := hoursOf seconds
    seconds := seconds
    sessions := rows.length
    gatewayHours := hoursOf (occupancies rows).sum
    failed := (ofOutcome .failed rows).length
    ivrOnly := (ofOutcome .ivrOnly rows).length
    notEstablished := (ofOutcome .notEstablished rows).length
    endpoints := distinctNumbers rows
    peakConcurrent := peakConcurrent table units (zone.instant (midnight period.since))
      (zone.instant (midnight period.stop))
    label := period.label
    since := period.since
    stop := period.stop }

def summary (period units : Option String) : Except Refusal Summary := do
  let period ← resolvePeriod period today
  .ok (figures zone table period units)

/-- The completed calls of the scope over a period. -/
def completedIn (period : Period) (units : Option String) : List CallRecord :=
  table.filter fun r =>
    decide (r.outcome = .completed) && r.inPeriod zone period && callScope units r

/-- `COALESCE(platform, '(none)')`. -/
def platformName (r : CallRecord) : String := r.stored.call.platform.getD "(none)"

/-- `COALESCE(org_unit, '(unassigned)')`. -/
def unitName (r : CallRecord) : String := r.orgUnit.getD "(unassigned)"

def platforms (period units : Option String) : Except Refusal (List PlatformRow) := do
  let period ← resolvePeriod period today
  let groups := (groupBy platformName (completedIn zone table period units)).map fun g =>
    (⟨g.1, g.2.length, durationHours g.2⟩ : PlatformRow)
  .ok (orderBy (fun row => OrderDual.toDual row.calls) groups)

/-- `ratio n total` is `round(100.0 * n / total, 1)`, and `collate` the order of texts. -/
def orgUnits {κ : Type} [LinearOrder κ] (ratio : ℕ → ℕ → ℚ) (collate : String → κ)
    (period units : Option String) : Except Refusal UnitShares := do
  let period ← resolvePeriod period today
  let calls := completedIn zone table period units
  let rows := orderBy (fun g => OrderDual.toDual g.2.length) (groupBy unitName calls)
  let total := (rows.map fun g => g.2.length).sum
  let shares := rows.map fun g =>
    (⟨g.1, g.2.length, durationHours g.2, ratio g.2.length (if total = 0 then 1 else total)⟩ :
      UnitRow)
  let mix := (groupBy (fun r => (unitName r, platformName r)) calls).map fun g =>
    (⟨g.1.1, g.1.2, g.2.length⟩ : MixRow)
  .ok ⟨period.label, shares,
    orderBy (fun row => toLex (collate row.orgUnit, OrderDual.toDual row.calls)) mix⟩

end Routes

section Peak

variable {table : List CallRecord} {units : Option String} {since stop : ℤ}

/-- An established call of the scope that has begun and not ended. -/
def inProgress (units : Option String) (t : ℤ) (r : CallRecord) : Bool :=
  r.stored.established && callScope units r &&
    r.stored.call.callStart.any (fun start => decide (start ≤ t)) &&
    r.stored.call.callEnd.any fun stop => decide (t < stop)

def concurrentAt (table : List CallRecord) (units : Option String) (t : ℤ) : ℕ :=
  table.countP (inProgress units t)

/-- No established call ends before it begins. -/
def EndsAfterStart (table : List CallRecord) : Prop :=
  ∀ r ∈ table, r.stored.established = true → ∀ start ∈ r.stored.call.callStart,
    ∀ stop ∈ r.stored.call.callEnd, start ≤ stop

/-- The time of a call, from its start to its end. -/
def interval (r : CallRecord) : ℤ × ℤ :=
  (r.stored.call.callStart.getD 0, r.stored.call.callEnd.getD 0)

theorem overlaps_iff {r : CallRecord} : overlaps since stop r = true ↔
    r.stored.established = true ∧ r.stored.call.callStart = some (interval r).1 ∧
      r.stored.call.callEnd = some (interval r).2 ∧ since < (interval r).2 ∧
        (interval r).1 < stop := by
  unfold overlaps interval
  cases r.stored.call.callStart with
  | none => simp
  | some start =>
    cases r.stored.call.callEnd with
    | none => simp
    | some finish => simp [and_assoc]

theorem sweptEvents_eq : sweptEvents table units since stop =
    changes ((table.filter fun r => overlaps since stop r && callScope units r).map interval) := by
  rw [sweptEvents, changes, List.map_map, List.map_map]
  congr 1
  · rw [← List.filterMap_eq_map]
    apply List.filterMap_congr
    intro r hr
    obtain ⟨hoverlaps, -⟩ := Bool.and_eq_true_iff.mp (List.mem_filter.mp hr).2
    rw [(overlaps_iff.mp hoverlaps).2.1]
    rfl
  · rw [← List.filterMap_eq_map]
    apply List.filterMap_congr
    intro r hr
    obtain ⟨hoverlaps, -⟩ := Bool.and_eq_true_iff.mp (List.mem_filter.mp hr).2
    rw [(overlaps_iff.mp hoverlaps).2.2.1]
    rfl

theorem inProgress_iff {r : CallRecord} {t : ℤ} : inProgress units t r = true ↔
    r.stored.established = true ∧ callScope units r = true ∧
      (∃ start ∈ r.stored.call.callStart, start ≤ t) ∧
        ∃ finish ∈ r.stored.call.callEnd, t < finish := by
  simp only [inProgress, Bool.and_eq_true, Option.any_eq_true, decide_eq_true_eq, and_assoc,
    Option.mem_def]

/-- The instants of a period, its end left out. -/
def instants (since stop : ℤ) : Set ℤ := {t | since ≤ t ∧ t < stop}

/-- Within the interval the calls that overlap it are all that is in progress. -/
theorem openAt_overlapping {t : ℤ} (ht : t ∈ instants since stop) :
    openAt ((table.filter fun r => overlaps since stop r && callScope units r).map interval) t =
      concurrentAt table units t := by
  rw [openAt, List.countP_map, List.countP_filter, concurrentAt]
  apply List.countP_congr
  intro r _
  rw [inProgress_iff, Function.comp_apply, Bool.and_eq_true, Bool.and_eq_true, overlaps_iff,
    decide_eq_true_eq]
  constructor
  · rintro ⟨⟨hstart, hfinish⟩, ⟨hest, hs, hf, -, -⟩, hscope⟩
    exact ⟨hest, hscope, ⟨_, hs, hstart⟩, ⟨_, hf, hfinish⟩⟩
  · rintro ⟨hest, hscope, ⟨start, hs, hstart⟩, finish, hf, hfinish⟩
    have hinterval : interval r = (start, finish) := by
      rw [interval, hs, hf, Option.getD_some, Option.getD_some]
    rw [hinterval]
    exact ⟨⟨hstart, hfinish⟩, ⟨hest, hs, hf, ht.1.trans_lt hfinish, hstart.trans_lt ht.2⟩, hscope⟩

theorem isGreatest_peakConcurrent (horder : EndsAfterStart table) (hwindow : since < stop) :
    IsGreatest ((fun t => (concurrentAt table units t : ℤ)) '' instants since stop)
      (peakConcurrent table units since stop) := by
  have himage : (fun t => (concurrentAt table units t : ℤ)) '' instants since stop =
      (fun t => (openAt ((table.filter fun r => overlaps since stop r && callScope units r).map
        interval) t : ℤ)) '' Set.Ico since stop := by
    apply Set.image_congr
    intro t ht
    rw [openAt_overlapping ht]
  rw [peakConcurrent, sweptEvents_eq, himage]
  apply isGreatest_peak hwindow
  · intro i hi
    obtain ⟨r, hr, rfl⟩ := List.mem_map.mp hi
    obtain ⟨hr, hkept⟩ := List.mem_filter.mp hr
    obtain ⟨hest, hs, hf, -, -⟩ := overlaps_iff.mp (Bool.and_eq_true_iff.mp hkept).1
    exact horder r hr hest _ hs _ hf
  · intro i hi
    obtain ⟨r, hr, rfl⟩ := List.mem_map.mp hi
    obtain ⟨hr, hkept⟩ := List.mem_filter.mp hr
    exact (overlaps_iff.mp (Bool.and_eq_true_iff.mp hkept).1).2.2.2

/-- The peak of a summary is the greatest number of its calls at an instant of its period. -/
theorem summary_peak {zone : Zone} {today : Date} {period : Option String}
    (horder : EndsAfterStart table) {s : Summary}
    (h : summary zone table today period units = .ok s) :
    IsGreatest ((fun t => (concurrentAt table units t : ℤ)) ''
        instants (zone.instant (midnight s.since)) (zone.instant (midnight s.stop)))
      s.peakConcurrent := by
  obtain ⟨p, hp, h⟩ := bind_eq_ok h
  obtain rfl := Except.ok.inj h
  exact isGreatest_peakConcurrent horder (instant_midnight_lt zone (resolvePeriod_lt hp))

end Peak

/-- An established call between two instants. -/
def timedCall (i : ℤ × ℤ) : CallRecord where
  stored := newCall 1 i.1
    { callColumns augustDays [] ⟨none, none, none, none, none⟩ with
      callStart := some i.1, callEnd := some i.2 } (.obj [])
  orgUnit := none

theorem endsAfterStart_timedCalls {intervals : List (ℤ × ℤ)} (h : ∀ i ∈ intervals, i.1 ≤ i.2) :
    EndsAfterStart (intervals.map timedCall) := by
  intro r hr _ start hs finish hf
  obtain ⟨i, hi, rfl⟩ := List.mem_map.mp hr
  rw [← Option.some.inj hs, ← Option.some.inj hf]
  exact h i hi

/-- On New Year's Day 2026: a call over all of it, one of no length, two that follow each other. -/
def newYearCalls : List CallRecord :=
  [(1767000000000000, 1768000000000000), (1767225600000000, 1767225600000000),
    (1767225000000000, 1767225600000000), (1767225600000000, 1767225700000000)].map timedCall

theorem newYearCalls_peak : ∃ s,
    summary twoHoursEast newYearCalls (.newYear 2026) (some "today") none = .ok s ∧
      s.peakConcurrent = 2 ∧
      IsGreatest ((fun t => (concurrentAt newYearCalls none t : ℤ)) '' instants
        (twoHoursEast.instant (midnight s.since)) (twoHoursEast.instant (midnight s.stop)))
        s.peakConcurrent := by
  have hperiod : resolvePeriod (some "today") (.newYear 2026) =
      .ok (daysPeriod (.newYear 2026) 1 (isoDate (.newYear 2026))) := rfl
  have h : summary twoHoursEast newYearCalls (.newYear 2026) (some "today") none =
      .ok (figures twoHoursEast newYearCalls
        (daysPeriod (.newYear 2026) 1 (isoDate (.newYear 2026))) none) := by
    rw [summary, hperiod]
    rfl
  have horder : EndsAfterStart newYearCalls := endsAfterStart_timedCalls (by decide)
  refine ⟨_, h, ?peak, summary_peak horder h⟩
  case peak => decide +kernel

end UsageRoutes
