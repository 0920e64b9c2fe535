import SIPMediaGW.GroupedSums
import SIPMediaGW.SessionZones

/-! # The slots of the pool

The occupancy of the pool by month, day type and hour: the views of the whole history, and the
functions of a period. -/
namespace PoolSlots

open Calendar
open GroupedSums
open OrderedQuery
open PeriodWindows
open QualityCounts
open SessionZones

structure PoolSample where
  ts : ℤ
  intervalS : ℤ
  free : ℤ
  idle : ℤ
  ivr : ℤ
  inCall : ℤ

namespace PoolSample

variable (s : PoolSample)

/-- Every VM that exists. -/
def provisioned : ℤ := s.free + s.idle + s.ivr + s.inCall

def busy : ℤ := s.ivr + s.inCall

def spare : ℤ := s.free + s.idle

def running : ℤ := s.idle + s.ivr + s.inCall

def noSpare : Bool := decide (s.free = 0 ∧ s.idle = 0 ∧ 0 < s.ivr + s.inCall)

def coldStart : Bool := decide (s.idle = 0 ∧ 0 < s.free ∧ 0 < s.ivr + s.inCall)

end PoolSample

def WEEKDAYS : List String :=
  ["monday", "tuesday", "wednesday", "thursday", "friday", "saturday", "sunday"]

/-- A row of `pool_sample_days`. -/
structure SampleDay where
  sample : PoolSample
  month : ℤ
  day : Date
  weekday : String
  dayGroup : Option String
  hour : ℕ

def poolSampleDay (zone : SessionZone) (s : PoolSample) : SampleDay where
  sample := s
  month := zone.dateTruncMonth s.ts
  day := dateOf (zone.clock s.ts)
  weekday := WEEKDAYS.getD (dateOf (zone.clock s.ts)).weekday ""
  dayGroup := if (dateOf (zone.clock s.ts)).weekday + 1 ≤ 5 then some "default" else none
  hour := hourOf (zone.clock s.ts)

/-- A `timestamptz`, `-infinity` and `infinity` included. -/
inductive Timestamp where
  | negInfinity
  | finite (t : ℤ)
  | infinity

/-- `since <= t`. -/
def Timestamp.reached : Timestamp → ℤ → Bool
  | .negInfinity, _ => true
  | .finite since, t => decide (since ≤ t)
  | .infinity, _ => false

/-- `since <= ts and ts < stop`. -/
def within (since stop : Timestamp) (s : PoolSample) : Bool :=
  since.reached s.ts && ! stop.reached s.ts

section Slots

variable (zone : SessionZone) (percentileCont : ℚ → List ℤ → ℚ) (table : List PoolSample)

def poolSampleDaysBetween (since stop : Timestamp) : List SampleDay :=
  (table.filter (within since stop)).map (poolSampleDay zone)

def roundDigits (n : ℕ) (q : ℚ) : ℚ := roundHalfUp (q * 10 ^ n) / 10 ^ n

/-- Nothing where the denominator is, as `NULLIF(…, 0)` has it. -/
def ratio (numerator denominator : ℚ) : Option ℚ :=
  if denominator = 0 then none else some (numerator / denominator)

def average (f : PoolSample → ℤ) (rows : List SampleDay) : ℚ :=
  (sumOver (fun r => f r.sample) rows : ℚ) / rows.length

def largest {α : Type} (f : α → ℤ) (rows : List α) : ℤ := ((rows.map f).max?).getD 0

def busyPercentile (fraction : ℚ) (rows : List SampleDay) : ℚ :=
  percentileCont fraction (orderBy id (rows.map fun r => r.sample.busy))

def countDays (rows : List SampleDay) : ℕ := (rows.map SampleDay.day).dedup.length

/-- `ROUND(SUM(interval_s) FILTER (WHERE …) / 60.0, 1)`. -/
def minutesOf (p : PoolSample → Bool) (rows : List SampleDay) : Option ℚ :=
  let kept := rows.filter fun r => p r.sample
  if kept = [] then none
  else some (roundOneDigit (sumOver (fun r => r.sample.intervalS) kept / 60))

structure ProfileFigures where
  provisionedAvg : ℚ
  provisionedPeak : ℤ
  busyAvg : ℚ
  busyPeak : ℤ
  busyP95 : ℚ
  spareAvg : ℚ
  sparePeak : ℤ
  runningAvg : ℚ
  freeAvg : ℚ
  utilisationPct : Option ℚ
  samples : ℕ
  days : ℕ

def profileFigures (rows : List SampleDay) : ProfileFigures where
  provisionedAvg := roundDigits 2 (average PoolSample.provisioned rows)
  provisionedPeak := largest (fun r => r.sample.provisioned) rows
  busyAvg := roundDigits 2 (average PoolSample.busy rows)
  busyPeak := largest (fun r => r.sample.busy) rows
  busyP95 := roundDigits 2 (busyPercentile percentileCont (95 / 100) rows)
  spareAvg := roundDigits 2 (average PoolSample.spare rows)
  sparePeak := largest (fun r => r.sample.spare) rows
  runningAvg := roundDigits 2 (average PoolSample.running rows)
  freeAvg := roundDigits 2 (average PoolSample.free rows)
  utilisationPct := (ratio (100 * sumOver (fun r => r.sample.busy) rows)
    (sumOver (fun r => r.sample.provisioned) rows)).map roundOneDigit
  samples := rows.length
  days := countDays rows

@[simp] theorem samples_profileFigures (rows : List SampleDay) :
    (profileFigures percentileCont rows).samples = rows.length := rfl

structure PressureFigures where
  samples : ℕ
  noSpareSamples : ℕ
  noSparePct : Option ℚ
  noSpareMinutes : Option ℚ
  coldStartMinutes : Option ℚ
  days : ℕ

def pressureFigures (rows : List SampleDay) : PressureFigures where
  samples := rows.length
  noSpareSamples := rows.countP fun r => r.sample.noSpare
  noSparePct := (ratio (100 * rows.countP fun r => r.sample.noSpare) rows.length).map roundOneDigit
  noSpareMinutes := minutesOf PoolSample.noSpare rows
  coldStartMinutes := minutesOf PoolSample.coldStart rows
  days := countDays rows

@[simp] theorem samples_pressureFigures (rows : List SampleDay) :
    (pressureFigures rows).samples = rows.length := rfl

structure ConcurrencyFigures where
  median : ℚ
  p90 : ℚ
  p95 : ℚ
  p99 : ℚ
  peak : ℤ
  avgConcurrent : ℚ
  samples : ℕ
  days : ℕ

def concurrencyFigures (rows : List SampleDay) : ConcurrencyFigures where
  median := roundDigits 1 (busyPercentile percentileCont (50 / 100) rows)
  p90 := roundDigits 1 (busyPercentile percentileCont (90 / 100) rows)
  p95 := roundDigits 1 (busyPercentile percentileCont (95 / 100) rows)
  p99 := roundDigits 1 (busyPercentile percentileCont (99 / 100) rows)
  peak := largest (fun r => r.sample.busy) rows
  avgConcurrent := roundDigits 2 (average PoolSample.busy rows)
  samples := rows.length
  days := countDays rows

@[simp] theorem samples_concurrencyFigures (rows : List SampleDay) :
    (concurrencyFigures percentileCont rows).samples = rows.length := rfl

structure SlotRow (F : Type) where
  month : Option ℤ
  dayType : String
  hour : ℕ
  figures : F

/-- The columns of a row beside its month. -/
abbrev Slot (F : Type) := String × ℕ × F

def SlotRow.slot {F : Type} (row : SlotRow F) : Slot F := (row.dayType, row.hour, row.figures)

/-- The columns of a grouping set: the weekday or the group of days, and the hour. -/
abbrev SlotKey := Option String × Option String × ℕ

def weekdaySet (r : SampleDay) : SlotKey := (some r.weekday, none, r.hour)

def groupSet (r : SampleDay) : SlotKey := (none, r.dayGroup, r.hour)

/-- `COALESCE(weekday, day_group)`. -/
def dayType (k : SlotKey) : Option String := k.1.or k.2.1

variable {F : Type} (figures : List SampleDay → F)

/-- A group with a day type, the only ones that `HAVING` keeps. -/
def slotRow (g : (Option ℤ × SlotKey) × List SampleDay) : Option (SlotRow F) :=
  (dayType g.1.2).map fun day =>
    { month := g.1.1, dayType := day, hour := g.1.2.2.2, figures := figures g.2 }

/-- `GROUP BY GROUPING SETS ((m, weekday, hour), (m, day_group, hour))`. -/
def slotRows (m : SampleDay → Option ℤ) (rows : List SampleDay) : List (SlotRow F) :=
  (groupBy (fun r => (m r, weekdaySet r)) rows ++
    groupBy (fun r => (m r, groupSet r)) rows).filterMap (slotRow figures)

/-- `CASE WHEN p_by_month THEN month END`. -/
def monthColumn (byMonth : Bool) (r : SampleDay) : Option ℤ :=
  if byMonth then some r.month else none

def poolProfileRows (since stop : Timestamp) (byMonth : Bool) : List (SlotRow ProfileFigures) :=
  slotRows (profileFigures percentileCont) (monthColumn byMonth)
    (poolSampleDaysBetween zone table since stop)

def poolProfileBetween (since stop : Timestamp) : List (SlotRow ProfileFigures) :=
  poolProfileRows zone percentileCont table since stop false

def poolProfile : List (SlotRow ProfileFigures) :=
  poolProfileRows zone percentileCont table .negInfinity .infinity true

def poolPressureRows (since stop : Timestamp) (byMonth : Bool) : List (SlotRow PressureFigures) :=
  slotRows pressureFigures (monthColumn byMonth) (poolSampleDaysBetween zone table since stop)

def poolPressureBetween (since stop : Timestamp) : List (SlotRow PressureFigures) :=
  poolPressureRows zone table since stop false

def poolPressure : List (SlotRow PressureFigures) :=
  poolPressureRows zone table .negInfinity .infinity true

def hourlyConcurrencyRows (since stop : Timestamp) (byMonth : Bool) :
    List (SlotRow ConcurrencyFigures) :=
  slotRows (concurrencyFigures percentileCont) (monthColumn byMonth)
    (poolSampleDaysBetween zone table since stop)

def hourlyConcurrencyBetween (since stop : Timestamp) : List (SlotRow ConcurrencyFigures) :=
  hourlyConcurrencyRows zone percentileCont table since stop false

def hourlyConcurrency : List (SlotRow ConcurrencyFigures) :=
  hourlyConcurrencyRows zone percentileCont table .negInfinity .infinity true

end Slots

section Groups

variable {F : Type} {figures : List SampleDay → F} {count : F → ℕ}

def slotOf (figures : List SampleDay → F) (g : SlotKey × List SampleDay) : Option (Slot F) :=
  (dayType g.1).map fun day => (day, g.1.2.2, figures g.2)

/-- The slots of labelled samples, whatever their month. -/
def slots (figures : List SampleDay → F) (rows : List SampleDay) : List (Slot F) :=
  (groupBy weekdaySet rows ++ groupBy groupSet rows).filterMap (slotOf figures)

theorem slotOf_slotRow (x : Option ℤ) (g : (Option ℤ × SlotKey) × List SampleDay) :
    ((slotRow figures g).filter fun row => decide (row.month = x)).map SlotRow.slot =
      if decide (g.1.1 = x) then slotOf figures (g.1.2, g.2) else none := by
  rw [slotRow, slotOf]
  cases dayType g.1.2 with
  | none => exact (ite_self none).symm
  | some day =>
    rw [Option.map_some, Option.map_some, Option.filter_some]
    split <;> rfl

theorem slots_of_set (key : SampleDay → SlotKey) (m : SampleDay → Option ℤ) (x : Option ℤ)
    (rows : List SampleDay) :
    (((groupBy (fun r => (m r, key r)) rows).filterMap (slotRow figures)).filter fun row =>
        decide (row.month = x)).map SlotRow.slot =
      (groupBy key (rows.filter fun r => decide (m r = x))).filterMap (slotOf figures) := by
  rw [← groupBy_pair m key x rows, List.filterMap_map, List.filterMap_filter,
    List.filter_filterMap, List.map_filterMap]
  apply List.filterMap_congr
  intro g _
  exact slotOf_slotRow x g

/-- The rows of a month are the slots of its samples. -/
theorem slots_of_month (m : SampleDay → Option ℤ) (x : Option ℤ) (rows : List SampleDay) :
    ((slotRows figures m rows).filter fun row => decide (row.month = x)).map SlotRow.slot =
      slots figures (rows.filter fun r => decide (m r = x)) := by
  rw [slotRows, slots, List.filterMap_append, List.filterMap_append, List.filter_append,
    List.map_append, slots_of_set, slots_of_set]

theorem month_none {row : SlotRow F} {rows : List SampleDay}
    (h : row ∈ slotRows figures (monthColumn false) rows) : row.month = none := by
  have hgroup {key : SampleDay → SlotKey} {g : (Option ℤ × SlotKey) × List SampleDay}
      (hg : g ∈ groupBy (fun r => (monthColumn false r, key r)) rows) : g.1.1 = none := by
    obtain ⟨⟨r, -, hkey⟩, -⟩ := mem_groupBy.mp hg
    rw [← hkey]
    rfl
  obtain ⟨g, hg, hrow⟩ := List.mem_filterMap.mp h
  obtain ⟨day, -, rfl⟩ := Option.map_eq_some_iff.mp hrow
  rcases List.mem_append.mp hg with hset | hset
  · exact hgroup hset
  · exact hgroup hset

/-- Over a period, the rows are the slots of its samples. -/
theorem slots_of_period (rows : List SampleDay) :
    (slotRows figures (monthColumn false) rows).map SlotRow.slot = slots figures rows := by
  have hmonth : ∀ row ∈ slotRows figures (monthColumn false) rows,
      decide (row.month = none) = true := fun row h => decide_eq_true (month_none h)
  have hrows := @slots_of_month F figures (monthColumn false) none rows
  rw [List.filter_eq_self.mpr hmonth] at hrows
  rw [hrows]
  congr 1
  exact List.filter_eq_self.mpr fun r _ => decide_eq_true rfl

/-- The keys of both grouping sets. -/
def keys (rows : List SampleDay) : List SlotKey :=
  (rows.map weekdaySet).dedup ++ (rows.map groupSet).dedup

theorem nodup_keys (rows : List SampleDay) : (keys rows).Nodup := by
  apply List.Nodup.append (List.nodup_dedup _) (List.nodup_dedup _)
  intro k hweekday hgroup
  obtain ⟨r, -, rfl⟩ := List.mem_map.mp (List.mem_dedup.mp hweekday)
  obtain ⟨r', -, hkey⟩ := List.mem_map.mp (List.mem_dedup.mp hgroup)
  cases hkey

/-- What a key that is shown has for its day type: a weekday, or the group of working days. -/
def Labelled (k : SlotKey) : Prop :=
  (∃ day ∈ WEEKDAYS, k = (some day, none, k.2.2)) ∨ k = (none, none, k.2.2) ∨
    k = (none, some "default", k.2.2)

theorem weekday_mem (zone : SessionZone) (s : PoolSample) :
    (poolSampleDay zone s).weekday ∈ WEEKDAYS := by
  have hlt : (dateOf (zone.clock s.ts)).weekday < WEEKDAYS.length := weekday_lt _
  change WEEKDAYS.getD (dateOf (zone.clock s.ts)).weekday "" ∈ WEEKDAYS
  rw [List.getD_eq_getElem?_getD, List.getElem?_eq_getElem hlt, Option.getD_some]
  exact List.getElem_mem hlt

theorem dayGroup_eq (zone : SessionZone) (s : PoolSample) :
    (poolSampleDay zone s).dayGroup = none ∨ (poolSampleDay zone s).dayGroup = some "default" := by
  rw [poolSampleDay]
  split
  · exact .inr rfl
  · exact .inl rfl

theorem labelled_keys {zone : SessionZone} {samples : List PoolSample} {k : SlotKey}
    (h : k ∈ keys (samples.map (poolSampleDay zone))) : Labelled k := by
  rcases List.mem_append.mp h with hset | hset
  · obtain ⟨r, hr, rfl⟩ := List.mem_map.mp (List.mem_dedup.mp hset)
    obtain ⟨s, -, rfl⟩ := List.mem_map.mp hr
    exact .inl ⟨_, weekday_mem zone s, rfl⟩
  · obtain ⟨r, hr, rfl⟩ := List.mem_map.mp (List.mem_dedup.mp hset)
    obtain ⟨s, -, rfl⟩ := List.mem_map.mp hr
    right
    rw [groupSet]
    rcases dayGroup_eq zone s with hgroup | hgroup
    · rw [hgroup]
      exact .inl rfl
    · rw [hgroup]
      exact .inr rfl

/-- Keys with one day type and one hour are the same one. -/
theorem key_of_dayType {k k' : SlotKey} {day : String} (h : Labelled k) (h' : Labelled k')
    (hday : dayType k = some day) (hday' : dayType k' = some day) (hhour : k.2.2 = k'.2.2) :
    k = k' := by
  have hdefault : ∀ d ∈ WEEKDAYS, d ≠ "default" := by decide
  rcases h with ⟨d, hd, hk⟩ | hk | hk <;> rcases h' with ⟨d', hd', hk'⟩ | hk' | hk' <;>
    rw [hk] at hday ⊢ <;> rw [hk'] at hday' ⊢ <;> cases hday <;> cases hday'
  · rw [hhour]
  · exact absurd rfl (hdefault _ hd)
  · exact absurd rfl (hdefault _ hd')
  · rw [hhour]

theorem nodup_slots (zone : SessionZone) (samples : List PoolSample) :
    ((slots figures (samples.map (poolSampleDay zone))).map fun slot =>
      (slot.1, slot.2.1)).Nodup := by
  have hkeys : (groupBy weekdaySet (samples.map (poolSampleDay zone)) ++
      groupBy groupSet (samples.map (poolSampleDay zone))).map Prod.fst =
      keys (samples.map (poolSampleDay zone)) := by
    rw [List.map_append, map_fst_groupBy, map_fst_groupBy, keys]
  rw [slots, List.map_filterMap]
  apply List.pairwise_filterMap.mpr
  have hnodup := List.pairwise_map.mp (hkeys ▸ nodup_keys _)
  apply hnodup.imp_of_mem
  intro g g' hg hg' hne b hb b' hb' heq
  apply hne
  obtain ⟨slot, hslot, rfl⟩ := Option.map_eq_some_iff.mp hb
  obtain ⟨slot', hslot', rfl⟩ := Option.map_eq_some_iff.mp hb'
  obtain ⟨day, hday, rfl⟩ := Option.map_eq_some_iff.mp hslot
  obtain ⟨day', hday', rfl⟩ := Option.map_eq_some_iff.mp hslot'
  obtain ⟨rfl, hhour⟩ := Prod.mk.inj heq
  exact key_of_dayType (labelled_keys (hkeys ▸ List.mem_map_of_mem hg))
    (labelled_keys (hkeys ▸ List.mem_map_of_mem hg')) hday hday' hhour

theorem dayType_groupSet (r : SampleDay) : dayType (groupSet r) = r.dayGroup := Option.none_or

/-- A condition on the day type and the hour that a key shows. -/
def shows (q : String → ℕ → Bool) (k : SlotKey) : Bool := (dayType k).any fun day => q day k.2.2

theorem samples_of_groups (hcount : ∀ rows, count (figures rows) = rows.length)
    (q : String → ℕ → Bool) (groups : List (SlotKey × List SampleDay)) :
    sumOver (fun slot => (count slot.2.2 : ℤ))
        ((groups.filterMap (slotOf figures)).filter fun slot => q slot.1 slot.2.1) =
      sumOver (fun g => sumOver (fun _ => 1) g.2) (groups.filter fun g => shows q g.1) := by
  induction groups with
  | nil => rfl
  | cons g groups ih =>
    cases hday : dayType g.1 with
    | none =>
      have hhidden : ¬ shows q g.1 = true := by
        rw [shows, hday]
        exact Bool.false_ne_true
      have hslot : slotOf figures g = none := by rw [slotOf, hday, Option.map_none]
      rw [List.filterMap_cons_none hslot, ih, List.filter_cons, if_neg hhidden]
    | some day =>
      have hshown : shows q g.1 = q day g.1.2.2 := by rw [shows, hday, Option.any_some]
      have hslot : slotOf figures g = some (day, g.1.2.2, figures g.2) := by
        rw [slotOf, hday, Option.map_some]
      rw [List.filterMap_cons_some hslot, List.filter_cons, List.filter_cons, hshown]
      by_cases hq : q day g.1.2.2 = true
      · rw [if_pos hq, if_pos hq, sumOver_cons, sumOver_cons, ih, hcount, sumOver_one]
      · rw [if_neg hq, if_neg hq, ih]

theorem samples_of_set (hcount : ∀ rows, count (figures rows) = rows.length)
    (q : String → ℕ → Bool) (key : SampleDay → SlotKey) (rows : List SampleDay) :
    sumOver (fun slot => (count slot.2.2 : ℤ))
        (((groupBy key rows).filterMap (slotOf figures)).filter fun slot => q slot.1 slot.2.1) =
      (rows.filter fun r => shows q (key r)).length := by
  rw [samples_of_groups hcount, sumOver_groupBy, sumOver_one]

/-- The slots of the weekdays have every sample of their hours once. -/
theorem samples_of_weekdays (hcount : ∀ rows, count (figures rows) = rows.length) (p : ℕ → Bool)
    (zone : SessionZone) (samples : List PoolSample) :
    sumOver (fun slot => (count slot.2.2 : ℤ))
        ((slots figures (samples.map (poolSampleDay zone))).filter fun slot =>
          decide (slot.1 ∈ WEEKDAYS) && p slot.2.1) =
      ((samples.map (poolSampleDay zone)).filter fun r => p r.hour).length := by
  have hweekday : (samples.map (poolSampleDay zone)).filter (fun r =>
      shows (fun day hour => decide (day ∈ WEEKDAYS) && p hour) (weekdaySet r)) =
      (samples.map (poolSampleDay zone)).filter fun r => p r.hour := by
    apply List.filter_congr
    intro r hr
    obtain ⟨s, -, rfl⟩ := List.mem_map.mp hr
    change (decide ((poolSampleDay zone s).weekday ∈ WEEKDAYS) &&
      p (poolSampleDay zone s).hour) = _
    rw [decide_eq_true (weekday_mem zone s), Bool.true_and]
  have hgroup : (samples.map (poolSampleDay zone)).filter (fun r =>
      shows (fun day hour => decide (day ∈ WEEKDAYS) && p hour) (groupSet r)) = [] := by
    apply List.filter_eq_nil_iff.mpr
    intro r hr
    obtain ⟨s, -, rfl⟩ := List.mem_map.mp hr
    rw [shows, dayType_groupSet]
    rcases dayGroup_eq zone s with hday | hday
    · rw [hday]
      exact Bool.false_ne_true
    · have hnot : decide ("default" ∈ WEEKDAYS) = false := by decide
      rw [hday, Option.any_some, hnot, Bool.false_and]
      exact Bool.false_ne_true
  rw [slots, List.filterMap_append, List.filter_append, sumOver_append,
    samples_of_set hcount (fun day hour => decide (day ∈ WEEKDAYS) && p hour),
    samples_of_set hcount (fun day hour => decide (day ∈ WEEKDAYS) && p hour), hweekday, hgroup]
  exact Int.add_zero _

/-- The samples of a Monday to Friday at an hour. -/
def workingDays (hour : ℕ) (rows : List SampleDay) : List SampleDay :=
  rows.filter fun r => decide (r.day.weekday < 5 ∧ r.hour = hour)

theorem groupSet_eq_iff (zone : SessionZone) (s : PoolSample) (hour : ℕ) :
    groupSet (poolSampleDay zone s) = (none, some "default", hour) ↔
      (poolSampleDay zone s).day.weekday < 5 ∧ (poolSampleDay zone s).hour = hour := by
  have hday : (poolSampleDay zone s).dayGroup = some "default" ↔
      (poolSampleDay zone s).day.weekday < 5 := by
    change (if (dateOf (zone.clock s.ts)).weekday + 1 ≤ 5 then some "default" else none) =
      some "default" ↔ (dateOf (zone.clock s.ts)).weekday < 5
    by_cases h : (dateOf (zone.clock s.ts)).weekday + 1 ≤ 5
    · rw [if_pos h]
      exact iff_of_true rfl (by omega)
    · rw [if_neg h]
      exact iff_of_false (by simp) (by omega)
  rw [groupSet, Prod.mk.injEq, Prod.mk.injEq, hday]
  exact and_iff_right rfl

theorem slotOf_groupSet (hour : ℕ) {r : SampleDay} {g : SlotKey × List SampleDay}
    (hkey : groupSet r = g.1) (hday : r.dayGroup = none ∨ r.dayGroup = some "default") :
    ((slotOf figures g).filter fun slot =>
        decide (slot.1 = "default") && decide (slot.2.1 = hour)) =
      if decide (g.1 = (none, some "default", hour)) then slotOf figures g else none := by
  have hkeys : groupSet r = (none, some "default", hour) ↔
      r.dayGroup = some "default" ∧ r.hour = hour := by
    rw [groupSet, Prod.mk.injEq, Prod.mk.injEq]
    exact and_iff_right rfl
  have hdecide : decide (groupSet r = (none, some "default", hour)) =
      decide (r.dayGroup = some "default" ∧ r.hour = hour) := decide_eq_decide.mpr hkeys
  have hhour : g.1.2.2 = r.hour := by rw [← hkey, groupSet]
  rw [slotOf, hhour, ← hkey, dayType_groupSet, hdecide]
  clear hdecide hkeys
  generalize r.dayGroup = group at hday ⊢
  rcases hday with rfl | rfl
  · exact (ite_self none).symm
  · rw [Option.map_some, Option.filter_some]
    apply if_congr _ rfl rfl
    rw [Bool.and_eq_true, decide_eq_true_eq, decide_eq_true_eq, decide_eq_true_eq]
    exact and_congr_left fun _ => iff_of_true rfl rfl

/-- The slot of the working days is that of every sample of a Monday to Friday. -/
theorem slot_of_workingDays (zone : SessionZone) (samples : List PoolSample) (hour : ℕ) :
    ((slots figures (samples.map (poolSampleDay zone))).filter fun slot =>
        decide (slot.1 = "default") && decide (slot.2.1 = hour)) =
      if workingDays hour (samples.map (poolSampleDay zone)) = [] then []
      else [("default", hour, figures (workingDays hour (samples.map (poolSampleDay zone))))] := by
  have hweekday : ((groupBy weekdaySet (samples.map (poolSampleDay zone))).filterMap
      (slotOf figures)).filter (fun slot =>
        decide (slot.1 = "default") && decide (slot.2.1 = hour)) = [] := by
    apply List.filter_eq_nil_iff.mpr
    intro slot hslot hq
    obtain ⟨g, hg, hrow⟩ := List.mem_filterMap.mp hslot
    obtain ⟨⟨r, hr, hkey⟩, -⟩ := mem_groupBy.mp hg
    obtain ⟨s, -, rfl⟩ := List.mem_map.mp hr
    obtain ⟨day, hday, rfl⟩ := Option.map_eq_some_iff.mp hrow
    rw [← hkey] at hday
    obtain rfl : (poolSampleDay zone s).weekday = day := Option.some.inj hday
    have hdefault : (poolSampleDay zone s).weekday = "default" :=
      of_decide_eq_true (Bool.and_eq_true_iff.mp hq).1
    have hmem := weekday_mem zone s
    rw [hdefault] at hmem
    revert hmem
    decide
  have hgroup : ((groupBy groupSet (samples.map (poolSampleDay zone))).filterMap
      (slotOf figures)).filter (fun slot =>
        decide (slot.1 = "default") && decide (slot.2.1 = hour)) =
      ((groupBy groupSet (samples.map (poolSampleDay zone))).filter fun g =>
        decide (g.1 = (none, some "default", hour))).filterMap (slotOf figures) := by
    rw [List.filter_filterMap, List.filterMap_filter]
    apply List.filterMap_congr
    intro g hg
    obtain ⟨⟨r, hr, hkey⟩, -⟩ := mem_groupBy.mp hg
    obtain ⟨s, -, rfl⟩ := List.mem_map.mp hr
    exact slotOf_groupSet hour hkey (dayGroup_eq zone s)
  have hrows : (samples.map (poolSampleDay zone)).filter (fun r =>
      decide (groupSet r = (none, some "default", hour))) =
      workingDays hour (samples.map (poolSampleDay zone)) := by
    apply List.filter_congr
    intro r hr
    obtain ⟨s, -, rfl⟩ := List.mem_map.mp hr
    exact decide_eq_decide.mpr (groupSet_eq_iff zone s hour)
  rw [slots, List.filterMap_append, List.filter_append, hweekday, hgroup, filter_groupBy, hrows,
    List.nil_append]
  split <;> rfl

end Groups

section Months

variable {zone : SessionZone} {table : List PoolSample} {d : Date}

/-- The samples labelled with a month. -/
def labelled (zone : SessionZone) (d : Date) (s : PoolSample) : Bool :=
  decide (zone.dateTruncMonth s.ts = zone.starts d)

/-- The samples of the window of a month. -/
def windowed (zone : SessionZone) (d : Date) : PoolSample → Bool :=
  within (.finite (zone.starts d)) (.finite (zone.starts (firstAfter d)))

/-- How many samples show a month before its window. -/
def repeated (zone : SessionZone) (table : List PoolSample) (d : Date) : ℕ :=
  table.countP fun s => decide (zone.Repeats d s.ts)

theorem within_finite_iff {since stop : ℤ} {s : PoolSample} :
    within (.finite since) (.finite stop) s = true ↔ since ≤ s.ts ∧ s.ts < stop := by
  rw [within, Timestamp.reached, Timestamp.reached, Bool.and_eq_true, Bool.not_eq_true',
    decide_eq_true_eq, decide_eq_false_iff_not, not_le]

theorem windowed_iff {s : PoolSample} : windowed zone d s = true ↔
    zone.starts d ≤ s.ts ∧ s.ts < zone.starts (firstAfter d) := within_finite_iff

/-- A sample is in the window of its month, unless a midnight repeated moves it out. -/
theorem month_of_sample (hd : d.day = 1) (s : PoolSample) :
    (if labelled zone d s = true then 1 else 0) +
        (if decide (zone.Repeats (firstAfter d) s.ts) = true then 1 else 0) =
      (if windowed zone d s = true then 1 else 0) +
        (if decide (zone.Repeats d s.ts) = true then 1 else 0) := by
  have hlabelled : labelled zone d s = true ↔
      midnight d ≤ zone.clock s.ts ∧ zone.clock s.ts < midnight (firstAfter d) :=
    decide_eq_true_iff.trans (SessionZone.dateTruncMonth_eq_iff hd)
  have hstart : zone.starts d ≤ s.ts → midnight d ≤ zone.clock s.ts := zone.settled
  have hnext : zone.starts (firstAfter d) ≤ s.ts → midnight (firstAfter d) ≤ zone.clock s.ts :=
    zone.settled
  have hstarts := @SessionZone.starts_firstAfter zone d hd
  have hmonth := midnight_firstAfter hd
  have hday : 0 < dayUs := by decide
  have hrepeats (e : Date) : decide (zone.Repeats e s.ts) = true ↔
      midnight e ≤ zone.clock s.ts ∧ s.ts < zone.starts e := decide_eq_true_iff
  simp only [hlabelled, windowed_iff, hrepeats]
  split_ifs <;> omega

theorem count_month (hd : d.day = 1) (table : List PoolSample) :
    table.countP (labelled zone d) + repeated zone table (firstAfter d) =
      table.countP (windowed zone d) + repeated zone table d := by
  induction table with
  | nil => rfl
  | cons s table ih =>
    have hsample := @month_of_sample zone d hd s
    rw [repeated, repeated] at ih ⊢
    rw [List.countP_cons, List.countP_cons, List.countP_cons, List.countP_cons]
    omega

/-- Long before the first sample nothing is repeated. -/
theorem exists_early (zone : SessionZone) (table : List PoolSample) :
    ∃ n : ℤ, ∀ d : Date, d.toordinal ≤ n → repeated zone table d = 0 := by
  induction table with
  | nil => exact ⟨0, fun d _ => rfl⟩
  | cons s table ih =>
    obtain ⟨n, hn⟩ := ih
    refine ⟨min n ((dateOf (zone.clock s.ts)).toordinal - 2), ?_⟩
    intro d hd
    have hclock : midnight d + 2 * dayUs ≤ zone.clock s.ts := by
      have hlater : midnight (d.addDays 2) = midnight d + 2 * dayUs := by
        rw [midnight, midnight, Date.toordinal_addDays]
        ring
      rw [← hlater, midnight_le_iff, Date.toordinal_addDays]
      omega
    rw [repeated, List.countP_cons, if_neg]
    · exact hn d (by omega)
    · rw [decide_eq_true_eq]
      exact SessionZone.not_repeats_of_early hclock

/-- Where every window has as many samples as are labelled with its month, nothing is repeated. -/
theorem repeated_eq_zero
    (h : ∀ d : Date, d.day = 1 → table.countP (labelled zone d) = table.countP (windowed zone d))
    (hd : d.day = 1) : repeated zone table d = 0 := by
  obtain ⟨n, hn⟩ := exists_early zone table
  have hrun (k : ℕ) : ∀ d : Date, d.day = 1 → d.toordinal ≤ n + k → repeated zone table d = 0 := by
    induction k with
    | zero =>
      intro d _ hle
      exact hn d (by omega)
    | succ k ih =>
      intro d hd hle
      have hbefore : (firstBefore d).day = 1 := day_firstBefore d
      have hafter : firstAfter (firstBefore d) = d := by
        rw [firstAfter_firstBefore, firstOfMonth_self hd]
      have hordinal := toordinal_firstAfter hbefore
      have hdays := daysInMonth_ge (firstBefore d).year (firstBefore d).month
      have hcount := @count_month zone _ hbefore table
      rw [hafter] at hordinal hcount
      have hprevious := ih (firstBefore d) hbefore (by omega)
      have hsame := h (firstBefore d) hbefore
      omega
  exact hrun (d.toordinal - n).toNat d hd (by omega)

theorem repeated_eq_zero_iff : repeated zone table d = 0 ↔ ∀ s ∈ table, ¬ zone.Repeats d s.ts := by
  rw [repeated, List.countP_eq_zero]
  simp only [decide_eq_true_eq]

end Months

section Laws

variable {F : Type} (zone : SessionZone) (table : List PoolSample)

/-- What holds of a view of the slots and of its function of a period. -/
structure SlotLaws (between : Timestamp → Timestamp → List (SlotRow F)) (view : List (SlotRow F))
    (figures : List SampleDay → F) (count : F → ℕ) : Prop where
  months : ∀ d : Date, d.day = 1 →
    ((between (.finite (zone.starts d)) (.finite (zone.starts (firstAfter d)))).map
        SlotRow.slot).Perm
      ((view.filter fun row => decide (row.month = some (zone.starts d))).map SlotRow.slot)
  once : ∀ since stop, ((between since stop).map fun row => (row.dayType, row.hour)).Nodup
  weekdays : ∀ since stop hour,
    sumOver (fun row => (count row.figures : ℤ))
        ((between since stop).filter fun row =>
          decide (row.dayType ∈ WEEKDAYS) && decide (row.hour = hour)) =
      ((poolSampleDaysBetween zone table since stop).filter fun r => decide (r.hour = hour)).length
  default : ∀ since stop hour,
    (((between since stop).filter fun row =>
          decide (row.dayType = "default") && decide (row.hour = hour)).map SlotRow.slot) =
      if workingDays hour (poolSampleDaysBetween zone table since stop) = [] then []
      else [("default", hour,
        figures (workingDays hour (poolSampleDaysBetween zone table since stop)))]

/-- No sample of the table shows a month that the clock will go back over the beginning of. -/
def NoneRepeated : Prop := ∀ s ∈ table, ∀ d : Date, d.day = 1 → ¬ zone.Repeats d s.ts

variable {zone table} {figures : List SampleDay → F} {count : F → ℕ}

/-- The rows of a month in the whole history. -/
theorem slots_of_view (d : Date) :
    ((slotRows figures (monthColumn true)
        (poolSampleDaysBetween zone table .negInfinity .infinity)).filter fun row =>
        decide (row.month = some (zone.starts d))).map SlotRow.slot =
      slots figures ((table.filter (labelled zone d)).map (poolSampleDay zone)) := by
  have hall : table.filter (within .negInfinity .infinity) = table := by
    apply List.filter_eq_self.mpr
    intro s _
    rfl
  rw [slots_of_month, poolSampleDaysBetween, hall, List.filter_map]
  congr 2
  apply List.filter_congr
  intro s _
  exact decide_eq_decide.mpr (Option.some_inj (a := zone.dateTruncMonth s.ts))

theorem slots_of_window (d : Date) :
    (slotRows figures (monthColumn false) (poolSampleDaysBetween zone table
        (.finite (zone.starts d)) (.finite (zone.starts (firstAfter d))))).map SlotRow.slot =
      slots figures ((table.filter (windowed zone d)).map (poolSampleDay zone)) :=
  slots_of_period _

theorem length_of_perm (hcount : ∀ rows, count (figures rows) = rows.length)
    {l m : List PoolSample} (h : (slots figures (l.map (poolSampleDay zone))).Perm
      (slots figures (m.map (poolSampleDay zone)))) : l.length = m.length := by
  have hsamples (k : List PoolSample) : sumOver (fun slot => (count slot.2.2 : ℤ))
      ((slots figures (k.map (poolSampleDay zone))).filter fun slot =>
        decide (slot.1 ∈ WEEKDAYS) && true) = k.length := by
    rw [samples_of_weekdays hcount fun _ => true, List.filter_true, List.length_map]
  have hsum := sumOver_perm (w := fun slot => (count slot.2.2 : ℤ))
    (h.filter fun slot => decide (slot.1 ∈ WEEKDAYS) && true)
  rw [hsamples, hsamples] at hsum
  exact_mod_cast hsum

/-- The months of the whole history are those of the windows when none is repeated. -/
theorem months_iff (hcount : ∀ rows, count (figures rows) = rows.length) :
    (∀ d : Date, d.day = 1 →
      ((slotRows figures (monthColumn false) (poolSampleDaysBetween zone table
          (.finite (zone.starts d)) (.finite (zone.starts (firstAfter d))))).map
          SlotRow.slot).Perm
        (((slotRows figures (monthColumn true)
          (poolSampleDaysBetween zone table .negInfinity .infinity)).filter
          fun row => decide (row.month = some (zone.starts d))).map SlotRow.slot)) ↔
      NoneRepeated zone table := by
  constructor
  · intro h s hs d hd
    apply repeated_eq_zero_iff.mp _ s hs
    apply repeated_eq_zero _ hd
    intro e he
    have hperm := h e he
    rw [slots_of_window, slots_of_view] at hperm
    rw [List.countP_eq_length_filter, List.countP_eq_length_filter]
    exact (length_of_perm hcount hperm).symm
  · intro hnone d hd
    rw [slots_of_window, slots_of_view]
    have hsame : table.filter (windowed zone d) = table.filter (labelled zone d) := by
      apply List.filter_congr
      intro s hs
      rw [Bool.eq_iff_iff, windowed_iff, labelled, decide_eq_true_eq]
      exact (SessionZone.dateTruncMonth_iff_window hd (hnone s hs d hd)
        (hnone s hs (firstAfter d) (day_firstAfter d))).symm
    rw [hsame]

theorem slotLaws_iff (hcount : ∀ rows, count (figures rows) = rows.length) :
    SlotLaws zone table
        (fun since stop => slotRows figures (monthColumn false)
          (poolSampleDaysBetween zone table since stop))
        (slotRows figures (monthColumn true)
          (poolSampleDaysBetween zone table .negInfinity .infinity)) figures count ↔
      NoneRepeated zone table := by
  constructor
  · intro h
    exact (months_iff hcount).mp h.months
  · intro hnone
    have hslots (since stop : Timestamp) :
        (slotRows figures (monthColumn false) (poolSampleDaysBetween zone table since stop)).map
            SlotRow.slot = slots figures (poolSampleDaysBetween zone table since stop) :=
      slots_of_period _
    constructor
    · exact (months_iff hcount).mpr hnone
    · intro since stop
      have hnodup := @nodup_slots F figures zone (table.filter (within since stop))
      rw [← poolSampleDaysBetween, ← hslots, List.map_map] at hnodup
      exact hnodup
    · intro since stop hour
      have hsum := @samples_of_weekdays F figures count hcount (fun h => decide (h = hour)) zone
        (table.filter (within since stop))
      rw [← poolSampleDaysBetween, ← hslots, List.filter_map, sumOver_map] at hsum
      exact hsum
    · intro since stop hour
      have hslot := @slot_of_workingDays F figures zone (table.filter (within since stop)) hour
      rw [← poolSampleDaysBetween, ← hslots, List.filter_map] at hslot
      exact hslot

end Laws

section Views

variable (zone : SessionZone) (percentileCont : ℚ → List ℤ → ℚ) (table : List PoolSample)

/-- The laws of the three views of the slots. -/
structure PoolLaws : Prop where
  profile : SlotLaws zone table (poolProfileBetween zone percentileCont table)
    (poolProfile zone percentileCont table) (profileFigures percentileCont) ProfileFigures.samples
  pressure : SlotLaws zone table (poolPressureBetween zone table) (poolPressure zone table)
    pressureFigures PressureFigures.samples
  concurrency : SlotLaws zone table (hourlyConcurrencyBetween zone percentileCont table)
    (hourlyConcurrency zone percentileCont table) (concurrencyFigures percentileCont)
    ConcurrencyFigures.samples

/-- The slots keep their laws on the tables of which no sample is in a month repeated. -/
theorem slots_match_iff : PoolLaws zone percentileCont table ↔ NoneRepeated zone table := by
  constructor
  · intro h
    exact (slotLaws_iff samples_pressureFigures).mp h.pressure
  · intro hnone
    constructor
    · exact (slotLaws_iff (samples_profileFigures percentileCont)).mpr hnone
    · exact (slotLaws_iff samples_pressureFigures).mpr hnone
    · exact (slotLaws_iff (samples_concurrencyFigures percentileCont)).mpr hnone

end Views

/-- The percentile between the two values around its place. -/
def interpolated (fraction : ℚ) (values : List ℤ) : ℚ :=
  let place := fraction * (values.length - 1)
  let lower : ℚ := values.getD place.floor.toNat 0
  let upper : ℚ := values.getD place.ceil.toNat 0
  lower + (place - place.floor) * (upper - lower)

def november : Date := .first 2026 11 (by decide) (by decide)

def havanaClock (t : ℤ) : ℤ :=
  if t < midnight november + 5 * hourUs then t - 4 * hourUs else t - 5 * hourUs

def havanaInstant (wall : ℤ) : ℤ :=
  if wall < midnight november then wall + 4 * hourUs else wall + 5 * hourUs

theorem havana_settled {wall t : ℤ} (h : havanaInstant wall ≤ t) : wall ≤ havanaClock t := by
  have hhour : 0 < hourUs := by decide
  unfold havanaInstant at h
  unfold havanaClock
  split at h <;> split <;> omega

theorem havana_begun {wall t : ℤ} (h : wall + 2 * dayUs ≤ havanaClock t) :
    havanaInstant wall < t := by
  have hhour : 0 < hourUs := by decide
  have hday : dayUs = 24 * hourUs := by decide
  unfold havanaClock at h
  unfold havanaInstant
  split at h <;> split <;> omega

/-- A zone four hours behind that puts its clock back from one o'clock to midnight on
1 November 2026, as `America/Havana` does. -/
def havana : SessionZone where
  clock := havanaClock
  instant := havanaInstant
  settled := havana_settled
  begun := havana_begun

/-- Half past midnight, for the first time. -/
def firstPassage : PoolSample where
  ts := midnight november + 4 * hourUs + 1800 * 1000000
  intervalS := 60
  free := 1
  idle := 0
  ivr := 0
  inCall := 1

theorem havana_repeats : havana.Repeats november firstPassage.ts := by
  have hhour : hourUs = 3600000000 := by decide
  have hinstant : havanaInstant (midnight november) = midnight november + 5 * hourUs := by
    rw [havanaInstant, if_neg (lt_irrefl _)]
  have hbefore : firstPassage.ts < midnight november + 5 * hourUs := by
    change midnight november + 4 * hourUs + 1800 * 1000000 < _
    omega
  have hclock : havanaClock firstPassage.ts = firstPassage.ts - 4 * hourUs := by
    rw [havanaClock, if_pos hbefore]
  constructor
  · change midnight november ≤ havanaClock firstPassage.ts
    rw [hclock]
    change midnight november ≤ midnight november + 4 * hourUs + 1800 * 1000000 - 4 * hourUs
    omega
  · change firstPassage.ts < havanaInstant (midnight november)
    rw [hinstant]
    exact hbefore

/-- The view has the sample in November, and the window of November does not. -/
theorem havana_november : ¬ PoolLaws havana interpolated [firstPassage] := by
  intro h
  have hnone := (slotLaws_iff samples_pressureFigures).mp h.pressure
  exact hnone firstPassage List.mem_cons_self november rfl havana_repeats

end PoolSlots
