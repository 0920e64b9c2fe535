import Mathlib.Data.Rat.Floor
import Mathlib.Tactic.Linarith
import SIPMediaGW.PoolSlots

/-! # The hours of the pool

The VM-hours of a month: the view of the months and its route, and the route of a period. -/
namespace PoolHours

open Calendar
open CallsTable
open GroupedSums
open OrderedQuery
open PeriodWindows
open PoolSlots
open QualityCounts
open SessionZones

/-- `ROUND(SUM(… * interval_s) / 3600.0, 1)`. -/
def hours (f : PoolSample → ℤ) (rows : List PoolSample) : ℚ :=
  roundOneDigit (sumOver (fun s => f s * s.intervalS) rows / 3600)

/-- `EXTRACT(epoch FROM stop - since)`, in seconds. -/
def epoch (since stop : ℤ) : ℚ := (stop - since : ℤ) / 1000000

/-- The columns of `monthly_pool_hours`, under an instant or a date. -/
structure MonthHours (μ : Type) where
  month : μ
  freeHours : ℚ
  idleHours : ℚ
  ivrHours : ℚ
  callHours : ℚ
  provisionedHours : ℚ
  runningHours : ℚ
  utilisationPct : Option ℚ
  provisionedPeak : ℤ
  busyPeak : ℤ
  samples : ℕ
  coveragePct : Option ℚ

/-- The answer of the route of a period. -/
structure PeriodHours where
  label : String
  provisionedHours : ℚ
  callHours : ℚ
  coveragePct : Option ℚ

section Routes

variable (zone : SessionZone) (now : ℤ) (table : List PoolSample)

/-- The share of a month sampled: as many samples as there are, of the largest interval. -/
def monthCoverage (month : ℤ) (rows : List PoolSample) : Option ℚ :=
  (ratio (100 * rows.length * largest PoolSample.intervalS rows)
    (epoch month (min (zone.plusMonth month) now))).map roundOneDigit

def monthHours (g : ℤ × List PoolSample) : MonthHours ℤ where
  month := g.1
  freeHours := hours PoolSample.free g.2
  idleHours := hours PoolSample.idle g.2
  ivrHours := hours PoolSample.ivr g.2
  callHours := hours PoolSample.inCall g.2
  provisionedHours := hours PoolSample.provisioned g.2
  runningHours := hours PoolSample.running g.2
  utilisationPct := (ratio (100 * sumOver (fun s => s.busy * s.intervalS) g.2)
    (sumOver (fun s => s.provisioned * s.intervalS) g.2)).map roundOneDigit
  provisionedPeak := largest PoolSample.provisioned g.2
  busyPeak := largest PoolSample.busy g.2
  samples := g.2.length
  coveragePct := monthCoverage zone now g.1 g.2

def monthlyPoolHours : List (MonthHours ℤ) :=
  (groupBy (fun s => zone.dateTruncMonth s.ts) table).map (monthHours zone now)

/-- `window`: so many whole months back from this month. -/
def window (today : Date) (months : ℕ) : Date :=
  (fun first => (first.subDays 1).firstOfMonth)^[months - 1] today.firstOfMonth

/-- `month::date`. -/
def onDate (row : MonthHours ℤ) : MonthHours Date :=
  { row with month := dateOf (zone.clock row.month) }

def poolHours (today : Date) (months : ℕ) : List (MonthHours Date) :=
  (orderBy MonthHours.month ((monthlyPoolHours zone now table).filter fun row =>
    decide (zone.starts (window today months) ≤ row.month))).map (onDate zone)

/-- The share of a period sampled: the intervals of its samples. -/
def periodCoverage (since stop : ℤ) (rows : List PoolSample) : Option ℚ :=
  (ratio (100 * sumOver PoolSample.intervalS rows)
    (max (epoch since (min stop now)) 0)).map roundOneDigit

def periodHours (p : Period) : PeriodHours :=
  let since := zone.starts p.since
  let stop := zone.starts p.stop
  let rows := table.filter (within (.finite since) (.finite stop))
  { label := p.label
    provisionedHours := hours PoolSample.provisioned rows
    callHours := hours PoolSample.inCall rows
    coveragePct := periodCoverage now since stop rows }

def poolPeriodHours (today : Date) (period : Option String) : Except Refusal PeriodHours :=
  (resolvePeriod period today).map (periodHours zone now table)

end Routes

section Intervals

variable {f : PoolSample → ℤ} {rows : List PoolSample}

theorem largest_spec (h : rows ≠ []) :
    largest f rows ∈ rows.map f ∧ ∀ s ∈ rows, f s ≤ largest f rows := by
  obtain ⟨m, hm⟩ := Option.isSome_iff_exists.mp
    (List.isSome_max?_of_ne_nil (mt List.map_eq_nil_iff.mp h) : (rows.map f).max?.isSome)
  have hlargest : largest f rows = m := by rw [largest, hm, Option.getD_some]
  obtain ⟨hmem, hle⟩ := List.max?_eq_some_iff.mp hm
  rw [hlargest]
  exact ⟨hmem, fun s hs => hle (f s) (List.mem_map_of_mem hs)⟩

/-- As many of the largest as there are come to the sum when all are the same. -/
theorem sumOver_eq_largest_iff (h : rows ≠ []) :
    sumOver f rows = rows.length * largest f rows ↔ ∀ s ∈ rows, ∀ s' ∈ rows, f s = f s' := by
  obtain ⟨hmem, hle⟩ := @largest_spec f rows h
  rw [sumOver_eq_iff hle]
  constructor
  · intro hall s hs s' hs'
    rw [hall s hs, hall s' hs']
  · intro hall s hs
    obtain ⟨s', hs', heq⟩ := List.mem_map.mp hmem
    rw [hall s hs s' hs', heq]

theorem roundHalfUp_le_iff (q : ℚ) (n : ℕ) : roundHalfUp q ≤ n ↔ q < n + 1 / 2 := by
  have hn : (0 : ℚ) ≤ n := Nat.cast_nonneg n
  rw [roundHalfUp]
  split
  · rw [← Int.lt_add_one_iff, Rat.floor_lt_iff, Int.cast_add, Int.cast_natCast, Int.cast_one]
    constructor <;> intro h <;> linarith
  · next hneg =>
    have hfloor : (0 : ℤ) ≤ (-q + 1 / 2).floor := Rat.le_floor_iff.mpr (by norm_num; linarith)
    exact iff_of_true (by omega) (by linarith)

theorem roundHalfUp_lt_iff (q : ℚ) (n : ℕ) :
    roundHalfUp q < -n ↔ q ≤ -((n : ℚ) + 1 / 2) := by
  have hn : (0 : ℚ) ≤ n := Nat.cast_nonneg n
  rw [roundHalfUp]
  split
  · have hfloor : (0 : ℤ) ≤ (q + 1 / 2).floor := Rat.le_floor_iff.mpr (by norm_num; linarith)
    exact iff_of_false (by omega) (by linarith)
  · rw [neg_lt_neg_iff, ← Int.add_one_le_iff, Rat.le_floor_iff, Int.cast_add, Int.cast_natCast,
      Int.cast_one]
    constructor <;> intro h <;> linarith

/-- One passes a half of its unit where the other passes that half of its own. -/
def SameSteps (unit unit' a b : ℚ) : Prop :=
  ∀ n : ℕ, (a < (n + 1 / 2) * unit ↔ b < (n + 1 / 2) * unit') ∧
    (a ≤ -((n + 1 / 2) * unit) ↔ b ≤ -((n + 1 / 2) * unit'))

theorem roundHalfUp_eq_iff {unit unit' a b : ℚ} (hunit : 0 < unit) (hunit' : 0 < unit') :
    roundHalfUp (a / unit) = roundHalfUp (b / unit') ↔ SameSteps unit unit' a b := by
  have habove (n : ℕ) : (roundHalfUp (a / unit) ≤ n ↔ roundHalfUp (b / unit') ≤ n) ↔
      (a < (n + 1 / 2) * unit ↔ b < (n + 1 / 2) * unit') := by
    rw [roundHalfUp_le_iff, roundHalfUp_le_iff, div_lt_iff₀ hunit, div_lt_iff₀ hunit']
  have hbelow (n : ℕ) : (roundHalfUp (a / unit) < -n ↔ roundHalfUp (b / unit') < -n) ↔
      (a ≤ -((n + 1 / 2) * unit) ↔ b ≤ -((n + 1 / 2) * unit')) := by
    rw [roundHalfUp_lt_iff, roundHalfUp_lt_iff, div_le_iff₀ hunit, div_le_iff₀ hunit', neg_mul,
      neg_mul]
  constructor
  · intro h n
    rw [← habove, ← hbelow, h]
    exact ⟨Iff.rfl, Iff.rfl⟩
  · intro h
    have hle (m : ℤ) : roundHalfUp (a / unit) ≤ m ↔ roundHalfUp (b / unit') ≤ m := by
      cases m with
      | ofNat n => exact (habove n).mpr (h n).1
      | negSucc n =>
        have hlt := (hbelow n).mpr (h n).2
        omega
    exact le_antisymm ((hle _).mpr le_rfl) ((hle _).mp le_rfl)

theorem SameSteps.refl {unit a : ℚ} : SameSteps unit unit a a := fun _ => ⟨Iff.rfl, Iff.rfl⟩

theorem SameSteps.symm {unit unit' a b : ℚ} (h : SameSteps unit unit' a b) :
    SameSteps unit' unit b a := fun n => ⟨(h n).1.symm, (h n).2.symm⟩

/-- Between two units that are passed alike a third one is. -/
theorem SameSteps.between {unit unit' mid a : ℚ} (h : SameSteps unit unit' a a)
    (hfrom : unit ≤ mid) (hto : mid ≤ unit') : SameSteps unit mid a a := by
  intro n
  have hn : (0 : ℚ) ≤ n + 1 / 2 := by positivity
  have hfrom := mul_le_mul_of_nonneg_left hfrom hn
  have hto := mul_le_mul_of_nonneg_left hto hn
  obtain ⟨habove, hbelow⟩ := h n
  constructor
  · exact ⟨fun h => h.trans_le hfrom, fun h => habove.mpr (h.trans_le hto)⟩
  · exact ⟨fun h => (hbelow.mp h).trans (neg_le_neg hto), fun h => h.trans (neg_le_neg hfrom)⟩

theorem roundHalfUp_intCast (n : ℤ) : roundHalfUp n = n := by
  have hfloor (m : ℤ) : ((m : ℚ) + 1 / 2).floor = m := by
    change ⌊(m : ℚ) + 1 / 2⌋ = m
    apply Int.floor_eq_iff.mpr
    constructor <;> linarith
  rw [roundHalfUp]
  split
  · exact hfloor n
  · rw [← Int.cast_neg, hfloor, neg_neg]

theorem roundOneDigit_inj {p q : ℚ} :
    roundOneDigit p = roundOneDigit q ↔ roundHalfUp (p * 10) = roundHalfUp (q * 10) := by
  rw [roundOneDigit, roundOneDigit, div_left_inj' (by norm_num), Int.cast_inj]

end Intervals

section Months

variable {zone : SessionZone} {now : ℤ} {table : List PoolSample} {d : Date}

/-- The samples that the view labels with a month. -/
def monthSamples (zone : SessionZone) (table : List PoolSample) (d : Date) : List PoolSample :=
  table.filter (labelled zone d)

/-- The samples that the route of a period reads for it. -/
def windowSamples (zone : SessionZone) (table : List PoolSample) (d : Date) : List PoolSample :=
  table.filter (windowed zone d)

/-- The figures that both routes have. -/
structure SameFigures (row : MonthHours Date) (answer : PeriodHours) : Prop where
  provisioned : answer.provisionedHours = row.provisionedHours
  call : answer.callHours = row.callHours
  coverage : answer.coveragePct = row.coveragePct

/-- The routes agree on a month, wherever it is among the months and however it is named. -/
structure HoursAgree (zone : SessionZone) (now : ℤ) (table : List PoolSample) (d : Date) :
    Prop where
  sampled : ∀ today months period label, 1 ≤ months ∧ months ≤ 60 →
    (window today months).toordinal ≤ d.toordinal →
    resolvePeriod period today = .ok ⟨d, firstAfter d, label⟩ → monthSamples zone table d ≠ [] →
    ∃ answer row, poolPeriodHours zone now table today period = .ok answer ∧
      (poolHours zone now table today months).filter
        (fun row => decide (row.month.firstOfMonth = d)) = [row] ∧
      SameFigures row answer
  unsampled : ∀ today period label, resolvePeriod period today = .ok ⟨d, firstAfter d, label⟩ →
    monthSamples zone table d = [] →
    ∃ answer, poolPeriodHours zone now table today period = .ok answer ∧
      answer.provisionedHours = 0 ∧ answer.callHours = 0

/-- The VM-seconds of the samples labelled with a month, and of those in its window, pass the same
halves of a tenth of an hour. -/
structure SameHours (zone : SessionZone) (table : List PoolSample) (d : Date) : Prop where
  provisioned : SameSteps 360 360
    (sumOver (fun s => s.provisioned * s.intervalS) (windowSamples zone table d))
    (sumOver (fun s => s.provisioned * s.intervalS) (monthSamples zone table d))
  call : SameSteps 360 360 (sumOver (fun s => s.inCall * s.intervalS) (windowSamples zone table d))
    (sumOver (fun s => s.inCall * s.intervalS) (monthSamples zone table d))

/-- The seconds of a month from its beginning, to the same time a month later and to the beginning
of the next one. -/
def wholeMonth (zone : SessionZone) (d : Date) : ℚ :=
  epoch (zone.starts d) (zone.plusMonth (zone.starts d))

def wholePeriod (zone : SessionZone) (d : Date) : ℚ :=
  epoch (zone.starts d) (zone.starts (firstAfter d))

/-- The intervals in the window are as many of the largest one as the month has samples, and pass
the same halves of a tenth of a percent of both lengths of the month. -/
structure SameShare (zone : SessionZone) (table : List PoolSample) (d : Date) : Prop where
  sampled : sumOver PoolSample.intervalS (windowSamples zone table d) =
    (monthSamples zone table d).length * largest PoolSample.intervalS (monthSamples zone table d)
  length : SameSteps (wholePeriod zone d / 1000) (wholeMonth zone d / 1000)
    (sumOver PoolSample.intervalS (windowSamples zone table d))
    (sumOver PoolSample.intervalS (windowSamples zone table d))

structure Accounted (zone : SessionZone) (table : List PoolSample) (d : Date) : Prop where
  hours : SameHours zone table d
  share : monthSamples zone table d ≠ [] → SameShare zone table d

/-- The clock is neither put back over the ends of a month, at a sample, nor put forward over the
first of them. -/
structure Steady (zone : SessionZone) (table : List PoolSample) (d : Date) : Prop where
  start : zone.clock (zone.starts d) = midnight d
  since : ∀ s ∈ table, ¬ zone.Repeats d s.ts
  stop : ∀ s ∈ table, ¬ zone.Repeats (firstAfter d) s.ts

theorem day_window (today : Date) (months : ℕ) : (window today months).day = 1 := by
  rw [window]
  cases months - 1 with
  | zero => rfl
  | succ n =>
    rw [Function.iterate_succ_apply']
    rfl

theorem starts_le {e : Date} (hd : d.day = 1) (he : e.day = 1) (h : d.toordinal ≤ e.toordinal) :
    zone.starts d ≤ zone.starts e := by
  rcases h.lt_or_eq with hlt | heq
  · exact (SessionZone.starts_lt hd he hlt).le
  · rw [toordinal_injective heq]

/-- At the start of a month its clock shows the first or the second day of it. -/
theorem month_of_starts (hd : d.day = 1) :
    (dateOf (zone.clock (zone.starts d))).firstOfMonth = d := by
  have hsettled : midnight d ≤ zone.clock (zone.starts d) := zone.settled le_rfl
  have hmonth := midnight_firstAfter hd
  have hday : 0 < dayUs := by decide
  apply (month_iff hd).mpr ⟨hsettled, _⟩
  by_contra hlate
  have hbegun : zone.starts d < zone.starts d := zone.begun (by omega)
  exact lt_irrefl _ hbegun

/-- A row of the view that is shown under a day of a month is that of the month. -/
theorem month_iff_date {row : MonthHours ℤ} (hd : d.day = 1)
    (h : row ∈ monthlyPoolHours zone now table) :
    (dateOf (zone.clock row.month)).firstOfMonth = d ↔ row.month = zone.starts d := by
  obtain ⟨g, hg, rfl⟩ := List.mem_map.mp h
  obtain ⟨⟨s, -, hmonth⟩, -⟩ := mem_groupBy.mp hg
  have hlabel : (monthHours zone now g).month =
      zone.starts (dateOf (zone.clock s.ts)).firstOfMonth := hmonth.symm
  rw [hlabel, month_of_starts rfl, SessionZone.starts_inj rfl hd]

/-- The route of the months has one row for a month with a sample. -/
theorem poolHours_filter {today : Date} {months : ℕ} (hd : d.day = 1)
    (hwindow : (window today months).toordinal ≤ d.toordinal)
    (hsome : monthSamples zone table d ≠ []) :
    (poolHours zone now table today months).filter
        (fun row => decide (row.month.firstOfMonth = d)) =
      [onDate zone (monthHours zone now (zone.starts d, monthSamples zone table d))] := by
  let view := (monthlyPoolHours zone now table).filter fun row =>
    decide (zone.starts (window today months) ≤ row.month)
  have hfrom : zone.starts (window today months) ≤ zone.starts d :=
    starts_le (day_window today months) hd hwindow
  have hone : view.filter (fun row => decide (row.month = zone.starts d)) =
      [monthHours zone now (zone.starts d, monthSamples zone table d)] := by
    have hboth : view.filter (fun row => decide (row.month = zone.starts d)) =
        (monthlyPoolHours zone now table).filter fun row =>
          decide (row.month = zone.starts d) := by
      rw [List.filter_filter]
      apply List.filter_congr
      intro row _
      by_cases hmonth : row.month = zone.starts d
      · rw [hmonth, decide_eq_true hfrom, Bool.and_true]
      · rw [decide_eq_false hmonth, Bool.false_and]
    rw [hboth, monthlyPoolHours, List.filter_map]
    have hgroup := (filter_groupBy (fun s : PoolSample => zone.dateTruncMonth s.ts)
      (zone.starts d) table).trans (if_neg hsome)
    exact congrArg (List.map (monthHours zone now)) hgroup
  have hdates : (orderBy MonthHours.month view).filter
        (fun row => decide ((dateOf (zone.clock row.month)).firstOfMonth = d)) =
      (orderBy MonthHours.month view).filter fun row => decide (row.month = zone.starts d) := by
    apply List.filter_congr
    intro row hrow
    have hview := (List.mem_filter.mp (mem_orderBy.mp hrow)).1
    exact decide_eq_decide.mpr (month_iff_date hd hview)
  have hperm := (orderBy_perm MonthHours.month view).filter fun row =>
    decide (row.month = zone.starts d)
  rw [hone, List.perm_singleton] at hperm
  rw [poolHours, List.filter_map]
  change ((orderBy MonthHours.month view).filter
    fun row => decide ((dateOf (zone.clock row.month)).firstOfMonth = d)).map (onDate zone) = _
  rw [hdates, hperm, List.map_singleton]

theorem hours_eq_iff {f : PoolSample → ℤ} {rows rows' : List PoolSample} :
    hours f rows = hours f rows' ↔ SameSteps 360 360 (sumOver (fun s => f s * s.intervalS) rows)
      (sumOver (fun s => f s * s.intervalS) rows') := by
  have htenth (a : ℚ) : a / 3600 * 10 = a / 360 := by ring
  rw [hours, hours, roundOneDigit_inj, htenth, htenth,
    roundHalfUp_eq_iff (by norm_num) (by norm_num)]

theorem hours_nil (f : PoolSample → ℤ) : hours f [] = 0 := by
  have hzero : roundOneDigit 0 = 0 := by decide +kernel
  have hnothing : sumOver (fun s => f s * s.intervalS) [] = 0 := rfl
  rw [hours, hnothing, Int.cast_zero, zero_div, hzero]

theorem epoch_pos {since stop : ℤ} (h : since < stop) : 0 < epoch since stop := by
  apply div_pos _ (by norm_num)
  exact_mod_cast Int.sub_pos_of_lt h

theorem epoch_le {since stop stop' : ℤ} (h : stop ≤ stop') :
    epoch since stop ≤ epoch since stop' := by
  apply div_le_div_of_nonneg_right _ (by norm_num)
  exact_mod_cast Int.sub_le_sub_right h since

theorem starts_lt_plusMonth : zone.starts d < zone.plusMonth (zone.starts d) := by
  have hclock : monthLater (zone.clock (zone.starts d)) ≤
      zone.clock (zone.plusMonth (zone.starts d)) := zone.settled le_rfl
  have hlate := monthLater_late (zone.clock (zone.starts d))
  have hmidnight : midnight d ≤ zone.clock (zone.starts d) := zone.settled le_rfl
  apply zone.begun
  omega

/-- The shares of a month that has begun. -/
theorem coverage_eq_iff (hd : d.day = 1) (hnow : zone.starts d < now) :
    periodCoverage now (zone.starts d) (zone.starts (firstAfter d)) (windowSamples zone table d) =
        monthCoverage zone now (zone.starts d) (monthSamples zone table d) ↔
      SameSteps (epoch (zone.starts d) (min (zone.starts (firstAfter d)) now) / 1000)
        (epoch (zone.starts d) (min (zone.plusMonth (zone.starts d)) now) / 1000)
        (sumOver PoolSample.intervalS (windowSamples zone table d))
        ((monthSamples zone table d).length *
          largest PoolSample.intervalS (monthSamples zone table d)) := by
  have hperiod := epoch_pos (lt_min (SessionZone.starts_firstAfter hd) hnow)
  have hmonth := epoch_pos (lt_min starts_lt_plusMonth hnow)
  have htenth (a unit : ℚ) : 100 * a / unit * 10 = a / (unit / 1000) := by
    rw [div_div_eq_mul_div]
    ring
  rw [periodCoverage, monthCoverage, max_eq_left hperiod.le, ratio, ratio, if_neg hperiod.ne',
    if_neg hmonth.ne', Option.map_some, Option.map_some, Option.some_inj, roundOneDigit_inj,
    mul_assoc, htenth, htenth, roundHalfUp_eq_iff (by positivity) (by positivity)]

/-- At the beginning of a month neither route has a share. -/
theorem coverage_begins (hd : d.day = 1) :
    periodCoverage (zone.starts d) (zone.starts d) (zone.starts (firstAfter d))
        (windowSamples zone table d) =
      monthCoverage zone (zone.starts d) (zone.starts d) (monthSamples zone table d) := by
  have hzero : epoch (zone.starts d) (zone.starts d) = 0 := by
    rw [epoch, Int.sub_self, Int.cast_zero, zero_div]
  rw [periodCoverage, monthCoverage, min_eq_right (SessionZone.starts_firstAfter hd).le,
    min_eq_right starts_lt_plusMonth.le, hzero, max_self, ratio, ratio, if_pos rfl, if_pos rfl]

/-- Before it the view has a negative one. -/
theorem coverage_differs (hnow : now < zone.starts d) :
    periodCoverage now (zone.starts d) (zone.starts (firstAfter d)) (windowSamples zone table d) ≠
      monthCoverage zone now (zone.starts d) (monthSamples zone table d) := by
  have hnegative {stop : ℤ} : epoch (zone.starts d) (min stop now) < 0 := by
    have hlt : min stop now < zone.starts d := (min_le_right _ _).trans_lt hnow
    apply div_neg_of_neg_of_pos _ (by norm_num)
    exact_mod_cast Int.sub_neg_of_lt hlt
  rw [periodCoverage, monthCoverage, max_eq_right hnegative.le, ratio, ratio, if_pos rfl,
    if_neg hnegative.ne]
  exact (Option.some_ne_none _).symm

/-- The period `month`, on the first day of one. -/
theorem resolvePeriod_thisMonth (hd : d.day = 1) :
    resolvePeriod (some "month") d = .ok ⟨d, firstAfter d, String.ofList (isoMonth d)⟩ := by
  have hperiod : resolvePeriod (some "month") d =
      .ok (monthPeriod d.firstOfMonth (isoMonth d.firstOfMonth)) := rfl
  rw [hperiod, firstOfMonth_self hd, monthPeriod, nextMonth_eq hd]

theorem sameFigures_iff {label : String} :
    SameFigures (onDate zone (monthHours zone now (zone.starts d, monthSamples zone table d)))
        (periodHours zone now table ⟨d, firstAfter d, label⟩) ↔
      SameHours zone table d ∧
        periodCoverage now (zone.starts d) (zone.starts (firstAfter d))
            (windowSamples zone table d) =
          monthCoverage zone now (zone.starts d) (monthSamples zone table d) := by
  constructor
  · intro h
    exact ⟨⟨hours_eq_iff.mp h.provisioned, hours_eq_iff.mp h.call⟩, h.coverage⟩
  · rintro ⟨hhours, hcoverage⟩
    exact ⟨hours_eq_iff.mpr hhours.provisioned, hours_eq_iff.mpr hhours.call, hcoverage⟩

/-- At one instant: the hours, and the share of a month that has a sample. -/
theorem hoursAgree_iff (hd : d.day = 1) : HoursAgree zone now table d ↔
    SameHours zone table d ∧ (monthSamples zone table d ≠ [] →
      periodCoverage now (zone.starts d) (zone.starts (firstAfter d)) (windowSamples zone table d) =
        monthCoverage zone now (zone.starts d) (monthSamples zone table d)) := by
  constructor
  · intro h
    by_cases hsome : monthSamples zone table d = []
    · obtain ⟨answer, hanswer, hprovisioned, hcall⟩ :=
        h.unsampled d (some "month") _ (resolvePeriod_thisMonth hd) hsome
      rw [poolPeriodHours, resolvePeriod_thisMonth hd] at hanswer
      obtain rfl := Except.ok.inj hanswer
      refine ⟨⟨hours_eq_iff.mp ?_, hours_eq_iff.mp ?_⟩, fun hne => absurd hsome hne⟩
      · rw [hsome, hours_nil]
        exact hprovisioned
      · rw [hsome, hours_nil]
        exact hcall
    · have hwindow : (window d 1).toordinal ≤ d.toordinal := by
        change d.firstOfMonth.toordinal ≤ d.toordinal
        rw [firstOfMonth_self hd]
      obtain ⟨answer, row, hanswer, hrow, hsame⟩ := h.sampled d 1 (some "month") _ (by decide)
        hwindow (resolvePeriod_thisMonth hd) hsome
      rw [poolPeriodHours, resolvePeriod_thisMonth hd] at hanswer
      rw [poolHours_filter hd hwindow hsome] at hrow
      obtain rfl := Except.ok.inj hanswer
      obtain rfl := List.singleton_inj.mp hrow
      obtain ⟨hhours, hcoverage⟩ := sameFigures_iff.mp hsame
      exact ⟨hhours, fun _ => hcoverage⟩
  · rintro ⟨hhours, hcoverage⟩
    constructor
    · intro today months period label _ hwindow hperiod hsome
      refine ⟨_, _, ?_, poolHours_filter hd hwindow hsome,
        (@sameFigures_iff zone now table d label).mpr ⟨hhours, hcoverage hsome⟩⟩
      rw [poolPeriodHours, hperiod]
      rfl
    · intro today period label hperiod hnone
      refine ⟨periodHours zone now table ⟨d, firstAfter d, label⟩, ?_, ?_, ?_⟩
      · rw [poolPeriodHours, hperiod]
        rfl
      · have hsame := hours_eq_iff.mpr hhours.provisioned
        rw [hnone, hours_nil] at hsame
        exact hsame
      · have hsame := hours_eq_iff.mpr hhours.call
        rw [hnone, hours_nil] at hsame
        exact hsame

theorem cast_sampled (h : sumOver PoolSample.intervalS (windowSamples zone table d) =
      (monthSamples zone table d).length *
        largest PoolSample.intervalS (monthSamples zone table d)) :
    ((monthSamples zone table d).length *
      largest PoolSample.intervalS (monthSamples zone table d) : ℚ) =
      sumOver PoolSample.intervalS (windowSamples zone table d) := by
  rw [h, Int.cast_mul, Int.cast_natCast]

/-- A microsecond into a month, a second is a hundred million percent. -/
theorem sampled_of_coverage (hd : d.day = 1)
    (h : periodCoverage (zone.starts d + 1) (zone.starts d) (zone.starts (firstAfter d))
        (windowSamples zone table d) =
      monthCoverage zone (zone.starts d + 1) (zone.starts d) (monthSamples zone table d)) :
    sumOver PoolSample.intervalS (windowSamples zone table d) = (monthSamples zone table d).length *
      largest PoolSample.intervalS (monthSamples zone table d) := by
  have hone : epoch (zone.starts d) (zone.starts d + 1) / 1000 = 1 / 1000000000 := by
    rw [epoch, add_sub_cancel_left, Int.cast_one]
    norm_num
  have hsteps := (coverage_eq_iff hd (Int.lt_succ _)).mp h
  rw [min_eq_right (SessionZone.starts_firstAfter hd), min_eq_right starts_lt_plusMonth, hone,
    ← roundHalfUp_eq_iff (by norm_num) (by norm_num)] at hsteps
  have hwhole (n : ℤ) : (n : ℚ) / (1 / 1000000000) = (1000000000 * n : ℤ) := by
    push_cast
    ring
  have hproduct : ((monthSamples zone table d).length *
      largest PoolSample.intervalS (monthSamples zone table d) : ℚ) =
      ((monthSamples zone table d).length *
        largest PoolSample.intervalS (monthSamples zone table d) : ℤ) := by
    push_cast
    rfl
  rw [hproduct, hwhole, hwhole, roundHalfUp_intCast, roundHalfUp_intCast] at hsteps
  omega

theorem SameSteps.elapsed {since stop stop' : ℤ} {a : ℚ} (hle : stop ≤ stop')
    (h : SameSteps (epoch since stop / 1000) (epoch since stop' / 1000) a a) :
    SameSteps (epoch since (min stop now) / 1000) (epoch since (min stop' now) / 1000) a a := by
  have hunit {t t' : ℤ} (htt' : t ≤ t') : epoch since t / 1000 ≤ epoch since t' / 1000 :=
    div_le_div_of_nonneg_right (epoch_le htt') (by norm_num)
  rcases le_total now stop with hnow | hnow
  · rw [min_eq_right hnow, min_eq_right (hnow.trans hle)]
    exact .refl
  · rw [min_eq_left hnow]
    exact h.between (hunit (le_min hle hnow)) (hunit (min_le_left _ _))

/-- The lengths of a month so far are among its two whole lengths. -/
theorem coverage_of_share (hd : d.day = 1) (h : SameShare zone table d)
    (hnow : zone.starts d < now) :
    periodCoverage now (zone.starts d) (zone.starts (firstAfter d)) (windowSamples zone table d) =
      monthCoverage zone now (zone.starts d) (monthSamples zone table d) := by
  rw [coverage_eq_iff hd hnow, cast_sampled h.sampled]
  have hlength := h.length
  rw [wholePeriod, wholeMonth] at hlength
  rcases le_total (zone.starts (firstAfter d)) (zone.plusMonth (zone.starts d)) with hle | hle
  · exact hlength.elapsed hle
  · exact (hlength.symm.elapsed hle).symm

theorem sameShare_iff (hd : d.day = 1) :
    (∀ now, zone.starts d ≤ now → periodCoverage now (zone.starts d) (zone.starts (firstAfter d))
          (windowSamples zone table d) =
        monthCoverage zone now (zone.starts d) (monthSamples zone table d)) ↔
      SameShare zone table d := by
  constructor
  · intro h
    have hsampled := sampled_of_coverage hd (h _ (Int.lt_succ _).le)
    refine ⟨hsampled, ?_⟩
    have hlate := h (max (zone.plusMonth (zone.starts d)) (zone.starts (firstAfter d)))
      (le_max_of_le_left starts_lt_plusMonth.le)
    rw [coverage_eq_iff hd (lt_max_of_lt_left starts_lt_plusMonth), min_eq_left (le_max_right _ _),
      min_eq_left (le_max_left _ _), cast_sampled hsampled] at hlate
    exact hlate
  · intro h now hnow
    rcases hnow.lt_or_eq with hlt | rfl
    · exact coverage_of_share hd h hlt
    · exact coverage_begins hd

theorem windowed_eq_monthSamples (h : Steady zone table d) (hd : d.day = 1) :
    windowSamples zone table d = monthSamples zone table d := by
  apply List.filter_congr
  intro s hs
  rw [Bool.eq_iff_iff, windowed_iff, labelled, decide_eq_true_eq]
  exact (SessionZone.dateTruncMonth_iff_window hd (h.since s hs) (h.stop s hs)).symm

theorem wholeMonth_eq (hd : d.day = 1) (hstart : zone.clock (zone.starts d) = midnight d) :
    wholeMonth zone d = wholePeriod zone d := by
  rw [wholeMonth, wholePeriod, SessionZone.plusMonth, hstart, SessionZone.monthLater_midnight hd]
  rfl

/-- There the accounts agree when the samples of the month have one interval. -/
theorem accounted_iff (hd : d.day = 1) (h : Steady zone table d) :
    Accounted zone table d ↔ ∀ s ∈ monthSamples zone table d, ∀ s' ∈ monthSamples zone table d,
      s.intervalS = s'.intervalS := by
  have hsame := windowed_eq_monthSamples h hd
  by_cases hsome : monthSamples zone table d = []
  · apply iff_of_true
    · refine ⟨⟨?_, ?_⟩, fun hne => absurd hsome hne⟩
      · rw [hsame]
        exact .refl
      · rw [hsame]
        exact .refl
    · rw [hsome]
      intro s hs
      exact absurd hs List.not_mem_nil
  · rw [← sumOver_eq_largest_iff hsome]
    constructor
    · intro haccounted
      have hsampled := (haccounted.share hsome).sampled
      rwa [hsame] at hsampled
    · intro hsum
      refine ⟨⟨?_, ?_⟩, fun _ => ⟨?_, ?_⟩⟩
      · rw [hsame]
        exact .refl
      · rw [hsame]
        exact .refl
      · rw [hsame, hsum]
      · rw [wholeMonth_eq hd h.start]
        exact .refl

end Months

theorem steady_utc (table : List PoolSample) (d : Date) : Steady utc table d := by
  have hnever (e : Date) (t : ℤ) : ¬ utc.Repeats e t := by
    rintro ⟨hfrom, hto⟩
    exact not_lt.mpr hfrom hto
  constructor
  · rfl
  · exact fun s _ => hnever d s.ts
  · exact fun s _ => hnever (firstAfter d) s.ts

def january : Date := .first 2000 1 (Nat.le_refl 1) (Nat.le_add_right 1 11)

/-- A sample of a month, so many seconds after its beginning. -/
def sampleAt (second intervalS : ℤ) : PoolSample where
  ts := midnight january + second * 1000000
  intervalS := intervalS
  free := 1
  idle := 0
  ivr := 0
  inCall := 1

def evenSamples : List PoolSample := [sampleAt 60 60, sampleAt 120 60]

/-- Two samples, the second of twice as many seconds. -/
def unevenSamples : List PoolSample := [sampleAt 60 60, sampleAt 180 120]

theorem monthSamples_uneven : monthSamples utc unevenSamples january = unevenSamples := by
  have hmonth := @midnight_firstAfter january rfl
  have hday : dayUs = 86400000000 := by decide
  apply List.filter_eq_self.mpr
  intro s hs
  apply decide_eq_true
  apply (SessionZone.dateTruncMonth_eq_iff rfl).mpr
  change midnight january ≤ s.ts ∧ s.ts < midnight (firstAfter january)
  rcases List.mem_pair.mp hs with rfl | rfl
  · change midnight january ≤ midnight january + 60 * 1000000 ∧
      midnight january + 60 * 1000000 < midnight (firstAfter january)
    omega
  · change midnight january ≤ midnight january + 180 * 1000000 ∧
      midnight january + 180 * 1000000 < midnight (firstAfter january)
    omega

theorem starts_utc (d : Date) : utc.starts d = midnight d := rfl

theorem plusMonth_utc (t : ℤ) : utc.plusMonth t = monthLater t := rfl

theorem utc_month {now : ℤ} (hnow : now ≤ midnight january + dayUs) :
    min (utc.starts (firstAfter january)) now = now ∧
      min (utc.plusMonth (utc.starts january)) now = now := by
  have hmonth := @midnight_firstAfter january rfl
  have hlate := monthLater_late (midnight january)
  have hday : 0 < dayUs := by decide
  constructor
  · rw [starts_utc, min_eq_right]
    omega
  · rw [plusMonth_utc, starts_utc, min_eq_right]
    omega

end PoolHours
