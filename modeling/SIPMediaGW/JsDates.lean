import SIPMediaGW.PeriodWindows

/-! # Local days of the front end

`new Date(year, month, day)` takes any integers: a month beyond the year, a day beyond the month,
and a year below 100 that it reads as one of the twentieth century. A day is kept as the integer
YYYYMMDD, a month as twelve times its year and its index. -/
namespace JsDates

open Calendar
open PeriodWindows

/-- A day so many days later, or earlier. -/
def shift (d : Date) (n : ℤ) : Date := if 0 ≤ n then d.addDays n.toNat else d.subDays (-n).toNat

theorem monthNumber_pos (index : ℤ) : 1 ≤ (index % 12).toNat + 1 := Nat.succ_pos _

theorem monthNumber_le (index : ℤ) : (index % 12).toNat + 1 ≤ 12 := by omega

/-- The first day of the month at an index, counted from January of year 0. -/
def monthStart (index : ℤ) : Date :=
  Date.first (index / 12) ((index % 12).toNat + 1) (monthNumber_pos index) (monthNumber_le index)

def fullYear (year : ℤ) : ℤ := if 0 ≤ year ∧ year ≤ 99 then 1900 + year else year

/-- `new Date(year, month, day)`. -/
def newDate (year month day : ℤ) : Date := shift (monthStart (fullYear year * 12 + month)) (day - 1)

/-- `getMonth()`. -/
def getMonth (d : Date) : ℤ := d.month - 1

/-- `getDay()`: Sunday is 0. -/
def getDay (d : Date) : ℤ := d.toordinal % 7

def keyOf (d : Date) : ℤ := d.year * 10000 + (getMonth d + 1) * 100 + d.day

def dateOf (key : ℤ) : Date := newDate (key / 10000) ((key / 100).tmod 100 - 1) (key.tmod 100)

def addDays (key n : ℤ) : ℤ :=
  let d := dateOf key
  keyOf (newDate d.year (getMonth d) (d.day + n))

def monthOf (key : ℤ) : ℤ := key / 10000 * 12 + (key / 100).tmod 100 - 1

def firstOf (month : ℤ) : ℤ := keyOf (newDate (month / 12) (month.tmod 12) 1)

def addMonths (key n : ℤ) : ℤ :=
  let d := dateOf key
  let last := (newDate d.year (getMonth d + n + 1) 0).day
  keyOf (newDate d.year (getMonth d + n) (min d.day last))

section Days

variable {d e : Date} {n m : ℤ}

theorem toordinal_shift (d : Date) (n : ℤ) : (shift d n).toordinal = d.toordinal + n := by
  unfold shift
  split
  · rw [Date.toordinal_addDays]
    omega
  · rw [Date.toordinal_subDays]
    omega

theorem shift_shift (d : Date) (m n : ℤ) : shift (shift d m) n = shift d (m + n) := by
  apply toordinal_injective
  rw [toordinal_shift, toordinal_shift, toordinal_shift]
  omega

theorem shift_zero (d : Date) : shift d 0 = d := by
  apply toordinal_injective
  rw [toordinal_shift]
  omega

/-- The index of the month of a day. -/
def monthIndex (d : Date) : ℤ := d.year * 12 + getMonth d

theorem monthIndex_div (d : Date) : monthIndex d / 12 = d.year := by
  have hpos := d.month_pos
  have hle := d.month_le
  unfold monthIndex getMonth
  omega

theorem monthIndex_mod (d : Date) : (monthIndex d % 12).toNat + 1 = d.month := by
  have hpos := d.month_pos
  have hle := d.month_le
  unfold monthIndex getMonth
  omega

@[simp] theorem monthIndex_monthStart (m : ℤ) : monthIndex (monthStart m) = m := by
  simp only [monthIndex, getMonth, monthStart, Date.first]
  omega

theorem year_monthStart (m : ℤ) : (monthStart m).year = m / 12 := rfl

/-- The number of days of the month at an index. -/
def daysOf (m : ℤ) : ℕ := daysInMonth (m / 12) ((m % 12).toNat + 1)

theorem daysOf_monthIndex (d : Date) : daysOf (monthIndex d) = daysInMonth d.year d.month := by
  rw [daysOf, monthIndex_div, monthIndex_mod]

theorem day_le_daysOf (d : Date) : d.day ≤ daysOf (monthIndex d) := by
  rw [daysOf_monthIndex]
  exact d.day_le

/-- A month is its days, from the first to the last. -/
theorem monthIndex_eq_iff : monthIndex d = m ↔ (monthStart m).toordinal ≤ d.toordinal ∧
    d.toordinal < (monthStart m).toordinal + daysOf m := by
  have hmonth := @days_of_month d (m / 12) _ (monthNumber_pos m) (monthNumber_le m)
  have hpos := d.month_pos
  have hle := d.month_le
  rw [monthStart, daysOf, hmonth, monthIndex, getMonth]
  omega

theorem toordinal_of_month (d : Date) :
    d.toordinal = (monthStart (monthIndex d)).toordinal + d.day - 1 := by
  have hfirst := toordinal_first d.year d.month_pos d.month_le
  have hstart : (monthStart (monthIndex d)).toordinal =
      daysBeforeYear d.year + daysBeforeMonth d.year d.month + 1 := by
    rw [monthStart, toordinal_first, monthIndex_div, monthIndex_mod]
  rw [hstart, Date.toordinal]
  omega

/-- A day of a month, by its number. -/
theorem shift_monthStart (d : Date) : shift (monthStart (monthIndex d)) (d.day - 1) = d := by
  apply toordinal_injective
  rw [toordinal_shift, toordinal_of_month d]
  omega

theorem fullYear_of_le {year : ℤ} (h : 100 ≤ year) : fullYear year = year := if_neg (by omega)

theorem newDate_eq {year month day : ℤ} (h : 100 ≤ year) :
    newDate year month day = shift (monthStart (year * 12 + month)) (day - 1) := by
  rw [newDate, fullYear_of_le h]

/-- A constructor whose month and day are those of a day, so many days further. -/
theorem newDate_date (h : 100 ≤ d.year) (n : ℤ) :
    newDate d.year (getMonth d) (d.day + n) = shift d n := by
  have hindex : d.year * 12 + getMonth d = monthIndex d := rfl
  apply toordinal_injective
  rw [newDate_eq h, hindex, toordinal_shift, toordinal_shift, toordinal_of_month d]
  omega

/-- The day of a month that is at most its last one. -/
theorem day_shift_monthStart {m k : ℤ} (hk : 1 ≤ k) (hle : k ≤ daysOf m) :
    monthIndex (shift (monthStart m) (k - 1)) = m ∧
      ((shift (monthStart m) (k - 1)).day : ℤ) = k := by
  have hindex : monthIndex (shift (monthStart m) (k - 1)) = m := by
    rw [monthIndex_eq_iff, toordinal_shift]
    omega
  refine ⟨hindex, ?_⟩
  have hday := toordinal_of_month (shift (monthStart m) (k - 1))
  rw [hindex, toordinal_shift] at hday
  omega

theorem daysOf_pos (m : ℤ) : 28 ≤ daysOf m := daysInMonth_ge _ _

theorem daysOf_le (m : ℤ) : daysOf m ≤ 31 := daysInMonth_le _ _

theorem toordinal_monthStart_succ (m : ℤ) :
    (monthStart (m + 1)).toordinal = (monthStart m).toordinal + daysOf m := by
  rw [monthStart, monthStart, toordinal_first, toordinal_first, daysOf]
  by_cases hlast : m % 12 = 11
  · -- from December to January
    have hyear : (m + 1) / 12 = m / 12 + 1 := by omega
    have hmonth : ((m + 1) % 12).toNat + 1 = 1 := by omega
    have hdecember : (m % 12).toNat + 1 = 12 := by omega
    have hall := daysBeforeMonth_december (m / 12)
    have h31 : daysInMonth (m / 12) 12 = 31 := rfl
    have hnone : daysBeforeMonth (m / 12 + 1) 1 = 0 := rfl
    rw [hyear, hmonth, hdecember, daysBeforeYear_succ, hnone, h31]
    cases hleap : isLeap (m / 12) <;> simp [hleap] at hall ⊢ <;> omega
  · have hyear : (m + 1) / 12 = m / 12 := by omega
    have hmonth : ((m + 1) % 12).toNat + 1 = (m % 12).toNat + 1 + 1 := by omega
    rw [hyear, hmonth, daysBeforeMonth_succ _ (monthNumber_pos m)]
    omega

/-- The last day of a month is the one before the first day of the next. -/
theorem day_before_monthStart (m : ℤ) :
    ((shift (monthStart (m + 1)) (-1)).day : ℤ) = daysOf m := by
  have hpos := daysOf_pos m
  have hlast := day_shift_monthStart (m := m) (k := daysOf m) (by omega) le_rfl
  have hsame : shift (monthStart (m + 1)) (-1) = shift (monthStart m) (daysOf m - 1) := by
    apply toordinal_injective
    rw [toordinal_shift, toordinal_shift, toordinal_monthStart_succ]
    omega
  rw [hsame, hlast.2]

end Days

section Keys

variable {d e : Date} {n m : ℤ}

theorem keyOf_eq (d : Date) : keyOf d = d.year * 10000 + d.month * 100 + d.day := by
  unfold keyOf getMonth
  omega

theorem keyOf_parts (h : 100 ≤ d.year) : keyOf d / 10000 = d.year ∧
    (keyOf d / 100).tmod 100 = d.month ∧ (keyOf d).tmod 100 = d.day := by
  have hpos := d.month_pos
  have hle := d.month_le
  have hday := d.day_le_thirtyOne
  rw [keyOf_eq, Int.tmod_eq_emod_of_nonneg (by omega), Int.tmod_eq_emod_of_nonneg (by omega)]
  omega

theorem dateOf_keyOf (h : 100 ≤ d.year) : dateOf (keyOf d) = d := by
  obtain ⟨hyear, hmonth, hday⟩ := keyOf_parts h
  have hindex : d.year * 12 + ((d.month : ℤ) - 1) = monthIndex d := rfl
  rw [dateOf, hyear, hmonth, hday, newDate_eq h, hindex, shift_monthStart]

theorem monthOf_keyOf (h : 100 ≤ d.year) : monthOf (keyOf d) = monthIndex d := by
  obtain ⟨hyear, hmonth, -⟩ := keyOf_parts h
  rw [monthOf, hyear, hmonth, monthIndex, getMonth]
  omega

/-- The order of the integers is the order of the days. -/
theorem keyOf_lt_iff : keyOf d < keyOf e ↔ d.toordinal < e.toordinal := by
  have hpos := d.month_pos
  have hle := d.month_le
  have hday := d.day_le_thirtyOne
  have hpos' := e.month_pos
  have hle' := e.month_le
  have hday' := e.day_le_thirtyOne
  rw [keyOf_eq, keyOf_eq, Date.toordinal_lt_iff]
  omega

theorem addDays_keyOf (h : 100 ≤ d.year) (n : ℤ) : addDays (keyOf d) n = keyOf (shift d n) := by
  rw [addDays, dateOf_keyOf h, newDate_date h]

theorem firstOf_eq (h : 1200 ≤ m) : firstOf m = keyOf (monthStart m) := by
  have hindex : m / 12 * 12 + m % 12 = m := by omega
  rw [firstOf, Int.tmod_eq_emod_of_nonneg (by omega), newDate_eq (by omega), hindex]
  congr 1

/-- A month is added to the month; the day stays, unless the month that is reached is shorter. -/
theorem addMonths_keyOf (h : 100 ≤ d.year) (n : ℤ) : ∃ e, addMonths (keyOf d) n = keyOf e ∧
    monthIndex e = monthIndex d + n ∧ e.day = min d.day (daysOf (monthIndex d + n)) := by
  have hindex : d.year * 12 + (getMonth d + n) = monthIndex d + n := by
    rw [monthIndex]
    omega
  have hnext : d.year * 12 + (getMonth d + n + 1) = monthIndex d + n + 1 := by
    rw [monthIndex]
    omega
  have hlast : ((newDate d.year (getMonth d + n + 1) 0).day : ℤ) = daysOf (monthIndex d + n) := by
    rw [newDate_eq h, hnext]
    exact day_before_monthStart _
  have hpos := daysOf_pos (monthIndex d + n)
  have hday := d.day_pos
  have hmin : min (d.day : ℤ) (newDate d.year (getMonth d + n + 1) 0).day =
      (min d.day (daysOf (monthIndex d + n)) : ℕ) := by
    rw [hlast]
    omega
  have hnew := day_shift_monthStart (m := monthIndex d + n)
    (k := (min d.day (daysOf (monthIndex d + n)) : ℕ)) (by omega) (by omega)
  refine ⟨shift (monthStart (monthIndex d + n)) ((min d.day (daysOf (monthIndex d + n)) : ℕ) - 1),
    ?_, hnew.1, Int.ofNat_inj.mp hnew.2⟩
  simp only [addMonths, dateOf_keyOf h]
  rw [hmin, newDate_eq h, hindex]

end Keys

end JsDates
