import Mathlib.Algebra.GroupWithZero.Nat
import Mathlib.Data.Int.Basic
import Mathlib.Logic.Function.Iterate

/-! # Days of the Gregorian calendar

A date is one that exists. Every step of a day is counted by the ordinal, day 1 being the
first day of year 1. -/
namespace Calendar

def isLeap (year : ℤ) : Bool :=
  decide (year % 4 = 0) && (decide (year % 100 ≠ 0) || decide (year % 400 = 0))

def daysInMonth (year : ℤ) (month : ℕ) : ℕ :=
  if month = 2 then (if isLeap year then 29 else 28)
  else if month ∈ [4, 6, 9, 11] then 30 else 31

structure Date where
  year : ℤ
  month : ℕ
  day : ℕ
  month_pos : 1 ≤ month
  month_le : month ≤ 12
  day_pos : 1 ≤ day
  day_le : day ≤ daysInMonth year month
  deriving DecidableEq

def daysBeforeYear (year : ℤ) : ℤ :=
  let y := year - 1
  y * 365 + y / 4 - y / 100 + y / 400

def daysBeforeMonth (year : ℤ) (month : ℕ) : ℕ :=
  ((List.range (month - 1)).map fun k => daysInMonth year (k + 1)).sum

theorem daysInMonth_ge (year : ℤ) (month : ℕ) : 28 ≤ daysInMonth year month := by
  unfold daysInMonth
  split
  · split <;> omega
  · split <;> omega

theorem daysInMonth_le (year : ℤ) (month : ℕ) : daysInMonth year month ≤ 31 := by
  unfold daysInMonth
  split
  · split <;> omega
  · split <;> omega

theorem daysBeforeMonth_succ (year : ℤ) {month : ℕ} (h : 1 ≤ month) :
    daysBeforeMonth year (month + 1) = daysBeforeMonth year month + daysInMonth year month := by
  obtain ⟨k, rfl⟩ : ∃ k, month = k + 1 := ⟨month - 1, by omega⟩
  simp [daysBeforeMonth, List.range_succ]

theorem daysBeforeYear_succ (year : ℤ) :
    daysBeforeYear (year + 1) = daysBeforeYear year + if isLeap year then 366 else 365 := by
  simp only [daysBeforeYear, isLeap, Bool.and_eq_true, Bool.or_eq_true, decide_eq_true_eq]
  split <;> omega

/-- The twelve months of a year. -/
theorem daysBeforeMonth_december (year : ℤ) :
    daysBeforeMonth year 12 + 31 = if isLeap year then 366 else 365 := by
  have hrange : List.range (12 - 1) = [0, 1, 2, 3, 4, 5, 6, 7, 8, 9, 10] := rfl
  rw [daysBeforeMonth, hrange]
  cases hleap : isLeap year <;> simp [daysInMonth, hleap]

namespace Date

def toordinal (d : Date) : ℤ :=
  daysBeforeYear d.year + daysBeforeMonth d.year d.month + d.day

/-- Monday is 0. -/
def weekday (d : Date) : ℕ := ((d.toordinal + 6) % 7).toNat

def tomorrow (d : Date) : Date :=
  if hday : d.day < daysInMonth d.year d.month then
    { d with day := d.day + 1, day_pos := by omega, day_le := hday }
  else if hmonth : d.month < 12 then
    { year := d.year, month := d.month + 1, day := 1, month_pos := by omega
      month_le := hmonth, day_pos := le_rfl
      day_le := le_trans (by decide) (daysInMonth_ge _ _) }
  else
    { year := d.year + 1, month := 1, day := 1, month_pos := le_rfl, month_le := by decide
      day_pos := le_rfl, day_le := le_trans (by decide) (daysInMonth_ge _ _) }

def yesterday (d : Date) : Date :=
  if hday : 1 < d.day then
    { d with day := d.day - 1, day_pos := by omega, day_le := by have := d.day_le; omega }
  else if hmonth : 1 < d.month then
    { year := d.year, month := d.month - 1, day := daysInMonth d.year (d.month - 1)
      month_pos := by omega, month_le := by have := d.month_le; omega
      day_pos := le_trans (by decide) (daysInMonth_ge _ _), day_le := le_rfl }
  else
    { year := d.year - 1, month := 12, day := 31, month_pos := by decide, month_le := le_rfl
      day_pos := by decide, day_le := le_rfl }

/-- `d + timedelta(days=n)`. -/
def addDays (d : Date) (n : ℕ) : Date := tomorrow^[n] d

/-- `d - timedelta(days=n)`. -/
def subDays (d : Date) (n : ℕ) : Date := yesterday^[n] d

/-- `d.replace(day=n)` for a day that every month has. -/
def withDay (d : Date) (n : ℕ) (hpos : 1 ≤ n) (hle : n ≤ 28) : Date :=
  { d with day := n, day_pos := hpos, day_le := le_trans hle (daysInMonth_ge _ _) }

def firstOfMonth (d : Date) : Date := d.withDay 1 le_rfl (Nat.succ_pos 27)

/-- The first day of a month. -/
def first (year : ℤ) (month : ℕ) (hpos : 1 ≤ month) (hle : month ≤ 12) : Date where
  year := year
  month := month
  day := 1
  month_pos := hpos
  month_le := hle
  day_pos := le_rfl
  day_le := le_trans (by decide) (daysInMonth_ge _ _)

def newYear (year : ℤ) : Date := first year 1 le_rfl (by decide)

theorem toordinal_tomorrow (d : Date) : d.tomorrow.toordinal = d.toordinal + 1 := by
  have hle := d.day_le
  have hpos := d.month_pos
  have hmonths := d.month_le
  unfold tomorrow
  split
  · simp only [toordinal]
    omega
  · next hday =>
    split
    · simp only [toordinal, daysBeforeMonth_succ d.year hpos]
      omega
    · next hmonth =>
      have hdecember : d.month = 12 := by omega
      have hlast : d.day = 31 := by
        rw [hdecember] at hle hday
        have h31 : daysInMonth d.year 12 = 31 := rfl
        omega
      have hyear := daysBeforeMonth_december d.year
      have hnext := daysBeforeYear_succ d.year
      have hjanuary : daysBeforeMonth (d.year + 1) 1 = 0 := rfl
      simp only [toordinal, hdecember, hlast, hnext, hjanuary]
      cases hleap : isLeap d.year <;> simp [hleap] at hyear ⊢ <;> omega

theorem toordinal_yesterday (d : Date) : d.yesterday.toordinal = d.toordinal - 1 := by
  have hpos := d.month_pos
  have hday_pos := d.day_pos
  unfold yesterday
  split
  · simp only [toordinal]
    omega
  · next hday =>
    split
    · next hmonth =>
      have hbefore := daysBeforeMonth_succ d.year (show 1 ≤ d.month - 1 by omega)
      rw [Nat.sub_add_cancel hpos] at hbefore
      simp only [toordinal, hbefore]
      omega
    · next hmonth =>
      have hjanuary : d.month = 1 := by omega
      have hyear := daysBeforeMonth_december (d.year - 1)
      have hnext := daysBeforeYear_succ (d.year - 1)
      have hnone : daysBeforeMonth d.year 1 = 0 := rfl
      rw [Int.sub_add_cancel] at hnext
      simp only [toordinal, hjanuary, hnext, hnone]
      cases hleap : isLeap (d.year - 1) <;> simp [hleap] at hyear ⊢ <;> omega

theorem toordinal_addDays (d : Date) (n : ℕ) : (d.addDays n).toordinal = d.toordinal + n := by
  induction n generalizing d with
  | zero => simp [addDays]
  | succ n ih =>
    rw [addDays, Function.iterate_succ_apply, ← addDays, ih, toordinal_tomorrow]
    omega

theorem toordinal_subDays (d : Date) (n : ℕ) : (d.subDays n).toordinal = d.toordinal - n := by
  induction n generalizing d with
  | zero => simp [subDays]
  | succ n ih =>
    rw [subDays, Function.iterate_succ_apply, ← subDays, ih, toordinal_yesterday]
    omega

theorem toordinal_withDay (d : Date) {n : ℕ} (hpos : 1 ≤ n) (hle : n ≤ 28) :
    (d.withDay n hpos hle).toordinal = d.toordinal - d.day + n := by
  simp only [withDay, toordinal]
  omega

theorem toordinal_firstOfMonth (d : Date) : d.firstOfMonth.toordinal = d.toordinal - d.day + 1 :=
  toordinal_withDay d le_rfl (by decide)

theorem day_le_thirtyOne (d : Date) : d.day ≤ 31 :=
  le_trans d.day_le (daysInMonth_le d.year d.month)

theorem daysBeforeMonth_mono (year : ℤ) {m n : ℕ} (hm : 1 ≤ m) (hmn : m < n) :
    daysBeforeMonth year m + daysInMonth year m ≤ daysBeforeMonth year n := by
  induction n with
  | zero => omega
  | succ n ih =>
    rcases Nat.lt_succ_iff_lt_or_eq.mp hmn with hless | rfl
    · have hn := daysBeforeMonth_succ year (show 1 ≤ n by omega)
      have := ih hless
      omega
    · exact Nat.le_of_eq (daysBeforeMonth_succ year hm).symm

/-- A day before the end of its year. -/
theorem toordinal_le_year (d : Date) : d.toordinal ≤ daysBeforeYear (d.year + 1) := by
  have hday := d.day_le
  have hmonths := d.month_le
  have hdecember := daysBeforeMonth_december d.year
  have hnext := daysBeforeYear_succ d.year
  have hlength : daysBeforeMonth d.year d.month + d.day ≤ daysBeforeMonth d.year 12 + 31 := by
    rcases Nat.lt_or_eq_of_le hmonths with hless | hlast
    · have := daysBeforeMonth_mono d.year d.month_pos hless
      omega
    · have := daysInMonth_le d.year d.month
      rw [hlast] at this hday ⊢
      omega
  rw [toordinal, hnext]
  cases hleap : isLeap d.year with
  | true =>
    rw [hleap, if_pos rfl] at hdecember
    rw [if_pos rfl]
    omega
  | false =>
    rw [hleap, if_neg (by decide)] at hdecember
    rw [if_neg (by decide)]
    omega

theorem daysBeforeYear_mono {y z : ℤ} (h : y ≤ z) : daysBeforeYear y ≤ daysBeforeYear z := by
  simp only [daysBeforeYear]
  omega

theorem toordinal_lt_of_year {d e : Date} (h : d.year < e.year) : d.toordinal < e.toordinal := by
  have hend := toordinal_le_year d
  have hyears := daysBeforeYear_mono (show d.year + 1 ≤ e.year by omega)
  have hday := e.day_pos
  have hstart : e.toordinal = daysBeforeYear e.year + daysBeforeMonth e.year e.month + e.day := rfl
  omega

theorem toordinal_lt_of_month {d e : Date} (hyear : d.year = e.year) (h : d.month < e.month) :
    d.toordinal < e.toordinal := by
  have hmonths := daysBeforeMonth_mono d.year d.month_pos h
  have hday := d.day_le
  have hday' := e.day_pos
  simp only [toordinal, ← hyear]
  omega

/-- Dates in the order of year, month and day. -/
theorem toordinal_lt_iff (d e : Date) : d.toordinal < e.toordinal ↔ d.year < e.year ∨
    d.year = e.year ∧ (d.month < e.month ∨ d.month = e.month ∧ d.day < e.day) := by
  rcases Int.lt_trichotomy d.year e.year with hyear | hyear | hyear
  · exact iff_of_true (toordinal_lt_of_year hyear) (.inl hyear)
  · rcases Nat.lt_trichotomy d.month e.month with hmonth | hmonth | hmonth
    · exact iff_of_true (toordinal_lt_of_month hyear hmonth) (.inr ⟨hyear, .inl hmonth⟩)
    · simp only [toordinal, hyear, hmonth, lt_irrefl, true_and, false_or]
      omega
    · have := toordinal_lt_of_month hyear.symm hmonth
      omega
  · have := toordinal_lt_of_year hyear
    omega

theorem toordinal_newYear_lt (year : ℤ) :
    (newYear year).toordinal < (newYear (year + 1)).toordinal := by
  have hnext := daysBeforeYear_succ year
  have hjanuary (y : ℤ) : daysBeforeMonth y 1 = 0 := rfl
  simp only [newYear, first, toordinal, hnext, hjanuary]
  split <;> omega

end Date

end Calendar
