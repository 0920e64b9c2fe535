import SIPMediaGW.PeriodWindows

/-! # The time zone of a session

The clock of a session, and the instant at which it reaches a local time: the last one where the
clock goes back over it, the one it would have had where the clock jumps over it. -/
namespace SessionZones

open Calendar
open PeriodWindows
open QualityCounts

/-- The day of an ordinal, counted from 1 January 1970. -/
def ofOrdinal (n : ℤ) : Date :=
  if epochDay ≤ n then (Date.newYear 1970).addDays (n - epochDay).toNat
  else (Date.newYear 1970).subDays (epochDay - n).toNat

/-- The day that a local time is in. -/
def dateOf (wall : ℤ) : Date := ofOrdinal (wall / dayUs + epochDay)

def hourUs : ℤ := 3600 * 1000000

def hourOf (wall : ℤ) : ℕ := (wall % dayUs / hourUs).toNat

theorem toordinal_epoch : (Date.newYear 1970).toordinal = epochDay := by decide

theorem toordinal_ofOrdinal (n : ℤ) : (ofOrdinal n).toordinal = n := by
  unfold ofOrdinal
  split
  · rw [Date.toordinal_addDays, toordinal_epoch]
    omega
  · rw [Date.toordinal_subDays, toordinal_epoch]
    omega

theorem midnight_le_iff {d : Date} {wall : ℤ} :
    midnight d ≤ wall ↔ d.toordinal ≤ (dateOf wall).toordinal := by
  rw [dateOf, toordinal_ofOrdinal, midnight, ← Int.le_ediv_iff_mul_le (by decide)]
  omega

theorem lt_midnight_iff {d : Date} {wall : ℤ} :
    wall < midnight d ↔ (dateOf wall).toordinal < d.toordinal := by
  rw [← not_le, midnight_le_iff, not_le]

theorem dateOf_eq {d : Date} {wall : ℤ} (hfrom : midnight d ≤ wall)
    (hto : wall < midnight d + dayUs) : dateOf wall = d := by
  have hnext : midnight (d.addDays 1) = midnight d + dayUs := by
    rw [midnight, midnight, Date.toordinal_addDays, Nat.cast_one]
    ring
  rw [← hnext] at hto
  have hle := midnight_le_iff.mp hfrom
  have hlt := lt_midnight_iff.mp hto
  rw [Date.toordinal_addDays] at hlt
  exact toordinal_injective (by omega)

section Months

variable {d e : Date} {wall : ℤ}

/-- A month is its days up to the first of the next one. -/
theorem same_month_iff (hd : d.day = 1) :
    e.firstOfMonth = d ↔ d.toordinal ≤ e.toordinal ∧ e.toordinal < (firstAfter d).toordinal := by
  have hwithin := @within_month e d [] hd
  rw [Within, monthPeriod, nextMonth_eq hd] at hwithin
  rw [hwithin]
  constructor
  · rintro rfl
    exact ⟨rfl, rfl⟩
  · rintro ⟨hyear, hmonth⟩
    exact firstOfMonth_eq hyear hmonth hd

theorem month_iff (hd : d.day = 1) :
    (dateOf wall).firstOfMonth = d ↔ midnight d ≤ wall ∧ wall < midnight (firstAfter d) := by
  rw [same_month_iff hd, midnight_le_iff, lt_midnight_iff]

theorem firstOfMonth_self (hd : d.day = 1) : d.firstOfMonth = d := firstOfMonth_eq rfl rfl hd

/-- Between two first days of months there is a month. -/
theorem toordinal_firstAfter_le (hd : d.day = 1) (he : e.day = 1)
    (h : d.toordinal < e.toordinal) : (firstAfter d).toordinal ≤ e.toordinal := by
  by_contra hbefore
  have hsame := (same_month_iff hd).mpr ⟨h.le, not_le.mp hbefore⟩
  rw [firstOfMonth_self he] at hsame
  rw [hsame] at h
  exact lt_irrefl _ h

theorem midnight_firstAfter (hd : d.day = 1) :
    midnight d + 28 * dayUs ≤ midnight (firstAfter d) := by
  have hdays : (28 : ℤ) ≤ daysInMonth d.year d.month := by
    exact_mod_cast daysInMonth_ge d.year d.month
  have hday : 0 ≤ dayUs := by decide
  rw [midnight, midnight, toordinal_firstAfter hd, ← Int.add_mul]
  exact mul_le_mul_of_nonneg_right (by omega) hday

/-- `+ interval '1 month'`: the same day of the next month, or its last one. -/
def monthLater (wall : ℤ) : ℤ :=
  let next := firstAfter (dateOf wall)
  let day := min (dateOf wall).day (daysInMonth next.year next.month)
  midnight next + (day - 1) * dayUs + wall % dayUs

/-- A month is longer than the jumps of a clock. -/
theorem monthLater_late (wall : ℤ) : wall + 2 * dayUs ≤ monthLater wall := by
  have hday : dayUs = 86400000000 := by decide
  have hordinal : (dateOf wall).toordinal = wall / dayUs + epochDay := toordinal_ofOrdinal _
  have hfirst := Date.toordinal_firstOfMonth (dateOf wall)
  have hnext : (firstAfter (dateOf wall)).toordinal = (dateOf wall).firstOfMonth.toordinal +
      daysInMonth (dateOf wall).year (dateOf wall).month :=
    toordinal_firstAfter (d := (dateOf wall).firstOfMonth) rfl
  have hge := daysInMonth_ge (dateOf wall).year (dateOf wall).month
  have hle := daysInMonth_le (dateOf wall).year (dateOf wall).month
  have hnextGe := daysInMonth_ge (firstAfter (dateOf wall)).year (firstAfter (dateOf wall)).month
  have hposDay := (dateOf wall).day_pos
  have hleDay := (dateOf wall).day_le
  unfold monthLater
  dsimp only
  rw [midnight, hnext, hday, Nat.cast_min]
  rw [hday] at hordinal
  omega

end Months

/-- Instants and the local times of a clock, in microseconds. -/
structure SessionZone where
  clock : ℤ → ℤ
  instant : ℤ → ℤ
  settled : ∀ {wall t}, instant wall ≤ t → wall ≤ clock t
  begun : ∀ {wall t}, wall + 2 * dayUs ≤ clock t → instant wall < t

namespace SessionZone

variable {zone : SessionZone} {d e : Date} {t : ℤ}

/-- The instant at which a day begins. -/
def starts (zone : SessionZone) (d : Date) : ℤ := zone.instant (midnight d)

/-- `date_trunc('month', t)`. -/
def dateTruncMonth (zone : SessionZone) (t : ℤ) : ℤ :=
  zone.starts (dateOf (zone.clock t)).firstOfMonth

/-- `t + interval '1 month'`. -/
def plusMonth (zone : SessionZone) (t : ℤ) : ℤ := zone.instant (monthLater (zone.clock t))

/-- At `t` the clock is past the midnight of a day, and will go back over it. -/
def Repeats (zone : SessionZone) (d : Date) (t : ℤ) : Prop :=
  midnight d ≤ zone.clock t ∧ t < zone.starts d

instance (zone : SessionZone) (d : Date) (t : ℤ) : Decidable (zone.Repeats d t) :=
  inferInstanceAs (Decidable (_ ∧ _))

theorem starts_le_iff (h : ¬ zone.Repeats d t) : zone.starts d ≤ t ↔ midnight d ≤ zone.clock t := by
  constructor
  · exact zone.settled
  · intro hclock
    by_contra hlt
    exact h ⟨hclock, not_le.mp hlt⟩

theorem starts_firstAfter (hd : d.day = 1) : zone.starts d < zone.starts (firstAfter d) := by
  have hmonth := midnight_firstAfter hd
  have hday : 0 < dayUs := by decide
  have hclock : midnight (firstAfter d) ≤ zone.clock (zone.starts (firstAfter d)) :=
    zone.settled le_rfl
  apply zone.begun
  omega

theorem starts_lt (hd : d.day = 1) (he : e.day = 1) (h : d.toordinal < e.toordinal) :
    zone.starts d < zone.starts e := by
  have hmonth := midnight_firstAfter hd
  have hday : 0 < dayUs := by decide
  have hnext : midnight (firstAfter d) ≤ midnight e := by
    have hle := toordinal_firstAfter_le hd he h
    rw [midnight, midnight]
    exact mul_le_mul_of_nonneg_right (by omega) hday.le
  have hclock : midnight e ≤ zone.clock (zone.starts e) := zone.settled le_rfl
  apply zone.begun
  omega

theorem starts_inj (hd : d.day = 1) (he : e.day = 1) : zone.starts d = zone.starts e ↔ d = e := by
  constructor
  · intro h
    apply toordinal_injective
    apply le_antisymm
    · by_contra hlt
      exact (starts_lt he hd (not_le.mp hlt)).ne' h
    · by_contra hlt
      exact (starts_lt hd he (not_le.mp hlt)).ne h
  · rintro rfl
    rfl

/-- An instant is labelled with the month that its clock shows. -/
theorem dateTruncMonth_eq_iff (hd : d.day = 1) : zone.dateTruncMonth t = zone.starts d ↔
    midnight d ≤ zone.clock t ∧ zone.clock t < midnight (firstAfter d) := by
  rw [dateTruncMonth, starts_inj (by rfl) hd, month_iff hd]

/-- Where the clock goes back over neither midnight, the label is that of the window. -/
theorem dateTruncMonth_iff_window (hd : d.day = 1) (h : ¬ zone.Repeats d t)
    (hnext : ¬ zone.Repeats (firstAfter d) t) : zone.dateTruncMonth t = zone.starts d ↔
    zone.starts d ≤ t ∧ t < zone.starts (firstAfter d) := by
  rw [dateTruncMonth_eq_iff hd, starts_le_iff h, ← not_le, ← not_le, starts_le_iff hnext]

theorem not_repeats_of_early (h : midnight d + 2 * dayUs ≤ zone.clock t) : ¬ zone.Repeats d t := by
  rintro ⟨-, hlt⟩
  exact lt_asymm hlt (zone.begun h)

theorem monthLater_midnight (hd : d.day = 1) :
    monthLater (midnight d) = midnight (firstAfter d) := by
  have hday : 0 < dayUs := by decide
  have hdate : dateOf (midnight d) = d := dateOf_eq le_rfl (lt_add_of_pos_right _ hday)
  have hge := daysInMonth_ge (firstAfter d).year (firstAfter d).month
  have hmin : min 1 (daysInMonth (firstAfter d).year (firstAfter d).month) = 1 :=
    min_eq_left (by omega)
  unfold monthLater
  rw [hdate, hd]
  dsimp only
  rw [hmin, midnight, midnight, Int.mul_emod_left, Nat.cast_one, Int.sub_self, Int.zero_mul,
    Int.add_zero, Int.add_zero]

end SessionZone

theorem utc_begun {wall t : ℤ} (h : wall + 2 * dayUs ≤ t) : wall < t := by
  have hday : 0 < dayUs := by decide
  omega

/-- A zone whose clock shows the instants themselves. -/
def utc : SessionZone where
  clock := id
  instant := id
  settled := id
  begun := utc_begun

end SessionZones
