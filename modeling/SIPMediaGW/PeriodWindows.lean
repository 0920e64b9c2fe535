import SIPMediaGW.QualityCounts

/-! # The windows of the periods

The days of every named period around today, and of the months of a year. -/
namespace PeriodWindows

open Calendar
open PythonJson
open QualityCounts

section Days

variable {d e : Date}

theorem toordinal_injective (h : d.toordinal = e.toordinal) : d = e := by
  have hde := Date.toordinal_lt_iff d e
  have hed := Date.toordinal_lt_iff e d
  have hfields : d.year = e.year ∧ d.month = e.month ∧ d.day = e.day := by omega
  cases d
  cases e
  obtain ⟨rfl, rfl, rfl⟩ := hfields
  rfl

theorem toordinal_first (year : ℤ) {month : ℕ} (hpos : 1 ≤ month) (hle : month ≤ 12) :
    (Date.first year month hpos hle).toordinal =
      daysBeforeYear year + daysBeforeMonth year month + 1 := rfl

/-- A month is its days from the first to the last. -/
theorem days_of_month {year : ℤ} {month : ℕ} (hpos : 1 ≤ month) (hle : month ≤ 12) :
    (Date.first year month hpos hle).toordinal ≤ d.toordinal ∧
      d.toordinal < (Date.first year month hpos hle).toordinal + daysInMonth year month ↔
    d.year = year ∧ d.month = month := by
  constructor
  · rintro ⟨hfrom, hto⟩
    let last : Date :=
      { Date.first year month hpos hle with
        day := daysInMonth year month
        day_pos := le_trans (by decide) (daysInMonth_ge year month), day_le := le_rfl }
    have hlast : last.toordinal =
        (Date.first year month hpos hle).toordinal + daysInMonth year month - 1 := by
      rw [toordinal_first]
      change daysBeforeYear year + daysBeforeMonth year month + daysInMonth year month = _
      omega
    have hbefore := mt (Date.toordinal_lt_iff d (Date.first year month hpos hle)).mpr (by omega)
    have hafter := mt (Date.toordinal_lt_iff last d).mpr (by omega)
    have hyear : (Date.first year month hpos hle).year = year ∧ last.year = year := ⟨rfl, rfl⟩
    have hmonth : (Date.first year month hpos hle).month = month ∧ last.month = month :=
      ⟨rfl, rfl⟩
    omega
  · rintro ⟨rfl, rfl⟩
    have hday := d.day_le
    have hday_pos := d.day_pos
    have hordinal : d.toordinal = daysBeforeYear d.year + daysBeforeMonth d.year d.month + d.day :=
      rfl
    rw [toordinal_first]
    omega

theorem firstOfMonth_eq (hyear : d.year = e.year) (hmonth : d.month = e.month)
    (hday : e.day = 1) : d.firstOfMonth = e := by
  cases d
  cases e
  obtain rfl := hyear
  obtain rfl := hmonth
  obtain rfl := hday
  rfl

/-- The first day of the month after that of a date. -/
def firstAfter (d : Date) : Date :=
  if h : d.month < 12 then .first d.year (d.month + 1) (Nat.succ_pos _) h
  else .newYear (d.year + 1)

theorem one_le_previousMonth (d : Date) (h : 1 < d.month) : 1 ≤ d.month - 1 := by
  omega

theorem previousMonth_le (d : Date) : d.month - 1 ≤ 12 := by
  have hle := d.month_le
  omega

/-- The first day of the month before that of a date. -/
def firstBefore (d : Date) : Date :=
  if h : 1 < d.month then
    .first d.year (d.month - 1) (one_le_previousMonth d h) (previousMonth_le d)
  else .first (d.year - 1) 12 (Nat.le_add_left 1 11) (Nat.le_refl 12)

theorem day_firstAfter (d : Date) : (firstAfter d).day = 1 := by
  unfold firstAfter
  split <;> rfl

theorem day_firstBefore (d : Date) : (firstBefore d).day = 1 := by
  unfold firstBefore
  split <;> rfl

theorem toordinal_firstAfter (hday : d.day = 1) :
    (firstAfter d).toordinal = d.toordinal + daysInMonth d.year d.month := by
  have hordinal : d.toordinal = daysBeforeYear d.year + daysBeforeMonth d.year d.month + d.day :=
    rfl
  have hle := d.month_le
  unfold firstAfter
  split
  · rw [toordinal_first, daysBeforeMonth_succ d.year d.month_pos]
    omega
  · next hlast =>
    have hdecember : d.month = 12 := by omega
    have hyear := daysBeforeMonth_december d.year
    have hdays : daysInMonth d.year 12 = 31 := rfl
    have hjanuary : daysBeforeMonth (d.year + 1) 1 = 0 := rfl
    rw [hdecember] at hordinal ⊢
    rw [Date.newYear, toordinal_first, daysBeforeYear_succ, hjanuary, hordinal, hday, hdays]
    by_cases hleap : isLeap d.year = true
    · rw [if_pos hleap] at hyear ⊢
      omega
    · rw [if_neg hleap] at hyear ⊢
      omega

/-- A week after its 28th day a month is over, and the next one has begun. -/
theorem nextMonth_eq (hday : d.day = 1) : nextMonth d = firstAfter d := by
  have hafter := toordinal_firstAfter hday
  have hge := daysInMonth_ge d.year d.month
  have hle := daysInMonth_le d.year d.month
  have hnext := daysInMonth_ge (firstAfter d).year (firstAfter d).month
  have hfirst : Date.first (firstAfter d).year (firstAfter d).month (firstAfter d).month_pos
      (firstAfter d).month_le = firstAfter d := firstOfMonth_eq rfl rfl (day_firstAfter d)
  have hdays := @days_of_month ((d.withDay 28 (Nat.succ_pos 27) le_rfl).addDays 7)
    (firstAfter d).year (firstAfter d).month (firstAfter d).month_pos (firstAfter d).month_le
  rw [hfirst, Date.toordinal_addDays, Date.toordinal_withDay, hday, hafter] at hdays
  obtain ⟨hyear, hmonth⟩ := hdays.mp (by omega)
  exact firstOfMonth_eq hyear hmonth (day_firstAfter d)

/-- The day before the first of a month is in the month before. -/
theorem previousMonth_eq (d : Date) : previousMonth d = firstBefore d := by
  have hfirst : ¬ 1 < d.firstOfMonth.day := Nat.lt_irrefl 1
  have hyesterday : d.firstOfMonth.subDays 1 = d.firstOfMonth.yesterday := rfl
  rw [previousMonth, hyesterday, Date.yesterday, dif_neg hfirst]
  unfold firstBefore
  split
  · next h =>
    rw [dif_pos (show 1 < d.month from h)]
    exact firstOfMonth_eq rfl rfl rfl
  · next h =>
    rw [dif_neg (show ¬ 1 < d.month from h)]
    exact firstOfMonth_eq rfl rfl rfl

theorem firstAfter_firstBefore (d : Date) : firstAfter (firstBefore d) = d.firstOfMonth := by
  have hpos := d.month_pos
  have hle := d.month_le
  unfold firstBefore
  split
  · next h =>
    have hmonth : d.month - 1 < 12 := by omega
    refine (dif_pos hmonth).trans (firstOfMonth_eq ?_ ?_ ?_).symm
    · rfl
    · exact (Nat.sub_add_cancel hpos).symm
    · rfl
  · next h =>
    refine (dif_neg (Nat.lt_irrefl 12)).trans (firstOfMonth_eq ?_ ?_ ?_).symm
    · exact (Int.sub_add_cancel d.year 1).symm
    · exact le_antisymm (not_lt.mp h) hpos
    · rfl

end Days

/-- A day of a period. -/
def Within (p : Period) (d : Date) : Prop :=
  p.since.toordinal ≤ d.toordinal ∧ d.toordinal < p.stop.toordinal

/-- A date from the first to the last that Python has. -/
def OnCalendar (d : Date) : Prop := 1 ≤ d.year ∧ d.year ≤ 9999

/-- A period that ends where the next one begins, and its length. -/
structure Precedes (last next : Period) (days : ℕ) : Prop where
  ends : last.stop = next.since
  length : last.stop.toordinal = last.since.toordinal + days

/-- What the names resolve to. -/
structure Windows where
  day : Period
  week : Period
  lastWeek : Period
  month : Period
  lastMonth : Period
  year : Period
  lastYear : Period

structure Windows.Of (w : Windows) (today : Date) : Prop where
  day : resolvePeriod (some "today") today = .ok w.day
  week : resolvePeriod (some "week") today = .ok w.week
  lastWeek : resolvePeriod (some "last_week") today = .ok w.lastWeek
  month : resolvePeriod (some "month") today = .ok w.month
  lastMonth : resolvePeriod (some "last_month") today = .ok w.lastMonth
  year : resolvePeriod (some "year") today = .ok w.year
  lastYear : resolvePeriod (some "last_year") today = .ok w.lastYear

def Windows.all (w : Windows) : List Period :=
  [w.day, w.week, w.lastWeek, w.month, w.lastMonth, w.year, w.lastYear]

def daysInYear (year : ℤ) : ℕ := if isLeap year then 366 else 365

/-- The windows around a day, each in its place. -/
structure Windows.Tile (w : Windows) (today : Date) : Prop where
  day : Within w.day today
  week : Within w.week today
  month : Within w.month today
  year : Within w.year today
  monday : w.week.since.weekday = 0
  lastWeek : Precedes w.lastWeek w.week 7
  lastMonth : Precedes w.lastMonth w.month
    (daysInMonth (firstBefore today).year (firstBefore today).month)
  lastYear : Precedes w.lastYear w.year (daysInYear (today.year - 1))
  dates : ∀ p ∈ w.all, OnCalendar p.since ∧ OnCalendar p.stop

/-- The windows of the names, around a day. -/
def windows (today : Date) : Windows where
  day := daysPeriod today 1 (isoDate today)
  week :=
    let first := today.subDays today.weekday
    daysPeriod first 7 ("week of ".toList ++ isoDate first)
  lastWeek :=
    let first := today.subDays (today.weekday + 7)
    daysPeriod first 7 ("week of ".toList ++ isoDate first)
  month := monthPeriod today.firstOfMonth (isoMonth today.firstOfMonth)
  lastMonth := monthPeriod (previousMonth today) (isoMonth (previousMonth today))
  year := yearPeriod today.year (Nat.toDigits 10 today.year.toNat)
  lastYear := yearPeriod (today.year - 1) (Nat.toDigits 10 (today.year - 1).toNat)

theorem windows_of (today : Date) : (windows today).Of today where
  day := rfl
  week := rfl
  lastWeek := rfl
  month := rfl
  lastMonth := rfl
  year := rfl
  lastYear := rfl

section Tiles

variable {today d : Date}

theorem weekday_lt (d : Date) : d.weekday < 7 := by
  unfold Date.weekday
  omega

theorem toordinal_monday (d : Date) : (d.toordinal - d.weekday + 6) % 7 = 0 := by
  unfold Date.weekday
  omega

/-- Dates less than a year apart are in the same year or in neighbouring ones. -/
theorem year_near (h : d.toordinal < today.toordinal + 365)
    (h' : today.toordinal < d.toordinal + 365) :
    today.year - 1 ≤ d.year ∧ d.year ≤ today.year + 1 := by
  have hfrom (e : Date) : daysBeforeYear e.year < e.toordinal := by
    have hday := e.day_pos
    have hordinal : e.toordinal = daysBeforeYear e.year + daysBeforeMonth e.year e.month + e.day :=
      rfl
    omega
  have hlength (y : ℤ) : daysBeforeYear y + 365 ≤ daysBeforeYear (y + 1) := by
    rw [daysBeforeYear_succ]
    split <;> omega
  have hgap {a b : Date} (hab : a.toordinal < b.toordinal + 365) : a.year ≤ b.year + 1 := by
    by_contra hfar
    have hend := Date.toordinal_le_year b
    have hyears := Date.daysBeforeYear_mono (show b.year + 1 + 1 ≤ a.year by omega)
    have hbetween := hlength (b.year + 1)
    have hstart := hfrom a
    omega
  have hup := hgap h
  have hdown := hgap h'
  omega

theorem onCalendar_near (hyears : 2 ≤ today.year ∧ today.year ≤ 9998)
    (h : d.toordinal < today.toordinal + 365) (h' : today.toordinal < d.toordinal + 365) :
    OnCalendar d := by
  obtain ⟨hfrom, hto⟩ := year_near h h'
  exact ⟨by omega, by omega⟩

theorem toordinal_newYear_succ (year : ℤ) :
    (Date.newYear (year + 1)).toordinal = (Date.newYear year).toordinal + daysInYear year := by
  have hjanuary (y : ℤ) : daysBeforeMonth y 1 = 0 := rfl
  rw [Date.newYear, Date.newYear, toordinal_first, toordinal_first, hjanuary, hjanuary,
    daysBeforeYear_succ, daysInYear]
  split <;> omega

/-- The month of a date from its first day to that of the next one. -/
theorem within_month {first : Date} (label : List Char) (hday : first.day = 1) :
    Within (monthPeriod first label) d ↔ d.year = first.year ∧ d.month = first.month := by
  have hfirst : Date.first first.year first.month first.month_pos first.month_le = first :=
    firstOfMonth_eq rfl rfl hday
  have hdays := @days_of_month d first.year first.month first.month_pos first.month_le
  rw [hfirst] at hdays
  rw [← hdays, Within, monthPeriod, nextMonth_eq hday, toordinal_firstAfter hday]

theorem lt_newYear_iff (year : ℤ) :
    d.toordinal < (Date.newYear year).toordinal ↔ d.year < year := by
  have hmonth := d.month_pos
  have hday := d.day_pos
  have hfields : (Date.newYear year).year = year ∧ (Date.newYear year).month = 1 ∧
      (Date.newYear year).day = 1 := ⟨rfl, rfl, rfl⟩
  rw [Date.toordinal_lt_iff]
  omega

theorem within_year (year : ℤ) (label : List Char) :
    Within (yearPeriod year label) d ↔ d.year = year := by
  have hstop := @lt_newYear_iff d (year + 1)
  have hsince := @lt_newYear_iff d year
  rw [Within, yearPeriod, hstop, ← not_lt, hsince]
  omega

/-- Seven days from the Monday before. -/
theorem within_week (today : Date) (label : List Char) :
    Within (daysPeriod (today.subDays today.weekday) 7 label) today := by
  have hweekday := weekday_lt today
  rw [Within, daysPeriod, Date.toordinal_addDays, Date.toordinal_subDays]
  omega

theorem precedes_week (today : Date) (label label' : List Char) :
    Precedes (daysPeriod (today.subDays (today.weekday + 7)) 7 label)
      (daysPeriod (today.subDays today.weekday) 7 label') 7 where
  ends := by
    apply toordinal_injective
    rw [daysPeriod, daysPeriod, Date.toordinal_addDays, Date.toordinal_subDays,
      Date.toordinal_subDays]
    omega
  length := by
    rw [daysPeriod, Date.toordinal_addDays]

theorem precedes_month (today : Date) (label label' : List Char) :
    Precedes (monthPeriod (previousMonth today) label) (monthPeriod today.firstOfMonth label')
      (daysInMonth (firstBefore today).year (firstBefore today).month) where
  ends := by
    have hday : (previousMonth today).day = 1 := rfl
    rw [monthPeriod, monthPeriod, nextMonth_eq hday, previousMonth_eq, firstAfter_firstBefore]
  length := by
    have hday : (previousMonth today).day = 1 := rfl
    rw [monthPeriod, nextMonth_eq hday, toordinal_firstAfter hday, previousMonth_eq]

theorem precedes_year (today : Date) (label label' : List Char) :
    Precedes (yearPeriod (today.year - 1) label) (yearPeriod today.year label')
      (daysInYear (today.year - 1)) where
  ends := by
    rw [yearPeriod, yearPeriod, Int.sub_add_cancel]
  length := toordinal_newYear_succ (today.year - 1)

theorem onCalendar_newYear {year : ℤ} (h : 1 ≤ year ∧ year ≤ 9999) : OnCalendar (.newYear year) := h

theorem onCalendar_days {first : Date} {n : ℕ} (hyears : 2 ≤ today.year ∧ today.year ≤ 9998)
    (label : List Char) (hfrom : today.toordinal < first.toordinal + 20)
    (hto : first.toordinal ≤ today.toordinal) (hn : n < 10) :
    OnCalendar (daysPeriod first n label).since ∧ OnCalendar (daysPeriod first n label).stop := by
  have hstop : (first.addDays n).toordinal = first.toordinal + n := Date.toordinal_addDays first n
  have hsince : OnCalendar first := onCalendar_near hyears (by omega) (by omega)
  have hend : OnCalendar (first.addDays n) := onCalendar_near hyears (by omega) (by omega)
  exact ⟨hsince, hend⟩

theorem onCalendar_month {first : Date} (hyears : 2 ≤ today.year ∧ today.year ≤ 9998)
    (label : List Char) (hday : first.day = 1) (hfrom : today.toordinal < first.toordinal + 70)
    (hto : first.toordinal ≤ today.toordinal) :
    OnCalendar (monthPeriod first label).since ∧ OnCalendar (monthPeriod first label).stop := by
  have hle := daysInMonth_le first.year first.month
  have hstop : (nextMonth first).toordinal =
      first.toordinal + daysInMonth first.year first.month := by
    rw [nextMonth_eq hday, toordinal_firstAfter hday]
  have hsince : OnCalendar first := onCalendar_near hyears (by omega) (by omega)
  have hend : OnCalendar (nextMonth first) := onCalendar_near hyears (by omega) (by omega)
  exact ⟨hsince, hend⟩

/-- Every window around a day is of days that there are. -/
theorem windows_dates (hyears : 2 ≤ today.year ∧ today.year ≤ 9998) :
    ∀ p ∈ (windows today).all, OnCalendar p.since ∧ OnCalendar p.stop := by
  have hweekday := weekday_lt today
  have hday := today.day_le_thirtyOne
  have hday_pos := today.day_pos
  have hmonday := Date.toordinal_subDays today today.weekday
  have hbefore := Date.toordinal_subDays today (today.weekday + 7)
  have hfirst := Date.toordinal_firstOfMonth today
  have hmonths := precedes_month today [] []
  have hprevious : today.firstOfMonth.toordinal = (previousMonth today).toordinal +
      daysInMonth (firstBefore today).year (firstBefore today).month :=
    (congrArg Date.toordinal hmonths.ends).symm.trans hmonths.length
  have hlength := daysInMonth_le (firstBefore today).year (firstBefore today).month
  intro p hp
  simp only [Windows.all, windows, List.mem_cons, List.not_mem_nil, or_false] at hp
  rcases hp with rfl | rfl | rfl | rfl | rfl | rfl | rfl
  · exact onCalendar_days hyears _ (by omega) le_rfl (by omega)
  · exact onCalendar_days hyears _ (by omega) (by omega) (by omega)
  · exact onCalendar_days hyears _ (by omega) (by omega) (by omega)
  · exact onCalendar_month hyears _ rfl (by omega) (by omega)
  · exact onCalendar_month hyears _ rfl (by omega) (by omega)
  · exact ⟨onCalendar_newYear (by omega), onCalendar_newYear (by omega)⟩
  · exact ⟨onCalendar_newYear (by omega), onCalendar_newYear (by omega)⟩

theorem windows_tile (hyears : 2 ≤ today.year ∧ today.year ≤ 9998) :
    (windows today).Tile today where
  day := by
    change today.toordinal ≤ today.toordinal ∧ today.toordinal < (today.addDays 1).toordinal
    rw [Date.toordinal_addDays]
    omega
  week := within_week today _
  month := (within_month _ rfl).mpr ⟨rfl, rfl⟩
  year := (within_year _ _).mpr rfl
  monday := by
    have hmonday := toordinal_monday today
    rw [← Date.toordinal_subDays] at hmonday
    change ((((today.subDays today.weekday).toordinal + 6) % 7 : ℤ)).toNat = 0
    rw [hmonday]
    rfl
  lastWeek := precedes_week today _ _
  lastMonth := precedes_month today _ _
  lastYear := precedes_year today _ _
  dates := windows_dates hyears

end Tiles

/-- A number in so many decimal digits, of whatever script. -/
structure Digits (width : ℕ) (cs : List Char) (n : ℕ) : Prop where
  digits : isDigits width cs = true
  number : number cs = n

/-- `YYYY-MM`. -/
def monthText (year month : List Char) : String := String.ofList (year ++ '-' :: month)

/-- The window of a year cut into the windows of its months. -/
structure YearCut (year : ℕ) (whole : Period) (months : ℕ → Period) : Prop where
  days : ∀ m, 1 ≤ m → m ≤ 12 → ∀ d, Within (months m) d ↔ d.year = year ∧ d.month = m
  contiguous : ∀ m, 1 ≤ m → m < 12 → (months m).stop = (months (m + 1)).since
  first : (months 1).since = whole.since
  last : (months 12).stop = whole.stop
  disjoint : ∀ m n, 1 ≤ m → m ≤ 12 → 1 ≤ n → n ≤ 12 → ∀ d, Within (months m) d →
    Within (months n) d → m = n
  union : ∀ d, Within whole d ↔ ∃ m, 1 ≤ m ∧ m ≤ 12 ∧ Within (months m) d

section Years

variable {today : Date} {cs year : List Char} {y : ℕ}

/-- No name begins with a digit. -/
theorem resolvePeriod_digit {c : Char} (hc : (decimalDigit c).isSome = true) :
    resolvePeriod (some (String.ofList (c :: cs))) today =
      if isDigits 4 (c :: cs) then
        (checkedYear (number (c :: cs))).map fun year => yearPeriod year (c :: cs)
      else if isDigits 4 ((c :: cs).take 4) && (c :: cs)[4]? == some '-' &&
          isDigits 2 ((c :: cs).drop 5) then typedMonth (c :: cs)
      else .error ⟨400, "period must be YYYY-MM, YYYY or one of " ++ ", ".intercalate PERIODS⟩ := by
  have hname (name : String)
      (h : (name.toList.head?.any fun d => (decimalDigit d).isSome) = false) :
      String.ofList (c :: cs) ≠ name := by
    rintro rfl
    rw [String.toList_ofList] at h
    exact Bool.false_ne_true (h.symm.trans hc)
  unfold resolvePeriod
  dsimp only
  rw [Option.getD_some, if_neg (not_or.mpr ⟨hname "" (by decide), hname "last_month" (by decide)⟩),
    if_neg (hname "today" (by decide)), if_neg (hname "week" (by decide)),
    if_neg (hname "last_week" (by decide)), if_neg (hname "month" (by decide)),
    if_neg (hname "year" (by decide)), if_neg (hname "last_year" (by decide)),
    String.toList_ofList]

theorem Digits.cons {width : ℕ} (h : Digits (width + 1) cs y) :
    ∃ c rest, cs = c :: rest ∧ (decimalDigit c).isSome = true := by
  obtain ⟨hlength, hall⟩ := Bool.and_eq_true_iff.mp h.digits
  obtain ⟨c, rest, rfl⟩ := List.exists_cons_of_length_eq_add_one (of_decide_eq_true hlength)
  exact ⟨c, rest, rfl, List.all_eq_true.mp hall c List.mem_cons_self⟩

theorem Digits.length {width : ℕ} (h : Digits width cs y) : cs.length = width :=
  of_decide_eq_true (Bool.and_eq_true_iff.mp h.digits).1

theorem checkedYear_ok (hrange : 1970 ≤ y ∧ y ≤ 2100) : checkedYear y = .ok (y : ℤ) :=
  if_pos ⟨by omega, by omega⟩

theorem resolvePeriod_year (h : Digits 4 cs y) (hrange : 1970 ≤ y ∧ y ≤ 2100) :
    resolvePeriod (some (String.ofList cs)) today = .ok (yearPeriod y cs) := by
  have hdigits := h.digits
  have hnumber := h.number
  obtain ⟨c, rest, rfl, hc⟩ := h.cons
  rw [resolvePeriod_digit hc, if_pos hdigits, hnumber, checkedYear_ok hrange]
  rfl

theorem resolvePeriod_month {month : List Char} {m : ℕ} (h : Digits 4 cs y)
    (hmonth : Digits 2 month m) (hrange : 1970 ≤ y ∧ y ≤ 2100) (hpos : 1 ≤ m) (hle : m ≤ 12) :
    resolvePeriod (some (monthText cs month)) today =
      .ok (monthPeriod (.first y m hpos hle) (cs ++ '-' :: month)) := by
  have htake : (cs ++ '-' :: month).take 4 = cs := List.take_left' h.length
  have hdrop : (cs ++ '-' :: month).drop 5 = month := by
    rw [List.append_cons]
    apply List.drop_left'
    rw [List.length_append, h.length, List.length_singleton]
  have hdash : (cs ++ '-' :: month)[4]? = some '-' := by
    rw [List.getElem?_append_right h.length.le, h.length]
    rfl
  have hlength : ¬ isDigits 4 (cs ++ '-' :: month) = true := by
    intro hdigits
    have hfour := of_decide_eq_true (Bool.and_eq_true_iff.mp hdigits).1
    rw [List.length_append, h.length, List.length_cons] at hfour
    omega
  have hmonths : typedMonth (cs ++ '-' :: month) =
      .ok (monthPeriod (.first y m hpos hle) (cs ++ '-' :: month)) := by
    have hnumber : number ((cs ++ '-' :: month).drop 5) = m := by rw [hdrop, hmonth.number]
    subst hnumber
    unfold typedMonth
    dsimp only
    rw [dif_pos ⟨hpos, hle⟩, htake, h.number, checkedYear_ok hrange]
    rfl
  have hshape : (isDigits 4 ((cs ++ '-' :: month).take 4) &&
      (cs ++ '-' :: month)[4]? == some '-' && isDigits 2 ((cs ++ '-' :: month).drop 5)) = true := by
    rw [htake, hdrop, hdash, h.digits, hmonth.digits]
    rfl
  obtain ⟨c, rest, rfl, hc⟩ := h.cons
  exact (resolvePeriod_digit hc).trans ((if_neg hlength).trans ((if_pos hshape).trans hmonths))

/-- The window of a month, of no day when there is none. -/
def monthWindow (y m : ℕ) (label : List Char) : Period :=
  if h : 1 ≤ m ∧ m ≤ 12 then monthPeriod (.first y m h.1 h.2) label
  else ⟨.newYear y, .newYear y, String.ofList label⟩

theorem stop_monthWindow {m : ℕ} (hpos : 1 ≤ m) (hle : m ≤ 12) (label : List Char) :
    (monthWindow y m label).stop = firstAfter (.first y m hpos hle) := by
  rw [monthWindow, dif_pos ⟨hpos, hle⟩]
  exact nextMonth_eq rfl

theorem yearCut (y : ℕ) (label : List Char) (labels : ℕ → List Char) :
    YearCut y (yearPeriod y label) fun m => monthWindow y m (labels m) := by
  have hdays : ∀ m, 1 ≤ m → m ≤ 12 → ∀ d, Within (monthWindow y m (labels m)) d ↔
      d.year = y ∧ d.month = m := by
    intro m hpos hle d
    rw [monthWindow, dif_pos ⟨hpos, hle⟩]
    exact within_month (labels m) rfl
  constructor
  · exact hdays
  · intro m hpos hlt
    have hnext : 1 ≤ m + 1 ∧ m + 1 ≤ 12 := ⟨Nat.succ_pos m, hlt⟩
    rw [stop_monthWindow hpos hlt.le, monthWindow, dif_pos hnext]
    exact dif_pos hlt
  · rfl
  · rw [stop_monthWindow (by decide) le_rfl]
    rfl
  · intro m n hm hm' hn hn' d hd hd'
    exact ((hdays m hm hm' d).mp hd).2.symm.trans ((hdays n hn hn' d).mp hd').2
  · intro d
    rw [within_year]
    constructor
    · intro hyear
      exact ⟨d.month, d.month_pos, d.month_le,
        (hdays d.month d.month_pos d.month_le d).mpr ⟨hyear, rfl⟩⟩
    · rintro ⟨m, hpos, hle, hd⟩
      exact ((hdays m hpos hle d).mp hd).1

end Years

/-- The windows of the names tile the days around today, the months of a year its days. -/
theorem periods_tile :
    (∀ today : Date, 2 ≤ today.year ∧ today.year ≤ 9998 →
      ∃ w : Windows, w.Of today ∧ w.Tile today) ∧
    ∀ (today : Date) (y : ℕ) (year : List Char) (month : ℕ → List Char),
      1970 ≤ y ∧ y ≤ 2100 → Digits 4 year y → (∀ m, 1 ≤ m → m ≤ 12 → Digits 2 (month m) m) →
      ∃ whole months, resolvePeriod (some (String.ofList year)) today = .ok whole ∧
        (∀ m, 1 ≤ m → m ≤ 12 →
          resolvePeriod (some (monthText year (month m))) today = .ok (months m)) ∧
        YearCut y whole months := by
  constructor
  · intro today hyears
    exact ⟨windows today, windows_of today, windows_tile hyears⟩
  · intro today y year month hrange hyear hmonth
    refine ⟨_, _, resolvePeriod_year hyear hrange, ?_,
      yearCut y year fun m => year ++ '-' :: month m⟩
    intro m hpos hle
    rw [resolvePeriod_month hyear (hmonth m hpos hle) hrange hpos hle, monthWindow,
      dif_pos ⟨hpos, hle⟩]

/-- The months of 2024 in two digits. -/
def twoDigits (m : ℕ) : List Char := padded 2 m

theorem leapYear_tiles :
    (∃ w : Windows, w.Of (.first 2024 2 (by decide) (by decide)) ∧
      w.Tile (.first 2024 2 (by decide) (by decide))) ∧
    ∃ whole months, resolvePeriod (some "2024") (.newYear 2025) = .ok whole ∧
      (∀ m, 1 ≤ m → m ≤ 12 →
        resolvePeriod (some (monthText "2024".toList (twoDigits m))) (.newYear 2025) =
          .ok (months m)) ∧
      YearCut 2024 whole months := by
  constructor
  · exact periods_tile.1 _ (by decide)
  · apply periods_tile.2 (.newYear 2025) 2024 "2024".toList twoDigits (by decide)
    · exact ⟨by decide, by decide⟩
    · intro m hpos hle
      have hdigits : ∀ m ≤ 12, isDigits 2 (twoDigits m) = true ∧ number (twoDigits m) = m := by
        decide
      exact ⟨(hdigits m hle).1, (hdigits m hle).2⟩

end PeriodWindows
