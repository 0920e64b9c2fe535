import SIPMediaGW.DatePicker
import SIPMediaGW.IsoReading

/-! # The window of the call log

Two days and two whole hours, which the page hands to the server as two texts. The days come from a
preset, from the calendar or from a link of the Quality view. -/
namespace CallWindow

open Calendar
open DatePicker (Picking Real Sound)
open IngestMapping
open JsDates (keyOf dateOf newDate getDay getMonth monthOf shift)
open LabelledExecutions
open IsoReading
open QualityCounts (Writes Zone callWindow dayUs midnight padded parseInstant_writes)
open ScalerTarget (digitPair)

def addDays (d : Date) (n : ℤ) : Date := newDate d.year (getMonth d) (d.day + n)

/-- Weeks begin on Monday. -/
def startOfWeek (d : Date) : Date := addDays d (-((getDay d + 6) % 7))

inductive Preset where
  | today
  | yesterday
  | week
  | lastWeek
  | month
  | lastMonth
  | last7
  | last30
  deriving DecidableEq, Repr

/-- The first day and the last one. Two presets read the clock twice. -/
def Preset.days (now later : Date) : Preset → Date × Date
  | .today => (now, now)
  | .yesterday => (addDays now (-1), addDays now (-1))
  | .week => (startOfWeek now, now)
  | .lastWeek =>
    let start := addDays (startOfWeek now) (-7)
    (start, addDays start 6)
  | .month => (newDate now.year (getMonth now) 1, now)
  | .lastMonth => (newDate now.year (getMonth now - 1) 1, newDate now.year (getMonth now) 0)
  | .last7 => (addDays now (-6), later)
  | .last30 => (addDays now (-29), later)

structure Range where
  start : ℤ
  stop : ℤ
  fromHour : ℕ
  toHour : ℕ
  deriving DecidableEq, Repr

def presetRange (now later : Date) (name : Preset) : Range :=
  ⟨keyOf (name.days now later).1, keyOf (name.days now later).2, 0, 23⟩

/-- The end follows the start. -/
def normalise (next : Range) : Range :=
  let out := { next with stop := if next.stop < next.start then next.start else next.stop }
  if out.stop = out.start ∧ out.toHour < out.fromHour then { out with toHour := out.fromHour }
  else out

def pad (n : ℕ) : List Char := padded 2 n

def isoOf (key : ℤ) : List Char :=
  let d := dateOf key
  Nat.toDigits 10 d.year.toNat ++ '-' :: (pad d.month ++ '-' :: pad d.day)

/-- The `start` and `end` of a request. -/
def Range.query (range : Range) : String × String :=
  (String.ofList (isoOf range.start ++ 'T' :: (pad range.fromHour ++ ":00:00".toList)),
    String.ofList (isoOf range.stop ++ 'T' :: (pad range.toHour ++ ":59:59.999999".toList)))

/-- The calendar when it is open, and the field that opened it. -/
structure Panel where
  calendar : DatePicker.State
  opener : Picking
  deriving DecidableEq, Repr

structure Page where
  today : Date
  max : ℤ
  range : Range
  panel : Option Panel

/-- The days of the period that the Quality view shows, the second one excluded. -/
abbrev Link := Date × Date

def mounted (now later : Date) (link : Option Link) : Page where
  today := later
  max := keyOf later
  range := match link with
    | none => presetRange now now .today
    | some (since, stop) =>
      normalise ⟨keyOf since, min (JsDates.addDays (keyOf stop) (-1)) (keyOf now), 0, 23⟩
  panel := none

def Page.setRange (s : Page) (next : Range) : Page := { s with range := normalise next }

def Page.openPanel (s : Page) (picking : Picking) : Page :=
  { s with
    panel := some ⟨DatePicker.opened (some s.max) s.range.start s.range.stop picking, picking⟩ }

inductive Event where
  /-- Another day begins. -/
  | dawn (day : Date)
  | mount (link : Option Link) (later : Date)
  | preset (name : Preset) (later : Date)
  /-- The choice that opens the calendar. -/
  | custom
  | fromHour (hour : ℕ)
  | toHour (hour : ℕ)
  /-- A click on the first day or on the last one. -/
  | field (picking : Picking)
  | calendar (e : DatePicker.Event)
  | close
  | apply

/-- The hours before it are not offered as the last one. -/
def Range.floor (range : Range) : ℕ := if range.start = range.stop then range.fromHour else 0

def next (s : Page) : Event → Option Page
  | .dawn day => if s.today.toordinal ≤ day.toordinal then some { s with today := day } else none
  | .mount link later =>
    if s.today.toordinal ≤ later.toordinal then some (mounted s.today later link) else none
  | .preset name later =>
    if s.today.toordinal ≤ later.toordinal then
      some ({ s with today := later }.setRange (presetRange s.today later name))
    else none
  | .custom => some (s.openPanel .start)
  | .fromHour hour =>
    if hour < 24 then some (s.setRange { s.range with fromHour := hour }) else none
  | .toHour hour =>
    if s.range.floor ≤ hour ∧ hour < 24 then some (s.setRange { s.range with toHour := hour })
    else none
  | .field picking =>
    match s.panel with
    | some panel =>
      if panel.opener = picking then some { s with panel := none } else some (s.openPanel picking)
    | none => some (s.openPanel picking)
  | .calendar e =>
    match s.panel with
    | some panel => (DatePicker.next (some s.max) panel.calendar e).map fun calendar =>
        { s with panel := some { panel with calendar := calendar } }
    | none => none
  | .close => some { s with panel := none }
  | .apply =>
    s.panel.map fun panel =>
      { s with panel := none }.setRange
        { s.range with start := panel.calendar.start, stop := panel.calendar.stop }

section Presets

variable {now later d e : Date} {n : ℤ}

theorem keyOf_le (h : d.toordinal ≤ e.toordinal) : keyOf d ≤ keyOf e :=
  not_lt.mp (mt JsDates.keyOf_lt_iff.mp (not_lt.mpr h))

theorem addDays_eq (h : 100 ≤ d.year) (n : ℤ) : addDays d n = shift d n := JsDates.newDate_date h n

theorem startOfWeek_eq (h : 100 ≤ d.year) :
    ∃ n : ℤ, -6 ≤ n ∧ n ≤ 0 ∧ startOfWeek d = shift d n :=
  ⟨-((getDay d + 6) % 7), by omega, by omega, addDays_eq h _⟩

/-- A preset gives two days in order, the last one today at most. -/
theorem days_of_preset (name : Preset) (hnow : 1001 ≤ now.year)
    (hlater : now.toordinal ≤ later.toordinal) :
    Real (keyOf (name.days now later).1) ∧ Real (keyOf (name.days now later).2) ∧
      (name.days now later).1.toordinal ≤ (name.days now later).2.toordinal ∧
      (name.days now later).2.toordinal ≤ later.toordinal := by
  have hmodern : 100 ≤ now.year := by omega
  have hreal : Real (keyOf now) := ⟨now, rfl, by omega⟩
  have hlaterYear : 1001 ≤ later.year := by
    have hlt := mt (Date.toordinal_lt_iff (d := later) (e := now)).mpr (not_lt.mpr hlater)
    omega
  have hindex : now.year * 12 + getMonth now = JsDates.monthIndex now := rfl
  have hmonth := JsDates.toordinal_of_month now
  have hpos := now.day_pos
  have hstart : 12012 ≤ JsDates.monthIndex now := DatePicker.monthIndex_of_year hnow
  cases name with
  | today => exact ⟨hreal, hreal, le_rfl, hlater⟩
  | yesterday =>
    simp only [Preset.days, addDays_eq hmodern, JsDates.toordinal_shift]
    exact ⟨DatePicker.real_shift hnow (by omega), DatePicker.real_shift hnow (by omega), le_rfl,
      by omega⟩
  | week =>
    obtain ⟨n, hn, hle, heq⟩ := startOfWeek_eq hmodern
    simp only [Preset.days, heq, JsDates.toordinal_shift]
    exact ⟨DatePicker.real_shift hnow (by omega), hreal, by omega, hlater⟩
  | lastWeek =>
    obtain ⟨n, hn, hle, heq⟩ := startOfWeek_eq hmodern
    have hweek := DatePicker.year_shift (n := n) hnow (by omega)
    have hbefore := DatePicker.year_shift (n := n + -7) hnow (by omega)
    simp only [Preset.days, heq]
    rw [addDays_eq (by omega), JsDates.shift_shift, addDays_eq (by omega), JsDates.shift_shift,
      JsDates.toordinal_shift, JsDates.toordinal_shift]
    exact ⟨⟨_, rfl, hbefore⟩, DatePicker.real_shift hnow (by omega), by omega, by omega⟩
  | month =>
    have hyear : 1000 ≤ (JsDates.monthStart (JsDates.monthIndex now)).year := by
      rw [JsDates.year_monthStart]
      omega
    simp only [Preset.days, JsDates.newDate_eq hmodern, hindex, sub_self, JsDates.shift_zero]
    exact ⟨⟨_, rfl, hyear⟩, hreal, by omega, hlater⟩
  | lastMonth =>
    have hprevious : now.year * 12 + (getMonth now - 1) = JsDates.monthIndex now - 1 := by
      rw [← hindex]
      omega
    have hyear : 1000 ≤ (JsDates.monthStart (JsDates.monthIndex now - 1)).year := by
      rw [JsDates.year_monthStart]
      omega
    have hlength := JsDates.toordinal_monthStart_succ (JsDates.monthIndex now - 1)
    have hdays := JsDates.daysOf_pos (JsDates.monthIndex now - 1)
    rw [sub_add_cancel] at hlength
    simp only [Preset.days, JsDates.newDate_eq hmodern, hindex, hprevious, sub_self,
      JsDates.shift_zero, JsDates.toordinal_shift]
    exact ⟨⟨_, rfl, hyear⟩, ⟨_, rfl, DatePicker.le_year_shift (by omega) (by omega)⟩,
      by omega, by omega⟩
  | last7 =>
    simp only [Preset.days, addDays_eq hmodern, JsDates.toordinal_shift]
    exact ⟨DatePicker.real_shift hnow (by omega), ⟨later, rfl, by omega⟩, by omega, le_rfl⟩
  | last30 =>
    simp only [Preset.days, addDays_eq hmodern, JsDates.toordinal_shift]
    exact ⟨DatePicker.real_shift hnow (by omega), ⟨later, rfl, by omega⟩, by omega, le_rfl⟩

end Presets

/-- The last day of a year of four digits. -/
def lastKey : ℤ := 99991231

theorem lastKey_eq : lastKey = 99991231 := rfl

/-- Two days that the front end can write, in order, and two hours of a day, in order when the days
are one. -/
structure Valid (range : Range) : Prop where
  start : Real range.start
  stop : Real range.stop
  ordered : range.start ≤ range.stop
  written : range.stop ≤ lastKey
  fromHour : range.fromHour < 24
  toHour : range.toHour < 24
  sameDay : range.start = range.stop → range.fromHour ≤ range.toHour

section Ranges

variable {range : Range} {d now later : Date} {key : ℤ}

theorem keyOf_le_lastKey (h : d.year ≤ 9999) : keyOf d ≤ lastKey := by
  have hmonth := d.month_le
  have hday := d.day_le_thirtyOne
  rw [JsDates.keyOf_eq, lastKey_eq]
  omega

theorem year_of_lastKey (h : keyOf d ≤ lastKey) : d.year ≤ 9999 := by
  have hmonth := d.month_pos
  have hday := d.day_pos
  rw [JsDates.keyOf_eq, lastKey_eq] at h
  omega

theorem valid_normalise (hstart : Real range.start) (hstop : Real range.stop)
    (hstartLe : range.start ≤ lastKey) (hstopLe : range.stop ≤ lastKey)
    (hfrom : range.fromHour < 24) (hto : range.toHour < 24) : Valid (normalise range) := by
  have hfollows : ∀ stop, stop = (if range.stop < range.start then range.start else range.stop) →
      Real stop ∧ range.start ≤ stop ∧ stop ≤ lastKey := by
    rintro stop rfl
    split
    · exact ⟨hstart, le_rfl, hstartLe⟩
    · rename_i hordered
      exact ⟨hstop, not_lt.mp hordered, hstopLe⟩
  unfold normalise
  generalize hstop' : (if range.stop < range.start then range.start else range.stop) = stop
  obtain ⟨hreal, hordered, hwritten⟩ := hfollows stop hstop'.symm
  dsimp only
  split
  · exact ⟨hstart, hreal, hordered, hwritten, hfrom, hfrom, fun _ => le_rfl⟩
  · rename_i hhours
    refine ⟨hstart, hreal, hordered, hwritten, hfrom, hto, fun hsame => ?_⟩
    exact not_lt.mp fun hlt => hhours ⟨hsame.symm, hlt⟩

theorem Valid.start_le (h : Valid range) : range.start ≤ lastKey := h.ordered.trans h.written

theorem valid_presetRange (name : Preset) (hnow : 1001 ≤ now.year)
    (hlater : now.toordinal ≤ later.toordinal) (hyear : later.year ≤ 9999) :
    Valid (presetRange now later name) := by
  obtain ⟨hstart, hstop, hordered, hlast⟩ := days_of_preset name hnow hlater
  exact ⟨hstart, hstop, keyOf_le hordered, (keyOf_le hlast).trans (keyOf_le_lastKey hyear),
    Nat.zero_lt_succ 23, Nat.lt_succ_self 23, fun _ => Nat.zero_le 23⟩

theorem year_of_later (hnow : 1001 ≤ now.year) (hlater : now.toordinal ≤ later.toordinal) :
    1001 ≤ later.year := by
  have hlt := mt (Date.toordinal_lt_iff later now).mpr (not_lt.mpr hlater)
  omega

end Ranges

/-- The window of the page, and the days that an open calendar would hand over. -/
structure Inv (s : Page) : Prop where
  today : 1001 ≤ s.today.year ∧ s.today.year ≤ 9999
  max : Real s.max ∧ s.max ≤ lastKey
  range : Valid s.range
  panel : ∀ panel, s.panel = some panel →
    Sound panel.calendar ∧ panel.calendar.stop ≤ lastKey

/-- A period of the Quality view that the front end can write. -/
def Link.Written (link : Link) : Prop :=
  1000 ≤ link.1.year ∧ link.1.year ≤ 9999 ∧ 1001 ≤ link.2.year

/-- Years of four digits from 1001 on, on the clock, in a link and in the calendar. -/
def FourDigits (s : Page) : Event → Prop
  | .dawn day => day.year ≤ 9999
  | .mount link later => later.year ≤ 9999 ∧ ∀ l ∈ link, l.Written
  | .preset _ later => later.year ≤ 9999
  | .calendar _ => ∀ panel ∈ s.panel, 12012 ≤ panel.calendar.view
  | _ => True

instance (link : Link) : Decidable link.Written :=
  inferInstanceAs (Decidable (_ ∧ _ ∧ _))

instance (s : Page) (e : Event) : Decidable (FourDigits s e) :=
  match e with
  | .dawn day => inferInstanceAs (Decidable (day.year ≤ 9999))
  | .mount link later => inferInstanceAs (Decidable (later.year ≤ 9999 ∧ ∀ l ∈ link, l.Written))
  | .preset _ later => inferInstanceAs (Decidable (later.year ≤ 9999))
  | .calendar _ => inferInstanceAs (Decidable (∀ panel ∈ s.panel, 12012 ≤ panel.calendar.view))
  | .custom | .fromHour _ | .toHour _ | .field _ | .close | .apply =>
    inferInstanceAs (Decidable True)

section Runs

variable {s t : Page} {e : Event} {now later : Date} {link : Option Link} {range : Range}

theorem inv_mounted (hnow : 1001 ≤ now.year) (hlater : now.toordinal ≤ later.toordinal)
    (hyear : later.year ≤ 9999) (hlink : ∀ l ∈ link, l.Written) :
    Inv (mounted now later link) := by
  have hlaterYear := year_of_later hnow hlater
  have htoday : Real (keyOf now) := ⟨now, rfl, by omega⟩
  have htodayLe : keyOf now ≤ lastKey := (keyOf_le hlater).trans (keyOf_le_lastKey hyear)
  refine ⟨⟨hlaterYear, hyear⟩, ⟨⟨later, rfl, ?_⟩, keyOf_le_lastKey hyear⟩, ?_, ?_⟩
  · exact le_trans (by decide) hlaterYear
  · cases link with
    | none => exact valid_presetRange .today hnow le_rfl (year_of_lastKey htodayLe)
    | some l =>
      obtain ⟨hsince, hsinceLe, huntil⟩ := hlink l rfl
      have hstop : Real (min (JsDates.addDays (keyOf l.2) (-1)) (keyOf now)) := by
        rcases min_choice (JsDates.addDays (keyOf l.2) (-1)) (keyOf now) with hmin | hmin
        · rw [hmin, JsDates.addDays_keyOf (by omega)]
          exact DatePicker.real_shift huntil (by omega)
        · rw [hmin]
          exact htoday
      exact valid_normalise ⟨l.1, rfl, hsince⟩ hstop (keyOf_le_lastKey hsinceLe)
        ((min_le_right _ _).trans htodayLe) (Nat.zero_lt_succ 23) (Nat.lt_succ_self 23)
  · rintro panel ⟨⟩

theorem inv_setRange (h : Inv s) (hrange : Valid (normalise range)) : Inv (s.setRange range) :=
  ⟨h.today, h.max, hrange, h.panel⟩

theorem inv_openPanel (h : Inv s) (picking : Picking) : Inv (s.openPanel picking) := by
  refine ⟨h.today, h.max, h.range, ?_⟩
  rintro panel ⟨⟩
  refine ⟨DatePicker.sound_opened _ h.range.start h.range.stop h.range.ordered, ?_⟩
  rw [DatePicker.stop_opened]
  exact h.range.written

theorem valid_again (h : Valid range) : Valid (normalise range) :=
  valid_normalise h.start h.stop h.start_le h.written h.fromHour h.toHour

/-- No click, no key and no midnight makes a window that is not one. -/
theorem inv_next (h : Inv s) (hdigits : FourDigits s e) (hstep : next s e = some t) : Inv t := by
  have hrange := h.range
  cases e with
  | dawn day =>
    simp only [next] at hstep
    split at hstep
    · rename_i hlater
      obtain rfl := Option.some.inj hstep
      exact ⟨⟨year_of_later h.today.1 hlater, hdigits⟩, h.max, h.range, h.panel⟩
    · cases hstep
  | mount link later =>
    simp only [next] at hstep
    split at hstep
    · rename_i hlater
      obtain rfl := Option.some.inj hstep
      exact inv_mounted h.today.1 hlater hdigits.1 hdigits.2
    · cases hstep
  | preset name later =>
    simp only [next] at hstep
    split at hstep
    · rename_i hlater
      obtain rfl := Option.some.inj hstep
      exact ⟨⟨year_of_later h.today.1 hlater, hdigits⟩, h.max,
        valid_again (valid_presetRange name h.today.1 hlater hdigits), h.panel⟩
    · cases hstep
  | custom =>
    obtain rfl := Option.some.inj hstep
    exact inv_openPanel h .start
  | fromHour hour =>
    simp only [next] at hstep
    split at hstep
    · rename_i hhour
      obtain rfl := Option.some.inj hstep
      exact inv_setRange h (valid_normalise hrange.start hrange.stop hrange.start_le hrange.written
        hhour hrange.toHour)
    · cases hstep
  | toHour hour =>
    simp only [next] at hstep
    split at hstep
    · rename_i hhour
      obtain rfl := Option.some.inj hstep
      exact inv_setRange h (valid_normalise hrange.start hrange.stop hrange.start_le hrange.written
        hrange.fromHour hhour.2)
    · cases hstep
  | field picking =>
    simp only [next] at hstep
    split at hstep
    · split at hstep
      · obtain rfl := Option.some.inj hstep
        exact ⟨h.today, h.max, h.range, by rintro panel ⟨⟩⟩
      · obtain rfl := Option.some.inj hstep
        exact inv_openPanel h picking
    · obtain rfl := Option.some.inj hstep
      exact inv_openPanel h picking
  | calendar e =>
    simp only [next] at hstep
    split at hstep
    · rename_i panel hpanel
      obtain ⟨calendar, hcalendar, rfl⟩ := Option.map_eq_some_iff.mp hstep
      obtain ⟨hsound, hwritten⟩ := h.panel panel hpanel
      have hmax : ∀ last, some s.max = some last → Real last := by
        rintro _ ⟨⟩
        exact h.max.1
      refine ⟨h.today, h.max, h.range, ?_⟩
      rintro panel' ⟨⟩
      refine ⟨(DatePicker.sound_next hmax hsound (hdigits panel hpanel) hcalendar).1, ?_⟩
      rcases DatePicker.stop_next hcalendar with hstop | hstop
      · exact hstop.le.trans hwritten
      · exact hstop.trans h.max.2
    · cases hstep
  | close =>
    obtain rfl := Option.some.inj hstep
    exact ⟨h.today, h.max, h.range, by rintro panel ⟨⟩⟩
  | apply =>
    obtain ⟨panel, hpanel, rfl⟩ := Option.map_eq_some_iff.mp hstep
    obtain ⟨hsound, hwritten⟩ := h.panel panel hpanel
    have hclosed : Inv { s with panel := none } := ⟨h.today, h.max, h.range, by rintro panel ⟨⟩⟩
    exact inv_setRange hclosed (valid_normalise hsound.start hsound.stop
      (hsound.ordered.trans hwritten) hwritten hrange.fromHour hrange.toHour)

theorem inv_of_execution (hnow : 1001 ≤ now.year) (hlater : now.toordinal ≤ later.toordinal)
    (hyear : later.year ≤ 9999) (hlink : ∀ l ∈ link, l.Written)
    (h : Execution (Guarded FourDigits (StepOf next)) (mounted now later link) s) : Inv s :=
  h.guarded_invariant (fun _ _ _ hi hd hstep => inv_next hi hd hstep)
    (inv_mounted hnow hlater hyear hlink)

end Runs

section Texts

variable {d : Date} {n : ℕ}

theorem pad_eq (h : n < 100) : pad n = digitPair n := by
  by_cases hlt : n < 10
  · have hzero : n / 10 = 0 := by omega
    have hsame : n % 10 = n := by omega
    rw [pad, padded, Nat.toDigits_of_lt_base hlt, digitPair, hzero, hsame]
    rfl
  · have hten : n / 10 < 10 := by omega
    rw [pad, padded, Nat.toDigits_of_base_le (by decide) (not_lt.mp hlt),
      Nat.toDigits_of_lt_base hten, digitPair]
    rfl

theorem toDigits_year (hpos : 1000 ≤ n) (hle : n ≤ 9999) :
    Nat.toDigits 10 n = digitPair (n / 100) ++ digitPair (n % 100) := by
  have hthousands : n / 10 / 10 / 10 = n / 100 / 10 := by omega
  have hhundreds : n / 10 / 10 % 10 = n / 100 % 10 := by omega
  have htens : n / 10 % 10 = n % 100 / 10 := by omega
  have hunits : n % 10 = n % 100 % 10 := by omega
  rw [Nat.toDigits_of_base_le (by decide) (by omega),
    Nat.toDigits_of_base_le (by decide) (by omega),
    Nat.toDigits_of_base_le (by decide) (by omega), Nat.toDigits_of_lt_base (by omega), hthousands,
    hhundreds, htens, hunits]
  rfl

theorem isoOf_eq (hpos : 1000 ≤ d.year) (hle : d.year ≤ 9999) :
    isoOf (keyOf d) = IsoInstants.isoDate d := by
  have hmonth := d.month_le
  have hday := d.day_le_thirtyOne
  rw [isoOf, JsDates.dateOf_keyOf (by omega)]
  simp only [toDigits_year (n := d.year.toNat) (by omega) (by omega),
    pad_eq (n := d.month) (by omega),
    pad_eq (n := d.day) (by omega), IsoInstants.isoDate, List.append_assoc, List.cons_append,
    List.nil_append]

/-- The time at the start of an hour, and at its last microsecond. -/
theorem readTime_hour (h : n < 24) :
    readTime (digitPair n ++ ":00:00".toList) = some (n * 3600 * secondUs, none) ∧
      readTime (digitPair n ++ ":59:59.999999".toList) =
        some ((n + 1) * 3600 * secondUs - 1, none) := by
  have hall : ∀ i : Fin 24,
      readTime (digitPair i ++ ":00:00".toList) = some ((i : ℕ) * 3600 * secondUs, none) ∧
        readTime (digitPair i ++ ":59:59.999999".toList) =
          some (((i : ℕ) + 1) * 3600 * secondUs - 1, none) := by decide +kernel
  exact hall ⟨n, h⟩

theorem isZulu_digitChar {n : ℕ} (h : n < 10) : Nat.digitChar n ≠ 'Z' := by
  have hall : ∀ i : Fin 10, Nat.digitChar i ≠ 'Z' := by decide
  exact hall ⟨n, h⟩

/-- A text with no `Z` is read as it is. -/
theorem zuluAsOffset_self {cs : List Char} (h : 'Z' ∉ cs) :
    zuluAsOffset (String.ofList cs) = String.ofList cs := by
  have hflat : cs.flatMap (fun c => if c = 'Z' then "+00:00".toList else [c]) = cs := by
    induction cs with
    | nil => rfl
    | cons c cs ih =>
      rw [List.mem_cons, not_or] at h
      rw [List.flatMap_cons, ih h.2, if_neg (Ne.symm h.1), List.singleton_append]
  exact congrArg String.ofList ((congrArg _ (String.toList_ofList)).trans hflat)

theorem zulu_notMem_digitPair (h : n < 100) : 'Z' ∉ digitPair n := by
  intro hmem
  rcases List.mem_pair.mp hmem with hc | hc
  · exact isZulu_digitChar (by omega) hc.symm
  · exact isZulu_digitChar (by omega) hc.symm

theorem zulu_notMem_isoDate (hpos : 1000 ≤ d.year) (hle : d.year ≤ 9999) :
    'Z' ∉ IsoInstants.isoDate d := by
  have hmonth := d.month_le
  have hday := d.day_le_thirtyOne
  simp only [IsoInstants.isoDate, List.mem_append, List.mem_singleton, not_or]
  exact ⟨⟨⟨⟨⟨zulu_notMem_digitPair (by omega), zulu_notMem_digitPair (by omega)⟩, by decide⟩,
    zulu_notMem_digitPair (by omega)⟩, by decide⟩, zulu_notMem_digitPair (by omega)⟩

/-- The text of a day and of a time without an offset. -/
theorem writes_local {py : PythonText} {time : List Char} {us : ℤ}
    (hpy : py.fromisoformat = fromisoformat) (hpos : 1000 ≤ d.year) (hle : d.year ≤ 9999)
    (hzulu : 'Z' ∉ time) (htime : readTime time = some (us, none)) :
    Writes py (String.ofList (IsoInstants.isoDate d ++ 'T' :: time)) (midnight d + us) := by
  have hlong : ¬ (IsoInstants.isoDate d ++ 'T' :: time).length < 7 := by
    rw [List.length_append, length_isoDate]
    omega
  have hplain : 'Z' ∉ IsoInstants.isoDate d ++ 'T' :: time := by
    rw [List.mem_append, List.mem_cons, not_or, not_or]
    exact ⟨zulu_notMem_isoDate hpos hle, by decide, hzulu⟩
  have hdate := readDate_isoDate d (by omega) hle
  refine ⟨fun hempty => ?_, ?_⟩
  · have hlist := congrArg String.toList hempty
    rw [String.toList_ofList] at hlist
    cases hlist
  · rw [zuluAsOffset_self hplain, hpy]
    simp only [fromisoformat, String.toList_ofList, if_neg hlong, findSeparator_isoDate,
      Option.bind_eq_bind, Option.bind_some, List.take_left' (length_isoDate _),
      List.drop_left' (length_isoDate _), hdate, htime, midnight]

end Texts

def hourUs : ℤ := 3600 * secondUs

theorem hourUs_eq : hourUs = 3600000000 := rfl

/-- Clocks that are put forward skip no more than the rest of the hour. -/
def ForwardWithinHour (zone : Zone) : Prop :=
  ∀ n wall : ℤ, n * hourUs ≤ wall → wall ≤ (n + 1) * hourUs →
    zone.offset wall ≤ zone.offset (n * hourUs) + (wall - n * hourUs)

section Server

variable {py : PythonText} {zone : Zone} {now later : Date} {link : Option Link}
  {range : Range} {s : Page}

/-- The first instant of an hour is before every instant of that hour and of a later one. -/
theorem instant_hour_le (hzone : ForwardWithinHour zone) {n m wall : ℤ} (hle : n ≤ m)
    (hfrom : m * hourUs ≤ wall) (hto : wall ≤ (m + 1) * hourUs) :
    zone.instant (n * hourUs) ≤ zone.instant wall := by
  have hhour : ∀ k : ℕ, zone.instant (n * hourUs) ≤ zone.instant ((n + k) * hourUs) := by
    intro k
    induction k with
    | zero => rw [Nat.cast_zero, add_zero]
    | succ k ih =>
      have hstep := hzone (n + k) ((n + k + 1) * hourUs) (by rw [hourUs_eq]; omega) le_rfl
      have hcast : n + ((k + 1 : ℕ) : ℤ) = n + k + 1 := by omega
      rw [hcast]
      unfold Zone.instant at ih ⊢
      omega
  obtain ⟨k, rfl⟩ := Int.le.dest hle
  have hlast := hzone (n + k) wall hfrom hto
  have hfirst := hhour k
  unfold Zone.instant at hfirst ⊢
  omega

/-- The server reads the two texts of a window as the first microsecond of its first hour and the
last one of its last hour, and finds them in order. -/
theorem callWindow_query (hpy : py.fromisoformat = fromisoformat) (hzone : ForwardWithinHour zone)
    (h : Valid range) : ∃ first last : Date,
      range.start = keyOf first ∧ range.stop = keyOf last ∧
      ∀ today, callWindow py zone today (some range.query.1) (some range.query.2) =
        .ok (zone.instant (midnight first + range.fromHour * hourUs),
          zone.instant (midnight last + (range.toHour + 1) * hourUs - 1)) := by
  obtain ⟨first, hfirst, hfirstPos⟩ := h.start
  obtain ⟨last, hlast, hlastPos⟩ := h.stop
  have hfirstLe : first.year ≤ 9999 := year_of_lastKey (hfirst ▸ h.start_le)
  have hlastLe : last.year ≤ 9999 := year_of_lastKey (hlast ▸ h.written)
  have hfrom := h.fromHour
  have hto := h.toHour
  have hstart : Writes py range.query.1 (midnight first + range.fromHour * hourUs) := by
    have htime := (readTime_hour hfrom).1
    have htext : range.query.1 = String.ofList (IsoInstants.isoDate first ++
        'T' :: (digitPair range.fromHour ++ ":00:00".toList)) := by
      have hpad : pad range.fromHour = digitPair range.fromHour := pad_eq (by omega)
      rw [Range.query, hfirst, isoOf_eq hfirstPos hfirstLe, hpad]
    rw [htext, hourUs, ← mul_assoc]
    refine writes_local hpy hfirstPos hfirstLe ?_ htime
    rw [List.mem_append, not_or]
    exact ⟨zulu_notMem_digitPair (by omega), by decide⟩
  have hstop : Writes py range.query.2 (midnight last + ((range.toHour + 1) * hourUs - 1)) := by
    have htime := (readTime_hour hto).2
    have htext : range.query.2 = String.ofList (IsoInstants.isoDate last ++
        'T' :: (digitPair range.toHour ++ ":59:59.999999".toList)) := by
      have hpad : pad range.toHour = digitPair range.toHour := pad_eq (by omega)
      rw [Range.query, hlast, isoOf_eq hlastPos hlastLe, hpad]
    rw [htext, hourUs, ← mul_assoc]
    refine writes_local hpy hlastPos hlastLe ?_ htime
    rw [List.mem_append, not_or]
    exact ⟨zulu_notMem_digitPair (by omega), by decide⟩
  have hdays : first.toordinal ≤ last.toordinal := by
    have hordered := h.ordered
    rw [hfirst, hlast] at hordered
    exact not_lt.mp (mt JsDates.keyOf_lt_iff.mpr (not_lt.mpr hordered))
  have hhours : first.toordinal = last.toordinal → range.fromHour ≤ range.toHour := by
    intro hsame
    refine h.sameDay ?_
    rw [hfirst, hlast, PeriodWindows.toordinal_injective hsame]
  have horder : zone.instant (midnight first + range.fromHour * hourUs) ≤
      zone.instant (midnight last + ((range.toHour + 1) * hourUs - 1)) := by
    have hnumber : ∀ (d : Date) (k : ℤ), midnight d + k * hourUs =
        ((d.toordinal - QualityCounts.epochDay) * 24 + k) * hourUs := by
      intro d k
      rw [midnight, hourUs_eq, dayUs]
      omega
    have hle : (first.toordinal - QualityCounts.epochDay) * 24 + range.fromHour ≤
        (last.toordinal - QualityCounts.epochDay) * 24 + range.toHour := by omega
    have hlastHour : midnight last + ((range.toHour + 1) * hourUs - 1) =
        ((last.toordinal - QualityCounts.epochDay) * 24 + range.toHour + 1) * hourUs - 1 := by
      rw [← add_sub_assoc, hnumber, add_assoc]
    rw [hnumber, hlastHour]
    refine instant_hour_le hzone hle ?_ ?_
    · rw [hourUs_eq]
      omega
    · rw [hourUs_eq]
      omega
  refine ⟨first, last, hfirst, hlast, fun today => ?_⟩
  simp only [callWindow, parseInstant_writes hstart, parseInstant_writes hstop, add_sub_assoc]
  change (if _ < _ then _ else _) = _
  exact if_neg (not_lt.mpr horder)

/-- In every state of every run, midnights included, the server takes the window of the page: it
never answers that the end is before the start. -/
theorem page_window_accepted (hpy : py.fromisoformat = fromisoformat)
    (hzone : ForwardWithinHour zone) (hnow : 1001 ≤ now.year)
    (hlater : now.toordinal ≤ later.toordinal) (hyear : later.year ≤ 9999)
    (hlink : ∀ l ∈ link, l.Written)
    (h : Execution (Guarded FourDigits (StepOf next)) (mounted now later link) s) :
    ∃ first last : Date, s.range.start = keyOf first ∧ s.range.stop = keyOf last ∧
      ∀ today, callWindow py zone today (some s.range.query.1) (some s.range.query.2) =
        .ok (zone.instant (midnight first + s.range.fromHour * hourUs),
          zone.instant (midnight last + (s.range.toHour + 1) * hourUs - 1)) := by
  have hinv := inv_of_execution hnow hlater hyear hlink h
  obtain ⟨first, last, hfirst, hlast, hwindow⟩ := callWindow_query hpy hzone hinv.range
  exact ⟨first, last, hfirst, hlast, hwindow⟩

end Server

/-- One hour ahead, then two from two o'clock on 31 March 2024. -/
def parisSpring : Zone where
  offset wall := if wall < 1711850400000000 then hourUs else 2 * hourUs
  forward n := by
    simp only [dayUs, hourUs_eq]
    split_ifs <;> omega

theorem parisSpring_forward : ForwardWithinHour parisSpring := by
  intro n wall hfrom hto
  simp only [parisSpring, hourUs_eq] at *
  split <;> split <;> omega

def isoText : PythonText := { QualityCounts.augustDays with fromisoformat := fromisoformat }

/-- The only hour of 31 March is the one that the clocks skip. -/
def skippedHour : List Event :=
  [.preset .last7 (dateOf 20240401), .dawn (dateOf 20240402), .custom, .calendar (.day 20240331),
    .calendar (.day 20240331), .apply, .fromHour 2, .toHour 2]

theorem page_window_skippedHour :
    ∃ s, runEvents (guardedNext (fun s e => decide (FourDigits s e)) next)
        (mounted (dateOf 20240331) (dateOf 20240401) none) skippedHour = some s ∧
      (callWindow isoText parisSpring (dateOf 20240402) (some s.range.query.1)
        (some s.range.query.2)).isOk = true := by
  have hrun : (runEvents (guardedNext (fun s e => decide (FourDigits s e)) next)
      (mounted (dateOf 20240331) (dateOf 20240401) none) skippedHour).isSome = true := by
    decide +kernel
  obtain ⟨s, hs⟩ := Option.isSome_iff_exists.mp hrun
  have hsteps : Execution (Guarded FourDigits (StepOf next))
      (mounted (dateOf 20240331) (dateOf 20240401) none) s :=
    (runEvents_guarded hs).mono fun u e _ step =>
      ⟨of_decide_eq_true (p := FourDigits u e) step.1, step.2⟩
  have hiso : isoText.fromisoformat = fromisoformat := rfl
  obtain ⟨_, _, _, _, hwindow⟩ := page_window_accepted hiso parisSpring_forward
    (by decide +kernel) (by decide +kernel) (by decide +kernel) (by rintro _ ⟨⟩) hsteps
  refine ⟨s, hs, ?_⟩
  rw [hwindow]
  rfl

end CallWindow
