import SIPMediaGW.JsDates
import SIPMediaGW.LabelledExecutions

/-! # The calendar of the call log and of the audit log

Two months side by side, from which a first day and a last one are picked. A click or a key goes to
a day that is drawn; the button for the next month is off at the last one. Days that the zone of the
browser skips whole (30 December 2011 in Pacific/Apia) are not modelled. -/
namespace DatePicker

open Calendar
open JsDates
open PeriodWindows
open LabelledExecutions

/-- The end of the window that the next click sets. -/
inductive Picking where
  | start
  | stop
  deriving DecidableEq, Repr

structure State where
  start : ℤ
  stop : ℤ
  picking : Picking
  focus : ℤ
  view : ℤ
  deriving DecidableEq, Repr

inductive Move where
  | arrowLeft
  | arrowRight
  | arrowUp
  | arrowDown
  | pageUp
  | pageDown
  | home
  | toEnd
  deriving DecidableEq, Repr

/-- Monday first. -/
def column (key : ℤ) : ℤ := (getDay (dateOf key) + 6) % 7

/-- `MOVES`. -/
def Move.apply (key : ℤ) : Move → ℤ
  | .arrowLeft => addDays key (-1)
  | .arrowRight => addDays key 1
  | .arrowUp => addDays key (-7)
  | .arrowDown => addDays key 7
  | .pageUp => addMonths key (-1)
  | .pageDown => addMonths key 1
  | .home => addDays key (-column key)
  | .toEnd => addDays key (6 - column key)

/-- A cell of the table of a month: a day of another month is left blank. -/
def dayCell (key month : ℤ) : Option ℤ := if monthOf key = month then some key else none

/-- The cell of a week and a weekday, both from 0. -/
def gridCell (month : ℤ) (week day : ℕ) : Option ℤ :=
  let first := firstOf month
  let origin := addDays first (-column first)
  dayCell (addDays origin (week * 7 + day)) month

def monthGrid (month : ℤ) : List (List (Option ℤ)) :=
  (List.range 6).map fun week => (List.range 7).map (gridCell month week)

/-- The days that a month's table shows. -/
def shownDays (month : ℤ) : List ℤ := (monthGrid month).flatten.filterMap id

section Calendars

variable (max : Option ℤ)

def limit (key : ℤ) : Bool := max.any fun last => decide (last < key)

/-- The right-hand month never goes past the one holding `max`. -/
def lastView : Option ℤ := max.map fun last => monthOf last - 1

/-- `Math.min(view, lastView())`. -/
def capped (view : ℤ) : ℤ :=
  match lastView max with
  | none => view
  | some last => min view last

def State.visible (s : State) : List ℤ := [s.view, s.view + 1]

def State.displayed (s : State) : List ℤ := s.visible.flatMap shownDays

def blocked (s : State) (key : ℤ) : Bool :=
  limit max key || (decide (s.picking = .stop) && decide (key < s.start))

/-- Keep a day on screen: the left month moves only as far as needed. -/
def State.reveal (s : State) (key : ℤ) : State :=
  let month := monthOf key
  if month < s.view then { s with view := month }
  else if s.view + 1 < month then { s with view := month - 1 }
  else s

def pick (s : State) (key : ℤ) : State :=
  if blocked max s key then s
  else
    match s.picking with
    | .start =>
      { s with start := key, stop := if s.stop < key then key else s.stop
               picking := .stop, focus := key }
    | .stop => { s with stop := key, picking := .start, focus := key }

def moveFocus (s : State) (key : ℤ) : State :=
  let focus := match max with
    | some last => if last < key then last else key
    | none => key
  { s with focus := focus }.reveal focus

/-- `shown[0] >= lastView()`. -/
def atEnd (s : State) : Bool := (lastView max).any fun last => decide (last ≤ s.view)

/-- The button of the previous month, or of the next one. -/
def nav (s : State) (n : ℤ) : State :=
  let view := match lastView max with
    | none => s.view + n
    | some last => min (s.view + n) (if s.view < last then last else s.view)
  { s with view := view, focus := firstOf view }

def opened (start stop : ℤ) (picking : Picking) : State :=
  let focus := if picking = .stop then stop else start
  State.reveal ⟨start, stop, picking, focus, capped max (monthOf start)⟩ focus

inductive Event where
  | day (key : ℤ)
  | previous
  | next
  | key (move : Move) (on : ℤ)
  deriving DecidableEq, Repr

/-- A click or a key while the panel is open. -/
def next (s : State) : Event → Option State
  | .day key => if key ∈ s.displayed then some (pick max s key) else none
  | .previous => some (nav max s (-1))
  | .next => if atEnd max s = true then none else some (nav max s 1)
  | .key move on => if on ∈ s.displayed then some (moveFocus max s (move.apply on)) else none

end Calendars

section Grid

variable {m : ℤ} {key : ℤ}

/-- A day that the front end can write: four digits of a year. -/
def Real (key : ℤ) : Prop := ∃ d : Date, key = keyOf d ∧ 1000 ≤ d.year

theorem column_keyOf {d : Date} (h : 100 ≤ d.year) : column (keyOf d) = (d.toordinal + 6) % 7 := by
  rw [column, dateOf_keyOf h, getDay]
  omega

theorem year_of_monthIndex {d : Date} {y : ℤ} (h : y * 12 ≤ monthIndex d) : y ≤ d.year := by
  have hpos := d.month_pos
  have hle := d.month_le
  unfold monthIndex getMonth at h
  omega

theorem monthIndex_of_year {d : Date} {y : ℤ} (h : y ≤ d.year) : y * 12 ≤ monthIndex d := by
  have hpos := d.month_pos
  unfold monthIndex getMonth
  omega

/-- The weekday of the first of a month. -/
def offset (m : ℤ) : ℤ := ((monthStart m).toordinal + 6) % 7

theorem offset_range (m : ℤ) : 0 ≤ offset m ∧ offset m < 7 := by
  unfold offset
  omega

/-- A day of the month before, or a later one. -/
theorem le_year_shift {y n : ℤ} (h : (y + 1) * 12 ≤ m) (hn : -31 ≤ n) :
    y ≤ (shift (monthStart m) n).year := by
  have hstart := toordinal_monthStart_succ (m - 1)
  have hstart' := toordinal_monthStart_succ (m - 1 - 1)
  rw [sub_add_cancel] at hstart hstart'
  have hdays := daysOf_pos (m - 1)
  have hdays' := daysOf_pos (m - 1 - 1)
  by_contra hlt
  have hle : (shift (monthStart m) n).toordinal < (monthStart (m - 1 - 1)).toordinal := by
    have hi := monthIndex_monthStart (m - 1 - 1)
    have hpos := (monthStart (m - 1 - 1)).month_pos
    have hmonths := (monthStart (m - 1 - 1)).month_le
    have hle := (shift (monthStart m) n).month_le
    rw [Date.toordinal_lt_iff]
    unfold monthIndex getMonth at hi
    omega
  rw [toordinal_shift] at hle
  omega

theorem gridCell_eq (h : 1212 ≤ m) (week day : ℕ) : gridCell m week day =
    let i : ℤ := week * 7 + day - offset m
    if 0 ≤ i ∧ i < daysOf m then some (keyOf (shift (monthStart m) i)) else none := by
  have hstart : 100 ≤ (monthStart m).year := by
    rw [year_monthStart]
    omega
  obtain ⟨hlow, hhigh⟩ := offset_range m
  have horigin : addDays (firstOf m) (-column (firstOf m)) =
      keyOf (shift (monthStart m) (-offset m)) := by
    rw [firstOf_eq (by omega), column_keyOf hstart, addDays_keyOf hstart]
    rfl
  have hyear := le_year_shift (m := m) (y := 100) (n := -offset m) (by omega) (by omega)
  have hcell := le_year_shift (m := m) (y := 100) (n := -offset m + (week * 7 + day))
    (by omega) (by omega)
  have hsame : -offset m + ((week : ℤ) * 7 + day) = week * 7 + day - offset m := by omega
  rw [gridCell, dayCell, horigin, addDays_keyOf hyear, shift_shift, monthOf_keyOf hcell, hsame]
  simp only [monthIndex_eq_iff, toordinal_shift]
  congr 1
  rw [eq_iff_iff]
  omega

/-- The cells of a month's table, row after row. -/
theorem monthGrid_flatten (m : ℤ) :
    (monthGrid m).flatten = (List.range 42).map fun j => gridCell m (j / 7) (j % 7) := rfl

/-- The numbers of a window of a range. -/
theorem filterMap_window {α : Type} (f : ℕ → α) (low n total : ℕ) (h : low + n ≤ total) :
    (List.range total).filterMap
        (fun j => if low ≤ j ∧ j < low + n then some (f (j - low)) else none) =
      (List.range n).map f := by
  induction total generalizing n with
  | zero =>
    obtain rfl : n = 0 := by omega
    rfl
  | succ total ih =>
    rw [List.range_succ, List.filterMap_append, List.filterMap_cons, List.filterMap_nil]
    by_cases hlast : low ≤ total ∧ total < low + n
    · obtain ⟨k, rfl⟩ : ∃ k, n = k + 1 := ⟨n - 1, by omega⟩
      have hk : total - low = k := by omega
      have hshort : (List.range total).filterMap
          (fun j => if low ≤ j ∧ j < low + (k + 1) then some (f (j - low)) else none) =
            (List.range total).filterMap
              fun j => if low ≤ j ∧ j < low + k then some (f (j - low)) else none := by
        apply List.filterMap_congr
        intro j hj
        have := List.mem_range.mp hj
        congr 1
        rw [eq_iff_iff]
        omega
      rw [if_pos hlast, hshort, ih k (by omega), List.range_succ, List.map_append, hk]
      rfl
    · rw [if_neg hlast]
      by_cases hn : n = 0
      · subst hn
        simp only [List.append_nil, List.range_zero, List.map_nil, List.filterMap_eq_nil_iff]
        exact fun j _ => if_neg (by omega)
      · exact (List.append_nil _).trans (ih n (by omega))

/-- The day of a month at a number from 0. -/
def dayAt (m : ℤ) (i : ℕ) : ℤ := keyOf (shift (monthStart m) i)

theorem shownDays_eq (h : 1212 ≤ m) : shownDays m = (List.range (daysOf m)).map (dayAt m) := by
  obtain ⟨hlow, hhigh⟩ := offset_range m
  have hdays := daysOf_le m
  rw [shownDays, monthGrid_flatten, List.filterMap_map,
    ← filterMap_window (dayAt m) (offset m).toNat (daysOf m) 42 (by omega)]
  apply List.filterMap_congr
  intro j _
  have hj : ((j / 7 : ℕ) : ℤ) * 7 + (j % 7 : ℕ) = j := by omega
  simp only [Function.comp_apply, id_eq, gridCell_eq h, hj]
  by_cases hin : (offset m).toNat ≤ j ∧ j < (offset m).toNat + daysOf m
  · have hi : ((j - (offset m).toNat : ℕ) : ℤ) = j - offset m := by omega
    rw [if_pos hin, if_pos (by omega), dayAt, hi]
  · rw [if_neg hin, if_neg (by omega)]

theorem dayAt_parts {i : ℕ} (hi : i < daysOf m) :
    ∃ d : Date, dayAt m i = keyOf d ∧ monthIndex d = m ∧ d.day = i + 1 := by
  have hday := day_shift_monthStart (m := m) (k := (i : ℤ) + 1) (by omega) (by omega)
  rw [add_sub_cancel_right] at hday
  refine ⟨shift (monthStart m) i, rfl, hday.1, ?_⟩
  have := hday.2
  omega

/-- The table of a month shows each of its days once, in their order, and every day in the column
of its weekday. -/
theorem month_grid (month : ℤ) (h : 1212 ≤ month) :
    (shownDays month).length = daysInMonth (month / 12) ((month % 12).toNat + 1) ∧
    (∀ (i : ℕ) (key : ℤ), (shownDays month)[i]? = some key → ∃ d : Date, key = keyOf d ∧
      d.year = month / 12 ∧ (d.month : ℤ) = month % 12 + 1 ∧ d.day = i + 1) ∧
    ∀ week day key, day < 7 → gridCell month week day = some key →
      (dateOf key).weekday = day := by
  refine ⟨by rw [shownDays_eq h, List.length_map, List.length_range]; rfl, ?_, ?_⟩
  · intro i key hkey
    rw [shownDays_eq h, List.getElem?_map] at hkey
    obtain ⟨j, hj, rfl⟩ := Option.map_eq_some_iff.mp hkey
    obtain ⟨hlt, hij⟩ := List.getElem?_eq_some_iff.mp hj
    rw [List.getElem_range] at hij
    subst hij
    rw [List.length_range] at hlt
    obtain ⟨d, hd, hindex, hday⟩ := dayAt_parts hlt
    refine ⟨d, hd, ?_, ?_, hday⟩
    · rw [← hindex, monthIndex_div]
    · have hmod := monthIndex_mod d
      rw [hindex] at hmod
      omega
  · intro week day key hday hkey
    rw [gridCell_eq h] at hkey
    simp only at hkey
    split at hkey
    · have hyear := le_year_shift (m := month) (y := 100)
        (n := (week : ℤ) * 7 + day - offset month) (by omega) (by omega)
      obtain rfl := Option.some.inj hkey
      rw [dateOf_keyOf hyear, Date.weekday, toordinal_shift, offset]
      omega
    · cases hkey

theorem month_grid_leap : (shownDays 24289).length = daysInMonth 2024 2 ∧
    ∀ week day key, day < 7 → gridCell 24289 week day = some key →
      (dateOf key).weekday = day :=
  ⟨(month_grid 24289 (by decide)).1, (month_grid 24289 (by decide)).2.2⟩

end Grid

section Moves

variable {d e : Date} {key : ℤ} {s t : State}

theorem monthIndex_le (h : keyOf d ≤ keyOf e) : monthIndex d ≤ monthIndex e := by
  have hle := mt (keyOf_lt_iff (d := e) (e := d)).mpr (not_lt.mpr h)
  rw [Date.toordinal_lt_iff] at hle
  have hpos := d.month_pos
  have hmonths := d.month_le
  have hpos' := e.month_pos
  have hmonths' := e.month_le
  unfold monthIndex getMonth
  omega

theorem keyOf_lt_of_monthIndex (h : monthIndex d < monthIndex e) : keyOf d < keyOf e := by
  by_contra hle
  have := monthIndex_le (not_lt.mp hle)
  omega

theorem Real.monthOf_le {k l : ℤ} (hk : Real k) (hl : Real l) (h : k ≤ l) :
    monthOf k ≤ monthOf l := by
  obtain ⟨d, rfl, hd⟩ := hk
  obtain ⟨e, rfl, he⟩ := hl
  rw [monthOf_keyOf (by omega), monthOf_keyOf (by omega)]
  exact monthIndex_le h

theorem Real.monthOf_ge (h : Real key) : 12000 ≤ monthOf key := by
  obtain ⟨d, rfl, hd⟩ := h
  rw [monthOf_keyOf (by omega)]
  exact monthIndex_of_year hd

theorem real_of_monthIndex (h : 12012 ≤ monthIndex d) : Real (keyOf d) :=
  ⟨d, rfl, by have := year_of_monthIndex (y := 1001) (d := d) h; omega⟩

/-- The days of the two months. -/
theorem mem_displayed (h : 1212 ≤ s.view) : key ∈ s.displayed ↔
    ∃ d, key = keyOf d ∧ (monthIndex d = s.view ∨ monthIndex d = s.view + 1) := by
  have hshown : ∀ m, 1212 ≤ m → (key ∈ shownDays m ↔ ∃ d, key = keyOf d ∧ monthIndex d = m) := by
    intro m hm
    rw [shownDays_eq hm, List.mem_map]
    constructor
    · rintro ⟨i, hi, rfl⟩
      obtain ⟨d, hd, hindex, -⟩ := dayAt_parts (List.mem_range.mp hi)
      exact ⟨d, hd, hindex⟩
    · rintro ⟨d, rfl, rfl⟩
      have hpos := d.day_pos
      have hle := day_le_daysOf d
      have hi : ((d.day - 1 : ℕ) : ℤ) = d.day - 1 := by omega
      refine ⟨d.day - 1, List.mem_range.mpr (by omega), ?_⟩
      rw [dayAt, hi, shift_monthStart]
  rw [State.displayed, State.visible, List.flatMap_cons, List.flatMap_singleton,
    List.mem_append, hshown _ h, hshown _ (by omega)]
  constructor
  · rintro (⟨d, hd, hindex⟩ | ⟨d, hd, hindex⟩)
    · exact ⟨d, hd, .inl hindex⟩
    · exact ⟨d, hd, .inr hindex⟩
  · rintro ⟨d, hd, hindex | hindex⟩
    · exact .inl ⟨d, hd, hindex⟩
    · exact .inr ⟨d, hd, hindex⟩

theorem year_shift (h : 1001 ≤ d.year) {n : ℤ} (hn : -31 ≤ n) : 1000 ≤ (shift d n).year := by
  have hpos := d.day_pos
  have hindex : 12012 ≤ monthIndex d := monthIndex_of_year h
  rw [← shift_monthStart d, shift_shift]
  exact le_year_shift (by omega) (by omega)

theorem real_shift (h : 1001 ≤ d.year) {n : ℤ} (hn : -31 ≤ n) : Real (keyOf (shift d n)) :=
  ⟨_, rfl, year_shift h hn⟩

/-- A move goes to a day, at most a month before or after. -/
theorem move_real (move : Move) (h : 12012 ≤ monthIndex d) : Real (move.apply (keyOf d)) := by
  have hyear : 1001 ≤ d.year := year_of_monthIndex h
  have hmodern : 100 ≤ d.year := by omega
  have hcolumn : 0 ≤ column (keyOf d) ∧ column (keyOf d) < 7 := by
    rw [column_keyOf hmodern]
    omega
  have hdays : ∀ n : ℤ, -31 ≤ n → Real (addDays (keyOf d) n) := by
    intro n hn
    rw [addDays_keyOf hmodern]
    exact real_shift hyear hn
  have hmonths : ∀ n : ℤ, -1 ≤ n → Real (addMonths (keyOf d) n) := by
    intro n hn
    obtain ⟨e, he, hindex, -⟩ := addMonths_keyOf hmodern n
    rw [he]
    exact ⟨e, rfl, year_of_monthIndex (by omega)⟩
  cases move with
  | arrowLeft => exact hdays _ (by omega)
  | arrowRight => exact hdays _ (by omega)
  | arrowUp => exact hdays _ (by omega)
  | arrowDown => exact hdays _ (by omega)
  | pageUp => exact hmonths _ (by omega)
  | pageDown => exact hmonths _ (by omega)
  | home => exact hdays _ (by omega)
  | toEnd => exact hdays _ (by omega)

end Moves

/-- A window of days in order, and a day under the focus that is on screen. -/
structure Sound (s : State) : Prop where
  start : Real s.start
  stop : Real s.stop
  focus : Real s.focus
  ordered : s.start ≤ s.stop
  shown : monthOf s.focus = s.view ∨ monthOf s.focus = s.view + 1

/-- Nothing past the last day that can be picked. -/
structure Within (max : Option ℤ) (s : State) : Prop where
  stop : ∀ last, max = some last → s.stop ≤ last
  focus : ∀ last, max = some last → s.focus ≤ last
  view : ∀ last, max = some last → s.view + 1 ≤ monthOf last

/-- The calendar shows years from 1001 on. -/
def Recent (s : State) (_ : Event) : Prop := 12012 ≤ s.view

section Steps

variable {max : Option ℤ} {s t : State} {e : Event} {key start stop : ℤ} {picking : Picking}

theorem Sound.view (h : Sound s) : 11999 ≤ s.view := by
  have hfocus := h.focus.monthOf_ge
  rcases h.shown with hshown | hshown <;> omega

theorem Sound.displayed (h : Sound s) : s.focus ∈ s.displayed := by
  have hview := h.view
  obtain ⟨d, hd, hyear⟩ := h.focus
  have hshown := h.shown
  rw [hd, monthOf_keyOf (by omega)] at hshown
  exact (mem_displayed (by omega)).mpr ⟨d, hd, hshown⟩

theorem reveal_window (s : State) (key : ℤ) : (s.reveal key).start = s.start ∧
    (s.reveal key).stop = s.stop ∧ (s.reveal key).focus = s.focus := by
  simp only [State.reveal]
  split
  · exact ⟨rfl, rfl, rfl⟩
  · split <;> exact ⟨rfl, rfl, rfl⟩

theorem reveal_shown (s : State) (key : ℤ) :
    monthOf key = (s.reveal key).view ∨ monthOf key = (s.reveal key).view + 1 := by
  simp only [State.reveal]
  split
  · exact .inl rfl
  · split
    · right
      simp only
      omega
    · omega

theorem reveal_view (s : State) (key : ℤ) {last : ℤ} (hs : s.view + 1 ≤ last)
    (hkey : monthOf key ≤ last) : (s.reveal key).view + 1 ≤ last := by
  simp only [State.reveal]
  split
  · simp only
    omega
  · split
    · simp only
      omega
    · exact hs

theorem limit_eq_false (h : limit max key = false) {last : ℤ} (hmax : max = some last) :
    key ≤ last := by
  rw [limit, hmax, Option.any_some] at h
  exact not_lt.mp (of_decide_eq_false h)

theorem blocked_eq_false (h : blocked max s key = false) :
    limit max key = false ∧ (s.picking = .stop → s.start ≤ key) := by
  obtain ⟨hlimit, hbefore⟩ := Bool.or_eq_false_iff.mp h
  refine ⟨hlimit, fun hpicking => ?_⟩
  rw [decide_eq_true hpicking, Bool.true_and] at hbefore
  exact not_lt.mp (of_decide_eq_false hbefore)

theorem sound_pick (h : Sound s) (hrecent : 12012 ≤ s.view) (hkey : key ∈ s.displayed) :
    Sound (pick max s key) ∧ (Within max s → Within max (pick max s key)) := by
  obtain ⟨d, rfl, hindex⟩ := (mem_displayed (by omega)).mp hkey
  have hreal : Real (keyOf d) := real_of_monthIndex (by omega)
  have hshown : monthOf (keyOf d) = s.view ∨ monthOf (keyOf d) = s.view + 1 := by
    have hyear : 1001 ≤ d.year := year_of_monthIndex (by omega)
    rwa [monthOf_keyOf (by omega)]
  unfold pick
  split
  · exact ⟨h, id⟩
  · rename_i hblocked
    obtain ⟨hlimit, hafter⟩ := blocked_eq_false (Bool.eq_false_iff.mpr hblocked)
    split
    · by_cases hstop : s.stop < keyOf d
      · simp only [if_pos hstop]
        exact ⟨⟨hreal, hreal, hreal, le_rfl, hshown⟩, fun hw =>
          ⟨fun _ => limit_eq_false hlimit, fun _ => limit_eq_false hlimit, hw.view⟩⟩
      · simp only [if_neg hstop]
        exact ⟨⟨hreal, h.stop, hreal, not_lt.mp hstop, hshown⟩, fun hw =>
          ⟨hw.stop, fun _ => limit_eq_false hlimit, hw.view⟩⟩
    · rename_i hpicking
      exact ⟨⟨h.start, hreal, hreal, hafter hpicking, hshown⟩, fun hw =>
        ⟨fun _ => limit_eq_false hlimit, fun _ => limit_eq_false hlimit, hw.view⟩⟩

theorem sound_moveFocus (hmax : ∀ last, max = some last → Real last) (h : Sound s)
    (hkey : Real key) :
    Sound (moveFocus max s key) ∧ (Within max s → Within max (moveFocus max s key)) := by
  have hfocus : ∃ focus, moveFocus max s key = State.reveal { s with focus := focus } focus ∧
      Real focus ∧ ∀ last, max = some last → focus ≤ last := by
    unfold moveFocus
    cases max with
    | none => exact ⟨key, rfl, hkey, fun _ h => nomatch h⟩
    | some last =>
      by_cases hlast : last < key
      · refine ⟨last, by simp only [if_pos hlast], hmax last rfl, ?_⟩
        rintro _ ⟨⟩
        exact le_rfl
      · refine ⟨key, by simp only [if_neg hlast], hkey, ?_⟩
        rintro _ ⟨⟩
        exact not_lt.mp hlast
  obtain ⟨focus, heq, hreal, hle⟩ := hfocus
  obtain ⟨hstart, hstop, hsame⟩ := reveal_window { s with focus := focus } focus
  rw [heq]
  refine ⟨⟨?_, ?_, ?_, ?_, ?_⟩, fun hw => ⟨?_, ?_, ?_⟩⟩
  · rw [hstart]
    exact h.start
  · rw [hstop]
    exact h.stop
  · rw [hsame]
    exact hreal
  · rw [hstart, hstop]
    exact h.ordered
  · rw [hsame]
    exact reveal_shown _ _
  · rw [hstop]
    exact hw.stop
  · rw [hsame]
    exact hle
  · intro last hlast
    exact reveal_view _ _ (hw.view last hlast) (hreal.monthOf_le (hmax last hlast) (hle last hlast))

theorem sound_view (h : Sound s) {view : ℤ} (hview : 12000 ≤ view) :
    Sound { s with view := view, focus := firstOf view } := by
  have hyear : 1000 ≤ (monthStart view).year := by
    rw [year_monthStart]
    omega
  refine ⟨h.start, h.stop, ?_, h.ordered, .inl ?_⟩
  · rw [firstOf_eq (by omega)]
    exact ⟨_, rfl, hyear⟩
  · rw [firstOf_eq (by omega), monthOf_keyOf (by omega), monthIndex_monthStart]

theorem within_view (hmax : ∀ last, max = some last → Real last) (hw : Within max s) {view : ℤ}
    (hview : 12000 ≤ view) (hle : ∀ last, max = some last → view + 1 ≤ monthOf last) :
    Within max { s with view := view, focus := firstOf view } := by
  refine ⟨hw.stop, fun last hlast => ?_, hle⟩
  obtain ⟨d, rfl, hyear⟩ := hmax last hlast
  have hindex := hle _ hlast
  rw [monthOf_keyOf (by omega)] at hindex
  rw [firstOf_eq (by omega)]
  exact (keyOf_lt_of_monthIndex (by rw [monthIndex_monthStart]; omega)).le

theorem nav_previous (max : Option ℤ) (s : State) :
    nav max s (-1) = { s with view := s.view - 1, focus := firstOf (s.view - 1) } := by
  have hview : (match lastView max with
      | none => s.view + -1
      | some last => min (s.view + -1) (if s.view < last then last else s.view)) = s.view - 1 := by
    split
    · rfl
    · exact min_eq_left (by split <;> omega)
  simp only [nav, hview]

theorem nav_next (h : atEnd max s ≠ true) :
    nav max s 1 = { s with view := s.view + 1, focus := firstOf (s.view + 1) } ∧
      ∀ last, max = some last → s.view + 1 + 1 ≤ monthOf last := by
  have hlt : ∀ last, lastView max = some last → s.view < last := by
    intro last hlast
    simp only [atEnd, hlast, Option.any_some] at h
    exact not_le.mp (of_decide_eq_false (Bool.eq_false_iff.mpr h))
  have hview : (match lastView max with
      | none => s.view + 1
      | some last => min (s.view + 1) (if s.view < last then last else s.view)) = s.view + 1 := by
    split
    · rfl
    · rename_i last hlast
      rw [if_pos (hlt last hlast)]
      exact min_eq_left (hlt last hlast)
  refine ⟨by simp only [nav, hview], fun last hlast => ?_⟩
  have := hlt (monthOf last - 1) (by rw [lastView, hlast]; rfl)
  omega

/-- A click or a key keeps the window and the focus as they should be. -/
theorem sound_next (hmax : ∀ last, max = some last → Real last) (h : Sound s)
    (hrecent : 12012 ≤ s.view) (hstep : next max s e = some t) :
    Sound t ∧ (Within max s → Within max t) := by
  cases e with
  | day key =>
    simp only [next] at hstep
    split at hstep
    · rename_i hkey
      obtain rfl := Option.some.inj hstep
      exact sound_pick h hrecent hkey
    · cases hstep
  | previous =>
    obtain rfl := Option.some.inj hstep
    rw [nav_previous]
    refine ⟨sound_view h (by omega), fun hw => within_view hmax hw (by omega) ?_⟩
    intro last hlast
    have := hw.view last hlast
    omega
  | next =>
    simp only [next] at hstep
    split at hstep
    · cases hstep
    · rename_i hend
      obtain rfl := Option.some.inj hstep
      obtain ⟨heq, hle⟩ := nav_next hend
      rw [heq]
      exact ⟨sound_view h (by omega), fun hw => within_view hmax hw (by omega) hle⟩
  | key move on =>
    simp only [next] at hstep
    split at hstep
    · rename_i hkey
      obtain rfl := Option.some.inj hstep
      obtain ⟨d, rfl, hindex⟩ := (mem_displayed (by omega)).mp hkey
      exact sound_moveFocus hmax h (move_real move (by omega))
    · cases hstep

/-- The last day of the window moves only to a day that can be picked. -/
theorem stop_next {last : ℤ} (hstep : next (some last) s e = some t) :
    t.stop = s.stop ∨ t.stop ≤ last := by
  cases e with
  | day key =>
    simp only [next] at hstep
    split at hstep
    · obtain rfl := Option.some.inj hstep
      unfold pick
      split
      · exact .inl rfl
      · rename_i hblocked
        have hlimit := limit_eq_false (blocked_eq_false (Bool.eq_false_iff.mpr hblocked)).1 rfl
        split
        · by_cases hstop : s.stop < key
          · simp only [if_pos hstop]
            exact .inr hlimit
          · exact .inl (by simp only [if_neg hstop])
        · exact .inr hlimit
    · cases hstep
  | previous =>
    obtain rfl := Option.some.inj hstep
    exact .inl rfl
  | next =>
    simp only [next] at hstep
    split at hstep
    · cases hstep
    · obtain rfl := Option.some.inj hstep
      exact .inl rfl
  | key move on =>
    simp only [next] at hstep
    split at hstep
    · obtain rfl := Option.some.inj hstep
      exact .inl (reveal_window _ _).2.1
    · cases hstep

theorem stop_opened (max : Option ℤ) (start stop : ℤ) (picking : Picking) :
    (opened max start stop picking).stop = stop :=
  (reveal_window ⟨start, stop, picking, if picking = .stop then stop else start,
    capped max (monthOf start)⟩ _).2.1

theorem sound_opened (max : Option ℤ) (hstart : Real start) (hstop : Real stop)
    (hle : start ≤ stop) : Sound (opened max start stop picking) := by
  simp only [opened]
  generalize hfocus : (if picking = .stop then stop else start) = focus
  have hreal : Real focus := by
    rw [← hfocus]
    split <;> assumption
  obtain ⟨hs, ht, hf⟩ :=
    reveal_window ⟨start, stop, picking, focus, capped max (monthOf start)⟩ focus
  refine ⟨?_, ?_, ?_, ?_, ?_⟩
  · rwa [hs]
  · rwa [ht]
  · rwa [hf]
  · rwa [hs, ht]
  · rw [hf]
    exact reveal_shown _ _

theorem within_opened (hmax : ∀ last, max = some last → Real last) (hstart : Real start)
    (hstop : Real stop) (hle : start ≤ stop) (hlast : ∀ last, max = some last → stop ≤ last) :
    Within max (opened max start stop picking) := by
  simp only [opened]
  generalize hfocus : (if picking = .stop then stop else start) = focus
  have hreal : Real focus ∧ focus ≤ stop := by
    rw [← hfocus]
    split
    · exact ⟨hstop, le_rfl⟩
    · exact ⟨hstart, hle⟩
  obtain ⟨hs, ht, hf⟩ :=
    reveal_window ⟨start, stop, picking, focus, capped max (monthOf start)⟩ focus
  refine ⟨?_, ?_, ?_⟩
  · rwa [ht]
  · rw [hf]
    exact fun last h => hreal.2.trans (hlast last h)
  · intro last h
    subst h
    have hfocus' := hreal.1.monthOf_le (hmax last rfl) (hreal.2.trans (hlast last rfl))
    apply reveal_view
    · simp only [capped, lastView, Option.map_some]
      omega
    · exact hfocus'

/-- Opened on a window of days in order up to the last one that can be picked, the calendar keeps
such a window through every click and key: the days it would hand over are in order and not past
the last one, the month on the right is not past it either, and the day under the focus is always
drawn, so that the keyboard never loses it. -/
theorem calendar_keeps_window (hmax : ∀ last, max = some last → Real last) (hstart : Real start)
    (hstop : Real stop) (hle : start ≤ stop) (hlast : ∀ last, max = some last → stop ≤ last)
    (h : Execution (Guarded Recent (StepOf (next max))) (opened max start stop picking) s) :
    Real s.start ∧ Real s.stop ∧ s.start ≤ s.stop ∧ s.focus ∈ s.displayed ∧
      ∀ last, max = some last → s.stop ≤ last ∧ s.focus ≤ last ∧ s.view + 1 ≤ monthOf last := by
  have hboth : Sound s ∧ Within max s := by
    refine h.guarded_invariant (I := fun s => Sound s ∧ Within max s) ?_
      ⟨sound_opened max hstart hstop hle, within_opened hmax hstart hstop hle hlast⟩
    rintro u e v ⟨hsound, hwithin⟩ hrecent hstep
    obtain ⟨hsound', hwithin'⟩ := sound_next hmax hsound hrecent hstep
    exact ⟨hsound', hwithin' hwithin⟩
  obtain ⟨hsound, hwithin⟩ := hboth
  exact ⟨hsound.start, hsound.stop, hsound.ordered, hsound.displayed, fun last hmax' =>
    ⟨hwithin.stop last hmax', hwithin.focus last hmax', hwithin.view last hmax'⟩⟩

/-- A first day, the day a month after it as the last one, then a month back. -/
def monthPicked : List Event :=
  [.day 20240110, .key .pageDown 20240110, .day 20240210, .previous]

theorem calendar_keeps_window_month :
    ∃ s, runEvents (guardedNext (fun s _ => decide (12012 ≤ s.view)) (next (some 20240229)))
        (opened (some 20240229) 20240105 20240106 .start) monthPicked = some s ∧
      (s.start, s.stop, s.view) = (20240110, 20240210, 24287) ∧ s.focus ∈ s.displayed := by
  have hrun : (runEvents (guardedNext (fun s _ => decide (12012 ≤ s.view)) (next (some 20240229)))
      (opened (some 20240229) 20240105 20240106 .start) monthPicked).map
        (fun s => (s.start, s.stop, s.view)) = some (20240110, 20240210, 24287) := by
    decide +kernel
  obtain ⟨s, hs, hwindow⟩ := Option.map_eq_some_iff.mp hrun
  have hmax : ∀ last, some (20240229 : ℤ) = some last → Real last := by
    rintro _ ⟨⟩
    exact ⟨dateOf 20240229, by decide +kernel, by decide +kernel⟩
  have hsteps : Execution (Guarded Recent (StepOf (next (some 20240229))))
      (opened (some 20240229) 20240105 20240106 .start) s :=
    (runEvents_guarded hs).mono fun u _ _ step =>
      ⟨of_decide_eq_true (p := 12012 ≤ u.view) step.1, step.2⟩
  exact ⟨s, hs, hwindow, (calendar_keeps_window hmax
    ⟨dateOf 20240105, by decide +kernel, by decide +kernel⟩
    ⟨dateOf 20240106, by decide +kernel, by decide +kernel⟩ (by decide)
    (by rintro _ ⟨⟩; decide) hsteps).2.2.2.1⟩

end Steps

end DatePicker
