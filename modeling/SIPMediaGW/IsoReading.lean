import SIPMediaGW.IsoInstants
import SIPMediaGW.QualityCounts

/-! # Texts as instants

`datetime.fromisoformat` reads the ISO 8601 texts: a day of a month or of a week, with its dashes or
without, then any character, the time, and the offset. A clock is in microseconds of the Unix
epoch. -/
namespace IsoReading

open Calendar
open IngestMapping
open IsoInstants
open QualityCounts (dayUs epochDay)
open ScalerTarget (digitPair)

def secondUs : ℤ := 1000000

theorem secondUs_eq : secondUs = 1000000 := rfl

section Digits

def digit (c : Char) : Option ℕ := if '0' ≤ c ∧ c ≤ '9' then some (c.toNat - 48) else none

/-- A number of so many digits, and what follows it. -/
def readNumber (acc : ℕ) : ℕ → List Char → Option (ℕ × List Char)
  | 0, rest => some (acc, rest)
  | _ + 1, [] => none
  | k + 1, c :: rest =>
    match digit c with
    | none => none
    | some d => readNumber (acc * 10 + d) k rest

/-- The value of a text of digits; `none` where a character is not one. -/
def readAll (text : List Char) : Option ℕ :=
  match readNumber 0 text.length text with
  | none => none
  | some (n, _) => some n

variable {n acc k : ℕ} {rest : List Char}

theorem digit_digitChar (h : n < 10) : digit (Nat.digitChar n) = some n := by
  have hall : ∀ i : Fin 10, digit (Nat.digitChar i) = some i.val := by decide
  exact hall ⟨n, h⟩

theorem readNumber_digitChar (h : n < 10) :
    readNumber acc (k + 1) (Nat.digitChar n :: rest) = readNumber (acc * 10 + n) k rest := by
  rw [readNumber, digit_digitChar h]

theorem readNumber_digitPair (h : n < 100) :
    readNumber acc (k + 2) (digitPair n ++ rest) = readNumber (acc * 100 + n) k rest := by
  have hvalue : (acc * 10 + n / 10) * 10 + n % 10 = acc * 100 + n := by omega
  rw [digitPair, List.cons_append, List.singleton_append, readNumber_digitChar (by omega),
    readNumber_digitChar (by omega), hvalue]

end Digits

section Days

variable (text : List Char)

/-- Where the date ends. -/
def findSeparator : Option ℕ :=
  if text.length = 7 then some 7
  else if text[4]? = some '-' then
    if text[5]? = some 'W' then
      if text[8]? = some '-' then
        if text.length = 9 then none
        else if (text[10]?.bind digit).isSome then some 8
        else some 10
      else some 8
    else some 10
  else if text[4]? = some 'W' then
    let idx := 7 + ((text.drop 7).takeWhile fun c => (digit c).isSome).length
    if idx < 9 then some idx
    else if idx % 2 = 0 then some 7
    else some 8
  else some 8

/-- The day of a year, a month and a day. -/
def ofFields (year month day : ℕ) : Option Date :=
  if h : (1 ≤ month ∧ month ≤ 12) ∧ 1 ≤ day ∧ day ≤ daysInMonth year month then
    some ⟨year, month, day, h.1.1, h.1.2, h.2.1, h.2.2⟩
  else none

/-- The Monday of the first week of a year: the week that has its first Thursday. -/
def firstMonday (year : ℤ) : ℤ :=
  let firstDay := (Date.newYear year).toordinal
  let monday := firstDay - (Date.newYear year).weekday
  if 3 < (Date.newYear year).weekday then monday + 7 else monday

/-- The day of a year, a week and a weekday. -/
def ofWeek (year week day : ℕ) : Option ℤ :=
  let long := (Date.newYear year).weekday = 3 ∨ (Date.newYear year).weekday = 2 ∧ isLeap year
  if ((1 ≤ week ∧ week ≤ 52) ∨ week = 53 ∧ long) ∧ 1 ≤ day ∧ day ≤ 7 then
    some (firstMonday year + (week - 1) * 7 + (day - 1))
  else none

def yearRange (ordinal : ℤ) : Option ℤ :=
  if 1 ≤ ordinal ∧ ordinal ≤ 3652059 then some ordinal else none

/-- What follows a dash, where the date has dashes. -/
def skipDash (dashed : Bool) (rest : List Char) : Option (List Char) :=
  if decide (rest.head? = some '-') = dashed then some (if dashed then rest.drop 1 else rest)
  else none

def readWeek (year : ℕ) (dashed : Bool) (rest : List Char) : Option ℤ := do
  let (week, rest) ← readNumber 0 2 rest
  if rest = [] then (ofWeek year week 1).bind yearRange
  else do
    let (day, _) ← readNumber 0 1 (← skipDash dashed rest)
    (ofWeek year week day).bind yearRange

def readMonth (year : ℕ) (dashed : Bool) (rest : List Char) : Option ℤ := do
  let (month, rest) ← readNumber 0 2 rest
  let (day, _) ← readNumber 0 2 (← skipDash dashed rest)
  (ofFields year month day).map Date.toordinal

/-- The ordinal of the day that a text gives. -/
def readDate : Option ℤ := do
  let (year, rest) ← readNumber 0 4 text
  let dashed := decide (rest.head? = some '-')
  let rest ← skipDash dashed rest
  if year = 0 then none
  else if rest.head? = some 'W' then readWeek year dashed (rest.drop 1)
  else readMonth year dashed rest

end Days

/-- `HH[:MM[:SS[.ffffff]]]`, with its colons or without. -/
structure Clock where
  hours : ℕ
  minutes : ℕ
  seconds : ℕ
  microseconds : ℕ

def Clock.us (c : Clock) : ℤ :=
  (c.hours * 3600 + c.minutes * 60 + c.seconds) * secondUs + c.microseconds

section Times

/-- The fields of two digits that follow, at most so many. -/
def moreFields (colons : Bool) : ℕ → List Char → Option (List ℕ × List Char)
  | 0, rest => some ([], rest)
  | _ + 1, [] => some ([], [])
  | k + 1, c :: rest =>
    if colons && c ≠ ':' then none
    else do
      let (field, rest) ← readNumber 0 2 (if colons then rest else c :: rest)
      let (fields, rest) ← moreFields colons k rest
      some (field :: fields, rest)

/-- The microseconds of a fraction; digits after the sixth are dropped. -/
def readFraction : List Char → Option ℕ
  | [] => some 0
  | c :: digits =>
    if (c = '.' ∨ c = ',') ∧ digits ≠ [] then
      if digits.length ≤ 6 then (readAll digits).map fun n => n * 10 ^ (6 - digits.length)
      else (readAll digits).bind fun _ => readAll (digits.take 6)
    else none

variable (text : List Char)

def readClock : Option Clock := do
  let (hours, rest) ← readNumber 0 2 text
  let (fields, rest) ← moreFields (rest.head? = some ':') 2 rest
  let microseconds ← readFraction rest
  some ⟨hours, fields.getD 0 0, fields.getD 1 0, microseconds⟩

def isZone (c : Char) : Bool := c == '+' || c == '-' || c == 'Z'

/-- A sign and `HH[:MM[:SS[.ffffff]]]`, or `Z`. -/
def readOffset : List Char → Option ℤ
  | [] => none
  | sign :: rest =>
    if sign = 'Z' then if rest = [] then some 0 else none
    else do
      let clock ← readClock rest
      if clock.us < dayUs then some (if sign = '-' then -clock.us else clock.us) else none

/-- The time since midnight, and the offset when the text gives one. -/
def readTime : Option (ℤ × Option ℤ) := do
  let plain := text.takeWhile fun c => !isZone c
  let clock ← readClock plain
  if clock.hours < 24 ∧ clock.minutes < 60 ∧ clock.seconds < 60 then
    if plain.length = text.length then some (clock.us, none)
    else (readOffset (text.drop plain.length)).map fun offset => (clock.us, some offset)
  else none

end Times

/-- `datetime.fromisoformat(text)`; `none` where it raises ValueError. -/
def fromisoformat (text : String) : Option Datetime := do
  let chars := text.toList
  if chars.length < 7 then none
  else do
    let separator ← findSeparator chars
    let ordinal ← readDate (chars.take separator)
    let midnight := (ordinal - epochDay) * dayUs
    match chars.drop separator with
    | [] => some ⟨midnight, none⟩
    | _ :: time => do
      let (us, offset) ← readTime time
      some ⟨midnight + us, offset⟩

/-- The instant of a `datetime`. -/
def exact (t : DateTime) : ℤ :=
  (t.date.toordinal - epochDay) * dayUs + t.time.time * secondUs + t.microsecond

/-- The instant that `isoZ` writes: without what `timespec` leaves out. -/
def written (ms : Bool) (t : DateTime) : ℤ :=
  exact t - if ms then (t.microsecond % 1000 : ℤ) else t.microsecond

section Written

variable {t : DateTime} {rest : List Char}

theorem skipDash_dashed (rest : List Char) : skipDash true ('-' :: rest) = some rest := rfl

theorem digitPair_cons (n : ℕ) (rest : List Char) : digitPair n ++ rest =
    Nat.digitChar (n / 10) :: Nat.digitChar (n % 10) :: rest := rfl

theorem readDate_isoDate (d : Date) (hpos : 1 ≤ d.year) (hle : d.year ≤ 9999) :
    readDate (isoDate d) = some d.toordinal := by
  obtain ⟨year, hyear⟩ := Int.eq_ofNat_of_zero_le (by omega : 0 ≤ d.year)
  have hnat : d.year.toNat = year := by omega
  have hmonth := d.month_le
  have hday := d.day_le_thirtyOne
  have hfields : ofFields year d.month d.day = some d := by
    have hdays := d.day_le
    rw [hyear] at hdays
    rw [ofFields, dif_pos ⟨⟨d.month_pos, d.month_le⟩, d.day_pos, hdays⟩]
    cases d
    congr
    exact hyear.symm
  have hyearDigits (rest : List Char) : readNumber 0 4
      (digitPair (year / 100) ++ (digitPair (year % 100) ++ rest)) = some (year, rest) := by
    have hvalue : (0 * 100 + year / 100) * 100 + year % 100 = year := by omega
    rw [readNumber_digitPair (by omega), readNumber_digitPair (by omega), hvalue, readNumber]
  have hmonthDigits (rest : List Char) :
      readNumber 0 2 (digitPair d.month ++ rest) = some (d.month, rest) := by
    rw [readNumber_digitPair (by omega), readNumber, zero_mul, zero_add]
  have hdayDigits : readNumber 0 2 (digitPair d.day) = some (d.day, []) := by
    rw [← List.append_nil (digitPair d.day), readNumber_digitPair (by omega), readNumber, zero_mul,
      zero_add]
  have hweek (rest : List Char) : (digitPair d.month ++ rest).head? ≠ some 'W' := by
    have hall : ∀ i : Fin 10, Nat.digitChar i ≠ 'W' := by decide
    rw [digitPair_cons, List.head?_cons]
    exact fun h => hall ⟨d.month / 10, by omega⟩ (Option.some.inj h)
  rw [isoDate, hnat]
  simp only [readDate, List.append_assoc, List.cons_append, List.nil_append, hyearDigits,
    Option.bind_eq_bind, Option.bind_some, List.head?_cons, decide_true, skipDash_dashed,
    if_neg (show year ≠ 0 by omega), if_neg (hweek _), readMonth, hmonthDigits, hdayDigits,
    hfields, Option.map_some]

/-- The characters of a time are digits, colons and the dot of a fraction. -/
theorem takeWhile_time {time : List Char} (h : ∀ c ∈ time, isZone c = false) :
    (time ++ ['Z']).takeWhile (fun c => !isZone c) = time := by
  rw [List.takeWhile_append_of_pos (fun c hc => by rw [h c hc, Bool.not_false])]
  exact List.append_nil time

theorem isZone_digitChar {n : ℕ} (h : n < 10) : isZone (Nat.digitChar n) = false := by
  have hall : ∀ i : Fin 10, isZone (Nat.digitChar i) = false := by decide
  exact hall ⟨n, h⟩

theorem isZone_digitPair {n : ℕ} (h : n < 100) : ∀ c ∈ digitPair n, isZone c = false := by
  intro c hc
  rcases List.mem_pair.mp hc with rfl | rfl
  · exact isZone_digitChar (by omega)
  · exact isZone_digitChar (by omega)

/-- The microseconds that the text of an instant has. -/
def keptMicroseconds (ms : Bool) (t : DateTime) : ℕ :=
  if ms then t.microsecond / 1000 * 1000 else 0

theorem readFraction_fraction (ms : Bool) (t : DateTime) :
    readFraction (fraction ms t) = some (keptMicroseconds ms t) := by
  cases ms with
  | false => rfl
  | true =>
    have hlt := t.microsecond_lt
    have hvalue : (0 * 10 + t.microsecond / 1000 / 100) * 100 + t.microsecond / 1000 % 100 =
        t.microsecond / 1000 := by omega
    have hall : readAll (Nat.digitChar (t.microsecond / 1000 / 100) ::
        digitPair (t.microsecond / 1000 % 100)) = some (t.microsecond / 1000) := by
      change (match readNumber 0 3 _ with | none => none | some (n, _) => some n) = _
      rw [← List.append_nil (digitPair _), readNumber_digitChar (by omega),
        readNumber_digitPair (by omega), hvalue, readNumber]
    rw [fraction, if_pos rfl, List.append_assoc, List.singleton_append, List.singleton_append,
      readFraction, if_pos ⟨.inl rfl, List.cons_ne_nil _ _⟩, if_pos (by simp [digitPair]), hall]
    rfl

theorem readClock_time (ms : Bool) (t : DateTime) :
    readClock (t.time.text.toList ++ fraction ms t) =
      some ⟨t.time.hours, t.time.minutes, t.time.seconds, keptMicroseconds ms t⟩ := by
  have hhours := t.time.hours_lt
  have hminutes := t.time.minutes_lt
  have hseconds := t.time.seconds_lt
  have hpair {n : ℕ} (h : n < 100) (rest : List Char) :
      readNumber 0 2 (digitPair n ++ rest) = some (n, rest) := by
    rw [readNumber_digitPair h, readNumber, zero_mul, zero_add]
  simp only [readClock, ScalerTarget.TimeOfDay.text, String.toList_ofList, List.append_assoc,
    List.cons_append, hpair (show t.time.hours < 100 by omega), Option.bind_eq_bind,
    Option.bind_some, List.head?_cons, decide_true, moreFields, Bool.true_and, ne_eq,
    not_true_eq_false, decide_false, Bool.false_eq_true, if_false, if_true,
    hpair (show t.time.minutes < 100 by omega), hpair (show t.time.seconds < 100 by omega),
    readFraction_fraction, List.getD_cons_zero, List.getD_cons_succ]

theorem isZone_time (ms : Bool) (t : DateTime) :
    ∀ c ∈ t.time.text.toList ++ fraction ms t, isZone c = false := by
  have hhours := t.time.hours_lt
  have hminutes := t.time.minutes_lt
  have hseconds := t.time.seconds_lt
  have hlt := t.microsecond_lt
  intro c hc
  simp only [ScalerTarget.TimeOfDay.text, String.toList_ofList, List.mem_append,
    List.mem_cons] at hc
  rcases hc with (hc | rfl | hc | rfl | hc) | hc
  · exact isZone_digitPair (by omega) c hc
  · rfl
  · exact isZone_digitPair (by omega) c hc
  · rfl
  · exact isZone_digitPair (by omega) c hc
  · cases ms with
    | false => cases hc
    | true =>
      rw [fraction, if_pos rfl, List.append_assoc] at hc
      rcases List.mem_cons.mp hc with rfl | hc
      · rfl
      rcases List.mem_cons.mp hc with rfl | hc
      · exact isZone_digitChar (by omega)
      · exact isZone_digitPair (by omega) c hc

theorem readTime_time (ms : Bool) (t : DateTime) :
    readTime (t.time.text.toList ++ fraction ms t ++ ['Z']) =
      some (t.time.time * secondUs + keptMicroseconds ms t, some 0) := by
  have hzone : readOffset ['Z'] = some 0 := rfl
  have hlength (time : List Char) : time.length ≠ (time ++ ['Z']).length := by
    rw [List.length_append, List.length_singleton]
    omega
  simp only [readTime, takeWhile_time (isZone_time ms t), readClock_time, Option.bind_eq_bind,
    Option.bind_some, t.time.hours_lt, t.time.minutes_lt, t.time.seconds_lt, and_self, if_true,
    hlength, if_false, List.drop_left, hzone, Option.map_some, Clock.us,
    ScalerTarget.TimeOfDay.time]

theorem length_isoDate (d : Date) : (isoDate d).length = 10 := rfl

theorem findSeparator_isoDate (d : Date) (time : List Char) :
    findSeparator (isoDate d ++ 'T' :: time) = some 10 := by
  have hall : ∀ i : Fin 10, Nat.digitChar i ≠ 'W' := by decide
  have hmonth := d.month_le
  have hlength : (isoDate d ++ 'T' :: time).length ≠ 7 := by
    rw [List.length_append, length_isoDate]
    omega
  have hdash : (isoDate d ++ 'T' :: time)[4]? = some '-' := rfl
  have hweek : (isoDate d ++ 'T' :: time)[5]? ≠ some 'W' :=
    fun h => hall ⟨d.month / 10, by omega⟩ (Option.some.inj h)
  rw [findSeparator, if_neg hlength, if_pos hdash, if_neg hweek]

theorem written_eq (ms : Bool) (t : DateTime) : written ms t =
    (t.date.toordinal - epochDay) * dayUs + (t.time.time * secondUs + keptMicroseconds ms t) := by
  cases ms
  · simp only [written, exact, keptMicroseconds, Bool.false_eq_true, if_false]
    omega
  · simp only [written, exact, keptMicroseconds, if_true]
    omega

/-- What `isoZ` writes is read back as the instant it writes, in UTC. -/
theorem fromisoformat_isoZ (ms : Bool) (t : DateTime) :
    fromisoformat (isoZ ms t) = some ⟨written ms t, some 0⟩ := by
  have htext : (isoZ ms t).toList =
      isoDate t.date ++ 'T' :: (t.time.text.toList ++ fraction ms t ++ ['Z']) := by
    rw [isoZ, String.toList_ofList]
    simp only [List.append_assoc, List.cons_append, List.nil_append]
  have hlong (time : List Char) : ¬ (isoDate t.date ++ 'T' :: time).length < 7 := by
    rw [List.length_append, length_isoDate]
    omega
  have hdate := readDate_isoDate t.date t.year_pos t.year_le
  simp only [fromisoformat, htext, if_neg (hlong _), findSeparator_isoDate, Option.bind_eq_bind,
    Option.bind_some, List.take_left' (length_isoDate _), List.drop_left' (length_isoDate _), hdate,
    readTime_time, written_eq]

end Written

end IsoReading
