import SIPMediaGW.Calendar
import SIPMediaGW.OrderedTexts
import SIPMediaGW.ScalerTarget

/-! # Instants as texts

`isoZ` writes an instant in UTC, in whole seconds or in milliseconds. Texts of one resolution
compare as the instants they give. -/
namespace IsoInstants

open Calendar
open OrderedTexts
open ScalerTarget

/-- A `datetime` in UTC. -/
structure DateTime where
  date : Date
  time : TimeOfDay
  microsecond : ℕ
  year_pos : 1 ≤ date.year
  year_le : date.year ≤ 9999
  microsecond_lt : microsecond < 1000000

def isoDate (d : Date) : List Char :=
  digitPair (d.year.toNat / 100) ++ digitPair (d.year.toNat % 100) ++ ['-'] ++ digitPair d.month ++
    ['-'] ++ digitPair d.day

/-- What `timespec` adds to the seconds. -/
def fraction (ms : Bool) (t : DateTime) : List Char :=
  if ms then
    ['.'] ++ [Nat.digitChar (t.microsecond / 1000 / 100)] ++
      digitPair (t.microsecond / 1000 % 100)
  else []

def isoZ (ms : Bool) (t : DateTime) : String :=
  String.ofList (isoDate t.date ++ ['T'] ++ t.time.text.toList ++ fraction ms t ++ ['Z'])

/-- The milliseconds up to the instant a text gives. -/
def DateTime.instant (ms : Bool) (t : DateTime) : ℤ :=
  (t.date.toordinal * 86400 + t.time.time) * 1000 +
    if ms then (t.microsecond : ℤ) / 1000 else 0

section Order

variable {α : Type*}

theorem ordered_digitPair {f : α → ℕ} (hf : ∀ a, f a < 100) :
    Ordered (fun a => digitPair (f a)) fun a => (f a : ℤ) := by
  intro a b l l'
  rw [digitPair_lt (hf a) (hf b), Nat.cast_lt, Nat.cast_inj]

theorem ordered_digitChar {f : α → ℕ} (hf : ∀ a, f a < 10) :
    Ordered (fun a => [Nat.digitChar (f a)]) fun a => (f a : ℤ) := by
  intro a b l l'
  rw [List.singleton_append, List.singleton_append, List.cons_lt_cons_iff,
    digitChar_lt (hf a) (hf b), digitChar_inj (hf a) (hf b), Nat.cast_lt, Nat.cast_inj]

/-- A separator between two parts. -/
theorem ordered_separator (c : Char) {text : α → List Char} {key : α → ℤ}
    (h : Ordered text key) : Ordered (fun a => text a ++ [c]) key := by
  have hbound : ∀ _ : α, (0 : ℤ) ≤ 0 ∧ (0 : ℤ) < 1 := fun _ => ⟨le_rfl, one_pos⟩
  refine (h.append (ordered_const [c]) 1 hbound).congr fun a b => ?_
  rw [mul_one, mul_one, add_zero, add_zero]

theorem ordered_isoDate :
    Ordered (fun t : DateTime => isoDate t.date) fun t => t.date.toordinal := by
  have hyear (t : DateTime) : t.date.year.toNat / 100 < 100 := by
    have := t.year_le
    omega
  have hmonth (t : DateTime) : t.date.month < 100 := by
    have := t.date.month_le
    omega
  have hday (t : DateTime) : t.date.day < 100 := by
    have := t.date.day_le_thirtyOne
    omega
  have hpair (t : DateTime) : t.date.year.toNat % 100 < 100 := Nat.mod_lt _ (by decide)
  have hyears := (ordered_digitPair hyear).append (ordered_digitPair hpair) 100
    fun t => ⟨by omega, by omega⟩
  have hmonths := (ordered_separator '-' hyears).append (ordered_digitPair hmonth) 100
    fun t => ⟨by omega, by have := hmonth t; omega⟩
  have hdays := (ordered_separator '-' hmonths).append (ordered_digitPair hday) 100
    fun t => ⟨by omega, by have := hday t; omega⟩
  refine hdays.congr fun a b => ?_
  rw [Date.toordinal_lt_iff]
  have hmonth' := a.date.month_le
  have hmonth'' := b.date.month_le
  have hday' := a.date.day_le_thirtyOne
  have hday'' := b.date.day_le_thirtyOne
  have hpos := a.year_pos
  have hpos' := b.year_pos
  omega

theorem ordered_time : Ordered (fun t : DateTime => t.time.text.toList) fun t => t.time.time := by
  have hhours (t : DateTime) : t.time.hours < 100 := by
    have := t.time.hours_lt
    omega
  have hminutes (t : DateTime) : t.time.minutes < 100 := by
    have := t.time.minutes_lt
    omega
  have hseconds (t : DateTime) : t.time.seconds < 100 := by
    have := t.time.seconds_lt
    omega
  have htext (t : DateTime) : t.time.text.toList =
      digitPair t.time.hours ++ [':'] ++ digitPair t.time.minutes ++ [':'] ++
        digitPair t.time.seconds := by
    rw [TimeOfDay.text, String.toList_ofList]
    simp only [List.append_assoc, List.cons_append, List.nil_append]
  have hfirst := (ordered_separator ':' (ordered_digitPair hhours)).append
    (ordered_digitPair hminutes) 60 fun t => ⟨by omega, by have := t.time.minutes_lt; omega⟩
  have hall := (ordered_separator ':' hfirst).append (ordered_digitPair hseconds) 60
    fun t => ⟨by omega, by have := t.time.seconds_lt; omega⟩
  simp only [htext]
  refine hall.congr fun a b => ?_
  simp only [TimeOfDay.time]
  omega

theorem ordered_fraction (ms : Bool) :
    Ordered (fraction ms) fun t => if ms then t.microsecond / 1000 else 0 := by
  cases ms with
  | false => exact ordered_const []
  | true =>
    have hhundreds (t : DateTime) : t.microsecond / 1000 / 100 < 10 := by
      have := t.microsecond_lt
      omega
    have hrest (t : DateTime) : t.microsecond / 1000 % 100 < 100 := Nat.mod_lt _ (by decide)
    have hpoint : Ordered (fun _ : DateTime => ['.']) fun _ => 0 := ordered_const _
    have hdot := hpoint.append (ordered_digitChar hhundreds) 10
      fun t => ⟨by omega, by have := hhundreds t; omega⟩
    refine (hdot.append (ordered_digitPair hrest) 100 fun t => ⟨by omega, by omega⟩).congr
      fun a b => ?_
    simp only [if_true]
    omega

theorem ordered_isoZ (ms : Bool) : Ordered (fun t => (isoZ ms t).toList) (DateTime.instant ms) := by
  have hseconds := (ordered_separator 'T' ordered_isoDate).append ordered_time 86400 fun t => by
    have := t.time.hours_lt
    have := t.time.minutes_lt
    have := t.time.seconds_lt
    simp only [TimeOfDay.time]
    omega
  have hfraction := hseconds.append (ordered_fraction ms) 1000 fun t => by
    have := t.microsecond_lt
    split
    · omega
    · omega
  simp only [isoZ, String.toList_ofList]
  exact ordered_separator 'Z' hfraction

/-- Texts of one resolution are in the order of time. -/
theorem isoZ_lt_iff (ms : Bool) (a b : DateTime) :
    isoZ ms a < isoZ ms b ↔ a.instant ms < b.instant ms := by
  rw [String.lt_iff]
  exact (ordered_isoZ ms).lt_iff a b

/-- Half a second later, and before it as a text: a point comes before the `Z`. -/
example : ∃ a b : DateTime, a.instant true < b.instant true ∧ isoZ true b < isoZ false a :=
  ⟨⟨Date.newYear 2026, midnight, 0, by decide, by decide, by decide⟩,
    ⟨Date.newYear 2026, midnight, 500000, by decide, by decide, by decide⟩, by decide, by decide⟩

end Order

end IsoInstants
