import Mathlib.Data.String.Basic
import Mathlib.Tactic.Linarith

/-! # Texts that compare as numbers do

Texts of one shape, digits in front of what is less, compare as the numbers they stand for,
whatever follows them. -/
namespace OrderedTexts

variable {α : Type*} {text text' : α → List Char} {key key' : α → ℤ}

def Ordered (text : α → List Char) (key : α → ℤ) : Prop :=
  ∀ a b l l', text a ++ l < text b ++ l' ↔ key a < key b ∨ key a = key b ∧ l < l'

theorem Ordered.lt_iff (h : Ordered text key) (a b : α) : text a < text b ↔ key a < key b := by
  have hnil : ¬ ([] : List Char) < [] := List.not_lt_nil _
  have hends := h a b [] []
  simpa only [List.append_nil, hnil, and_false, or_false] using hends

/-- Another number in the same order. -/
theorem Ordered.congr (h : Ordered text key) (hkey : ∀ a b, key a < key b ↔ key' a < key' b) :
    Ordered text key' := by
  intro a b l l'
  have heq : key a = key b ↔ key' a = key' b := by
    have hab := hkey a b
    have hba := hkey b a
    constructor
    · intro h
      omega
    · intro h
      omega
  rw [h a b l l', hkey, heq]

theorem ordered_const (cs : List Char) : Ordered (fun _ : α => cs) fun _ => 0 := by
  intro a b l l'
  induction cs with
  | nil => simp
  | cons c cs ih =>
    have hc : ¬ c < c := lt_irrefl c
    rw [List.cons_append, List.cons_append, List.cons_lt_cons_iff, ih]
    simp only [hc, false_or, true_and]

/-- The less significant part follows. -/
theorem Ordered.append (h : Ordered text key) (h' : Ordered text' key') (bound : ℤ)
    (hbound : ∀ a, 0 ≤ key' a ∧ key' a < bound) :
    Ordered (fun a => text a ++ text' a) fun a => key a * bound + key' a := by
  intro a b l l'
  rw [List.append_assoc, List.append_assoc, h, h']
  dsimp only
  obtain ⟨hnonneg, hlt⟩ := hbound a
  obtain ⟨hnonneg', hlt'⟩ := hbound b
  constructor
  · rintro (hless | ⟨hsame, hless | ⟨hsame', hrest⟩⟩)
    · left
      nlinarith
    · left
      rw [hsame]
      omega
    · exact .inr ⟨by rw [hsame, hsame'], hrest⟩
  · intro hall
    rcases lt_trichotomy (key a) (key b) with hless | hsame | hgreater
    · exact .inl hless
    · rw [hsame] at hall
      refine .inr ⟨hsame, hall.imp (fun hless => ?_) fun ⟨hsame', hrest⟩ => ⟨?_, hrest⟩⟩
      · omega
      · omega
    · exfalso
      have hstep : (key b + 1) * bound ≤ key a * bound :=
        mul_le_mul_of_nonneg_right hgreater (by omega)
      rcases hall with hless | ⟨hsame, -⟩
      · nlinarith
      · nlinarith

end OrderedTexts
