import Mathlib.Algebra.Order.Field.Rat
import Mathlib.Algebra.Order.Floor.Ring
import Mathlib.Data.Rat.Floor
import Mathlib.Tactic.FieldSimp
import Mathlib.Tactic.Linarith
import Mathlib.Tactic.NormNum
import Mathlib.Tactic.Ring

/-! # Rounding to integers

To the nearest one, where a half goes to the even integer, and towards zero. -/
namespace Rounding

def roundHalfEven (q : ℚ) : ℤ :=
  let below := q.floor
  let rest := q - below
  if rest < 1 / 2 then below
  else if 1 / 2 < rest then below + 1
  else if below % 2 = 0 then below else below + 1

section RoundHalfEven

variable {p q : ℚ} {n : ℤ}

/-- A half is rounded up to an even integer only. -/
theorem le_roundHalfEven_iff :
    n ≤ roundHalfEven q ↔ (n : ℚ) - 1 / 2 < q ∨ ((n : ℚ) - 1 / 2 = q ∧ n % 2 = 0) := by
  have hlow : ((q.floor : ℤ) : ℚ) ≤ q := Int.floor_le q
  have hhigh : q < ((q.floor : ℤ) : ℚ) + 1 := Int.lt_floor_add_one q
  -- Below the floor and above the next integer the half does not matter.
  rcases lt_trichotomy n (q.floor + 1) with hn | rfl | hn
  · have hcast : (n : ℚ) ≤ (q.floor : ℤ) := by exact_mod_cast (by omega : n ≤ q.floor)
    refine iff_of_true ?_ (.inl (by linarith))
    have hround : q.floor ≤ roundHalfEven q := by
      unfold roundHalfEven
      dsimp only
      split_ifs <;> omega
    omega
  · unfold roundHalfEven
    dsimp only
    push_cast
    split_ifs with hsmall hlarge heven
    · refine iff_of_false (by omega) ?_
      rintro (h | ⟨h, -⟩) <;> linarith
    · exact iff_of_true le_rfl (.inl (by linarith))
    · refine iff_of_false (by omega) ?_
      rintro (h | ⟨-, h⟩)
      · linarith
      · omega
    · exact iff_of_true le_rfl (.inr ⟨by linarith, by omega⟩)
  · have hcast : ((q.floor : ℤ) : ℚ) + 2 ≤ n := by
      exact_mod_cast (by omega : q.floor + 2 ≤ n)
    refine iff_of_false ?_ ?_
    · have hround : roundHalfEven q ≤ q.floor + 1 := by
        unfold roundHalfEven
        dsimp only
        split_ifs <;> omega
      omega
    · rintro (h | ⟨h, -⟩) <;> linarith

theorem roundHalfEven_mono (h : p ≤ q) : roundHalfEven p ≤ roundHalfEven q := by
  rw [le_roundHalfEven_iff]
  rcases le_roundHalfEven_iff.mp (le_refl (roundHalfEven p)) with hlt | ⟨heq, heven⟩
  · exact .inl (hlt.trans_le h)
  · rcases h.eq_or_lt with rfl | hpq
    · exact .inr ⟨heq, heven⟩
    · exact .inl (by linarith)

theorem abs_roundHalfEven_sub_le (q : ℚ) : |(roundHalfEven q : ℚ) - q| ≤ 1 / 2 := by
  have hbelow : (roundHalfEven q : ℚ) - 1 / 2 ≤ q := by
    rcases le_roundHalfEven_iff.mp (le_refl (roundHalfEven q)) with hlt | ⟨heq, -⟩
    · exact hlt.le
    · exact heq.le
  have habove : q ≤ (roundHalfEven q : ℚ) + 1 / 2 := by
    by_contra hlt
    have hnext : roundHalfEven q + 1 ≤ roundHalfEven q := by
      apply le_roundHalfEven_iff.mpr
      apply Or.inl
      push_cast
      linarith
    omega
  apply abs_le.mpr
  constructor <;> linarith

theorem roundHalfEven_of_near (h : |q - n| < 1 / 2) : roundHalfEven q = n := by
  obtain ⟨hlow, hhigh⟩ := abs_lt.mp h
  apply le_antisymm
  · by_contra hlt
    have hnext : n + 1 ≤ roundHalfEven q := by omega
    rcases le_roundHalfEven_iff.mp hnext with h | ⟨h, -⟩ <;> push_cast at h <;> linarith
  · exact le_roundHalfEven_iff.mpr (.inl (by linarith))

theorem roundHalfEven_intCast (n : ℤ) : roundHalfEven (n : ℚ) = n :=
  roundHalfEven_of_near (by rw [sub_self, abs_zero]; norm_num)

theorem roundHalfEven_neg (q : ℚ) : roundHalfEven (-q) = -roundHalfEven q := by
  -- A half goes to the even integer on either side.
  apply le_antisymm
  · by_contra hlt
    have hnext : -roundHalfEven q + 1 ≤ roundHalfEven (-q) := by omega
    have hlow := le_roundHalfEven_iff.mp (le_refl (roundHalfEven q))
    rw [le_roundHalfEven_iff] at hnext
    push_cast at hnext
    rcases hnext with hnext | ⟨hnext, hodd⟩ <;> rcases hlow with hlow | ⟨hlow, heven⟩
    · linarith
    · linarith
    · linarith
    · omega
  · have hnext : ¬ roundHalfEven q + 1 ≤ roundHalfEven q := by omega
    rw [le_roundHalfEven_iff] at hnext ⊢
    push_cast at hnext ⊢
    have hle : q ≤ (roundHalfEven q : ℚ) + 1 / 2 := by
      by_contra hlt
      exact hnext (.inl (by linarith))
    rcases hle.eq_or_lt with heq | hlt
    · refine .inr ⟨by linarith, ?_⟩
      have hodd : ¬ (roundHalfEven q + 1) % 2 = 0 := fun h => hnext (.inr ⟨by linarith, h⟩)
      omega
    · exact .inl (by linarith)

end RoundHalfEven

/-- Towards zero. -/
def truncate (q : ℚ) : ℤ := if 0 ≤ q then q.floor else -(-q).floor

theorem truncate_of_nonneg {q : ℚ} (h : 0 ≤ q) : truncate q = q.floor := if_pos h

theorem truncate_eq {q : ℚ} {n : ℤ} (hnonneg : 0 ≤ q) (hlow : n ≤ q) (hhigh : q < n + 1) :
    truncate q = n := by
  rw [truncate_of_nonneg hnonneg]
  exact Int.floor_eq_iff.mpr ⟨hlow, hhigh⟩

theorem truncate_neg (q : ℚ) : truncate (-q) = -truncate q := by
  rcases lt_trichotomy q 0 with hneg | rfl | hpos
  · rw [truncate, truncate, if_pos (by linarith), if_neg (by linarith), neg_neg]
  · rfl
  · rw [truncate, truncate, if_neg (by linarith), if_pos hpos.le, neg_neg]

/-- What a division leaves of a number. -/
theorem remainder_bounds (q : ℚ) {m : ℚ} (hm : 0 < m) :
    0 ≤ q - m * (q / m).floor ∧ q - m * (q / m).floor < m := by
  have hlow : ((q / m).floor : ℚ) ≤ q / m := Int.floor_le (q / m)
  have hhigh : q / m < (q / m).floor + 1 := Int.lt_floor_add_one (q / m)
  rw [le_div_iff₀ hm] at hlow
  rw [div_lt_iff₀ hm] at hhigh
  constructor <;> linarith

end Rounding
