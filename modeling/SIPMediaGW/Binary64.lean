import Mathlib.Data.Int.Log
import SIPMediaGW.Rounding

/-! # Rounding to binary64

The results of float arithmetic, as the rationals they are. The subnormal floats are not told
apart, and a result from `2 ^ 1024` on stands for an infinity. -/
namespace Binary64

open Rounding

/-- The distance between the floats around a rational. -/
def ulp (q : ℚ) : ℚ := 2 ^ (Int.log 2 |q| - 52)

/-- The nearest float, the one with an even significand of two that are as near. -/
def nearest (q : ℚ) : ℚ := roundHalfEven (q / ulp q) * ulp q

section Units

variable {q : ℚ} {k : ℤ}

theorem ulp_pos (q : ℚ) : 0 < ulp q := zpow_pos two_pos _

/-- The ends of a binade in its units. -/
theorem zpow_log_eq (h : 0 < q) :
    (2 : ℚ) ^ Int.log 2 q = 2 ^ 52 * ulp q ∧ (2 : ℚ) ^ (Int.log 2 q + 1) = 2 ^ 53 * ulp q := by
  have hbottom : (2 : ℚ) ^ Int.log 2 q = 2 ^ 52 * ulp q := by
    rw [ulp, abs_of_pos h, ← zpow_natCast, ← zpow_add₀ two_ne_zero, Nat.cast_ofNat,
      add_sub_cancel]
  refine ⟨hbottom, ?_⟩
  rw [zpow_add_one₀ two_ne_zero, hbottom]
  ring

theorem ulp_le (hq : q ≠ 0) (h : |q| < 2 ^ k) : ulp q ≤ 2 ^ (k - 53) := by
  have hlog : Int.log 2 |q| < k :=
    (Int.lt_zpow_iff_log_lt one_lt_two (abs_pos.mpr hq)).mp (by exact_mod_cast h)
  apply zpow_le_zpow_right₀ one_le_two
  omega

theorem abs_nearest_sub_le (q : ℚ) : |nearest q - q| ≤ ulp q / 2 := by
  have hunit := ulp_pos q
  have hscaled : nearest q - q = ((roundHalfEven (q / ulp q) : ℚ) - q / ulp q) * ulp q := by
    rw [nearest, sub_mul, div_mul_cancel₀ _ hunit.ne']
  rw [hscaled, abs_mul, abs_of_pos hunit]
  have hround := mul_le_mul_of_nonneg_right (abs_roundHalfEven_sub_le (q / ulp q)) hunit.le
  linarith

/-- Half a unit is 54 binary digits below a power of two that is not reached. -/
theorem abs_nearest_sub_le_zpow (h : |q| < 2 ^ k) : |nearest q - q| ≤ 2 ^ (k - 54) := by
  by_cases hzero : q = 0
  · have hnearest : nearest 0 = 0 := by
      rw [nearest, zero_div]
      exact mul_eq_zero_of_left (by exact_mod_cast roundHalfEven_intCast 0) _
    rw [hzero, hnearest, sub_zero, abs_zero]
    exact (zpow_pos two_pos _).le
  · have hhalf : (2 : ℚ) ^ (k - 54) = 2 ^ (k - 53) / 2 := by
      rw [div_eq_mul_inv, ← zpow_sub_one₀ two_ne_zero]
      congr 1
      omega
    rw [hhalf]
    exact (abs_nearest_sub_le q).trans (div_le_div_of_nonneg_right (ulp_le hzero h) zero_le_two)

/-- A multiple of a power of two, with a significand that fits, is a float. -/
theorem nearest_of_multiple {m : ℤ} (hm : |m| < 2 ^ 53) (hq : q = m * 2 ^ k) : nearest q = q := by
  have hunit := ulp_pos q
  obtain ⟨n, hn⟩ : ∃ n : ℤ, q = n * ulp q := by
    by_cases hzero : m = 0
    · refine ⟨0, ?_⟩
      rw [hq, hzero, Int.cast_zero, zero_mul, zero_mul]
    · have hne : q ≠ 0 := by
        rw [hq]
        exact mul_ne_zero (by exact_mod_cast hzero) (zpow_pos two_pos k).ne'
      have hlog : Int.log 2 |q| < 53 + k := by
        apply (Int.lt_zpow_iff_log_lt one_lt_two (abs_pos.mpr hne)).mp
        have hcast : |(m : ℚ)| < 2 ^ (53 : ℤ) := by exact_mod_cast hm
        have hpos : (0 : ℚ) < 2 ^ k := zpow_pos two_pos k
        push_cast
        rw [hq, abs_mul, abs_of_pos hpos, zpow_add₀ two_ne_zero]
        exact mul_lt_mul_of_pos_right hcast hpos
      obtain ⟨j, hj⟩ := Int.eq_ofNat_of_zero_le (by omega : 0 ≤ k - (Int.log 2 |q| - 52))
      refine ⟨m * 2 ^ j, ?_⟩
      have hpow : (2 : ℚ) ^ k = 2 ^ j * ulp q := by
        rw [ulp, ← zpow_natCast, ← zpow_add₀ two_ne_zero]
        congr 1
        omega
      push_cast
      rw [mul_assoc, ← hpow]
      exact hq
  have hwhole : q / ulp q = n := by
    rw [div_eq_iff hunit.ne']
    exact hn
  rw [nearest, hwhole, roundHalfEven_intCast]
  exact hn.symm

end Units

section Order

variable {p q : ℚ}

theorem nearest_nonneg (h : 0 ≤ q) : 0 ≤ nearest q := by
  have hround : roundHalfEven ((0 : ℤ) : ℚ) ≤ roundHalfEven (q / ulp q) := by
    apply roundHalfEven_mono
    rw [Int.cast_zero]
    exact div_nonneg h (ulp_pos q).le
  rw [roundHalfEven_intCast] at hround
  exact mul_nonneg (by exact_mod_cast hround) (ulp_pos q).le

theorem nearest_nonpos (h : q ≤ 0) : nearest q ≤ 0 := by
  have hround : roundHalfEven (q / ulp q) ≤ roundHalfEven ((0 : ℤ) : ℚ) := by
    apply roundHalfEven_mono
    rw [Int.cast_zero]
    exact div_nonpos_of_nonpos_of_nonneg h (ulp_pos q).le
  rw [roundHalfEven_intCast] at hround
  exact mul_nonpos_of_nonpos_of_nonneg (by exact_mod_cast hround) (ulp_pos q).le

/-- Rounding does not leave the binade. -/
theorem nearest_binade (h : 0 < q) :
    2 ^ Int.log 2 q ≤ nearest q ∧ nearest q ≤ 2 ^ (Int.log 2 q + 1) := by
  have hunit := ulp_pos q
  obtain ⟨hbottom, htop⟩ := zpow_log_eq h
  have hlow : roundHalfEven ((2 ^ 52 : ℤ) : ℚ) ≤ roundHalfEven (q / ulp q) := by
    apply roundHalfEven_mono
    rw [le_div_iff₀ hunit, Int.cast_pow, Int.cast_ofNat, ← hbottom]
    exact_mod_cast Int.zpow_log_le_self one_lt_two h
  have hhigh : roundHalfEven (q / ulp q) ≤ roundHalfEven ((2 ^ 53 : ℤ) : ℚ) := by
    apply roundHalfEven_mono
    rw [div_le_iff₀ hunit, Int.cast_pow, Int.cast_ofNat, ← htop]
    exact_mod_cast (Int.lt_zpow_succ_log_self one_lt_two q).le
  rw [roundHalfEven_intCast] at hlow hhigh
  constructor
  · have hcast : (2 : ℚ) ^ 52 ≤ roundHalfEven (q / ulp q) := by exact_mod_cast hlow
    rw [hbottom]
    exact mul_le_mul_of_nonneg_right hcast hunit.le
  · have hcast : (roundHalfEven (q / ulp q) : ℚ) ≤ 2 ^ 53 := by exact_mod_cast hhigh
    rw [htop]
    exact mul_le_mul_of_nonneg_right hcast hunit.le

theorem nearest_le_zpow {k : ℤ} (h : 0 ≤ q) (hk : q < 2 ^ k) : nearest q ≤ 2 ^ k := by
  rcases h.eq_or_lt with rfl | hpos
  · exact (nearest_nonpos le_rfl).trans (zpow_pos two_pos k).le
  · have hlog : Int.log 2 q < k :=
      (Int.lt_zpow_iff_log_lt one_lt_two hpos).mp (by exact_mod_cast hk)
    exact (nearest_binade hpos).2.trans (zpow_le_zpow_right₀ one_le_two hlog)

theorem nearest_neg (q : ℚ) : nearest (-q) = -nearest q := by
  have hunit : ulp (-q) = ulp q := by rw [ulp, ulp, abs_neg]
  rw [nearest, nearest, hunit, neg_div, roundHalfEven_neg, Int.cast_neg, neg_mul]

theorem nearest_mono_of_nonneg (hp : 0 ≤ p) (h : p ≤ q) : nearest p ≤ nearest q := by
  rcases hp.eq_or_lt with rfl | hpos
  · exact (nearest_nonpos le_rfl).trans (nearest_nonneg h)
  · have hq : 0 < q := hpos.trans_le h
    rcases (Int.log_mono_right hpos h).eq_or_lt with heq | hlt
    · have hunit : ulp p = ulp q := by
        rw [ulp, ulp, abs_of_pos hpos, abs_of_pos hq, heq]
      have hround : roundHalfEven (p / ulp q) ≤ roundHalfEven (q / ulp q) :=
        roundHalfEven_mono (div_le_div_of_nonneg_right h (ulp_pos q).le)
      rw [nearest, nearest, hunit]
      exact mul_le_mul_of_nonneg_right (by exact_mod_cast hround) (ulp_pos q).le
    · calc nearest p ≤ 2 ^ (Int.log 2 p + 1) := (nearest_binade hpos).2
        _ ≤ 2 ^ Int.log 2 q := zpow_le_zpow_right₀ one_le_two hlt
        _ ≤ nearest q := (nearest_binade hq).1

theorem nearest_mono (h : p ≤ q) : nearest p ≤ nearest q := by
  rcases le_total 0 p with hp | hp
  · exact nearest_mono_of_nonneg hp h
  rcases le_total 0 q with hq | hq
  · exact (nearest_nonpos hp).trans (nearest_nonneg hq)
  · have hopposite := nearest_mono_of_nonneg (neg_nonneg.mpr hq) (neg_le_neg h)
    rw [nearest_neg, nearest_neg] at hopposite
    exact neg_le_neg_iff.mp hopposite

theorem nearest_pos (h : 0 < q) : 0 < nearest q :=
  (zpow_pos two_pos _).trans_le (nearest_binade h).1

end Order

section Integers

variable {q : ℚ} {n : ℤ}

theorem nearest_intCast (h : |n| < 2 ^ 53) : nearest n = n :=
  @nearest_of_multiple _ 0 n h (by rw [zpow_zero, mul_one])

/-- An integer is even among the multiples of a unit below one, so a half goes up to it. -/
theorem intCast_le_nearest_iff (hq : 0 < q) (hlt : q < 2 ^ 52) :
    (n : ℚ) ≤ nearest q ↔ n - q ≤ ulp q / 2 := by
  have hunit := ulp_pos q
  have hlog : Int.log 2 q < 52 :=
    (Int.lt_zpow_iff_log_lt one_lt_two hq).mp (by exact_mod_cast hlt)
  obtain ⟨j, hj⟩ := Int.eq_ofNat_of_zero_le (by omega : 0 ≤ 51 - Int.log 2 q)
  have hone : (2 * 2 ^ j : ℚ) * ulp q = 1 := by
    rw [ulp, abs_of_pos hq, ← zpow_natCast, mul_assoc, ← zpow_add₀ two_ne_zero,
      ← zpow_one_add₀ two_ne_zero]
    convert zpow_zero (2 : ℚ)
    omega
  have hmultiple : (n : ℚ) = ((2 * (n * 2 ^ j) : ℤ) : ℚ) * ulp q := by
    push_cast
    calc (n : ℚ) = n * ((2 * 2 ^ j) * ulp q) := by rw [hone, mul_one]
      _ = 2 * (n * 2 ^ j) * ulp q := by ring
  have hscaled : (n : ℚ) - q = (((2 * (n * 2 ^ j) : ℤ) : ℚ) - q / ulp q) * ulp q := by
    rw [sub_mul, div_mul_cancel₀ _ hunit.ne', ← hmultiple]
  have hhalf : ulp q / 2 = 1 / 2 * ulp q := by ring
  rw [hscaled, hhalf, mul_le_mul_iff_left₀ hunit, hmultiple, nearest,
    mul_le_mul_iff_left₀ hunit, Int.cast_le, le_roundHalfEven_iff]
  constructor
  · rintro (h | ⟨h, -⟩) <;> linarith
  · intro h
    rcases (sub_le_comm.mp h).eq_or_lt with heq | hlt
    · exact .inr ⟨heq, Int.mul_emod_right 2 _⟩
    · exact .inl hlt

end Integers

section Significands

variable {q x : ℚ} {m : ℤ} {n : ℕ}

/-- A float is a multiple of a power of two, with a significand that fits. -/
theorem exists_significand_of_pos (h : 0 < q) :
    ∃ m k : ℤ, |m| < 2 ^ 53 ∧ nearest q = m * 2 ^ k := by
  have hunit := ulp_pos q
  obtain ⟨hbottom, htop⟩ := nearest_binade h
  rcases htop.eq_or_lt with hend | hbelow
  · refine ⟨1, Int.log 2 q + 1, by norm_num, ?_⟩
    rw [hend, Int.cast_one, one_mul]
  · refine ⟨roundHalfEven (q / ulp q), Int.log 2 |q| - 52, ?_, rfl⟩
    have hnonneg : 0 ≤ roundHalfEven (q / ulp q) := by
      have hpos : 0 ≤ (roundHalfEven (q / ulp q) : ℚ) * ulp q := nearest_nonneg h.le
      exact_mod_cast nonneg_of_mul_nonneg_left hpos hunit
    rw [(zpow_log_eq h).2, nearest, mul_lt_mul_iff_left₀ hunit] at hbelow
    rw [abs_of_nonneg hnonneg]
    exact_mod_cast hbelow

theorem exists_significand (q : ℚ) : ∃ m k : ℤ, |m| < 2 ^ 53 ∧ nearest q = m * 2 ^ k := by
  rcases lt_trichotomy q 0 with hneg | rfl | hpos
  · obtain ⟨m, k, hm, hnearest⟩ := exists_significand_of_pos (neg_pos.mpr hneg)
    refine ⟨-m, k, by rwa [abs_neg], ?_⟩
    rw [nearest_neg, neg_eq_iff_eq_neg] at hnearest
    rw [hnearest, Int.cast_neg, neg_mul]
  · exact ⟨0, 0, by norm_num, by exact_mod_cast nearest_intCast (by norm_num : |(0 : ℤ)| < 2 ^ 53)⟩
  · exact exists_significand_of_pos hpos

theorem nearest_nearest (q : ℚ) : nearest (nearest q) = nearest q := by
  obtain ⟨m, k, hm, hnearest⟩ := exists_significand q
  exact nearest_of_multiple hm hnearest

theorem nearest_remainder_intCast (hn : 0 < n) (hsmall : n < 2 ^ 53) :
    nearest (m - n * ((m : ℚ) / n).floor) = m - n * ((m : ℚ) / n).floor := by
  obtain ⟨hlow, hhigh⟩ := remainder_bounds m (by exact_mod_cast hn : (0 : ℚ) < n)
  set rest : ℤ := m - n * ((m : ℚ) / n).floor with hrest
  have heq : (m : ℚ) - n * ((m : ℚ) / n).floor = rest := by
    rw [hrest]
    push_cast
    rfl
  rw [heq] at hlow hhigh ⊢
  have hnonneg : 0 ≤ rest := by exact_mod_cast hlow
  have hlt : rest < n := by exact_mod_cast hhigh
  apply nearest_intCast
  rw [abs_of_nonneg hnonneg]
  omega

/-- The significand of a float with binary places gets smaller. -/
theorem nearest_remainder_places {j : ℕ} (hm : |m| < 2 ^ 53) (hx : x = m * 2 ^ (-j : ℤ))
    (hnonneg : 0 ≤ x) (hn : 0 < n) :
    nearest (x - n * (x / n).floor) = x - n * (x / n).floor := by
  have hn' : (0 : ℚ) < n := by exact_mod_cast hn
  have hpos : (0 : ℚ) < 2 ^ (-j : ℤ) := zpow_pos two_pos _
  have hone : (2 : ℚ) ^ j * 2 ^ (-j : ℤ) = 1 := by
    rw [← zpow_natCast, ← zpow_add₀ two_ne_zero, add_neg_cancel, zpow_zero]
  set rest : ℤ := m - n * (x / n).floor * 2 ^ j with hrest
  have heq : x - n * (x / n).floor = rest * 2 ^ (-j : ℤ) := by
    rw [hrest]
    push_cast
    calc x - n * (x / n).floor
        = m * 2 ^ (-j : ℤ) - n * (x / n).floor * (2 ^ j * 2 ^ (-j : ℤ)) := by
          rw [← hx, hone, mul_one]
      _ = (m - n * (x / n).floor * 2 ^ j) * 2 ^ (-j : ℤ) := by ring
  have hrest_nonneg : 0 ≤ rest := by
    have hscaled := (remainder_bounds x hn').1
    rw [heq] at hscaled
    exact_mod_cast nonneg_of_mul_nonneg_left hscaled hpos
  have hle : rest ≤ m := by
    have hquotient : 0 ≤ (x / n).floor := Int.floor_nonneg.mpr (div_nonneg hnonneg hn'.le)
    have htaken : 0 ≤ (n : ℤ) * (x / n).floor * 2 ^ j := by positivity
    omega
  refine nearest_of_multiple ?_ heq
  rw [abs_of_nonneg hrest_nonneg]
  exact hle.trans_lt ((le_abs_self m).trans_lt hm)

/-- The remainder of a float is one. -/
theorem nearest_remainder (hx : nearest x = x) (hnonneg : 0 ≤ x) (hn : 0 < n)
    (hsmall : n < 2 ^ 53) : nearest (x - n * (x / n).floor) = x - n * (x / n).floor := by
  obtain ⟨m, k, hm, hfloat⟩ := exists_significand x
  rw [hx] at hfloat
  rcases le_or_gt k 0 with hk | hk
  · obtain ⟨j, hj⟩ := Int.eq_ofNat_of_zero_le (neg_nonneg.mpr hk)
    have hplaces : k = -(j : ℤ) := by omega
    rw [hplaces] at hfloat
    exact nearest_remainder_places hm hfloat hnonneg hn
  · obtain ⟨j, hj⟩ := Int.eq_ofNat_of_zero_le hk.le
    have hwhole : x = ((m * 2 ^ j : ℤ) : ℚ) := by
      rw [hfloat, hj]
      push_cast
      rfl
    rw [hwhole]
    exact nearest_remainder_intCast hn hsmall

/-- Half a unit of the last place is what rounding can add to reach an integer. -/
theorem floor_nearest (hq : 0 ≤ q) (hlt : q < 2 ^ 52) :
    (nearest q).floor = (q + ulp q / 2).floor := by
  rcases hq.eq_or_lt with rfl | hpos
  · decide +kernel
  · refine eq_of_forall_le_iff fun n => ?_
    rw [Rat.le_floor_iff, Rat.le_floor_iff, intCast_le_nearest_iff hpos hlt, sub_le_iff_le_add']

end Significands
section Decimals

variable {q : ℚ} {k : ℤ}

/-- Around a float that is not the end of its binade the distance is the same. -/
theorem nearest_of_within {m : ℤ} (hlow : 2 ^ 52 < m) (hhigh : m < 2 ^ 53)
    (hnear : |q - m * 2 ^ k| < 2 ^ k / 2) : nearest q = m * 2 ^ k := by
  have hunit : (0 : ℚ) < 2 ^ k := zpow_pos two_pos k
  obtain ⟨hbelow, habove⟩ := abs_lt.mp hnear
  have hbottom : (2 : ℚ) ^ (52 + k) ≤ q := by
    have hcast : (2 : ℚ) ^ 52 + 1 ≤ m := by exact_mod_cast hlow
    rw [zpow_add₀ two_ne_zero]
    have hscaled := mul_le_mul_of_nonneg_right hcast hunit.le
    norm_num at hscaled ⊢
    linarith
  have htop : q < (2 : ℚ) ^ (52 + k + 1) := by
    have hcast : (m : ℚ) + 1 ≤ 2 ^ 53 := by exact_mod_cast hhigh
    rw [add_right_comm, zpow_add₀ two_ne_zero]
    have hscaled := mul_le_mul_of_nonneg_right hcast hunit.le
    norm_num at hscaled ⊢
    linarith
  have hpos : 0 < q := (zpow_pos two_pos _).trans_le hbottom
  have hlog : Int.log 2 q = 52 + k := by
    apply le_antisymm
    · exact Int.lt_add_one_iff.mp
        ((Int.lt_zpow_iff_log_lt one_lt_two hpos).mp (by exact_mod_cast htop))
    · exact (Int.zpow_le_iff_le_log one_lt_two hpos).mp (by exact_mod_cast hbottom)
  have hulp : ulp q = 2 ^ k := by
    rw [ulp, abs_of_pos hpos, hlog, add_sub_cancel_left]
  have hround : roundHalfEven (q / 2 ^ k) = m := by
    apply roundHalfEven_of_near
    have hscaled : q / 2 ^ k - m = (q - m * 2 ^ k) / 2 ^ k := by
      rw [sub_div, mul_div_cancel_right₀ _ hunit.ne']
    rw [hscaled, abs_div, abs_of_pos hunit, div_lt_iff₀ hunit]
    linarith
  rw [nearest, hulp, hround]

/-- A float read off a number of tenths is the one that number is rounded to, whether the float
keeps the tenths apart or not. -/
theorem nearest_tenth_of_pos {n : ℤ} (hn : 0 < n) :
    nearest (roundHalfEven (nearest (n / 10) * 10) / 10) = nearest (n / 10) := by
  set q : ℚ := n / 10 with hq
  have hpos : 0 < q := div_pos (by exact_mod_cast hn) (by norm_num)
  by_cases hkept : |nearest q * 10 - n| < 1 / 2
  · rw [roundHalfEven_of_near hkept]
  -- The tenths are lost where the distance is at least an eighth.
  have hulp : (2 : ℚ) ^ (-3 : ℤ) ≤ ulp q := by
    have herror := abs_nearest_sub_le q
    have hscaled : nearest q * 10 - n = (nearest q - q) * 10 := by
      rw [hq]
      ring
    rw [hscaled, abs_mul, abs_of_pos (by norm_num : (0 : ℚ) < 10), not_lt] at hkept
    have hlarge : (2 : ℚ) ^ (-4 : ℤ) < ulp q := by
      norm_num
      linarith
    rw [ulp, zpow_lt_zpow_iff_right₀ one_lt_two] at hlarge
    rw [ulp, zpow_le_zpow_iff_right₀ one_lt_two]
    omega
  obtain ⟨hbottom, htop⟩ := nearest_binade hpos
  have hexponent : Int.log 2 |q| - 52 ≥ -3 := by
    rw [ulp, zpow_le_zpow_iff_right₀ one_lt_two] at hulp
    exact hulp
  rw [abs_of_pos hpos] at hexponent
  have hend : ∀ j : ℕ, nearest q = 2 ^ (j : ℤ) →
      nearest (roundHalfEven (nearest q * 10) / 10) = nearest q := by
    intro j hj
    have hwhole : nearest q * 10 = ((2 ^ j * 10 : ℤ) : ℚ) := by
      rw [hj]
      push_cast
      rfl
    rw [hwhole, roundHalfEven_intCast, ← hwhole, mul_div_cancel_right₀ _ (by norm_num)]
    exact nearest_of_multiple (m := 1) (by norm_num) (by rw [hj, Int.cast_one, one_mul])
  obtain ⟨j, hj⟩ := Int.eq_ofNat_of_zero_le (by omega : 0 ≤ Int.log 2 q)
  by_cases hfirst : nearest q = 2 ^ Int.log 2 q
  · exact hend j (hj ▸ hfirst)
  by_cases hlast : nearest q = 2 ^ (Int.log 2 q + 1)
  · exact hend (j + 1) (by rw [hlast, hj, Nat.cast_add, Nat.cast_one])
  have hunit := ulp_pos q
  obtain ⟨hscale, htopScale⟩ := zpow_log_eq hpos
  have hlow : 2 ^ 52 < roundHalfEven (q / ulp q) := by
    have hlt := lt_of_le_of_ne hbottom (Ne.symm hfirst)
    rw [hscale, nearest, mul_lt_mul_iff_left₀ hunit] at hlt
    exact_mod_cast hlt
  have hhigh : roundHalfEven (q / ulp q) < 2 ^ 53 := by
    have hlt := lt_of_le_of_ne htop hlast
    rw [htopScale, nearest, mul_lt_mul_iff_left₀ hunit] at hlt
    exact_mod_cast hlt
  apply nearest_of_within hlow hhigh
  have herror := abs_roundHalfEven_sub_le (nearest q * 10)
  have hscaled : (roundHalfEven (nearest q * 10) : ℚ) / 10 - nearest q =
      (roundHalfEven (nearest q * 10) - nearest q * 10) / 10 := by ring
  change |(roundHalfEven (nearest q * 10) : ℚ) / 10 - nearest q| < ulp q / 2
  rw [hscaled, abs_div, abs_of_pos (by norm_num : (0 : ℚ) < 10)]
  norm_num at hulp
  linarith

theorem nearest_tenth (n : ℤ) :
    nearest (roundHalfEven (nearest (n / 10) * 10) / 10) = nearest (n / 10) := by
  rcases lt_trichotomy n 0 with hneg | rfl | hpos
  · have hopposite := nearest_tenth_of_pos (neg_pos.mpr hneg)
    rw [Int.cast_neg, neg_div, nearest_neg, neg_mul, roundHalfEven_neg, Int.cast_neg, neg_div,
      nearest_neg] at hopposite
    exact neg_inj.mp hopposite
  · have hzero : nearest 0 = 0 := by exact_mod_cast nearest_intCast (n := 0) (by norm_num)
    rw [Int.cast_zero, zero_div, hzero, zero_mul]
    have hround : (roundHalfEven 0 : ℚ) = 0 := by exact_mod_cast roundHalfEven_intCast 0
    rw [hround, zero_div, hzero]
  · exact nearest_tenth_of_pos hpos

end Decimals

end Binary64
