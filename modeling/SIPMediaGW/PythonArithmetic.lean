import SIPMediaGW.Binary64

/-! # The arithmetic of Python

Numbers are rationals; the arithmetic says what becomes of a result that is no float. -/
namespace PythonArithmetic

open Binary64
open Rounding

inductive Arithmetic where
  | exact
  | binary64
  deriving DecidableEq, Repr

/-- The result of an operation on floats. -/
def Arithmetic.float : Arithmetic → ℚ → ℚ
  | .exact, q => q
  | .binary64, q => nearest q

/-- The result of an operation on ints and floats: every integer is kept, as an int keeps it. -/
def Arithmetic.number : Arithmetic → ℚ → ℚ
  | .exact, q => q
  | .binary64, q => if |q| < 2 ^ 53 then nearest q else roundHalfEven q

/-- One step of `sum`: the sum so far, and what the additions lost. -/
def addCompensated (s : ℚ × ℚ) (x : ℚ) : ℚ × ℚ :=
  let t := nearest (s.1 + x)
  let lost :=
    if |x| ≤ |s.1| then nearest (nearest (s.1 - t) + x) else nearest (nearest (x - t) + s.1)
  (t, nearest (s.2 + lost))

/-- `sum` of floats, which adds what it lost at the end. -/
def Arithmetic.sum : Arithmetic → List ℚ → ℚ
  | .exact, qs => qs.sum
  | .binary64, [] => 0
  | .binary64, q :: qs =>
    let s := qs.foldl addCompensated (q, 0)
    nearest (s.1 + s.2)

/-- `round` of a float; `none` of an infinite one, where it raises OverflowError. -/
def Arithmetic.round : Arithmetic → ℚ → Option ℤ
  | .exact, q => some (roundHalfEven q)
  | .binary64, q => if |q| < 2 ^ 1024 then some (roundHalfEven q) else none

/-- `round(q, 1)`. -/
def Arithmetic.roundTenth (arithmetic : Arithmetic) (q : ℚ) : ℚ :=
  arithmetic.float (roundHalfEven (q * 10) / 10)

/-- What rounding can add to a result, to reach an integer: half a unit of the last place. -/
def Arithmetic.slack : Arithmetic → ℚ → ℚ
  | .exact, _ => 0
  | .binary64, q => ulp q / 2

@[simp] theorem float_exact (q : ℚ) : Arithmetic.float .exact q = q := rfl

@[simp] theorem number_exact (q : ℚ) : Arithmetic.number .exact q = q := rfl

@[simp] theorem round_exact (q : ℚ) : Arithmetic.round .exact q = some (roundHalfEven q) := rfl

section Floats

variable {arithmetic : Arithmetic} {p q : ℚ} {n : ℤ}

theorem float_mono (arithmetic : Arithmetic) : Monotone arithmetic.float := by
  intro p q h
  cases arithmetic with
  | exact => exact h
  | binary64 => exact nearest_mono h

theorem float_intCast (h : |n| < 2 ^ 53) : arithmetic.float n = n := by
  cases arithmetic with
  | exact => rfl
  | binary64 => exact nearest_intCast h

theorem float_float (arithmetic : Arithmetic) (q : ℚ) :
    arithmetic.float (arithmetic.float q) = arithmetic.float q := by
  cases arithmetic with
  | exact => rfl
  | binary64 => exact nearest_nearest q

theorem float_remainder {m : ℕ} (hfloat : arithmetic.float q = q) (hnonneg : 0 ≤ q) (hm : 0 < m)
    (hsmall : m < 2 ^ 53) :
    arithmetic.float (q - m * (q / m).floor) = q - m * (q / m).floor := by
  cases arithmetic with
  | exact => rfl
  | binary64 => exact nearest_remainder hfloat hnonneg hm hsmall

theorem floor_float (hnonneg : 0 ≤ q) (hlt : q < 2 ^ 52) :
    (arithmetic.float q).floor = (q + arithmetic.slack q).floor := by
  cases arithmetic with
  | exact => rw [Arithmetic.slack, add_zero, float_exact]
  | binary64 => exact floor_nearest hnonneg hlt

theorem roundTenth_mono (arithmetic : Arithmetic) : Monotone arithmetic.roundTenth := by
  intro p q h
  have hround := roundHalfEven_mono (mul_le_mul_of_nonneg_right h (by norm_num : (0 : ℚ) ≤ 10))
  have hcast : ((roundHalfEven (p * 10) : ℤ) : ℚ) ≤ (roundHalfEven (q * 10) : ℤ) := by
    exact_mod_cast hround
  exact float_mono arithmetic (div_le_div_of_nonneg_right hcast (by norm_num))

theorem roundTenth_idem (q : ℚ) :
    arithmetic.roundTenth (arithmetic.roundTenth q) = arithmetic.roundTenth q := by
  unfold Arithmetic.roundTenth
  cases arithmetic with
  | exact =>
    dsimp only [Arithmetic.float]
    rw [div_mul_cancel₀ _ (by norm_num), roundHalfEven_intCast]
  | binary64 => exact nearest_tenth _

/-- 4.95 is rounded to the even 5.0. -/
theorem roundTenth_lt_five_iff : arithmetic.roundTenth q < 5 ↔ q < 99 / 20 := by
  have htenths : arithmetic.roundTenth q < 5 ↔ roundHalfEven (q * 10) < 50 := by
    constructor
    · intro hlt
      by_contra hlarge
      have hfive : arithmetic.float ((5 : ℤ) : ℚ) = (5 : ℤ) := float_intCast (by norm_num)
      have hcast : (50 : ℚ) ≤ roundHalfEven (q * 10) := by exact_mod_cast not_lt.mp hlarge
      have hle := float_mono arithmetic
        (show ((5 : ℤ) : ℚ) ≤ roundHalfEven (q * 10) / 10 by push_cast; linarith)
      rw [hfive] at hle
      exact absurd hlt (not_lt.mpr hle)
    · intro hlt
      have hcast : (roundHalfEven (q * 10) : ℚ) ≤ 49 := by
        exact_mod_cast Int.le_sub_one_of_lt hlt
      have hle := float_mono arithmetic
        (show (roundHalfEven (q * 10) : ℚ) / 10 ≤ 49 / 10 by linarith)
      have hless : arithmetic.float (49 / 10) < 5 := by
        cases arithmetic <;> decide +kernel
      exact hle.trans_lt hless
  rw [htenths, ← not_le, le_roundHalfEven_iff]
  norm_num
  constructor
  · rintro ⟨hle, hne⟩
    have hstrict := lt_of_le_of_ne hle (Ne.symm hne)
    linarith
  · intro hlt
    exact ⟨by linarith, by intro heq; linarith⟩

end Floats

section Numbers

variable {arithmetic : Arithmetic} {p q : ℚ}

theorem number_of_small (h : |q| < 2 ^ 53) : Arithmetic.number .binary64 q = nearest q := if_pos h

theorem number_neg (arithmetic : Arithmetic) (q : ℚ) :
    arithmetic.number (-q) = -arithmetic.number q := by
  cases arithmetic with
  | exact => rfl
  | binary64 =>
    dsimp only [Arithmetic.number]
    rw [abs_neg]
    split
    · exact nearest_neg q
    · rw [roundHalfEven_neg, Int.cast_neg]

@[simp] theorem number_intCast (arithmetic : Arithmetic) (n : ℤ) :
    arithmetic.number (n : ℚ) = n := by
  cases arithmetic with
  | exact => rfl
  | binary64 =>
    dsimp only [Arithmetic.number]
    split
    · next h => exact nearest_intCast (by exact_mod_cast h)
    · rw [roundHalfEven_intCast]

/-- A result that an int has no bound for is not below one that a float still tells apart. -/
theorem number_mono_of_nonneg (hp : 0 ≤ p) (h : p ≤ q) :
    arithmetic.number p ≤ arithmetic.number q := by
  have hq := hp.trans h
  cases arithmetic with
  | exact => exact h
  | binary64 =>
    dsimp only [Arithmetic.number]
    rw [abs_of_nonneg hp, abs_of_nonneg hq]
    by_cases hlarge : q < 2 ^ 53
    · rw [if_pos (h.trans_lt hlarge), if_pos hlarge]
      exact nearest_mono h
    rw [if_neg hlarge]
    by_cases hsmall : p < 2 ^ 53
    · rw [if_pos hsmall]
      have htop : roundHalfEven ((2 ^ 53 : ℤ) : ℚ) ≤ roundHalfEven q :=
        roundHalfEven_mono (by push_cast; exact not_lt.mp hlarge)
      rw [roundHalfEven_intCast] at htop
      have hbelow : nearest p ≤ 2 ^ (53 : ℤ) := nearest_le_zpow hp (by exact_mod_cast hsmall)
      have habove : (2 : ℚ) ^ (53 : ℤ) ≤ roundHalfEven q := by exact_mod_cast htop
      exact hbelow.trans habove
    · rw [if_neg hsmall]
      exact_mod_cast roundHalfEven_mono h

theorem number_mono (arithmetic : Arithmetic) : Monotone arithmetic.number := by
  have hzero : arithmetic.number 0 = 0 := by exact_mod_cast number_intCast arithmetic 0
  have hnonneg {q : ℚ} (hq : 0 ≤ q) : 0 ≤ arithmetic.number q := by
    have hle : arithmetic.number 0 ≤ arithmetic.number q := number_mono_of_nonneg le_rfl hq
    rwa [hzero] at hle
  intro p q h
  rcases le_total 0 p with hp | hp
  · exact number_mono_of_nonneg hp h
  have hopposite : arithmetic.number p = -arithmetic.number (-p) := by
    rw [number_neg, neg_neg]
  rcases le_total 0 q with hq | hq
  · have hleft := hnonneg (neg_nonneg.mpr hp)
    have hright := hnonneg hq
    linarith
  · have hle : arithmetic.number (-q) ≤ arithmetic.number (-p) :=
      number_mono_of_nonneg (neg_nonneg.mpr hq) (neg_le_neg h)
    rw [number_neg, number_neg] at hle
    exact neg_le_neg_iff.mp hle

theorem number_pos (h : 0 < q) : 0 < arithmetic.number q := by
  cases arithmetic with
  | exact => exact h
  | binary64 =>
    by_cases hsmall : |q| < 2 ^ 53
    · rw [number_of_small hsmall]
      exact nearest_pos h
    · rw [abs_of_pos h, not_lt] at hsmall
      have hle := number_mono .binary64
        (show ((1 : ℤ) : ℚ) ≤ q by push_cast; linarith)
      rw [number_intCast, Int.cast_one] at hle
      linarith

/-- A result is not rounded beyond an integer. -/
theorem number_le_of_le {n : ℤ} (h : q ≤ n) : arithmetic.number q ≤ n := by
  have hle := number_mono arithmetic h
  rwa [number_intCast] at hle

theorem le_number_of_le {n : ℤ} (h : (n : ℚ) ≤ q) : (n : ℚ) ≤ arithmetic.number q := by
  have hle := number_mono arithmetic h
  rwa [number_intCast] at hle

theorem ceil_number_le (arithmetic : Arithmetic) (q : ℚ) : ⌈arithmetic.number q⌉ ≤ ⌈q⌉ :=
  Int.ceil_le.mpr (number_le_of_le (Int.le_ceil q))

theorem number_pos_iff : 0 < arithmetic.number q ↔ 0 < q := by
  refine ⟨fun h => ?_, number_pos⟩
  by_contra hle
  have hzero : arithmetic.number q ≤ ((0 : ℤ) : ℚ) :=
    number_le_of_le (by push_cast; exact not_lt.mp hle)
  push_cast at hzero
  linarith

end Numbers

end PythonArithmetic
