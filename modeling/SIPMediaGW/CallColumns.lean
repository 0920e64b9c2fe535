import SIPMediaGW.SampleRates

/-! # The columns of a call

What is read from the payload is clamped to the columns; what is summed or divided afterwards
is not. -/
namespace CallColumns

open IngestMapping
open PythonArithmetic
open PythonJson
open Rounding
open SampleRates

/-- The values of an INTEGER column. -/
def FitsInteger (n : ℤ) : Prop := -2 ^ 31 ≤ n ∧ n ≤ 2 ^ 31 - 1

/-- The values of a NUMERIC(6,1) column: rounded to one decimal, five digits before it. -/
def FitsNumeric (q : ℚ) : Prop := |q| < 10 ^ 5 - 1 / 20

structure ColumnsFit (row : CallRow) : Prop where
  durationS : ∀ n ∈ row.durationS, FitsInteger n
  occupancyS : ∀ n ∈ row.occupancyS, FitsInteger n
  videoLowIntervals : ∀ n ∈ row.summary.videoLowIntervals, FitsInteger n
  videoKeyframeRequests : ∀ n ∈ row.summary.videoKeyframeRequests, FitsInteger n
  presentationS : ∀ n ∈ row.summary.presentationS, FitsInteger n
  videoMinRxFps : ∀ q ∈ row.summary.videoMinRxFps, FitsNumeric q

def samplesOf (call : Dict) : Json := field (obj (field call "mediaStats")) "samples"

/-- Neither `true` nor a number other than zero. -/
def Iterable : Json → Prop
  | .bool b => b = false
  | .int n => n = 0
  | .float x => truthy (.float x) = false
  | _ => True

/-- The bounds that nothing checks: on the time presented, on the received rates (the least of
them is stored) and on the number of low ones. -/
structure RangesKept (py : PythonText) (points : List Dict) : Prop where
  presented : presented py points < 2 ^ 31 - 1 / 2
  above : ∀ r ∈ received py points, -(10 ^ 5 - 1 / 20) < r
  below : received py points = [] ∨ ∃ r ∈ received py points, r < 10 ^ 5 - 1 / 20
  low : (received py points).countP (fun r => decide (r < 99 / 20)) < 2 ^ 31

section Clamped

theorem fitsInteger_of_int {v : Json} {n : ℤ} (h : int v = some n) : FitsInteger n := by
  have hrange := (Option.filter_eq_some_iff.mp h).2
  rw [Bool.and_eq_true, decide_eq_true_eq, decide_eq_true_eq, intLimit] at hrange
  exact ⟨by omega, hrange.2⟩

/-- The seconds of a total are clamped, and so are its milliseconds before the division. -/
theorem fitsInteger_totalSeconds {total : Dict} {n : ℤ} (h : totalSeconds total = some n) :
    FitsInteger n := by
  rw [totalSeconds, Option.or_eq_some_iff] at h
  rcases h with hseconds | ⟨-, hmilliseconds⟩
  · exact fitsInteger_of_int hseconds
  · obtain ⟨ms, hms, rfl⟩ := Option.map_eq_some_iff.mp hmilliseconds
    obtain ⟨hlow, hhigh⟩ := fitsInteger_of_int hms
    exact ⟨by omega, by omega⟩

end Clamped

section Points

variable {v : Json}

theorem points_eq_ok_iff : (∃ ps, points v = .ok ps) ↔ Iterable v := by
  have hobjects : (∃ ps, points v = .ok ps) ↔ ∃ ds, objectsOf v = .ok ds := by
    constructor
    · rintro ⟨ps, h⟩
      obtain ⟨ds, hds, -⟩ := bind_eq_ok h
      exact ⟨ds, hds⟩
    · rintro ⟨ds, hds⟩
      exact ⟨_, by rw [points, hds]; rfl⟩
  rw [hobjects]
  have herror : ∀ e : MappingError, ¬ ∃ ds : List Dict, Except.error e = Except.ok ds := by simp
  cases v with
  | null => exact iff_of_true ⟨_, rfl⟩ trivial
  | bool b =>
    cases b with
    | false => exact iff_of_true ⟨_, rfl⟩ rfl
    | true => exact iff_of_false (herror _) Bool.true_eq_false.mp
  | int n =>
    by_cases hn : n = 0
    · subst hn
      exact iff_of_true ⟨_, rfl⟩ rfl
    · refine iff_of_false ?_ hn
      simp [objectsOf, truthy, hn]
  | float x =>
    by_cases ht : truthy (.float x) = true
    · simp [objectsOf, ht, Iterable]
    · simp [objectsOf, ht, Iterable]
  | str s =>
    refine iff_of_true ?_ trivial
    by_cases ht : truthy (.str s) = true <;> simp [objectsOf, ht]
  | arr xs =>
    refine iff_of_true ?_ trivial
    by_cases ht : truthy (.arr xs) = true <;> simp [objectsOf, ht]
  | obj d =>
    refine iff_of_true ?_ trivial
    by_cases ht : truthy (.obj d) = true <;> simp [objectsOf, ht]

end Points

section Summary

variable {py : PythonText} {ps : List Dict} {direction : Option (List (String × String))}
  {summary : SampleSummary}

theorem presentation_fits_iff (h : Summarises py.exactly ps direction summary) :
    (∀ n ∈ summary.presentationS, FitsInteger n) ↔ presented py.exactly ps < 2 ^ 31 - 1 / 2 := by
  rw [h.presentation, exactly_arithmetic, round_exact]
  split
  · next hnone =>
    subst hnone
    refine iff_of_true (by simp) ?_
    norm_num [presented, PythonText.exactly, Arithmetic.sum]
  · have hnonneg := @presented_nonneg py ps
    have hzero : 0 ≤ roundHalfEven (presented py.exactly ps) :=
      le_roundHalfEven_iff.mpr (.inl (by push_cast; linarith))
    have hbound : roundHalfEven (presented py.exactly ps) ≤ 2 ^ 31 - 1 ↔
        presented py.exactly ps < 2 ^ 31 - 1 / 2 := by
      rw [← not_iff_not, not_le, not_lt, ← Int.add_one_le_iff, le_roundHalfEven_iff,
        le_iff_lt_or_eq]
      norm_num
    simp only [Option.mem_def, Option.some.injEq, forall_eq', FitsInteger]
    rw [hbound]
    exact ⟨And.right, fun h => ⟨by omega, h⟩⟩

/-- Where a rounded rate reaches a number of tenths. -/
theorem le_roundTenth_iff {q : ℚ} {n : ℤ} : (n : ℚ) / 10 ≤ Arithmetic.exact.roundTenth q ↔
    ((n : ℚ) - 1 / 2) / 10 < q ∨ (((n : ℚ) - 1 / 2) / 10 = q ∧ n % 2 = 0) := by
  have hcast : (n : ℚ) / 10 ≤ Arithmetic.exact.roundTenth q ↔ n ≤ roundHalfEven (q * 10) := by
    rw [Arithmetic.roundTenth, Arithmetic.float, div_le_div_iff_of_pos_right (by norm_num),
      Int.cast_le]
  rw [hcast, le_roundHalfEven_iff, div_lt_iff₀ (by norm_num), div_eq_iff (by norm_num)]

/-- Rounded rates are whole numbers of tenths: none lies between two of them. -/
theorem le_roundTenth_of_half {q : ℚ} {n : ℤ}
    (h : (n : ℚ) / 10 - 1 / 20 ≤ Arithmetic.exact.roundTenth q) :
    (n : ℚ) / 10 ≤ Arithmetic.exact.roundTenth q := by
  unfold Arithmetic.roundTenth Arithmetic.float at h ⊢
  by_contra hlt
  rw [div_le_div_iff_of_pos_right (by norm_num), Int.cast_le, not_le] at hlt
  have hcast : ((roundHalfEven (q * 10) : ℤ) : ℚ) + 1 ≤ n := by exact_mod_cast hlt
  linarith

/-- 99999.95 is rounded up, to a number the column cannot hold. -/
theorem roundTenth_lt_iff {q : ℚ} :
    Arithmetic.exact.roundTenth q < 10 ^ 5 - 1 / 20 ↔ q < 10 ^ 5 - 1 / 20 := by
  have htenths : (10 : ℚ) ^ 5 - 1 / 20 = ((1000000 : ℤ) : ℚ) / 10 - 1 / 20 := by norm_num
  have hhalf : (((1000000 : ℤ) : ℚ) - 1 / 2) / 10 = ((1000000 : ℤ) : ℚ) / 10 - 1 / 20 := by
    norm_num
  rw [htenths, ← not_le, ← not_le, not_iff_not]
  constructor
  · intro h
    rcases le_roundTenth_iff.mp (le_roundTenth_of_half h) with hlt | ⟨heq, -⟩
    · exact (hhalf ▸ hlt).le
    · exact (hhalf ▸ heq).le
  · intro h
    have hle : ((1000000 : ℤ) : ℚ) / 10 ≤ Arithmetic.exact.roundTenth q := by
      rw [le_roundTenth_iff, hhalf]
      exact h.lt_or_eq.imp_right fun heq => ⟨heq, rfl⟩
    linarith

/-- Its opposite is rounded down, to one it cannot hold either. -/
theorem lt_roundTenth_iff {q : ℚ} :
    -(10 ^ 5 - 1 / 20) < Arithmetic.exact.roundTenth q ↔ -(10 ^ 5 - 1 / 20) < q := by
  have htenths : -((10 : ℚ) ^ 5 - 1 / 20) = ((-999999 : ℤ) : ℚ) / 10 - 1 / 20 := by norm_num
  have hhalf : (((-999999 : ℤ) : ℚ) - 1 / 2) / 10 = ((-999999 : ℤ) : ℚ) / 10 - 1 / 20 := by
    norm_num
  rw [htenths]
  constructor
  · intro h
    rcases le_roundTenth_iff.mp (le_roundTenth_of_half h.le) with hlt | ⟨-, heven⟩
    · exact hhalf ▸ hlt
    · exact absurd heven (by decide)
  · intro h
    have hle : ((-999999 : ℤ) : ℚ) / 10 ≤ Arithmetic.exact.roundTenth q :=
      le_roundTenth_iff.mpr (.inl (hhalf.symm ▸ h))
    linarith

theorem minimum_fits_iff (h : Summarises py.exactly ps direction summary) :
    (∀ q ∈ summary.videoMinRxFps, FitsNumeric q) ↔
      (∀ r ∈ received py.exactly ps, -(10 ^ 5 - 1 / 20) < r) ∧
        (received py.exactly ps = [] ∨ ∃ r ∈ received py.exactly ps, r < 10 ^ 5 - 1 / 20) := by
  rw [h.minimum, exactly_arithmetic]
  cases hmin : (received py.exactly ps).min? with
  | none =>
    rw [List.min?_eq_none_iff.mp hmin]
    simp
  | some m =>
    obtain ⟨hmem, hleast⟩ := List.min?_eq_some_iff.mp hmin
    simp only [Option.map_some, Option.mem_def, Option.some.injEq, forall_eq', FitsNumeric,
      abs_lt]
    refine and_congr ?_ ?_
    · rw [lt_roundTenth_iff]
      exact ⟨fun hm r hr => hm.trans_le (hleast r hr), fun hall => hall m hmem⟩
    · rw [roundTenth_lt_iff]
      constructor
      · exact fun hm => .inr ⟨m, hmem, hm⟩
      · rintro (hnone | ⟨r, hr, hlt⟩)
        · rw [hnone] at hmem
          cases hmem
        · exact (hleast r hr).trans_lt hlt

theorem low_fits_iff (h : Summarises py.exactly ps direction summary) :
    (∀ n ∈ summary.videoLowIntervals, FitsInteger n) ↔
      (received py.exactly ps).countP (fun r => decide (r < 99 / 20)) < 2 ^ 31 := by
  rw [h.low]
  split
  · next hnone =>
    rw [hnone]
    simp
  · simp only [Option.mem_def, Option.some.injEq, forall_eq', FitsInteger]
    omega

theorem requests_fit (h : Summarises py.exactly ps direction summary) :
    ∀ n ∈ summary.videoKeyframeRequests, FitsInteger n := by
  intro n hn
  rw [h.requests] at hn
  obtain ⟨last, -, hlast⟩ := Option.bind_eq_some_iff.mp hn
  exact fitsInteger_of_int hlast

/-- The columns fit exactly when the bounds are kept: the total is clamped. -/
theorem columnsFit_iff {call : Dict} (h : Summarises py.exactly ps direction summary) :
    ColumnsFit (callColumns py.exactly call summary) ↔ RangesKept py.exactly ps := by
  constructor
  · intro hfit
    obtain ⟨habove, hbelow⟩ := (minimum_fits_iff h).mp hfit.videoMinRxFps
    exact ⟨(presentation_fits_iff h).mp hfit.presentationS, habove, hbelow,
      (low_fits_iff h).mp hfit.videoLowIntervals⟩
  · intro hkept
    exact
      { durationS := fun n hn => fitsInteger_totalSeconds hn
        occupancyS := fun n hn => fitsInteger_totalSeconds hn
        videoLowIntervals := (low_fits_iff h).mpr hkept.low
        videoKeyframeRequests := requests_fit h
        presentationS := (presentation_fits_iff h).mpr hkept.presented
        videoMinRxFps := (minimum_fits_iff h).mpr ⟨hkept.above, hkept.below⟩ }

end Summary

/-- The `call` object is mapped, and to columns that fit, exactly when its samples can be
iterated and the bounds are kept. -/
theorem call_fits_iff (py : PythonText) {payload : Json} {call : Dict}
    (hcall : callOf payload = .ok call) :
    (∃ row, callRow py.exactly payload = .ok row ∧ ColumnsFit row) ↔
      Iterable (samplesOf call) ∧
        ∀ ps, points (samplesOf call) = .ok ps → RangesKept py.exactly ps := by
  have hrow : callRow py.exactly payload = sampleSummary py.exactly (samplesOf call)
      (direction py.exactly (field (obj (field call "details")) "mediaDir")) >>= fun summary =>
        .ok (callColumns py.exactly call summary) := by
    rw [callRow, hcall]
    rfl
  cases hpoints : points (samplesOf call) with
  | error e =>
    have hnone : ¬ ∃ ps, points (samplesOf call) = .ok ps := by simp [hpoints]
    rw [hrow, sampleSummary_eq_error hpoints]
    refine iff_of_false ?_ fun h => hnone (points_eq_ok_iff.mpr h.1)
    rintro ⟨row, hrow, -⟩
    cases hrow
  | ok ps =>
    obtain ⟨summary, hsummary, hspec⟩ := @sampleSummary_eq_ok py.exactly _ _
      (direction py.exactly (field (obj (field call "details")) "mediaDir")) hpoints rfl
    rw [hrow, hsummary]
    constructor
    · rintro ⟨row, hrow, hfit⟩
      obtain rfl := Except.ok.inj hrow
      refine ⟨points_eq_ok_iff.mp ⟨ps, hpoints⟩, fun ps' hps' => ?_⟩
      obtain rfl := Except.ok.inj hps'
      exact (columnsFit_iff hspec).mp hfit
    · rintro ⟨-, hkept⟩
      exact ⟨_, rfl, (columnsFit_iff hspec).mpr (hkept ps rfl)⟩

/-- Two samples, and slides that are sent from the first to the second. -/
def sharedFor (seconds : ℤ) : Json :=
  .obj [("call", .obj [("mediaStats", .obj [("samples", .arr [
    .obj [("seconds", .int 0), ("video", .obj [])],
    .obj [("seconds", .int seconds),
      ("video", .obj [("slides", .obj [("source", .str "screen")])])]])])])]

theorem short_share_fits :
    ∃ row, callRow oneDate.exactly (sharedFor 60) = .ok row ∧ ColumnsFit row := by
  have hcall : callOf (sharedFor 60) = .ok (obj (field (obj (sharedFor 60)) "call")) := rfl
  refine (call_fits_iff oneDate hcall).mpr ⟨trivial, fun ps hps => ?_⟩
  obtain rfl := Except.ok.inj hps
  exact ⟨by decide +kernel, by decide +kernel, .inl (by decide +kernel), by decide +kernel⟩

/-- An instant that a float holds and a column does not is summed as it is. -/
theorem long_share_unfit : ¬ ∀ (py : PythonText) (payload : Json) (call : Dict),
    callOf payload = .ok call → ∃ row, callRow py.exactly payload = .ok row ∧ ColumnsFit row := by
  intro h
  obtain ⟨row, hrow, hfit⟩ := h oneDate (sharedFor (2 ^ 31)) _ rfl
  obtain rfl := Except.ok.inj hrow
  have hseconds := hfit.presentationS (2 ^ 31) (by decide +kernel)
  exact absurd hseconds.2 (by decide)

end CallColumns
