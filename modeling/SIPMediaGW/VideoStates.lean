import SIPMediaGW.ListCounting
import SIPMediaGW.SampleRates

/-! # The states of the picture

The documentation speaks of rates and of their order, the code of numbers of rates rounded to
one decimal. -/
namespace VideoStates

open IngestMapping
open PythonArithmetic
open PythonJson
open SampleRates

/-- The samples of a list that carry a picture. -/
def pictures (samples : List Json) : List Dict :=
  (samples.filterMap fun
    | .obj d => some d
    | _ => none).filter fun s => match field s "video" with
    | .obj _ => true
    | _ => false

/-- `mediaDir` says that the video goes one way. -/
def OneWay (direction : Option (List (String × String))) : Prop :=
  (direction.getD []).lookup "video" = some "sendonly" ∨
    (direction.getD []).lookup "video" = some "recvonly"

instance (direction : Option (List (String × String))) : Decidable (OneWay direction) :=
  inferInstanceAs (Decidable (_ ∨ _))

/-- A rate of at least five, and a later one below. -/
def Drops (rates : List ℚ) : Prop :=
  ∃ (i j : ℕ) (hi : i < rates.length) (hj : j < rates.length),
    i < j ∧ 5 ≤ rates[i] ∧ rates[j] < 5

/-- What the summary of a call documents, over the rates as they are divided. -/
structure Documented (arithmetic : Arithmetic) (rates : List ℚ)
    (direction : Option (List (String × String))) (summary : SampleSummary) : Prop where
  oneway : summary.videoState = some .oneway ↔ OneWay direction
  unknown : ¬ OneWay direction → (summary.videoState = none ↔ rates = [])
  ok : ¬ OneWay direction →
    (summary.videoState = some .ok ↔ rates ≠ [] ∧ ∀ r ∈ rates, 5 ≤ r)
  noPicture : ¬ OneWay direction →
    (summary.videoState = some .noPicture ↔ rates ≠ [] ∧ ∀ r ∈ rates, r < 5)
  stalled : ¬ OneWay direction → (summary.videoState = some .stalled ↔ Drops rates)
  low : summary.videoLowIntervals = if rates = [] then none
    else some ((rates.countP fun r => decide (r < 5) : ℕ) : ℤ)
  minimum : summary.videoMinRxFps = rates.min?.map arithmetic.roundTenth

/-- No rate is so little below five that it is rounded to it, and a picture that is not there
all the time goes after it came. -/
structure Unambiguous (rates : List ℚ) (direction : Option (List (String × String))) : Prop where
  apart : ∀ r ∈ rates, r < 99 / 20 ∨ 5 ≤ r
  goes : ¬ OneWay direction → (∃ r ∈ rates, 5 ≤ r) → (∃ r ∈ rates, r < 5) → Drops rates

section Rates

variable {rates : List ℚ} {direction : Option (List (String × String))}

theorem countP_low_eq_iff :
    rates.countP (fun r => decide (r < 99 / 20)) = rates.countP (fun r => decide (r < 5)) ↔
      ∀ r ∈ rates, r < 99 / 20 ∨ 5 ≤ r := by
  constructor
  · intro h r hr
    by_contra hbetween
    rw [not_or, not_lt, not_le] at hbetween
    have himp : ∀ x ∈ rates, decide (x < 99 / 20) = true → decide (x < 5) = true := by
      intro x _ hx
      rw [decide_eq_true_eq] at hx ⊢
      linarith
    have hlow := ListCounting.of_countP_eq himp h hr (decide_eq_true hbetween.2)
    rw [decide_eq_true_eq] at hlow
    exact absurd hlow (not_lt.mpr hbetween.1)
  · intro h
    refine List.countP_congr fun r hr => ?_
    rw [decide_eq_true_eq, decide_eq_true_eq]
    refine ⟨fun hlow => by linarith, fun hlow => ?_⟩
    exact (h r hr).resolve_right (not_le.mpr hlow)

theorem Drops.both (h : Drops rates) : (∃ r ∈ rates, 5 ≤ r) ∧ ∃ r ∈ rates, r < 5 := by
  obtain ⟨i, j, hi, hj, -, hhigh, hlow⟩ := h
  exact ⟨⟨_, List.getElem_mem hi, hhigh⟩, ⟨_, List.getElem_mem hj, hlow⟩⟩

theorem derivedState_of_oneWay (h : OneWay direction) :
    derivedState direction rates = some .oneway := if_pos h

theorem derivedState_nil (h : ¬ OneWay direction) : derivedState direction [] = none := by
  rw [derivedState]
  exact (if_neg h).trans (if_pos rfl)

/-- Without a direction the numbers decide. -/
theorem derivedState_eq (h : ¬ OneWay direction) (hne : rates ≠ []) :
    derivedState direction rates =
      some (measuredState (rates.countP fun r => decide (r < 99 / 20)) rates.length) := by
  rw [derivedState]
  exact (if_neg h).trans (if_neg hne)

section Measured

variable {p : ℚ → Bool}

theorem measuredState_ok_iff :
    measuredState (rates.countP p) rates.length = .ok ↔ ∀ r ∈ rates, p r = false := by
  have hnone : (∀ r ∈ rates, p r = false) ↔ rates.countP p = 0 := by
    rw [List.countP_eq_zero]
    simp
  rw [hnone, measuredState]
  split_ifs with hzero hall
  · exact iff_of_true rfl hzero
  · exact iff_of_false nofun hzero
  · exact iff_of_false nofun hzero

theorem measuredState_noPicture_iff (hne : rates ≠ []) :
    measuredState (rates.countP p) rates.length = .noPicture ↔ ∀ r ∈ rates, p r = true := by
  have hpos := List.length_pos_of_ne_nil hne
  rw [← List.countP_eq_length, measuredState]
  split_ifs with hzero hall
  · exact iff_of_false nofun (by omega)
  · exact iff_of_true rfl hall
  · exact iff_of_false nofun hall

theorem measuredState_stalled_iff :
    measuredState (rates.countP p) rates.length = .stalled ↔
      (∃ r ∈ rates, p r = true) ∧ ∃ r ∈ rates, p r = false := by
  have hsome : (∃ r ∈ rates, p r = true) ↔ rates.countP p ≠ 0 := by
    rw [Ne, List.countP_eq_zero]
    simp
  have hother : (∃ r ∈ rates, p r = false) ↔ rates.countP p ≠ rates.length := by
    rw [Ne, List.countP_eq_length]
    simp
  rw [hsome, hother, measuredState]
  split_ifs with hzero hall
  · exact iff_of_false nofun fun h => h.1 hzero
  · exact iff_of_false nofun fun h => h.2 hall
  · exact iff_of_true rfl ⟨hzero, hall⟩

end Measured

/-- The count that tells the states apart, where no rate is rounded up to five. -/
theorem derivedState_eq_of_apart (h : ¬ OneWay direction) (hne : rates ≠ [])
    (hapart : ∀ r ∈ rates, r < 99 / 20 ∨ 5 ≤ r) : derivedState direction rates =
      some (measuredState (rates.countP fun r => decide (r < 5)) rates.length) := by
  rw [derivedState_eq h hne, countP_low_eq_iff.mpr hapart]

end Rates

section Summary

variable {py : PythonText} {ps : List Dict} {direction : Option (List (String × String))}
  {summary : SampleSummary}

theorem unambiguous_of_documented (hspec : Summarises py ps direction summary)
    (h : Documented py.arithmetic (received py ps) direction summary) :
    Unambiguous (received py ps) direction := by
  have hapart : ∀ r ∈ received py ps, r < 99 / 20 ∨ 5 ≤ r := by
    by_cases hnone : received py ps = []
    · simp [hnone]
    · have hlow := hspec.low.symm.trans h.low
      rw [if_neg hnone, if_neg hnone] at hlow
      exact countP_low_eq_iff.mp (Int.ofNat.inj (Option.some.inj hlow))
  refine ⟨hapart, fun hway ⟨a, ha, hhigh⟩ ⟨b, hb, hlow⟩ => ?_⟩
  rw [← h.stalled hway, hspec.state,
    derivedState_eq_of_apart hway (List.ne_nil_of_mem ha) hapart, Option.some.injEq,
    measuredState_stalled_iff]
  exact ⟨⟨b, hb, decide_eq_true hlow⟩, ⟨a, ha, decide_eq_false (not_lt.mpr hhigh)⟩⟩

theorem documented_of_unambiguous (hspec : Summarises py ps direction summary)
    (h : Unambiguous (received py ps) direction) :
    Documented py.arithmetic (received py ps) direction summary := by
  have hlow : summary.videoLowIntervals = if received py ps = [] then none
      else some (((received py ps).countP fun r => decide (r < 5) : ℕ) : ℤ) := by
    rw [hspec.low, countP_low_eq_iff.mpr h.apart]
  by_cases hway : OneWay direction
  · have hstate : summary.videoState = some .oneway := by
      rw [hspec.state, derivedState_of_oneWay hway]
    exact
      { oneway := iff_of_true hstate hway
        unknown := fun hnot => absurd hway hnot
        ok := fun hnot => absurd hway hnot
        noPicture := fun hnot => absurd hway hnot
        stalled := fun hnot => absurd hway hnot
        low := hlow
        minimum := hspec.minimum }
  by_cases hnone : received py ps = []
  · have hstate : summary.videoState = none := by
      rw [hspec.state, hnone, derivedState_nil hway]
    have hdrops : ¬ Drops (received py ps) := fun hdrops => by
      obtain ⟨⟨r, hr, -⟩, -⟩ := hdrops.both
      rw [hnone] at hr
      cases hr
    exact
      { oneway := by simp [hstate, hway]
        unknown := fun _ => iff_of_true hstate hnone
        ok := fun _ => by simp [hstate, hnone]
        noPicture := fun _ => by simp [hstate, hnone]
        stalled := fun _ => by simp [hstate, hdrops]
        low := hlow
        minimum := hspec.minimum }
  have hstate := hspec.state.trans (derivedState_eq_of_apart hway hnone h.apart)
  exact
    { oneway := by
        rw [hstate, Option.some.injEq]
        refine iff_of_false ?_ hway
        rw [measuredState]
        split_ifs <;> exact nofun
      unknown := fun _ => by simp [hstate, hnone]
      ok := fun _ => by
        rw [hstate, Option.some.injEq, measuredState_ok_iff, and_iff_right hnone]
        simp
      noPicture := fun _ => by
        rw [hstate, Option.some.injEq, measuredState_noPicture_iff hnone, and_iff_right hnone]
        simp
      stalled := fun _ => by
        rw [hstate, Option.some.injEq, measuredState_stalled_iff]
        simp only [decide_eq_true_eq, decide_eq_false_iff_not, not_lt]
        exact ⟨fun hboth => h.goes hway hboth.2 hboth.1, fun hdrops => hdrops.both.symm⟩
      low := hlow
      minimum := hspec.minimum }

theorem points_arr (samples : List Json) : points (.arr samples) = .ok (pictures samples) := by
  cases samples <;> rfl

end Summary

/-- The time presented is a finite number: `round` raises where it is not. -/
def Finite (py : PythonText) (ps : List Dict) : Prop :=
  (py.arithmetic.round (presented py ps)).isSome

/-- The summary of a list of samples says what it documents exactly when it can be made, no
received rate is rounded up to five and, unless the video goes one way, no picture only comes
late. -/
theorem documented_iff (py : PythonText) (samples : List Json)
    (direction : Option (List (String × String))) :
    (∃ summary, sampleSummary py (.arr samples) direction = .ok summary ∧
        Documented py.arithmetic (received py (pictures samples)) direction summary) ↔
      Finite py (pictures samples) ∧ Unambiguous (received py (pictures samples)) direction := by
  by_cases hfinite : Finite py (pictures samples)
  · obtain ⟨summary, hsummary, hspec⟩ :=
      @sampleSummary_eq_ok py _ _ direction (points_arr samples) hfinite
    rw [hsummary, and_iff_right hfinite]
    constructor
    · rintro ⟨summary', heq, h⟩
      obtain rfl := Except.ok.inj heq
      exact unambiguous_of_documented hspec h
    · exact fun h => ⟨summary, rfl, documented_of_unambiguous hspec h⟩
  · refine iff_of_false ?_ fun h => hfinite h.1
    rintro ⟨summary, hsummary, -⟩
    rw [sampleSummary_of_infinite (points_arr samples)
      (Option.not_isSome_iff_eq_none.mp hfinite)] at hsummary
    cases hsummary

/-- A reading of the counter of received frames. -/
def pictureAt (seconds frames : ℤ) : Json :=
  .obj [("seconds", .int seconds), ("video", .obj [("main", .obj [("rxFrames", .int frames)])])]

/-- A picture that comes after ten seconds, and stays, is a stall. -/
theorem late_picture_stalled : ¬ ∀ (py : PythonText) (samples : List Json)
    (direction : Option (List (String × String))),
    ∃ summary, sampleSummary py (.arr samples) direction = .ok summary ∧
      Documented py.arithmetic (received py (pictures samples)) direction summary := by
  intro h
  obtain ⟨summary, hsummary, hdoc⟩ :=
    h oneDate [pictureAt 0 0, pictureAt 10 0, pictureAt 20 300] none
  have hstalled : sampleSummary oneDate
      (.arr [pictureAt 0 0, pictureAt 10 0, pictureAt 20 300]) none =
        .ok ⟨some 0, some 1, none, some 0, some .stalled⟩ := by decide +kernel
  obtain rfl := Except.ok.inj (hstalled.symm.trans hsummary)
  have hrates : received oneDate (pictures [pictureAt 0 0, pictureAt 10 0, pictureAt 20 300]) =
      [0, 30] := by decide +kernel
  rw [hrates] at hdoc
  obtain ⟨i, j, hi, hj, hij, hhigh, hlow⟩ := (hdoc.stalled (by decide)).mp rfl
  obtain ⟨rfl, rfl⟩ : i = 0 ∧ j = 1 := by
    simp only [List.length_cons, List.length_nil] at hi hj
    omega
  norm_num at hhigh

end VideoStates
