import Mathlib.Algebra.Order.BigOperators.Group.List
import SIPMediaGW.IngestMapping

/-! # The rates between two samples

What the samples say before it is rounded to one decimal, and what the rounding keeps of it. -/
namespace SampleRates

open IngestMapping
open PythonArithmetic
open PythonJson
open Rounding

section Intervals

variable (py : PythonText)

/-- The time between two samples; a missing instant is read as zero. -/
def elapsed (before after : Dict) : ℚ :=
  py.arithmetic.float
    ((float py (field after "seconds")).getD 0 - (float py (field before "seconds")).getD 0)

def framesOf (sample : Dict) : Option ℤ := int (field (part sample "main") "rxFrames")

/-- The frame rate received between two samples, where it could be measured. -/
def receivedRate (before after : Dict) : Option ℚ :=
  if elapsed py before after ≤ 0 then none
  else (framesOf before).bind fun start => (framesOf after).map fun (stop : ℤ) =>
    py.arithmetic.float ((stop - start) / elapsed py before after)

/-- The received rates of all intervals that could be measured, in order. -/
def received (points : List Dict) : List ℚ :=
  (points.zip points.tail).filterMap fun pair => receivedRate py pair.1 pair.2

/-- A source other than the placeholder sends slides at the end of the interval, or slides were
received during it. -/
def Presenting (before after : Dict) : Prop :=
  (text py (field (part after "slides") "source")).getD placeholderSource ≠ placeholderSource ∨
    (int (field (part before "slides") "rxFrames")).getD 0 <
      (int (field (part after "slides") "rxFrames")).getD 0

instance (before after : Dict) : Decidable (Presenting py before after) :=
  inferInstanceAs (Decidable (_ ∨ _))

/-- How long something was presented in an interval, if at all. -/
def presentedIn (before after : Dict) : Option ℚ :=
  if 0 < elapsed py before after ∧ Presenting py before after then
    some (elapsed py before after)
  else none

/-- The time during which something was presented. -/
def presented (points : List Dict) : ℚ :=
  py.arithmetic.sum ((points.zip points.tail).filterMap fun pair => presentedIn py pair.1 pair.2)

variable {py} {points : List Dict}

theorem interval_of_not_later {before after : Dict} (h : elapsed py before after ≤ 0) :
    interval py before after = none := if_pos h

theorem interval_of_later {before after : Dict} (h : ¬ elapsed py before after ≤ 0) :
    ∃ e, interval py before after = some e ∧ e.seconds = elapsed py before after ∧
      e.rx = (receivedRate py before after).map py.arithmetic.roundTenth ∧
      (e.presentation = true ↔ Presenting py before after) := by
  refine ⟨_, if_neg h, rfl, ?_, ?_⟩
  · rw [receivedRate, if_neg h]
    change rate _ _ _ _ _ = _
    unfold rate framesOf
    cases int (field (part before "main") "rxFrames") with
    | none => rfl
    | some start => cases int (field (part after "main") "rxFrames") <;> rfl
  · rw [Bool.or_eq_true, decide_eq_true_eq, decide_eq_true_eq, Presenting]

/-- The measured rates are the received ones, rounded to a tenth. -/
theorem rates_eq (points : List Dict) :
    (frameRates py points).filterMap Interval.rx =
      (received py points).map py.arithmetic.roundTenth := by
  rw [frameRates, received, List.filterMap_filterMap, List.map_filterMap]
  refine List.filterMap_congr fun pair _ => ?_
  by_cases h : elapsed py pair.1 pair.2 ≤ 0
  · rw [interval_of_not_later h, receivedRate, if_pos h]
    rfl
  · obtain ⟨e, he, -, hrx, -⟩ := interval_of_later h
    rw [he, Option.bind_some, hrx]

/-- The time of the intervals with a presentation. -/
theorem shown_eq (points : List Dict) :
    py.arithmetic.sum (((frameRates py points).filter Interval.presentation).map
      Interval.seconds) = presented py points := by
  rw [frameRates, presented]
  congr 1
  induction points.zip points.tail with
  | nil => rfl
  | cons pair pairs ih =>
    by_cases h : elapsed py pair.1 pair.2 ≤ 0
    · have hnone : presentedIn py pair.1 pair.2 = none :=
        if_neg fun hboth => not_lt.mpr h hboth.1
      simp only [List.filterMap_cons, interval_of_not_later h, hnone]
      exact ih
    · obtain ⟨e, he, hseconds, -, hpresent⟩ := interval_of_later h
      simp only [List.filterMap_cons, he]
      by_cases hp : Presenting py pair.1 pair.2
      · have hsome : presentedIn py pair.1 pair.2 = some (elapsed py pair.1 pair.2) :=
          if_pos ⟨not_le.mp h, hp⟩
        rw [List.filter_cons_of_pos (hpresent.mpr hp), List.map_cons, hseconds, hsome, ih]
      · have hnone : presentedIn py pair.1 pair.2 = none := if_neg fun hboth => hp hboth.2
        rw [List.filter_cons_of_neg (fun hpos => hp (hpresent.mp hpos)), hnone, ih]

/-- The presented time is never negative. -/
theorem presented_nonneg (points : List Dict) : 0 ≤ presented py.exactly points := by
  apply List.sum_nonneg
  intro x hx
  obtain ⟨pair, -, hpair⟩ := List.mem_filterMap.mp hx
  rw [presentedIn, Option.ite_none_right_eq_some] at hpair
  obtain ⟨⟨hpos, -⟩, heq⟩ := hpair
  rw [← Option.some.inj heq]
  exact hpos.le

end Intervals

/-- The state the code derives: it counts the rates that are rounded to less than five. -/
def derivedState (direction : Option (List (String × String))) (rates : List ℚ) :
    Option VideoState :=
  let facing := (direction.getD []).lookup "video"
  if facing = some "sendonly" ∨ facing = some "recvonly" then some .oneway
  else if rates = [] then none
  else some (measuredState (rates.countP fun r => decide (r < 99 / 20)) rates.length)

/-- A summary in terms of the rates before they are rounded to one decimal. -/
structure Summarises (py : PythonText) (points : List Dict)
    (direction : Option (List (String × String))) (summary : SampleSummary) : Prop where
  minimum : summary.videoMinRxFps = (received py points).min?.map py.arithmetic.roundTenth
  low : summary.videoLowIntervals = if received py points = [] then none
    else some (((received py points).countP fun r => decide (r < 99 / 20) : ℕ) : ℤ)
  requests : summary.videoKeyframeRequests =
    points.getLast?.bind fun last => int (field (part last "main") "rxPicup")
  presentation : summary.presentationS =
    if points = [] then none else py.arithmetic.round (presented py points)
  state : summary.videoState = derivedState direction (received py points)

section Summary

variable {py : PythonText} {samples : Json} {ps : List Dict}
  {direction : Option (List (String × String))}

theorem foldl_min_map {f : ℚ → ℚ} (hf : Monotone f) (a : ℚ) (rs : List ℚ) :
    (rs.map f).foldl min (f a) = f (rs.foldl min a) := by
  induction rs generalizing a with
  | nil => rfl
  | cons r rs ih => rw [List.map_cons, List.foldl_cons, List.foldl_cons, ← hf.map_min, ih]

/-- Rounding before and after the minimum is rounding once. -/
theorem min?_map_roundTenth (arithmetic : Arithmetic) (rs : List ℚ) :
    (rs.map arithmetic.roundTenth).min?.map arithmetic.roundTenth =
      rs.min?.map arithmetic.roundTenth := by
  cases rs with
  | nil => rfl
  | cons r rs =>
    rw [List.map_cons, List.min?_cons', List.min?_cons', Option.map_some, Option.map_some,
      foldl_min_map (roundTenth_mono arithmetic), roundTenth_idem]

theorem low_eq (arithmetic : Arithmetic) (rs : List ℚ) :
    (rs.map arithmetic.roundTenth).countP (fun r => decide (r < lowFps)) =
      rs.countP fun r => decide (r < 99 / 20) := by
  rw [List.countP_map]
  exact List.countP_congr fun r _ => by simp [lowFps, roundTenth_lt_five_iff]

theorem sampleSummary_eq_error {e : MappingError} (h : points samples = .error e) :
    sampleSummary py samples direction = .error e := by
  rw [sampleSummary]
  simp only [h]
  rfl

/-- An infinite time cannot be rounded. -/
theorem sampleSummary_of_infinite (h : points samples = .ok ps)
    (hround : py.arithmetic.round (presented py ps) = none) :
    sampleSummary py samples direction = .error .overflowError := by
  have hshown := @shown_eq py ps
  cases hlast : ps.getLast? with
  | none =>
    obtain rfl := List.getLast?_eq_none_iff.mp hlast
    rw [presented] at hround
    cases harith : py.arithmetic <;> rw [harith] at hround <;> simp [Arithmetic.sum,
      Arithmetic.round] at hround
  | some last =>
    rw [sampleSummary, h]
    simp only [bind, Except.bind, hlast, hshown, hround]
    rfl

theorem sampleSummary_eq_ok (h : points samples = .ok ps)
    (hround : (py.arithmetic.round (presented py ps)).isSome) :
    ∃ summary, sampleSummary py samples direction = .ok summary ∧
      Summarises py ps direction summary := by
  have hrates := @rates_eq py ps
  have hshown := @shown_eq py ps
  obtain ⟨whole, hwhole⟩ := Option.isSome_iff_exists.mp hround
  cases hlast : ps.getLast? with
  | none =>
    obtain rfl := List.getLast?_eq_none_iff.mp hlast
    refine ⟨⟨none, none, none, none, _⟩, by rw [sampleSummary, h]; rfl, rfl, rfl, rfl, rfl, ?_⟩
    rfl
  | some last =>
    have hne : ps ≠ [] := by
      rintro rfl
      cases hlast
    refine ⟨_, by rw [sampleSummary, h]; simp only [bind, Except.bind, hlast, hshown, hwhole]; rfl,
      ?_, ?_, ?_, ?_, ?_⟩
    · dsimp only
      rw [hrates, min?_map_roundTenth]
    · dsimp only
      rw [hrates, low_eq, List.isEmpty_map]
      simp only [List.isEmpty_iff]
    · dsimp only
      rw [hlast]
      rfl
    · dsimp only
      rw [if_neg hne, hwhole]
    · dsimp only
      rw [hrates, low_eq, List.length_map, List.isEmpty_map, derivedState]
      simp only [List.isEmpty_iff]
      split_ifs <;> rfl

end Summary

end SampleRates
