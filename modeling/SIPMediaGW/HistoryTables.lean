import Mathlib.Data.List.Dedup
import SIPMediaGW.EndOfCallVideo

/-! # The video tables of a history

What the records of a history say of the streams of a call: the rows that no reading and no close
has dropped, the numbers they are under, and the last value of each figure. -/
namespace HistoryTables

open EndOfCallVideo
open FieldMap
open HistoryPayload
open IngestMapping hiding text direction
open PythonJson

def isReading : HistoryLine → Bool
  | .record recordType _ => decide (recordType = "media_sample")
  | _ => false

/-- The rows that are kept, and whether there was a reading. -/
def gather (kept : List Dict × Bool) : HistoryLine → List Dict × Bool
  | .record recordType (.obj data) =>
    if recordType = "media_sample" then ([], true)
    else if recordType = "call_closed" ∧ isFinal data = true ∧ kept.2 = true then ([], true)
    else if recordType = "stats_value" ∧ isVideo data = true then (kept.1 ++ [data], kept.2)
    else kept
  | _ => kept

def keptRows (lines : List HistoryLine) : List Dict := (lines.foldl gather ([], false)).1

/-- The numbers of the tables, in order. -/
def numbers (rows : List Dict) : List ℤ := (rows.map numberOf).dedup.insertionSort (· ≤ ·)

/-- The last value of a figure, `null` where there is none. -/
def figure (rows : List Dict) (n : ℤ) (direction : Direction) (name : String) : Json :=
  (lastWritten (rows.filter fun row => decide (numberOf row = n)) direction.text name).getD .null

/-- A counter as the Manager compares it: what a column cannot hold counts as zero. -/
def counter (rows : List Dict) (n : ℤ) (direction : Direction) (name : String) : ℤ :=
  (int (figure rows n direction name)).getD 0

def figuresOf (s : Stream) : Direction → Dict
  | .tx => s.tx
  | .rx => s.rx

section Lines

variable {b b' : Building} {rows : List Dict}

/-- The accumulator of the builder is what the kept rows write. -/
structure Gathered (kept : List Dict × Bool) (v : View) : Prop where
  streams : v.streams = kept.1.foldl write []
  read : v.samples.isEmpty = !kept.2

theorem Gathered.absorb {kept : List Dict × Bool} {v : View} (h : Gathered kept v)
    (line : HistoryLine) : Gathered (gather kept line) (absorb v line) := by
  cases line with
  | mainApp value => exact h
  | unreadable => exact h
  | record recordType w =>
    cases w with
    | obj data =>
      simp only [gather, EndOfCallVideo.absorb]
      by_cases hclosed : recordType = "call_closed"
      · subst hclosed
        rw [if_neg (by decide), if_pos rfl, h.read, Bool.not_not]
        by_cases hdrops : isFinal data = true ∧ kept.2 = true
        · rw [if_pos ⟨rfl, hdrops⟩, hdrops.1, hdrops.2]
          exact ⟨rfl, by rw [h.read, hdrops.2]⟩
        · have hkeeps : (isFinal data && kept.2) = false := by
            rw [← Bool.not_eq_true, Bool.and_eq_true]
            exact hdrops
          rw [if_neg fun hboth => hdrops hboth.2, if_neg fun hboth => absurd hboth.1 (by decide),
            hkeeps]
          exact h
      by_cases hsample : recordType = "media_sample"
      · rw [if_pos hsample, if_neg hclosed, if_pos hsample]
        exact ⟨rfl, List.isEmpty_eq_false_iff.mpr (by simp)⟩
      rw [if_neg hsample, if_neg fun hboth => hclosed hboth.1, if_neg hclosed, if_neg hsample]
      by_cases hstats : recordType = "stats_value"
      · rw [if_pos hstats]
        by_cases hvideo : isVideo data = true
        · rw [if_pos ⟨hstats, hvideo⟩, if_pos hvideo]
          refine ⟨?_, h.read⟩
          rw [List.foldl_append, ← h.streams]
          rfl
        · rw [if_neg fun hboth => hvideo hboth.2, if_neg hvideo]
          exact h
      · rw [if_neg fun hboth => hstats hboth.1, if_neg hstats]
        exact h
    | _ => exact h

theorem Gathered.foldl {kept : List Dict × Bool} {v : View} (h : Gathered kept v)
    (lines : List HistoryLine) :
    Gathered (lines.foldl gather kept) (lines.foldl EndOfCallVideo.absorb v) := by
  induction lines generalizing kept v with
  | nil => exact h
  | cons line lines ih => exact ih (h.absorb line)

/-- The builder has the streams of the kept rows. -/
theorem videoStreams_eq {lines : List HistoryLine} (h : readLines Building.start lines = .ok b) :
    b.media.videoStreams = (keptRows lines).foldl write [] := by
  have hstart : Gathered ([], false) (view Building.start) := ⟨rfl, rfl⟩
  have hgathered := (hstart.foldl lines).streams
  rw [← view_readLines h] at hgathered
  exact hgathered

theorem onLine_samples {line : HistoryLine} (h : onLine b line = .ok b') :
    b'.mediaSamples.length = b.mediaSamples.length + if isReading line then 1 else 0 := by
  rcases onLine_cases h with ⟨data, rfl, rfl⟩ | ⟨data, rfl, rfl⟩ | ⟨hother, haside⟩
  · rfl
  · exact List.length_append
  · have hline : isReading line = false := by
      cases line with
      | record recordType v => exact decide_eq_false (hother recordType v rfl).2
      | _ => rfl
    rw [hline, haside.mediaSamples]
    rfl

/-- One sample for each reading of the history. -/
theorem readLines_samples {lines : List HistoryLine} (h : readLines b lines = .ok b') :
    b'.mediaSamples.length = b.mediaSamples.length + lines.countP isReading := by
  induction lines generalizing b with
  | nil =>
    obtain rfl := Except.ok.inj h
    rfl
  | cons line lines ih =>
    obtain ⟨b₁, hline, hrest⟩ := bind_eq_ok h
    rw [ih hrest, onLine_samples hline, List.countP_cons]
    omega

end Lines

section Streams

variable (rows : List Dict)

/-- The streams of some rows, in order, have the numbers of the tables. -/
theorem map_streamIndex_inOrder :
    (inOrder (rows.foldl write [])).map Stream.streamIndex = numbers rows := by
  have haccurate := accurate_foldl rows
  have hsorted : ((inOrder (rows.foldl write [])).map Stream.streamIndex).Pairwise (· < ·) :=
    List.pairwise_map.mpr haccurate.sorted
  have hmem (n : ℤ) : n ∈ (inOrder (rows.foldl write [])).map Stream.streamIndex ↔
      n ∈ numbers rows := by
    rw [numbers, List.mem_insertionSort, List.mem_dedup, List.mem_map, List.mem_map]
    constructor
    · rintro ⟨s, hs, rfl⟩
      exact (haccurate.numbers _).mp (haccurate.mem_inOrder hs).1
    · intro hn
      exact haccurate.exists_inOrder ((haccurate.numbers n).mpr hn)
  have hnodup : (numbers rows).Nodup :=
    (List.perm_insertionSort _ _).nodup_iff.mpr (List.nodup_dedup _)
  have hperm : ((inOrder (rows.foldl write [])).map Stream.streamIndex).Perm (numbers rows) :=
    (List.perm_ext_iff_of_nodup (hsorted.imp ne_of_lt) hnodup).mpr hmem
  exact hperm.eq_of_pairwise (fun a c _ _ hac hca => le_antisymm hac hca)
    (hsorted.imp le_of_lt) (List.pairwise_insertionSort _ _)

/-- A stream has the last values of the figures under its number. -/
theorem field_figures {s : Stream} (hs : s ∈ inOrder (rows.foldl write []))
    (direction : Direction) (name : String) :
    field (figuresOf s direction) name = figure rows s.streamIndex direction name := by
  have hholds := ((accurate_foldl rows).mem_inOrder hs).2 name
  cases direction with
  | tx => exact congrArg (Option.getD · .null) hholds.1
  | rx => exact congrArg (Option.getD · .null) hholds.2

end Streams

end HistoryTables
