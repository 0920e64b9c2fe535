import Mathlib.Algebra.Order.Group.Abs
import SIPMediaGW.HistoryTables

/-! # The streams of a payload, as the Manager reads them

The Manager drops the entries of a video list it takes for repeated readings. Here the list
comes from the current builder. -/
namespace StreamRepeats

open EndOfCallVideo (inOrder write)
open FieldMap
open HistoryPayload
open HistoryTables
open IngestMapping hiding text direction
open PythonJson

/-- The entries of `mediaStats.video`. -/
def payloadStreams (payload : Dict) : List Dict :=
  match field (obj (field payload "mediaStats")) "video" with
  | .arr xs => xs.filterMap fun
    | .obj d => some d
    | _ => none
  | _ => []

/-- The number the builder gave a stream. -/
def indexOf (stream : Dict) : ℤ :=
  match field stream "streamIndex" with
  | .int n => n
  | _ => 0

/-- A stream with one of its directions, and the figures of that direction. -/
structure Side where
  stream : Dict
  direction : Direction
  stats : Dict

/-- The directions that a stream has. -/
def sides (stream : Dict) : List Side :=
  [Direction.tx, .rx].filterMap fun direction =>
    match field stream direction.text with
    | .obj stats => some ⟨stream, direction, stats⟩
    | _ => none

/-- A counter stands in its column, and a missing one leaves it empty. -/
def Holds (column : Option ℤ) : Json → Prop
  | .int n => column = some n
  | .null => column = none
  | v => column = int v

/-- The row of a direction has the index of its stream and the counters of the direction. -/
structure RowOf (py : PythonText) (side : Side) (row : MediaRow) : Prop where
  media : row.media = .video
  streamIndex : row.streamIndex = indexOf side.stream
  direction : row.direction = side.direction
  packets : Holds row.packets (field side.stats "packets")
  errors : Holds row.errors (field side.stats "errors")
  packetReports : Holds row.packetReports (field side.stats "packetReports")
  lostPackets : Holds row.lostPackets (field side.stats "lostPackets")
  avgBitrateKbps : row.avgBitrateKbps = float py (field side.stats "avgBitrateKbps")
  jitterMs : row.jitterMs = float py (field side.stats "jitterMs")

/-- For each stream of the payload, in order, one video row for each direction it has. -/
def NoStreamLost (py : PythonText) (payload : Dict) : Prop :=
  ∃ rows, mediaRows py (field payload "mediaStats") = .ok rows ∧
    List.Forall₂ (RowOf py) ((payloadStreams payload).flatMap sides)
      (rows.filter fun row => decide (row.media = .video))

def counterNames : List String := ["packets", "errors", "packetReports", "lostPackets"]

/-- A column can hold a counter. -/
def Fits : Json → Prop
  | .int n => |n| ≤ intLimit
  | _ => True

instance (v : Json) : Decidable (Fits v) := by
  cases v <;> simp only [Fits] <;> infer_instance

/-- A counter that is below that of the table two places before. -/
def Restarts (rows : List Dict) : Prop :=
  ∃ (i : ℕ) (m n : ℤ), (numbers rows)[i]? = some m ∧ (numbers rows)[i + 2]? = some n ∧
    ∃ direction, ∃ name ∈ ["packets", "packetReports"],
      counter rows n direction name < counter rows m direction name

/-- The history has few tables after its last reading, or more than two readings for each pair of
them and an odd number of them or counters that restart; and numbers and counters that a column
can hold. -/
structure Told (lines : List HistoryLine) : Prop where
  apart : (numbers (keptRows lines)).length < 4 ∨
    (lines.countP isReading = 0 ∨
      (numbers (keptRows lines)).length < 2 * lines.countP isReading) ∧
    ((numbers (keptRows lines)).length % 2 = 1 ∨ Restarts (keptRows lines))
  storable : lines.countP isReading = 0 →
    ∀ e ∈ (numbers (keptRows lines)).zipIdx, |e.1| ≤ intLimit ∨ e.1 = e.2
  counters : ∀ n ∈ numbers (keptRows lines), ∀ direction, ∀ name ∈ counterNames,
    Fits (figure (keptRows lines) n direction name)

section Rows

variable (py : PythonText)

theorem mem_streamRows {block : Json} {media : Media} {index : ℤ} {row : MediaRow}
    (h : row ∈ streamRows py block media index) : row.media = media ∧ row.streamIndex = index := by
  obtain ⟨direction, -, hrow⟩ := List.mem_filterMap.mp h
  unfold directionRow at hrow
  split at hrow
  · obtain rfl := Option.some.inj hrow
    exact ⟨rfl, rfl⟩
  · cases hrow

theorem holds_int_iff (v : Json) : Holds (int v) v ↔ Fits v := by
  cases v with
  | int n =>
    have hrange : (decide (-intLimit ≤ n) && decide (n ≤ intLimit)) = decide (|n| ≤ intLimit) := by
      simp only [abs_le, Bool.decide_and]
    rw [Holds, Fits, int, pyInt, Option.filter_some, hrange]
    by_cases hfits : |n| ≤ intLimit
    · simp [hfits]
    · simp [hfits]
  | _ => exact iff_of_true rfl trivial

/-- A stream of the builder has both directions. -/
theorem sides_json (s : Stream) :
    sides s.json = [Direction.tx, .rx].map fun direction =>
      ⟨s.json, direction, figuresOf s direction⟩ := rfl

theorem length_streamRows_json (s : Stream) (media : Media) (index : ℤ) :
    (streamRows py (.obj s.json) media index).length = (sides s.json).length := rfl

/-- A stream comes out complete exactly when its number and its counters do. -/
theorem forall₂_streamRows_iff (s : Stream) (index : ℤ) :
    List.Forall₂ (RowOf py) (sides s.json) (streamRows py (.obj s.json) .video index) ↔
      index = s.streamIndex ∧
        ∀ direction, ∀ name ∈ counterNames, Fits (field (figuresOf s direction) name) := by
  have hside (direction : Direction) (stats : Dict) :
      RowOf py ⟨s.json, direction, stats⟩ ⟨.video, index, direction, int (field stats "packets"),
        int (field stats "errors"), int (field stats "packetReports"),
        float py (field stats "avgBitrateKbps"), int (field stats "lostPackets"),
        float py (field stats "jitterMs")⟩ ↔
      index = s.streamIndex ∧ ∀ name ∈ counterNames, Fits (field stats name) := by
    simp only [counterNames, List.forall_mem_cons, ← holds_int_iff]
    constructor
    · intro h
      exact ⟨h.streamIndex, h.packets, h.errors, h.packetReports, h.lostPackets, by simp⟩
    · rintro ⟨hindex, hpackets, herrors, hreports, hlost, -⟩
      exact ⟨rfl, hindex, rfl, hpackets, herrors, hreports, hlost, rfl, rfl⟩
  have hrows : streamRows py (.obj s.json) .video index = [Direction.tx, .rx].map fun direction =>
      ⟨.video, index, direction, int (field (figuresOf s direction) "packets"),
        int (field (figuresOf s direction) "errors"),
        int (field (figuresOf s direction) "packetReports"),
        float py (field (figuresOf s direction) "avgBitrateKbps"),
        int (field (figuresOf s direction) "lostPackets"),
        float py (field (figuresOf s direction) "jitterMs")⟩ := rfl
  rw [sides_json, hrows, List.forall₂_map_left_iff, List.forall₂_map_right_iff,
    List.forall₂_cons, List.forall₂_cons, hside, hside]
  constructor
  · rintro ⟨⟨hindex, htx⟩, ⟨-, hrx⟩, -⟩
    refine ⟨hindex, fun direction => ?_⟩
    cases direction with
    | tx => exact htx
    | rx => exact hrx
  · rintro ⟨hindex, hfits⟩
    exact ⟨⟨hindex, hfits .tx⟩, ⟨hindex, hfits .rx⟩, .nil⟩

end Rows

section Pieces

variable {α β γ : Type} {R : β → γ → Prop}

theorem forall₂_append_iff {b b' : List β} {c c' : List γ} (hlen : b.length = c.length) :
    List.Forall₂ R (b ++ b') (c ++ c') ↔ List.Forall₂ R b c ∧ List.Forall₂ R b' c' := by
  refine ⟨fun h => ?_, fun h => List.rel_append h.1 h.2⟩
  have htake := List.forall₂_take b.length h
  have hdrop := List.forall₂_drop b.length h
  rw [List.take_left, hlen, List.take_left] at htake
  rw [List.drop_left, hlen, List.drop_left] at hdrop
  exact ⟨htake, hdrop⟩

/-- Lists of pieces of the same lengths are related piece by piece. -/
theorem forall₂_flatMap_iff {f : α → List β} {g : α → List γ} {l : List α}
    (hlen : ∀ x ∈ l, (f x).length = (g x).length) :
    List.Forall₂ R (l.flatMap f) (l.flatMap g) ↔ ∀ x ∈ l, List.Forall₂ R (f x) (g x) := by
  induction l with
  | nil => simp
  | cons x l ih =>
    have hx := hlen x List.mem_cons_self
    have ihl := ih fun y hy => hlen y (List.mem_cons_of_mem x hy)
    rw [List.flatMap_cons, List.flatMap_cons, forall₂_append_iff hx, List.forall_mem_cons, ihl]

/-- The two series of a list compare every element with that two places after it. -/
theorem everyOther_pairs (R : α → α → Bool) (xs : List α) :
    ((everyOther xs).zip (everyOther xs).tail).all (fun p => R p.1 p.2) = true ∧
      ((everyOther xs.tail).zip (everyOther xs.tail).tail).all (fun p => R p.1 p.2) = true ↔
    ∀ i a b, xs[i]? = some a → xs[i + 2]? = some b → R a b = true := by
  induction xs with
  | nil => simp [everyOther]
  | cons x xs ih =>
    have hcons : everyOther (x :: xs) = x :: everyOther xs.tail := by
      cases xs with
      | nil => rfl
      | cons y ys => rfl
    have hhead : (everyOther xs.tail).head? = xs[1]? := by
      cases xs with
      | nil => rfl
      | cons y ys =>
        cases ys with
        | nil => rfl
        | cons z zs => cases zs <;> rfl
    have hzip : ((x :: everyOther xs.tail).zip (everyOther xs.tail)).all
        (fun p => R p.1 p.2) = true ↔ (∀ b, xs[1]? = some b → R x b = true) ∧
        ((everyOther xs.tail).zip (everyOther xs.tail).tail).all (fun p => R p.1 p.2) = true := by
      rw [← hhead]
      cases everyOther xs.tail with
      | nil => simp
      | cons e es => simp
    rw [hcons, List.tail_cons, List.tail_cons, hzip, and_assoc]
    constructor
    · rintro ⟨hfirst, hrest, hall⟩ i a b ha hb
      cases i with
      | zero =>
        obtain rfl := Option.some.inj ha
        exact hfirst b hb
      | succ i => exact ih.mp ⟨hall, hrest⟩ i a b ha hb
    · intro h
      have hall := ih.mpr fun i a b ha hb => h (i + 1) a b ha hb
      exact ⟨fun b hb => h 0 x b rfl hb, hall.2, hall.1⟩

theorem flatMap_zipIdx_fst (l : List α) (f : α → List β) :
    (l.zipIdx.flatMap fun e => f e.1) = l.flatMap f := by
  conv_rhs => rw [← List.zipIdx_map_fst 0 l, List.flatMap_map]

end Pieces

/-- A counter of a stream as the Manager compares it. -/
def count (stream : Dict) (direction : Direction) (name : String) : ℤ :=
  (int (field (obj (field stream direction.text)) name)).getD 0

/-- An even number of entries, four at least, of which none is below the one two places before. -/
theorem looksCumulative_iff (video : List Dict) : looksCumulative video = true ↔
    (4 ≤ video.length ∧ video.length % 2 = 0) ∧
      ∀ i a b, video[i]? = some a → video[i + 2]? = some b → ∀ direction,
        ∀ name ∈ ["packets", "packetReports"], count a direction name ≤ count b direction name := by
  have hseries (l : List Dict) : neverDecreases (l.map counters) =
      (l.zip l.tail).all fun p => ((counters p.1).zip (counters p.2)).all
        fun c => decide (c.1 ≤ c.2) := by
    rw [neverDecreases, ← List.map_tail, List.zip_map, List.all_map]
    rfl
  have hpair (a b : Dict) : (((counters a).zip (counters b)).all fun c => decide (c.1 ≤ c.2)) =
      true ↔ ∀ direction, ∀ name ∈ ["packets", "packetReports"],
        count a direction name ≤ count b direction name := by
    have hcounters (d : Dict) : counters d = [count d .rx "packets", count d .rx "packetReports",
        count d .tx "packets", count d .tx "packetReports"] := rfl
    rw [hcounters, hcounters]
    simp only [List.zip_cons_cons, List.zip_nil_right, List.all_cons, List.all_nil, Bool.and_true,
      Bool.and_eq_true, decide_eq_true_eq, List.forall_mem_cons]
    constructor
    · rintro ⟨hrx, hrxReports, htx, htxReports⟩ direction
      cases direction with
      | tx => exact ⟨htx, htxReports, by simp⟩
      | rx => exact ⟨hrx, hrxReports, by simp⟩
    · intro h
      exact ⟨(h .rx).1, (h .rx).2.1, (h .tx).1, (h .tx).2.1⟩
  rw [looksCumulative, hseries, hseries]
  simp only [Bool.and_eq_true, decide_eq_true_eq, and_assoc]
  refine and_congr_right fun _ => and_congr_right fun _ => ?_
  rw [everyOther_pairs fun a b => ((counters a).zip (counters b)).all fun c => decide (c.1 ≤ c.2)]
  simp only [hpair]

section Lists

variable {py : PythonText} {b : Building}

theorem objectsOf_streams (streams : List Stream) :
    objectsOf (.arr (streams.map fun s => .obj s.json)) = .ok (streams.map Stream.json) := by
  cases streams with
  | nil => rfl
  | cons s streams =>
    rw [objectsOf, if_neg (by simp [truthy])]
    simp [List.filterMap_map]

theorem payloadStreams_eq {payload : Dict}
    (hstats : field payload "mediaStats" = .obj b.mediaStats) :
    payloadStreams payload = b.streams.map Stream.json := by
  have hvideo : field (obj (field payload "mediaStats")) "video" =
      .arr (b.streams.map fun s => .obj s.json) := by
    rw [hstats]
    rfl
  rw [payloadStreams, hvideo]
  simp [List.filterMap_map]

/-- The number under which the Manager stores a stream that it keeps. -/
def storedIndex (e : Stream × ℕ) : ℤ := (int (.int e.1.streamIndex)).getD e.2

theorem storedIndex_eq_iff (e : Stream × ℕ) :
    storedIndex e = e.1.streamIndex ↔ |e.1.streamIndex| ≤ intLimit ∨ e.1.streamIndex = e.2 := by
  have hrange : (decide (-intLimit ≤ e.1.streamIndex) && decide (e.1.streamIndex ≤ intLimit)) =
      decide (|e.1.streamIndex| ≤ intLimit) := by
    simp only [abs_le, Bool.decide_and]
  rw [storedIndex, int, pyInt, Option.filter_some, hrange]
  by_cases hfits : |e.1.streamIndex| ≤ intLimit
  · simp [hfits]
  · simp [hfits, eq_comm]

/-- The guess of the Manager on the statistics of the builder. -/
theorem isRepeated_mediaStats (b : Building) :
    isRepeated b.mediaStats = .ok (decide (4 ≤ b.streams.length) &&
      ((!b.mediaSamples.isEmpty && decide (2 * b.mediaSamples.length ≤ b.streams.length)) ||
        looksCumulative (b.streams.map Stream.json))) := by
  have hvideo : field b.mediaStats "video" = .arr (b.streams.map fun s => .obj s.json) := rfl
  have hsamples : field b.mediaStats "samples" = .arr b.mediaSamples := rfl
  simp only [isRepeated, hvideo, hsamples, objectsOf_streams]
  change (if (b.streams.map Stream.json).length < 4 then _ else _) = _
  rw [List.length_map]
  split
  · next hfew => rw [decide_eq_false (Nat.not_le.mpr hfew), Bool.false_and]
  · next hmany => rw [decide_eq_true (Nat.not_lt.mp hmany), Bool.true_and]

/-- The video rows of an entry list come after those of the audio. -/
theorem filter_video (audio : Json) (entries : List (ℤ × Dict)) :
    (streamRows py audio .audio 0 ++ entries.flatMap fun e =>
      streamRows py (.obj e.2) .video e.1).filter (fun row => decide (row.media = .video)) =
    entries.flatMap fun e => streamRows py (.obj e.2) .video e.1 := by
  have haudio : (streamRows py audio .audio 0).filter (fun row => decide (row.media = .video)) =
      [] := by
    refine List.filter_eq_nil_iff.mpr fun row hrow => ?_
    rw [(mem_streamRows py hrow).1]
    decide
  rw [List.filter_append, haudio, List.nil_append, List.filter_eq_self]
  intro row hrow
  obtain ⟨e, -, hrow⟩ := List.mem_flatMap.mp hrow
  exact decide_eq_true (mem_streamRows py hrow).1

theorem mediaRows_mediaStats {entries : List (ℤ × Dict)}
    (h : videoEntries b.mediaStats = .ok entries) :
    mediaRows py (.obj b.mediaStats) =
      .ok (streamRows py (field b.mediaStats "audio") .audio 0 ++
        entries.flatMap fun e => streamRows py (.obj e.2) .video e.1) := by
  rw [mediaRows, show obj (.obj b.mediaStats) = b.mediaStats from rfl, h]
  rfl

/-- The rows are those of the streams exactly when those of the entries are. -/
theorem noStreamLost_iff {payload : Dict} {entries : List (ℤ × Dict)}
    (hstats : field payload "mediaStats" = .obj b.mediaStats)
    (hentries : videoEntries b.mediaStats = .ok entries) :
    NoStreamLost py payload ↔
      List.Forall₂ (RowOf py) (b.streams.flatMap fun s => sides s.json)
        (entries.flatMap fun e => streamRows py (.obj e.2) .video e.1) := by
  rw [NoStreamLost, payloadStreams_eq hstats, List.flatMap_map, hstats,
    mediaRows_mediaStats hentries]
  constructor
  · rintro ⟨rows, hrows, heq⟩
    obtain rfl := Except.ok.inj hrows
    rwa [filter_video] at heq
  · intro heq
    exact ⟨_, rfl, by rwa [filter_video]⟩

theorem videoEntries_kept (h : isRepeated b.mediaStats = .ok false) :
    videoEntries b.mediaStats = .ok (b.streams.zipIdx.map fun e => (storedIndex e, e.1.json)) := by
  have hvideo : field b.mediaStats "video" = .arr (b.streams.map fun s => .obj s.json) := rfl
  simp only [videoEntries, hvideo, objectsOf_streams, h]
  change Except.ok _ = _
  rw [List.zipIdx_map, List.map_map]
  rfl

theorem videoEntries_dropped (h : isRepeated b.mediaStats = .ok true) :
    videoEntries b.mediaStats = .ok (((b.streams.map Stream.json).drop
      ((b.streams.map Stream.json).length - 2)).zipIdx.map fun e => ((e.2 : ℤ), e.1)) := by
  have hvideo : field b.mediaStats "video" = .arr (b.streams.map fun s => .obj s.json) := rfl
  simp only [videoEntries, hvideo, objectsOf_streams, h]
  rfl

/-- Kept streams come out complete exactly when a column can hold their numbers and counters. -/
theorem noStreamLost_kept_iff {payload : Dict}
    (hstats : field payload "mediaStats" = .obj b.mediaStats)
    (h : isRepeated b.mediaStats = .ok false) :
    NoStreamLost py payload ↔ ∀ e ∈ b.streams.zipIdx,
      (|e.1.streamIndex| ≤ intLimit ∨ e.1.streamIndex = e.2) ∧
        ∀ direction, ∀ name ∈ counterNames, Fits (field (figuresOf e.1 direction) name) := by
  rw [noStreamLost_iff hstats (videoEntries_kept h), List.flatMap_map,
    ← flatMap_zipIdx_fst b.streams]
  refine (forall₂_flatMap_iff fun e _ => ?_).trans (forall₂_congr fun e _ => ?_)
  · exact (length_streamRows_json py e.1 .video _).symm
  · rw [forall₂_streamRows_iff, storedIndex_eq_iff]

/-- Two of the streams remain, of four at least. -/
theorem not_noStreamLost_dropped {payload : Dict}
    (hstats : field payload "mediaStats" = .obj b.mediaStats)
    (h : isRepeated b.mediaStats = .ok true) (hmany : 4 ≤ b.streams.length) :
    ¬ NoStreamLost py payload := by
  rw [noStreamLost_iff hstats (videoEntries_dropped h)]
  intro hrows
  have hlen := hrows.length_eq
  rw [← List.map_drop, List.zipIdx_map, List.map_map, List.flatMap_map, List.length_flatMap,
    List.length_flatMap] at hlen
  simp [length_streamRows_json, sides_json] at hlen
  omega

end Lists

section History

variable {b : Building} {lines : List HistoryLine}

/-- A stream of the builder, by its place: the figures are those under the number of the table. -/
structure FromTable (b : Building) (rows : List Dict) (i : ℕ) (s : Stream) (n : ℤ) : Prop where
  number : (numbers rows)[i]? = some n
  index : s.streamIndex = if b.mediaSamples.isEmpty then n else i
  figures : ∀ direction name, field (figuresOf s direction) name = figure rows n direction name

theorem streams_eq (h : readLines Building.start lines = .ok b) : b.streams =
    if b.mediaSamples.isEmpty then inOrder ((keptRows lines).foldl write [])
    else (inOrder ((keptRows lines).foldl write [])).zipIdx.map
      fun e => { e.1 with streamIndex := e.2 } := by
  rw [← videoStreams_eq h]
  rfl

theorem length_streams (h : readLines Building.start lines = .ok b) :
    b.streams.length = (numbers (keptRows lines)).length := by
  rw [← map_streamIndex_inOrder, List.length_map, streams_eq h]
  split
  · rfl
  · rw [List.length_map, List.length_zipIdx]

/-- The streams are those of the tables, place by place. -/
theorem fromTable_of_getElem? (h : readLines Building.start lines = .ok b) {i : ℕ} {s : Stream}
    (hs : b.streams[i]? = some s) : ∃ n, FromTable b (keptRows lines) i s n := by
  have hnumber {s : Stream} (hs : (inOrder ((keptRows lines).foldl write []))[i]? = some s) :
      (numbers (keptRows lines))[i]? = some s.streamIndex := by
    rw [← map_streamIndex_inOrder, List.getElem?_map, hs]
    rfl
  rw [streams_eq h] at hs
  split at hs
  · next hnone =>
    refine ⟨s.streamIndex, hnumber hs, by rw [if_pos hnone], fun direction name => ?_⟩
    exact field_figures _ (List.mem_of_getElem? hs) direction name
  · next hsome =>
    rw [List.getElem?_map, List.getElem?_zipIdx, Nat.zero_add] at hs
    obtain ⟨e, he, rfl⟩ := Option.map_eq_some_iff.mp hs
    obtain ⟨old, hold, rfl⟩ := Option.map_eq_some_iff.mp he
    refine ⟨old.streamIndex, hnumber hold, by rw [if_neg hsome], fun direction name => ?_⟩
    have hfigures := field_figures _ (List.mem_of_getElem? hold) direction name
    cases direction with
    | tx => exact hfigures
    | rx => exact hfigures

theorem FromTable.count {rows : List Dict} {i : ℕ} {s : Stream} {n : ℤ}
    (h : FromTable b rows i s n) (direction : Direction) (name : String) :
    count s.json direction name = counter rows n direction name := by
  rw [counter, ← h.figures direction name]
  cases direction with
  | tx => rfl
  | rx => rfl

theorem exists_stream (h : readLines Building.start lines = .ok b) {i : ℕ} {n : ℤ}
    (hn : (numbers (keptRows lines))[i]? = some n) :
    ∃ s, b.streams[i]? = some s ∧ FromTable b (keptRows lines) i s n := by
  have hlt : i < b.streams.length := by
    rw [length_streams h]
    exact (List.getElem?_eq_some_iff.mp hn).1
  obtain ⟨m, hm⟩ := fromTable_of_getElem? h (List.getElem?_eq_getElem hlt)
  obtain rfl := Option.some.inj (hn.symm.trans hm.number)
  exact ⟨_, List.getElem?_eq_getElem hlt, hm⟩

/-- The streams look cumulative exactly when no counter of the tables restarts. -/
theorem looksCumulative_streams_iff (h : readLines Building.start lines = .ok b) :
    looksCumulative (b.streams.map Stream.json) = true ↔
      (4 ≤ (numbers (keptRows lines)).length ∧ (numbers (keptRows lines)).length % 2 = 0) ∧
        ¬ Restarts (keptRows lines) := by
  rw [looksCumulative_iff, List.length_map, length_streams h]
  refine and_congr_right fun _ => ?_
  constructor
  · rintro hpairs ⟨i, m, n, hm, hn, direction, name, hname, hlt⟩
    obtain ⟨s, hs, hfirst⟩ := exists_stream h hm
    obtain ⟨s', hs', hsecond⟩ := exists_stream h hn
    have hle := hpairs i s.json s'.json (by rw [List.getElem?_map, hs]; rfl)
      (by rw [List.getElem?_map, hs']; rfl) direction name hname
    rw [hfirst.count, hsecond.count] at hle
    omega
  · intro hnone i a a' ha ha' direction name hname
    rw [List.getElem?_map] at ha ha'
    obtain ⟨s, hs, rfl⟩ := Option.map_eq_some_iff.mp ha
    obtain ⟨s', hs', rfl⟩ := Option.map_eq_some_iff.mp ha'
    obtain ⟨m, hm⟩ := fromTable_of_getElem? h hs
    obtain ⟨n, hn⟩ := fromTable_of_getElem? h hs'
    rw [hm.count, hn.count]
    by_contra hlt
    exact hnone ⟨i, m, n, hm.number, hn.number, direction, name, hname, not_le.mp hlt⟩

/-- What a column can hold is told of the streams as of the tables. -/
theorem storable_iff (h : readLines Building.start lines = .ok b)
    (hsamples : b.mediaSamples.isEmpty = decide (lines.countP isReading = 0)) :
    (∀ e ∈ b.streams.zipIdx, (|e.1.streamIndex| ≤ intLimit ∨ e.1.streamIndex = e.2) ∧
      ∀ direction, ∀ name ∈ counterNames, Fits (field (figuresOf e.1 direction) name)) ↔
    (lines.countP isReading = 0 →
      ∀ e ∈ (numbers (keptRows lines)).zipIdx, |e.1| ≤ intLimit ∨ e.1 = e.2) ∧
    ∀ n ∈ numbers (keptRows lines), ∀ direction, ∀ name ∈ counterNames,
      Fits (figure (keptRows lines) n direction name) := by
  constructor
  · intro hall
    refine ⟨fun hnone e he => ?_, fun n hn direction name hname => ?_⟩
    · obtain ⟨s, hs, hfrom⟩ := exists_stream h (List.mem_zipIdx_iff_getElem?.mp he)
      have hindex := hfrom.index
      rw [hsamples, decide_eq_true hnone, if_pos rfl] at hindex
      have hfits := (hall (s, e.2) (List.mk_mem_zipIdx_iff_getElem?.mpr hs)).1
      rwa [hindex] at hfits
    · obtain ⟨i, hi⟩ := List.mem_iff_getElem?.mp hn
      obtain ⟨s, hs, hfrom⟩ := exists_stream h hi
      rw [← hfrom.figures]
      exact (hall (s, i) (List.mk_mem_zipIdx_iff_getElem?.mpr hs)).2 direction name hname
  · rintro ⟨hnumbers, hcounters⟩ e he
    obtain ⟨n, hfrom⟩ := fromTable_of_getElem? h (List.mem_zipIdx_iff_getElem?.mp he)
    refine ⟨?_, fun direction name hname => ?_⟩
    · rw [hfrom.index, hsamples]
      by_cases hnone : lines.countP isReading = 0
      · rw [decide_eq_true hnone, if_pos rfl]
        exact hnumbers hnone (n, e.2) (List.mk_mem_zipIdx_iff_getElem?.mpr hfrom.number)
      · rw [decide_eq_false hnone, if_neg Bool.false_ne_true]
        exact .inr rfl
    · rw [hfrom.figures]
      exact hcounters n (List.mem_of_getElem? hfrom.number) direction name hname

/-- The statistics of a payload are those of what was read. -/
theorem buildPayload_stats {env : Environment} {payload : Dict}
    (h : buildPayloadFromLines env lines = .ok payload) :
    ∃ b : Building, readLines Building.start lines = .ok b ∧
      field payload "mediaStats" = .obj b.mediaStats := by
  obtain ⟨b, hread, h⟩ := bind_eq_ok h
  obtain ⟨names, -, h⟩ := bind_eq_ok h
  obtain rfl := Except.ok.inj h
  exact ⟨b, hread, rfl⟩

/-- The statistics come back complete exactly when the history does not look like readings. -/
theorem noStreamLost_iff_told {env : Environment} {payload : Dict}
    (h : buildPayloadFromLines env lines = .ok payload) :
    NoStreamLost env.py payload ↔ Told lines := by
  obtain ⟨b, hread, hstats⟩ := buildPayload_stats h
  have hcount : b.mediaSamples.length = lines.countP isReading :=
    (readLines_samples hread).trans (Nat.zero_add _)
  have hsamples : b.mediaSamples.isEmpty = decide (lines.countP isReading = 0) := by
    rw [← hcount]
    cases b.mediaSamples with
    | nil => rfl
    | cons sample samples => exact (decide_eq_false (Nat.succ_ne_zero _)).symm
  have hlength := length_streams hread
  have hcumulative := looksCumulative_streams_iff hread
  have hrepeated := isRepeated_mediaStats b
  rw [hlength, hcount, hsamples] at hrepeated
  by_cases hapart : (numbers (keptRows lines)).length < 4 ∨
      (lines.countP isReading = 0 ∨
        (numbers (keptRows lines)).length < 2 * lines.countP isReading) ∧
      ((numbers (keptRows lines)).length % 2 = 1 ∨ Restarts (keptRows lines))
  · have hkept : isRepeated b.mediaStats = .ok false := by
      rw [hrepeated]
      grind
    rw [noStreamLost_kept_iff hstats hkept, storable_iff hread hsamples]
    exact ⟨fun hboth => ⟨hapart, hboth.1, hboth.2⟩, fun htold => ⟨htold.storable, htold.counters⟩⟩
  · have hdropped : isRepeated b.mediaStats = .ok true := by
      rw [hrepeated]
      grind
    refine iff_of_false (not_noStreamLost_dropped hstats hdropped ?_) fun htold =>
      hapart htold.apart
    omega

end History

/-- A URL without escapes. -/
def plainUrls : Environment where
  py := oneDate
  unquote := String.ofList
  bracketedHost _ := true
  composedHost _ := true
  gatewayVersions := []

def reading : HistoryLine :=
  .record "media_sample" (.obj [("seconds", .int 5), ("video", .obj [])])

/-- One figure of the video table of a number. -/
def table (n : ℤ) : HistoryLine :=
  .record "stats_value" (.obj [("media", .str "video"), ("streamIndex", .int n),
    ("field", .str "packets"), ("tx", .int (70 - n)), ("rx", .int (90 - n))])

/-- The stream of that table. -/
def tableStream (n : ℤ) : Stream where
  streamIndex := n
  tx := [("packets", .int (70 - n))]
  rx := [("packets", .int (90 - n))]

/-- What the builder has read of one reading and the tables of some numbers. -/
def afterReading (numbers : List ℤ) : Building :=
  { Building.start with
    media := ⟨[], [], numbers.map fun n => (n, tableStream n)⟩
    mediaSamples := [.obj [("seconds", .int 5), ("video", .obj [])]] }

theorem two_tables_survive :
    NoStreamLost oneDate ((afterReading [2, 3]).call plainUrls "" "") := by
  have hbuilt : buildPayloadFromLines plainUrls [reading, table 2, table 3] =
      .ok ((afterReading [2, 3]).call plainUrls "" "") := rfl
  refine (noStreamLost_iff_told hbuilt).mpr ⟨Or.inl (by decide), fun h => absurd h (by decide), ?_⟩
  intro n hn direction
  cases direction with
  | tx => revert n; decide
  | rx => revert n; decide

/-- One reading and four tables that differ in every figure leave two streams. -/
theorem four_tables_lost : ¬ ∀ (env : Environment) (lines : List HistoryLine) (payload : Dict),
    buildPayloadFromLines env lines = .ok payload → NoStreamLost env.py payload := by
  intro h
  have hbuilt : buildPayloadFromLines plainUrls [reading, table 2, table 3, table 4, table 5] =
      .ok ((afterReading [2, 3, 4, 5]).call plainUrls "" "") := rfl
  have hlen : (afterReading [2, 3, 4, 5]).streams.length = 4 := by
    simp [Building.streams, afterReading]
  refine not_noStreamLost_dropped (b := afterReading [2, 3, 4, 5]) rfl ?_ (by omega)
    (h _ _ _ hbuilt)
  rw [isRepeated_mediaStats, hlen]
  rfl

end StreamRepeats
