import SIPMediaGW.IngestReplay
import SIPMediaGW.StreamRepeats

/-! # The keys of the media rows

The number of a stream comes from the payload, or from its position where the payload gives
none. The two do not know of each other. -/
namespace MediaKeys

open CallsTable
open IngestMapping
open IngestReplay
open PartialUniqueIndex
open PythonJson
open StreamRepeats

def keyOf (row : MediaRow) : Media × ℤ × Direction := (row.media, row.streamIndex, row.direction)

/-- The streams of a video list, or the only one of an object. -/
def videoStreams : Json → List Dict
  | .obj d => [d]
  | .arr xs => xs.filterMap fun
    | .obj d => some d
    | _ => none
  | _ => []

/-- The number a stream carries, where it reads as an integer. -/
def carried (stream : Dict) : Option ℤ := int (field stream "streamIndex")

/-- Whether a stream has figures for a direction. -/
def Reports (stream : Dict) (d : Direction) : Prop :=
  ∃ stats, field stream d.text = .obj stats

/-- Two streams at their positions: they do not carry one number, and neither carries the
position of the other where that one carries none. -/
def NumbersApart (e f : Dict × ℕ) : Prop :=
  match carried e.1, carried f.1 with
  | some m, some n => m ≠ n
  | some m, none => m ≠ f.2
  | none, some n => n ≠ e.2
  | none, none => True

/-- Streams whose numbers are not apart report in different directions. -/
def Apart (streams : List Dict) : Prop :=
  streams.zipIdx.Pairwise fun e f => ∀ d, Reports e.1 d → Reports f.1 d → NumbersApart e f

/-- The rows have different keys, and the answer counts the rows that are stored. -/
structure KeysDistinct (py : PythonText) (mediaStats : Json) : Prop where
  distinct : ∀ rows, mediaRows py mediaStats = .ok rows →
    rows.Pairwise fun a b => keyOf a ≠ keyOf b
  counted : ∀ whitelist (ps : List (Push py)) receivedAt call payload t callPk n,
    callOf payload = .ok call → field call "mediaStats" = mediaStats →
    ingestCall py whitelist (ingestAll py whitelist ps) receivedAt payload =
      (t, .stored callPk n) →
    t.media.rows.countP (fun m => decide (m.callPk = callPk)) = n

section Rows

variable {py : PythonText} {media : Media} {index : ℤ} {stream : Dict} {row : MediaRow}

theorem directionRow_isSome_iff {d : Direction} :
    (directionRow py (.obj stream) media index d).isSome = true ↔ Reports stream d := by
  unfold directionRow
  split
  · next stats hstats => exact iff_of_true rfl ⟨stats, hstats⟩
  · next hother =>
    refine iff_of_false (by simp) ?_
    rintro ⟨stats, hstats⟩
    exact hother stats hstats

theorem keyOf_directionRow {block : Json} {d : Direction}
    (h : directionRow py block media index d = some row) : keyOf row = (media, index, d) := by
  unfold directionRow at h
  split at h
  · obtain rfl := Option.some.inj h
    rfl
  · cases h

/-- A stream has a row of a key exactly for the directions it reports. -/
theorem exists_row_iff {d : Direction} :
    (∃ row ∈ streamRows py (.obj stream) media index, keyOf row = (media, index, d)) ↔
      Reports stream d := by
  rw [← @directionRow_isSome_iff py media index]
  constructor
  · rintro ⟨row, hrow, hkey⟩
    obtain ⟨e, -, he⟩ := List.mem_filterMap.mp hrow
    obtain rfl : e = d := by
      rw [keyOf_directionRow he] at hkey
      simpa using hkey
    rw [he]
    rfl
  · intro hd
    obtain ⟨row, hrow⟩ := Option.isSome_iff_exists.mp hd
    refine ⟨row, List.mem_filterMap.mpr ⟨d, ?_, hrow⟩, keyOf_directionRow hrow⟩
    cases d <;> simp

/-- The rows of one stream differ in their direction. -/
theorem pairwise_streamRows (block : Json) :
    (streamRows py block media index).Pairwise fun a b => keyOf a ≠ keyOf b := by
  unfold streamRows
  have hdirections : [Direction.tx, .rx].Pairwise fun d e => d ≠ e := by simp
  refine List.pairwise_filterMap.mpr (hdirections.imp fun {d e} hne a ha b hb hkey => ?_)
  rw [keyOf_directionRow ha, keyOf_directionRow hb] at hkey
  exact hne (Prod.mk.inj (Prod.mk.inj hkey).2).2

/-- Streams of one medium share a key exactly when they share number and direction. -/
theorem rows_disjoint_iff {e f : ℤ × Dict} :
    (∀ a ∈ streamRows py (.obj e.2) media e.1, ∀ b ∈ streamRows py (.obj f.2) media f.1,
      keyOf a ≠ keyOf b) ↔ ∀ d, Reports e.2 d → Reports f.2 d → e.1 ≠ f.1 := by
  constructor
  · intro h d he hf hnumber
    obtain ⟨a, ha, hkey⟩ := (@exists_row_iff py media e.1 _ _).mpr he
    obtain ⟨b, hb, hkey'⟩ := (@exists_row_iff py media f.1 _ _).mpr hf
    exact h a ha b hb (by rw [hkey, hkey', hnumber])
  · intro h a ha b hb hkey
    obtain ⟨d, -, hd⟩ := List.mem_filterMap.mp ha
    obtain ⟨d', -, hd'⟩ := List.mem_filterMap.mp hb
    rw [keyOf_directionRow hd, keyOf_directionRow hd'] at hkey
    obtain ⟨hnumber, rfl⟩ := Prod.mk.inj (Prod.mk.inj hkey).2
    refine h d ?_ ?_ hnumber
    · exact directionRow_isSome_iff.mp (Option.isSome_iff_exists.mpr ⟨a, hd⟩)
    · exact directionRow_isSome_iff.mp (Option.isSome_iff_exists.mpr ⟨b, hd'⟩)

/-- Audio and video rows never share a key; those of the video do as their streams do. -/
theorem pairwise_rows_iff (audio : Json) (entries : List (ℤ × Dict)) :
    ((streamRows py audio .audio 0 ++ entries.flatMap fun e =>
      streamRows py (.obj e.2) .video e.1).Pairwise fun a b => keyOf a ≠ keyOf b) ↔
      entries.Pairwise fun e f => ∀ d, Reports e.2 d → Reports f.2 d → e.1 ≠ f.1 := by
  have haudio : ∀ a ∈ streamRows py audio .audio 0,
      ∀ b ∈ entries.flatMap fun e => streamRows py (.obj e.2) .video e.1, keyOf a ≠ keyOf b := by
    intro a ha b hb hkey
    obtain ⟨e, -, hb⟩ := List.mem_flatMap.mp hb
    have hmedia := (Prod.mk.inj hkey).1
    rw [(mem_streamRows py ha).1, (mem_streamRows py hb).1] at hmedia
    cases hmedia
  rw [List.pairwise_append, List.pairwise_flatMap]
  constructor
  · rintro ⟨-, ⟨-, h⟩, -⟩
    exact h.imp rows_disjoint_iff.mp
  · intro h
    exact ⟨pairwise_streamRows audio, ⟨fun e _ => pairwise_streamRows _,
      h.imp rows_disjoint_iff.mpr⟩, haudio⟩

end Rows

section Entries

variable {stats : Dict}

/-- A single stream stands for the list of it. -/
def asList : Json → Json
  | .obj d => .arr [.obj d]
  | v => v

theorem objectsOf_of_falsy {v : Json} (h : truthy v = false) : objectsOf v = .ok [] := by
  unfold objectsOf
  rw [h]
  rfl

theorem objectsOf_of_truthy {v : Json} (h : truthy v = true) (hscalar : ∀ xs, v ≠ .arr xs)
    (hstr : ∀ s, v ≠ .str s) (hobj : ∀ d, v ≠ .obj d) : ∃ e, objectsOf v = .error e := by
  unfold objectsOf
  rw [h]
  cases v with
  | arr xs => exact absurd rfl (hscalar xs)
  | str s => exact absurd rfl (hstr s)
  | obj d => exact absurd rfl (hobj d)
  | null | bool | int | float => exact ⟨_, rfl⟩

/-- The streams a payload gives, unless the video cannot be iterated. -/
theorem objectsOf_video (v : Json) :
    objectsOf (asList v) = .ok (videoStreams v) ∨
    (∃ e, objectsOf v = .error e) ∧ (∀ d, v ≠ .obj d) ∧ videoStreams v = [] := by
  cases v with
  | obj d => exact .inl rfl
  | arr xs => cases xs <;> exact .inl rfl
  | str s =>
    cases ht : truthy (.str s) with
    | false => exact .inl (objectsOf_of_falsy ht)
    | true =>
      refine .inl ?_
      unfold objectsOf asList
      rw [ht]
      rfl
  | null | bool | int | float =>
    exact (Bool.eq_false_or_eq_true _).elim
      (fun ht => .inr ⟨objectsOf_of_truthy ht nofun nofun nofun, nofun, rfl⟩)
      (fun ht => .inl (objectsOf_of_falsy ht))

theorem asList_of_not_obj {v : Json} (h : ∀ d, v ≠ .obj d) : asList v = v := by
  unfold asList
  split
  · next d => exact absurd rfl (h d)
  · rfl

theorem isRepeated_of_ok {streams : List Dict}
    (h : objectsOf (asList (field stats "video")) = .ok streams) :
    ∃ b, isRepeated stats = .ok b := by
  unfold isRepeated
  split
  · exact ⟨false, rfl⟩
  · next hobj =>
    rw [asList_of_not_obj hobj] at h
    rw [h]
    dsimp only [bind, Except.bind]
    split
    · split
      · exact ⟨false, rfl⟩
      · exact ⟨_, rfl⟩
    · exact ⟨false, rfl⟩

/-- The entries of a payload: none at all, some renumbered, or all under the number they
carry or have. -/
theorem videoEntries_cases (stats : Dict) :
    (∃ e, videoEntries stats = .error e ∧ videoStreams (field stats "video") = []) ∨
    (isRepeated stats = .ok true ∧ ∃ streams : List Dict,
      videoEntries stats = .ok (streams.zipIdx.map fun e => ((e.2 : ℤ), e.1))) ∨
    (isRepeated stats = .ok false ∧
      videoEntries stats = .ok ((videoStreams (field stats "video")).zipIdx.map fun e =>
        ((carried e.1).getD e.2, e.1))) := by
  rcases objectsOf_video (field stats "video") with hstreams | ⟨⟨e, he⟩, hobj, hnone⟩
  · obtain ⟨b, hb⟩ := isRepeated_of_ok hstreams
    refine .inr ?_
    have hentries : videoEntries stats = objectsOf (asList (field stats "video")) >>= _ := rfl
    rw [hentries, hstreams, hb]
    cases b with
    | true => exact .inl ⟨rfl, _, rfl⟩
    | false => exact .inr ⟨rfl, rfl⟩
  · refine .inl ⟨e, ?_, hnone⟩
    have hentries : videoEntries stats = objectsOf (asList (field stats "video")) >>= _ := rfl
    rw [hentries, asList_of_not_obj hobj, he]
    rfl

theorem pairwise_positions {α : Type} (l : List α) :
    l.zipIdx.Pairwise fun e f => e.2 ≠ f.2 := by
  have hrange : (l.zipIdx.map Prod.snd).Nodup := by
    rw [List.zipIdx_map_snd]
    exact List.nodup_range'
  exact List.pairwise_map.mp hrange

theorem numbersApart_iff {e f : Dict × ℕ} (h : e.2 ≠ f.2) :
    NumbersApart e f ↔ (carried e.1).getD e.2 ≠ (carried f.1).getD f.2 := by
  unfold NumbersApart
  cases carried e.1 with
  | some m => cases carried f.1 <;> simp
  | none =>
    cases carried f.1 with
    | some n => simpa using ne_comm
    | none => simpa using h

/-- Streams stored under the number they carry or have. -/
theorem pairwise_numbered_iff (streams : List Dict) :
    ((streams.zipIdx.map fun e => ((carried e.1).getD (e.2 : ℤ), e.1)).Pairwise fun e f =>
      ∀ d, Reports e.2 d → Reports f.2 d → e.1 ≠ f.1) ↔ Apart streams := by
  have hpositions := pairwise_positions streams
  rw [List.pairwise_map, Apart]
  constructor
  · intro h
    exact (hpositions.and h).imp fun hef d he hf =>
      (numbersApart_iff hef.1).mpr (hef.2 d he hf)
  · intro h
    exact (hpositions.and h).imp fun hef d he hf =>
      (numbersApart_iff hef.1).mp (hef.2 d he hf)

theorem pairwise_renumbered (streams : List Dict) :
    (streams.zipIdx.map fun e => ((e.2 : ℤ), e.1)).Pairwise fun e f =>
      ∀ d, Reports e.2 d → Reports f.2 d → e.1 ≠ f.1 := by
  rw [List.pairwise_map]
  exact (pairwise_positions streams).imp fun hef d _ _ heq => hef (Int.ofNat.inj heq)

end Entries

section Keys

variable {py : PythonText} {mediaStats : Json}

theorem mediaRows_eq_ok_iff {rows : List MediaRow} : mediaRows py mediaStats = .ok rows ↔
    ∃ entries, videoEntries (obj mediaStats) = .ok entries ∧
      rows = streamRows py (field (obj mediaStats) "audio") .audio 0 ++
        entries.flatMap fun e => streamRows py (.obj e.2) .video e.1 := by
  rw [mediaRows]
  constructor
  · intro h
    obtain ⟨entries, hentries, h⟩ := bind_eq_ok h
    exact ⟨entries, hentries, (Except.ok.inj h).symm⟩
  · rintro ⟨entries, hentries, rfl⟩
    rw [hentries]
    rfl

/-- The keys differ exactly where the payload is taken for repeats or its numbers are apart. -/
theorem distinct_iff : (∀ rows, mediaRows py mediaStats = .ok rows →
      rows.Pairwise fun a b => keyOf a ≠ keyOf b) ↔
    isRepeated (obj mediaStats) = .ok true ∨
      Apart (videoStreams (field (obj mediaStats) "video")) := by
  rcases videoEntries_cases (obj mediaStats) with ⟨e, he, hnone⟩ | ⟨hrep, streams, hs⟩ |
    ⟨hrep, hs⟩
  · rw [hnone]
    refine iff_of_true (fun rows hrows => ?_) (.inr .nil)
    obtain ⟨entries, hentries, -⟩ := mediaRows_eq_ok_iff.mp hrows
    rw [he] at hentries
    cases hentries
  · refine iff_of_true (fun rows hrows => ?_) (.inl hrep)
    obtain ⟨entries, hentries, rfl⟩ := mediaRows_eq_ok_iff.mp hrows
    obtain rfl := Except.ok.inj (hs.symm.trans hentries)
    exact (pairwise_rows_iff _ _).mpr (pairwise_renumbered streams)
  · have hkept : ¬ isRepeated (obj mediaStats) = .ok true := by simp [hrep]
    rw [or_iff_right hkept, ← pairwise_numbered_iff, ← @pairwise_rows_iff py]
    constructor
    · intro h
      exact h _ (mediaRows_eq_ok_iff.mpr ⟨_, hs, rfl⟩)
    · intro h rows hrows
      obtain ⟨entries, hentries, rfl⟩ := mediaRows_eq_ok_iff.mp hrows
      obtain rfl := Except.ok.inj (hs.symm.trans hentries)
      exact h

end Keys

section Stored

variable {py : PythonText} {whitelist : Whitelist} {ps : List (Push py)} {t : Tables}

theorem store_nextId (t : Tables) (p : Push py) :
    (ingestCall py whitelist t p.receivedAt p.payload).1.nextId = t.nextId + 1 := by
  rw [ingestCall_push, store]
  split <;> rfl

theorem mem_media_step {p : Push py} {m : StoredMedia}
    (h : m ∈ (ingestCall py whitelist t p.receivedAt p.payload).1.media.rows) :
    m ∈ t.media.rows ∨ m.callPk = t.nextId := by
  rw [ingestCall_push, store] at h
  split at h
  · exact .inl h
  · refine (mem_insertAll h).imp_right fun hnew => ?_
    obtain ⟨row, -, rfl⟩ := List.mem_map.mp hnew
    rfl

/-- Every media row belongs to a call numbered before. -/
theorem callPk_lt_nextId {m : StoredMedia} (h : m ∈ (ingestAll py whitelist ps).media.rows) :
    m.callPk < (ingestAll py whitelist ps).nextId := by
  induction ps using List.reverseRecOn with
  | nil => cases h
  | append_singleton ps p ih =>
    simp only [ingestAll, List.foldl_append, List.foldl_cons, List.foldl_nil] at ih h ⊢
    rw [store_nextId]
    rcases mem_media_step h with hold | hnew
    · exact Nat.lt_succ_of_lt (ih hold)
    · omega

/-- A stored push: its number is the next one, its media rows are inserted one by one. -/
theorem ingestCall_stored {receivedAt : ℤ} {payload : Json} {t' : Tables} {callPk n : ℕ}
    (h : ingestCall py whitelist t receivedAt payload = (t', .stored callPk n)) :
    ∃ call media, mapPush py payload = .ok (call, media) ∧ callPk = t.nextId ∧
      n = media.length ∧ t'.media = t.media.insertAll (mediaOf t.nextId media) := by
  rw [ingestCall] at h
  split at h
  · simp at h
  · next call media hmapped =>
    rw [store] at h
    by_cases hconflict : t.calls.conflicts (callsSetOutcome whitelist
        (newCall t.nextId receivedAt call payload)) = true
    · rw [if_pos hconflict] at h
      simp at h
    · rw [if_neg hconflict] at h
      simp only [Prod.mk.injEq, Answer.stored.injEq] at h
      obtain ⟨rfl, rfl, rfl⟩ := h
      exact ⟨call, media, hmapped, rfl, rfl, rfl⟩

theorem mapPush_media {payload : Json} {row : CallRow} {media : List MediaRow} {call : Dict}
    (h : mapPush py payload = .ok (row, media)) (hcall : callOf payload = .ok call) :
    mediaRows py (field call "mediaStats") = .ok media := by
  unfold mapPush at h
  dsimp only at h
  split at h
  · cases h
  · next rows hrows =>
    split at h
    · cases h
    · obtain rfl := Except.ok.inj h
      obtain ⟨row', -, hrest⟩ := bind_eq_ok hrows
      obtain ⟨object, hobject, hrest⟩ := bind_eq_ok hrest
      obtain ⟨media', hmedia, hrest⟩ := bind_eq_ok hrest
      obtain ⟨rfl, rfl⟩ := Prod.mk.inj (Except.ok.inj hrest)
      obtain rfl := Except.ok.inj (hcall.symm.trans hobject)
      exact hmedia

/-- Rows of different keys are all inserted under a new number, and only they have it. -/
theorem count_inserted {media : List MediaRow} (hold : ∀ m ∈ t.media.rows, m.callPk < t.nextId)
    (h : media.Pairwise fun a b => keyOf a ≠ keyOf b) :
    (t.media.insertAll (mediaOf t.nextId media)).rows.countP
      (fun m => decide (m.callPk = t.nextId)) = media.length := by
  have hrows : (t.media.insertAll (mediaOf t.nextId media)).rows =
      t.media.rows ++ mediaOf t.nextId media := by
    apply rows_insertAll_apart
    · intro b hb a ha index hindex
      have hlt := hold b hb
      obtain ⟨row, -, rfl⟩ := List.mem_map.mp ha
      obtain rfl := List.mem_singleton.mp hindex
      have hne : b.callPk ≠ t.nextId := by omega
      simp [clashes, hne]
    · refine List.pairwise_map.mpr (h.imp fun {a b} hne index hindex => ?_)
      obtain rfl := List.mem_singleton.mp hindex
      have hkeys : ¬ (a.media = b.media ∧ a.streamIndex = b.streamIndex ∧
          a.direction = b.direction) := by
        rintro ⟨hmedia, hindex, hdirection⟩
        exact hne (by rw [keyOf, hmedia, hindex, hdirection]; rfl)
      simpa [clashes] using hkeys
  have hbefore : t.media.rows.countP (fun m => decide (m.callPk = t.nextId)) = 0 := by
    rw [List.countP_eq_zero]
    intro m hm
    have hlt := hold m hm
    simp only [decide_eq_true_eq]
    omega
  have hnew : (mediaOf t.nextId media).countP (fun m => decide (m.callPk = t.nextId)) =
      media.length := by
    rw [mediaOf, List.countP_map, List.countP_eq_length]
    exact fun row _ => decide_eq_true rfl
  rw [hrows, List.countP_append, hbefore, hnew, Nat.zero_add]

end Stored

/-- The rows have different keys exactly where the video is taken for repeated readings, which
are renumbered, or the numbers that its streams carry are apart from each other and from the
positions of the streams without one. -/
theorem keysDistinct_iff (py : PythonText) (mediaStats : Json) :
    KeysDistinct py mediaStats ↔ isRepeated (obj mediaStats) = .ok true ∨
      Apart (videoStreams (field (obj mediaStats) "video")) := by
  rw [← @distinct_iff py]
  refine ⟨KeysDistinct.distinct, fun hdistinct => ⟨hdistinct, ?_⟩⟩
  intro whitelist ps receivedAt call payload t callPk n hcall hstats hstored
  obtain ⟨row, media, hmapped, rfl, rfl, hinserted⟩ := ingestCall_stored hstored
  have hmedia := mapPush_media hmapped hcall
  rw [hstats] at hmedia
  rw [hinserted]
  exact count_inserted (fun m hm => callPk_lt_nextId hm) (hdistinct media hmedia)

/-- A stream that carries the position of the next one. -/
def carriesNextPosition : Json :=
  .obj [("video", .arr [.obj [("streamIndex", .int 1), ("rx", .obj [])], .obj [("rx", .obj [])]])]

/-- Both streams are stored under the number 1: the second is dropped. -/
theorem keys_collide : ¬ ∀ (py : PythonText) (mediaStats : Json), KeysDistinct py mediaStats := by
  intro h
  have hpair := (h oneDate carriesNextPosition).distinct _ rfl
  revert hpair
  decide

end MediaKeys
