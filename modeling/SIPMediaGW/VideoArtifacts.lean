import SIPMediaGW.FieldMap
import SIPMediaGW.MediaKeys
import SIPMediaGW.SessionZones

/-! # The video statistics repeated

The step of the backfill that reduces the video rows of the calls of the first gateways with
samples to those of the last reading. -/
namespace VideoArtifacts

open CallsTable
open FieldMap
open IngestMapping
open MediaKeys
open OrderedQuery
open PartialUniqueIndex
open PythonJson
open QualityCounts
open SessionZones

/-- Pushes before this date came from a gateway without samples. -/
def ARTIFACT_SINCE : String := "2026-09-15"

/-- `raw->'call'->'mediaStats'`. -/
def rawMediaStats (r : StoredCall) : Json := field (obj (field (obj r.raw) "call")) "mediaStats"

def isVideoOf (callPk : ℕ) (m : StoredMedia) : Bool :=
  decide (m.callPk = callPk ∧ m.row.media = .video)

/-- A row of the selection, with the entries of its video list. -/
structure Candidate where
  callPk : ℕ
  receivedAt : ℤ
  mediaStats : Dict
  video : List Json
  storedRows : ℕ

/-- A call with a video list of four entries or more. -/
def candidate (media : List StoredMedia) (r : StoredCall) : Option Candidate :=
  match field (obj (rawMediaStats r)) "video" with
  | .arr video =>
    if 4 ≤ video.length then
      some
        { callPk := r.id, receivedAt := r.receivedAt, mediaStats := obj (rawMediaStats r)
          video := video, storedRows := media.countP (isVideoOf r.id) }
    else none
  | _ => none

/-- What is done with a call. -/
inductive Reading where
  | skipped
  | reported
  | reduced (rows : List MediaRow)

inductive Abort where
  | mapping (e : MappingError)
  | uniqueViolation

structure Progress where
  media : Table mediaKey
  rewritten : List (ℕ × ℕ × ℕ)
  reportedOnly : List ℕ

def isList : Json → Bool
  | .arr _ => true
  | _ => false

def videoRowsOf (rows : List MediaRow) : List MediaRow :=
  rows.filter fun row => decide (row.media = .video)

section Step

variable (py : PythonText) (zone : SessionZone)

/-- A push received before the date, as the texts of the dates compare. -/
def isBefore (receivedAt : ℤ) : Bool :=
  decide (isoDate (dateOf (zone.clock receivedAt)) < ARTIFACT_SINCE.toList)

def reading (c : Candidate) : Except MappingError Reading := do
  let bySamples ← isRepeated c.mediaStats
  let streams ← objectsOf (.arr c.video)
  let byCounters := ! isList (field c.mediaStats "samples") && looksCumulative streams
  if ! (bySamples || byCounters) then .ok .skipped
  else if byCounters && isBefore zone c.receivedAt then .ok .reported
  else
    -- Entries that only their counters betray are given the samples that ingestion looks for.
    let stats := if byCounters then
        put c.mediaStats "samples" (.arr (List.replicate (c.video.length / 2 - 1) (.obj [])))
      else c.mediaStats
    let rows ← mediaRows py (.obj stats)
    .ok (.reduced (videoRowsOf rows))

/-- `DELETE` and `INSERT` of the video rows of a call. -/
def rewrite (media : Table mediaKey) (callPk : ℕ) (rows : List MediaRow) :
    Option (Table mediaKey) :=
  (media.deleteWhere (isVideoOf callPk)).insertEach (mediaOf callPk rows)

def reduceCall (p : Progress) (c : Candidate) : Except Abort Progress :=
  match reading py zone c with
  | .error e => .error (.mapping e)
  | .ok .skipped => .ok p
  | .ok .reported => .ok { p with reportedOnly := p.reportedOnly ++ [c.callPk] }
  | .ok (.reduced rows) =>
    if c.storedRows = rows.length then .ok p
    else match rewrite p.media c.callPk rows with
      | none => .error .uniqueViolation
      | some media => .ok
          { p with
            media := media
            rewritten := p.rewritten ++ [(c.callPk, c.video.length, rows.length)] }

/-- The calls that the step looks at, in the order of their ids. -/
def candidates (t : Tables) : List Candidate :=
  (orderBy StoredCall.id t.calls.rows).filterMap (candidate t.media.rows)

def videoArtifacts (t : Tables) : Except Abort Progress :=
  (candidates t).foldlM (reduceCall py zone) ⟨t.media, [], []⟩

end Step

/-- The rule of ingestion recognises the video list of a call. -/
def Recognised (r : StoredCall) : Prop := isRepeated (obj (rawMediaStats r)) = .ok true

/-- A list without samples that its counters betray, of a push since the date. -/
def Betrayed (zone : SessionZone) (r : StoredCall) : Prop :=
  ∃ video, field (obj (rawMediaStats r)) "video" = .arr video ∧
    isList (field (obj (rawMediaStats r)) "samples") = false ∧
    (∃ streams, objectsOf (.arr video) = .ok streams ∧ looksCumulative streams = true) ∧
    isBefore zone r.receivedAt = false

/-- The video rows that ingestion gives a call. -/
def expected (py : PythonText) (r : StoredCall) : List MediaRow :=
  match mediaRows py (rawMediaStats r) with
  | .ok rows => videoRowsOf rows
  | .error _ => []

/-- The video rows stored for a call. -/
def storedVideo (media : List StoredMedia) (callPk : ℕ) : List MediaRow :=
  (media.filter (isVideoOf callPk)).map StoredMedia.row

structure MatchesIngestion (py : PythonText) (zone : SessionZone) (t : Tables) (p : Progress) :
    Prop where
  video : ∀ r ∈ t.calls.rows, Recognised r →
    (storedVideo p.media.rows r.id).Perm (expected py r)
  audio : p.media.rows.filter (fun m => decide (m.row.media = .audio)) =
    t.media.rows.filter fun m => decide (m.row.media = .audio)
  others : ∀ callPk, callPk ∉ p.rewritten.map Prod.fst →
    p.media.rows.filter (fun m => decide (m.callPk = callPk)) =
      t.media.rows.filter fun m => decide (m.callPk = callPk)
  rules : ∀ callPk ∈ p.rewritten.map Prod.fst, ∃ r ∈ t.calls.rows, r.id = callPk ∧
    (Recognised r ∨ Betrayed zone r)
  again : ∃ p', videoArtifacts py zone { t with media := p.media } = .ok p' ∧ p'.rewritten = []

/-- A call with as many video rows as ingestion gives it has these rows. -/
def UpToDate (py : PythonText) (t : Tables) : Prop :=
  ∀ r ∈ t.calls.rows, Recognised r →
    (storedVideo t.media.rows r.id).length = (expected py r).length →
    (storedVideo t.media.rows r.id).Perm (expected py r)

section Readings

variable {py : PythonText} {zone : SessionZone} {stats : Dict} {video : List Json} {c : Candidate}

theorem objectsOf_arr (xs : List Json) : objectsOf (.arr xs) = .ok (videoStreams (.arr xs)) := by
  cases xs <;> rfl

theorem isRepeated_arr (h : field stats "video" = .arr video) : isRepeated stats =
    match field stats "samples" with
    | .arr samples =>
      if (videoStreams (.arr video)).length < 4 then .ok false
      else .ok ((!samples.isEmpty &&
        decide (2 * samples.length ≤ (videoStreams (.arr video)).length)) ||
        looksCumulative (videoStreams (.arr video)))
    | _ => .ok false := by
  unfold isRepeated
  rw [h]
  dsimp only
  rw [objectsOf_arr]
  rfl

/-- A value with streams to iterate over is a list of at least as many. -/
theorem list_of_streams {v : Json} {streams : List Dict} (h : objectsOf v = .ok streams)
    (hpos : 0 < streams.length) : ∃ xs, v = .arr xs ∧ streams.length ≤ xs.length := by
  cases v with
  | arr xs =>
    rw [objectsOf_arr] at h
    obtain rfl := Except.ok.inj h
    exact ⟨xs, rfl, List.length_filterMap_le _ _⟩
  | str | obj =>
    unfold objectsOf at h
    split at h <;>
      · obtain rfl := Except.ok.inj h
        exact absurd hpos (lt_irrefl 0)
  | null | bool | int | float =>
    unfold objectsOf at h
    split at h
    · obtain rfl := Except.ok.inj h
      exact absurd hpos (lt_irrefl 0)
    · cases h

/-- Only a list is recognised, with samples that are a list. -/
theorem lists_of_recognised (h : isRepeated stats = .ok true) :
    isList (field stats "samples") = true ∧
      ∃ video, field stats "video" = .arr video ∧ 4 ≤ video.length := by
  unfold isRepeated at h
  split at h
  · cases h
  · obtain ⟨streams, hstreams, h⟩ := bind_eq_ok h
    split at h
    · next samples hsamples =>
      split at h
      · cases h
      · next hmany =>
        obtain ⟨xs, hxs, hlength⟩ := list_of_streams hstreams (by omega)
        exact ⟨by rw [hsamples]; rfl, xs, hxs, by omega⟩
    · cases h

/-- A list that is recognised has rows of different keys. -/
theorem rows_of_recognised (hvideo : field stats "video" = .arr video)
    (h : isRepeated stats = .ok true) :
    ∃ rows, mediaRows py (.obj stats) = .ok rows ∧
      rows.Pairwise fun a b => keyOf a ≠ keyOf b := by
  have hentries : ∃ entries, videoEntries stats = .ok entries := by
    have hunfold : videoEntries stats = objectsOf (asList (field stats "video")) >>= _ := rfl
    have hlist : asList (field stats "video") = .arr video := by rw [hvideo]; rfl
    rw [hunfold, hlist, objectsOf_arr, h]
    exact ⟨_, rfl⟩
  obtain ⟨entries, hentries⟩ := hentries
  have hrows := (@mediaRows_eq_ok_iff py (.obj stats) _).mpr ⟨entries, hentries, rfl⟩
  exact ⟨_, hrows, (@distinct_iff py (.obj stats)).mpr (.inl h) _ hrows⟩

/-- A candidate with its list where the call has it. -/
def Candidate.Sound (c : Candidate) : Prop := field c.mediaStats "video" = .arr c.video

theorem candidate_eq_some {media : List StoredMedia} {r : StoredCall}
    (h : candidate media r = some c) : c.Sound ∧ c.callPk = r.id ∧ c.receivedAt = r.receivedAt ∧
      c.mediaStats = obj (rawMediaStats r) ∧ c.storedRows = media.countP (isVideoOf r.id) := by
  unfold candidate at h
  split at h
  · next video hvideo =>
    split at h
    · obtain rfl := Option.some.inj h
      exact ⟨hvideo, rfl, rfl, rfl, rfl⟩
    · cases h
  · cases h

/-- Whether a call is a candidate does not depend on the media rows stored for it. -/
theorem candidate_media {media : List StoredMedia} {r : StoredCall}
    (h : candidate media r = some c) (media' : List StoredMedia) :
    candidate media' r = some { c with storedRows := media'.countP (isVideoOf r.id) } := by
  unfold candidate at h ⊢
  split at h
  · split at h
    · next hmany =>
      obtain rfl := Option.some.inj h
      rw [if_pos hmany]
    · cases h
  · cases h

/-- Rows that can stand together as the video rows of a call. -/
structure VideoRows (rows : List MediaRow) : Prop where
  keys : rows.Pairwise fun a b => keyOf a ≠ keyOf b
  video : ∀ row ∈ rows, row.media = .video

theorem videoRows_of {rows : List MediaRow} (h : rows.Pairwise fun a b => keyOf a ≠ keyOf b) :
    VideoRows (videoRowsOf rows) where
  keys := h.filter _
  video _ hrow := of_decide_eq_true (List.mem_filter.mp hrow).2

/-- What the counters of a candidate without samples say of it. -/
def byCounters (c : Candidate) : Bool :=
  ! isList (field c.mediaStats "samples") && looksCumulative (videoStreams (.arr c.video))

/-- The statistics of a candidate with the samples that its counters stand for. -/
def withSamples (c : Candidate) : Dict :=
  put c.mediaStats "samples" (.arr (List.replicate (c.video.length / 2 - 1) (.obj [])))

theorem reading_eq {b : Bool} (h : isRepeated c.mediaStats = .ok b) : reading py zone c =
    if ! (b || byCounters c) then .ok .skipped
    else if byCounters c && isBefore zone c.receivedAt then .ok .reported
    else (mediaRows py (.obj (if byCounters c then withSamples c else c.mediaStats))).map
      fun rows => .reduced (videoRowsOf rows) := by
  rw [reading, h, objectsOf_arr]
  rfl

theorem reading_of_recognised (hc : c.Sound) (h : isRepeated c.mediaStats = .ok true) :
    ∃ rows, mediaRows py (.obj c.mediaStats) = .ok rows ∧
      reading py zone c = .ok (.reduced (videoRowsOf rows)) ∧ VideoRows (videoRowsOf rows) := by
  obtain ⟨rows, hrows, hkeys⟩ := @rows_of_recognised py _ _ hc h
  have hcounters : byCounters c = false := by
    rw [byCounters, (lists_of_recognised h).1]
    rfl
  refine ⟨rows, hrows, ?_, videoRows_of hkeys⟩
  rw [reading_eq h, hcounters, Bool.or_false, Bool.not_true, Bool.false_and,
    if_neg Bool.false_ne_true, if_neg Bool.false_ne_true, if_neg Bool.false_ne_true, hrows]
  rfl

/-- With these samples the rule of ingestion recognises the list. -/
theorem isRepeated_withSamples (hc : c.Sound) (h : byCounters c = true) :
    field (withSamples c) "video" = .arr c.video ∧ isRepeated (withSamples c) = .ok true := by
  have hvideo : field (withSamples c) "video" = .arr c.video := by
    rw [field, withSamples, lookup_put_ne _ _ (by decide)]
    exact hc
  have hsamples : field (withSamples c) "samples" =
      .arr (List.replicate (c.video.length / 2 - 1) (.obj [])) := by
    rw [field, withSamples, lookup_put_self]
    rfl
  have hcumulative := (Bool.and_eq_true_iff.mp h).2
  have hmany : ¬ (videoStreams (.arr c.video)).length < 4 := by
    rw [looksCumulative, Bool.and_assoc, Bool.and_assoc] at hcumulative
    exact not_lt.mpr (of_decide_eq_true (Bool.and_eq_true_iff.mp hcumulative).1)
  refine ⟨hvideo, ?_⟩
  rw [isRepeated_arr hvideo, hsamples]
  dsimp only
  rw [if_neg hmany, hcumulative, Bool.or_true]

/-- A candidate is read without an error, and what it is reduced to can be stored. -/
theorem reading_spec (hc : c.Sound) : ∃ r, reading py zone c = .ok r ∧ ∀ rows, r = .reduced rows →
    VideoRows rows ∧ (isRepeated c.mediaStats = .ok true ∨
      byCounters c = true ∧ isBefore zone c.receivedAt = false) := by
  have hstreams : objectsOf (asList (field c.mediaStats "video")) =
      .ok (videoStreams (.arr c.video)) := by
    rw [hc]
    exact objectsOf_arr c.video
  obtain ⟨b, hb⟩ := isRepeated_of_ok hstreams
  cases b with
  | true =>
    obtain ⟨rows, -, hreading, hrows⟩ := @reading_of_recognised py zone _ hc hb
    refine ⟨_, hreading, fun rows' heq => ?_⟩
    obtain rfl := Reading.reduced.inj heq
    exact ⟨hrows, .inl hb⟩
  | false =>
    rw [reading_eq hb, Bool.false_or]
    cases hcounters : byCounters c with
    | false => exact ⟨.skipped, rfl, nofun⟩
    | true =>
      rw [Bool.not_true, if_neg Bool.false_ne_true, Bool.true_and]
      cases hbefore : isBefore zone c.receivedAt with
      | true => exact ⟨.reported, rfl, nofun⟩
      | false =>
        obtain ⟨hvideo, hrepeated⟩ := isRepeated_withSamples hc hcounters
        obtain ⟨rows, hrows, hkeys⟩ := @rows_of_recognised py _ _ hvideo hrepeated
        refine ⟨.reduced (videoRowsOf rows), ?_, ?_⟩
        · rw [if_neg Bool.false_ne_true, if_pos rfl, hrows]
          rfl
        · intro rows' heq
          obtain rfl := Reading.reduced.inj heq
          exact ⟨videoRows_of hkeys, .inr ⟨rfl, rfl⟩⟩

end Readings

/-- The media rows of a call. -/
def rowsOf (callPk : ℕ) (media : List StoredMedia) : List StoredMedia :=
  media.filter fun m => decide (m.callPk = callPk)

def audioRows (media : List StoredMedia) : List StoredMedia :=
  media.filter fun m => decide (m.row.media = .audio)

section Rewriting

variable {media : Table mediaKey} {callPk other : ℕ} {rows : List MediaRow}

theorem coexist_media {a b : StoredMedia} :
    Coexist mediaKey a b ↔ (a.callPk = b.callPk → keyOf a.row ≠ keyOf b.row) := by
  rw [Coexist, mediaKey, List.forall_mem_singleton, clashes_eq_false_iff]
  constructor
  · intro h hpk hkey
    obtain ⟨hmedia, hrest⟩ := Prod.mk.inj hkey
    obtain ⟨hindex, hdirection⟩ := Prod.mk.inj hrest
    apply h _ rfl
    rw [hpk, hmedia, hindex, hdirection]
  · intro h k ha hb
    obtain ⟨hpk, hkey⟩ := Prod.mk.inj (Option.some.inj (ha.trans hb.symm))
    exact h hpk hkey

theorem storedVideo_rowsOf (media : List StoredMedia) (callPk : ℕ) :
    storedVideo media callPk = ((rowsOf callPk media).filter fun m =>
      decide (m.row.media = .video)).map StoredMedia.row := by
  rw [storedVideo, rowsOf, List.filter_filter]
  congr 1
  apply List.filter_congr
  intro m _
  rw [isVideoOf, Bool.decide_and, Bool.and_comm]

theorem length_storedVideo (media : List StoredMedia) (callPk : ℕ) :
    (storedVideo media callPk).length = media.countP (isVideoOf callPk) := by
  rw [storedVideo, List.length_map, List.countP_eq_length_filter]

/-- The rows are deleted and inserted without a conflict. -/
theorem rewrite_spec (h : VideoRows rows) : ∃ media', rewrite media callPk rows = some media' ∧
    media'.rows = media.rows.filter (fun m => ! isVideoOf callPk m) ++ mediaOf callPk rows := by
  apply insertEach_apart
  · intro b hb a ha
    obtain ⟨row, hrow, rfl⟩ := List.mem_map.mp ha
    apply coexist_media.mpr
    intro hpk hkey
    have hnot := (List.mem_filter.mp hb).2
    have hmedia : b.row.media = .video := (Prod.mk.inj hkey).1.trans (h.video row hrow)
    rw [isVideoOf, decide_eq_true ⟨hpk, hmedia⟩] at hnot
    cases hnot
  · apply List.pairwise_map.mpr
    exact h.keys.imp fun hne => coexist_media.mpr fun _ => hne

/-- Rows that are not video rows of the call are left as they are. -/
theorem filter_rewritten {q : StoredMedia → Bool} (l : List StoredMedia)
    (hold : ∀ m, q m = true → isVideoOf callPk m = false)
    (hnew : ∀ m ∈ mediaOf callPk rows, q m = false) :
    (l.filter (fun m => ! isVideoOf callPk m) ++ mediaOf callPk rows).filter q = l.filter q := by
  have hnone : (mediaOf callPk rows).filter q = [] := by
    apply List.filter_eq_nil_iff.mpr
    intro m hm
    rw [hnew m hm]
    exact Bool.false_ne_true
  have hkept : (l.filter fun m => ! isVideoOf callPk m).filter q = l.filter q := by
    rw [List.filter_filter]
    apply List.filter_congr
    intro m _
    cases hq : q m with
    | false => rfl
    | true =>
      rw [hold m hq]
      rfl
  rw [List.filter_append, hkept, hnone, List.append_nil]

theorem audio_rewritten (h : VideoRows rows) (l : List StoredMedia) :
    audioRows (l.filter (fun m => ! isVideoOf callPk m) ++ mediaOf callPk rows) = audioRows l := by
  apply filter_rewritten
  · intro m haudio
    apply decide_eq_false
    intro hvideo
    rw [of_decide_eq_true haudio] at hvideo
    cases hvideo.2
  · intro m hm
    obtain ⟨row, hrow, rfl⟩ := List.mem_map.mp hm
    rw [h.video row hrow]
    rfl

theorem others_rewritten (hne : other ≠ callPk) (l : List StoredMedia) :
    rowsOf other (l.filter (fun m => ! isVideoOf callPk m) ++ mediaOf callPk rows) =
      rowsOf other l := by
  apply filter_rewritten
  · intro m hother
    apply decide_eq_false
    intro hvideo
    exact hne ((of_decide_eq_true hother).symm.trans hvideo.1)
  · intro m hm
    obtain ⟨row, -, rfl⟩ := List.mem_map.mp hm
    exact decide_eq_false (Ne.symm hne)

theorem video_rewritten (h : VideoRows rows) (l : List StoredMedia) : storedVideo
    (l.filter (fun m => ! isVideoOf callPk m) ++ mediaOf callPk rows) callPk = rows := by
  have hold : (l.filter fun m => ! isVideoOf callPk m).filter (isVideoOf callPk) = [] := by
    apply List.filter_eq_nil_iff.mpr
    intro m hm
    have hnot := (List.mem_filter.mp hm).2
    rw [Bool.not_eq_true'] at hnot
    rw [hnot]
    exact Bool.false_ne_true
  have hnew : (mediaOf callPk rows).filter (isVideoOf callPk) = mediaOf callPk rows := by
    apply List.filter_eq_self.mpr
    intro m hm
    obtain ⟨row, hrow, rfl⟩ := List.mem_map.mp hm
    exact decide_eq_true ⟨rfl, h.video row hrow⟩
  rw [storedVideo, List.filter_append, hold, hnew, List.nil_append, mediaOf, List.map_map]
  exact List.map_id _

end Rewriting

section Runs

variable {py : PythonText} {zone : SessionZone} {c : Candidate} {cs : List Candidate}
variable {p p' : Progress}

/-- What a run over candidates does. -/
structure Ran (py : PythonText) (zone : SessionZone) (cs : List Candidate) (p p' : Progress) :
    Prop where
  audio : audioRows p'.media.rows = audioRows p.media.rows
  apart : ∀ callPk, callPk ∉ cs.map Candidate.callPk →
    rowsOf callPk p'.media.rows = rowsOf callPk p.media.rows
  grows : p.rewritten ⊆ p'.rewritten
  others : ∀ callPk, callPk ∉ p'.rewritten.map Prod.fst →
    rowsOf callPk p'.media.rows = rowsOf callPk p.media.rows
  rewrites : ∀ e ∈ p'.rewritten, e ∈ p.rewritten ∨ ∃ c ∈ cs, c.callPk = e.1 ∧
    ∃ rows, reading py zone c = .ok (.reduced rows) ∧ c.storedRows ≠ rows.length
  reduced : ∀ c ∈ cs, ∀ rows, reading py zone c = .ok (.reduced rows) →
    storedVideo p'.media.rows c.callPk =
      if c.storedRows = rows.length then storedVideo p.media.rows c.callPk else rows

theorem ran_nil (p : Progress) : Ran py zone [] p p where
  audio := rfl
  apart _ _ := rfl
  grows := List.Subset.refl _
  others _ _ := rfl
  rewrites _ he := .inl he
  reduced _ hc := absurd hc List.not_mem_nil

/-- A candidate is left as it is, or rewritten. -/
theorem ran_reduceCall (hc : c.Sound) (p : Progress) :
    ∃ p', reduceCall py zone p c = .ok p' ∧ Ran py zone [c] p p' := by
  obtain ⟨r, hr, hspec⟩ := @reading_spec py zone _ hc
  have hidle (reported : List ℕ) (hnone : ∀ rows, r = .reduced rows → c.storedRows = rows.length) :
      Ran py zone [c] p { p with reportedOnly := reported } := by
    refine ⟨rfl, fun _ _ => rfl, List.Subset.refl _, fun _ _ => rfl, fun _ he => .inl he, ?_⟩
    intro c' hc' rows hrows
    obtain rfl := List.mem_singleton.mp hc'
    rw [if_pos (hnone rows (Except.ok.inj (hr.symm.trans hrows)))]
  rw [reduceCall, hr]
  cases r with
  | skipped => exact ⟨p, rfl, hidle _ nofun⟩
  | reported => exact ⟨_, rfl, hidle _ nofun⟩
  | reduced rows =>
    obtain ⟨hrows, -⟩ := hspec rows rfl
    dsimp only
    by_cases hcount : c.storedRows = rows.length
    · rw [if_pos hcount]
      refine ⟨p, rfl, hidle _ fun rows' heq => ?_⟩
      rw [← Reading.reduced.inj heq, hcount]
    · obtain ⟨media, hmedia, hafter⟩ := @rewrite_spec p.media c.callPk _ hrows
      rw [if_neg hcount, hmedia]
      refine ⟨_, rfl, ?_, ?_, ?_, ?_, ?_, ?_⟩
      · dsimp only
        rw [hafter, audio_rewritten hrows]
      · intro callPk hne
        dsimp only
        rw [hafter, others_rewritten (fun heq => hne (List.mem_singleton.mpr heq))]
      · exact List.subset_append_left _ _
      · intro callPk hne
        dsimp only at hne ⊢
        rw [List.map_append, List.mem_append, not_or] at hne
        rw [hafter, others_rewritten fun heq => hne.2 (List.mem_singleton.mpr heq)]
      · intro e he
        rcases List.mem_append.mp he with hold | hnew
        · exact .inl hold
        · rw [List.mem_singleton.mp hnew]
          exact .inr ⟨c, List.mem_cons_self, rfl, rows, hr, hcount⟩
      · intro c' hc' rows' hrows'
        obtain rfl := List.mem_singleton.mp hc'
        obtain rfl := Reading.reduced.inj (Except.ok.inj (hr.symm.trans hrows'))
        dsimp only
        rw [if_neg hcount, hafter, video_rewritten hrows]

theorem Ran.trans {q : Progress} (h : Ran py zone [c] p q) (hrest : Ran py zone cs q p')
    (hnew : c.callPk ∉ cs.map Candidate.callPk) : Ran py zone (c :: cs) p p' where
  audio := hrest.audio.trans h.audio
  apart callPk hne := by
    rw [List.map_cons, List.mem_cons, not_or] at hne
    rw [hrest.apart callPk hne.2, h.apart callPk fun hmem => hne.1 (List.mem_singleton.mp hmem)]
  grows := List.Subset.trans h.grows hrest.grows
  others callPk hne := by
    have hbefore : callPk ∉ q.rewritten.map Prod.fst := fun hmem =>
      hne (List.map_subset Prod.fst hrest.grows hmem)
    rw [hrest.others callPk hne, h.others callPk hbefore]
  rewrites e he := by
    rcases hrest.rewrites e he with hq | ⟨c', hc', hrest⟩
    · rcases h.rewrites e hq with hp | ⟨c', hc', hone⟩
      · exact .inl hp
      · rw [List.mem_singleton.mp hc'] at hone
        exact .inr ⟨c, List.mem_cons_self, hone⟩
    · exact .inr ⟨c', List.mem_cons_of_mem c hc', hrest⟩
  reduced c' hc' rows hrows := by
    rcases List.mem_cons.mp hc' with rfl | hc'
    · rw [← h.reduced c' List.mem_cons_self rows hrows, storedVideo_rowsOf, storedVideo_rowsOf,
        hrest.apart _ hnew]
    · have hne : c'.callPk ∉ [c].map Candidate.callPk := by
        intro hmem
        have hpk : c'.callPk = c.callPk := List.mem_singleton.mp hmem
        exact hnew (hpk ▸ List.mem_map_of_mem hc')
      rw [hrest.reduced c' hc' rows hrows, storedVideo_rowsOf q.media.rows,
        storedVideo_rowsOf p.media.rows, h.apart _ hne]

theorem ran_foldlM (hsound : ∀ c ∈ cs, c.Sound) (hnodup : (cs.map Candidate.callPk).Nodup)
    (p : Progress) : ∃ p', cs.foldlM (reduceCall py zone) p = .ok p' ∧ Ran py zone cs p p' := by
  induction cs generalizing p with
  | nil => exact ⟨p, rfl, ran_nil p⟩
  | cons c cs ih =>
    obtain ⟨hnew, hnodup⟩ := List.nodup_cons.mp hnodup
    obtain ⟨q, hq, hfirst⟩ := @ran_reduceCall py zone c (hsound c List.mem_cons_self) p
    obtain ⟨p', hp', hrest⟩ := ih (fun c' hc' => hsound c' (List.mem_cons_of_mem c hc')) hnodup q
    refine ⟨p', ?_, hfirst.trans hrest hnew⟩
    rw [List.foldlM_cons, hq]
    exact hp'

end Runs

section Tables

variable {py : PythonText} {zone : SessionZone} {t : Tables} {p : Progress}

theorem candidates_sound {c : Candidate} (h : c ∈ candidates t) :
    c.Sound ∧ ∃ r ∈ t.calls.rows, candidate t.media.rows r = some c := by
  obtain ⟨r, hr, hc⟩ := List.mem_filterMap.mp h
  exact ⟨(candidate_eq_some hc).1, r, mem_orderBy.mp hr, hc⟩

theorem nodup_candidates (hids : (t.calls.rows.map StoredCall.id).Nodup) :
    ((candidates t).map Candidate.callPk).Nodup := by
  have hordered : ((orderBy StoredCall.id t.calls.rows).map StoredCall.id).Nodup :=
    ((orderBy_perm StoredCall.id t.calls.rows).map StoredCall.id).nodup_iff.mpr hids
  apply List.pairwise_map.mpr
  apply List.pairwise_filterMap.mpr
  apply (List.pairwise_map.mp hordered).imp
  intro r r' hne c hc c' hc' heq
  rw [(candidate_eq_some hc).2.1, (candidate_eq_some hc').2.1] at heq
  exact hne heq

/-- The candidate of a call that is recognised, and the rows it is reduced to. -/
theorem candidate_of_recognised {r : StoredCall} (hr : r ∈ t.calls.rows) (h : Recognised r) :
    ∃ c ∈ candidates t, c.callPk = r.id ∧
      c.storedRows = (storedVideo t.media.rows r.id).length ∧
      reading py zone c = .ok (.reduced (expected py r)) := by
  obtain ⟨-, video, hvideo, hmany⟩ := lists_of_recognised h
  obtain ⟨c, hc⟩ : ∃ c, candidate t.media.rows r = some c := by
    rw [candidate, hvideo]
    dsimp only
    rw [if_pos hmany]
    exact ⟨_, rfl⟩
  obtain ⟨hsound, hpk, -, hstats, hstored⟩ := candidate_eq_some hc
  have hrepeated : isRepeated c.mediaStats = .ok true := by
    rw [hstats]
    exact h
  obtain ⟨rows, hrows, hreading, -⟩ := @reading_of_recognised py zone _ hsound hrepeated
  have hexpected : expected py r = videoRowsOf rows := by
    have hsame : mediaRows py (rawMediaStats r) = .ok rows := by
      rw [hstats] at hrows
      exact hrows
    rw [expected, hsame]
  refine ⟨c, List.mem_filterMap.mpr ⟨r, mem_orderBy.mpr hr, hc⟩, hpk, ?_, ?_⟩
  · rw [hstored, length_storedVideo]
  · rw [hreading, hexpected]

theorem ran_videoArtifacts (py : PythonText) (zone : SessionZone) (t : Tables)
    (hids : (t.calls.rows.map StoredCall.id).Nodup) : ∃ p, videoArtifacts py zone t = .ok p ∧
      Ran py zone (candidates t) ⟨t.media, [], []⟩ p :=
  ran_foldlM (fun _ hc => (candidates_sound hc).1) (nodup_candidates hids) _

/-- A second run finds every call with the rows that it is reduced to. -/
theorem Ran.again (hids : (t.calls.rows.map StoredCall.id).Nodup)
    (hran : Ran py zone (candidates t) ⟨t.media, [], []⟩ p) :
    ∃ p', videoArtifacts py zone { t with media := p.media } = .ok p' ∧ p'.rewritten = [] := by
  let after : Tables := { t with media := p.media }
  obtain ⟨p', hp', hagain⟩ := ran_videoArtifacts py zone after hids
  refine ⟨p', hp', List.eq_nil_iff_forall_not_mem.mpr fun e he => ?_⟩
  rcases hagain.rewrites e he with hnone | ⟨c, hc, -, rows, hrows, hcount⟩
  · exact absurd hnone List.not_mem_nil
  · apply hcount
    obtain ⟨-, r, hr, hcandidate⟩ := candidates_sound hc
    obtain ⟨hsound, hpk, hreceived, hstats, hstored⟩ := candidate_eq_some hcandidate
    -- The same call was a candidate of the first run, with the rows stored then.
    let first : Candidate := { c with storedRows := t.media.rows.countP (isVideoOf r.id) }
    have hfirst : candidate t.media.rows r = some first := candidate_media hcandidate _
    have hmem : first ∈ candidates t := List.mem_filterMap.mpr ⟨r, mem_orderBy.mpr hr, hfirst⟩
    have hvideo := hran.reduced first hmem rows hrows
    have hpkFirst : first.callPk = r.id := hpk
    rw [hpkFirst] at hvideo
    rw [hstored, ← length_storedVideo, hvideo]
    split
    · next hsame =>
      rw [length_storedVideo]
      exact hsame
    · rfl

/-- The video rows of a call that is recognised, after the step. -/
theorem Ran.storedVideo_eq (hran : Ran py zone (candidates t) ⟨t.media, [], []⟩ p)
    {r : StoredCall} (hr : r ∈ t.calls.rows) (h : Recognised r) : storedVideo p.media.rows r.id =
      if (storedVideo t.media.rows r.id).length = (expected py r).length then
        storedVideo t.media.rows r.id
      else expected py r := by
  obtain ⟨c, hc, hpk, hstored, hreading⟩ := @candidate_of_recognised py zone t r hr h
  rw [← hpk, hran.reduced c hc _ hreading, hstored, hpk]

theorem Ran.rules (hran : Ran py zone (candidates t) ⟨t.media, [], []⟩ p) :
    ∀ callPk ∈ p.rewritten.map Prod.fst, ∃ r ∈ t.calls.rows, r.id = callPk ∧
      (Recognised r ∨ Betrayed zone r) := by
  intro callPk hcallPk
  obtain ⟨e, he, rfl⟩ := List.mem_map.mp hcallPk
  rcases hran.rewrites e he with hnone | ⟨c, hc, hcallPk, rows, hrows, -⟩
  · exact absurd hnone List.not_mem_nil
  · obtain ⟨hsound, r, hr, hcandidate⟩ := candidates_sound hc
    obtain ⟨-, hpk, hreceived, hstats, -⟩ := candidate_eq_some hcandidate
    obtain ⟨reading, hreading, hspec⟩ := @reading_spec py zone c hsound
    refine ⟨r, hr, hpk.symm.trans hcallPk, ?_⟩
    rcases (hspec rows (Except.ok.inj (hreading.symm.trans hrows))).2 with hrepeated | hcounters
    · apply Or.inl
      rw [Recognised, ← hstats]
      exact hrepeated
    · obtain ⟨hsamples, hcumulative⟩ := Bool.and_eq_true_iff.mp hcounters.1
      apply Or.inr
      rw [Betrayed, ← hstats, ← hreceived]
      exact ⟨c.video, hsound, (Bool.not_eq_true' _).mp hsamples, ⟨_, objectsOf_arr _, hcumulative⟩,
        hcounters.2⟩

/-- The step gives the rows of ingestion exactly where rows of the right number are the right
rows: it counts them, and does not compare them. -/
theorem videoArtifacts_matches_iff (py : PythonText) (zone : SessionZone) (t : Tables)
    (hids : (t.calls.rows.map StoredCall.id).Nodup) :
    (∃ p, videoArtifacts py zone t = .ok p ∧ MatchesIngestion py zone t p) ↔ UpToDate py t := by
  obtain ⟨p, hp, hran⟩ := ran_videoArtifacts py zone t hids
  constructor
  · rintro ⟨q, hq, hmatches⟩ r hr h hcount
    obtain rfl := Except.ok.inj (hp.symm.trans hq)
    have hvideo := hmatches.video r hr h
    rw [hran.storedVideo_eq hr h, if_pos hcount] at hvideo
    exact hvideo
  · intro huptodate
    refine ⟨p, hp, ?_, hran.audio, hran.others, hran.rules, hran.again hids⟩
    intro r hr h
    rw [hran.storedVideo_eq hr h]
    split
    · next hcount => exact huptodate r hr h hcount
    · exact List.Perm.refl _

end Tables

/-- A camera entry and a slides entry of one reading, numbered by the gateway. -/
def readingOf (packets : ℤ) : List Json :=
  [.obj [("streamIndex", .int 0), ("rx", .obj [("packets", .int packets)])],
    .obj [("streamIndex", .int 1)]]

/-- A call with a sample and two readings of its streams. -/
def twoReadings : StoredCall :=
  newCall 1 1790238060000000 (callColumns oneDate [] ⟨none, none, none, none, none⟩)
    (.obj [("call", .obj [("mediaStats",
      .obj [("video", .arr (readingOf 100 ++ readingOf 900)), ("samples", .arr [.obj []])])])])

def cameraRow (packets : ℤ) : MediaRow where
  media := .video
  streamIndex := 0
  direction := .rx
  packets := some packets
  errors := none
  packetReports := none
  avgBitrateKbps := none
  lostPackets := none
  jitterMs := none

theorem twoReadings_unique :
    [twoReadings].Pairwise fun a b => ∀ index ∈ replayIndexes, clashes index a b = false :=
  List.pairwise_singleton _ _

/-- The call with the media rows of so many packets each. -/
def withCamera (media : Table mediaKey) : Tables where
  calls := ⟨[twoReadings], twoReadings_unique⟩
  media := media
  nextId := 2

/-- No row is stored: the row of the last reading is inserted. -/
theorem withoutRows_matches : ∃ p, videoArtifacts oneDate utc (withCamera (.empty _)) = .ok p ∧
    MatchesIngestion oneDate utc (withCamera (.empty _)) p := by
  apply (videoArtifacts_matches_iff oneDate utc (withCamera (.empty _)) (by decide)).mpr
  intro r hr _ hcount
  obtain rfl := List.mem_singleton.mp hr
  revert hcount
  decide

/-- The row that the unique key kept of the two readings, the first. -/
def firstReading : Table mediaKey := ⟨[⟨1, cameraRow 100⟩], List.pairwise_singleton _ _⟩

theorem expected_twoReadings : expected oneDate twoReadings = [cameraRow 900] := by
  decide

/-- One row is stored and one is due, so the call passes for reduced. -/
theorem firstReading_kept :
    ¬ ∃ p, videoArtifacts oneDate utc (withCamera firstReading) = .ok p ∧
      MatchesIngestion oneDate utc (withCamera firstReading) p := by
  rintro ⟨p, hp, hmatches⟩
  obtain ⟨q, hq, hran⟩ := ran_videoArtifacts oneDate utc (withCamera firstReading) (by decide)
  obtain rfl := Except.ok.inj (hp.symm.trans hq)
  have hrecognised : Recognised twoReadings := by rfl
  have hvideo := hmatches.video twoReadings List.mem_cons_self hrecognised
  rw [hran.storedVideo_eq List.mem_cons_self hrecognised, expected_twoReadings] at hvideo
  have hrow : cameraRow 100 ∈ [cameraRow 900] := hvideo.subset List.mem_cons_self
  revert hrow
  decide

end VideoArtifacts
