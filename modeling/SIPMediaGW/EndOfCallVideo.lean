import Mathlib.Tactic.FinCases
import SIPMediaGW.HistoryPayload

/-! # The video block at the end of a call

The builder gathers the video tables of a history in one accumulator: a reading empties it, and
so does the close of a call that had readings. -/
namespace EndOfCallVideo

open FieldMap
open HistoryPayload
open PythonJson

/-- A record of a video table that names a field. -/
def isVideo (data : Dict) : Bool :=
  match stripped (field data "media"), stripped (field data "field") with
  | .ok media, .ok name => decide (lower media = "video") && decide (name ≠ "")
  | _, _ => false

def nameOf (data : Dict) : String := (stripped (field data "field")).toOption.getD ""

def numberOf (data : Dict) : ℤ := streamIdx (field data "streamIndex")

/-- The lines of tables, of readings and of the close. -/
def relevant : HistoryLine → Bool
  | .record recordType (.obj data) =>
    decide (recordType = "media_sample") || decide (recordType = "call_closed") ||
      decide (recordType = "stats_value") && isVideo data
  | .record recordType _ =>
    decide (recordType = "media_sample") || decide (recordType = "call_closed")
  | _ => false

structure Table where
  index : ℤ
  rows : List Dict
  nonempty : rows ≠ []
  video : ∀ row ∈ rows, isVideo row = true ∧ numberOf row = index

def Table.lines (t : Table) : List HistoryLine :=
  t.rows.map fun row => .record "stats_value" (.obj row)

structure MediaReading where
  tables : List Table
  sample : Dict

def MediaReading.lines (r : MediaReading) : List HistoryLine :=
  r.tables.flatMap Table.lines ++ [.record "media_sample" (.obj r.sample)]

/-- Readings, perhaps the tables of one cut short, the close, and the tables of the call. -/
structure History where
  readings : List MediaReading
  cut : List Table
  closing : Dict
  tables : List Table
  final : stripped (field closing "lastEventType") = .ok "CALL_CLOSED"
  increasing : tables.Pairwise fun t t' => t.index < t'.index

def History.lines (h : History) : List HistoryLine :=
  h.readings.flatMap MediaReading.lines ++ (h.cut.flatMap Table.lines ++
    (.record "call_closed" (.obj h.closing) :: h.tables.flatMap Table.lines))

def History.allTables (h : History) : List Table := h.cut ++ h.tables

/-- The last value written to a field, `null` aside. -/
def lastWritten (rows : List Dict) (key name : String) : Option Json :=
  ((rows.filter fun row => decide (nameOf row = name) && decide (field row key ≠ .null)).map
    fun row => field row key).getLast?

/-- A stream has the last values of the rows. -/
def Holds (s : Stream) (rows : List Dict) : Prop :=
  ∀ name, s.tx.lookup name = lastWritten rows "tx" name ∧
    s.rx.lookup name = lastWritten rows "rx" name

def rowsOf (tables : List Table) : List Dict := tables.flatMap Table.rows

/-- Every table under its own number, in the order of the numbers. -/
structure OwnNumbers (tables : List Table) (out : List Stream) : Prop where
  sorted : out.Pairwise fun s s' => s.streamIndex < s'.streamIndex
  numbers : ∀ n, (∃ s ∈ out, s.streamIndex = n) ↔ ∃ t ∈ tables, t.index = n
  holds : ∀ s ∈ out,
    Holds s ((rowsOf tables).filter fun row => decide (numberOf row = s.streamIndex))

/-- The tables one by one, numbered from zero. -/
structure Renumbered (tables : List Table) (out : List Stream) : Prop where
  numbers : out.map Stream.streamIndex = (List.range tables.length).map Int.ofNat
  holds : List.Forall₂ (fun s t => Holds s t.rows) out tables

def History.Block (h : History) (out : List Stream) : Prop :=
  if h.readings = [] then OwnNumbers h.allTables out else Renumbered h.tables out

def sampleOf (data : Dict) : Json :=
  .obj [("seconds", field data "seconds"), ("video", orElse (field data "video") (.obj []))]

/-- The streams and the readings so far. -/
structure View where
  streams : List (ℤ × Stream)
  samples : List Json

def view (b : Building) : View := ⟨b.media.videoStreams, b.mediaSamples⟩

def write (streams : List (ℤ × Stream)) (row : Dict) : List (ℤ × Stream) :=
  let stream := (streams.lookup (numberOf row)).getD ⟨numberOf row, [], []⟩
  put streams (numberOf row)
    { stream with
      tx := putFigure stream.tx (nameOf row) (field row "tx")
      rx := putFigure stream.rx (nameOf row) (field row "rx") }

def isFinal (data : Dict) : Bool :=
  match stripped (field data "lastEventType") with
  | .ok eventType => decide (eventType = "CALL_CLOSED")
  | .error _ => false

def absorb (v : View) : HistoryLine → View
  | .record recordType (.obj data) =>
    if recordType = "call_closed" then
      ⟨if isFinal data && !v.samples.isEmpty then [] else v.streams, v.samples⟩
    else if recordType = "media_sample" then ⟨[], v.samples ++ [sampleOf data]⟩
    else if recordType = "stats_value" then
      if isVideo data then ⟨write v.streams data, v.samples⟩ else v
    else v
  | _ => v

section Lines

variable {b b' : Building} {data : Dict}

theorem view_onCallClosed (h : onCallClosed b data = .ok b') :
    view b' = absorb (view b) (.record "call_closed" (.obj data)) := by
  obtain ⟨eventType, htype, h⟩ := bind_eq_ok h
  have hfinal : isFinal data = decide (eventType = "CALL_CLOSED") := by rw [isFinal, htype]
  rw [absorb, if_pos rfl, hfinal]
  dsimp only at h
  by_cases hlate : (b.haveFinalCallClosed && !decide (eventType = "CALL_CLOSED")) = true
  · rw [if_pos hlate] at h
    obtain rfl := Except.ok.inj h
    have hnot : decide (eventType = "CALL_CLOSED") = false := by
      simpa using (Bool.and_eq_true_iff.mp hlate).2
    rw [hnot]
    rfl
  · rw [if_neg hlate] at h
    obtain ⟨peerDisplay, -, h⟩ := bind_eq_ok h
    obtain ⟨sourceUri, -, h⟩ := bind_eq_ok h
    obtain ⟨destinationUriRaw, -, h⟩ := bind_eq_ok h
    obtain rfl := Except.ok.inj h
    have hmedia (c : Bool) : (if c = true then { b.media with videoStreams := [] }
        else b.media).videoStreams = if c = true then [] else b.media.videoStreams := by
      cases c <;> rfl
    exact congrArg (View.mk · b.mediaSamples) (hmedia _)

theorem view_onStatsValue (h : onStatsValue b data = .ok b') :
    view b' = absorb (view b) (.record "stats_value" (.obj data)) := by
  obtain ⟨media, hmedia, h⟩ := bind_eq_ok h
  obtain ⟨name, hname, h⟩ := bind_eq_ok h
  have hvideo : isVideo data = (decide (lower media = "video") && decide (name ≠ "")) := by
    rw [isVideo, hmedia, hname]
  have hnameOf : nameOf data = name := by
    rw [nameOf, hname]
    rfl
  have hstats : ("stats_value" : String) ≠ "call_closed" ∧ "stats_value" ≠ "media_sample" := by
    decide
  rw [absorb, if_neg hstats.1, if_neg hstats.2, if_pos rfl, hvideo]
  dsimp only at h
  split at h
  · next hempty =>
    obtain rfl := Except.ok.inj h
    have hnot : (decide (lower media = "video") && decide (name ≠ "")) = false := by
      rcases hempty with hempty | hempty
      · rw [hempty]
        rfl
      · simp [hempty]
    rw [hnot]
    rfl
  next hempty =>
  rw [not_or] at hempty
  split at h
  · next haudio =>
    obtain rfl := Except.ok.inj h
    rw [haudio]
    rfl
  split at h
  · next hmediaType =>
    obtain rfl := Except.ok.inj h
    rw [hmediaType, decide_eq_true hempty.2]
    exact congrArg (View.mk · b.mediaSamples) (by rw [write, hnameOf]; rfl)
  · next hmediaType =>
    obtain rfl := Except.ok.inj h
    rw [decide_eq_false hmediaType]
    rfl

theorem onRecord_keeps {recordType : String} (h : onRecord b recordType data = .ok b')
    (hclosed : recordType ≠ "call_closed") (hsample : recordType ≠ "media_sample")
    (hstats : recordType ≠ "stats_value") : view b' = view b := by
  rw [onRecord, if_neg hclosed, if_neg hsample, if_neg hstats] at h
  by_cases hstart : recordType = "call_start"
  · rw [if_pos hstart] at h
    obtain rfl := Except.ok.inj h
    rfl
  rw [if_neg hstart] at h
  by_cases hend : recordType = "call_end"
  · rw [if_pos hend] at h
    obtain rfl := Except.ok.inj h
    rfl
  rw [if_neg hend] at h
  by_cases hencoder : recordType = "encoder"
  · rw [if_pos hencoder] at h
    obtain ⟨encoderMedia, -, h⟩ := bind_eq_ok h
    obtain ⟨encoderValue, -, h⟩ := bind_eq_ok h
    split at h
    · obtain rfl := Except.ok.inj h
      rfl
    split at h
    · obtain rfl := Except.ok.inj h
      rfl
    · obtain rfl := Except.ok.inj h
      rfl
  rw [if_neg hencoder] at h
  by_cases hroom : recordType = "room"
  · rw [if_pos hroom] at h
    obtain ⟨value, -, h⟩ := bind_eq_ok h
    obtain rfl := Except.ok.inj h
    rfl
  rw [if_neg hroom] at h
  by_cases hbrowsing : recordType = "browsing"
  · rw [if_pos hbrowsing] at h
    obtain ⟨value, -, h⟩ := bind_eq_ok h
    obtain rfl := Except.ok.inj h
    rfl
  rw [if_neg hbrowsing] at h
  by_cases hdestination : recordType = "destination"
  · rw [if_pos hdestination] at h
    obtain ⟨uri, -, h⟩ := bind_eq_ok h
    obtain ⟨domain, -, h⟩ := bind_eq_ok h
    obtain rfl := Except.ok.inj h
    rfl
  rw [if_neg hdestination] at h
  by_cases hdtmf : recordType = "dtmf"
  · rw [if_pos hdtmf] at h
    obtain ⟨input, -, h⟩ := bind_eq_ok h
    split at h
    · obtain rfl := Except.ok.inj h
      rfl
    · obtain rfl := Except.ok.inj h
      rfl
  rw [if_neg hdtmf] at h
  obtain rfl := Except.ok.inj h
  rfl

theorem view_onRecord {recordType : String} (h : onRecord b recordType data = .ok b') :
    view b' = absorb (view b) (.record recordType (.obj data)) := by
  by_cases hclosed : recordType = "call_closed"
  · subst hclosed
    exact view_onCallClosed h
  by_cases hsample : recordType = "media_sample"
  · subst hsample
    obtain rfl := Except.ok.inj h
    rfl
  by_cases hstats : recordType = "stats_value"
  · subst hstats
    exact view_onStatsValue h
  · rw [onRecord_keeps h hclosed hsample hstats, absorb, if_neg hclosed, if_neg hsample,
      if_neg hstats]

theorem view_onLine {line : HistoryLine} (h : onLine b line = .ok b') :
    view b' = absorb (view b) line := by
  cases line with
  | mainApp value =>
    obtain rfl := Except.ok.inj h
    rfl
  | unreadable =>
    obtain rfl := Except.ok.inj h
    rfl
  | record recordType v =>
    cases v with
    | obj data => exact view_onRecord h
    | _ =>
      simp only [onLine] at h
      split at h
      · cases h
      · obtain rfl := Except.ok.inj h
        rfl

theorem view_readLines {lines : List HistoryLine} (h : readLines b lines = .ok b') :
    view b' = lines.foldl absorb (view b) := by
  induction lines generalizing b with
  | nil =>
    obtain rfl := Except.ok.inj h
    rfl
  | cons line lines ih =>
    obtain ⟨b₁, hline, hrest⟩ := bind_eq_ok h
    rw [List.foldl_cons, ← view_onLine hline]
    exact ih hrest

theorem absorb_irrelevant {line : HistoryLine} (h : relevant line = false) (v : View) :
    absorb v line = v := by
  cases line with
  | mainApp value => rfl
  | unreadable => rfl
  | record recordType w =>
    cases w with
    | obj data =>
      simp only [relevant, Bool.or_eq_false_iff, decide_eq_false_iff_not] at h
      obtain ⟨⟨hsample, hclosed⟩, hstats⟩ := h
      rw [absorb, if_neg hclosed, if_neg hsample]
      split
      · next htype =>
        rw [htype, decide_eq_true rfl, Bool.true_and] at hstats
        rw [hstats]
        rfl
      · rfl
    | _ => rfl

/-- The other lines may stand anywhere. -/
theorem foldl_absorb_filter (lines : List HistoryLine) (v : View) :
    lines.foldl absorb v = (lines.filter relevant).foldl absorb v := by
  induction lines generalizing v with
  | nil => rfl
  | cons line lines ih =>
    cases hline : relevant line with
    | true => rw [List.foldl_cons, List.filter_cons_of_pos hline, List.foldl_cons, ih]
    | false =>
      rw [List.foldl_cons, absorb_irrelevant hline, ih,
        List.filter_cons_of_neg (by simp [hline])]

end Lines

section Shape

variable {v : View}

theorem absorb_row {row : Dict} (h : isVideo row = true) (v : View) :
    absorb v (.record "stats_value" (.obj row)) = ⟨write v.streams row, v.samples⟩ := by
  have hstats : ("stats_value" : String) ≠ "call_closed" ∧ "stats_value" ≠ "media_sample" := by
    decide
  rw [absorb, if_neg hstats.1, if_neg hstats.2, if_pos rfl, if_pos h]

theorem foldl_table (t : Table) (v : View) :
    t.lines.foldl absorb v = ⟨t.rows.foldl write v.streams, v.samples⟩ := by
  have hrows : ∀ rows : List Dict, (∀ row ∈ rows, isVideo row = true) → ∀ v : View,
      (rows.map fun row => HistoryLine.record "stats_value" (.obj row)).foldl absorb v =
        ⟨rows.foldl write v.streams, v.samples⟩ := by
    intro rows
    induction rows with
    | nil => exact fun _ v => rfl
    | cons row rows ih =>
      intro hvideo v
      obtain ⟨hrow, hvideo⟩ := List.forall_mem_cons.mp hvideo
      rw [List.map_cons, List.foldl_cons, absorb_row hrow, ih hvideo]
      rfl
  exact hrows t.rows (fun row hrow => (t.video row hrow).1) v

theorem foldl_tables (tables : List Table) (v : View) :
    (tables.flatMap Table.lines).foldl absorb v =
      ⟨(rowsOf tables).foldl write v.streams, v.samples⟩ := by
  induction tables generalizing v with
  | nil => rfl
  | cons t tables ih =>
    have hrows : rowsOf (t :: tables) = t.rows ++ rowsOf tables := rfl
    rw [List.flatMap_cons, List.foldl_append, foldl_table, ih, hrows, List.foldl_append]

/-- A reading leaves no stream behind. -/
theorem foldl_reading (r : MediaReading) (v : View) :
    r.lines.foldl absorb v = ⟨[], v.samples ++ [sampleOf r.sample]⟩ := by
  rw [MediaReading.lines, List.foldl_append, foldl_tables]
  rfl

theorem foldl_readings (readings : List MediaReading) (v : View) :
    (readings.flatMap MediaReading.lines).foldl absorb v =
      ⟨if readings = [] then v.streams else [],
        v.samples ++ readings.map fun r => sampleOf r.sample⟩ := by
  induction readings generalizing v with
  | nil =>
    rw [if_pos rfl, List.map_nil, List.append_nil]
    rfl
  | cons r readings ih =>
    rw [List.flatMap_cons, List.foldl_append, foldl_reading, ih, if_neg (List.cons_ne_nil _ _),
      List.map_cons, List.append_assoc]
    cases readings <;> rfl

theorem foldl_history (h : History) :
    h.lines.foldl absorb ⟨[], []⟩ =
      ⟨(rowsOf (if h.readings = [] then h.allTables else h.tables)).foldl write [],
        h.readings.map fun r => sampleOf r.sample⟩ := by
  have hfinal : isFinal h.closing = true := by
    rw [isFinal, h.final]
    rfl
  have hclose (v : View) : absorb v (.record "call_closed" (.obj h.closing)) =
      ⟨if v.samples.isEmpty then v.streams else [], v.samples⟩ := by
    rw [absorb, if_pos rfl, hfinal, Bool.true_and]
    cases v.samples.isEmpty <;> rfl
  rw [History.lines, List.foldl_append, foldl_readings, List.foldl_append, foldl_tables,
    List.foldl_cons, hclose, foldl_tables]
  by_cases hnone : h.readings = []
  · rw [if_pos hnone, if_pos hnone, hnone, History.allTables, rowsOf, rowsOf, rowsOf,
      List.flatMap_append, List.foldl_append]
    rfl
  · have hne : (h.readings.map fun r => sampleOf r.sample).isEmpty = false := by
      simpa using hnone
    rw [if_neg hnone, if_neg hnone, List.nil_append, hne]
    rfl

end Shape

section Streams

variable {streams : List (ℤ × Stream)} {rows : List Dict}

/-- What the rows so far have made of the streams. -/
structure Accurate (rows : List Dict) (streams : List (ℤ × Stream)) : Prop where
  nodup : (keys streams).Nodup
  numbers : ∀ n, n ∈ keys streams ↔ ∃ row ∈ rows, numberOf row = n
  holds : ∀ n s, streams.lookup n = some s → s.streamIndex = n ∧
    Holds s (rows.filter fun row => decide (numberOf row = n))

theorem lookup_putFigure (d : Dict) (name : String) (v : Json) (other : String) :
    (putFigure d name v).lookup other =
      if other = name ∧ v ≠ .null then some v else d.lookup other := by
  cases v with
  | null => simp [putFigure]
  | _ => simp [putFigure, lookup_put]

theorem lastWritten_append (rows : List Dict) (row : Dict) (key name : String) :
    lastWritten (rows ++ [row]) key name =
      if name = nameOf row ∧ field row key ≠ .null then some (field row key)
      else lastWritten rows key name := by
  rw [lastWritten, List.filter_append, List.map_append]
  by_cases h : name = nameOf row ∧ field row key ≠ .null
  · rw [if_pos h, List.filter_cons_of_pos (by simp [h.1, h.2])]
    simp
  · have hskip : [row].filter (fun row => decide (nameOf row = name) &&
        decide (field row key ≠ .null)) = [] := by
      refine List.filter_eq_nil_iff.mpr fun r hr hp => ?_
      obtain rfl := List.mem_singleton.mp hr
      rw [Bool.and_eq_true, decide_eq_true_iff, decide_eq_true_iff] at hp
      exact h ⟨hp.1.symm, hp.2⟩
    rw [if_neg h, hskip, List.map_nil, List.append_nil, lastWritten]

theorem Holds.write {s : Stream} (h : Holds s rows) (row : Dict) :
    Holds { s with
      tx := putFigure s.tx (nameOf row) (field row "tx")
      rx := putFigure s.rx (nameOf row) (field row "rx") } (rows ++ [row]) := by
  intro name
  obtain ⟨htx, hrx⟩ := h name
  rw [lookup_putFigure, lookup_putFigure, lastWritten_append, lastWritten_append, htx, hrx]
  exact ⟨rfl, rfl⟩

theorem Accurate.write (h : Accurate rows streams) (row : Dict) :
    Accurate (rows ++ [row]) (EndOfCallVideo.write streams row) := by
  refine ⟨nodup_keys_put h.nodup _ _, fun n => ?_, fun n s hs => ?_⟩
  · rw [EndOfCallVideo.write, mem_keys_put, h.numbers]
    simp only [List.mem_append, List.mem_singleton]
    constructor
    · rintro (rfl | ⟨r, hr, hn⟩)
      · exact ⟨row, Or.inr rfl, rfl⟩
      · exact ⟨r, Or.inl hr, hn⟩
    · rintro ⟨r, hr | rfl, hn⟩
      · exact Or.inr ⟨r, hr, hn⟩
      · exact Or.inl hn.symm
  · rw [EndOfCallVideo.write, lookup_put] at hs
    rw [List.filter_append]
    split at hs
    · next hn =>
      obtain rfl := Option.some.inj hs
      subst hn
      rw [List.filter_cons_of_pos (by simp), List.filter_nil]
      cases hold : streams.lookup (numberOf row) with
      | some old =>
        obtain ⟨hindex, hholds⟩ := h.holds _ old hold
        exact ⟨hindex, hholds.write row⟩
      | none =>
        have hnone : rows.filter (fun r => decide (numberOf r = numberOf row)) = [] := by
          refine List.filter_eq_nil_iff.mpr fun r hr heq => ?_
          have hmem := (h.numbers (numberOf row)).mpr ⟨r, hr, of_decide_eq_true heq⟩
          rw [mem_keys_iff, hold] at hmem
          cases hmem
        have hempty : Holds ⟨numberOf row, [], []⟩ [] := fun name => ⟨rfl, rfl⟩
        rw [hnone]
        exact ⟨rfl, hempty.write row⟩
    · next hn =>
      rw [List.filter_cons_of_neg (by simpa using Ne.symm hn), List.filter_nil, List.append_nil]
      exact h.holds n s hs

theorem accurate_foldl (rows : List Dict) : Accurate rows (rows.foldl write []) := by
  induction rows using List.reverseRecOn with
  | nil =>
    refine ⟨List.nodup_nil, fun n => ?_, fun n s hs => by cases hs⟩
    simp [keys]
  | append_singleton rows row ih =>
    rw [List.foldl_append]
    exact ih.write row

/-- The streams in the order of their numbers. -/
def inOrder (streams : List (ℤ × Stream)) : List Stream :=
  (streams.mergeSort fun a c => decide (a.1 ≤ c.1)).map Prod.snd

theorem Accurate.index_eq (h : Accurate rows streams) {e : ℤ × Stream} (he : e ∈ streams) :
    e.2.streamIndex = e.1 ∧ Holds e.2 (rows.filter fun row => decide (numberOf row = e.1)) :=
  h.holds e.1 e.2 (lookup_of_mem h.nodup he)

theorem Accurate.sorted (h : Accurate rows streams) :
    (inOrder streams).Pairwise fun s s' => s.streamIndex < s'.streamIndex := by
  have hle : (streams.mergeSort fun a c => decide (a.1 ≤ c.1)).Pairwise
      fun a c => decide (a.1 ≤ c.1) = true :=
    List.pairwise_mergeSort
      (fun a b c hab hbc => decide_eq_true ((of_decide_eq_true hab).trans (of_decide_eq_true hbc)))
      (fun a b => by simpa using le_total a.1 b.1) streams
  have hne : (streams.mergeSort fun a c => decide (a.1 ≤ c.1)).Pairwise
      fun a c => a.1 ≠ c.1 := by
    have hkeys := ((List.mergeSort_perm streams
      fun a c => decide (a.1 ≤ c.1)).map Prod.fst).nodup_iff.mpr h.nodup
    exact List.pairwise_map.mp hkeys
  refine List.pairwise_map.mpr ?_
  refine (hle.and hne).imp_of_mem fun {a c} ha hc hac => ?_
  rw [(h.index_eq (List.mem_mergeSort.mp ha)).1, (h.index_eq (List.mem_mergeSort.mp hc)).1]
  exact lt_of_le_of_ne (of_decide_eq_true hac.1) hac.2

theorem Accurate.mem_inOrder (h : Accurate rows streams) {s : Stream} (hs : s ∈ inOrder streams) :
    s.streamIndex ∈ keys streams ∧
      Holds s (rows.filter fun row => decide (numberOf row = s.streamIndex)) := by
  obtain ⟨e, he, rfl⟩ := List.mem_map.mp hs
  have hmem := List.mem_mergeSort.mp he
  obtain ⟨hindex, hholds⟩ := h.index_eq hmem
  rw [hindex]
  exact ⟨List.mem_map_of_mem hmem, hholds⟩

theorem Accurate.exists_inOrder (h : Accurate rows streams) {n : ℤ} (hn : n ∈ keys streams) :
    ∃ s ∈ inOrder streams, s.streamIndex = n := by
  obtain ⟨e, he, rfl⟩ := List.mem_map.mp hn
  exact ⟨e.2, List.mem_map_of_mem (List.mem_mergeSort.mpr he), (h.index_eq he).1⟩

theorem numbers_rowsOf (tables : List Table) (n : ℤ) :
    (∃ row ∈ rowsOf tables, numberOf row = n) ↔ ∃ t ∈ tables, t.index = n := by
  constructor
  · rintro ⟨row, hrow, hn⟩
    obtain ⟨t, ht, hmem⟩ := List.mem_flatMap.mp hrow
    exact ⟨t, ht, (t.video row hmem).2.symm.trans hn⟩
  · rintro ⟨t, ht, hn⟩
    obtain ⟨row, hrow⟩ := List.exists_mem_of_ne_nil t.rows t.nonempty
    exact ⟨row, List.mem_flatMap.mpr ⟨t, ht, hrow⟩, (t.video row hrow).2.trans hn⟩

theorem ownNumbers_inOrder (tables : List Table) :
    OwnNumbers tables (inOrder ((rowsOf tables).foldl write [])) := by
  have haccurate := accurate_foldl (rowsOf tables)
  refine ⟨haccurate.sorted, fun n => ?_, fun s hs => (haccurate.mem_inOrder hs).2⟩
  rw [← numbers_rowsOf, ← haccurate.numbers]
  constructor
  · rintro ⟨s, hs, rfl⟩
    exact (haccurate.mem_inOrder hs).1
  · exact haccurate.exists_inOrder

/-- The rows of a number are those of its table. -/
theorem filter_rowsOf {tables : List Table}
    (hlt : tables.Pairwise fun t t' => t.index < t'.index) {t : Table} (ht : t ∈ tables) :
    (rowsOf tables).filter (fun row => decide (numberOf row = t.index)) = t.rows := by
  induction tables with
  | nil => cases ht
  | cons u tables ih =>
    obtain ⟨hfirst, hlt⟩ := List.pairwise_cons.mp hlt
    have hrows : rowsOf (u :: tables) = u.rows ++ rowsOf tables := rfl
    rw [hrows, List.filter_append]
    rcases List.mem_cons.mp ht with rfl | ht
    · have hall : t.rows.filter (fun row => decide (numberOf row = t.index)) = t.rows :=
        List.filter_eq_self.mpr fun row hrow => decide_eq_true (t.video row hrow).2
      have hnone : (rowsOf tables).filter (fun row => decide (numberOf row = t.index)) = [] := by
        refine List.filter_eq_nil_iff.mpr fun row hrow heq => ?_
        obtain ⟨t', ht', hn⟩ :=
          (numbers_rowsOf tables t.index).mp ⟨row, hrow, of_decide_eq_true heq⟩
        exact (hfirst t' ht').ne hn.symm
      rw [hall, hnone, List.append_nil]
    · have hnone : u.rows.filter (fun row => decide (numberOf row = t.index)) = [] := by
        refine List.filter_eq_nil_iff.mpr fun row hrow heq => ?_
        exact (hfirst t ht).ne ((u.video row hrow).2.symm.trans (of_decide_eq_true heq))
      rw [hnone, List.nil_append, ih hlt ht]

/-- With increasing numbers, the streams in order are the tables one by one. -/
theorem forall₂_inOrder {tables : List Table}
    (hlt : tables.Pairwise fun t t' => t.index < t'.index) :
    List.Forall₂ (fun s t => Holds s t.rows) (inOrder ((rowsOf tables).foldl write [])) tables := by
  have hown := ownNumbers_inOrder tables
  have hindices : (inOrder ((rowsOf tables).foldl write [])).map Stream.streamIndex =
      tables.map Table.index := by
    refine (List.pairwise_map.mpr hown.sorted).eq_of_mem_iff (List.pairwise_map.mpr hlt)
      fun n => ?_
    rw [List.mem_map, List.mem_map]
    exact hown.numbers n
  have hlength : (inOrder ((rowsOf tables).foldl write [])).length = tables.length := by
    simpa using congrArg List.length hindices
  refine List.forall₂_iff_get.mpr ⟨hlength, fun i hi hi' => ?_⟩
  have hindex : ((inOrder ((rowsOf tables).foldl write [])).get ⟨i, hi⟩).streamIndex =
      (tables.get ⟨i, hi'⟩).index := by
    simpa [hi, hi'] using congrArg (fun l : List ℤ => l[i]?) hindices
  have hholds := hown.holds _ (List.get_mem _ ⟨i, hi⟩)
  rw [hindex, filter_rowsOf hlt (List.get_mem _ _)] at hholds
  exact hholds

/-- Numbering anew keeps the figures. -/
theorem renumbered_zipIdx {tables : List Table} {sorted : List Stream}
    (h : List.Forall₂ (fun s t => Holds s t.rows) sorted tables) :
    Renumbered tables (sorted.zipIdx.map fun e => { e.1 with streamIndex := (e.2 : ℤ) }) := by
  constructor
  · rw [List.map_map, ← h.length_eq, List.range_eq_range', ← List.zipIdx_map_snd 0 sorted,
      List.map_map]
    rfl
  · refine List.forall₂_iff_get.mpr ⟨by simpa using h.length_eq, fun i hi hi' => ?_⟩
    have hi'' : i < sorted.length := by simpa using hi
    have hget := h.get hi'' hi'
    intro name
    simpa using hget name

end Streams

section Total

variable {env : Environment} {b b' : Building} {data : Dict}

/-- A text, or a value that the builder takes for none. -/
def TextOrFalsy (v : Json) : Prop := truthy v = true → ∃ s, v = .str s

/-- The fields whose values are stripped. -/
def textFields : String → List String
  | "call_start" => ["url"]
  | "encoder" => ["media", "value"]
  | "room" => ["value"]
  | "browsing" => ["value"]
  | "destination" => ["destinationURI", "destinationDomain"]
  | "call_closed" => ["lastEventType", "peerDisplayName", "sourceURI", "destinationURI"]
  | "dtmf" => ["input"]
  | "stats_value" => ["media", "field"]
  | _ => []

/-- A record the builder knows is an object whose texts are texts, and the URL of the start of a
call can be split. -/
def WellTyped (env : Environment) : HistoryLine → Prop
  | .record recordType v => recordType ∈ recordTypes →
    ∃ data, v = .obj data ∧ (∀ key ∈ textFields recordType, TextOrFalsy (field data key)) ∧
      (recordType = "call_start" → env.Splits (field data "url"))
  | _ => True

theorem TextOrFalsy.stripped {v : Json} (h : TextOrFalsy v) : ∃ s, stripped v = .ok s := by
  by_cases hv : truthy v = true
  · obtain ⟨s, rfl⟩ := h hv
    exact ⟨strip s, by rw [HistoryPayload.stripped, if_pos hv]⟩
  · exact ⟨"", if_neg hv⟩

theorem TextOrFalsy.orElse {v w : Json} (hv : TextOrFalsy v) (hw : TextOrFalsy w) :
    TextOrFalsy (orElse v w) := by
  rw [HistoryPayload.orElse]
  split
  · exact hv
  · exact hw

theorem textOrFalsy_str (s : String) : TextOrFalsy (.str s) := fun _ => ⟨s, rfl⟩

theorem TextOrFalsy.uriField {key : String} (h : TextOrFalsy (field data key)) (before : String) :
    ∃ uri, uriField data key before = .ok uri := by
  by_cases hv : truthy (field data key) = true
  · obtain ⟨s, hs⟩ := h hv
    exact ⟨normalizeSipUri s, by rw [HistoryPayload.uriField, if_pos hv, hs]⟩
  · exact ⟨before, by rw [HistoryPayload.uriField, if_neg hv]⟩

theorem onCallClosed_total
    (h : ∀ key ∈ textFields "call_closed", TextOrFalsy (field data key)) :
    ∃ b', onCallClosed b data = .ok b' := by
  have hfield : ∀ key ∈ ["lastEventType", "peerDisplayName", "sourceURI", "destinationURI"],
    TextOrFalsy (field data key) := h
  obtain ⟨eventType, htype⟩ := (hfield "lastEventType" (by decide)).stripped
  obtain ⟨peerDisplay, hpeer⟩ :=
    ((hfield "peerDisplayName" (by decide)).orElse (textOrFalsy_str b.peerDisplay)).stripped
  obtain ⟨sourceUri, hsource⟩ := (hfield "sourceURI" (by decide)).uriField b.sourceUri
  obtain ⟨destinationUri, hdestination⟩ :=
    (hfield "destinationURI" (by decide)).uriField b.destinationUriRaw
  rw [onCallClosed, htype]
  dsimp only [bind, Except.bind]
  split
  · exact ⟨_, rfl⟩
  · rw [hpeer, hsource, hdestination]
    exact ⟨_, rfl⟩

theorem onEncoder_total (h : ∀ key ∈ textFields "encoder", TextOrFalsy (field data key)) :
    ∃ b', onEncoder b data = .ok b' := by
  have hfield : ∀ key ∈ ["media", "value"], TextOrFalsy (field data key) := h
  obtain ⟨media, hmedia⟩ := (hfield "media" (by decide)).stripped
  obtain ⟨value, hvalue⟩ := (hfield "value" (by decide)).stripped
  rw [onEncoder, hmedia, hvalue]
  dsimp only [bind, Except.bind]
  split
  · exact ⟨_, rfl⟩
  split
  · exact ⟨_, rfl⟩
  · exact ⟨_, rfl⟩

theorem onDestination_total
    (h : ∀ key ∈ textFields "destination", TextOrFalsy (field data key)) :
    ∃ b', onDestination b data = .ok b' := by
  have hfield : ∀ key ∈ ["destinationURI", "destinationDomain"],
    TextOrFalsy (field data key) := h
  obtain ⟨uri, huri⟩ := (hfield "destinationURI" (by decide)).stripped
  obtain ⟨domain, hdomain⟩ := (hfield "destinationDomain" (by decide)).stripped
  rw [onDestination, huri, hdomain]
  exact ⟨_, rfl⟩

theorem onDtmf_total (h : ∀ key ∈ textFields "dtmf", TextOrFalsy (field data key)) :
    ∃ b', onDtmf b data = .ok b' := by
  have hfield : ∀ key ∈ ["input"], TextOrFalsy (field data key) := h
  obtain ⟨input, hinput⟩ := (hfield "input" (by decide)).stripped
  rw [onDtmf, hinput]
  dsimp only [bind, Except.bind]
  split
  · exact ⟨_, rfl⟩
  · exact ⟨_, rfl⟩

theorem onStatsValue_total
    (h : ∀ key ∈ textFields "stats_value", TextOrFalsy (field data key)) :
    ∃ b', onStatsValue b data = .ok b' := by
  have hfield : ∀ key ∈ ["media", "field"], TextOrFalsy (field data key) := h
  obtain ⟨media, hmedia⟩ := (hfield "media" (by decide)).stripped
  obtain ⟨name, hname⟩ := (hfield "field" (by decide)).stripped
  rw [onStatsValue, hmedia, hname]
  dsimp only [bind, Except.bind]
  split
  · exact ⟨_, rfl⟩
  split
  · exact ⟨_, rfl⟩
  split
  · exact ⟨_, rfl⟩
  · exact ⟨_, rfl⟩

theorem onRecord_total {recordType : String}
    (h : ∀ key ∈ textFields recordType, TextOrFalsy (field data key)) :
    ∃ b', onRecord b recordType data = .ok b' := by
  rw [onRecord]
  by_cases hstart : recordType = "call_start"
  · rw [if_pos hstart]
    exact ⟨_, rfl⟩
  rw [if_neg hstart]
  by_cases hend : recordType = "call_end"
  · rw [if_pos hend]
    exact ⟨_, rfl⟩
  rw [if_neg hend]
  by_cases hencoder : recordType = "encoder"
  · rw [if_pos hencoder]
    subst hencoder
    exact onEncoder_total h
  rw [if_neg hencoder]
  by_cases hroom : recordType = "room"
  · rw [if_pos hroom]
    subst hroom
    have hfield : ∀ key ∈ ["value"], TextOrFalsy (field data key) := h
    obtain ⟨value, hvalue⟩ := (hfield "value" (by decide)).stripped
    rw [onRoom, hvalue]
    exact ⟨_, rfl⟩
  rw [if_neg hroom]
  by_cases hbrowsing : recordType = "browsing"
  · rw [if_pos hbrowsing]
    subst hbrowsing
    have hfield : ∀ key ∈ ["value"], TextOrFalsy (field data key) := h
    obtain ⟨value, hvalue⟩ := (hfield "value" (by decide)).stripped
    rw [onBrowsing, hvalue]
    exact ⟨_, rfl⟩
  rw [if_neg hbrowsing]
  by_cases hdestination : recordType = "destination"
  · rw [if_pos hdestination]
    subst hdestination
    exact onDestination_total h
  rw [if_neg hdestination]
  by_cases hclosed : recordType = "call_closed"
  · rw [if_pos hclosed]
    subst hclosed
    exact onCallClosed_total h
  rw [if_neg hclosed]
  by_cases hdtmf : recordType = "dtmf"
  · rw [if_pos hdtmf]
    subst hdtmf
    exact onDtmf_total h
  rw [if_neg hdtmf]
  by_cases hsample : recordType = "media_sample"
  · rw [if_pos hsample]
    exact ⟨_, rfl⟩
  rw [if_neg hsample]
  by_cases hstats : recordType = "stats_value"
  · rw [if_pos hstats]
    subst hstats
    exact onStatsValue_total h
  rw [if_neg hstats]
  exact ⟨b, rfl⟩

/-- A line the builder takes leaves a URL that can be stripped. -/
theorem onLine_total {line : HistoryLine} (h : WellTyped env line) (hurl : TextOrFalsy b.callUrl)
    (hsplit : env.Splits b.callUrl) :
    ∃ b', onLine b line = .ok b' ∧ TextOrFalsy b'.callUrl ∧ env.Splits b'.callUrl := by
  have hline : ∃ b', onLine b line = .ok b' := by
    cases line with
    | mainApp value => exact ⟨_, rfl⟩
    | unreadable => exact ⟨_, rfl⟩
    | record recordType v =>
      by_cases hknown : recordType ∈ recordTypes
      · obtain ⟨data, rfl, hfields, -⟩ := h hknown
        exact onRecord_total hfields
      · refine ⟨b, ?_⟩
        cases v with
        | obj data =>
          simp only [recordTypes, List.mem_cons, List.not_mem_nil, or_false, not_or] at hknown
          simp only [onLine, onRecord, hknown, if_false]
        | _ => exact if_neg hknown
  obtain ⟨b', hok⟩ := hline
  refine ⟨b', hok, ?_⟩
  rcases onLine_cases hok with ⟨data, rfl, rfl⟩ | ⟨data, rfl, rfl⟩ | ⟨-, haside⟩
  · obtain ⟨data', hdata, hfields, hstart⟩ := h (by decide)
    obtain rfl := Json.obj.inj hdata
    have hfield : ∀ key ∈ ["url"], TextOrFalsy (field data key) := hfields
    refine ⟨(hfield "url" (by decide)).orElse hurl, ?_⟩
    change env.Splits (orElse (field data "url") b.callUrl)
    rw [orElse]
    split
    · exact hstart rfl
    · exact hsplit
  · exact ⟨hurl, hsplit⟩
  · rw [haside.callUrl]
    exact ⟨hurl, hsplit⟩

theorem readLines_total {lines : List HistoryLine} (h : ∀ line ∈ lines, WellTyped env line)
    (hurl : TextOrFalsy b.callUrl) (hsplit : env.Splits b.callUrl) :
    ∃ b', readLines b lines = .ok b' ∧ TextOrFalsy b'.callUrl ∧ env.Splits b'.callUrl := by
  induction lines generalizing b with
  | nil => exact ⟨b, rfl, hurl, hsplit⟩
  | cons line lines ih =>
    obtain ⟨hline, hrest⟩ := List.forall_mem_cons.mp h
    obtain ⟨b₁, hok, hurl₁, hsplit₁⟩ := onLine_total hline hurl hsplit
    obtain ⟨b', hok', hafter⟩ := ih hrest hurl₁ hsplit₁
    refine ⟨b', ?_, hafter⟩
    rw [readLines, hok]
    exact hok'

theorem urlDetails_total {v : Json} (h : TextOrFalsy v) (hsplit : env.Splits v) :
    ∃ names, urlDetails env v = .ok names := by
  by_cases hv : truthy v = true
  · obtain ⟨s, rfl⟩ := h hv
    have hstripped : HistoryPayload.stripped (.str s) = .ok (strip s) := if_pos hv
    rw [urlDetails, hstripped]
    dsimp only [bind, Except.bind]
    rw [hsplit s rfl]
    exact ⟨_, rfl⟩
  · have hstripped : HistoryPayload.stripped v = .ok "" := if_neg hv
    rw [urlDetails, hstripped]
    exact ⟨_, rfl⟩

theorem buildPayload_total (env : Environment) {lines : List HistoryLine}
    (h : ∀ line ∈ lines, WellTyped env line) :
    ∃ call, buildPayloadFromLines env lines = .ok call := by
  have hstart : env.Splits Building.start.callUrl := by
    intro s hs
    obtain rfl := Json.str.inj hs
    rfl
  obtain ⟨b, hread, hurl, hsplit⟩ := readLines_total h (textOrFalsy_str "") hstart
  obtain ⟨names, hnames⟩ := urlDetails_total hurl hsplit
  rw [buildPayloadFromLines, hread]
  dsimp only [bind, Except.bind]
  rw [hnames]
  exact ⟨_, rfl⟩

end Total

theorem block_streams (h : History) {b : Building}
    (hview : view b = h.lines.foldl absorb ⟨[], []⟩) : h.Block b.streams := by
  rw [foldl_history] at hview
  obtain ⟨hstreams, hsamples⟩ := View.mk.inj hview
  have hinOrder : (b.media.videoStreams.mergeSort fun a c => decide (a.1 ≤ c.1)).map Prod.snd =
      inOrder b.media.videoStreams := rfl
  have hempty : b.mediaSamples.isEmpty = decide (h.readings = []) := by
    rw [hsamples]
    cases h.readings <;> rfl
  rw [Building.streams, hinOrder, hempty, hstreams, History.Block]
  by_cases hnone : h.readings = []
  · rw [if_pos hnone, if_pos hnone, decide_eq_true hnone]
    exact ownNumbers_inOrder h.allTables
  · rw [if_neg hnone, if_neg hnone, decide_eq_false hnone]
    exact renumbered_zipIdx (forall₂_inOrder h.increasing)

/-- The video block is that of the tables after the last reading; the readings are kept in
order. A history whose texts are texts is read. -/
theorem video_block (env : Environment) (h : History) (lines : List HistoryLine)
    (hlines : lines.filter relevant = h.lines) :
    ((∀ line ∈ lines, WellTyped env line) → ∃ call, buildPayloadFromLines env lines = .ok call) ∧
    ∀ call, buildPayloadFromLines env lines = .ok call → ∃ audio out,
      field call "mediaStats" = .obj [("audio", audio),
        ("video", .arr (out.map fun s => .obj s.json)),
        ("samples", .arr (h.readings.map fun r => sampleOf r.sample))] ∧
      h.Block out := by
  refine ⟨buildPayload_total env, fun call hcall => ?_⟩
  obtain ⟨b, hread, hcall⟩ := bind_eq_ok hcall
  obtain ⟨names, -, hcall⟩ := bind_eq_ok hcall
  obtain rfl := Except.ok.inj hcall
  have hview : view b = h.lines.foldl absorb ⟨[], []⟩ := by
    rw [view_readLines hread, foldl_absorb_filter, hlines]
    rfl
  have hsamples : b.mediaSamples = h.readings.map fun r => sampleOf r.sample := by
    rw [foldl_history] at hview
    exact (View.mk.inj hview).2
  rw [← hsamples]
  exact ⟨_, b.streams, rfl, block_streams h hview⟩

def bareBuilder : Environment where
  py := IngestMapping.oneDate
  unquote := String.ofList
  bracketedHost _ := true
  composedHost _ := true
  gatewayVersions := []

def figureRow (n tx rx : ℤ) : Dict :=
  [("media", .str "video"), ("streamIndex", .int n), ("field", .str "packets"), ("tx", .int tx),
   ("rx", .int rx)]

theorem figureRow_video (n tx rx : ℤ) :
    ∀ row ∈ [figureRow n tx rx], isVideo row = true ∧ numberOf row = n := by
  intro row hrow
  obtain rfl := List.mem_singleton.mp hrow
  exact ⟨rfl, rfl⟩

theorem wellTyped_figureRow (n tx rx : ℤ) :
    WellTyped bareBuilder (.record "stats_value" (.obj (figureRow n tx rx))) := by
  refine fun _ => ⟨_, rfl, fun key hkey => ?_, fun hstart => absurd hstart (by decide)⟩
  have hkey : key ∈ ["media", "field"] := hkey
  rcases List.mem_pair.mp hkey with rfl | rfl
  · exact textOrFalsy_str "video"
  · exact textOrFalsy_str "packets"

def oneRow (n tx rx : ℤ) : Table where
  index := n
  rows := [figureRow n tx rx]
  nonempty := List.cons_ne_nil _ _
  video := figureRow_video n tx rx

/-- One reading, a second one cut short by the hang-up, and the two tables of the call. -/
def cutCall : History where
  readings := [⟨[oneRow 1 100 100, oneRow 2 10 0], [("seconds", .int 10), ("video", .obj [])]⟩]
  cut := [oneRow 3 999 999, oneRow 4 9 0]
  closing := [("lastEventType", .str "CALL_CLOSED"), ("callId", .str "abc")]
  tables := [oneRow 5 7164 7333, oneRow 6 41 0]
  final := rfl
  increasing := List.pairwise_pair.mpr (by decide : (5 : ℤ) < 6)

def cutCallLines : List HistoryLine :=
  .mainApp "webrtc" :: (cutCall.lines ++
    [.record "call_end" (.obj [("raw", .str "08:20:48")])])

theorem cut_reading_dropped : ∃ call audio out,
    buildPayloadFromLines bareBuilder cutCallLines = .ok call ∧
    field call "mediaStats" = .obj [("audio", audio),
      ("video", .arr (out.map fun s => .obj s.json)),
      ("samples", .arr (cutCall.readings.map fun r => sampleOf r.sample))] ∧
    cutCall.Block out := by
  have hlines : cutCallLines.filter relevant = cutCall.lines := rfl
  obtain ⟨htotal, hblock⟩ := video_block bareBuilder cutCall cutCallLines hlines
  have htyped : ∀ line ∈ cutCallLines, WellTyped bareBuilder line := by
    have hsample : WellTyped bareBuilder (.record "media_sample"
        (.obj [("seconds", .int 10), ("video", .obj [])])) :=
      fun _ => ⟨_, rfl, (fun key hkey => nomatch hkey), fun hstart => absurd hstart (by decide)⟩
    have hclosed : WellTyped bareBuilder (.record "call_closed" (.obj cutCall.closing)) := by
      refine fun _ => ⟨_, rfl, fun key hkey => ?_, fun hstart => absurd hstart (by decide)⟩
      by_cases hevent : key = "lastEventType"
      · subst hevent
        exact textOrFalsy_str "CALL_CLOSED"
      · have hkey : key ∈ ["peerDisplayName", "sourceURI", "destinationURI"] :=
          (List.mem_cons.mp hkey).resolve_left hevent
        fin_cases hkey <;> exact fun htruthy => nomatch htruthy
    have hend : WellTyped bareBuilder (.record "call_end" (.obj [("raw", .str "08:20:48")])) :=
      fun _ => ⟨_, rfl, (fun key hkey => nomatch hkey), fun hstart => absurd hstart (by decide)⟩
    intro line hline
    rcases List.mem_cons.mp hline with rfl | hline
    · trivial
    rcases List.mem_append.mp hline with hline | hline
    · fin_cases hline
      · exact wellTyped_figureRow 1 100 100
      · exact wellTyped_figureRow 2 10 0
      · exact hsample
      · exact wellTyped_figureRow 3 999 999
      · exact wellTyped_figureRow 4 9 0
      · exact hclosed
      · exact wellTyped_figureRow 5 7164 7333
      · exact wellTyped_figureRow 6 41 0
    · obtain rfl := List.mem_singleton.mp hline
      exact hend
  obtain ⟨call, hcall⟩ := htotal htyped
  obtain ⟨audio, out, hstats, hout⟩ := hblock call hcall
  exact ⟨call, audio, out, hcall, hstats, hout⟩

end EndOfCallVideo
