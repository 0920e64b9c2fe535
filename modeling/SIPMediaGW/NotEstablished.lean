import SIPMediaGW.OrderedQuery
import SIPMediaGW.OutcomeRecompute

/-! # The calls that never came up

The step of the backfill that dates the calls stored without a start by their reception, and keeps
the first push of each. -/
namespace NotEstablished

open CallsTable
open IngestMapping
open OrderedQuery
open OutcomeRecompute
open PartialUniqueIndex

structure Database where
  tables : Tables
  whitelist : Whitelist
  log : List RecomputeLog

/-- What the step leaves and returns. -/
structure Marking where
  database : Database
  marked : List ℕ
  replays : List ℕ
  moved : ℕ

/-- A Call-ID and no start. -/
def undated (r : StoredCall) : Bool := r.call.callId.isSome && r.call.callStart.isNone

/-- An undated call of the same Call-ID was stored before. -/
def isReplay (rows : List StoredCall) (r : StoredCall) : Bool :=
  undated r && rows.any fun o =>
    decide (o.call.callId = r.call.callId ∧ o.call.callStart = none ∧ o.id < r.id)

/-- `SET established = false, call_start = received_at`. -/
def mark (r : StoredCall) : StoredCall :=
  { r with established := false, call := { r.call with callStart := some r.receivedAt } }

theorem index_recomputeRow (whitelist : Whitelist) :
    ∀ index ∈ replayIndexes, ∀ r, index (recomputeRow whitelist r) = index r := by
  intro index hindex r
  simp only [replayIndexes, List.mem_cons, List.not_mem_nil, or_false] at hindex
  rw [recomputeRow]
  rcases hindex with rfl | rfl
  · dsimp only
    split <;> rfl
  · dsimp only
    split <;> rfl

/-- `notEstablished`: nothing when an index refuses a row, and the transaction is aborted. -/
def notEstablished (db : Database) : Option Marking :=
  let rows := db.tables.calls.rows
  let replays := (rows.filter (isReplay rows)).map StoredCall.id
  let kept := db.tables.calls.deleteWhere (isReplay rows)
  (kept.updateWhere undated mark).map fun calls =>
    let ledger := recomputeOutcomes ⟨db.whitelist, calls.rows, db.log⟩
    { database :=
        { tables :=
            { calls := calls.mapRows (recomputeRow db.whitelist) (index_recomputeRow db.whitelist)
              media := db.tables.media.deleteWhere fun m => decide (m.callPk ∈ replays)
              nextId := db.tables.nextId }
          whitelist := db.whitelist
          log := ledger.log }
      marked := (kept.rows.filter undated).map StoredCall.id
      replays := replays
      moved := (ledger.log.getLast?.map RecomputeLog.rowsMoved).getD 0 }

/-- What the step owes the calls. -/
structure Completes (db : Database) (m : Marking) : Prop where
  once : m.database.tables.calls.rows.Pairwise fun a b =>
    a.established = false → b.established = false → a.call.callId.isSome = true →
      a.call.callId ≠ b.call.callId
  kept : ∀ r ∈ db.tables.calls.rows, (∀ o ∈ m.database.tables.calls.rows, o.id ≠ r.id) →
    r.call.callId.isSome = true ∧
      ∃ o ∈ m.database.tables.calls.rows, o.call.callId = r.call.callId ∧ o.established = false
  again : ∃ m', notEstablished m.database = some m' ∧ m'.marked = [] ∧ m'.replays = []

/-- No call with a start stands in the way of the first undated call of its Call-ID: none that is
not established, and none that starts when this one was received. -/
def Clear (rows : List StoredCall) : Prop :=
  ∀ r ∈ rows, undated r = true →
    (∀ o ∈ rows, o.call.callId = r.call.callId → o.call.callStart = none → r.id ≤ o.id) →
    ∀ o ∈ rows, o.call.callId = r.call.callId → o.call.callStart ≠ none →
      o.established = true ∧ o.call.callStart ≠ some r.receivedAt

instance (rows : List StoredCall) : Decidable (Clear rows) :=
  inferInstanceAs (Decidable (∀ r ∈ rows, _))

section Rows

variable {rows : List StoredCall} {a b r : StoredCall}

/-- Calls of one Call-ID stand together with different starts, one of them established. -/
theorem coexist_iff : Coexist replayIndexes a b ↔
    (a.call.callId.isSome = true → a.call.callId = b.call.callId →
      (a.call.callStart.isSome = true → a.call.callStart ≠ b.call.callStart) ∧
      (a.established = false → b.established = true)) := by
  simp only [Coexist, replayIndexes, List.forall_mem_cons, clashes_eq_false_iff]
  constructor
  · rintro ⟨hstart, hmarked, -⟩ hid heq
    obtain ⟨callId, hcallId⟩ := Option.isSome_iff_exists.mp hid
    rw [← heq, hcallId] at hstart hmarked
    constructor
    · intro hdated hsame
      obtain ⟨start, hs⟩ := Option.isSome_iff_exists.mp hdated
      apply hstart (callId, some start)
      · rw [hs]; rfl
      · rw [← hsame, hs]; rfl
    · intro ha
      by_contra hb
      apply hmarked (callId, none)
      · rw [ha]; rfl
      · rw [Bool.eq_false_iff.mpr hb]; rfl
  · intro h
    refine ⟨?_, ?_, ?_⟩
    · intro k ha hb
      obtain ⟨callId, hcallId, hstart⟩ := Option.bind_eq_some_iff.mp ha
      obtain ⟨callId', hcallId', hstart'⟩ := Option.bind_eq_some_iff.mp hb
      obtain ⟨start, hs, rfl⟩ := Option.map_eq_some_iff.mp hstart
      obtain ⟨start', hs', hk⟩ := Option.map_eq_some_iff.mp hstart'
      cases hk
      have hother := (h (by rw [hcallId]; rfl) (hcallId.trans hcallId'.symm)).1
      exact hother (by rw [hs]; rfl) (hs.trans hs'.symm)
    · intro k ha hb
      split at ha
      · cases ha
      · next hnot =>
        split at hb
        · cases hb
        · next hnot' =>
          obtain ⟨callId, hcallId, rfl⟩ := Option.map_eq_some_iff.mp ha
          obtain ⟨callId', hcallId', hk⟩ := Option.map_eq_some_iff.mp hb
          cases hk
          have hother := (h (by rw [hcallId]; rfl) (hcallId.trans hcallId'.symm)).2
          exact hnot' (hother (Bool.eq_false_iff.mpr hnot))
    · intro index hindex
      exact absurd hindex List.not_mem_nil

theorem coexist_of_callId (h : a.call.callId ≠ b.call.callId) : Coexist replayIndexes a b :=
  coexist_iff.mpr fun _ heq => absurd heq h

theorem coexist_mark_iff (hr : undated r = true) : Coexist replayIndexes b (mark r) ↔
    (b.call.callId = r.call.callId →
      b.established = true ∧ b.call.callStart ≠ some r.receivedAt) := by
  have hid : r.call.callId.isSome = true := (Bool.and_eq_true_iff.mp hr).1
  rw [coexist_iff]
  constructor
  · intro h heq
    obtain ⟨hstart, hmarked⟩ := h (heq ▸ hid) heq
    constructor
    · by_contra hb
      exact Bool.false_ne_true (hmarked (Bool.eq_false_iff.mpr hb))
    · intro hsame
      exact hstart (by rw [hsame]; rfl) hsame
  · intro h _ heq
    obtain ⟨hestablished, hstart⟩ := h heq
    refine ⟨fun _ => hstart, fun hb => ?_⟩
    rw [hestablished] at hb
    cases hb

/-- The calls that are no replay. -/
def keptRows (rows : List StoredCall) : List StoredCall := rows.filter fun r => ! isReplay rows r

/-- No undated call of the same Call-ID comes before. -/
def IsFirst (rows : List StoredCall) (r : StoredCall) : Prop :=
  ∀ o ∈ rows, o.call.callId = r.call.callId → o.call.callStart = none → r.id ≤ o.id

theorem isReplay_eq_false_iff :
    isReplay rows r = false ↔ (undated r = true → IsFirst rows r) := by
  rw [isReplay, Bool.and_eq_false_imp]
  apply imp_congr_right
  intro _
  simp only [IsFirst, List.any_eq_false, decide_eq_true_eq, not_and, not_lt]

theorem mem_keptRows_iff :
    r ∈ keptRows rows ↔ r ∈ rows ∧ (undated r = true → IsFirst rows r) := by
  rw [keptRows, List.mem_filter, Bool.not_eq_true', isReplay_eq_false_iff]

theorem undated_congr (hid : a.call.callId = b.call.callId)
    (hstart : a.call.callStart = b.call.callStart) : undated a = undated b := by
  rw [undated, undated, hid, hstart]

theorem callStart_of_undated (h : undated r = true) : r.call.callStart = none :=
  Option.isNone_iff_eq_none.mp (Bool.and_eq_true_iff.mp h).2

/-- Of each Call-ID one undated call is kept. -/
theorem pairwise_keptRows (hids : (rows.map StoredCall.id).Nodup) :
    (keptRows rows).Pairwise fun a b =>
      undated a = true → undated b = true → a.call.callId ≠ b.call.callId := by
  have hne : (keptRows rows).Pairwise fun a b => a.id ≠ b.id :=
    (List.pairwise_map.mp hids).filter _
  apply hne.imp_of_mem
  intro a b ha hb hab hundated hundated' heq
  obtain ⟨hmem, hfirst⟩ := mem_keptRows_iff.mp ha
  obtain ⟨hmem', hfirst'⟩ := mem_keptRows_iff.mp hb
  have hle := hfirst hundated b hmem' heq.symm (callStart_of_undated hundated')
  have hge := hfirst' hundated' a hmem heq (callStart_of_undated hundated)
  exact hab (le_antisymm hle hge)

/-- The update goes through on the calls that are clear. -/
theorem updateFrom_keptRows_iff (hids : (rows.map StoredCall.id).Nodup) :
    (updateFrom replayIndexes undated mark [] (keptRows rows)).isSome = true ↔ Clear rows := by
  rw [updateFrom_isSome_iff]
  · constructor
    · intro h r hr hundated hfirst o ho heq hdated
      have hkept := mem_keptRows_iff.mpr ⟨hr, fun _ => hfirst⟩
      have hnot : undated o = false := by
        rw [undated, Option.isNone_eq_false_iff.mpr (Option.isSome_iff_ne_none.mpr hdated),
          Bool.and_false]
      have hother : o ∈ keptRows rows := by
        refine mem_keptRows_iff.mpr ⟨ho, fun hundated' => ?_⟩
        rw [hnot] at hundated'
        cases hundated'
      exact (coexist_mark_iff hundated).mp ((h r hkept hundated).2 o hother hnot) heq
    · intro h r hr hundated
      obtain ⟨hmem, hfirst⟩ := mem_keptRows_iff.mp hr
      refine ⟨fun b hb => absurd hb List.not_mem_nil, fun o ho hnot => ?_⟩
      apply (coexist_mark_iff hundated).mpr
      intro heq
      have hid : o.call.callId.isSome = true := by
        rw [heq]
        exact (Bool.and_eq_true_iff.mp hundated).1
      apply h r hmem hundated (hfirst hundated) o (mem_keptRows_iff.mp ho).1 heq
      intro hnone
      rw [undated, hid, hnone] at hnot
      cases hnot
  · apply (pairwise_keptRows hids).imp
    intro a b hne ha hb
    have hids' := hne ha hb
    exact ⟨coexist_of_callId (Ne.symm hids'), coexist_of_callId hids'⟩

end Rows

section Step

variable {db : Database} {m : Marking}

/-- The row that the step leaves of a call that it keeps. -/
def finalRow (whitelist : Whitelist) (r : StoredCall) : StoredCall :=
  recomputeRow whitelist (if undated r then mark r else r)

theorem recomputeRow_keys (whitelist : Whitelist) (r : StoredCall) :
    (recomputeRow whitelist r).id = r.id ∧
      (recomputeRow whitelist r).call.callId = r.call.callId ∧
      (recomputeRow whitelist r).call.callStart = r.call.callStart ∧
      (recomputeRow whitelist r).established = r.established := by
  rw [recomputeRow]
  dsimp only
  split
  · exact ⟨rfl, rfl, rfl, rfl⟩
  · exact ⟨rfl, rfl, rfl, rfl⟩

theorem finalRow_keys (whitelist : Whitelist) (r : StoredCall) :
    (finalRow whitelist r).id = r.id ∧ (finalRow whitelist r).call.callId = r.call.callId ∧
      undated (finalRow whitelist r) = false ∧
      (undated r = true → (finalRow whitelist r).established = false) := by
  obtain ⟨hid, hcallId, hstart, hestablished⟩ :=
    recomputeRow_keys whitelist (if undated r then mark r else r)
  have hundated : undated (recomputeRow whitelist (if undated r then mark r else r)) =
      undated (if undated r then mark r else r) := undated_congr hcallId hstart
  rw [finalRow, hid, hcallId, hestablished, hundated]
  cases h : undated r with
  | false => exact ⟨rfl, rfl, h, fun hundated => absurd hundated Bool.false_ne_true⟩
  | true => exact ⟨rfl, rfl, Bool.and_false _, fun _ => rfl⟩

theorem notEstablished_isSome (db : Database) : (notEstablished db).isSome =
    (updateFrom replayIndexes undated mark [] (keptRows db.tables.calls.rows)).isSome := by
  rw [notEstablished, Option.isSome_map, updateWhere_isSome]
  rfl

theorem rows_notEstablished (h : notEstablished db = some m) :
    m.database.tables.calls.rows =
        (keptRows db.tables.calls.rows).map (finalRow db.whitelist) ∧
      m.marked = ((keptRows db.tables.calls.rows).filter undated).map StoredCall.id ∧
      m.replays =
        (db.tables.calls.rows.filter (isReplay db.tables.calls.rows)).map StoredCall.id := by
  obtain ⟨calls, hcalls, rfl⟩ := Option.map_eq_some_iff.mp h
  refine ⟨?_, rfl, rfl⟩
  change calls.rows.map (recomputeRow db.whitelist) = _
  rw [updateWhere_rows hcalls, List.map_map]
  rfl

theorem once_of_unique (m : Marking) : m.database.tables.calls.rows.Pairwise fun a b =>
    a.established = false → b.established = false → a.call.callId.isSome = true →
      a.call.callId ≠ b.call.callId := by
  apply m.database.tables.calls.unique.imp
  intro a b hapart ha hb hid heq
  have hmarked := (coexist_iff.mp hapart hid heq).2 ha
  rw [hb] at hmarked
  cases hmarked

/-- Of every call deleted, the first push is kept and marked. -/
theorem kept_of_deleted (h : notEstablished db = some m) : ∀ r ∈ db.tables.calls.rows,
    (∀ o ∈ m.database.tables.calls.rows, o.id ≠ r.id) →
    r.call.callId.isSome = true ∧
      ∃ o ∈ m.database.tables.calls.rows, o.call.callId = r.call.callId ∧
        o.established = false := by
  intro r hr hgone
  rw [(rows_notEstablished h).1] at hgone ⊢
  have hreplay : isReplay db.tables.calls.rows r = true := by
    by_contra hnot
    have hkept : r ∈ keptRows db.tables.calls.rows :=
      List.mem_filter.mpr ⟨hr, by rw [Bool.eq_false_iff.mpr hnot]; rfl⟩
    exact hgone _ (List.mem_map_of_mem hkept) (finalRow_keys db.whitelist r).1
  have hundated : undated r = true := (Bool.and_eq_true_iff.mp hreplay).1
  have hid : r.call.callId.isSome = true := (Bool.and_eq_true_iff.mp hundated).1
  let pushes := db.tables.calls.rows.filter fun o =>
    decide (o.call.callId = r.call.callId ∧ o.call.callStart = none)
  have hpushes : pushes ≠ [] := List.ne_nil_of_mem
    (List.mem_filter.mpr ⟨hr, decide_eq_true ⟨rfl, callStart_of_undated hundated⟩⟩)
  obtain ⟨first, hfirst⟩ := exists_first StoredCall.id hpushes
  obtain ⟨hmem, hpush⟩ := List.mem_filter.mp hfirst.mem
  obtain ⟨hsame, hstart⟩ := of_decide_eq_true hpush
  have hkept : first ∈ keptRows db.tables.calls.rows := by
    refine mem_keptRows_iff.mpr ⟨hmem, fun _ o ho heq hnone => ?_⟩
    exact hfirst.le o (List.mem_filter.mpr ⟨ho, decide_eq_true ⟨heq.trans hsame, hnone⟩⟩)
  have hmarked : undated first = true := by
    rw [undated, hsame, hid, hstart]
    rfl
  obtain ⟨-, hcallId, -, hestablished⟩ := finalRow_keys db.whitelist first
  exact ⟨hid, _, List.mem_map_of_mem hkept, hcallId.trans hsame, hestablished hmarked⟩

/-- A run that finds every call dated goes through, and marks and deletes nothing. -/
theorem again_of_dated (h : ∀ r ∈ db.tables.calls.rows, undated r = false) :
    ∃ m, notEstablished db = some m ∧ m.marked = [] ∧ m.replays = [] := by
  have hsome : (notEstablished db).isSome = true := by
    rw [notEstablished_isSome, updateFrom_isSome_iff]
    · intro r hr hundated
      rw [h r (mem_keptRows_iff.mp hr).1] at hundated
      cases hundated
    · apply List.pairwise_of_forall_mem_list
      intro a ha b _ hundated
      rw [h a (mem_keptRows_iff.mp ha).1] at hundated
      cases hundated
  obtain ⟨m, hm⟩ := Option.isSome_iff_exists.mp hsome
  obtain ⟨-, hmarked, hreplays⟩ := rows_notEstablished hm
  refine ⟨m, hm, ?_, ?_⟩
  · rw [hmarked, List.filter_eq_nil_iff.mpr, List.map_nil]
    intro r hr
    rw [h r (mem_keptRows_iff.mp hr).1]
    exact Bool.false_ne_true
  · rw [hreplays, List.filter_eq_nil_iff.mpr, List.map_nil]
    intro r hr
    rw [isReplay, h r hr, Bool.false_and]
    exact Bool.false_ne_true

theorem completes (h : notEstablished db = some m) : Completes db m where
  once := once_of_unique m
  kept := kept_of_deleted h
  again := by
    apply again_of_dated
    intro r hr
    rw [(rows_notEstablished h).1] at hr
    obtain ⟨r, -, rfl⟩ := List.mem_map.mp hr
    exact (finalRow_keys db.whitelist r).2.2.1

end Step

/-- The step completes on the calls that are clear, and is refused on all others. -/
theorem notEstablished_completes_iff (db : Database)
    (hids : (db.tables.calls.rows.map StoredCall.id).Nodup) :
    (∃ m, notEstablished db = some m ∧ Completes db m) ↔ Clear db.tables.calls.rows := by
  rw [← updateFrom_keptRows_iff hids, ← notEstablished_isSome, Option.isSome_iff_exists]
  constructor
  · rintro ⟨m, hm, -⟩
    exact ⟨m, hm⟩
  · rintro ⟨m, hm⟩
    exact ⟨m, hm, completes hm⟩

/-- A push of one Call-ID, as it stands in the table. -/
def pushed (id : ℕ) (receivedAt : ℤ) (start : Option ℤ) (established : Bool) : StoredCall :=
  { newCall id receivedAt
      { callColumns oneDate [] ⟨none, none, none, none, none⟩ with
        callId := some "a1@sample.org", callStart := start } (.obj []) with
    established := established }

def withCalls (calls : Table replayIndexes) : Database :=
  ⟨⟨calls, .empty _, 4⟩, shippedWhitelist, []⟩

/-- A push and its replay, both undated, and a call that came up. -/
def replayedRows : List StoredCall :=
  [pushed 1 1790238060000000 none true, pushed 2 1790238120000000 none true,
    pushed 3 1790241660000000 (some 1790241600000000) true]

theorem replayedRows_unique :
    replayedRows.Pairwise fun a b => ∀ index ∈ replayIndexes, clashes index a b = false := by
  decide

theorem replayed_completes :
    ∃ m, notEstablished (withCalls ⟨replayedRows, replayedRows_unique⟩) = some m ∧
      Completes (withCalls ⟨replayedRows, replayedRows_unique⟩) m :=
  (notEstablished_completes_iff (withCalls ⟨replayedRows, replayedRows_unique⟩)
    (by decide)).mpr (by decide)

/-- A push stored before the trigger dated it, and its replay that the trigger marked. -/
def lateReplayRows : List StoredCall :=
  [pushed 1 1790238060000000 none true, pushed 2 1790238120000000 (some 1790238120000000) false]

theorem lateReplayRows_unique :
    lateReplayRows.Pairwise fun a b => ∀ index ∈ replayIndexes, clashes index a b = false := by
  decide

/-- Nothing is deleted, and the index on the Call-ID refuses the first push. -/
theorem lateReplay_refused :
    ¬ ∃ m, notEstablished (withCalls ⟨lateReplayRows, lateReplayRows_unique⟩) = some m ∧
      Completes (withCalls ⟨lateReplayRows, lateReplayRows_unique⟩) m := by
  rintro ⟨m, hm, -⟩
  have hsome := Option.isSome_of_eq_some hm
  rw [notEstablished_isSome, updateFrom_keptRows_iff (by decide)] at hsome
  revert hsome
  decide

end NotEstablished
