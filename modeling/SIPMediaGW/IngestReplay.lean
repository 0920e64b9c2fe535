import SIPMediaGW.CallsTable
import SIPMediaGW.FirstOccurrences

/-! # Replayed pushes

The two partial indexes together see one key: the Call-ID, with the start when the payload
has one. A call without a start is dated by its reception, which no pushed start equals. -/
namespace IngestReplay

open CallsTable
open FirstOccurrences
open IngestMapping
open PartialUniqueIndex
open PythonJson

/-- A push the route accepts, with the rows it maps to. -/
structure Push (py : PythonText) where
  receivedAt : ℤ
  payload : Json
  call : CallRow
  media : List MediaRow
  mapped : mapPush py payload = .ok (call, media)

/-- The key of a push: its Call-ID, and its start if it has a readable one. -/
def Push.key {py : PythonText} (p : Push py) : Option String × Option ℤ :=
  (p.call.callId, p.call.callStart)

def rowKey (r : StoredCall) : Option String × Option ℤ :=
  (r.call.callId, if r.established then r.call.callStart else none)

/-- The row the push number `n` would store: every push takes a number. -/
def Push.row {py : PythonText} (whitelist : Whitelist) (p : Push py) (n : ℕ) : StoredCall :=
  callsSetOutcome whitelist (newCall n p.receivedAt p.call p.payload)

def Push.storedMedia {py : PythonText} (p : Push py) (n : ℕ) : List StoredMedia :=
  ((Table.empty mediaKey).insertAll (mediaOf n p.media)).rows

def ingestAll (py : PythonText) (whitelist : Whitelist) (ps : List (Push py)) : Tables :=
  ps.foldl (fun t p => (ingestCall py whitelist t p.receivedAt p.payload).1) emptyTables

/-- No reception instant equals a pushed start. -/
def InstantsApart {py : PythonText} (ps : List (Push py)) : Prop :=
  ∀ p ∈ ps, ∀ q ∈ ps, q.call.callStart ≠ some p.receivedAt

section Mapping

variable {py : PythonText}

/-- The columns of an accepted payload are those of its `call` object. -/
theorem callRow_eq_ok {payload : Json} {row : CallRow} (h : callRow py payload = .ok row) :
    ∃ call summary, callOf payload = .ok call ∧ row = callColumns py call summary := by
  obtain ⟨call, hcall, h⟩ := bind_eq_ok h
  obtain ⟨summary, -, h⟩ := bind_eq_ok h
  obtain rfl := Except.ok.inj h
  exact ⟨call, summary, hcall, rfl⟩

theorem mapPush_eq_ok {payload : Json} {row : CallRow} {media : List MediaRow}
    (h : mapPush py payload = .ok (row, media)) :
    callRow py payload = .ok row ∧ row.callId.isSome = true := by
  unfold mapPush at h
  dsimp only at h
  split at h
  · cases h
  · rename_i rows hrows
    split at h
    · cases h
    · rename_i hid
      obtain rfl := Except.ok.inj h
      obtain ⟨call, hcall, hrest⟩ := bind_eq_ok hrows
      obtain ⟨object, -, hrest⟩ := bind_eq_ok hrest
      obtain ⟨media', -, hrest⟩ := bind_eq_ok hrest
      obtain ⟨rfl, rfl⟩ := Prod.mk.inj (Except.ok.inj hrest)
      exact ⟨hcall, by simpa [Option.isSome_iff_ne_none] using hid⟩

theorem Push.callId_isSome (p : Push py) : ∃ callId, p.call.callId = some callId :=
  Option.isSome_iff_exists.mp (mapPush_eq_ok p.mapped).2

theorem row_callId (whitelist : Whitelist) (p : Push py) (n : ℕ) :
    (p.row whitelist n).call.callId = p.call.callId := by
  obtain ⟨call, summary, -, hcolumns⟩ := callRow_eq_ok (mapPush_eq_ok p.mapped).1
  change nullIfEmpty p.call.callId = p.call.callId
  rw [hcolumns]
  exact nullIfEmpty_eq (text_ne_empty _ _)

theorem row_callStart (whitelist : Whitelist) (p : Push py) (n : ℕ) :
    (p.row whitelist n).call.callStart = some (p.call.callStart.getD p.receivedAt) := rfl

theorem row_established (whitelist : Whitelist) (p : Push py) (n : ℕ) :
    (p.row whitelist n).established = p.call.callStart.isSome := rfl

end Mapping

section Keys

variable {py : PythonText} {whitelist : Whitelist}

theorem rowKey_row (p : Push py) (n : ℕ) : rowKey (p.row whitelist n) = p.key := by
  rw [rowKey, row_callId, row_callStart, row_established, Push.key]
  cases p.call.callStart <;> rfl

/-- Rows of two pushes clash exactly when the pushes have one key. -/
theorem clash_iff (p q : Push py) (m n : ℕ) (hpq : q.call.callStart ≠ some p.receivedAt)
    (hqp : p.call.callStart ≠ some q.receivedAt) :
    (∃ index ∈ replayIndexes, clashes index (p.row whitelist m) (q.row whitelist n) = true) ↔
      p.key = q.key := by
  obtain ⟨a, ha⟩ := p.callId_isSome
  obtain ⟨b, hb⟩ := q.callId_isSome
  simp only [replayIndexes, List.mem_cons, List.not_mem_nil, or_false, exists_eq_or_imp,
    exists_eq_left, clashes, row_callId, row_callStart, row_established, Push.key, ha, hb,
    Option.bind_some, Option.map_some, Option.isSome_some, Bool.true_and, decide_eq_true_eq]
  cases hp : p.call.callStart with
  | none =>
    cases hq : q.call.callStart with
    | none =>
      simp only [Option.getD_none, Option.isSome_none, Bool.false_eq_true, if_false,
        Option.isSome_some, Bool.true_and, decide_eq_true_eq, Option.some.injEq, Prod.mk.injEq,
        and_true]
      exact ⟨fun h => h.elim (fun hboth => hboth.1) id, .inr⟩
    | some start =>
      have hne : start ≠ p.receivedAt := fun he => hpq (by rw [hq, he])
      simp [Ne.symm hne]
  | some start =>
    cases hq : q.call.callStart with
    | none =>
      have hne : start ≠ q.receivedAt := fun he => hqp (by rw [hp, he])
      simp [hne]
    | some start' => simp

/-- A push of a stored key is ignored, whatever the instants. -/
theorem clash_of_key {p q : Push py} {m n : ℕ} (h : p.key = q.key) :
    ∃ index ∈ replayIndexes, clashes index (p.row whitelist m) (q.row whitelist n) = true := by
  obtain ⟨hid, hstart⟩ := Prod.mk.inj h
  obtain ⟨a, ha⟩ := p.callId_isSome
  simp only [replayIndexes, List.mem_cons, List.not_mem_nil, or_false, exists_eq_or_imp,
    exists_eq_left, clashes, row_callId, row_callStart, row_established, ← hid, ← hstart, ha]
  cases p.call.callStart <;> simp

end Keys

/-- The tables hold what the first push of each key maps to, under its number. -/
structure Replayed {py : PythonText} (whitelist : Whitelist) (ps : List (Push py))
    (t : Tables) : Prop where
  nextId : t.nextId = ps.length + 1
  calls : t.calls.rows = (firsts Push.key ps).map fun e => e.1.row whitelist (e.2 + 1)
  media : t.media.rows = (firsts Push.key ps).flatMap fun e => e.1.storedMedia (e.2 + 1)

section Runs

variable {py : PythonText} {whitelist : Whitelist} {ps : List (Push py)} {t : Tables}

theorem callPk_of_storedMedia {p : Push py} {n : ℕ} {m : StoredMedia}
    (h : m ∈ p.storedMedia n) : m.callPk = n := by
  rcases mem_insertAll h with hnone | hmem
  · cases hnone
  · obtain ⟨row, -, rfl⟩ := List.mem_map.mp hmem
    rfl

theorem media_callPk (h : Replayed whitelist ps t) {m : StoredMedia} (hm : m ∈ t.media.rows) :
    m.callPk < t.nextId := by
  rw [h.media] at hm
  obtain ⟨e, he, hme⟩ := List.mem_flatMap.mp hm
  have hlt := snd_lt_of_mem_firsts he
  rw [callPk_of_storedMedia hme, h.nextId]
  omega

/-- The media rows of a new call clash with none there is. -/
theorem rows_media (h : Replayed whitelist ps t) (p : Push py) :
    (t.media.insertAll (mediaOf t.nextId p.media)).rows =
      t.media.rows ++ p.storedMedia t.nextId := by
  apply rows_insertAll
  intro b hb a ha index hindex
  have hlt := media_callPk h hb
  obtain ⟨row, -, rfl⟩ := List.mem_map.mp ha
  obtain rfl := List.mem_singleton.mp hindex
  have hne : b.callPk ≠ t.nextId := by omega
  simp [clashes, hne]

theorem conflicts_iff (h : Replayed whitelist ps t) (p : Push py)
    (hapart : ∀ q ∈ ps, p.call.callStart ≠ some q.receivedAt ∧
      q.call.callStart ≠ some p.receivedAt) :
    t.calls.conflicts (p.row whitelist t.nextId) = true ↔ p.key ∈ ps.map Push.key := by
  rw [clash_of_conflicts, h.calls]
  constructor
  · rintro ⟨b, hb, hclash⟩
    obtain ⟨e, he, rfl⟩ := List.mem_map.mp hb
    have hmem : e.1 ∈ ps := List.mem_of_getElem? (mem_firsts.mp he).1
    obtain ⟨hp, hq⟩ := hapart e.1 hmem
    rw [← (clash_iff e.1 p _ _ hp hq).mp hclash]
    exact List.mem_map_of_mem hmem
  · intro hmem
    obtain ⟨e, he, hkey⟩ := exists_first hmem
    exact ⟨_, List.mem_map_of_mem he, clash_of_key hkey⟩

theorem ingestCall_push (t : Tables) (p : Push py) :
    (ingestCall py whitelist t p.receivedAt p.payload).1 =
      (store whitelist t p.receivedAt p.call p.media p.payload).1 := by
  rw [ingestCall, p.mapped]
  dsimp only
  cases hstore : store whitelist t p.receivedAt p.call p.media p.payload with
  | mk t' callPk => cases callPk <;> rfl

theorem replayed_step (h : Replayed whitelist ps t) (p : Push py)
    (hapart : ∀ q ∈ ps, p.call.callStart ≠ some q.receivedAt ∧
      q.call.callStart ≠ some p.receivedAt) :
    Replayed whitelist (ps ++ [p]) (ingestCall py whitelist t p.receivedAt p.payload).1 := by
  have hconflicts := conflicts_iff h p hapart
  have hnext : (ps ++ [p]).length = ps.length + 1 := by simp
  have hrow : callsSetOutcome whitelist (newCall t.nextId p.receivedAt p.call p.payload) =
      p.row whitelist t.nextId := rfl
  rw [ingestCall_push, store, hrow]
  by_cases hmem : p.key ∈ ps.map Push.key
  · rw [if_pos (hconflicts.mpr hmem)]
    refine ⟨?_, ?_, ?_⟩
    · simp [h.nextId]
    · rw [firsts_append_singleton, if_pos hmem, List.append_nil, h.calls]
    · rw [firsts_append_singleton, if_pos hmem, List.append_nil, h.media]
  · have hfree : t.calls.conflicts (p.row whitelist t.nextId) = false := by
      rw [← Bool.not_eq_true, hconflicts]
      exact hmem
    rw [hfree, if_neg (by simp)]
    refine ⟨?_, ?_, ?_⟩
    · simp [h.nextId]
    · rw [rows_insertOrIgnore, hfree, firsts_append_singleton, if_neg hmem, List.map_append,
        h.calls, h.nextId]
      rfl
    · rw [rows_media h, firsts_append_singleton, if_neg hmem, List.flatMap_append, h.media,
        h.nextId, List.flatMap_singleton]

theorem replayed_ingestAll (hapart : InstantsApart ps) :
    Replayed whitelist ps (ingestAll py whitelist ps) := by
  induction ps using List.reverseRecOn with
  | nil => exact ⟨rfl, rfl, rfl⟩
  | append_singleton ps p ih =>
    have hold : InstantsApart ps := fun a ha b hb =>
      hapart a (List.mem_append_left _ ha) b (List.mem_append_left _ hb)
    have hp : p ∈ ps ++ [p] := List.mem_append_right _ (List.mem_singleton_self p)
    have hstep := replayed_step (ih hold) p fun q hq =>
      ⟨hapart q (List.mem_append_left _ hq) p hp, hapart p hp q (List.mem_append_left _ hq)⟩
    simpa only [ingestAll, List.foldl_append, List.foldl_cons, List.foldl_nil] using hstep

theorem count_rowKey (h : Replayed whitelist ps t) (k : Option String × Option ℤ) :
    t.calls.rows.countP (fun r => decide (rowKey r = k)) =
      (firsts Push.key ps).countP fun e => decide (e.1.key = k) := by
  rw [h.calls, List.countP_map]
  apply List.countP_congr
  intro e _
  simp only [Function.comp_apply, rowKey_row]

/-- The media rows of a call are those of the push that stored it. -/
theorem media_of_first (h : Replayed whitelist ps t) {e : Push py × ℕ}
    (he : e ∈ firsts Push.key ps) :
    t.media.rows.filter (fun m => decide (m.callPk = e.2 + 1)) = e.1.storedMedia (e.2 + 1) := by
  have hn : ((firsts Push.key ps).map fun d => d.2 + 1).Nodup := by
    have hmap := (nodup_snd_firsts Push.key ps).map (f := Nat.succ) Nat.succ_injective
    rwa [List.map_map] at hmap
  rw [h.media]
  exact filter_flatMap_of_tag hn (fun d _ c hc => callPk_of_storedMedia hc) he

theorem ingestCall_replay (h : Replayed whitelist ps t) {p : Push py}
    (hmem : p.key ∈ ps.map Push.key) :
    ingestCall py whitelist t p.receivedAt p.payload =
      ({ t with nextId := t.nextId + 1 }, .duplicate) := by
  have hconflicts : t.calls.conflicts (p.row whitelist t.nextId) = true := by
    obtain ⟨e, he, hkey⟩ := exists_first hmem
    rw [clash_of_conflicts, h.calls]
    exact ⟨_, List.mem_map_of_mem he, clash_of_key hkey⟩
  have hrow : callsSetOutcome whitelist (newCall t.nextId p.receivedAt p.call p.payload) =
      p.row whitelist t.nextId := rfl
  rw [ingestCall, p.mapped]
  simp only [store, hrow, hconflicts, if_true]

end Runs

/-- Replay: one row for each key pushed and none for another key; the row and the media rows
of a key are those of its first push; a payload pushed again, whenever it is received,
changes neither table. -/
theorem replay_absorbed (py : PythonText) (whitelist : Whitelist) (ps : List (Push py))
    (hapart : InstantsApart ps) :
    (∀ k ∈ ps.map Push.key,
        (ingestAll py whitelist ps).calls.rows.countP (fun r => decide (rowKey r = k)) = 1) ∧
      (∀ r ∈ (ingestAll py whitelist ps).calls.rows, rowKey r ∈ ps.map Push.key) ∧
      (∀ n p, ps[n]? = some p → (∀ q ∈ ps.take n, q.key ≠ p.key) →
        p.row whitelist (n + 1) ∈ (ingestAll py whitelist ps).calls.rows ∧
        (ingestAll py whitelist ps).media.rows.filter (fun m => decide (m.callPk = n + 1)) =
          p.storedMedia (n + 1)) ∧
      ∀ p ∈ ps, ∀ receivedAt,
        let again := ingestCall py whitelist (ingestAll py whitelist ps) receivedAt p.payload
        again.1.calls = (ingestAll py whitelist ps).calls ∧
          again.1.media = (ingestAll py whitelist ps).media ∧ again.2 = .duplicate := by
  have h : Replayed whitelist ps (ingestAll py whitelist ps) := replayed_ingestAll hapart
  refine ⟨?_, ?_, ?_, ?_⟩
  · intro k hk
    rw [count_rowKey h]
    exact (countP_firsts Push.key ps k).trans (if_pos hk)
  · intro r hr
    rw [h.calls] at hr
    obtain ⟨e, he, rfl⟩ := List.mem_map.mp hr
    rw [rowKey_row]
    exact key_mem_of_mem_firsts he
  · intro n p hn hfirst
    have he : (p, n) ∈ firsts Push.key ps := mem_firsts.mpr ⟨hn, hfirst⟩
    refine ⟨?_, media_of_first h he⟩
    rw [h.calls]
    exact List.mem_map_of_mem he
  · intro p hmem receivedAt
    have hkey : p.key ∈ ps.map Push.key := List.mem_map_of_mem hmem
    have hreplay := ingestCall_replay h (p := { p with receivedAt := receivedAt }) hkey
    have hsame : ingestCall py whitelist (ingestAll py whitelist ps) receivedAt p.payload =
        _ := hreplay
    simp only [hsame, and_self]

/-- A push from a payload the route accepts. -/
def Push.ofPayload (py : PythonText) (receivedAt : ℤ) (payload : Json)
    (accepted : (mapPush py payload).isOk = true) : Push py :=
  match hmapped : mapPush py payload with
  | .ok (call, media) => ⟨receivedAt, payload, call, media, hmapped⟩
  | .error _ => by
    rw [hmapped] at accepted
    cases accepted

def endedCall : Json :=
  .obj [("call", .obj [("room", .str "math101"),
    ("details", .obj [("callId", .str "a1@sample.org")]),
    ("callSession", .obj [("callStart", .obj [("timestamp", .str "2026-09-24T08:20:48Z")])])])]

def missedCall : Json :=
  .obj [("call", .obj [("details", .obj [("callId", .str "b2@sample.org")])])]

def somePushes : List (Push oneDate) :=
  [.ofPayload oneDate 1790238060000000 endedCall (by decide +kernel),
    .ofPayload oneDate 1790238061000000 missedCall (by decide +kernel),
    .ofPayload oneDate 1790238062000000 endedCall (by decide +kernel),
    .ofPayload oneDate 1790238063000000 missedCall (by decide +kernel)]

theorem four_pushes_two_calls :
    (ingestAll oneDate shippedWhitelist somePushes).calls.rows.length = 2 ∧
      ∀ k ∈ somePushes.map Push.key,
        (ingestAll oneDate shippedWhitelist somePushes).calls.rows.countP
          (fun r => decide (rowKey r = k)) = 1 :=
  ⟨by decide +kernel, (replay_absorbed oneDate shippedWhitelist somePushes (by
    unfold InstantsApart
    decide +kernel)).1⟩

end IngestReplay
