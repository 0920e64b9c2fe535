import SIPMediaGW.CallsTable

/-! # Recomputing outcomes

The rule of the trigger written again for a set of rows. It only sees what an earlier rule
stored: a zeroed duration is recovered from the occupancy, a missing one is not. -/
namespace OutcomeRecompute

open CallsTable
open IngestMapping

/-- The outcome the recompute finds for a row. -/
def newOutcome (whitelist : Whitelist) (r : StoredCall) : Outcome :=
  if ! r.established then .notEstablished
  else if r.call.room.isSome then .completed
  else if isTechnicalFailure whitelist r.call.closeReason then .failed
  else .ivrOnly

/-- `COALESCE(NULLIF(duration_s, 0), occupancy_s, 0)`. -/
def recoveredDuration (r : StoredCall) : ℤ :=
  ((r.call.durationS.filter fun d => decide (d ≠ 0)).or r.call.occupancyS).getD 0

def recomputeRow (whitelist : Whitelist) (r : StoredCall) : StoredCall :=
  let outcome := newOutcome whitelist r
  if r.outcome = outcome then r
  else
    { r with
      outcome := outcome
      call := { r.call with
        durationS := some (if outcome = .completed then recoveredDuration r else 0) } }

structure RecomputeLog where
  rowsSeen : ℕ
  rowsMoved : ℕ
  deriving DecidableEq

structure Ledger where
  whitelist : Whitelist
  rows : List StoredCall
  log : List RecomputeLog

/-- A correction by hand: a room is a text or nothing, never an empty text. -/
structure Correction where
  established : Bool
  room : Option String
  closeReason : Option String
  named : room ≠ some ""

inductive Event where
  | correct (id : ℕ) (c : Correction)
  | setWhitelist (whitelist : Whitelist)
  | recompute

def recomputeOutcomes (l : Ledger) : Ledger :=
  { l with
    rows := l.rows.map (recomputeRow l.whitelist)
    log := l.log ++ [⟨l.rows.length,
      l.rows.countP fun r => decide (r.outcome ≠ newOutcome l.whitelist r)⟩] }

def Correction.apply (c : Correction) (r : StoredCall) : StoredCall :=
  { r with
    established := c.established
    call := { r.call with room := c.room, closeReason := c.closeReason } }

def correctRow (id : ℕ) (c : Correction) (r : StoredCall) : StoredCall :=
  if r.id = id then c.apply r else r

def step (l : Ledger) : Event → Ledger
  | .correct id c => { l with rows := l.rows.map (correctRow id c) }
  | .setWhitelist whitelist => { l with whitelist := whitelist }
  | .recompute => recomputeOutcomes l

def run (l : Ledger) (es : List Event) : Ledger := es.foldl step l

/-- A row as the trigger inserts it, with the duration and the occupancy of its payload. -/
def inserted (whitelist : Whitelist) (r : StoredCall) (s : Option ℤ) : StoredCall :=
  callsSetOutcome whitelist { r with call := { r.call with durationS := s, occupancyS := s } }

/-- A call that came up and joined a room. -/
def joins (r : StoredCall) : Bool := r.established && r.call.room.isSome

/-- Corrections alone decide whether a row joins a room at the end. -/
def corrected (r : StoredCall) : List Event → StoredCall
  | [] => r
  | .correct id c :: es => corrected (correctRow id c r) es
  | _ :: es => corrected r es

/-- The row joins a room at every recompute. -/
def joinsThroughout (r : StoredCall) : List Event → Bool
  | [] => true
  | .correct id c :: es => joinsThroughout (correctRow id c r) es
  | .setWhitelist _ :: es => joinsThroughout r es
  | .recompute :: es => joins r && joinsThroughout r es

section Rows

variable {whitelist : Whitelist} {r : StoredCall} {s : Option ℤ}

theorem newOutcome_eq_completed : newOutcome whitelist r = .completed ↔ joins r = true := by
  have hrule : newOutcome whitelist r =
      outcomeOf whitelist r.established r.call.room r.call.closeReason := rfl
  rw [hrule, outcomeOf_eq_completed, joins, Bool.and_eq_true]

/-- What a row keeps of its payload: `kept` when it joined a room at its insertion and at
every recompute since. -/
structure Traced (s : Option ℤ) (kept : Bool) (r : StoredCall) : Prop where
  dated : r.call.callStart.isSome = true
  named : r.call.room ≠ some ""
  occupancy : r.call.occupancyS = some (s.getD 0)
  completed : kept = true → r.outcome = .completed
  joined : r.outcome = .completed →
    r.call.durationS = if kept then s else some (s.getD 0)
  other : r.outcome ≠ .completed → r.call.durationS = some 0

theorem outcome_inserted (whitelist : Whitelist) (r : StoredCall) (s : Option ℤ) :
    (inserted whitelist r s).outcome = newOutcome whitelist (inserted whitelist r s) := rfl

theorem traced_inserted (whitelist : Whitelist) (r : StoredCall) (s : Option ℤ) :
    Traced s (joins (inserted whitelist r s)) (inserted whitelist r s) where
  dated := rfl
  named := nullIfEmpty_ne _
  occupancy := by
    change some ((s.or s).getD 0) = some (s.getD 0)
    cases s <;> rfl
  completed h := by
    rw [outcome_inserted]
    exact newOutcome_eq_completed.mpr h
  joined h := by
    have hjoins : joins (inserted whitelist r s) = true := by
      rw [outcome_inserted] at h
      exact newOutcome_eq_completed.mp h
    rw [hjoins, if_pos rfl]
    exact if_pos h
  other h := if_neg h

theorem traced_correct {kept : Bool} (h : Traced s kept r) (id : ℕ) (c : Correction) :
    Traced s kept (correctRow id c r) := by
  rw [correctRow]
  split
  · exact ⟨h.dated, c.named, h.occupancy, h.completed, h.joined, h.other⟩
  · exact h

theorem traced_recompute {kept : Bool} (h : Traced s kept r) (whitelist : Whitelist) :
    Traced s (kept && joins r) (recomputeRow whitelist r) := by
  have hjoins : newOutcome whitelist r = .completed ↔ joins r = true := newOutcome_eq_completed
  simp only [recomputeRow]
  by_cases hsame : r.outcome = newOutcome whitelist r
  · rw [if_pos hsame]
    have hkept : (kept && joins r) = kept := by
      cases kept with
      | false => rfl
      | true =>
        rw [Bool.true_and]
        exact hjoins.mp (hsame ▸ h.completed rfl)
    rw [hkept]
    exact h
  · rw [if_neg hsame]
    by_cases hnew : newOutcome whitelist r = .completed
    · have hwas : r.outcome ≠ .completed := fun he => hsame (he.trans hnew.symm)
      have hkept : kept = false := by
        cases kept with
        | false => rfl
        | true => exact absurd (h.completed rfl) hwas
      subst hkept
      refine ⟨h.dated, h.named, h.occupancy, fun hk => (nomatch hk), fun _ => ?_,
        fun hne => absurd hnew hne⟩
      simp [recoveredDuration, hnew, h.other hwas, h.occupancy, Option.filter]
    · have hnot : joins r = false := by
        rw [← Bool.not_eq_true, ← hjoins]
        exact hnew
      rw [hnot, Bool.and_false]
      exact ⟨h.dated, h.named, h.occupancy, fun hk => (nomatch hk), fun he => absurd he hnew,
        fun _ => by simp [hnew]⟩

/-- A recomputed row has the outcome of the rule. -/
theorem outcome_recomputeRow (whitelist : Whitelist) (r : StoredCall) :
    (recomputeRow whitelist r).outcome = newOutcome whitelist (recomputeRow whitelist r) := by
  simp only [recomputeRow]
  split
  · assumption
  · rfl

end Rows

/-- The columns the corrections decide on. -/
def columns (r : StoredCall) : ℕ × Bool × Option String := (r.id, r.established, r.call.room)

section Runs

variable {whitelist : Whitelist} {r r' : StoredCall} {s : Option ℤ}

theorem joins_congr (h : columns r = columns r') : joins r = joins r' := by
  simp only [columns, Prod.mk.injEq] at h
  rw [joins, joins, h.2.1, h.2.2]

theorem columns_correctRow (id : ℕ) (c : Correction) (h : columns r = columns r') :
    columns (correctRow id c r) = columns (correctRow id c r') := by
  simp only [columns, Prod.mk.injEq] at h
  simp only [correctRow, h.1]
  split
  · simp [columns, Correction.apply, h.1]
  · simp [columns, h]

theorem columns_recomputeRow (whitelist : Whitelist) (r : StoredCall) :
    columns (recomputeRow whitelist r) = columns r := by
  simp only [recomputeRow]
  split <;> rfl

theorem joinsThroughout_congr (es : List Event) (h : columns r = columns r') :
    joinsThroughout r es = joinsThroughout r' es := by
  induction es generalizing r r' with
  | nil => rfl
  | cons e es ih =>
    cases e with
    | correct id c => exact ih (columns_correctRow id c h)
    | setWhitelist => exact ih h
    | recompute => rw [joinsThroughout, joinsThroughout, joins_congr h, ih h]

theorem corrected_congr (es : List Event) (h : columns r = columns r') :
    columns (corrected r es) = columns (corrected r' es) := by
  induction es generalizing r r' with
  | nil => exact h
  | cons e es ih =>
    cases e with
    | correct id c => exact ih (columns_correctRow id c h)
    | setWhitelist => exact ih h
    | recompute => exact ih h

/-- What a row keeps along any sequence of corrections, whitelists and recomputes. -/
theorem run_traced (es : List Event) {l : Ledger} {i : ℕ} {kept : Bool}
    (hi : l.rows[i]? = some r) (h : Traced s kept r) :
    ∃ f, (run l es).rows[i]? = some f ∧ Traced s (kept && joinsThroughout r es) f ∧
      columns f = columns (corrected r es) := by
  induction es generalizing l r kept with
  | nil => exact ⟨r, hi, by simpa [joinsThroughout] using h, rfl⟩
  | cons e es ih =>
    cases e with
    | correct id c =>
      have hi' : (step l (.correct id c)).rows[i]? = some (correctRow id c r) := by
        simp [step, hi]
      exact ih hi' (traced_correct h id c)
    | setWhitelist whitelist => exact ih (l := step l (.setWhitelist whitelist)) hi h
    | recompute =>
      have hi' : (step l .recompute).rows[i]? = some (recomputeRow l.whitelist r) := by
        simp [step, recomputeOutcomes, hi]
      obtain ⟨f, hf, htraced, hcolumns⟩ := ih hi' (traced_recompute h l.whitelist)
      have hsame := columns_recomputeRow l.whitelist r
      refine ⟨f, hf, ?_, hcolumns.trans (corrected_congr es hsame)⟩
      rw [joinsThroughout_congr es hsame, Bool.and_assoc] at htraced
      exact htraced

/-- A stored row is what the trigger would insert now, with the same duration. -/
def Agrees (whitelist : Whitelist) (s : Option ℤ) (f : StoredCall) : Prop :=
  f.outcome = (inserted whitelist f s).outcome ∧
    f.call.durationS = (inserted whitelist f s).call.durationS

theorem agrees_iff {kept : Bool} {f : StoredCall} (h : Traced s kept f)
    (houtcome : f.outcome = newOutcome whitelist f) :
    Agrees whitelist s f ↔ s ≠ none ∨ joins f = false ∨ kept = true := by
  have hrule : (inserted whitelist f s).outcome = newOutcome whitelist f := by
    have hroom := nullIfEmpty_eq h.named
    simp only [inserted, callsSetOutcome, hroom, h.dated, Bool.and_true]
    rfl
  have hduration : (inserted whitelist f s).call.durationS =
      if newOutcome whitelist f = .completed then s else some 0 := by
    rw [← hrule]
    rfl
  rw [Agrees, hrule, hduration, houtcome, eq_self_iff_true, true_and, ← houtcome]
  by_cases hcompleted : f.outcome = .completed
  · have hjoins : joins f = true := newOutcome_eq_completed.mp (houtcome ▸ hcompleted)
    rw [if_pos hcompleted, h.joined hcompleted, hjoins]
    cases kept with
    | true => simp
    | false => cases s <;> simp
  · have hjoins : joins f = false := by
      rw [← Bool.not_eq_true, ← newOutcome_eq_completed (r := f), ← houtcome]
      exact hcompleted
    simp [hcompleted, h.other hcompleted, hjoins]

theorem run_append (l : Ledger) (es fs : List Event) : run l (es ++ fs) = run (run l es) fs :=
  List.foldl_append

theorem corrected_append_recompute (r : StoredCall) (es : List Event) :
    corrected r (es ++ [.recompute]) = corrected r es := by
  induction es generalizing r with
  | nil => rfl
  | cons e es ih => cases e <;> exact ih _

/-- A second recompute finds every outcome in place. -/
theorem moved_again (l : Ledger) :
    (recomputeOutcomes (recomputeOutcomes l)).log.getLast? = some ⟨l.rows.length, 0⟩ := by
  have hplace : ∀ r ∈ l.rows, (recomputeRow l.whitelist r).outcome =
      newOutcome l.whitelist (recomputeRow l.whitelist r) :=
    fun r _ => outcome_recomputeRow l.whitelist r
  simpa [recomputeOutcomes] using hplace

end Runs

/-- The trigger and the recompute are one rule. -/
def OneRule : Prop :=
  ∀ (w₀ : Whitelist) (r : StoredCall) (s : Option ℤ) (l : Ledger) (i : ℕ) (es : List Event),
    l.rows[i]? = some (inserted w₀ r s) →
      ∃ f, (run l (es ++ [.recompute])).rows[i]? = some f ∧
        Agrees (run l es).whitelist s f ∧
        f.call.occupancyS = (inserted w₀ r s).call.occupancyS ∧
        (run l (es ++ [.recompute, .recompute])).log.getLast?.map RecomputeLog.rowsMoved = some 0

/-- After any corrections, whitelists and recomputes, the last one leaves a row as the trigger
would insert it exactly when its duration is known, or it joins no room, or it did so at its
insertion and at every recompute; its occupancy is kept and the next recompute moves no row. -/
theorem recompute_agrees_iff (w₀ : Whitelist) (r : StoredCall) (s : Option ℤ) (l : Ledger)
    (i : ℕ) (es : List Event) (hi : l.rows[i]? = some (inserted w₀ r s)) :
    ∃ f, (run l (es ++ [.recompute])).rows[i]? = some f ∧
      (Agrees (run l es).whitelist s f ↔
        s ≠ none ∨ joins (corrected (inserted w₀ r s) es) = false ∨
          joins (inserted w₀ r s) = true ∧
            joinsThroughout (inserted w₀ r s) (es ++ [.recompute]) = true) ∧
      f.call.occupancyS = (inserted w₀ r s).call.occupancyS ∧
      (run l (es ++ [.recompute, .recompute])).log.getLast?.map RecomputeLog.rowsMoved =
        some 0 := by
  have htraced := traced_inserted w₀ r s
  obtain ⟨f, hf, hkept, hcolumns⟩ := run_traced (es ++ [.recompute]) hi htraced
  rw [corrected_append_recompute] at hcolumns
  have houtcome : f.outcome = newOutcome (run l es).whitelist f := by
    rw [run_append] at hf
    obtain ⟨f₀, -, rfl⟩ := Option.map_eq_some_iff.mp
      ((List.getElem?_map ..).symm.trans hf)
    exact outcome_recomputeRow _ _
  refine ⟨f, hf, ?_, hkept.occupancy.trans htraced.occupancy.symm, ?_⟩
  · rw [agrees_iff hkept houtcome, joins_congr hcolumns, Bool.and_eq_true]
  · have hrun : run l (es ++ [.recompute, .recompute]) =
        recomputeOutcomes (recomputeOutcomes (run l es)) := run_append l es _
    rw [hrun, moved_again]
    rfl

/-- A call that came up and joined no room, pushed without a total time. -/
def unmeasuredCall : StoredCall :=
  newCall 1 1790238060000000 (callColumns oneDate
    [("callSession", .obj [("callStart", .obj [("timestamp", .str "2026-09-24T08:20:48Z")])]),
      ("details", .obj [("callId", .str "a1@sample.org")])] ⟨none, none, none, none, none⟩) .null

def oneCall (s : Option ℤ) : Ledger :=
  ⟨shippedWhitelist, [inserted shippedWhitelist unmeasuredCall s], []⟩

def roomFound : List Event := [.correct 1 ⟨true, some "math101", none, by decide⟩]

theorem a_measured_call_agrees :
    ∃ f, (run (oneCall (some 62)) (roomFound ++ [.recompute])).rows[0]? = some f ∧
      Agrees shippedWhitelist (some 62) f := by
  obtain ⟨f, hf, hiff, -⟩ := recompute_agrees_iff shippedWhitelist unmeasuredCall (some 62)
    (oneCall (some 62)) 0 roomFound rfl
  exact ⟨f, hf, hiff.mpr (.inl (by simp))⟩

/-- With no total time the recompute gives a duration of zero, the trigger none. -/
theorem an_unmeasured_call_differs : ¬ OneRule := by
  intro h
  obtain ⟨f, hf, hagrees, -⟩ := h shippedWhitelist unmeasuredCall none (oneCall none) 0
    roomFound rfl
  obtain rfl := Option.some.inj hf
  exact absurd hagrees.2 (by decide +kernel)

end OutcomeRecompute
