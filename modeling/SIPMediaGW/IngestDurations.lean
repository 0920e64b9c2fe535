import SIPMediaGW.IngestReplay

/-! # The durations of a stored call

`occupancy_s` is completed with zero, `duration_s` is not, and a total below zero is stored
as it came. -/
namespace IngestDurations

open CallsTable
open IngestMapping
open IngestReplay
open PythonJson

/-- What every reporting sum relies on. -/
def Consistent (r : StoredCall) : Prop :=
  ∃ duration occupancy, r.call.durationS = some duration ∧ r.call.occupancyS = some occupancy ∧
    0 ≤ duration ∧ duration ≤ occupancy ∧ (r.outcome ≠ .completed → duration = 0)

/-- The `call` object of a payload. -/
def callObject (payload : Json) : Dict := obj (field (obj payload) "call")

def totalTime (call : Dict) : Dict := obj (field (obj (field call "callSession")) "totalTime")

/-- The total time is given and not negative, or not given for a call that did not join a
room: it has no readable start, or no room. -/
def MeasuredTotal (py : PythonText) (call : Dict) : Prop :=
  match int (field (totalTime call) "seconds"), int (field (totalTime call) "milliseconds") with
  | some seconds, _ => 0 ≤ seconds
  | none, some milliseconds => 0 ≤ milliseconds
  | none, none =>
    ts py (field (obj (field (obj (field call "callSession")) "callStart")) "timestamp") = none ∨
      text py (field call "room") = none

section Rows

variable {py : PythonText} {whitelist : Whitelist}

theorem callOf_eq_ok {payload : Json} {call : Dict} (h : callOf payload = .ok call) :
    callObject payload = call := by
  unfold callOf at h
  split at h
  · rename_i d
    split at h
    · rename_i c hc
      obtain rfl := Except.ok.inj h
      simp [callObject, obj, hc]
    · cases h
  · cases h

theorem push_columns (p : Push py) :
    ∃ summary, p.call = callColumns py (callObject p.payload) summary := by
  obtain ⟨call, summary, hcall, hcolumns⟩ := callRow_eq_ok (mapPush_eq_ok p.mapped).1
  exact ⟨summary, by rw [hcolumns, callOf_eq_ok hcall]⟩

/-- The stored durations depend on the seconds of the payload and the outcome alone. -/
theorem consistent_iff {r : StoredCall} {seconds : Option ℤ}
    (hduration : r.call.durationS = if r.outcome = .completed then seconds else some 0)
    (hoccupancy : r.call.occupancyS = some (seconds.getD 0)) :
    Consistent r ↔ (∀ s, seconds = some s → 0 ≤ s) ∧
      (seconds = none → r.outcome ≠ .completed) := by
  by_cases hcompleted : r.outcome = .completed
  · rw [if_pos hcompleted] at hduration
    cases seconds with
    | none => simp [Consistent, hduration, hcompleted]
    | some s => simp [Consistent, hduration, hoccupancy, hcompleted]
  · rw [if_neg hcompleted] at hduration
    cases seconds with
    | none => simp [Consistent, hduration, hoccupancy, hcompleted]
    | some s => simp [Consistent, hduration, hoccupancy, hcompleted]

theorem row_durationS (p : Push py) (n : ℕ) :
    (p.row whitelist n).call.durationS =
      if (p.row whitelist n).outcome = .completed then
        totalSeconds (totalTime (callObject p.payload)) else some 0 := by
  obtain ⟨summary, hcolumns⟩ := push_columns p
  simp only [Push.row, callsSetOutcome, newCall, hcolumns]
  rfl

theorem row_occupancyS (p : Push py) (n : ℕ) :
    (p.row whitelist n).call.occupancyS =
      some ((totalSeconds (totalTime (callObject p.payload))).getD 0) := by
  obtain ⟨summary, hcolumns⟩ := push_columns p
  change some ((p.call.occupancyS.or p.call.durationS).getD 0) = _
  rw [hcolumns]
  change some (((totalSeconds (totalTime (callObject p.payload))).or
    (totalSeconds (totalTime (callObject p.payload)))).getD 0) = _
  rw [Option.or_self]

theorem row_completed_iff (p : Push py) (n : ℕ) :
    (p.row whitelist n).outcome = .completed ↔
      (ts py (field (obj (field (obj (field (callObject p.payload) "callSession"))
        "callStart")) "timestamp")).isSome = true ∧
        (text py (field (callObject p.payload) "room")).isSome = true := by
  obtain ⟨summary, hcolumns⟩ := push_columns p
  change outcomeOf whitelist p.call.callStart.isSome (nullIfEmpty p.call.room)
    p.call.closeReason = .completed ↔ _
  rw [outcomeOf_eq_completed, hcolumns]
  change _ ∧ (nullIfEmpty (text py (field (callObject p.payload) "room"))).isSome = true ↔ _
  rw [nullIfEmpty_eq (text_ne_empty py _)]
  rfl

end Rows

/-- Every accepted push stores consistent durations. -/
def DurationsConsistent (py : PythonText) : Prop :=
  ∀ (whitelist : Whitelist) (p : Push py) (n : ℕ), Consistent (p.row whitelist n)

theorem durations_consistent_iff (py : PythonText) (whitelist : Whitelist) (p : Push py) (n : ℕ) :
    Consistent (p.row whitelist n) ↔ MeasuredTotal py (callObject p.payload) := by
  have htotal : totalSeconds (totalTime (callObject p.payload)) =
      (int (field (totalTime (callObject p.payload)) "seconds")).or
        ((int (field (totalTime (callObject p.payload)) "milliseconds")).map (· / 1000)) := rfl
  rw [consistent_iff (row_durationS p n) (row_occupancyS p n), htotal, MeasuredTotal]
  cases int (field (totalTime (callObject p.payload)) "seconds") with
  | some seconds => simp
  | none =>
    cases int (field (totalTime (callObject p.payload)) "milliseconds") with
    | some ms =>
      have hfloor : 0 ≤ ms / 1000 ↔ 0 ≤ ms := by omega
      simp [hfloor]
    | none =>
      simp only [Option.map_none, Option.or_none, ne_eq, row_completed_iff, not_and_or,
        Option.not_isSome_iff_eq_none]
      exact ⟨fun h => h.2 trivial, fun h => ⟨fun s hs => (nomatch hs), fun _ => h⟩⟩

def ivrCall : Json :=
  .obj [("call", .obj [("details", .obj [("callId", .str "a1@sample.org")]),
    ("callSession", .obj [("callStart", .obj [("timestamp", .str "2026-09-24T08:20:48Z")]),
      ("totalTime", .obj [("seconds", .int (-5))])])])]

/-- A total below zero is stored as the occupancy of a call that joined no room. -/
theorem a_negative_total_is_stored : ¬ DurationsConsistent oneDate := by
  intro h
  obtain ⟨duration, occupancy, hd, ho, hnonneg, hle, -⟩ := h shippedWhitelist
    (.ofPayload oneDate 1790238060000000 ivrCall (by decide +kernel)) 1
  have hoccupancy : some (-5) = some occupancy := ho
  obtain rfl := Option.some.inj hoccupancy
  omega

end IngestDurations
