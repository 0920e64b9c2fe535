import SIPMediaGW.LikePatterns
import SIPMediaGW.QualityCounts

/-! # The search box of the Journal

What is typed is searched as it is, in any case, in thirteen columns of the calls. -/
namespace SearchBox

open Calendar
open CallsTable
open IngestMapping
open LikePatterns
open OrderedQuery
open PythonJson
open QualityCounts

/-- `lower()` of the database, character by character: it keeps the marks of a pattern, and makes
none of a letter. -/
structure Folding where
  lower : Char → Char
  kept : ∀ c, isMark c = true → lower c = c
  made : ∀ c, isMark (lower c) = isMark c

def likePattern (text : String) : String :=
  let escaped := replace '_' ['\\', '_'] (replace '%' ['\\', '%']
    (replace '\\' ['\\', '\\'] text.toList))
  String.ofList ('%' :: (escaped ++ ['%']))

namespace Folding

variable (f : Folding)

/-- `value ILIKE pattern`. -/
def ilike (value pattern : String) : Option Bool :=
  like (pattern.toList.map f.lower) (value.toList.map f.lower)

/-- One text inside another, whatever the case. -/
def Contains (value text : String) : Prop :=
  text.toList.map f.lower <:+: value.toList.map f.lower

instance (value text : String) : Decidable (f.Contains value text) :=
  inferInstanceAs (Decidable (_ <:+: _))

end Folding

/-- The columns of `SEARCHED`. -/
def searched (r : CallRecord) : List (Option String) :=
  let call := r.stored.call
  [call.callId, call.room, call.sourceUri, call.sourceNumber, call.sourceName,
    call.peerDisplayName, call.gwAlias, r.orgUnit, call.peerUserAgent, call.gwVersion,
    call.baresipPatch, call.videoCodec, call.audioCodec]

/-- `SEARCH_CLAUSE`: NULL is not found in. -/
def searchClause (f : Folding) : Search := fun q r =>
  (searched r).any fun column =>
    column.any fun value => f.ilike value (likePattern q) == some true

/-- A column that is not NULL and contains what was typed. -/
def Found (f : Folding) (q : String) (r : CallRecord) : Prop :=
  ∃ column ∈ searched r, ∃ value ∈ column, f.Contains value q

instance (f : Folding) (q : String) (r : CallRecord) : Decidable (Found f q r) :=
  inferInstanceAs (Decidable (∃ column ∈ searched r, ∃ value ∈ column, f.Contains value q))

section Searches

variable (f : Folding)

/-- The pattern of a text matches the values that contain it. -/
theorem ilike_likePattern (value text : String) :
    f.ilike value (likePattern text) = some (decide (f.Contains value text)) := by
  have hpattern : (likePattern text).toList = around text.toList := by
    rw [likePattern, String.toList_ofList, replace_marks, around]
  rw [Folding.ilike, hpattern, map_around f.kept f.made, like_around]
  rfl

theorem searchClause_eq (q : String) (r : CallRecord) :
    searchClause f q r = decide (Found f q r) := by
  rw [searchClause, Bool.eq_iff_iff, List.any_eq_true, decide_eq_true_eq, Found]
  simp only [ilike_likePattern, Option.any_eq_true, beq_iff_eq, Option.some_inj, decide_eq_true_eq]
  exact Iff.rfl

variable {py : PythonText} {zone : Zone} {table : List CallRecord} {today : Date}

/-- The search finds what is typed as it is: the wildcards and the escape match themselves. -/
theorem search_literal :
    (∀ value text : String, f.ilike value (likePattern text) = some true ↔
      f.Contains value text) ∧
    ∀ (request : CallsRequest) (os vs : List String) (since stop : ℤ),
      request.q ≠ "" → callNumber request.q = none →
      choices request.outcome OUTCOMES "outcome" = .ok os →
      choices request.video VIDEO_STATES "video state" = .ok vs →
      callWindow py zone today request.start request.stop = .ok (since, stop) →
      (searchCalls py zone (searchClause f) table today request).map Page.calls =
        .ok (((orderBy startKey (table.filter fun r => r.inWindow since stop &&
          decide (Found f request.q r) && exactFilters request.reason os vs r)).drop
            request.offset).take request.limit) := by
  constructor
  · intro value text
    rw [ilike_likePattern, Option.some_inj, decide_eq_true_eq]
  · intro request os vs since stop hq hnumber houtcome hvideo hwindow
    rw [searchCalls, houtcome, hvideo, hwindow]
    simp only [bind, Except.bind, hnumber, searchClause_eq, decide_eq_false hq, Bool.false_or]
    rfl

end Searches

theorem mark_cases {c : Char} (h : isMark c = true) : c = '\\' ∨ c = '%' ∨ c = '_' := by
  rw [isMark, Bool.or_eq_true, Bool.or_eq_true, beq_iff_eq, beq_iff_eq, beq_iff_eq, or_assoc] at h
  exact h

theorem toNat_of_isMark {c : Char} (h : isMark c = true) :
    c.toNat = 92 ∨ c.toNat = 37 ∨ c.toNat = 95 := by
  rcases mark_cases h with rfl | rfl | rfl
  · exact .inl rfl
  · exact .inr (.inl rfl)
  · exact .inr (.inr rfl)

theorem toLower_mark {c : Char} (h : isMark c = true) : c.toLower = c := by
  rcases mark_cases h with rfl | rfl | rfl <;> rfl

/-- Only capitals change, and they become letters. -/
theorem isMark_toLower (c : Char) : isMark c.toLower = isMark c := by
  have hcapital {d : Char} (h : d.toNat < 128) (h' : 65 ≤ d.toNat)
      (hmarks : d.toNat ≠ 92 ∧ d.toNat ≠ 95) : isMark d = false := by
    rw [Bool.eq_false_iff]
    intro hmark
    have hcases := toNat_of_isMark hmark
    omega
  unfold Char.toLower
  split
  · next h =>
    have hrange : 65 ≤ c.toNat ∧ c.toNat ≤ 90 := h
    have hvalue : (c.val + ('a'.val - 'A'.val)).toNat = c.toNat + 32 := by
      change (c.val + 32).toNat = c.val.toNat + 32
      have hval : c.val.toNat ≤ 90 := hrange.2
      rw [UInt32.toNat_add]
      exact Nat.mod_eq_of_lt (by change c.val.toNat + 32 < 4294967296; omega)
    rw [hcapital (d := c) (by omega) hrange.1 (by omega)]
    apply hcapital
    · change (c.val + ('a'.val - 'A'.val)).toNat < 128
      omega
    · change 65 ≤ (c.val + ('a'.val - 'A'.val)).toNat
      omega
    · change (c.val + ('a'.val - 'A'.val)).toNat ≠ 92 ∧ (c.val + ('a'.val - 'A'.val)).toNat ≠ 95
      omega
  · rfl

/-- `lower()` on the letters of ASCII. -/
def asciiFolding : Folding where
  lower := Char.toLower
  kept _ h := toLower_mark h
  made := isMark_toLower

/-- What a search for `50% off` asks of a day. -/
def percentRequest : CallsRequest where
  start := none
  stop := none
  q := "50% OFF"
  reason := none
  outcome := none
  video := none
  limit := 50
  offset := 0
  q_length := by decide
  reason_length _ h := by cases h
  outcome_length _ h := by cases h
  video_length _ h := by cases h
  limit_range := by decide

/-- The rooms of three calls of one day. -/
def roomCalls : List CallRecord :=
  ["Sales, 50% off", "Sales, 500 off", "50\\% off"].map fun room =>
    { stored := newCall 1 1785600000000000
        { callColumns augustDays [] ⟨none, none, none, none, none⟩ with
          room := some room, callStart := some 1785600000000000 } (.obj [])
      orgUnit := none }

/-- A day in August 2026. -/
def augustDay : Date := .first 2026 8 (by decide) (by decide)

theorem augustDay_window : callWindow augustDays twoHoursEast augustDay none none =
    .ok (1785535200000000, 1785621599999999) := by
  have hmidnight : midnight augustDay = 1785542400000000 := by decide +kernel
  simp only [callWindow, parseInstant, hmidnight]
  rfl

/-- The percent sign is no wildcard, and the case does not count. -/
theorem percent_found :
    (asciiFolding.ilike "Sales, 50% off" (likePattern "50% OFF") = some true ↔
      asciiFolding.Contains "Sales, 50% off" "50% OFF") ∧
    (searchCalls augustDays twoHoursEast (searchClause asciiFolding) roomCalls augustDay
        percentRequest).map Page.calls =
      .ok (((orderBy startKey (roomCalls.filter fun r =>
        r.inWindow 1785535200000000 1785621599999999 &&
          decide (Found asciiFolding "50% OFF" r) &&
          exactFilters none [] [] r)).drop 0).take 50) := by
  have h := @search_literal asciiFolding augustDays twoHoursEast roomCalls augustDay
  refine ⟨h.1 _ _, h.2 percentRequest [] [] _ _ ?_ ?_ rfl rfl augustDay_window⟩
  · decide
  · decide

end SearchBox
