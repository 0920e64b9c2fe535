import SIPMediaGW.FormTexts
import SIPMediaGW.GroupedSums
import SIPMediaGW.UsageRoutes

/-! # Selections of units

A selection of units as the console sends it, the figures of the Usage and Quality routes that add
up over selections, and the selection of everything. -/
namespace UnitPartition

open Calendar
open CallsTable
open FormTexts
open GroupedSums
open LineTexts
open OrderedQuery
open PythonJson
open QualityCounts
open UsageRoutes

/-- The name that the routes give to calls of no unit. -/
def UNASSIGNED : String := "(unassigned)"

/-- A text between commas that a request reads back as it is. -/
structure Listed (u : String) : Prop where
  nonempty : u ≠ ""
  comma : ',' ∉ u.toList
  strip : strip u = u

/-- The code of a unit. -/
structure Code (u : String) : Prop extends Listed u where
  named : u ≠ UNASSIGNED

/-- `",".join(codes)`. -/
def selection (codes : List String) : Option String := some (",".intercalate codes)

/-- The figures that count calls, sessions or seconds. -/
inductive Figure where
  | calls
  | seconds
  | sessions
  | failed
  | ivrOnly
  | notEstablished
  | ofOutcome (outcome : Outcome)
  | ofPlatform (platform : String)
  | ofUnit (orgUnit : String)
  | ofUnitOnPlatform (orgUnit platform : String)

section Figures

variable {κ : Type} [LinearOrder κ] (ratio : ℕ → ℕ → ℚ) (collate : String → κ)
variable (zone : Zone) (table : List CallRecord) (today : Date) (period : Option String)

/-- What the four routes show of a figure for the units of a request. -/
def shown (units : Option String) : Figure → Except Refusal ℤ
  | .calls => (summary zone table today period units).map fun s => s.calls
  | .seconds => (summary zone table today period units).map fun s => s.seconds
  | .sessions => (summary zone table today period units).map fun s => s.sessions
  | .failed => (summary zone table today period units).map fun s => s.failed
  | .ivrOnly => (summary zone table today period units).map fun s => s.ivrOnly
  | .notEstablished => (summary zone table today period units).map fun s => s.notEstablished
  | .ofOutcome outcome => (outcomes zone table today period units).map fun answer =>
    underKey OutcomeRow.outcome (fun row => row.sessions) outcome answer.2
  | .ofPlatform platform => (platforms zone table today period units).map
    (underKey PlatformRow.platform (fun row => row.calls) platform)
  | .ofUnit orgUnit => (orgUnits zone table today ratio collate period units).map fun answer =>
    underKey UnitRow.orgUnit (fun row => row.calls) orgUnit answer.units
  | .ofUnitOnPlatform orgUnit platform =>
    (orgUnits zone table today ratio collate period units).map fun answer =>
      underKey (fun row : MixRow => (row.orgUnit, row.platform)) (fun row => row.calls)
        (orgUnit, platform) answer.platformMix

end Figures

/-- The calls of a period that a figure counts. -/
def counts : Figure → CallRecord → Bool
  | .calls, r => decide (r.outcome = .completed)
  | .seconds, r => decide (r.outcome = .completed)
  | .sessions, _ => true
  | .failed, r => decide (r.outcome = .failed)
  | .ivrOnly, r => decide (r.outcome = .ivrOnly)
  | .notEstablished, r => decide (r.outcome = .notEstablished)
  | .ofOutcome outcome, r => decide (r.outcome = outcome)
  | .ofPlatform platform, r =>
    decide (r.outcome = .completed) && decide (platformName r = platform)
  | .ofUnit orgUnit, r => decide (r.outcome = .completed) && decide (unitName r = orgUnit)
  | .ofUnitOnPlatform orgUnit platform, r =>
    decide (r.outcome = .completed) &&
      decide ((unitName r, platformName r) = (orgUnit, platform))

def amount : Figure → CallRecord → ℤ
  | .seconds, r => r.stored.call.durationS.getD 0
  | _, _ => 1

section Sums

variable {α β κ' : Type} [DecidableEq κ']

theorem underKey_perm {key : β → κ'} {value : β → ℤ} {k : κ'} {rows rows' : List β}
    (h : rows.Perm rows') : underKey key value k rows = underKey key value k rows' :=
  sumOver_perm (h.filter _)

theorem sum_durations (rows : List CallRecord) :
    (durations rows).sum = sumOver (amount .seconds) rows := by
  induction rows with
  | nil => rfl
  | cons r rows ih =>
    rw [sumOver_cons, ← ih, amount, durations, List.filterMap_cons]
    cases r.stored.call.durationS with
    | none => exact (Int.zero_add _).symm
    | some seconds => exact List.sum_cons

theorem length_ofOutcome (outcome : Outcome) (table : List CallRecord) (q : CallRecord → Bool) :
    ((ofOutcome outcome (table.filter q)).length : ℤ) =
      sumOver (fun _ => 1) (table.filter fun r => decide (r.outcome = outcome) && q r) := by
  rw [sumOver_one, ofOutcome, List.filter_filter]

end Sums

section Shown

variable {κ : Type} [LinearOrder κ] (ratio : ℕ → ℕ → ℚ) (collate : String → κ)
variable (zone : Zone) (table : List CallRecord) (today : Date) (period : Option String)

/-- The calls of the period that a figure counts for the units of a request. -/
def counted (p : Period) (figure : Figure) (units : Option String) : List CallRecord :=
  (table.filter fun r => r.inPeriod zone p && counts figure r && r.isUser).filter
    (unitFilter units)

theorem counted_eq (p : Period) (figure : Figure) (units : Option String) :
    counted zone table p figure units =
      table.filter fun r => counts figure r && (r.inPeriod zone p && callScope units r) := by
  rw [counted, List.filter_filter]
  apply List.filter_congr
  intro r _
  rw [callScope]
  cases r.inPeriod zone p <;> cases counts figure r <;> cases r.isUser <;>
    cases unitFilter units r <;> rfl

variable {zone table today period} {units : Option String} {figure : Figure}

/-- A figure of the summary that is a sum over the calls it counts. -/
theorem summary_figure {f : Summary → ℤ}
    (h : ∀ p, f (figures zone table p units) = sumOver (amount figure)
      (table.filter fun r => counts figure r && (r.inPeriod zone p && callScope units r))) :
    (summary zone table today period units).map f = (resolvePeriod period today).map fun p =>
      sumOver (amount figure) (counted zone table p figure units) := by
  simp only [counted_eq, ← h]
  rw [summary]
  cases resolvePeriod period today with
  | error e => rfl
  | ok p => rfl

/-- The sessions of a row of a group, under its key. -/
theorem underKey_orderBy {μ κ' β : Type} [LinearOrder μ] [DecidableEq κ'] {ord : β → μ}
    {keyOf : CallRecord → κ'} {row : κ' × List CallRecord → β} {key : β → κ'} {value : β → ℤ}
    (hkey : ∀ g, key (row g) = g.1) (hvalue : ∀ g, value (row g) = g.2.length) (k : κ')
    (l : List CallRecord) :
    underKey key value k (orderBy ord ((groupBy keyOf l).map row)) =
      sumOver (fun _ => 1) (l.filter fun r => decide (keyOf r = k)) := by
  exact (underKey_perm (orderBy_perm ord _)).trans
    (underKey_groupBy hkey (fun g => (hvalue g).trans (sumOver_one g.2).symm) k)

theorem filter_completedIn (p : Period) (q : CallRecord → Bool) :
    (completedIn zone table p units).filter q = table.filter fun r =>
      (decide (r.outcome = .completed) && q r) && (r.inPeriod zone p && callScope units r) := by
  rw [completedIn, List.filter_filter]
  apply List.filter_congr
  intro r _
  cases q r <;> cases decide (r.outcome = .completed) <;> simp

/-- A figure is a sum over the calls that it counts. -/
theorem shown_eq (units : Option String) (figure : Figure) :
    shown ratio collate zone table today period units figure =
      (resolvePeriod period today).map fun p =>
        sumOver (amount figure) (counted zone table p figure units) := by
  cases figure with
  | calls => exact summary_figure fun p => length_ofOutcome _ _ _
  | seconds =>
    apply summary_figure
    intro p
    rw [← List.filter_filter, ← sum_durations]
    rfl
  | sessions =>
    apply summary_figure
    intro p
    simp only [counts, Bool.true_and]
    exact (sumOver_one _).symm
  | failed => exact summary_figure fun p => length_ofOutcome _ _ _
  | ivrOnly => exact summary_figure fun p => length_ofOutcome _ _ _
  | notEstablished => exact summary_figure fun p => length_ofOutcome _ _ _
  | ofOutcome outcome =>
    rw [shown, outcomes]
    cases resolvePeriod period today with
    | error e => rfl
    | ok p =>
      refine congrArg Except.ok (Eq.trans ?_ (congrArg _ (counted_eq _ _ p _ units).symm))
      refine (underKey_orderBy ?_ ?_ outcome _).trans (congrArg _ List.filter_filter) <;>
        exact fun g => rfl
  | ofPlatform platform =>
    rw [shown, platforms]
    cases resolvePeriod period today with
    | error e => rfl
    | ok p =>
      refine congrArg Except.ok (Eq.trans ?_ (congrArg _ (counted_eq _ _ p _ units).symm))
      refine (underKey_orderBy ?_ ?_ platform _).trans (congrArg _ (filter_completedIn p _)) <;>
        exact fun g => rfl
  | ofUnit orgUnit =>
    rw [shown, orgUnits]
    cases resolvePeriod period today with
    | error e => rfl
    | ok p =>
      refine congrArg Except.ok (Eq.trans ?_ (congrArg _ (counted_eq _ _ p _ units).symm))
      refine (underKey_perm ((orderBy_perm _ _).map _)).trans
        ((underKey_groupBy ?_ ?_ orgUnit).trans (congrArg _ (filter_completedIn p _)))
      · exact fun g => rfl
      · exact fun g => (sumOver_one g.2).symm
  | ofUnitOnPlatform orgUnit platform =>
    rw [shown, orgUnits]
    cases resolvePeriod period today with
    | error e => rfl
    | ok p =>
      refine congrArg Except.ok (Eq.trans ?_ (congrArg _ (counted_eq _ _ p _ units).symm))
      refine (underKey_orderBy ?_ ?_ (orgUnit, platform) _).trans
        (congrArg _ (filter_completedIn p _)) <;> exact fun g => rfl

end Shown

section Selections

variable {codes : List String}

theorem split_intercalate {sep : Char} {words : List (List Char)} (hne : words ≠ [])
    (h : ∀ word ∈ words, sep ∉ word) : split sep ([sep].intercalate words) = words := by
  induction words with
  | nil => exact absurd rfl hne
  | cons word words ih =>
    obtain ⟨hword, hwords⟩ := List.forall_mem_cons.mp h
    cases words with
    | nil => rw [List.intercalate_singleton, split_of_notMem hword]
    | cons next others =>
      rw [List.intercalate_cons_cons, List.append_assoc, List.singleton_append,
        split_append hword, ih (List.cons_ne_nil next others) hwords]

theorem wantedUnits_selection (hne : codes ≠ []) (h : ∀ u ∈ codes, Listed u) :
    wantedUnits (selection codes) = codes := by
  have hcomma : ∀ word ∈ codes.map String.toList, ',' ∉ word := by
    intro word hword
    obtain ⟨u, hu, rfl⟩ := List.mem_map.mp hword
    exact (h u hu).comma
  have hne' : codes.map String.toList ≠ [] := by
    intro hnil
    exact hne (List.map_eq_nil_iff.mp hnil)
  have hread : (codes.map String.toList).map (fun u => strip (String.ofList u)) = codes := by
    rw [List.map_map]
    apply (List.map_congr_left ?_).trans (List.map_id codes)
    intro u hu
    rw [Function.comp_apply, String.ofList_toList, (h u hu).strip, id]
  have hsep : ",".toList = [','] := rfl
  rw [wantedUnits, selection, Option.getD_some, String.toList_intercalate, hsep,
    split_intercalate hne' hcomma, hread]
  apply List.filter_eq_self.mpr
  intro u hu
  exact decide_eq_true (h u hu).nonempty

theorem listed_unassigned : Listed UNASSIGNED where
  nonempty := by decide
  comma := by decide
  strip := by decide

/-- A selection keeps the calls whose unit it names. -/
theorem unitFilter_selection (hne : codes ≠ []) (h : ∀ u ∈ codes, Listed u) {r : CallRecord}
    (hr : ∀ u ∈ r.orgUnit, u ≠ UNASSIGNED) :
    unitFilter (selection codes) r = decide (unitName r ∈ codes) := by
  rw [unitFilter, wantedUnits_selection hne h, if_neg hne, unitName]
  have hnamed {u : String} : u ∈ codes.filter (fun u => decide (u ≠ "(unassigned)")) ↔
      u ∈ codes ∧ u ≠ UNASSIGNED := by
    rw [List.mem_filter, decide_eq_true_eq, UNASSIGNED]
  cases horg : r.orgUnit with
  | none =>
    have hlength : (codes.filter fun u => decide (u ≠ "(unassigned)")).length ≠ codes.length ↔
        UNASSIGNED ∈ codes := by
      rw [ne_eq, List.length_filter_eq_length_iff]
      constructor
      · intro hnot
        by_contra hmem
        apply hnot
        intro u hu
        apply decide_eq_true
        rintro rfl
        exact hmem hu
      · intro hmem hall
        exact of_decide_eq_true (hall UNASSIGNED hmem) rfl
    dsimp only
    rw [Option.any_none, Option.isNone_none, Bool.and_true, Bool.false_or, Option.getD_none]
    exact decide_eq_decide.mpr hlength
  | some u =>
    have hu : u ≠ UNASSIGNED := hr u horg
    dsimp only
    rw [Option.any_some, Option.isNone_some, Bool.and_false, Bool.or_false, Option.getD_some]
    exact decide_eq_decide.mpr (hnamed.trans (and_iff_left hu))

end Selections

section Partition

variable {κ : Type} [LinearOrder κ] {ratio : ℕ → ℕ → ℚ} {collate : String → κ}
variable {zone : Zone} {table : List CallRecord} {today : Date} {period : Option String}
variable {codes : List String} {parts : List (List String)}

/-- Parts of a set, none of them empty. -/
structure Partition (codes : List String) (parts : List (List String)) : Prop where
  nonempty : ∀ part ∈ parts, part ≠ []
  disjoint : parts.Pairwise List.Disjoint
  cover : ∀ u, u ∈ codes ↔ ∃ part ∈ parts, u ∈ part

/-- Every unit of a table has a code. -/
def Coded (table : List CallRecord) : Prop := ∀ r ∈ table, ∀ u ∈ r.orgUnit, Code u

/-- A selection of codes and of the calls without a unit. -/
structure Selection (codes : List String) : Prop where
  nonempty : codes ≠ []
  coded : ∀ u ∈ codes, u = UNASSIGNED ∨ Code u

theorem Selection.listed (h : Selection codes) : ∀ u ∈ codes, Listed u := by
  intro u hu
  rcases h.coded u hu with rfl | hcode
  · exact listed_unassigned
  · exact hcode.toListed

theorem Selection.unitFilter (h : Selection codes) (htable : Coded table) {r : CallRecord}
    (hr : r ∈ table) : unitFilter (selection codes) r = decide (unitName r ∈ codes) :=
  unitFilter_selection h.nonempty h.listed fun u hu => (htable r hr u hu).named

theorem Partition.selection (h : Partition codes parts) (hcodes : Selection codes) :
    ∀ part ∈ parts, Selection part := by
  intro part hpart
  exact ⟨h.nonempty part hpart, fun u hu => hcodes.coded u ((h.cover u).mpr ⟨part, hpart, hu⟩)⟩

/-- What is counted for a selection is what is counted for its parts. -/
theorem sumOver_counted (htable : Coded table) (hcodes : Selection codes)
    (hparts : Partition codes parts) (p : Period) (figure : Figure) :
    sumOver (amount figure) (counted zone table p figure (selection codes)) =
      (parts.map fun part =>
        sumOver (amount figure) (counted zone table p figure (selection part))).sum := by
  have hany : counted zone table p figure (selection codes) =
      (table.filter fun r => r.inPeriod zone p && counts figure r && r.isUser).filter fun r =>
        (parts.map fun part => unitFilter (selection part)).any fun q => q r := by
    apply List.filter_congr
    intro r hr
    have hr' := List.mem_of_mem_filter hr
    rw [hcodes.unitFilter htable hr', List.any_map, Bool.eq_iff_iff, decide_eq_true_eq,
      hparts.cover, List.any_eq_true]
    constructor
    · rintro ⟨part, hpart, hmem⟩
      refine ⟨part, hpart, ?_⟩
      rw [Function.comp_apply, (hparts.selection hcodes part hpart).unitFilter htable hr']
      exact decide_eq_true hmem
    · rintro ⟨part, hpart, hkept⟩
      rw [Function.comp_apply, (hparts.selection hcodes part hpart).unitFilter htable hr'] at hkept
      exact ⟨part, hpart, of_decide_eq_true hkept⟩
  rw [hany, sumOver_filter_parts, sumOver_map]
  · rfl
  · apply List.pairwise_map.mpr
    apply hparts.disjoint.imp_of_mem
    intro part other hpart hother hdisjoint r hr hkept
    have hr' := List.mem_of_mem_filter hr
    rw [(hparts.selection hcodes part hpart).unitFilter htable hr'] at hkept
    rw [(hparts.selection hcodes other hother).unitFilter htable hr']
    exact decide_eq_false fun hmem => hdisjoint (of_decide_eq_true hkept) hmem

/-- Requests that differ in their units only are refused together. -/
theorem mapM_map {ε α β γ : Type} (x : Except ε α) (f : β → α → γ) {l : List β} (h : l ≠ []) :
    (l.mapM fun b => x.map (f b)) = x.map fun a => l.map fun b => f b a := by
  cases x with
  | error e =>
    obtain ⟨b, l, rfl⟩ := List.exists_cons_of_ne_nil h
    rw [List.mapM_cons]
    rfl
  | ok a =>
    clear h
    induction l with
    | nil => rfl
    | cons b l ih =>
      rw [List.mapM_cons, ih]
      rfl

/-- The four routes answer the same for two selections. -/
structure SameAnswers (ratio : ℕ → ℕ → ℚ) (collate : String → κ) (zone : Zone)
    (table : List CallRecord) (today : Date) (period units units' : Option String) : Prop where
  summary : summary zone table today period units = summary zone table today period units'
  outcomes : outcomes zone table today period units = outcomes zone table today period units'
  platforms : platforms zone table today period units = platforms zone table today period units'
  orgUnits : orgUnits zone table today ratio collate period units =
    orgUnits zone table today ratio collate period units'

theorem sameAnswers_of_callScope {units units' : Option String}
    (h : ∀ r ∈ table, callScope units r = callScope units' r) :
    SameAnswers ratio collate zone table today period units units' := by
  have hfilter (q : CallRecord → Bool) : (table.filter fun r => q r && callScope units r) =
      table.filter fun r => q r && callScope units' r := by
    apply List.filter_congr
    intro r hr
    rw [h r hr]
  have hpeak (since stop : ℤ) :
      peakConcurrent table units since stop = peakConcurrent table units' since stop := by
    rw [peakConcurrent, peakConcurrent, sweptEvents, sweptEvents, hfilter]
  have hcompleted (p : Period) : completedIn zone table p units = completedIn zone table p units' :=
    hfilter _
  constructor
  · simp only [summary, figures, hfilter, hpeak]
  · simp only [outcomes, hfilter]
  · simp only [platforms, hcompleted]
  · simp only [orgUnits, hcompleted]

/-- Selections are sets: figures add up over parts, and everything selected is nothing selected. -/
theorem units_partition (htable : Coded table) (hcodes : Selection codes) :
    (∀ parts, Partition codes parts → ∀ figure,
      shown ratio collate zone table today period (selection codes) figure =
        (parts.mapM fun part =>
          shown ratio collate zone table today period (selection part) figure).map List.sum) ∧
    ((∀ r ∈ table, ∀ u ∈ r.orgUnit, u ∈ codes) → UNASSIGNED ∈ codes →
      SameAnswers ratio collate zone table today period (selection codes) none) := by
  constructor
  · intro parts hparts figure
    have hne : parts ≠ [] := by
      rintro rfl
      obtain ⟨u, hu⟩ := List.exists_mem_of_ne_nil codes hcodes.nonempty
      obtain ⟨part, hpart, -⟩ := (hparts.cover u).mp hu
      cases hpart
    simp only [shown_eq]
    rw [mapM_map _ _ hne]
    cases resolvePeriod period today with
    | error e => rfl
    | ok p => exact congrArg Except.ok (sumOver_counted htable hcodes hparts p figure)
  · intro hpresent hunassigned
    apply sameAnswers_of_callScope
    intro r hr
    have hname : unitName r ∈ codes := by
      rw [unitName]
      cases horg : r.orgUnit with
      | none => exact hunassigned
      | some u => exact hpresent r hr u horg
    rw [callScope, callScope, hcodes.unitFilter htable hr, decide_eq_true hname]
    rfl

end Partition

/-- Two calls of a unit, one of another and one of none, on 2 January 2026. -/
def januaryCalls : List CallRecord :=
  [some "IT", some "HR", some "IT", none].map fun u =>
    { timedCall (1767312000000000, 1767315600000000) with orgUnit := u }

theorem code_of {u : String} (h : u ≠ "" ∧ ',' ∉ u.toList ∧ strip u = u ∧ u ≠ UNASSIGNED) :
    Code u :=
  ⟨⟨h.1, h.2.1, h.2.2.1⟩, h.2.2.2⟩

theorem code_IT : Code "IT" := code_of (by decide)

theorem code_HR : Code "HR" := code_of (by decide)

theorem januaryCalls_coded : Coded januaryCalls := by
  intro r hr u hu
  simp only [januaryCalls, List.map_cons, List.map_nil, List.mem_cons, List.not_mem_nil,
    or_false] at hr
  rcases hr with rfl | rfl | rfl | rfl
  · exact Option.some.inj hu ▸ code_IT
  · exact Option.some.inj hu ▸ code_HR
  · exact Option.some.inj hu ▸ code_IT
  · cases hu

theorem januaryCalls_selection : Selection ["IT", "HR", UNASSIGNED] where
  nonempty := List.cons_ne_nil _ _
  coded u hu := by
    simp only [List.mem_cons, List.not_mem_nil, or_false] at hu
    rcases hu with rfl | rfl | rfl
    · exact .inr code_IT
    · exact .inr code_HR
    · exact .inl rfl

theorem januaryCalls_parts : Partition ["IT", "HR", UNASSIGNED] [["HR", "IT"], [UNASSIGNED]] where
  nonempty := by decide
  disjoint := by
    rw [List.pairwise_pair]
    intro u hu hother
    obtain rfl := List.mem_singleton.mp hother
    exact absurd hu (by decide)
  cover u := by
    simp only [List.mem_cons, List.not_mem_nil, or_false, exists_eq_or_imp, exists_eq_left]
    tauto

/-- The order of the three names. -/
def firstLetter (name : String) : ℕ := (name.toList.head?.map Char.toNat).getD 0

theorem januaryCalls_units :
    let ratio := fun n total : ℕ => roundOneDigit (100 * n / total)
    let codes := ["IT", "HR", UNASSIGNED]
    (shown ratio firstLetter twoHoursEast januaryCalls (.newYear 2026) (some "month")
        (selection codes) .sessions =
      ([["HR", "IT"], [UNASSIGNED]].mapM fun part =>
        shown ratio firstLetter twoHoursEast januaryCalls (.newYear 2026) (some "month")
          (selection part) .sessions).map List.sum) ∧
    SameAnswers ratio firstLetter twoHoursEast januaryCalls (.newYear 2026) (some "month")
      (selection codes) none := by
  intro ratio codes
  have hunits := @units_partition ℕ _ ratio firstLetter twoHoursEast januaryCalls (.newYear 2026)
    (some "month") codes januaryCalls_coded januaryCalls_selection
  refine ⟨hunits.1 _ januaryCalls_parts .sessions, hunits.2 ?_ ?_⟩
  · decide
  · decide

end UnitPartition
