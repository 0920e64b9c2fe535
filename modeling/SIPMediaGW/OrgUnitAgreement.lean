import SIPMediaGW.OrgUnitRules

/-! # The probe, the trigger and the recompute agree

The probe sorts upwards, entities without activity included, and keeps the last deciding row;
the resolver drops them first, sorts downwards and keeps the first. -/
namespace OrgUnitAgreement

open OrgUnitRules
open OrderedQuery

variable {pg : Postgres} {book : Rulebook}

theorem sourceName_of_push {py : IngestMapping.PythonText} {payload : PythonJson.Json}
    {row : IngestMapping.CallRow} (h : IngestMapping.callRow py payload = .ok row) :
    row.sourceName ≠ some "" := by
  unfold IngestMapping.callRow at h
  obtain ⟨call, -, h⟩ := PythonJson.bind_eq_ok h
  obtain ⟨summary, -, h⟩ := PythonJson.bind_eq_ok h
  obtain rfl := Except.ok.inj h
  exact IngestMapping.text_ne_empty py _

/-- The caller of a pushed call, as the ingestion stores it. -/
def ofPush (id : ℕ) {py : IngestMapping.PythonText} {payload : PythonJson.Json}
    {row : IngestMapping.CallRow} (h : IngestMapping.callRow py payload = .ok row) : CallEntry :=
  { id := id, sourceUri := row.sourceUri, sourceName := row.sourceName
    sourceNumber := row.sourceNumber, sourceDomain := row.sourceDomain
    orgUnit := none, named := sourceName_of_push h }

/-- What the console posts to try the caller of a stored call. -/
def probeOf (c : CallEntry) : Probe := ⟨c.sourceUri, c.sourceName⟩

/-- A stored URI that is not empty behind its scheme. -/
def HasUri (c : CallEntry) : Prop := ∃ uri, c.sourceUri = some uri ∧ stripScheme uri ≠ ""

def callerUri (c : CallEntry) : Option String :=
  orgUnitUri c.sourceUri c.sourceNumber c.sourceDomain

theorem orNone_eq {value : Option String} (h : value ≠ some "") : orNone value = value := by
  cases value with
  | none => rfl
  | some v =>
    have hv : v ≠ "" := fun he => h (by rw [he])
    simp [orNone, Option.filter, hv]

/-- The number and the domain are not read once there is a URI. -/
theorem orgUnitUri_probe {c : CallEntry} (h : HasUri c) :
    orgUnitUri (orNone (probeOf c).uri) none none = callerUri c := by
  obtain ⟨uri, huri, hne⟩ := h
  have hnonempty : c.sourceUri ≠ some "" := by
    rintro he
    rw [huri] at he
    obtain rfl := Option.some.inj he
    exact hne rfl
  rw [probeOf, orNone_eq hnonempty, callerUri, huri]
  simp [orgUnitUri, Option.filter, hne]

theorem mem_joined {m : Match} :
    m ∈ book.joined ↔ m.rule ∈ book.rules ∧ book.unitActive m.rule = some m.unitActive := by
  simp only [Rulebook.joined, List.mem_filterMap, Option.map_eq_some_iff]
  constructor
  · rintro ⟨r, hr, active, ha, rfl⟩
    exact ⟨hr, ha⟩
  · rintro ⟨hr, ha⟩
    exact ⟨m.rule, hr, m.unitActive, ha, rfl⟩

/-- The rows the probe shows, before they are sorted. -/
def found (pg : Postgres) (book : Rulebook) (uri callerAlias : Option String) : List Match :=
  book.joined.filter fun m => m.rule.active && matched pg uri callerAlias m.rule

theorem testRules_eq (h : NoRunTimeError pg book) (body : Probe) :
    testRules pg book body =
      some ⟨orderBy (fun m => evaluation m.rule)
          (found pg book (orgUnitUri (orNone body.uri) none none) (orNone body.callerAlias)),
        ((orderBy (fun m => evaluation m.rule)
          (found pg book (orgUnitUri (orNone body.uri) none none)
            (orNone body.callerAlias))).filter Match.unitActive).getLast?⟩ := by
  have hselect : selectWhere (fun m : Match =>
      if m.rule.active = true then
        ruleMatches pg (orgUnitUri (orNone body.uri) none none) (orNone body.callerAlias) m.rule
      else some false) book.joined =
        some (found pg book (orgUnitUri (orNone body.uri) none none)
          (orNone body.callerAlias)) := by
    apply selectWhere_eq_filter
    intro m hm
    by_cases hc : m.rule.active = true
    · rw [if_pos hc, ruleMatches_eq h (mem_joined.mp hm).1, hc, Bool.true_and]
    · rw [if_neg hc]
      simp [hc]
  simp only [testRules, hselect, Option.map_some]

variable {uri callerAlias : Option String}

theorem mem_deciding {r : Rule} :
    r ∈ book.deciding pg uri callerAlias ↔
      (⟨r, true⟩ : Match) ∈ (found pg book uri callerAlias).filter Match.unitActive := by
  simp only [Rulebook.deciding, found, List.mem_filter, mem_joined, Bool.and_eq_true,
    decide_eq_true_eq]
  tauto

theorem found_unique (pg : Postgres) (book : Rulebook) (uri callerAlias : Option String) :
    KeyUnique (fun m : Match => evaluation m.rule) (found pg book uri callerAlias) := by
  rintro ⟨r, x⟩ hm ⟨s, y⟩ hn hkey
  have hr := mem_joined.mp (List.mem_of_mem_filter hm)
  have hs := mem_joined.mp (List.mem_of_mem_filter hn)
  obtain rfl : r = s := evaluation_unique book r hr.1 s hs.1 hkey
  have hxy : some x = some y := hr.2.symm.trans hs.2
  rw [Option.some.inj hxy]

/-- The winner of the probe is the deciding rule with the highest place. -/
theorem winner_eq_some {m : Match} :
    ((orderBy (fun m : Match => evaluation m.rule) (found pg book uri callerAlias)).filter
        Match.unitActive).getLast? = some m ↔
      m.unitActive = true ∧ Top evaluation (book.deciding pg uri callerAlias) m.rule := by
  rw [getLast?_filter_orderBy_eq_some (found_unique pg book uri callerAlias)]
  constructor
  · intro h
    have hactive : m.unitActive = true := (List.mem_filter.mp h.mem).2
    have hm : m = ⟨m.rule, true⟩ := by rw [← hactive]
    refine ⟨hactive, mem_deciding.mpr (hm ▸ h.mem), ?_⟩
    intro r hr
    exact h.le _ (mem_deciding.mp hr)
  · rintro ⟨hactive, h⟩
    have hm : m = ⟨m.rule, true⟩ := by rw [← hactive]
    constructor
    · rw [hm]
      exact mem_deciding.mp h.mem
    · intro n hn
      have hn' : n.unitActive = true := (List.mem_filter.mp hn).2
      apply h.le
      rw [mem_deciding, ← hn']
      exact hn

/-- What the resolver finds for the caller is what the probe's winner says. -/
theorem resolve_eq_winner (h : NoRunTimeError pg book) :
    resolveOrgUnit pg book uri callerAlias =
      some (((orderBy (fun m : Match => evaluation m.rule)
        (found pg book uri callerAlias)).filter Match.unitActive).getLast?.map
          fun m => m.rule.orgUnitCode) := by
  cases hw : ((orderBy (fun m : Match => evaluation m.rule)
      (found pg book uri callerAlias)).filter Match.unitActive).getLast? with
  | some m => exact resolveOrgUnit_some h (winner_eq_some.mp hw).2
  | none =>
    apply resolveOrgUnit_none h
    rw [List.eq_nil_iff_forall_not_mem]
    intro r hr
    have hempty := List.getLast?_eq_none_iff.mp hw
    have hm := mem_deciding.mp hr
    have hsorted : (⟨r, true⟩ : Match) ∈
        (orderBy (fun m : Match => evaluation m.rule) (found pg book uri callerAlias)).filter
          Match.unitActive := by
      rw [List.mem_filter] at hm ⊢
      exact ⟨mem_orderBy.mpr hm.1, hm.2⟩
    rw [hempty] at hsorted
    cases hsorted

theorem resolve_total (h : NoRunTimeError pg book) (uri callerAlias : Option String) :
    resolveOrgUnit pg book uri callerAlias =
      some ((resolveOrgUnit pg book uri callerAlias).getD none) := by
  rw [resolve_eq_winner h]
  rfl

/-- A recompute gives every call what the trigger would. -/
theorem recomputeOrgUnits_eq (h : NoRunTimeError pg book) (calls : List CallEntry) :
    ∃ run, recomputeOrgUnits pg book calls = some run ∧
      run.calls = calls.map (callsSetOrgUnit pg book) := by
  have hresolved : calls.mapM (resolveCall pg book) =
      some (calls.map fun c => (resolveCall pg book c).getD none) :=
    mapM_eq_map fun c _ => resolve_total h _ _
  refine ⟨_, by rw [recomputeOrgUnits, hresolved, Option.map_some], ?_⟩
  simp only [← List.map_prod_left_eq_zip, List.map_map]
  apply List.map_congr_left
  intro c _
  by_cases hsame : c.orgUnit = (resolveCall pg book c).getD none
  · simp [callsSetOrgUnit, ← hsame]
  · simp [callsSetOrgUnit, hsame]

theorem callsSetOrgUnit_stored (c : CallEntry) (stored : Option String) :
    callsSetOrgUnit pg book { c with orgUnit := stored } = callsSetOrgUnit pg book c := rfl

/-- The probe's winner, the unit the trigger stores, and the unit every later recompute
leaves in the row, whatever it holds by then. -/
theorem probe_trigger_recompute_agree (h : NoRunTimeError pg book) (c : CallEntry)
    (hc : HasUri c) :
    ∃ answer, testRules pg book (probeOf c) = some answer ∧
      answer.winner.map (fun m => m.rule.orgUnitCode) = (callsSetOrgUnit pg book c).orgUnit ∧
      (answer.winner = none ↔ (callsSetOrgUnit pg book c).orgUnit = none) ∧
      ∀ (calls : List CallEntry) (i : ℕ) (stored : Option String),
        calls[i]? = some { c with orgUnit := stored } →
          ∃ run, recomputeOrgUnits pg book calls = some run ∧
            run.calls[i]? =
              some { c with orgUnit := answer.winner.map fun m => m.rule.orgUnitCode } := by
  have hprobe := testRules_eq h (probeOf c)
  have hname : orNone (probeOf c).callerAlias = c.sourceName := orNone_eq c.named
  rw [orgUnitUri_probe hc, hname] at hprobe
  have hunit : (callsSetOrgUnit pg book c).orgUnit =
      ((orderBy (fun m : Match => evaluation m.rule)
        (found pg book (callerUri c) c.sourceName)).filter Match.unitActive).getLast?.map
          fun m => m.rule.orgUnitCode := by
    have hresolve : resolveCall pg book c = _ := resolve_eq_winner h
    simp only [callsSetOrgUnit, hresolve, Option.getD_some, callerUri]
  refine ⟨_, hprobe, hunit.symm, ?_, ?_⟩
  · rw [hunit, Option.map_eq_none_iff]
  · intro calls i stored hi
    obtain ⟨run, hrun, hcalls⟩ := recomputeOrgUnits_eq h calls
    refine ⟨run, hrun, ?_⟩
    rw [hcalls, List.getElem?_map, hi, Option.map_some, callsSetOrgUnit_stored, ← hunit]
    rfl

/-- A rule without a position, two with the same one, and one of an inactive entity. -/
def campusBook : Rulebook where
  units := [⟨"LAB", true⟩, ⟨"HALL", true⟩, ⟨"OLD", false⟩]
  rules :=
    [⟨1, "LAB", .uri, .suffixMatch, "@sample.org", 100, true, none⟩,
      ⟨2, "HALL", .uri, .prefixMatch, "21", 100, true, some 1⟩,
      ⟨3, "LAB", .callerAlias, .regexMatch, "room", 100, true, some 1⟩,
      ⟨4, "OLD", .uri, .prefixMatch, "2", 100, true, some 2⟩]
  codes := by decide
  ids := by decide

def visitor : CallEntry where
  id := 1
  sourceUri := some "sip:2134@sample.org"
  sourceName := some "Room 21"
  sourceNumber := none
  sourceDomain := none
  orgUnit := none
  named := by decide

theorem visitor_agrees :
    (testRules plainPostgres campusBook (probeOf visitor)).isSome = true ∧
      (callsSetOrgUnit plainPostgres campusBook visitor).orgUnit = some "LAB" ∧
      ∃ answer, testRules plainPostgres campusBook (probeOf visitor) = some answer ∧
        answer.winner.map (fun m => m.rule.orgUnitCode) = some "LAB" := by
  have herror : NoRunTimeError plainPostgres campusBook := fun _ _ _ _ => rfl
  have huri : HasUri visitor := ⟨_, rfl, by decide +kernel⟩
  have hlab : (callsSetOrgUnit plainPostgres campusBook visitor).orgUnit = some "LAB" := by
    decide +kernel
  obtain ⟨answer, hanswer, hunit, -⟩ := probe_trigger_recompute_agree herror visitor huri
  exact ⟨by rw [hanswer]; rfl, hlab, answer, hanswer, hunit.trans hlab⟩

end OrgUnitAgreement
