import SIPMediaGW.OrgUnitAgreement
import SIPMediaGW.OrgUnitAudit

/-! # What the console writes, the resolution can read

Every row that a request writes has a checked code, trimmed texts and no regular expression: no
resolution raises, so no call is lost to a rule and no recompute is refused. -/
namespace OrgUnitResolution

open InterleavedStatements
open LabelledExecutions
open OrderedQuery
open OrgUnitAudit hiding knownUnit
open OrgUnitConsole
open OrgUnitRules
open PythonJson

/-- A required text without blanks around it. -/
structure Trimmed (s : String) (limit : ℕ) : Prop where
  given : s ≠ ""
  trimmed : strip s = s
  bounded : s.length ≤ limit

structure WrittenUnit (u : UnitRow) : Prop where
  code : isCode u.code.toList = true
  label : Trimmed u.label 80

structure WrittenRule (r : RuleRow) : Prop where
  literal : r.matchType ≠ .regexMatch
  pattern : Trimmed r.pattern 128
  comment : ∃ d, r.comment = some d ∧ Trimmed d 200
  position : ∃ p, r.position = some p ∧ 1 ≤ p

structure WellWritten (t : Tables) : Prop where
  units : ∀ u ∈ t.units, WrittenUnit u
  rules : ∀ r ∈ t.rules, WrittenRule r

theorem wellWritten_installed : WellWritten installed.toTables where
  units _ h := absurd h List.not_mem_nil
  rules _ h := absurd h List.not_mem_nil

section Checks

variable {value a what : String} {limit : ℕ}

theorem text_eq_ok (h : text (some value) what limit = .ok a) : a = value ∧ Trimmed a limit := by
  simp only [text] at h
  split at h
  · cases h
  · rename_i hgiven
    split at h
    · cases h
    · rename_i htrimmed
      split at h
      · cases h
      · rename_i hbounded
        obtain rfl := Except.ok.inj h
        have hstrip : strip value = value := (not_not.mp htrimmed).symm
        refine ⟨rfl, ?_, hstrip, not_lt.mp hbounded⟩
        rwa [hstrip] at hgiven

theorem consoleMatchType_ne {s : String} {m : MatchType} (h : consoleMatchType s = some m) :
    m ≠ .regexMatch := by
  unfold consoleMatchType at h
  split at h
  · obtain rfl := Option.some.inj h
    exact fun h => nomatch h
  · split at h
    · obtain rfl := Option.some.inj h
      exact fun h => nomatch h
    · cases h

/-- A body that passes the check. -/
structure RuleChecks (rule : CheckedRule) : Prop where
  literal : rule.matchType ≠ .regexMatch
  pattern : Trimmed rule.pattern 128
  description : Trimmed rule.description 200

theorem checkRule_eq_ok {body : RuleBody} {rule : CheckedRule} (h : checkRule body = .ok rule) :
    RuleChecks rule := by
  unfold checkRule at h
  split at h
  · cases h
  · split at h
    · cases h
    · rename_i matchType hmatch
      cases hpattern : text (some body.pattern) "pattern" 128 with
      | error r => simp [hpattern, bind, Except.bind] at h
      | ok pattern =>
        cases hdescription : text (some body.description) "description" 200 with
        | error r => simp [hpattern, hdescription, bind, Except.bind] at h
        | ok description =>
          simp only [hpattern, hdescription, bind, Except.bind, pure, Except.pure] at h
          obtain rfl := Except.ok.inj h
          exact ⟨consoleMatchType_ne hmatch, (text_eq_ok hpattern).2,
            (text_eq_ok hdescription).2⟩

theorem getLast?_strip (s : String) : (strip s).toList.getLast? ≠ some '\n' := by
  intro h
  rw [strip, String.toList_ofList] at h
  have hne : stripChars isSpace s.toList ≠ [] := by
    intro hnil
    rw [hnil] at h
    cases h
  have hlast := (ends_stripChars hne).2
  rw [List.getLast?_eq_some_getLast hne] at h
  rw [Option.some.inj h] at hlast
  revert hlast
  decide

/-- The line ending that `$` lets by is not in a stripped code. -/
theorem isCode_of_codeMatches {py : Python} {code : String}
    (h : codeMatches (py.upper (strip code)) = true) :
    isCode (py.upper (strip code)).toList = true := by
  unfold codeMatches at h
  rcases Bool.or_eq_true_iff.mp h with h | h
  · exact h
  · have hlast := beq_iff_eq.mp (Bool.and_eq_true_iff.mp h).1
    exact absurd (py.upper_newline _ hlast) (getLast?_strip code)

end Checks

section Positions

variable {rules : List RuleRow} {ids : List ℤ} {id p : ℤ}

theorem le_lastPosition {r : RuleRow} (hr : r ∈ rules) (hp : r.position = some p) :
    p ≤ lastPosition rules := by
  have hmem : p ∈ rules.filterMap fun r => r.position := List.mem_filterMap.mpr ⟨r, hr, hp⟩
  unfold lastPosition
  cases hmax : (rules.filterMap fun r => r.position).max? with
  | none =>
    rw [List.max?_eq_none_iff.mp hmax] at hmem
    cases hmem
  | some m => exact (List.max?_eq_some_iff.mp hmax).2 p hmem

theorem lastPosition_nonneg (h : ∀ r ∈ rules, ∀ p, r.position = some p → 0 ≤ p) :
    0 ≤ lastPosition rules := by
  unfold lastPosition
  cases hmax : (rules.filterMap fun r => r.position).max? with
  | none => exact le_refl _
  | some m =>
    obtain ⟨r, hr, hp⟩ := List.mem_filterMap.mp (List.max?_eq_some_iff.mp hmax).1
    exact h r hr m hp

theorem ordinality_pos (h : ordinality ids id = some p) : 1 ≤ p := by
  unfold ordinality at h
  split at h
  · obtain rfl := Option.some.inj h
    omega
  · cases h

end Positions

section Statements

variable {pg : Postgres} {py : Python} {α : Type} {db : Database} {w : Written α}

theorem wellWritten_commit (h : WellWritten db.toTables)
    (hw : WellWritten db.toTables → WellWritten w.tables) :
    WellWritten (db.commit w).toTables := by
  rcases commit_cases db w with ⟨-, htables⟩ | ⟨-, htables⟩
  · rw [htables]
    exact hw h
  · rwa [htables]

/-- Rows of a table that a write goes over one by one. -/
theorem forall_map_ite {P : α → Prop} {c : α → Prop} [DecidablePred c] {f : α → α} {l : List α}
    (h : ∀ a ∈ l, P a) (hf : ∀ a ∈ l, P a → P (f a)) :
    ∀ a ∈ l.map fun a => if c a then f a else a, P a := by
  intro b hb
  obtain ⟨a, ha, rfl⟩ := List.mem_map.mp hb
  split
  · exact hf a ha (h a ha)
  · exact h a ha

theorem insertUnit_wellWritten {code label user : String} (hcode : isCode code.toList = true)
    (hlabel : Trimmed label 80) (h : WellWritten db.toTables) :
    WellWritten (insertUnit code label user db).tables where
  units := by
    intro u hu
    rcases List.mem_append.mp hu with hu | hu
    · exact h.units u hu
    · obtain rfl := List.mem_singleton.mp hu
      exact ⟨hcode, hlabel⟩
  rules := h.rules

theorem updateUnitRow_wellWritten {code user : String} {label : Option String}
    {active : Option Bool} (hlabel : ∀ l, label = some l → Trimmed l 80)
    (h : WellWritten db.toTables) :
    WellWritten (updateUnitRow code label active user db).tables where
  units := by
    refine forall_map_ite h.units fun u _ hu => ⟨hu.code, ?_⟩
    cases label with
    | none => exact hu.label
    | some l => exact hlabel l rfl
  rules := h.rules

theorem insertRule_wellWritten {unit user : String} {rule : CheckedRule} {active : Bool}
    (hrule : RuleChecks rule) (h : WellWritten db.toTables) :
    WellWritten (insertRule unit rule active user db).tables where
  units := h.units
  rules := by
    intro r hr
    rcases List.mem_append.mp hr with hr | hr
    · exact h.rules r hr
    · obtain rfl := List.mem_singleton.mp hr
      refine ⟨hrule.literal, hrule.pattern, ⟨_, rfl, hrule.description⟩, ⟨_, rfl, ?_⟩⟩
      have hnonneg : 0 ≤ lastPosition db.rules := by
        apply lastPosition_nonneg
        intro r hr p hp
        obtain ⟨q, hq, hpos⟩ := (h.rules r hr).position
        rw [hp] at hq
        obtain rfl := Option.some.inj hq
        omega
      omega

theorem updateRuleRow_wellWritten {id : ℤ} {unit user : String} {rule : CheckedRule}
    {active : Bool} (hrule : RuleChecks rule) (h : WellWritten db.toTables) :
    WellWritten (updateRuleRow id unit rule active user db).tables where
  units := h.units
  rules := forall_map_ite h.rules fun _ _ hr =>
    ⟨hrule.literal, hrule.pattern, ⟨_, rfl, hrule.description⟩, hr.position⟩

theorem deleteRuleRow_wellWritten {id : ℤ} {user : String} (h : WellWritten db.toTables) :
    WellWritten (deleteRuleRow id user db).tables where
  units := h.units
  rules _ hr := h.rules _ (List.mem_of_mem_filter hr)

theorem writtenRule_placed {ids : List ℤ} {user : String} {r : RuleRow} (h : WrittenRule r) :
    WrittenRule (placed ids user r) := by
  unfold placed
  cases hplace : ordinality ids r.id with
  | none => exact h
  | some p =>
    simp only
    split
    · exact h
    · exact ⟨h.literal, h.pattern, h.comment, ⟨p, rfl, ordinality_pos hplace⟩⟩

theorem placeRules_wellWritten {ids : List ℤ} {user : String} (h : WellWritten db.toTables) :
    WellWritten (placeRules ids user db).tables where
  units := h.units
  rules := by
    intro r hr
    obtain ⟨q, hq, rfl⟩ := List.mem_map.mp hr
    exact writtenRule_placed (h.rules q hq)

theorem recompute_wellWritten {user : String} (h : WellWritten db.toTables) :
    WellWritten (match recomputeCalls pg user db with
      | some w => db.commit w
      | none => db).toTables := by
  cases hrun : recomputeCalls pg user db with
  | none => exact h
  | some w =>
    obtain ⟨run, -, rfl⟩ := Option.map_eq_some_iff.mp hrun
    exact wellWritten_commit h fun h => ⟨h.units, h.rules⟩

theorem program_wellWritten (request : Request) : (request.program pg py).Every fun f =>
    ∀ a : Database, WellWritten a.toTables → WellWritten (f a).toTables := by
  have hid : ∀ a : Database, WellWritten a.toTables → WellWritten (id a).toTables :=
    fun _ h => h
  cases request with
  | createUnit body user =>
    simp only [Request.program, createUnit]
    split
    · rename_i hcode
      refine every_checked fun label hlabel => every_select hid fun db => ?_
      split
      · trivial
      · exact every_execute fun a h => wellWritten_commit h
          (insertUnit_wellWritten (isCode_of_codeMatches hcode) (text_eq_ok hlabel).2)
    · trivial
  | updateUnit code body user =>
    refine every_checked fun label hlabel => every_execute fun a h => wellWritten_commit h
      (updateUnitRow_wellWritten fun l hl => ?_)
    subst hl
    split at hlabel
    · cases htext : text (some _) "label" 80 with
      | error r =>
        rw [htext] at hlabel
        cases hlabel
      | ok t =>
        rw [htext] at hlabel
        obtain rfl := Option.some.inj (Except.ok.inj hlabel)
        exact (text_eq_ok htext).2
    · cases hlabel
  | createRule body user =>
    exact every_checked fun rule hrule => every_knownUnit hid <| every_duplicate hid <|
      every_execute fun a h => wellWritten_commit h
        (insertRule_wellWritten (checkRule_eq_ok hrule))
  | updateRule id body user =>
    exact every_checked fun rule hrule => every_knownUnit hid <| every_duplicate hid <|
      every_execute fun a h => wellWritten_commit h
        (updateRuleRow_wellWritten (checkRule_eq_ok hrule))
  | deleteRule id user =>
    exact every_execute fun a h => wellWritten_commit h deleteRuleRow_wellWritten
  | orderRules ids user =>
    refine every_select hid fun db => ?_
    split
    · exact every_execute fun a h => wellWritten_commit h placeRules_wellWritten
    · trivial
  | recompute user => exact ⟨fun a h => recompute_wellWritten h, fun _ => trivial⟩
  | ingest new =>
    exact ⟨fun a h => wellWritten_commit h fun h => ⟨h.units, h.rules⟩, fun _ => trivial⟩

end Statements

section Resolution

variable (pg : Postgres) {db : Database} {uri callerAlias : Option String}

theorem noRunTimeError_of_wellWritten (h : WellWritten db.toTables) :
    NoRunTimeError pg db.rulebook := by
  intro r hr hregex
  obtain ⟨row, hrow, rfl⟩ := List.mem_map.mp hr
  exact absurd hregex (h.rules row hrow).literal

/-- The rule that decides, or none. -/
theorem resolveOrgUnit_total (h : WellWritten db.toTables) :
    ∃ unit, resolveOrgUnit pg db.rulebook uri callerAlias = some unit ∧
      ∀ code, unit = some code → code ∈ db.codes := by
  refine ⟨_, resolveOrgUnit_eq (noRunTimeError_of_wellWritten pg h), ?_⟩
  intro code hcode
  obtain ⟨r, hr, rfl⟩ := Option.map_eq_some_iff.mp hcode
  have hmem := (first_of_head? hr).mem
  obtain ⟨row, hrow, hrule⟩ := List.mem_map.mp (List.mem_of_mem_filter hmem)
  rw [← hrule]
  exact db.valid.references row hrow

theorem resolveCall_total (h : WellWritten db.toTables) (c : CallEntry) :
    ∃ unit, resolveCall pg db.rulebook c = some unit ∧
      (unit.all fun code => db.codes.contains code) = true := by
  obtain ⟨unit, hunit, hcode⟩ := resolveOrgUnit_total pg h
  refine ⟨unit, hunit, ?_⟩
  cases unit with
  | none => rfl
  | some code => exact List.contains_iff_mem.mpr (hcode code rfl)

theorem insertCall_valid (h : WellWritten db.toTables) (new : CallEntry) :
    (insertCall pg new db).tables.Valid := by
  refine { db.valid with assigned := ?_ }
  intro c hc
  simp only [insertCall] at hc
  split at hc
  · exact db.valid.assigned c hc
  · rcases List.mem_append.mp hc with hc | hc
    · exact db.valid.assigned c hc
    · obtain rfl := List.mem_singleton.mp hc
      obtain ⟨unit, hunit, hall⟩ := resolveCall_total pg h new
      simp only [callsSetOrgUnit, hunit, Option.getD_some]
      exact hall

omit pg in
theorem recomputeOrgUnits_seen {pg : Postgres} {book : Rulebook} {calls : List CallEntry}
    {run : Recomputed}
    (h : recomputeOrgUnits pg book calls = some run) : run.rowsSeen = calls.length := by
  obtain ⟨resolved, -, rfl⟩ := Option.map_eq_some_iff.mp h
  rfl

/-- A recompute goes over every call and gives it what the rules now say. -/
theorem recomputeCalls_total (h : WellWritten db.toTables) (user : String) :
    ∃ w run, recomputeCalls pg user db = some w ∧ w.tables.Valid ∧ w.rows = [run] ∧
      run.1 = db.calls.length ∧
      w.tables.calls = db.calls.map (callsSetOrgUnit pg db.rulebook) := by
  obtain ⟨run, hrun, hcalls⟩ :=
    OrgUnitAgreement.recomputeOrgUnits_eq (noRunTimeError_of_wellWritten pg h) db.calls
  refine ⟨_, (run.rowsSeen, run.rowsMoved), by rw [recomputeCalls, hrun, Option.map_some], ?_,
    rfl, recomputeOrgUnits_seen hrun, hcalls⟩
  refine { db.valid with assigned := ?_ }
  intro c hc
  change c ∈ run.calls at hc
  rw [hcalls] at hc
  obtain ⟨old, -, rfl⟩ := List.mem_map.mp hc
  obtain ⟨unit, hunit, hall⟩ := resolveCall_total pg h old
  simp only [callsSetOrgUnit, hunit, Option.getD_some]
  exact hall

end Resolution

section Runs

variable {pg : Postgres} {py : Python} {db : Database} {s : System Database Answer}

theorem wellWritten_of_execution (hdb : WellWritten db.toTables)
    (h : Execution (StepOf (next (Request.program pg py))) (start db) s) :
    WellWritten s.shared.toTables :=
  invariant_of_execution (I := fun db : Database => WellWritten db.toTables)
    (fun request _ => program_wellWritten request) hdb (guarded_of_execution h)

/-- From the schema as it is shipped, in every run: rows are well written, every caller is
resolved to a unit there is or to none, every call that comes in is stored, and a recompute
is answered and leaves each call what the trigger would give it now. -/
theorem resolution_never_raises
    (h : Execution (StepOf (next (Request.program pg py))) (start installed) s) :
    WellWritten s.shared.toTables ∧
    (∀ uri callerAlias, ∃ unit,
      resolveOrgUnit pg s.shared.rulebook uri callerAlias = some unit ∧
        ∀ code, unit = some code → code ∈ s.shared.codes) ∧
    (∀ new, new.id ∉ s.shared.calls.map CallEntry.id →
      (((Request.ingest new).program pg py).run s.shared).2.calls =
        s.shared.calls ++ [callsSetOrgUnit pg s.shared.rulebook new]) ∧
    ∀ user, ∃ moved,
      ((recompute pg user).run s.shared).1 = .recomputed s.shared.calls.length moved ∧
      ((recompute pg user).run s.shared).2.calls =
        s.shared.calls.map (callsSetOrgUnit pg s.shared.rulebook) := by
  have written := wellWritten_of_execution wellWritten_installed h
  refine ⟨written, fun uri callerAlias => resolveOrgUnit_total pg written, ?_, ?_⟩
  · intro new hnew
    have hvalid := insertCall_valid pg written new
    simp only [Request.program, execute, Program.run, Database.commit, dif_pos hvalid]
    exact if_neg hnew
  · intro user
    obtain ⟨w, ⟨seen, moved⟩, hrun, hvalid, hrows, rfl, hcalls⟩ :=
      recomputeCalls_total pg written user
    refine ⟨moved, ?_, ?_⟩
    · simp only [recompute, Program.run, hrun, if_pos hvalid, hrows]
    · simp only [recompute, Program.run, hrun, Database.commit, dif_pos hvalid]
      exact hcalls

theorem resolution_never_raises_run : ∃ s, runOf (start installed) firstEvents = some s ∧
    s.shared.rules ≠ [] ∧ WellWritten s.shared.toTables := by
  have hrun : (runOf (start installed) firstEvents).any fun s => !s.shared.rules.isEmpty := by
    decide +kernel
  obtain ⟨s, hs, hrules⟩ := (Option.any_eq_true _ _).mp hrun
  refine ⟨s, hs, ?_, (resolution_never_raises (runEvents_execution hs)).1⟩
  intro hnil
  rw [hnil] at hrules
  cases hrules

end Runs

section NewRule

variable {pg : Postgres} {db : Database} {unit user : String} {rule : CheckedRule}
  {active : Bool}

/-- The row that a new rule is stored as. -/
def newRow (unit : String) (rule : CheckedRule) (active : Bool) (user : String)
    (db : Database) : RuleRow :=
  { id := db.nextRule, orgUnitCode := unit, field := rule.field, matchType := rule.matchType
    pattern := rule.pattern, priority := 100, active := active
    position := some (lastPosition db.rules + 1), comment := some rule.description
    updatedBy := some user }

theorem insertRule_rules :
    (insertRule unit rule active user db).tables.rules =
      db.rules ++ [newRow unit rule active user db] := rfl

theorem evaluation_newRow {r : RuleRow} (hr : r ∈ db.rules) :
    evaluation r.toRule ≤ evaluation (newRow unit rule active user db).toRule := by
  rw [evaluation, evaluation, Prod.Lex.toLex_le_toLex]
  left
  cases hp : r.position with
  | none => exact WithBot.bot_lt_coe _
  | some p => exact WithBot.coe_lt_coe.mpr (Int.lt_add_one_of_le (le_lastPosition hr hp))

/-- What an answered creation did. -/
structure Created (pg : Postgres) (body : RuleBody) (user : String) (db : Database)
    (row : RuleRow) (db' : Database) (rule : CheckedRule) : Prop where
  checks : checkRule body = .ok rule
  known : body.orgUnitCode ∈ db.codes
  alone : ∀ r ∈ db.rules, sameRule pg rule none r = false
  row_eq : row = newRow body.orgUnitCode rule body.active user db
  tables : db'.toTables = (insertRule body.orgUnitCode rule body.active user db).tables

theorem createRule_answer {body : RuleBody} {row : RuleRow} {db' : Database}
    (h : (createRule pg body user).run db = (.rule row, db')) :
    ∃ rule, Created pg body user db row db' rule := by
  unfold createRule checked at h
  cases hchecks : checkRule body with
  | error r =>
    rw [hchecks] at h
    cases (Prod.mk.inj h).1
  | ok rule =>
    rw [hchecks] at h
    by_cases hknown : body.orgUnitCode ∈ db.codes
    · cases hfind : db.rules.find? (sameRule pg rule none) with
      | some r =>
        simp only [OrgUnitConsole.knownUnit, Program.select, duplicate, Program.run, id_eq,
          if_pos hknown, hfind] at h
        cases (Prod.mk.inj h).1
      | none =>
        by_cases hvalid : (insertRule body.orgUnitCode rule body.active user db).tables.Valid
        · simp only [OrgUnitConsole.knownUnit, Program.select, duplicate, Program.run, id_eq,
            if_pos hknown, hfind, execute, if_pos hvalid, Database.commit, dif_pos hvalid] at h
          obtain ⟨hrow, hdb⟩ := Prod.mk.inj h
          refine ⟨rule, hchecks, hknown, fun r hr => ?_, ?_, ?_⟩
          · simpa using List.find?_eq_none.mp hfind r hr
          · exact (Answer.rule.inj hrow).symm
          · rw [← hdb]
        · simp only [OrgUnitConsole.knownUnit, Program.select, duplicate, Program.run, id_eq,
            if_pos hknown, hfind, execute, if_neg hvalid] at h
          cases (Prod.mk.inj h).1
    · simp only [OrgUnitConsole.knownUnit, Program.select, Program.run, id_eq,
        if_neg hknown] at h
      cases (Prod.mk.inj h).1

variable {uri callerAlias : Option String}

/-- The last rule of the list decides wherever it applies, and nothing changes elsewhere. -/
theorem resolveOrgUnit_append {book book' : Rulebook} {row : Rule}
    (hunits : book'.units = book.units) (hrules : book'.rules = book.rules ++ [row])
    (hlast : ∀ r ∈ book.rules, evaluation r ≤ evaluation row)
    (herrors : NoRunTimeError pg book) (herrors' : NoRunTimeError pg book') :
    resolveOrgUnit pg book' uri callerAlias =
      if (book.unitActive row = some true ∧ row.active = true) ∧
          matched pg uri callerAlias row = true
      then some (some row.orgUnitCode) else resolveOrgUnit pg book uri callerAlias := by
  have hactive : book'.unitActive = book.unitActive := by
    funext r
    rw [Rulebook.unitActive, Rulebook.unitActive, hunits]
  have hdeciding : book'.deciding pg uri callerAlias = book.deciding pg uri callerAlias ++
      [row].filter fun r => decide (book.unitActive r = some true ∧ r.active = true) &&
        matched pg uri callerAlias r := by
    rw [Rulebook.deciding, Rulebook.deciding, hrules, hactive, List.filter_append]
  split
  · rename_i htakes
    apply resolveOrgUnit_some herrors'
    rw [hdeciding, List.filter_cons_of_pos (by simp [htakes])]
    constructor
    · exact List.mem_append_right _ List.mem_cons_self
    · intro r hr
      rcases List.mem_append.mp hr with hr | hr
      · exact hlast r (List.mem_of_mem_filter hr)
      · rw [List.mem_singleton.mp hr]
  · rename_i htakes
    rw [List.filter_cons_of_neg (by simpa using htakes), List.filter_nil, List.append_nil]
      at hdeciding
    rw [resolveOrgUnit_eq herrors', resolveOrgUnit_eq herrors, hdeciding]

theorem ruleChecks_wellWritten (hdb : WellWritten db.toTables) {db' : Database} {body : RuleBody}
    {row : RuleRow} (created : Created pg body user db row db' rule) :
    WellWritten db'.toTables := by
  rw [created.tables]
  exact insertRule_wellWritten (checkRule_eq_ok created.checks) hdb

/-- In every run, a rule that has just been created gives its unit to every caller it matches
while it and the unit are active, and leaves to every other caller the unit it had. -/
theorem new_rule_decides {py : Python} {s : System Database Answer} {body : RuleBody}
    {row : RuleRow} {db' : Database}
    (h : Execution (StepOf (next (Request.program pg py))) (start installed) s)
    (created : (createRule pg body user).run s.shared = (.rule row, db'))
    (uri callerAlias : Option String) :
    resolveOrgUnit pg db'.rulebook uri callerAlias =
      if (s.shared.rulebook.unitActive row.toRule = some true ∧ body.active = true) ∧
          matched pg uri callerAlias row.toRule = true
      then some (some body.orgUnitCode)
      else resolveOrgUnit pg s.shared.rulebook uri callerAlias := by
  have written := wellWritten_of_execution wellWritten_installed h
  obtain ⟨rule, hcreated⟩ := createRule_answer created
  have written' := ruleChecks_wellWritten written hcreated
  have hrow := hcreated.row_eq
  have hbook : db'.rulebook.rules = s.shared.rulebook.rules ++ [row.toRule] := by
    change db'.rules.map RuleRow.toRule = s.shared.rules.map RuleRow.toRule ++ [row.toRule]
    rw [hcreated.tables, insertRule_rules, List.map_append, hrow]
    rfl
  have hunits : db'.rulebook.units = s.shared.rulebook.units := by
    change db'.units.map UnitRow.toOrgUnit = s.shared.units.map UnitRow.toOrgUnit
    rw [hcreated.tables]
    rfl
  have hlast : ∀ r ∈ s.shared.rulebook.rules, evaluation r ≤ evaluation row.toRule := by
    intro r hr
    obtain ⟨old, hold, rfl⟩ := List.mem_map.mp hr
    rw [hrow]
    exact evaluation_newRow hold
  have hactive : row.active = body.active := by rw [hrow]; rfl
  have hcode : row.orgUnitCode = body.orgUnitCode := by rw [hrow]; rfl
  rw [resolveOrgUnit_append hunits hbook hlast (noRunTimeError_of_wellWritten pg written)
    (noRunTimeError_of_wellWritten pg written'), hactive, hcode]

theorem new_rule_decides_run : ∃ s row db', runOf (start installed) firstEvents = some s ∧
    (createRule plainPostgres ⟨"OPS", "alias", "suffix", "Lab", "labs", true⟩ "ana").run
      s.shared = (.rule row, db') ∧
    resolveOrgUnit plainPostgres db'.rulebook none (some "Big lab") = some (some "OPS") := by
  have hrun : (runOf (start installed) firstEvents).any fun s =>
      match ((createRule plainPostgres ⟨"OPS", "alias", "suffix", "Lab", "labs", true⟩ "ana").run
        s.shared).1 with
      | .rule row => decide ((s.shared.rulebook.unitActive row.toRule = some true ∧ true = true) ∧
          matched plainPostgres none (some "Big lab") row.toRule = true)
      | _ => false := by decide +kernel
  obtain ⟨s, hs, hanswer⟩ := (Option.any_eq_true _ _).mp hrun
  split at hanswer
  · rename_i row hrow
    have hcreated : (createRule plainPostgres ⟨"OPS", "alias", "suffix", "Lab", "labs", true⟩
        "ana").run s.shared = (.rule row, _) := Prod.ext hrow rfl
    refine ⟨s, row, _, hs, hcreated, ?_⟩
    rw [new_rule_decides (runEvents_execution hs) hcreated]
    exact if_pos (of_decide_eq_true hanswer)
  · cases hanswer

end NewRule

end OrgUnitResolution
