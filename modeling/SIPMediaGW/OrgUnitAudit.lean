import SIPMediaGW.OrgUnitConsole

/-! # The audit rebuilds units and rules

Read in order, the lines say what every unit and rule is after each change; what a line says of
the row before its change is what the lines before it rebuild. -/
namespace OrgUnitAudit

open InterleavedStatements
open LabelledExecutions
open OrderedQuery
open OrgUnitConsole
open OrgUnitRules
open PythonJson

structure KnownUnit where
  code : String
  label : String
  active : Bool
  deriving DecidableEq, Repr

structure KnownRule where
  id : ℤ
  orgUnitCode : String
  field : String
  matchType : String
  pattern : String
  description : Option String
  active : Bool
  position : Option ℤ
  deriving DecidableEq, Repr

structure Known where
  units : List KnownUnit
  rules : List KnownRule
  deriving DecidableEq, Repr

def knownUnit (u : UnitRow) : KnownUnit := ⟨u.code, u.label, u.active⟩

def knownRule (r : RuleRow) : KnownRule :=
  ⟨r.id, r.orgUnitCode, fieldText r.field, matchTypeText r.matchType, r.pattern, r.comment,
    r.active, r.position⟩

def known (t : Tables) : Known := ⟨t.units.map knownUnit, t.rules.map knownRule⟩

section Reading

def textOf : Json → Option String
  | .str s => some s
  | _ => none

def intOf : Json → Option ℤ
  | .int n => some n
  | _ => none

def flagOf : Json → Option Bool
  | .bool b => some b
  | _ => none

def member (j : Json) (key : String) : Json :=
  match j with
  | .obj d => field d key
  | _ => .null

def readUnit (j : Json) : Option KnownUnit := do
  let code ← textOf (member j "code")
  let label ← textOf (member j "label")
  let active ← flagOf (member j "active")
  return ⟨code, label, active⟩

/-- A whole row calls `comment` what a returned row calls `description`. -/
def readRule (comment : String) (j : Json) : Option KnownRule := do
  let id ← intOf (member j "id")
  let unit ← textOf (member j "org_unit_code")
  let field ← textOf (member j "field")
  let matchType ← textOf (member j "match_type")
  let pattern ← textOf (member j "pattern")
  let active ← flagOf (member j "active")
  return ⟨id, unit, field, matchType, pattern, textOf (member j comment), active,
    intOf (member j "position")⟩

def readIds : Json → List ℤ
  | .arr xs => xs.filterMap intOf
  | _ => []

/-- `position NULLS FIRST, id` of what is known of a rule. -/
def knownEvaluation (r : KnownRule) : WithBot ℤ ×ₗ ℤ := toLex (r.position, r.id)

def knownOrder (rules : List KnownRule) : List ℤ :=
  (orderBy knownEvaluation rules).map KnownRule.id

def withPlace (ids : List ℤ) (r : KnownRule) : KnownRule :=
  { r with position := (ordinality ids r.id).or r.position }

def replayLine (k : Known) (line : AuditLine) : Known :=
  let before := field line.detail "before"
  let after := field line.detail "after"
  if line.action = "unit_create" then
    { k with units := k.units ++ (readUnit after).toList }
  else if line.action = "unit_update" then
    match readUnit after with
    | some a => { k with units := k.units.map fun u => if u.code = a.code then a else u }
    | none => k
  else if line.action = "rule_create" then
    { k with rules := k.rules ++ (readRule "description" after).toList }
  else if line.action = "rule_update" then
    match readRule "description" after with
    | some a => { k with rules := k.rules.map fun r => if r.id = a.id then a else r }
    | none => k
  else if line.action = "rule_delete" then
    match readRule "comment" before with
    | some b => { k with rules := k.rules.filter fun r => decide (r.id ≠ b.id) }
    | none => k
  else if line.action = "rules_order" then
    { k with rules := k.rules.map (withPlace (readIds after)) }
  else k

def replay (k : Known) (lines : List AuditLine) : Known := lines.foldl replayLine k

/-- What a line says of the row before its change, and of its target, is what is known. -/
def Agrees (k : Known) (line : AuditLine) : Prop :=
  let before := field line.detail "before"
  if line.action = "unit_update" then
    ∃ u ∈ k.units, readUnit before = some u ∧ line.target = u.code
  else if line.action = "rule_update" ∨ line.action = "rule_delete" then
    ∃ r ∈ k.rules, readRule "comment" before = some r ∧ line.target = ruleTarget r.id
  else if line.action = "rules_order" then readIds before = knownOrder k.rules
  else True

/-- Each line agrees with what the lines before it rebuild. -/
def Chained : Known → List AuditLine → Prop
  | _, [] => True
  | k, line :: lines => Agrees k line ∧ Chained (replayLine k line) lines

end Reading

/-- From one state of the tables to a later one the audit grows by lines that rebuild it. -/
def Replayed (a b : Database) : Prop :=
  ∃ lines, b.audit = a.audit ++ lines ∧ known b.toTables = replay (known a.toTables) lines ∧
    Chained (known a.toTables) lines

section Lines

variable {k : Known} {lines more : List AuditLine}

theorem replay_append (k : Known) (lines more : List AuditLine) :
    replay k (lines ++ more) = replay (replay k lines) more := List.foldl_append

theorem chained_append : Chained k (lines ++ more) ↔
    Chained k lines ∧ Chained (replay k lines) more := by
  induction lines generalizing k with
  | nil => exact ⟨fun h => ⟨trivial, h⟩, fun h => h.2⟩
  | cons line lines ih =>
    rw [List.cons_append, Chained, Chained, ih, and_assoc]
    rfl

theorem replayed_refl (a : Database) : Replayed a a :=
  ⟨[], (List.append_nil _).symm, rfl, trivial⟩

theorem Replayed.trans {a b c : Database} (h : Replayed a b) (g : Replayed b c) :
    Replayed a c := by
  obtain ⟨lines, haudit, hknown, hchain⟩ := h
  obtain ⟨more, haudit', hknown', hchain'⟩ := g
  refine ⟨lines ++ more, ?_, ?_, ?_⟩
  · rw [haudit', haudit, List.append_assoc]
  · rw [hknown', hknown, replay_append]
  · rw [hknown] at hchain'
    exact chained_append.mpr ⟨hchain, hchain'⟩

/-- A statement without a line, which changed nothing. -/
theorem replayed_silent {a b : Database} (haudit : b.audit = a.audit)
    (hknown : known b.toTables = known a.toTables) : Replayed a b :=
  ⟨[], by rw [haudit, List.append_nil], hknown, trivial⟩

theorem readUnit_returned (u : UnitRow) : readUnit (returnedUnit u) = some (knownUnit u) := rfl

theorem textOf_optional (value : Option String) : textOf (optionalText value) = value := by
  cases value <;> rfl

theorem intOf_optional (value : Option ℤ) : intOf (optionalInt value) = value := by
  cases value <;> rfl

theorem readRule_returned (r : RuleRow) :
    readRule "description" (returnedRule r) = some (knownRule r) := by
  have h : readRule "description" (returnedRule r) = some ⟨r.id, r.orgUnitCode,
      fieldText r.field, matchTypeText r.matchType, r.pattern, textOf (optionalText r.comment),
      r.active, intOf (optionalInt r.position)⟩ := rfl
  rw [h, textOf_optional, intOf_optional]
  rfl

theorem readRule_row (r : RuleRow) : readRule "comment" (ruleRowJson r) = some (knownRule r) := by
  have h : readRule "comment" (ruleRowJson r) = some ⟨r.id, r.orgUnitCode,
      fieldText r.field, matchTypeText r.matchType, r.pattern, textOf (optionalText r.comment),
      r.active, intOf (optionalInt r.position)⟩ := rfl
  rw [h, textOf_optional, intOf_optional]
  rfl

theorem readIds_ids (ids : List ℤ) : readIds (idsJson ids) = ids := by
  rw [idsJson, readIds, List.filterMap_map]
  exact List.filterMap_some

theorem knownOrder_known (rules : List RuleRow) :
    knownOrder (rules.map knownRule) = currentOrder rules := by
  have horder : orderBy knownEvaluation (rules.map knownRule) =
      (orderBy (fun r : RuleRow => evaluation r.toRule) rules).map knownRule := by
    symm
    apply List.map_insertionSort
    intro a _ b _
    exact Iff.rfl
  rw [knownOrder, horder, List.map_map]
  rfl

theorem knownRule_placed (ids : List ℤ) (user : String) (r : RuleRow) :
    knownRule (placed ids user r) = withPlace ids (knownRule r) := by
  unfold placed withPlace
  cases hplace : ordinality ids r.id with
  | none => simp [knownRule, hplace]
  | some p =>
    by_cases hsame : r.position = some p
    · simp [knownRule, hplace, hsame]
    · simp [knownRule, hplace, hsame]

/-- Where no rule moves, the posted places are those the rules have. -/
theorem placed_of_still {ids : List ℤ} {user : String} {r : RuleRow} (h : moves ids r = false) :
    placed ids user r = r := by
  unfold moves at h
  unfold placed
  cases hplace : ordinality ids r.id with
  | none => rfl
  | some p =>
    rw [hplace] at h
    exact if_pos (by simpa using h)

end Lines

section Rows

variable {α κ : Type} [DecidableEq κ] {key : α → κ} {l : List α} {k : κ}

/-- A key picks one row or none. -/
theorem filter_key (h : (l.map key).Nodup) (k : κ) :
    (l.filter fun a => decide (key a = k)) = [] ∨
      ∃ a ∈ l, key a = k ∧ (l.filter fun a => decide (key a = k)) = [a] := by
  induction l with
  | nil => exact .inl rfl
  | cons a l ih =>
    obtain ⟨hnot, hnodup⟩ := List.nodup_cons.mp h
    by_cases ha : key a = k
    · have hnone : (l.filter fun b => decide (key b = k)) = [] := by
        apply List.filter_eq_nil_iff.mpr
        intro b hb hkey
        apply hnot
        rw [ha, ← of_decide_eq_true hkey]
        exact List.mem_map_of_mem hb
      refine .inr ⟨a, List.mem_cons_self, ha, ?_⟩
      rw [List.filter_cons_of_pos (by simpa using ha), hnone]
    · have hskip : ((a :: l).filter fun b => decide (key b = k)) =
          l.filter fun b => decide (key b = k) :=
        List.filter_cons_of_neg (by simpa using ha)
      rw [hskip]
      rcases ih hnodup with hnone | ⟨b, hb, hkey, hone⟩
      · exact .inl hnone
      · exact .inr ⟨b, List.mem_cons_of_mem _ hb, hkey, hone⟩

/-- A table whose key nothing meets stays as it is. -/
theorem map_key_of_nil {f : α → α} (h : (l.filter fun a => decide (key a = k)) = []) :
    (l.map fun a => if key a = k then f a else a) = l := by
  have hid : ∀ a ∈ l, (if key a = k then f a else a) = a := by
    intro a ha
    apply if_neg
    intro hkey
    exact List.filter_eq_nil_iff.mp h a ha (decide_eq_true hkey)
  rw [List.map_congr_left hid, List.map_id']

/-- The row that a key picks. -/
theorem eq_of_filter_key {a b : α} (h : (l.filter fun a => decide (key a = k)) = [a])
    (hb : b ∈ l) (hkey : key b = k) : b = a := by
  have hmem : b ∈ l.filter fun a => decide (key a = k) :=
    List.mem_filter.mpr ⟨hb, decide_eq_true hkey⟩
  rw [h] at hmem
  exact List.mem_singleton.mp hmem

end Rows

section Statements

variable {pg : Postgres} {py : Python} {α : Type} {db : Database} {w : Written α}

/-- A refused statement leaves the tables; an accepted one leaves what it wrote. -/
theorem commit_cases (db : Database) (w : Written α) :
    (w.tables.Valid ∧ (db.commit w).toTables = w.tables) ∨
      (¬ w.tables.Valid ∧ (db.commit w).toTables = db.toTables) := by
  by_cases h : w.tables.Valid
  · exact .inl ⟨h, by rw [Database.commit, dif_pos h]⟩
  · exact .inr ⟨h, by rw [Database.commit, dif_neg h]⟩

/-- What holds of the tables a statement would leave holds of those it leaves. -/
theorem replayed_commit (h : ∃ lines, w.tables.audit = db.audit ++ lines ∧
    known w.tables = replay (known db.toTables) lines ∧ Chained (known db.toTables) lines) :
    Replayed db (db.commit w) := by
  rcases commit_cases db w with ⟨-, htables⟩ | ⟨-, htables⟩
  · rw [Replayed, htables]
    exact h
  · exact replayed_silent (by rw [htables]) (by rw [htables])

theorem insertUnit_replayed (code label user : String) (db : Database) :
    Replayed db (db.commit (insertUnit code label user db)) := by
  refine replayed_commit ⟨[_], rfl, ?_, trivial, trivial⟩
  simp [known, insertUnit, replay, replayLine, field, readUnit_returned]

theorem updateUnitRow_replayed (code : String) (label : Option String) (active : Option Bool)
    (user : String) (db : Database) :
    Replayed db (db.commit (updateUnitRow code label active user db)) := by
  apply replayed_commit
  rcases filter_key db.valid.codes code with hnone | ⟨o, ho, hcode, hone⟩
  · refine ⟨[], ?_, ?_, trivial⟩
    · simp only [updateUnitRow, hnone, List.map_nil]
    · simp only [known, updateUnitRow, map_key_of_nil hnone, replay, List.foldl_nil]
  · refine ⟨[⟨user, "unit_update", code, [("before", unitRowJson o),
      ("after", returnedUnit (patched label active o))]⟩], ?_, ?_, ?_, trivial⟩
    · simp only [updateUnitRow, hone, List.map_cons, List.map_nil]
    · have hafter : (patched label active o).code = code := hcode
      have hmap : (db.units.map fun u => if u.code = code then patched label active u else u).map
          knownUnit = (db.units.map knownUnit).map fun u =>
            if u.code = code then knownUnit (patched label active o) else u := by
        rw [List.map_map, List.map_map]
        apply List.map_congr_left
        intro u hu
        by_cases hkey : u.code = code
        · obtain rfl := eq_of_filter_key hone hu hkey
          simp [knownUnit, hkey]
        · simp [knownUnit, hkey]
      have hknown : (knownUnit (patched label active o)).code = code := hafter
      simp only [known, updateUnitRow, hmap, replay, replayLine, List.foldl_cons, List.foldl_nil,
        field, List.lookup_cons]
      simp [readUnit_returned, hknown]
    · simp only [Agrees, field, List.lookup_cons]
      exact ⟨knownUnit o, List.mem_map_of_mem ho, rfl, hcode.symm⟩

theorem insertRule_replayed (unit : String) (rule : CheckedRule) (active : Bool) (user : String)
    (db : Database) : Replayed db (db.commit (insertRule unit rule active user db)) := by
  refine replayed_commit ⟨[_], rfl, ?_, trivial, trivial⟩
  simp [known, insertRule, replay, replayLine, field, readRule_returned]

theorem updateRuleRow_replayed (id : ℤ) (unit : String) (rule : CheckedRule) (active : Bool)
    (user : String) (db : Database) :
    Replayed db (db.commit (updateRuleRow id unit rule active user db)) := by
  apply replayed_commit
  rcases filter_key db.valid.ids id with hnone | ⟨o, ho, hid, hone⟩
  · refine ⟨[], ?_, ?_, trivial⟩
    · simp only [updateRuleRow, hnone, List.map_nil]
    · simp only [known, updateRuleRow, map_key_of_nil hnone, replay, List.foldl_nil]
  · refine ⟨[⟨user, "rule_update", ruleTarget id, [("before", ruleRowJson o),
      ("after", returnedRule (rewritten unit rule active user o))]⟩], ?_, ?_, ?_, trivial⟩
    · simp only [updateRuleRow, hone, List.map_cons, List.map_nil]
    · have hmap : (db.rules.map fun r => if r.id = id then rewritten unit rule active user r
          else r).map knownRule = (db.rules.map knownRule).map fun r =>
            if r.id = id then knownRule (rewritten unit rule active user o) else r := by
        rw [List.map_map, List.map_map]
        apply List.map_congr_left
        intro r hr
        by_cases hkey : r.id = id
        · obtain rfl := eq_of_filter_key hone hr hkey
          simp [knownRule, hkey]
        · simp [knownRule, hkey]
      have hknown : (knownRule (rewritten unit rule active user o)).id = id := hid
      simp only [known, updateRuleRow, hmap, replay, replayLine, List.foldl_cons, List.foldl_nil,
        field, List.lookup_cons]
      simp [readRule_returned, hknown]
    · simp only [Agrees, field, List.lookup_cons]
      exact ⟨knownRule o, List.mem_map_of_mem ho, readRule_row o, congrArg ruleTarget hid.symm⟩

theorem deleteRuleRow_replayed (id : ℤ) (user : String) (db : Database) :
    Replayed db (db.commit (deleteRuleRow id user db)) := by
  apply replayed_commit
  rcases filter_key db.valid.ids id with hnone | ⟨o, ho, hid, hone⟩
  · refine ⟨[], ?_, ?_, trivial⟩
    · simp only [deleteRuleRow, hnone, List.map_nil]
    · have hkeep : (db.rules.filter fun r => decide (r.id ≠ id)) = db.rules := by
        apply List.filter_eq_self.mpr
        intro r hr
        refine decide_eq_true fun hkey => ?_
        exact List.filter_eq_nil_iff.mp hnone r hr (decide_eq_true hkey)
      simp only [known, deleteRuleRow, hkeep, replay, List.foldl_nil]
  · refine ⟨[⟨user, "rule_delete", ruleTarget id, [("before", ruleRowJson o)]⟩], ?_, ?_, ?_,
      trivial⟩
    · simp only [deleteRuleRow, hone, List.map_cons, List.map_nil]
    · have hfilter : (db.rules.filter fun r => decide (r.id ≠ id)).map knownRule =
          (db.rules.map knownRule).filter fun r => decide (r.id ≠ id) := by
        rw [List.filter_map]
        rfl
      have hknown : (knownRule o).id = id := hid
      simp only [known, deleteRuleRow, hfilter, replay, replayLine, List.foldl_cons,
        List.foldl_nil, field, List.lookup_cons]
      simp [readRule_row, hknown]
    · simp only [Agrees, field, List.lookup_cons]
      exact ⟨knownRule o, List.mem_map_of_mem ho, readRule_row o, congrArg ruleTarget hid.symm⟩

theorem placeRules_replayed (ids : List ℤ) (user : String) (db : Database) :
    Replayed db (db.commit (placeRules ids user db)) := by
  apply replayed_commit
  by_cases hstill : db.rules.filter (moves ids) = []
  · refine ⟨[], ?_, ?_, trivial⟩
    · simp only [placeRules, hstill, if_true, List.append_nil]
    · have hsame : db.rules.map (placed ids user) = db.rules := by
        have hid : ∀ r ∈ db.rules, placed ids user r = r := fun r hr =>
          placed_of_still (by simpa using List.filter_eq_nil_iff.mp hstill r hr)
        rw [List.map_congr_left hid, List.map_id']
      simp only [known, placeRules, hsame, replay, List.foldl_nil]
  · refine ⟨[⟨user, "rules_order", "rules", [("before", idsJson (currentOrder db.rules)),
      ("after", idsJson ids)]⟩], ?_, ?_, ?_, trivial⟩
    · simp only [placeRules, if_neg hstill]
    · have hmap : (db.rules.map (placed ids user)).map knownRule =
          (db.rules.map knownRule).map (withPlace ids) := by
        rw [List.map_map, List.map_map]
        exact List.map_congr_left fun r _ => knownRule_placed ids user r
      simp only [known, placeRules, hmap, replay, replayLine, List.foldl_cons, List.foldl_nil,
        field, List.lookup_cons]
      simp [readIds_ids]
    · simp only [Agrees, field, List.lookup_cons]
      simp [readIds_ids, known, knownOrder_known]

theorem recompute_replayed (pg : Postgres) (user : String) (db : Database) :
    Replayed db (match recomputeCalls pg user db with
      | some w => db.commit w
      | none => db) := by
  cases hrun : recomputeCalls pg user db with
  | none => exact replayed_refl db
  | some w =>
    obtain ⟨run, -, rfl⟩ := Option.map_eq_some_iff.mp hrun
    exact replayed_commit ⟨[_], rfl, rfl, trivial, trivial⟩

theorem insertCall_replayed (pg : Postgres) (new : CallEntry) (db : Database) :
    Replayed db (db.commit (insertCall pg new db)) :=
  replayed_commit ⟨[], (List.append_nil _).symm, rfl, trivial⟩

theorem every_execute {P : (Database → Database) → Prop} {write : Database → Written α}
    {answered : List α → Answer} (h : P fun db => db.commit (write db)) :
    (execute write answered).Every P := ⟨h, fun _ => trivial⟩

theorem every_checked {P : (Database → Database) → Prop} {x : Except Refusal α}
    {rest : α → Program Database Answer} (h : ∀ a, x = .ok a → (rest a).Every P) :
    (checked x rest).Every P := by
  cases hx : x with
  | error r => trivial
  | ok a => exact h a hx

theorem every_knownUnit {P : (Database → Database) → Prop} {code : String}
    {rest : Program Database Answer} (hid : P id) (h : rest.Every P) :
    (OrgUnitConsole.knownUnit code rest).Every P := by
  refine every_select hid fun db => ?_
  split
  · exact h
  · trivial

theorem every_duplicate {P : (Database → Database) → Prop} {rule : CheckedRule}
    {exceptId : Option ℤ} {rest : Program Database Answer} (hid : P id) (h : rest.Every P) :
    (duplicate pg rule exceptId rest).Every P := by
  refine every_select hid fun db => ?_
  split
  · trivial
  · exact h

/-- Every statement of every request keeps the account of the audit. -/
theorem program_replayed (request : Request) :
    (request.program pg py).Every fun f => ∀ a, Replayed a (f a) := by
  cases request with
  | createUnit body user =>
    simp only [Request.program, createUnit]
    split
    · refine every_checked fun label _ => every_select replayed_refl fun db => ?_
      split
      · trivial
      · exact every_execute (insertUnit_replayed _ _ _)
    · trivial
  | updateUnit code body user =>
    exact every_checked fun label _ => every_execute (updateUnitRow_replayed _ _ _ _)
  | createRule body user =>
    exact every_checked fun rule _ => every_knownUnit replayed_refl <|
      every_duplicate replayed_refl <| every_execute (insertRule_replayed _ _ _ _)
  | updateRule id body user =>
    exact every_checked fun rule _ => every_knownUnit replayed_refl <|
      every_duplicate replayed_refl <| every_execute (updateRuleRow_replayed _ _ _ _ _)
  | deleteRule id user => exact every_execute (deleteRuleRow_replayed _ _)
  | orderRules ids user =>
    refine every_select replayed_refl fun db => ?_
    split
    · exact every_execute (placeRules_replayed _ _)
    · trivial
  | recompute user => exact ⟨recompute_replayed pg user, fun _ => trivial⟩
  | ingest new => exact ⟨insertCall_replayed pg new, fun _ => trivial⟩

end Statements

section Runs

variable {pg : Postgres} {py : Python} {db : Database} {u s : System Database Answer}

theorem replayed_of_execution (h : Execution (StepOf (next (Request.program pg py))) u s)
    (hu : ∀ p ∈ u.pending, p.Every fun f => ∀ a, Replayed a (f a)) :
    Replayed u.shared s.shared :=
  related_of_execution replayed_refl (fun _ _ _ => Replayed.trans)
    (fun request _ => program_replayed request) hu (guarded_of_execution h)

/-- However the statements of the requests come, the lines that a run adds rebuild units and
rules at each moment of it, and each says of the row it changes what the lines before rebuild. -/
theorem audit_rebuilds (before : Execution (StepOf (next (Request.program pg py))) (start db) u)
    (after : Execution (StepOf (next (Request.program pg py))) u s) :
    ∃ early late, u.shared.audit = db.audit ++ early ∧
      s.shared.audit = db.audit ++ (early ++ late) ∧
      known u.shared.toTables = replay (known db.toTables) early ∧
      known s.shared.toTables = replay (known db.toTables) (early ++ late) ∧
      Chained (known db.toTables) (early ++ late) := by
  have hnone : ∀ p ∈ (start db : System Database Answer).pending,
      p.Every fun f => ∀ a, Replayed a (f a) := fun p hp => absurd hp List.not_mem_nil
  obtain ⟨early, haudit, hknown, hchain⟩ := replayed_of_execution before hnone
  have hpending := every_of_execution (fun request _ => program_replayed request) hnone
    (guarded_of_execution before)
  obtain ⟨late, haudit', hknown', hchain'⟩ := replayed_of_execution after hpending
  refine ⟨early, late, haudit, ?_, hknown, ?_, ?_⟩
  · rw [haudit', haudit, List.append_assoc]
    rfl
  · rw [hknown', hknown, replay_append]
    rfl
  · rw [hknown] at hchain'
    exact chained_append.mpr ⟨hchain, hchain'⟩

/-- A unit and a rule are made, then the rule goes while the unit is renamed. -/
def firstEvents : List (Event Request) :=
  [.arrive (.createUnit ⟨" ops", "Operations"⟩ "ana"), .advance 0, .advance 0,
    .arrive (.createRule ⟨"OPS", "uri", "prefix", "21", "site", true⟩ "ana"),
    .advance 1, .advance 1, .advance 1]

def lastEvents : List (Event Request) :=
  [.arrive (.orderRules [1] "ben"), .arrive (.deleteRule 1 "ana"), .advance 2,
    .arrive (.updateUnit "OPS" ⟨some "Support", none⟩ "ana"), .advance 3, .advance 4, .advance 2]

def runOf (db : System Database Answer) (events : List (Event Request)) :
    Option (System Database Answer) :=
  runEvents (next (Request.program plainPostgres plainPython)) db events

theorem audit_rebuilds_run : ∃ u s, runOf (start installed) firstEvents = some u ∧
    runOf u lastEvents = some s ∧ s.shared.audit.length = 4 ∧
    known s.shared.toTables = replay (known installed.toTables) s.shared.audit := by
  have hfirst : (runOf (start installed) firstEvents).isSome = true := by decide +kernel
  obtain ⟨u, hu⟩ := Option.isSome_iff_exists.mp hfirst
  have hlast : ((runOf (start installed) firstEvents).bind fun u =>
      (runOf u lastEvents)).any fun s => s.shared.audit.length == 4 := by decide +kernel
  rw [hu, Option.bind_some] at hlast
  obtain ⟨s, hs, hlength⟩ := (Option.any_eq_true _ _).mp hlast
  obtain ⟨early, late, -, haudit, -, hknown, -⟩ :=
    audit_rebuilds (runEvents_execution hu) (runEvents_execution hs)
  refine ⟨u, s, hu, hs, by simpa using hlength, ?_⟩
  rw [hknown, haudit]
  rfl

end Runs

end OrgUnitAudit
