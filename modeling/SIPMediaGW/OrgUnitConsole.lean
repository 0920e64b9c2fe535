import SIPMediaGW.InterleavedStatements
import SIPMediaGW.OrgUnitRules

/-! # The console that writes units and rules

A request reads first, in statements of its own, then writes its change and the audit line of
it in one statement. The server refuses a statement that breaks a constraint, and the sequence
of rule ids keeps what a refused statement drew. Columns that only hold instants are left out,
as is the table that logs recomputes. -/
namespace OrgUnitConsole

open InterleavedStatements
open OrderedQuery
open OrgUnitRules
open PythonJson

/-- `str.upper`. Case changes no line ending. -/
structure Python where
  upper : String → String
  upper_newline : ∀ s, (upper s).toList.getLast? = some '\n' → s.toList.getLast? = some '\n'

theorem toUpper_newline (c : Char) : c.toUpper = '\n' → c = '\n' := by
  unfold Char.toUpper
  split
  · rename_i h
    intro he
    have hlow := UInt32.le_iff_toNat_le.mp h.1
    have hhigh := UInt32.le_iff_toNat_le.mp h.2
    have hval := congrArg UInt32.toNat (congrArg Char.val he)
    simp [UInt32.toNat_add] at hlow hhigh hval
    omega
  · exact id

theorem upper_newline_ascii (s : String)
    (h : (String.ofList (s.toList.map Char.toUpper)).toList.getLast? = some '\n') :
    s.toList.getLast? = some '\n' := by
  rw [String.toList_ofList, List.getLast?_map] at h
  obtain ⟨c, hc, hup⟩ := Option.map_eq_some_iff.mp h
  rw [hc, toUpper_newline c hup]

/-- Case of ASCII letters. -/
def plainPython : Python :=
  ⟨fun s => String.ofList (s.toList.map Char.toUpper), upper_newline_ascii⟩

structure UnitRow extends OrgUnit where
  label : String
  parentCode : Option String
  deriving DecidableEq, Repr

structure RuleRow extends Rule where
  comment : Option String
  updatedBy : Option String
  deriving DecidableEq, Repr

structure AuditLine where
  actor : String
  action : String
  target : String
  detail : Dict

structure Tables where
  units : List UnitRow
  rules : List RuleRow
  calls : List CallEntry
  audit : List AuditLine

def Tables.codes (t : Tables) : List String := t.units.map fun u => u.code

def Tables.ids (t : Tables) : List ℤ := t.rules.map fun r => r.id

/-- What is unique of a rule beside its id. -/
def RuleRow.signature (r : RuleRow) : Field × MatchType × String :=
  (r.field, r.matchType, r.pattern)

/-- Keys, references, checks and the range of the column type. -/
structure Tables.Valid (t : Tables) : Prop where
  codes : t.codes.Nodup
  ids : t.ids.Nodup
  signatures : (t.rules.map RuleRow.signature).Nodup
  references : ∀ r ∈ t.rules, r.orgUnitCode ∈ t.codes
  parents : ∀ u ∈ t.units, (u.parentCode.all fun code => t.codes.contains code) = true
  fields : ∀ r ∈ t.rules, r.field = .uri ∨ r.field = .callerAlias
  positions : ∀ r ∈ t.rules, (r.position.all fun p => decide (p ≤ 2147483647)) = true
  assigned : ∀ c ∈ t.calls, (c.orgUnit.all fun code => t.codes.contains code) = true

theorem valid_iff (t : Tables) : t.Valid ↔ t.codes.Nodup ∧ t.ids.Nodup ∧
    (t.rules.map RuleRow.signature).Nodup ∧ (∀ r ∈ t.rules, r.orgUnitCode ∈ t.codes) ∧
    (∀ u ∈ t.units, (u.parentCode.all fun code => t.codes.contains code) = true) ∧
    (∀ r ∈ t.rules, r.field = .uri ∨ r.field = .callerAlias) ∧
    (∀ r ∈ t.rules, (r.position.all fun p => decide (p ≤ 2147483647)) = true) ∧
    ∀ c ∈ t.calls, (c.orgUnit.all fun code => t.codes.contains code) = true :=
  ⟨fun h => ⟨h.codes, h.ids, h.signatures, h.references, h.parents, h.fields, h.positions,
    h.assigned⟩, fun ⟨a, b, c, d, e, f, g, h⟩ => ⟨a, b, c, d, e, f, g, h⟩⟩

instance (t : Tables) : Decidable t.Valid := decidable_of_iff' _ (valid_iff t)

structure Database extends Tables where
  valid : toTables.Valid
  /-- What the sequence of rule ids gives next. -/
  nextRule : ℤ

theorem valid_empty : (Tables.mk [] [] [] []).Valid where
  codes := List.nodup_nil
  ids := List.nodup_nil
  signatures := List.nodup_nil
  references _ h := absurd h List.not_mem_nil
  parents _ h := absurd h List.not_mem_nil
  fields _ h := absurd h List.not_mem_nil
  positions _ h := absurd h List.not_mem_nil
  assigned _ h := absurd h List.not_mem_nil

/-- The schema as it is shipped: no unit, no rule. -/
def installed : Database := ⟨⟨[], [], [], []⟩, valid_empty, 1⟩

/-- What a statement would leave, and the rows it gives back. -/
structure Written (α : Type) where
  tables : Tables
  nextRule : ℤ
  rows : List α

def Database.commit {α : Type} (db : Database) (w : Written α) : Database :=
  if h : w.tables.Valid then ⟨w.tables, h, w.nextRule⟩ else { db with nextRule := w.nextRule }

structure Refusal where
  status : ℕ
  detail : String
  deriving DecidableEq, Repr

inductive Answer where
  | refused (r : Refusal)
  | failed
  | unit (row : UnitRow)
  | rule (row : RuleRow)
  | deleted (id : ℤ)
  | order (ids : List ℤ)
  | recomputed (rowsSeen rowsMoved : ℕ)
  | ingested
  deriving DecidableEq, Repr

section Checks

/-- Required, trimmed of nothing, and no longer than its column shows. -/
def text (value : Option String) (what : String) (limit : ℕ) : Except Refusal String :=
  match value with
  | none => .error ⟨400, what ++ " is required"⟩
  | some value =>
    if strip value = "" then .error ⟨400, what ++ " is required"⟩
    else if value ≠ strip value then
      .error ⟨400, what ++ " must not start or end with a space"⟩
    else if limit < value.length then
      .error ⟨400, what ++ ": " ++ toString limit ++ " characters at most"⟩
    else .ok value

def codeStart (c : Char) : Bool := ('A' ≤ c && c ≤ 'Z') || ('0' ≤ c && c ≤ '9')

def codeChar (c : Char) : Bool := codeStart c || c == '_' || c == '-'

/-- `[A-Z0-9][A-Z0-9_-]{0,31}`. -/
def isCode : List Char → Bool
  | [] => false
  | c :: rest => codeStart c && rest.all codeChar && decide (rest.length ≤ 31)

/-- `CODE.match`: a `$` also stands before a last line ending. -/
def codeMatches (s : String) : Bool :=
  isCode s.toList || (s.toList.getLast? == some '\n' && isCode s.toList.dropLast)

structure NewUnit where
  code : String
  label : String

structure UnitPatch where
  label : Option String
  active : Option Bool

structure RuleBody where
  orgUnitCode : String
  field : String
  matchType : String
  pattern : String
  description : String
  active : Bool

def fieldText : Field → String
  | .number => "number"
  | .name => "name"
  | .domain => "domain"
  | .uri => "uri"
  | .callerAlias => "alias"

def matchTypeText : MatchType → String
  | .prefixMatch => "prefix"
  | .suffixMatch => "suffix"
  | .regexMatch => "regex"

/-- `FIELDS`. -/
def consoleField (s : String) : Option Field :=
  if s = "uri" then some .uri else if s = "alias" then some .callerAlias else none

/-- `MATCH_TYPES`. -/
def consoleMatchType (s : String) : Option MatchType :=
  if s = "prefix" then some .prefixMatch else if s = "suffix" then some .suffixMatch else none

structure CheckedRule where
  field : Field
  matchType : MatchType
  pattern : String
  description : String

def checkRule (body : RuleBody) : Except Refusal CheckedRule :=
  match consoleField body.field with
  | none => .error ⟨400, "field must be one of uri, alias"⟩
  | some field =>
    match consoleMatchType body.matchType with
    | none => .error ⟨400, "match_type must be one of prefix, suffix"⟩
    | some matchType => do
      let pattern ← text (some body.pattern) "pattern" 128
      let description ← text (some body.description) "description" 200
      return ⟨field, matchType, pattern, description⟩

end Checks

section Lines

def optionalText (value : Option String) : Json := (value.map Json.str).getD .null

def optionalInt (value : Option ℤ) : Json := (value.map Json.int).getD .null

def idsJson (ids : List ℤ) : Json := .arr (ids.map Json.int)

/-- The three columns that a statement returns of a unit. -/
def returnedUnit (u : UnitRow) : Json :=
  .obj [("code", .str u.code), ("label", .str u.label), ("active", .bool u.active)]

/-- `to_jsonb` of a whole row. -/
def unitRowJson (u : UnitRow) : Json :=
  .obj [("code", .str u.code), ("label", .str u.label),
    ("parent_code", optionalText u.parentCode), ("active", .bool u.active)]

/-- The columns that a statement returns of a rule: its comment is called its description. -/
def returnedRule (r : RuleRow) : Json :=
  .obj [("id", .int r.id), ("org_unit_code", .str r.orgUnitCode),
    ("field", .str (fieldText r.field)), ("match_type", .str (matchTypeText r.matchType)),
    ("pattern", .str r.pattern), ("description", optionalText r.comment),
    ("active", .bool r.active), ("position", optionalInt r.position)]

def ruleRowJson (r : RuleRow) : Json :=
  .obj [("id", .int r.id), ("org_unit_code", .str r.orgUnitCode),
    ("field", .str (fieldText r.field)), ("match_type", .str (matchTypeText r.matchType)),
    ("pattern", .str r.pattern), ("priority", .int r.priority), ("active", .bool r.active),
    ("comment", optionalText r.comment), ("position", optionalInt r.position),
    ("updated_by", optionalText r.updatedBy)]

/-- `'rule ' || id`. -/
def ruleTarget (id : ℤ) : String := "rule " ++ toString id

end Lines

section Writes

def insertUnit (code label user : String) (db : Database) : Written UnitRow :=
  let row : UnitRow := ⟨⟨code, true⟩, label, none⟩
  { tables := { db.toTables with
      units := db.units ++ [row]
      audit := db.audit ++ [⟨user, "unit_create", code, [("after", returnedUnit row)]⟩] }
    nextRule := db.nextRule
    rows := [row] }

/-- `COALESCE` keeps what the patch does not give. -/
def patched (label : Option String) (active : Option Bool) (u : UnitRow) : UnitRow :=
  { u with label := label.getD u.label, active := active.getD u.active }

def updateUnitRow (code : String) (label : Option String) (active : Option Bool) (user : String)
    (db : Database) : Written UnitRow :=
  let found := db.units.filter fun u => decide (u.code = code)
  { tables := { db.toTables with
      units := db.units.map fun u => if u.code = code then patched label active u else u
      audit := db.audit ++ found.map fun o =>
        ⟨user, "unit_update", code,
          [("before", unitRowJson o), ("after", returnedUnit (patched label active o))]⟩ }
    nextRule := db.nextRule
    rows := found.map (patched label active) }

/-- `(SELECT COALESCE(max(position), 0) + 1 FROM org_unit_rules)`. -/
def lastPosition (rules : List RuleRow) : ℤ :=
  ((rules.filterMap fun r => r.position).max?).getD 0

def insertRule (unit : String) (rule : CheckedRule) (active : Bool) (user : String)
    (db : Database) : Written RuleRow :=
  let row : RuleRow :=
    { id := db.nextRule, orgUnitCode := unit, field := rule.field, matchType := rule.matchType
      pattern := rule.pattern, priority := 100, active := active
      position := some (lastPosition db.rules + 1), comment := some rule.description
      updatedBy := some user }
  { tables := { db.toTables with
      rules := db.rules ++ [row]
      audit := db.audit ++
        [⟨user, "rule_create", ruleTarget row.id, [("after", returnedRule row)]⟩] }
    nextRule := db.nextRule + 1
    rows := [row] }

def rewritten (unit : String) (rule : CheckedRule) (active : Bool) (user : String)
    (r : RuleRow) : RuleRow :=
  { r with orgUnitCode := unit, field := rule.field, matchType := rule.matchType
           pattern := rule.pattern, comment := some rule.description, active := active
           updatedBy := some user }

def updateRuleRow (id : ℤ) (unit : String) (rule : CheckedRule) (active : Bool) (user : String)
    (db : Database) : Written RuleRow :=
  let found := db.rules.filter fun r => decide (r.id = id)
  { tables := { db.toTables with
      rules := db.rules.map fun r => if r.id = id then rewritten unit rule active user r else r
      audit := db.audit ++ found.map fun o =>
        ⟨user, "rule_update", ruleTarget id,
          [("before", ruleRowJson o),
            ("after", returnedRule (rewritten unit rule active user o))]⟩ }
    nextRule := db.nextRule
    rows := found.map (rewritten unit rule active user) }

def deleteRuleRow (id : ℤ) (user : String) (db : Database) : Written RuleRow :=
  let found := db.rules.filter fun r => decide (r.id = id)
  { tables := { db.toTables with
      rules := db.rules.filter fun r => decide (r.id ≠ id)
      audit := db.audit ++ found.map fun o =>
        ⟨user, "rule_delete", ruleTarget id, [("before", ruleRowJson o)]⟩ }
    nextRule := db.nextRule
    rows := found }

/-- `SELECT id FROM org_unit_rules ORDER BY position NULLS FIRST, id`. -/
def currentOrder (rules : List RuleRow) : List ℤ :=
  (orderBy (fun r => evaluation r.toRule) rules).map fun r => r.id

/-- `ordinality`: the place of an id in the posted list, counted from 1. -/
def ordinality (ids : List ℤ) (id : ℤ) : Option ℤ :=
  if id ∈ ids then some (ids.idxOf id + 1) else none

/-- A rule goes to its place in the list; one already there is left alone. -/
def placed (ids : List ℤ) (user : String) (r : RuleRow) : RuleRow :=
  match ordinality ids r.id with
  | none => r
  | some p =>
    if r.position = some p then r else { r with position := some p, updatedBy := some user }

def moves (ids : List ℤ) (r : RuleRow) : Bool :=
  match ordinality ids r.id with
  | none => false
  | some p => decide (r.position ≠ some p)

def placeRules (ids : List ℤ) (user : String) (db : Database) : Written ℤ :=
  let changed := db.rules.filter (moves ids)
  { tables := { db.toTables with
      rules := db.rules.map (placed ids user)
      audit := if changed = [] then db.audit else db.audit ++
        [⟨user, "rules_order", "rules",
          [("before", idsJson (currentOrder db.rules)), ("after", idsJson ids)]⟩] }
    nextRule := db.nextRule
    rows := changed.map fun r => r.id }

end Writes

/-- Units and rules as the resolution of callers reads them. -/
def Tables.Valid.rulebook {t : Tables} (h : t.Valid) : Rulebook where
  units := t.units.map UnitRow.toOrgUnit
  rules := t.rules.map RuleRow.toRule
  codes := by
    rw [List.map_map]
    exact h.codes
  ids := by
    rw [List.map_map]
    exact h.ids

def Database.rulebook (db : Database) : Rulebook := db.valid.rulebook

section Routes

variable (pg : Postgres) (py : Python)

/-- A run-time error on one call aborts the statement. -/
def recomputeCalls (user : String) (db : Database) : Option (Written (ℕ × ℕ)) :=
  (recomputeOrgUnits pg db.rulebook db.calls).map fun run =>
    { tables := { db.toTables with
        calls := run.calls
        audit := db.audit ++ [⟨user, "recompute", "calls",
          [("rows_seen", .int run.rowsSeen), ("rows_moved", .int run.rowsMoved)]⟩] }
      nextRule := db.nextRule
      rows := [(run.rowsSeen, run.rowsMoved)] }

/-- `INSERT … ON CONFLICT DO NOTHING`, through the trigger that gives the call its unit. -/
def insertCall (new : CallEntry) (db : Database) : Written Unit :=
  { tables := { db.toTables with
      calls := if new.id ∈ db.calls.map CallEntry.id then db.calls
        else db.calls ++ [callsSetOrgUnit pg db.rulebook new] }
    nextRule := db.nextRule
    rows := [] }

/-- One statement that writes: its rows are answered unless the server refused it. -/
def execute {α : Type} (write : Database → Written α) (answered : List α → Answer) :
    Program Database Answer :=
  .statement (fun db => db.commit (write db)) fun db =>
    .answer (if (write db).tables.Valid then answered (write db).rows else .failed)

/-- A write that touched nothing: the target does not exist. -/
def written {α : Type} (what : String) (answered : α → Answer) : List α → Answer
  | [] => .refused ⟨404, "no such " ++ what⟩
  | row :: _ => answered row

def checked {α : Type} (x : Except Refusal α) (rest : α → Program Database Answer) :
    Program Database Answer :=
  match x with
  | .error r => .answer (.refused r)
  | .ok a => rest a

def createUnit (body : NewUnit) (user : String) : Program Database Answer :=
  let code := py.upper (strip body.code)
  if codeMatches code then
    checked (text (some body.label) "label" 80) fun label =>
      .select fun db =>
        if code ∈ db.codes then .answer (.refused ⟨409, "this code already exists"⟩)
        else execute (insertUnit code label user) (written "entity" .unit)
  else
    .answer (.refused ⟨400, "code: capitals, digits, - and _, 32 characters at most"⟩)

def updateUnit (code : String) (body : UnitPatch) (user : String) : Program Database Answer :=
  checked
    (match body.label with
      | some label => (text (some label) "label" 80).map some
      | none => .ok none)
    fun label => execute (updateUnitRow code label body.active user) (written "entity" .unit)

def knownUnit (code : String) (rest : Program Database Answer) : Program Database Answer :=
  .select fun db =>
    if code ∈ db.codes then rest else .answer (.refused ⟨400, "no such entity"⟩)

/-- Case does not count: the same rule up to case, under another id. -/
def sameRule (rule : CheckedRule) (exceptId : Option ℤ) (r : RuleRow) : Bool :=
  decide (r.field = rule.field ∧ r.matchType = rule.matchType ∧
    pg.lowered r.pattern = pg.lowered rule.pattern ∧ some r.id ≠ exceptId)

def duplicate (rule : CheckedRule) (exceptId : Option ℤ) (rest : Program Database Answer) :
    Program Database Answer :=
  .select fun db =>
    match db.rules.find? (sameRule pg rule exceptId) with
    | some r =>
      .answer (.refused ⟨409, "the same rule already exists (rule " ++ toString r.id ++ ")"⟩)
    | none => rest

/-- A new rule goes to the bottom of the list. -/
def createRule (body : RuleBody) (user : String) : Program Database Answer :=
  checked (checkRule body) fun rule =>
    knownUnit body.orgUnitCode <|
      duplicate pg rule none <|
        execute (insertRule body.orgUnitCode rule body.active user) (written "rule" .rule)

def updateRule (id : ℤ) (body : RuleBody) (user : String) : Program Database Answer :=
  checked (checkRule body) fun rule =>
    knownUnit body.orgUnitCode <|
      duplicate pg rule (some id) <|
        execute (updateRuleRow id body.orgUnitCode rule body.active user) (written "rule" .rule)

def deleteRule (id : ℤ) (user : String) : Program Database Answer :=
  execute (deleteRuleRow id user) (written "rule" fun _ => .deleted id)

/-- The whole list, top to bottom. -/
def orderRules (ids : List ℤ) (user : String) : Program Database Answer :=
  .select fun db =>
    if ids.insertionSort (· ≤ ·) = (currentOrder db.rules).insertionSort (· ≤ ·) ∧ ids.Nodup then
      execute (placeRules ids user) fun _ => .order ids
    else .answer (.refused ⟨409, "the list changed meanwhile: reload"⟩)

def recompute (user : String) : Program Database Answer :=
  .statement
    (fun db =>
      match recomputeCalls pg user db with
      | some w => db.commit w
      | none => db)
    fun db =>
      .answer (match recomputeCalls pg user db with
        | some w =>
          if w.tables.Valid then
            match w.rows with
            | [] => .recomputed 0 0
            | run :: _ => .recomputed run.1 run.2
          else .failed
        | none => .failed)

/-- What reaches the tables: the console's writes, and the calls that come in. -/
inductive Request where
  | createUnit (body : NewUnit) (user : String)
  | updateUnit (code : String) (body : UnitPatch) (user : String)
  | createRule (body : RuleBody) (user : String)
  | updateRule (id : ℤ) (body : RuleBody) (user : String)
  | deleteRule (id : ℤ) (user : String)
  | orderRules (ids : List ℤ) (user : String)
  | recompute (user : String)
  | ingest (new : CallEntry)

def Request.program : Request → Program Database Answer
  | .createUnit body user => OrgUnitConsole.createUnit py body user
  | .updateUnit code body user => OrgUnitConsole.updateUnit code body user
  | .createRule body user => OrgUnitConsole.createRule pg body user
  | .updateRule id body user => OrgUnitConsole.updateRule pg id body user
  | .deleteRule id user => OrgUnitConsole.deleteRule id user
  | .orderRules ids user => OrgUnitConsole.orderRules ids user
  | .recompute user => OrgUnitConsole.recompute pg user
  | .ingest new => execute (insertCall pg new) fun _ => .ingested

end Routes

end OrgUnitConsole
