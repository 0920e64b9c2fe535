import Mathlib.Data.Int.ConditionallyCompleteOrder
import SIPMediaGW.IngestMapping
import SIPMediaGW.OrderedQuery

/-! # Organisational units and the rules that give calls one

Three queries read the rules: the console's probe, the trigger of an inserted call and the
recompute of stored ones. What the database makes of case and of regular expressions is left
to `Postgres`. -/
namespace OrgUnitRules

open OrderedQuery

structure Postgres where
  /-- `lower()`, character by character. -/
  lower : Char → Char
  lower_at : ∀ c, lower c = '@' ↔ c = '@'
  /-- `value ~* pattern`; `none` for a run-time error. -/
  imatch : String → String → Option Bool

theorem toLower_at (c : Char) : c.toLower = '@' ↔ c = '@' := by
  unfold Char.toLower
  split
  · rename_i h
    constructor
    · intro he
      have hlow := UInt32.le_iff_toNat_le.mp h.1
      have hhigh := UInt32.le_iff_toNat_le.mp h.2
      have hval := congrArg UInt32.toNat (congrArg Char.val he)
      simp [UInt32.toNat_add] at hlow hhigh hval
      omega
    · rintro rfl
      revert h
      decide
  · rfl

/-- Case of ASCII letters, and regular expressions made of plain characters. -/
def plainPostgres : Postgres where
  lower := Char.toLower
  lower_at := toLower_at
  imatch value pattern :=
    some ((value.toList.map Char.toLower).tails.any fun s =>
      (pattern.toList.map Char.toLower).isPrefixOf s)

/-- The columns `number`, `name` and `domain` are those of rules v1. -/
inductive Field where
  | number
  | name
  | domain
  | uri
  | callerAlias
  deriving DecidableEq, Repr

inductive MatchType where
  | prefixMatch
  | suffixMatch
  | regexMatch
  deriving DecidableEq, Repr

structure OrgUnit where
  code : String
  active : Bool
  deriving DecidableEq, Repr

structure Rule where
  id : ℤ
  orgUnitCode : String
  field : Field
  matchType : MatchType
  pattern : String
  priority : ℤ
  active : Bool
  position : Option ℤ
  deriving DecidableEq, Repr

/-- The tables `org_units` and `org_unit_rules` with their keys. -/
structure Rulebook where
  units : List OrgUnit
  rules : List Rule
  codes : (units.map OrgUnit.code).Nodup
  ids : (rules.map Rule.id).Nodup

section Matching

variable (pg : Postgres)

def Postgres.lowered (s : String) : List Char := s.toList.map pg.lower

/-- `right(s, n)`. -/
def right (s : List Char) (n : ℕ) : List Char := s.drop (s.length - n)

/-- `regexp_replace(uri, '^sips?:', '', 'i')`. -/
def stripScheme (uri : String) : String :=
  match uri.toList with
  | s :: i :: p :: rest =>
    if (s = 's' ∨ s = 'S') ∧ (i = 'i' ∨ i = 'I') ∧ (p = 'p' ∨ p = 'P') then
      match rest with
      | ':' :: address => String.ofList address
      | c :: ':' :: address => if c = 's' ∨ c = 'S' then String.ofList address else uri
      | _ => uri
    else uri
  | _ => uri

def orgUnitUri (uri number domain : Option String) : Option String :=
  match (uri.map stripScheme).filter fun address => decide (address ≠ "") with
  | some address => some address
  | none =>
    match number, domain with
    | some number, some domain => some (number ++ "@" ++ domain)
    | _, _ => none

def orgUnitValue (field : Field) (uri callerAlias : Option String) : Option String :=
  match field with
  | .uri => uri
  | .callerAlias => callerAlias
  | _ => none

def orgUnitRuleMatches (type : MatchType) (pattern : String) (value : Option String) :
    Option Bool :=
  match value with
  | none => some false
  | some value =>
    match type with
    | .prefixMatch => some ((pg.lowered pattern).isPrefixOf (pg.lowered value))
    | .suffixMatch =>
      some (decide (right (pg.lowered value) pattern.length = pg.lowered pattern))
    | .regexMatch => pg.imatch value pattern

def ruleMatches (uri callerAlias : Option String) (r : Rule) : Option Bool :=
  orgUnitRuleMatches pg r.matchType r.pattern (orgUnitValue r.field uri callerAlias)

end Matching

/-- The activity of the entity a rule gives: `JOIN org_units u ON u.code = r.org_unit_code`. -/
def Rulebook.unitActive (book : Rulebook) (r : Rule) : Option Bool :=
  (book.units.find? fun u => decide (u.code = r.orgUnitCode)).map OrgUnit.active

/-- `position NULLS FIRST, id`. -/
def evaluation (r : Rule) : WithBot ℤ ×ₗ ℤ := toLex (r.position, r.id)

/-- `position DESC NULLS LAST, id DESC`. -/
def evaluationDesc (r : Rule) : (WithBot ℤ)ᵒᵈ ×ₗ ℤᵒᵈ :=
  toLex (OrderDual.toDual (r.position : WithBot ℤ), OrderDual.toDual r.id)

section Queries

variable (pg : Postgres) (book : Rulebook)

def resolveOrgUnit (uri callerAlias : Option String) : Option (Option String) :=
  let condition := fun r =>
    if book.unitActive r = some true ∧ r.active = true then ruleMatches pg uri callerAlias r
    else some false
  (selectWhere condition book.rules).map fun rows =>
    (orderBy evaluationDesc rows).head?.map Rule.orgUnitCode

/-- What the console posts, and what it answers. -/
structure Probe where
  uri : Option String
  callerAlias : Option String
  deriving DecidableEq, Repr

structure Match where
  rule : Rule
  unitActive : Bool
  deriving DecidableEq, Repr

structure ProbeAnswer where
  rows : List Match
  winner : Option Match
  deriving DecidableEq, Repr

/-- `value or None`. -/
def orNone (value : Option String) : Option String := value.filter fun s => decide (s ≠ "")

def Rulebook.joined : List Match :=
  book.rules.filterMap fun r => (book.unitActive r).map fun active => ⟨r, active⟩

def testRules (body : Probe) : Option ProbeAnswer :=
  let uri := orgUnitUri (orNone body.uri) none none
  let condition := fun m : Match =>
    if m.rule.active = true then ruleMatches pg uri (orNone body.callerAlias) m.rule else some false
  (selectWhere condition book.joined).map fun found =>
    let rows := orderBy (fun m => evaluation m.rule) found
    let deciding := rows.filter Match.unitActive
    ⟨rows, deciding.getLast?⟩

/-- The caller's columns of a row of `calls`. The ingestion stores no empty alias. -/
structure CallEntry where
  id : ℕ
  sourceUri : Option String
  sourceName : Option String
  sourceNumber : Option String
  sourceDomain : Option String
  orgUnit : Option String
  named : sourceName ≠ some ""

def resolveCall (c : CallEntry) : Option (Option String) :=
  resolveOrgUnit pg book (orgUnitUri c.sourceUri c.sourceNumber c.sourceDomain) c.sourceName

/-- The `BEFORE INSERT` trigger: a run-time error leaves the call without a unit. -/
def callsSetOrgUnit (new : CallEntry) : CallEntry :=
  { new with orgUnit := (resolveCall pg book new).getD none }

structure Recomputed where
  calls : List CallEntry
  rowsSeen : ℕ
  rowsMoved : ℕ

/-- `recompute_org_units`: a run-time error on one call aborts the whole run. -/
def recomputeOrgUnits (calls : List CallEntry) : Option Recomputed :=
  (calls.mapM (resolveCall pg book)).map fun resolved =>
    let changed := (calls.zip resolved).filter fun e => decide (e.1.orgUnit ≠ e.2)
    ⟨(calls.zip resolved).map fun e =>
        if e.1.orgUnit ≠ e.2 then { e.1 with orgUnit := e.2 } else e.1,
      calls.length, changed.length⟩

end Queries

section Deciding

variable {pg : Postgres} {book : Rulebook} {uri callerAlias : Option String}

/-- Regular expressions answer on every value. -/
def NoRunTimeError (pg : Postgres) (book : Rulebook) : Prop :=
  ∀ r ∈ book.rules, r.matchType = .regexMatch → ∀ value, (pg.imatch value r.pattern).isSome = true

def matched (pg : Postgres) (uri callerAlias : Option String) (r : Rule) : Bool :=
  (ruleMatches pg uri callerAlias r).getD false

/-- The active rules of active entities that match, in table order. -/
def Rulebook.deciding (book : Rulebook) (pg : Postgres) (uri callerAlias : Option String) :
    List Rule :=
  book.rules.filter fun r =>
    decide (book.unitActive r = some true ∧ r.active = true) && matched pg uri callerAlias r

theorem ruleMatches_eq (h : NoRunTimeError pg book) {r : Rule} (hr : r ∈ book.rules) :
    ruleMatches pg uri callerAlias r = some (matched pg uri callerAlias r) := by
  unfold matched ruleMatches orgUnitRuleMatches
  cases orgUnitValue r.field uri callerAlias with
  | none => rfl
  | some value =>
    cases htype : r.matchType with
    | prefixMatch => rfl
    | suffixMatch => rfl
    | regexMatch =>
      obtain ⟨b, hb⟩ := Option.isSome_iff_exists.mp (h r hr htype value)
      simp [hb]

theorem evaluation_unique (book : Rulebook) : KeyUnique evaluation book.rules :=
  .of_nodup book.ids fun _ _ h => congrArg (fun k => (ofLex k).2) h

theorem evaluationDesc_unique (book : Rulebook) : KeyUnique evaluationDesc book.rules :=
  .of_nodup book.ids fun _ _ h => OrderDual.toDual_inj.mp (congrArg (fun k => (ofLex k).2) h)

theorem evaluationDesc_le (a b : Rule) :
    evaluationDesc a ≤ evaluationDesc b ↔ evaluation b ≤ evaluation a := by
  simp only [evaluation, evaluationDesc, Prod.Lex.toLex_le_toLex, OrderDual.toDual_le_toDual]
  constructor
  · rintro (h | ⟨h, hid⟩)
    · exact Or.inl h
    · exact Or.inr ⟨(OrderDual.toDual_inj.mp h).symm, hid⟩
  · rintro (h | ⟨h, hid⟩)
    · exact Or.inl h
    · exact Or.inr ⟨congrArg OrderDual.toDual h.symm, hid⟩

theorem resolveOrgUnit_eq (h : NoRunTimeError pg book) :
    resolveOrgUnit pg book uri callerAlias =
      some ((orderBy evaluationDesc (book.deciding pg uri callerAlias)).head?.map
        Rule.orgUnitCode) := by
  have hselect : selectWhere (fun r =>
      if book.unitActive r = some true ∧ r.active = true then ruleMatches pg uri callerAlias r
      else some false) book.rules = some (book.deciding pg uri callerAlias) := by
    apply selectWhere_eq_filter
    intro r hr
    by_cases hc : book.unitActive r = some true ∧ r.active = true
    · rw [if_pos hc, ruleMatches_eq h hr]
      simp [hc]
    · rw [if_neg hc]
      simp [hc]
  simp only [resolveOrgUnit, hselect, Option.map_some]

/-- The last matching rule in evaluation order gives the unit. -/
theorem resolveOrgUnit_some (h : NoRunTimeError pg book) {r : Rule}
    (hr : Top evaluation (book.deciding pg uri callerAlias) r) :
    resolveOrgUnit pg book uri callerAlias = some (some r.orgUnitCode) := by
  have hunique : KeyUnique evaluationDesc (book.deciding pg uri callerAlias) :=
    (evaluationDesc_unique book).subset (List.filter_subset_self _)
  have hfirst := (first_iff_top evaluationDesc_le).mpr hr
  rw [resolveOrgUnit_eq h, (head?_orderBy_eq_some hunique).mpr hfirst]
  rfl

theorem resolveOrgUnit_none (h : NoRunTimeError pg book)
    (hnone : book.deciding pg uri callerAlias = []) :
    resolveOrgUnit pg book uri callerAlias = some none := by
  rw [resolveOrgUnit_eq h, hnone]
  rfl

end Deciding

end OrgUnitRules
