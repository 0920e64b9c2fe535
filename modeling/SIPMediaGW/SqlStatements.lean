import Mathlib.Data.List.DropRight
import Mathlib.Data.List.Forall2
import Mathlib.Data.List.Nodup

/-! # Texts and statements of a SQL server

Texts compare up to a collation: one weight for each character, trailing blanks aside. A
comparison with NULL holds of nothing, and a grouping puts NULLs together. Tables are lists
of rows. -/
namespace SqlStatements

structure Collation where
  weight : Char → Char

section Text

variable (c : Collation)

def Collation.key (s : String) : List Char :=
  (s.toList.rdropWhile (· = ' ')).map c.weight

/-- `a = b`. -/
def Collation.same : Option String → Option String → Bool
  | some a, some b => c.key a == c.key b
  | _, _ => false

/-- What `GROUP BY` compares. -/
def Collation.groupKey (s : Option String) : Option (List Char) := s.map c.key

theorem Collation.groupKey_of_same {a b : Option String} (h : c.same a b = true) :
    c.groupKey a = c.groupKey b := by
  cases a with
  | none => cases h
  | some a =>
    cases b with
    | none => cases h
    | some b => exact congrArg some (beq_iff_eq.mp h)

/-- `s LIKE pattern`; a backslash takes the character after it as it is. -/
def Collation.like : List Char → List Char → Bool
  | [], s => s.isEmpty
  | '%' :: pattern, s => s.tails.any fun t => Collation.like pattern t
  | '_' :: pattern, s =>
    match s with
    | [] => false
    | _ :: t => Collation.like pattern t
  | '\\' :: x :: pattern, s =>
    match s with
    | [] => false
    | y :: t => c.weight x == c.weight y && Collation.like pattern t
  | x :: pattern, s =>
    match s with
    | [] => false
    | y :: t => c.weight x == c.weight y && Collation.like pattern t

/-- `s LIKE CONCAT('%', part, '%')`. -/
def Collation.likeAround (part s : String) : Bool :=
  c.like ('%' :: (part.toList ++ ['%'])) s.toList

/-- `SUBSTRING_INDEX(s, delim, 1)`. -/
def beforeFirst (delim : List Char) : List Char → List Char
  | [] => []
  | x :: s => if delim.isPrefixOf (x :: s) then [] else x :: beforeFirst delim s

def afterLast? (delim : List Char) : List Char → Option (List Char)
  | [] => none
  | x :: s =>
    match afterLast? delim s with
    | some t => some t
    | none => if delim.isPrefixOf (x :: s) then some ((x :: s).drop delim.length) else none

/-- `SUBSTRING_INDEX(s, delim, -1)`. -/
def afterLast (delim s : List Char) : List Char := (afterLast? delim s).getD s

end Text

section Rows

variable {α κ : Type*} {rows : List α} {p : α → Bool} {set : α → α} {r : α}

/-- The rows after an `UPDATE`; it touches `rows.countP p` of them. -/
def updateWhere (p : α → Bool) (set : α → α) (rows : List α) : List α :=
  rows.map fun r => if p r then set r else r

theorem mem_updateWhere :
    r ∈ updateWhere p set rows ↔ ∃ q ∈ rows, (if p q then set q else q) = r := List.mem_map

theorem updateWhere_of_countP_eq_zero (h : rows.countP p = 0) : updateWhere p set rows = rows := by
  have hid : ∀ r ∈ rows, (if p r then set r else r) = r :=
    fun r hr => if_neg (List.countP_eq_zero.mp h r hr)
  rw [updateWhere, List.map_congr_left hid, List.map_id']

/-- Tables related row by row. -/
theorem exists_mem_of_forall₂ {R : α → α → Prop} {after : List α}
    (h : List.Forall₂ R rows after) (hr : r ∈ rows) : ∃ r' ∈ after, R r r' := by
  induction h with
  | nil => cases hr
  | cons hhead _ ih =>
    rcases List.mem_cons.mp hr with rfl | hr
    · exact ⟨_, List.mem_cons_self, hhead⟩
    · obtain ⟨r', hr', hR⟩ := ih hr
      exact ⟨r', List.mem_cons_of_mem _ hr', hR⟩

/-- An update takes the rows it touches out of a condition they met. -/
theorem countP_updateWhere {q : α → Bool}
    (h : ∀ r, p r = true → q r = true ∧ q (set r) = false) (rows : List α) :
    (updateWhere p set rows).countP q + rows.countP p = rows.countP q := by
  induction rows with
  | nil => rfl
  | cons r rest ih =>
    rw [updateWhere] at ih ⊢
    rw [List.map_cons, List.countP_cons, List.countP_cons, List.countP_cons]
    cases hr : p r with
    | true =>
      obtain ⟨hbefore, hafter⟩ := h r hr
      rw [if_pos rfl, hbefore, hafter, if_neg (Bool.false_ne_true), if_pos rfl]
      omega
    | false =>
      rw [if_neg (Bool.false_ne_true), if_neg (Bool.false_ne_true)]
      omega

/-- The rows of `SELECT …, COUNT(…) … GROUP BY key`: one row of each group, any of them, with
the size of the group. -/
structure Groups [DecidableEq κ] (key : α → κ) (rows : List α) (groups : List (α × ℕ)) :
    Prop where
  distinct : (groups.map fun g => key g.1).Nodup
  member : ∀ g ∈ groups, g.1 ∈ rows
  count : ∀ g ∈ groups, g.2 = rows.countP fun r => key r = key g.1
  complete : ∀ r ∈ rows, ∃ g ∈ groups, key g.1 = key r

variable [DecidableEq κ] {key : α → κ} {groups : List (α × ℕ)} {g : α × ℕ}

theorem Groups.count_pos (h : Groups key rows groups) (hg : g ∈ groups) : 0 < g.2 := by
  rw [h.count g hg]
  exact List.countP_pos_iff.mpr ⟨g.1, h.member g hg, decide_eq_true rfl⟩

theorem Groups.eq_nil_iff (h : Groups key rows groups) : groups = [] ↔ rows = [] := by
  constructor
  · rintro rfl
    apply List.eq_nil_iff_forall_not_mem.mpr
    intro r hr
    obtain ⟨g, hg, -⟩ := h.complete r hr
    cases hg
  · rintro rfl
    apply List.eq_nil_iff_forall_not_mem.mpr
    intro g hg
    cases h.member g hg

theorem Groups.nil (key : α → κ) : Groups key [] [] where
  distinct := List.nodup_nil
  member _ h := by cases h
  count _ h := by cases h
  complete _ h := by cases h

theorem Groups.singleton (key : α → κ) (r : α) : Groups key [r] [(r, 1)] where
  distinct := List.nodup_singleton _
  member g hg := by
    obtain rfl := List.mem_singleton.mp hg
    exact List.mem_cons_self
  count g hg := by
    obtain rfl := List.mem_singleton.mp hg
    simp
  complete q hq := by
    obtain rfl := List.mem_singleton.mp hq
    exact ⟨(q, 1), List.mem_cons_self, rfl⟩

theorem Groups.pair {r q : α} (h : key r ≠ key q) : Groups key [r, q] [(r, 1), (q, 1)] where
  distinct := by simpa using h
  member g hg := by
    rcases List.mem_pair.mp hg with rfl | rfl
    · exact List.mem_cons_self
    · exact List.mem_cons_of_mem _ List.mem_cons_self
  count g hg := by
    rcases List.mem_pair.mp hg with rfl | rfl
    · simp [h.symm]
    · simp [h]
  complete x hx := by
    rcases List.mem_pair.mp hx with rfl | rfl
    · exact ⟨(x, 1), List.mem_cons_self, rfl⟩
    · exact ⟨(x, 1), List.mem_cons_of_mem _ List.mem_cons_self, rfl⟩

end Rows

end SqlStatements
