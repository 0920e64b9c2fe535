import Mathlib.Data.List.Dedup
import Mathlib.Data.List.Sort
import Mathlib.Order.WithBot
import Mathlib.Data.Prod.Lex

/-! # Rows of a query

A `WHERE` whose condition may raise, `GROUP BY` and `ORDER BY` a key, and `row_number()` over
that order.
`NULLS FIRST` is the order of `WithBot`, `DESC` a key with the order reversed. -/
namespace OrderedQuery

variable {α β κ κ' : Type*} {key : α → κ} {key' : α → κ'} {l m : List α} {a b : α}

/-- The rows a condition keeps; `none` when it raises on one of them. -/
def selectWhere (p : α → Option Bool) : List α → Option (List α)
  | [] => some []
  | a :: l =>
    match p a, selectWhere p l with
    | some true, some rows => some (a :: rows)
    | some false, some rows => some rows
    | _, _ => none

def KeyUnique (key : α → κ) (l : List α) : Prop :=
  ∀ a ∈ l, ∀ b ∈ l, key a = key b → a = b

theorem selectWhere_eq_filter {p : α → Option Bool} {q : α → Bool}
    (h : ∀ a ∈ l, p a = some (q a)) : selectWhere p l = some (l.filter q) := by
  induction l with
  | nil => rfl
  | cons a l ih =>
    have hl := ih fun b hb => h b (List.mem_cons_of_mem _ hb)
    have ha := h a List.mem_cons_self
    cases hq : q a <;> simp [selectWhere, ha, hl, hq]

theorem mapM_eq_map {f : α → Option β} {g : α → β} (h : ∀ a ∈ l, f a = some (g a)) :
    l.mapM f = some (l.map g) := by
  induction l with
  | nil => rfl
  | cons a l ih =>
    have hl := ih fun b hb => h b (List.mem_cons_of_mem _ hb)
    simp [List.mapM_cons, h a List.mem_cons_self, hl]

theorem KeyUnique.of_nodup {f : α → β} (h : (l.map f).Nodup)
    (hf : ∀ a b, key a = key b → f a = f b) : KeyUnique key l :=
  fun a ha b hb hk => List.inj_on_of_nodup_map h ha hb (hf a b hk)

theorem KeyUnique.subset (h : KeyUnique key l) (hm : m ⊆ l) : KeyUnique key m :=
  fun a ha b hb => h a (hm ha) b (hm hb)

/-- `GROUP BY key`: the rows of every value of the key. -/
def groupBy [DecidableEq κ] (key : α → κ) (l : List α) : List (κ × List α) :=
  (l.map key).dedup.map fun k => (k, l.filter fun a => decide (key a = k))

theorem mem_groupBy [DecidableEq κ] {g : κ × List α} : g ∈ groupBy key l ↔
    (∃ a ∈ l, key a = g.1) ∧ g.2 = l.filter fun a => decide (key a = g.1) := by
  rw [groupBy, List.mem_map]
  constructor
  · rintro ⟨k, hk, rfl⟩
    exact ⟨List.mem_map.mp (List.mem_dedup.mp hk), rfl⟩
  · rintro ⟨hk, hrows⟩
    exact ⟨g.1, List.mem_dedup.mpr (List.mem_map.mpr hk), by rw [← hrows]⟩

variable [LinearOrder κ] [LinearOrder κ']

def orderBy (key : α → κ) (l : List α) : List α := l.insertionSort fun a b => key a ≤ key b

/-- `row_number() OVER (ORDER BY key)`, counted from 1. -/
def rowNumber [DecidableEq α] (key : α → κ) (l : List α) (a : α) : ℕ :=
  (orderBy key l).idxOf a + 1

/-- The row with the lowest key. -/
structure First (key : α → κ) (l : List α) (a : α) : Prop where
  mem : a ∈ l
  le : ∀ b ∈ l, key a ≤ key b

/-- The row with the highest key. -/
structure Top (key : α → κ) (l : List α) (a : α) : Prop where
  mem : a ∈ l
  le : ∀ b ∈ l, key b ≤ key a

theorem orderBy_perm (key : α → κ) (l : List α) : (orderBy key l).Perm l :=
  List.perm_insertionSort _ l

@[simp] theorem mem_orderBy : a ∈ orderBy key l ↔ a ∈ l := (orderBy_perm key l).mem_iff

theorem pairwise_orderBy (key : α → κ) (l : List α) :
    (orderBy key l).Pairwise fun a b => key a ≤ key b := by
  have htotal : Std.Total fun a b : α => key a ≤ key b := ⟨fun a b => le_total _ _⟩
  have htrans : IsTrans α fun a b => key a ≤ key b := ⟨fun _ _ _ => le_trans⟩
  exact List.pairwise_insertionSort _ l

/-- A list in order is the order of its rows. -/
theorem orderBy_eq (hu : KeyUnique key l) (hm : m.Perm l)
    (hs : m.Pairwise fun a b => key a ≤ key b) : orderBy key l = m := by
  refine List.Perm.eq_of_pairwise ?_ (pairwise_orderBy key l) hs
    ((orderBy_perm key l).trans hm.symm)
  intro a b ha hb hab hba
  exact hu a (mem_orderBy.mp ha) b (hm.mem_iff.mp hb) (le_antisymm hab hba)

theorem First.unique (hu : KeyUnique key l) (h : First key l a) (k : First key l b) : a = b :=
  hu a h.mem b k.mem (le_antisymm (h.le b k.mem) (k.le a h.mem))

theorem Top.unique (hu : KeyUnique key l) (h : Top key l a) (k : Top key l b) : a = b :=
  hu a h.mem b k.mem (le_antisymm (k.le a h.mem) (h.le b k.mem))

theorem first_iff_top (hrev : ∀ a b, key' a ≤ key' b ↔ key b ≤ key a) :
    First key' l a ↔ Top key l a := by
  constructor
  · intro h
    exact ⟨h.mem, fun b hb => (hrev a b).mp (h.le b hb)⟩
  · intro h
    exact ⟨h.mem, fun b hb => (hrev a b).mpr (h.le b hb)⟩

theorem first_of_head? (h : (orderBy key l).head? = some a) : First key l a := by
  obtain ⟨rest, hrest⟩ := List.head?_eq_some_iff.mp h
  have hsorted := pairwise_orderBy key l
  rw [hrest, List.pairwise_cons] at hsorted
  constructor
  · apply (orderBy_perm key l).mem_iff.mp
    rw [hrest]
    exact List.mem_cons_self
  · intro b hb
    have hmem : b ∈ orderBy key l := mem_orderBy.mpr hb
    rw [hrest] at hmem
    rcases List.mem_cons.mp hmem with rfl | hmem
    · exact le_refl _
    · exact hsorted.1 b hmem

theorem exists_first (key : α → κ) (h : l ≠ []) : ∃ a, First key l a := by
  cases ha : (orderBy key l).head? with
  | some a => exact ⟨a, first_of_head? ha⟩
  | none =>
    rw [List.head?_eq_none_iff] at ha
    have hperm := orderBy_perm key l
    rw [ha] at hperm
    exact absurd hperm.nil_eq.symm h

theorem head?_orderBy_eq_some (hu : KeyUnique key l) :
    (orderBy key l).head? = some a ↔ First key l a := by
  constructor
  · exact first_of_head?
  · intro h
    cases hb : (orderBy key l).head? with
    | none =>
      have hnil := List.head?_eq_none_iff.mp hb
      have hmem : a ∈ orderBy key l := mem_orderBy.mpr h.mem
      rw [hnil] at hmem
      cases hmem
    | some b => rw [(first_of_head? hb).unique hu h]

/-- Sorted upwards, the last of the rows kept is the top one of them. -/
theorem getLast?_filter_orderBy_eq_some {p : α → Bool} (hu : KeyUnique key l) :
    ((orderBy key l).filter p).getLast? = some a ↔ Top key (l.filter p) a := by
  have hkept : ∀ b, b ∈ (orderBy key l).filter p ↔ b ∈ l.filter p := by
    intro b
    simp
  have hlast : ∀ b, ((orderBy key l).filter p).getLast? = some b → Top key (l.filter p) b := by
    intro b hb
    obtain ⟨rest, hrest⟩ := List.getLast?_eq_some_iff.mp hb
    have hsorted := (pairwise_orderBy key l).filter p
    rw [hrest, List.pairwise_append] at hsorted
    constructor
    · apply (hkept b).mp
      rw [hrest]
      simp
    · intro c hc
      have hmem := (hkept c).mpr hc
      rw [hrest] at hmem
      rcases List.mem_append.mp hmem with hmem | hmem
      · exact hsorted.2.2 c hmem b (List.mem_singleton_self b)
      · rw [List.mem_singleton.mp hmem]
  constructor
  · exact hlast a
  · intro h
    cases hb : ((orderBy key l).filter p).getLast? with
    | none =>
      have hmem := (hkept a).mpr h.mem
      rw [List.getLast?_eq_none_iff.mp hb] at hmem
      cases hmem
    | some b =>
      have huniq : KeyUnique key (l.filter p) := hu.subset (List.filter_subset_self l)
      rw [(hlast b hb).unique huniq h]

theorem rowNumber_lt_iff [DecidableEq α] (hu : KeyUnique key l) (ha : a ∈ l) (hb : b ∈ l) :
    rowNumber key l a < rowNumber key l b ↔ key a < key b := by
  have hsorted := pairwise_orderBy key l
  have ha' : a ∈ orderBy key l := mem_orderBy.mpr ha
  have hb' : b ∈ orderBy key l := mem_orderBy.mpr hb
  have hia := List.idxOf_lt_length_of_mem ha'
  have hib := List.idxOf_lt_length_of_mem hb'
  have hle : ∀ {i j : ℕ} (hi : i < (orderBy key l).length) (hj : j < (orderBy key l).length),
      i ≤ j → key (orderBy key l)[i] ≤ key (orderBy key l)[j] := by
    intro i j hi hj hij
    rcases Nat.eq_or_lt_of_le hij with rfl | hij
    · exact le_refl _
    · exact List.pairwise_iff_getElem.mp hsorted i j hi hj hij
  unfold rowNumber
  constructor
  · intro h
    have hkey := hle hia hib (by omega)
    rw [List.getElem_idxOf hia, List.getElem_idxOf hib] at hkey
    apply lt_of_le_of_ne hkey
    intro he
    rw [hu a ha b hb he] at h
    exact Nat.lt_irrefl _ h
  · intro h
    by_contra hnot
    have hkey := hle hib hia (by omega)
    rw [List.getElem_idxOf hia, List.getElem_idxOf hib] at hkey
    exact absurd h (not_lt.mpr hkey)

end OrderedQuery
