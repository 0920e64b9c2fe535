import Mathlib.Algebra.BigOperators.Group.List.Basic
import Mathlib.Algebra.Group.Int.Defs
import SIPMediaGW.OrderedQuery

/-! # Sums over groups of rows

A sum over the rows that a condition keeps is the sum over the parts of the condition, and a
grouped query shows under each key the sum over the rows of the key. -/
namespace GroupedSums

open OrderedQuery

variable {α β κ : Type*} {w : α → ℤ} {l : List α} {p q : α → Bool}

def sumOver (w : α → ℤ) (l : List α) : ℤ := (l.map w).foldr (· + ·) 0

/-- What the rows of a result show under a key, added up. -/
def underKey [DecidableEq κ] (key : β → κ) (value : β → ℤ) (k : κ) (rows : List β) : ℤ :=
  sumOver value (rows.filter fun row => decide (key row = k))

theorem sumOver_cons (w : α → ℤ) (a : α) (l : List α) :
    sumOver w (a :: l) = w a + sumOver w l := rfl

theorem sumOver_append (w : α → ℤ) (l m : List α) :
    sumOver w (l ++ m) = sumOver w l + sumOver w m := by
  induction l with
  | nil => exact (Int.zero_add _).symm
  | cons a l ih => rw [List.cons_append, sumOver_cons, sumOver_cons, ih, Int.add_assoc]

theorem sumOver_map (w : α → ℤ) (f : β → α) (l : List β) :
    sumOver w (l.map f) = sumOver (fun b => w (f b)) l := by
  rw [sumOver, List.map_map]
  rfl

theorem sumOver_perm {m : List α} (h : l.Perm m) : sumOver w l = sumOver w m := (h.map w).sum_eq

theorem sumOver_one (l : List α) : sumOver (fun _ => 1) l = l.length := by
  induction l with
  | nil => rfl
  | cons a l ih =>
    rw [sumOver_cons, ih, List.length_cons]
    omega

theorem sumOver_le {m : ℤ} (h : ∀ a ∈ l, w a ≤ m) : sumOver w l ≤ l.length * m := by
  induction l with
  | nil => exact (Int.zero_mul m).ge
  | cons a l ih =>
    have ha := h a List.mem_cons_self
    have hl := ih fun b hb => h b (List.mem_cons_of_mem a hb)
    rw [sumOver_cons, List.length_cons, Int.natCast_succ, Int.add_mul, Int.one_mul]
    omega

/-- A sum comes to its bound when every weight does. -/
theorem sumOver_eq_iff {m : ℤ} (h : ∀ a ∈ l, w a ≤ m) :
    sumOver w l = l.length * m ↔ ∀ a ∈ l, w a = m := by
  induction l with
  | nil => exact iff_of_true (Int.zero_mul m).symm fun a ha => absurd ha List.not_mem_nil
  | cons a l ih =>
    have ha := h a List.mem_cons_self
    have hrest : ∀ b ∈ l, w b ≤ m := fun b hb => h b (List.mem_cons_of_mem a hb)
    have hl := sumOver_le hrest
    rw [List.forall_mem_cons, ← ih hrest, sumOver_cons, List.length_cons, Int.natCast_succ,
      Int.add_mul, Int.one_mul]
    omega

/-- A condition as a weight of nothing where it fails. -/
theorem sumOver_filter (w : α → ℤ) (p : α → Bool) (l : List α) :
    sumOver w (l.filter p) = sumOver (fun a => if p a then w a else 0) l := by
  induction l with
  | nil => rfl
  | cons a l ih =>
    rw [sumOver_cons, ← ih]
    cases hp : p a with
    | true => rw [List.filter_cons_of_pos hp, sumOver_cons, if_pos rfl]
    | false =>
      rw [List.filter_cons_of_neg (by rw [hp]; exact Bool.false_ne_true),
        if_neg Bool.false_ne_true, Int.zero_add]

theorem sumOver_filter_or (hdisjoint : ∀ a ∈ l, p a = true → q a = false) :
    sumOver w (l.filter fun a => p a || q a) =
      sumOver w (l.filter p) + sumOver w (l.filter q) := by
  induction l with
  | nil => rfl
  | cons a l ih =>
    have hrest := ih fun b hb => hdisjoint b (List.mem_cons_of_mem a hb)
    have ha := hdisjoint a List.mem_cons_self
    rw [sumOver_filter, sumOver_filter, sumOver_filter] at hrest ⊢
    rw [sumOver_cons, sumOver_cons, sumOver_cons, hrest]
    cases hp : p a with
    | true =>
      rw [ha hp, Bool.or_false, if_pos rfl, if_neg Bool.false_ne_true]
      omega
    | false =>
      rw [Bool.false_or, if_neg Bool.false_ne_true]
      omega

/-- The sum over a condition is the sum over parts of it that exclude each other. -/
theorem sumOver_filter_parts {parts : List (α → Bool)}
    (hdisjoint : parts.Pairwise fun p q => ∀ a ∈ l, p a = true → q a = false) :
    sumOver w (l.filter fun a => parts.any fun p => p a) =
      sumOver (fun p => sumOver w (l.filter p)) parts := by
  induction hdisjoint with
  | nil =>
    have hnone : (l.filter fun a => ([] : List (α → Bool)).any fun p => p a) = [] :=
      List.filter_eq_nil_iff.mpr fun a _ => Bool.false_ne_true
    rw [hnone]
    rfl
  | @cons p parts hp _ ih =>
    rw [sumOver_cons, ← ih]
    simp only [List.any_cons]
    apply sumOver_filter_or
    intro a ha hpa
    apply List.any_eq_false.mpr
    intro q hq
    rw [hp q hq a ha hpa]
    exact Bool.false_ne_true

theorem map_fst_groupBy [DecidableEq κ] (key : α → κ) (l : List α) :
    (groupBy key l).map Prod.fst = (l.map key).dedup := by
  rw [groupBy, List.map_map, Function.comp_def, List.map_id']

/-- The groups whose keys a condition keeps have the rows of these keys. -/
theorem sumOver_groupBy [DecidableEq κ] (key : α → κ) (q : κ → Bool) (l : List α) :
    sumOver (fun g => sumOver w g.2) ((groupBy key l).filter fun g => q g.1) =
      sumOver w (l.filter fun a => q (key a)) := by
  let parts : List (α → Bool) :=
    ((l.map key).dedup.filter q).map fun k => fun a => decide (key a = k)
  have hany : l.filter (fun a => q (key a)) = l.filter fun a => parts.any fun p => p a := by
    apply List.filter_congr
    intro a ha
    rw [List.any_map, Bool.eq_iff_iff, List.any_eq_true]
    constructor
    · intro hq
      exact ⟨key a, List.mem_filter.mpr ⟨List.mem_dedup.mpr (List.mem_map_of_mem ha), hq⟩,
        decide_eq_true rfl⟩
    · rintro ⟨k, hk, hkey⟩
      rw [of_decide_eq_true hkey]
      exact (List.mem_filter.mp hk).2
  have hdisjoint : parts.Pairwise fun p q => ∀ a ∈ l, p a = true → q a = false := by
    apply List.pairwise_map.mpr
    apply ((List.nodup_dedup _).filter q).imp
    intro k k' hne a _ hkey
    apply decide_eq_false
    intro hkey'
    exact hne ((of_decide_eq_true hkey).symm.trans hkey')
  rw [hany, sumOver_filter_parts hdisjoint, groupBy, List.filter_map, sumOver_map, sumOver_map]
  rfl

theorem dedup_filter [DecidableEq κ] (q : κ → Bool) (keys : List κ) :
    keys.dedup.filter q = (keys.filter q).dedup := by
  induction keys with
  | nil => rfl
  | cons k keys ih =>
    by_cases hmem : k ∈ keys
    · rw [List.dedup_cons_of_mem hmem, ih]
      cases hq : q k with
      | true =>
        rw [List.filter_cons_of_pos hq,
          List.dedup_cons_of_mem (List.mem_filter.mpr ⟨hmem, hq⟩)]
      | false => rw [List.filter_cons_of_neg (by rw [hq]; exact Bool.false_ne_true)]
    · rw [List.dedup_cons_of_notMem hmem]
      cases hq : q k with
      | true =>
        rw [List.filter_cons_of_pos hq, List.filter_cons_of_pos hq, ih,
          List.dedup_cons_of_notMem fun h => hmem (List.mem_of_mem_filter h)]
      | false =>
        rw [List.filter_cons_of_neg (by rw [hq]; exact Bool.false_ne_true),
          List.filter_cons_of_neg (by rw [hq]; exact Bool.false_ne_true), ih]

/-- Among the groups of a pair of keys, those of one first key are the groups of its rows. -/
theorem groupBy_pair {κ' : Type*} [DecidableEq κ] [DecidableEq κ'] (first : α → κ)
    (second : α → κ') (x : κ) (l : List α) :
    ((groupBy (fun a => (first a, second a)) l).filter fun g => decide (g.1.1 = x)).map
        (fun g => (g.1.2, g.2)) =
      groupBy second (l.filter fun a => decide (first a = x)) := by
  have hkeys : (l.map fun a => (first a, second a)).dedup.filter (fun k => decide (k.1 = x)) =
      ((l.filter fun a => decide (first a = x)).map second).dedup.map fun k => (x, k) := by
    rw [dedup_filter, List.filter_map, ← List.dedup_map_of_injective (Prod.mk_right_injective x),
      List.map_map]
    congr 1
    apply List.map_congr_left
    intro a ha
    exact congrArg (·, second a) (of_decide_eq_true (List.mem_filter.mp ha).2)
  rw [groupBy, List.filter_map, List.map_map]
  simp only [Function.comp_def]
  rw [hkeys, List.map_map, groupBy]
  apply List.map_congr_left
  intro k _
  rw [Function.comp_apply, List.filter_filter]
  congr 1
  apply List.filter_congr
  intro a _
  rw [← Bool.decide_and]
  apply decide_eq_decide.mpr
  rw [Prod.mk.injEq]
  exact and_comm

/-- The group of a key is that of its rows, where there is one. -/
theorem filter_groupBy [DecidableEq κ] (key : α → κ) (k : κ) (l : List α) :
    ((groupBy key l).filter fun g => decide (g.1 = k)) =
      if l.filter (fun a => decide (key a = k)) = [] then []
      else [(k, l.filter fun a => decide (key a = k))] := by
  have hkeys : (l.map key).dedup.filter (fun j => decide (j = k)) =
      List.replicate (if k ∈ l.map key then 1 else 0) k := by
    rw [List.filter_eq, List.count_dedup]
  rw [groupBy, List.filter_map]
  simp only [Function.comp_def]
  rw [hkeys]
  by_cases hk : k ∈ l.map key
  · obtain ⟨a, ha, rfl⟩ := List.mem_map.mp hk
    have hsome : l.filter (fun b => decide (key b = key a)) ≠ [] :=
      List.ne_nil_of_mem (List.mem_filter.mpr ⟨ha, decide_eq_true rfl⟩)
    rw [if_pos hk, if_neg hsome, List.replicate_one, List.map_singleton]
  · have hnone : l.filter (fun a => decide (key a = k)) = [] := by
      apply List.filter_eq_nil_iff.mpr
      intro a ha heq
      exact hk (List.mem_map.mpr ⟨a, ha, of_decide_eq_true heq⟩)
    rw [if_neg hk, if_pos hnone]
    rfl

/-- Under a key, a grouped query shows the sum over the rows of the key. -/
theorem underKey_groupBy [DecidableEq κ] {keyOf : α → κ} {row : κ × List α → β} {key : β → κ}
    {value : β → ℤ} (hkey : ∀ g, key (row g) = g.1) (hvalue : ∀ g, value (row g) = sumOver w g.2)
    (k : κ) :
    underKey key value k ((groupBy keyOf l).map row) =
      sumOver w (l.filter fun a => decide (keyOf a = k)) := by
  have hgroup (g : κ × List α) : decide (key (row g) = k) = decide (g.1 = k) := by rw [hkey]
  rw [underKey, List.filter_map]
  simp only [Function.comp_def, hgroup]
  rw [filter_groupBy]
  split
  · next hnone => rw [hnone]; rfl
  · rw [List.map_singleton, sumOver_cons, hvalue]
    exact Int.add_zero _

end GroupedSums
