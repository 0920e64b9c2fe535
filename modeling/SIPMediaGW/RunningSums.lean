import Mathlib.Algebra.BigOperators.Group.List.Basic
import Mathlib.Algebra.Group.Int.Defs
import Mathlib.Algebra.Order.BigOperators.Group.List
import Mathlib.Data.List.Infix
import Mathlib.Order.Bounds.Basic
import Mathlib.Order.Interval.Set.Defs
import SIPMediaGW.OrderedQuery

/-! # Running sums of dated changes

`SUM(d) OVER (ORDER BY t, d ROWS UNBOUNDED PRECEDING)` and its greatest value. Intervals raise a
level by one where they begin and lower it where they end. -/
namespace RunningSums

open OrderedQuery

variable {τ : Type*}

def total (rows : List (τ × ℤ)) : ℤ := (rows.map Prod.snd).foldr (· + ·) 0

/-- What the intervals change, up and down. -/
def changes (intervals : List (τ × τ)) : List (τ × ℤ) :=
  (intervals.map fun i => (i.1, 1)) ++ intervals.map fun i => (i.2, -1)

theorem total_cons (e : τ × ℤ) (p : List (τ × ℤ)) : total (e :: p) = e.2 + total p := rfl

theorem total_append (p q : List (τ × ℤ)) : total (p ++ q) = total p + total q := by
  induction p with
  | nil => exact (Int.zero_add _).symm
  | cons e p ih => rw [List.cons_append, total_cons, total_cons, ih, Int.add_assoc]

theorem total_perm {p q : List (τ × ℤ)} (h : p.Perm q) : total p = total q :=
  (h.map Prod.snd).sum_eq

theorem total_nonneg {p : List (τ × ℤ)} (h : ∀ e ∈ p, 0 ≤ e.2) : 0 ≤ total p := by
  apply List.sum_nonneg
  intro d hd
  obtain ⟨e, he, rfl⟩ := List.mem_map.mp hd
  exact h e he

theorem total_map_const {ι : Type*} (f : ι → τ) (d : ℤ) (l : List ι) :
    total (l.map fun i => (f i, d)) = l.length * d := by
  induction l with
  | nil => exact (Int.zero_mul d).symm
  | cons i l ih =>
    rw [List.map_cons, total_cons, ih, List.length_cons, Int.natCast_succ, Int.add_mul,
      Int.one_mul, Int.add_comm]

/-- Beginnings against ends, of the instants that a condition keeps. -/
theorem total_filter_changes (q : τ → Bool) (intervals : List (τ × τ)) :
    total ((changes intervals).filter fun e => q e.1) =
      intervals.countP (fun i => q i.1) - intervals.countP fun i => q i.2 := by
  rw [changes, List.filter_append, List.filter_map, List.filter_map, total_append,
    total_map_const, total_map_const, List.countP_eq_length_filter, List.countP_eq_length_filter]
  simp only [Function.comp_def]
  omega

/-- Everything that is raised is lowered. -/
theorem total_changes (intervals : List (τ × τ)) : total (changes intervals) = 0 := by
  have hall := total_filter_changes (fun _ => true) intervals
  rw [List.filter_true, Int.sub_self] at hall
  exact hall

theorem mem_changes_of_pos {e : τ × ℤ} {intervals : List (τ × τ)}
    (he : e ∈ changes intervals) (hpos : 0 < e.2) :
    ∃ i ∈ intervals, i.1 = e.1 := by
  rcases List.mem_append.mp he with he | he
  · obtain ⟨i, hi, rfl⟩ := List.mem_map.mp he
    exact ⟨i, hi, rfl⟩
  · obtain ⟨i, -, rfl⟩ := List.mem_map.mp he
    exact absurd hpos (Int.not_lt.mpr (Int.neg_nonpos_of_nonneg Int.one_nonneg))

theorem mem_tail_inits {l p : List (τ × ℤ)} : p ∈ l.inits.tail ↔ p ≠ [] ∧ p <+: l := by
  cases l with
  | nil =>
    constructor
    · intro h
      cases h
    · rintro ⟨hne, hprefix⟩
      exact absurd (List.prefix_nil.mp hprefix) hne
  | cons a l =>
    rw [List.inits_cons, List.tail_cons, List.mem_map]
    constructor
    · rintro ⟨t, ht, rfl⟩
      exact ⟨List.cons_ne_nil a t, (List.prefix_cons_inj a).mpr ((List.mem_inits t l).mp ht)⟩
    · rintro ⟨hne, hprefix⟩
      obtain ⟨t, rfl, ht⟩ := (List.prefix_cons_iff.mp hprefix).resolve_left hne
      exact ⟨t, (List.mem_inits t l).mpr ht, rfl⟩

variable [LinearOrder τ] {events : List (τ × ℤ)} {intervals : List (τ × τ)}

/-- The sum over the rows up to each row, in order. -/
def running (events : List (τ × ℤ)) : List ℤ := (orderBy toLex events).inits.tail.map total

/-- `COALESCE(MAX(running), 0)`. -/
def peak (events : List (τ × ℤ)) : ℤ := (running events).max?.getD 0

/-- The sum of the changes up to an instant. -/
def level (events : List (τ × ℤ)) (t : τ) : ℤ := total (events.filter fun e => decide (e.1 ≤ t))

/-- The intervals that an instant is in, each open at its end. -/
def openAt (intervals : List (τ × τ)) (t : τ) : ℕ :=
  intervals.countP fun i => decide (i.1 ≤ t ∧ t < i.2)

theorem mem_running {s : ℤ} : s ∈ running events ↔
    ∃ p, p ≠ [] ∧ p <+: orderBy toLex events ∧ total p = s := by
  simp only [running, List.mem_map, mem_tail_inits, and_assoc]

theorem le_peak {p : List (τ × ℤ)} (hne : p ≠ []) (h : p <+: orderBy toLex events) :
    total p ≤ peak events := by
  have hmem : total p ∈ running events := mem_running.mpr ⟨p, hne, h, rfl⟩
  cases hmax : (running events).max? with
  | none =>
    rw [List.max?_eq_none_iff.mp hmax] at hmem
    cases hmem
  | some m =>
    rw [peak, hmax, Option.getD_some]
    exact (List.max?_eq_some_iff.mp hmax).2 _ hmem

/-- The greatest running sum is that of the rows up to one of them. -/
theorem exists_prefix_peak (events : List (τ × ℤ)) :
    ∃ p, p <+: orderBy toLex events ∧ total p = peak events := by
  cases hmax : (running events).max? with
  | none => exact ⟨[], List.nil_prefix, by rw [peak, hmax]; rfl⟩
  | some m =>
    obtain ⟨p, -, hprefix, hp⟩ := mem_running.mp (List.max?_eq_some_iff.mp hmax).1
    exact ⟨p, hprefix, by rw [hp, peak, hmax, Option.getD_some]⟩

/-- Sorted by instant, the rows up to an instant stand in front. -/
theorem filter_front (t : τ) :
    (orderBy toLex events).filter (fun e => decide (e.1 ≤ t)) <+: orderBy toLex events := by
  have hsorted : (orderBy toLex events).Pairwise fun a b => a.1 ≤ b.1 :=
    (pairwise_orderBy toLex events).imp fun h => Prod.Lex.monotone_fst _ _ h
  generalize orderBy toLex events = l at hsorted ⊢
  induction hsorted with
  | nil => exact List.nil_prefix
  | @cons a l hle _ ih =>
    by_cases ha : a.1 ≤ t
    · rw [List.filter_cons_of_pos (by exact decide_eq_true ha)]
      exact (List.prefix_cons_inj a).mpr ih
    · have hnone : l.filter (fun e => decide (e.1 ≤ t)) = [] := by
        apply List.filter_eq_nil_iff.mpr
        intro b hb hbt
        exact ha ((hle b hb).trans (of_decide_eq_true hbt))
      rw [List.filter_cons_of_neg (by simpa using ha), hnone]
      exact List.nil_prefix

theorem level_eq (t : τ) :
    level events t = total ((orderBy toLex events).filter fun e => decide (e.1 ≤ t)) :=
  (total_perm ((orderBy_perm toLex events).filter _)).symm

/-- No level is above the peak of changes that end at nothing. -/
theorem level_le_peak (htotal : total events = 0) (t : τ) : level events t ≤ peak events := by
  have hsum : total (orderBy toLex events) = 0 := (total_perm (orderBy_perm _ _)).trans htotal
  rw [level_eq]
  by_cases hfront : (orderBy toLex events).filter (fun e => decide (e.1 ≤ t)) = []
  · rw [hfront]
    by_cases hnil : orderBy toLex events = []
    · rw [peak, running, hnil]
      exact le_refl _
    · exact hsum.symm.trans_le (le_peak hnil List.prefix_rfl)
  · exact le_peak hfront (filter_front t)

/-- At a raise, what is lowered at its instant has been lowered. -/
theorem total_le_level {p : List (τ × ℤ)} {e : τ × ℤ} (he : 0 < e.2)
    (h : p ++ [e] <+: orderBy toLex events) : total (p ++ [e]) ≤ level events e.1 := by
  obtain ⟨q, hq⟩ := h
  have hsorted := pairwise_orderBy toLex events
  rw [← hq, List.pairwise_append, List.pairwise_append] at hsorted
  obtain ⟨⟨-, -, hbefore⟩, -, hafter⟩ := hsorted
  have hkept : (p ++ [e]).filter (fun b => decide (b.1 ≤ e.1)) = p ++ [e] := by
    apply List.filter_eq_self.mpr
    intro b hb
    apply decide_eq_true
    rcases List.mem_append.mp hb with hb | hb
    · exact Prod.Lex.monotone_fst _ _ (hbefore b hb e (List.mem_singleton_self e))
    · rw [List.mem_singleton.mp hb]
  have hrest : 0 ≤ total (q.filter fun b => decide (b.1 ≤ e.1)) := by
    apply total_nonneg
    intro b hb
    obtain ⟨hb, hle⟩ := List.mem_filter.mp hb
    have horder := hafter e (List.mem_append_right p (List.mem_singleton_self e)) b hb
    rcases Prod.Lex.toLex_le_toLex.mp horder with hlt | ⟨-, hd⟩
    · exact absurd (of_decide_eq_true hle) (not_le.mpr hlt)
    · exact he.le.trans hd
  rw [level_eq, ← hq, List.filter_append, total_append _ (q.filter _), hkept]
  omega

/-- Every running sum above zero is below the level at some raise. -/
theorem exists_raise {p : List (τ × ℤ)} (h : p <+: orderBy toLex events) :
    total p ≤ 0 ∨ ∃ e ∈ events, 0 < e.2 ∧ total p ≤ level events e.1 := by
  induction p using List.reverseRecOn with
  | nil => exact .inl (le_refl _)
  | append_singleton p e ih =>
    have hp := ih ((List.prefix_append p [e]).trans h)
    by_cases he : 0 < e.2
    · refine .inr ⟨e, ?_, he, total_le_level he h⟩
      exact mem_orderBy.mp (h.subset (List.mem_append_right p (List.mem_singleton_self e)))
    · have hsum : total (p ++ [e]) = total p + e.2 := by
        rw [total_append]
        exact congrArg _ (Int.add_zero e.2)
      rcases hp with hp | ⟨b, hb, hd, hp⟩
      · exact .inl (by omega)
      · exact .inr ⟨b, hb, hd, by omega⟩

/-- Of the intervals begun by an instant, those not ended are the ones it is in. -/
theorem level_changes (horder : ∀ i ∈ intervals, i.1 ≤ i.2) (t : τ) :
    level (changes intervals) t = openAt intervals t := by
  rw [level, total_filter_changes (fun u => decide (u ≤ t)), openAt]
  induction intervals with
  | nil => rfl
  | cons i rest ih =>
    have hrest := ih fun j hj => horder j (List.mem_cons_of_mem i hj)
    have hi := horder i List.mem_cons_self
    simp only [List.countP_cons, decide_eq_true_eq]
    by_cases hstart : i.1 ≤ t
    · by_cases hstop : i.2 ≤ t
      · rw [if_pos hstart, if_pos hstop, if_neg fun h => absurd hstop (not_le.mpr h.2)]
        omega
      · rw [if_pos hstart, if_neg hstop, if_pos ⟨hstart, not_le.mp hstop⟩]
        omega
    · rw [if_neg hstart, if_neg fun h => hstart (hi.trans h), if_neg fun h => hstart h.1]
      omega

/-- Before a window, the intervals that meet it only gather. -/
theorem openAt_mono {since t : τ} (hmeet : ∀ i ∈ intervals, since < i.2) (h : t ≤ since) :
    openAt intervals t ≤ openAt intervals since := by
  apply List.countP_mono_left
  intro i hi ht
  obtain ⟨hstart, -⟩ := of_decide_eq_true ht
  exact decide_eq_true ⟨hstart.trans h, hmeet i hi⟩

/-- The peak of intervals that meet a window is the greatest number of them at an instant of it. -/
theorem isGreatest_peak {since stop : τ} (hwindow : since < stop)
    (horder : ∀ i ∈ intervals, i.1 ≤ i.2) (hmeet : ∀ i ∈ intervals, since < i.2 ∧ i.1 < stop) :
    IsGreatest ((fun t => (openAt intervals t : ℤ)) '' Set.Ico since stop)
      (peak (changes intervals)) := by
  have hle (t : τ) : (openAt intervals t : ℤ) ≤ peak (changes intervals) := by
    rw [← level_changes horder]
    exact level_le_peak (total_changes intervals) t
  have hreached : ∃ t ∈ Set.Ico since stop, peak (changes intervals) ≤ openAt intervals t := by
    obtain ⟨p, hprefix, hp⟩ := exists_prefix_peak (changes intervals)
    rw [← hp]
    rcases exists_raise hprefix with hzero | ⟨e, he, hpos, hlevel⟩
    · exact ⟨since, ⟨le_refl _, hwindow⟩, hzero.trans (Int.natCast_nonneg _)⟩
    · obtain ⟨i, hi, hstart⟩ := mem_changes_of_pos he hpos
      rw [level_changes horder] at hlevel
      -- a raise before the window counts intervals that all reach into it
      rcases le_or_gt since e.1 with hin | hbefore
      · exact ⟨e.1, ⟨hin, hstart ▸ (hmeet i hi).2⟩, hlevel⟩
      · have hmono := openAt_mono (fun j hj => (hmeet j hj).1) hbefore.le
        exact ⟨since, ⟨le_refl _, hwindow⟩, hlevel.trans (Int.ofNat_le.mpr hmono)⟩
  constructor
  · obtain ⟨t, ht, hge⟩ := hreached
    exact ⟨t, ht, le_antisymm (hle t) hge⟩
  · rintro n ⟨t, -, rfl⟩
    exact hle t

end RunningSums
