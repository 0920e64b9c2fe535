import Mathlib.Data.List.Nodup
import Mathlib.Data.List.Perm.Basic
import SIPMediaGW.OrderedQuery

/-! # Pages of an order with ties

`ORDER BY key LIMIT p OFFSET k * p`, a query for every page. A key orders its rows up to ties, and
every query breaks the ties in a way of its own. -/
namespace TiedPages

open OrderedQuery

variable {α κ : Type*}

/-- The page `k` of rows in order, of `p` rows at most. -/
def pageAt (l : List α) (p k : ℕ) : List α := (l.drop (k * p)).take p

/-- The first `n` pages, each of an order of its own. -/
def firstPages (choice : ℕ → List α) (p n : ℕ) : List α :=
  (List.range n).flatMap fun k => pageAt (choice k) p k

theorem take_append_pageAt (l : List α) (p k : ℕ) :
    l.take (k * p) ++ pageAt l p k = l.take ((k + 1) * p) := by
  rw [pageAt, Nat.succ_mul, List.take_add]

theorem firstPages_succ (choice : ℕ → List α) (p n : ℕ) :
    firstPages choice p (n + 1) = firstPages choice p n ++ pageAt (choice n) p n := by
  rw [firstPages, List.range_succ, List.flatMap_append, List.flatMap_singleton, ← firstPages]

/-- The pages of one order follow each other. -/
theorem firstPages_const (l : List α) (p n : ℕ) : firstPages (fun _ => l) p n = l.take (n * p) := by
  induction n with
  | zero => rw [Nat.zero_mul, List.take_zero]; rfl
  | succ n ih => rw [firstPages_succ, ih, take_append_pageAt]

variable [LinearOrder κ] {key : α → κ} {rows l m : List α} {p : ℕ}

/-- The rows in order of the key, ties in any order. -/
structure Sorted (key : α → κ) (rows l : List α) : Prop where
  perm : l.Perm rows
  order : l.Pairwise fun a b => key a ≤ key b

/-- `COUNT(*) OVER ()` as the first row of a page carries it. -/
def totalOf (l : List α) (p k : ℕ) : ℕ := if (pageAt l p k).isEmpty then 0 else l.length

/-- Whatever the orders, every page carries the number of rows. -/
def TotalsTrue (key : α → κ) (rows : List α) (p : ℕ) : Prop :=
  ∀ l, Sorted key rows l → ∀ k, totalOf l p k = rows.length

/-- Whatever the orders, the pages show every row once. -/
def ListsOnce (key : α → κ) (rows : List α) (p : ℕ) : Prop :=
  ∀ choice : ℕ → List α, (∀ k, Sorted key rows (choice k)) →
    ∀ n, rows.length ≤ n * p → (firstPages choice p n).Perm rows

/-- The rows on both sides of every page end differ in the key. -/
def EndsUntied (key : α → κ) (rows : List α) (p : ℕ) : Prop :=
  ∀ k, 0 < k → ∀ a ∈ (orderBy key rows)[k * p - 1]?, ∀ b ∈ (orderBy key rows)[k * p]?,
    key a ≠ key b

theorem sorted_orderBy (key : α → κ) (rows : List α) : Sorted key rows (orderBy key rows) :=
  ⟨orderBy_perm key rows, pairwise_orderBy key rows⟩

/-- Every order has the same keys in the same places. -/
theorem Sorted.map_key (h : Sorted key rows l) : l.map key = (orderBy key rows).map key := by
  apply @List.Perm.eq_of_pairwise _ (· ≤ ·)
  · intro a b _ _ hab hba
    exact le_antisymm hab hba
  · exact List.pairwise_map.mpr h.order
  · exact List.pairwise_map.mpr (pairwise_orderBy key rows)
  · exact (h.perm.trans (orderBy_perm key rows).symm).map key

theorem exists_neighbours {n : ℕ} {a b : α} (ha : l[n]? = some a) (hb : l[n + 1]? = some b) :
    ∃ front rest, l = front ++ a :: b :: rest ∧ front.length = n := by
  induction l generalizing n with
  | nil => cases ha
  | cons c l ih =>
    cases n with
    | zero =>
      obtain rfl := Option.some.inj ha
      cases l with
      | nil => cases hb
      | cons d rest =>
        obtain rfl := Option.some.inj hb
        exact ⟨[], rest, rfl, rfl⟩
    | succ n =>
      obtain ⟨front, rest, rfl, hlength⟩ := ih ha hb
      exact ⟨c :: front, rest, rfl, congrArg Nat.succ hlength⟩

/-- Up to an untied end stand the rows below the key that follows. -/
theorem take_eq_filter (h : l.Pairwise fun a b => key a ≤ key b) {n : ℕ} {a b : α}
    (ha : l[n]? = some a) (hb : l[n + 1]? = some b) (hne : key a ≠ key b) :
    l.take (n + 1) = l.filter fun c => decide (key c < key b) := by
  obtain ⟨front, rest, rfl, rfl⟩ := exists_neighbours ha hb
  obtain ⟨-, htail, hfront⟩ := List.pairwise_append.mp h
  obtain ⟨hab, htail⟩ := List.pairwise_cons.mp htail
  have hlt : key a < key b := lt_of_le_of_ne (hab b List.mem_cons_self) hne
  have hbelow : (front ++ [a]).filter (fun c => decide (key c < key b)) = front ++ [a] := by
    apply List.filter_eq_self.mpr
    intro c hc
    apply decide_eq_true
    rcases List.mem_append.mp hc with hc | hc
    · exact (hfront c hc a List.mem_cons_self).trans_lt hlt
    · rw [List.mem_singleton.mp hc]
      exact hlt
  have habove : (b :: rest).filter (fun c => decide (key c < key b)) = [] := by
    apply List.filter_eq_nil_iff.mpr
    intro c hc hcb
    have hle : key b ≤ key c := by
      rcases List.mem_cons.mp hc with rfl | hc
      · exact le_refl _
      · exact (List.pairwise_cons.mp htail).1 c hc
    exact absurd (of_decide_eq_true hcb) (not_lt.mpr hle)
  have hsplit : front ++ a :: b :: rest = (front ++ [a]) ++ b :: rest := by
    rw [List.append_assoc, List.singleton_append]
  rw [hsplit, List.filter_append, hbelow, habove, List.append_nil]
  exact List.take_left' (by rw [List.length_append, List.length_singleton])

theorem Sorted.getElem? (h : Sorted key rows l) {n : ℕ} {a : α}
    (ha : (orderBy key rows)[n]? = some a) : ∃ b, l[n]? = some b ∧ key b = key a := by
  have hkey := congrArg (fun keys => keys[n]?) h.map_key
  simp only [List.getElem?_map, ha, Option.map_some] at hkey
  obtain ⟨b, hb, hkey⟩ := Option.map_eq_some_iff.mp hkey
  exact ⟨b, hb, hkey⟩

/-- Where no tie straddles them, the ends of the pages part every order alike. -/
theorem Sorted.take_perm (h : Sorted key rows l) (huntied : EndsUntied key rows p) (k : ℕ) :
    (l.take (k * p)).Perm ((orderBy key rows).take (k * p)) := by
  have hperm : l.Perm (orderBy key rows) := h.perm.trans (orderBy_perm key rows).symm
  rcases Nat.eq_zero_or_pos (k * p) with hzero | hpos
  · rw [hzero, List.take_zero, List.take_zero]
  rcases Nat.lt_or_ge (k * p) rows.length with hlt | hge
  · have hlength : (orderBy key rows).length = rows.length := (orderBy_perm key rows).length_eq
    obtain ⟨n, hn⟩ : ∃ n, k * p = n + 1 := ⟨k * p - 1, by omega⟩
    rw [hn] at hlt ⊢
    have ha : (orderBy key rows)[n]? = some (orderBy key rows)[n] := List.getElem?_eq_getElem _
    have hb : (orderBy key rows)[n + 1]? = some (orderBy key rows)[n + 1] :=
      List.getElem?_eq_getElem _
    have hk : 0 < k := Nat.pos_of_mul_pos_right hpos
    have hne := huntied k hk _ (by rw [hn]; exact ha) _ (by rw [hn]; exact hb)
    obtain ⟨a, ha', hakey⟩ := h.getElem? ha
    obtain ⟨b, hb', hbkey⟩ := h.getElem? hb
    rw [take_eq_filter h.order ha' hb' (by rw [hakey, hbkey]; exact hne),
      take_eq_filter (pairwise_orderBy key rows) ha hb hne, hbkey]
    exact hperm.filter _
  · rw [List.take_of_length_le (h.perm.length_eq.trans_le hge),
      List.take_of_length_le ((orderBy_perm key rows).length_eq.trans_le hge)]
    exact hperm

theorem Sorted.pageAt_perm (h : Sorted key rows l) (huntied : EndsUntied key rows p) (k : ℕ) :
    (pageAt l p k).Perm (pageAt (orderBy key rows) p k) := by
  have hbefore := h.take_perm huntied k
  have hafter := h.take_perm huntied (k + 1)
  rw [← take_append_pageAt, ← take_append_pageAt] at hafter
  exact (List.perm_append_left_iff _).mp ((hbefore.symm.append_right _).trans hafter)

theorem listsOnce_of_endsUntied (h : EndsUntied key rows p) : ListsOnce key rows p := by
  intro choice hchoice n hn
  have hpages : (firstPages choice p n).Perm (firstPages (fun _ => orderBy key rows) p n) := by
    apply List.Perm.flatMap_left
    intro k _
    exact (hchoice k).pageAt_perm h k
  rw [firstPages_const,
    List.take_of_length_le ((orderBy_perm key rows).length_eq.trans_le hn)] at hpages
  exact hpages.trans (orderBy_perm key rows)

theorem mem_pageAt {k i : ℕ} {a : α} (hi : i < p) (h : l[k * p + i]? = some a) :
    a ∈ pageAt l p k := by
  apply List.mem_of_getElem? (i := i)
  rw [pageAt, List.getElem?_take_of_lt hi, List.getElem?_drop, h]

/-- Tied neighbours in the other order. -/
theorem sorted_swap {front rest : List α} {a b : α} (h : Sorted key rows (front ++ a :: b :: rest))
    (hkey : key a = key b) : Sorted key rows (front ++ b :: a :: rest) where
  perm := ((List.Perm.swap a b rest).append_left front).trans h.perm
  order := by
    obtain ⟨hfront, htail, hcross⟩ := List.pairwise_append.mp h.order
    obtain ⟨ha, htail⟩ := List.pairwise_cons.mp htail
    obtain ⟨hb, hrest⟩ := List.pairwise_cons.mp htail
    apply List.pairwise_append.mpr
    refine ⟨hfront, List.pairwise_cons.mpr ⟨?_, List.pairwise_cons.mpr ⟨?_, hrest⟩⟩, ?_⟩
    · intro c hc
      rcases List.mem_cons.mp hc with rfl | hc
      · exact hkey.ge
      · exact hb c hc
    · intro c hc
      exact ha c (List.mem_cons_of_mem b hc)
    · intro c hc d hd
      apply hcross c hc d
      rcases List.mem_cons.mp hd with rfl | hd
      · exact List.mem_cons_of_mem a List.mem_cons_self
      · rcases List.mem_cons.mp hd with rfl | hd
        · exact List.mem_cons_self
        · exact List.mem_cons_of_mem a (List.mem_cons_of_mem b hd)

/-- A tie over a page end lets two queries show one row on both sides of it. -/
theorem endsUntied_of_listsOnce (hnodup : rows.Nodup) (hp : 0 < p) (h : ListsOnce key rows p) :
    EndsUntied key rows p := by
  intro k hk a ha b hb hkey
  obtain ⟨j, rfl⟩ : ∃ j, k = j + 1 := ⟨k - 1, by omega⟩
  have hplace : (j + 1) * p = (j + 1) * p - 1 + 1 := by
    have := Nat.mul_pos hk hp
    omega
  rw [hplace] at hb
  obtain ⟨front, rest, hsplit, hlength⟩ := exists_neighbours ha hb
  have hswap : Sorted key rows (front ++ b :: a :: rest) :=
    sorted_swap (hsplit ▸ sorted_orderBy key rows) hkey
  let choice (i : ℕ) : List α := if i = j + 1 then front ++ b :: a :: rest else orderBy key rows
  have hchoice : ∀ i, Sorted key rows (choice i) := by
    intro i
    by_cases hi : i = j + 1
    · have hchosen : choice i = front ++ b :: a :: rest := if_pos hi
      rw [hchosen]
      exact hswap
    · have hchosen : choice i = orderBy key rows := if_neg hi
      rw [hchosen]
      exact sorted_orderBy key rows
  have hrows : rows.length ≤ (rows.length + j + 2) * p :=
    Nat.le_trans (by omega) (Nat.le_mul_of_pos_right _ hp)
  have hpages := (h choice hchoice (rows.length + j + 2) hrows).nodup_iff.mpr hnodup
  have hdisjoint := (List.nodup_flatMap.mp hpages).2
  have hapart := List.pairwise_iff_getElem.mp hdisjoint j (j + 1)
    (by rw [List.length_range]; omega) (by rw [List.length_range]; omega) (Nat.lt_succ_self j)
  rw [List.getElem_range, List.getElem_range] at hapart
  have hbefore : a ∈ pageAt (choice j) p j := by
    have hchosen : choice j = orderBy key rows := if_neg (Nat.ne_of_lt (Nat.lt_succ_self j))
    rw [hchosen]
    apply mem_pageAt (i := p - 1) (by omega)
    rw [← ha, Nat.succ_mul]
    congr 1
    omega
  have hafter : a ∈ pageAt (choice (j + 1)) p (j + 1) := by
    have hchosen : choice (j + 1) = front ++ b :: a :: rest := if_pos rfl
    rw [hchosen]
    apply mem_pageAt (i := 0) hp
    rw [Nat.add_zero, hplace, ← hlength, List.getElem?_append_right (Nat.le_succ _),
      Nat.succ_sub (le_refl _), Nat.sub_self]
    rfl
  exact hapart hbefore hafter

/-- Rows that differ are listed once exactly when no tie straddles the end of a page. -/
theorem listsOnce_iff (hnodup : rows.Nodup) (hp : 0 < p) :
    ListsOnce key rows p ↔ EndsUntied key rows p :=
  ⟨endsUntied_of_listsOnce hnodup hp, listsOnce_of_endsUntied⟩

/-- A page past the end has no row to carry the total. -/
theorem totalsTrue_iff (hp : 0 < p) : TotalsTrue key rows p ↔ rows = [] := by
  constructor
  · intro h
    have hpast := h (orderBy key rows) (sorted_orderBy key rows) rows.length
    have hempty : pageAt (orderBy key rows) p rows.length = [] := by
      rw [pageAt, List.drop_eq_nil_of_le, List.take_nil]
      exact (orderBy_perm key rows).length_eq.trans_le (Nat.le_mul_of_pos_right _ hp)
    rw [totalOf, hempty] at hpast
    exact List.length_eq_zero_iff.mp hpast.symm
  · rintro rfl l hl k
    obtain rfl := hl.perm.eq_nil
    rw [totalOf, pageAt, List.drop_nil, List.take_nil]
    rfl

theorem listsOnce_nil (key : α → κ) (p : ℕ) : ListsOnce key [] p := by
  apply listsOnce_of_endsUntied
  intro k _ a ha
  cases ha

end TiedPages
