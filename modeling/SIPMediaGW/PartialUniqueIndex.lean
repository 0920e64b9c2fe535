import Mathlib.Data.List.Induction

/-! # Tables under partial unique indexes

An index gives the key of a row, or nothing for the rows it does not cover. A table keeps,
for each of its indexes, at most one row per key. -/
namespace PartialUniqueIndex

variable {α κ : Type*} [DecidableEq κ]

/-- Two rows an index does not let stand together. -/
def clashes (index : α → Option κ) (a b : α) : Bool :=
  (index a).isSome && decide (index a = index b)

structure Table (indexes : List (α → Option κ)) where
  rows : List α
  unique : rows.Pairwise fun a b => ∀ index ∈ indexes, clashes index a b = false

variable {indexes : List (α → Option κ)}

def Table.empty (indexes : List (α → Option κ)) : Table indexes := ⟨[], .nil⟩

def Table.conflicts (t : Table indexes) (a : α) : Bool :=
  t.rows.any fun b => indexes.any fun index => clashes index b a

theorem clash_of_conflicts {t : Table indexes} {a : α} :
    t.conflicts a = true ↔ ∃ b ∈ t.rows, ∃ index ∈ indexes, clashes index b a = true := by
  simp only [Table.conflicts, List.any_eq_true]

/-- `INSERT … ON CONFLICT DO NOTHING`, with no index named: all of them count. -/
def Table.insertOrIgnore (t : Table indexes) (a : α) : Table indexes :=
  if h : t.conflicts a = true then t
  else
    { rows := t.rows ++ [a]
      unique := by
        refine List.pairwise_append.mpr ⟨t.unique, List.pairwise_singleton _ _, ?_⟩
        intro b hb c hc index hindex
        obtain rfl := List.mem_singleton.mp hc
        by_contra hclash
        exact h (clash_of_conflicts.mpr ⟨b, hb, index, hindex, by simpa using hclash⟩) }

theorem rows_insertOrIgnore (t : Table indexes) (a : α) :
    (t.insertOrIgnore a).rows = if t.conflicts a then t.rows else t.rows ++ [a] := by
  rw [Table.insertOrIgnore]
  split <;> rfl

def Table.insertAll (t : Table indexes) (as : List α) : Table indexes :=
  as.foldl Table.insertOrIgnore t

theorem mem_insertAll {t : Table indexes} {as : List α} {a : α}
    (h : a ∈ (t.insertAll as).rows) : a ∈ t.rows ∨ a ∈ as := by
  induction as using List.reverseRecOn with
  | nil => exact .inl h
  | append_singleton as b ih =>
    simp only [Table.insertAll, List.foldl_append, List.foldl_cons, List.foldl_nil,
      rows_insertOrIgnore] at h ih
    rw [List.mem_append, List.mem_singleton]
    split at h
    · exact (ih h).imp_right .inl
    · rcases List.mem_append.mp h with hold | hnew
      · exact (ih hold).imp_right .inl
      · exact .inr (.inr (List.mem_singleton.mp hnew))

/-- Rows that clash with none of `t` are inserted as they would be in an empty table. -/
theorem rows_insertAll {t : Table indexes} {as : List α}
    (h : ∀ b ∈ t.rows, ∀ a ∈ as, ∀ index ∈ indexes, clashes index b a = false) :
    (t.insertAll as).rows = t.rows ++ ((Table.empty indexes).insertAll as).rows := by
  induction as using List.reverseRecOn with
  | nil => simp [Table.insertAll, Table.empty]
  | append_singleton as a ih =>
    have hrows := ih fun b hb x hx => h b hb x (List.mem_append_left _ hx)
    have hconflicts : (t.insertAll as).conflicts a =
        ((Table.empty indexes).insertAll as).conflicts a := by
      have hold : (t.rows.any fun b => indexes.any fun index => clashes index b a) = false := by
        rw [List.any_eq_false]
        intro b hb
        rw [Bool.not_eq_true, List.any_eq_false]
        intro index hindex
        simp [h b hb a (List.mem_append_right _ (List.mem_singleton_self a)) index hindex]
      rw [Table.conflicts, hrows, List.any_append, hold, Bool.false_or, Table.conflicts]
    simp only [Table.insertAll, List.foldl_append, List.foldl_cons, List.foldl_nil]
      at hrows hconflicts ⊢
    rw [rows_insertOrIgnore, rows_insertOrIgnore, hrows, hconflicts]
    split
    · rfl
    · rw [List.append_assoc]

/-- Rows that clash neither with `t` nor with each other are all inserted. -/
theorem rows_insertAll_apart {t : Table indexes} {as : List α}
    (hold : ∀ b ∈ t.rows, ∀ a ∈ as, ∀ index ∈ indexes, clashes index b a = false)
    (h : as.Pairwise fun a b => ∀ index ∈ indexes, clashes index a b = false) :
    (t.insertAll as).rows = t.rows ++ as := by
  induction as using List.reverseRecOn with
  | nil => simp [Table.insertAll]
  | append_singleton as a ih =>
    obtain ⟨hfirst, -, hlast⟩ := List.pairwise_append.mp h
    have hrows := ih (fun b hb x hx => hold b hb x (List.mem_append_left _ hx)) hfirst
    have hnot : ¬ (t.insertAll as).conflicts a = true := by
      rw [clash_of_conflicts, hrows]
      rintro ⟨b, hb, index, hindex, hclash⟩
      have hfree : clashes index b a = false := by
        rcases List.mem_append.mp hb with hb | hb
        · exact hold b hb a (List.mem_append_right _ (List.mem_singleton_self a)) index hindex
        · exact hlast b hb a (List.mem_singleton_self a) index hindex
      rw [hfree] at hclash
      cases hclash
    simp only [Table.insertAll, List.foldl_append, List.foldl_cons, List.foldl_nil] at hrows hnot ⊢
    rw [rows_insertOrIgnore, if_neg hnot, hrows, List.append_assoc]

theorem clashes_comm (index : α → Option κ) (a b : α) : clashes index a b = clashes index b a := by
  rw [clashes, clashes]
  by_cases h : index a = index b
  · rw [h]
  · rw [decide_eq_false h, decide_eq_false (Ne.symm h), Bool.and_false, Bool.and_false]

theorem clashes_eq_false_iff {index : α → Option κ} {a b : α} :
    clashes index a b = false ↔ ∀ k, index a = some k → index b ≠ some k := by
  rw [clashes, Bool.and_eq_false_imp]
  constructor
  · intro h k ha hb
    have hne := of_decide_eq_false (h (Option.isSome_iff_exists.mpr ⟨k, ha⟩))
    exact hne (ha.trans hb.symm)
  · intro h hsome
    obtain ⟨k, hk⟩ := Option.isSome_iff_exists.mp hsome
    apply decide_eq_false
    intro heq
    exact h k hk (heq ▸ hk)

/-- Rows that no index keeps from standing together. -/
def Coexist (indexes : List (α → Option κ)) (a b : α) : Prop :=
  ∀ index ∈ indexes, clashes index a b = false

theorem Coexist.symm {a b : α} (h : Coexist indexes a b) : Coexist indexes b a := by
  intro index hindex
  rw [clashes_comm]
  exact h index hindex

def Table.deleteWhere (t : Table indexes) (p : α → Bool) : Table indexes :=
  ⟨t.rows.filter fun a => ! p a, t.unique.filter _⟩

/-- `UPDATE`, of the rows after those that are done: each is checked as it is written against all
the others, and refused when one clashes with it. -/
def updateFrom (indexes : List (α → Option κ)) (p : α → Bool) (f : α → α) (done : List α) :
    List α → Option (List α)
  | [] => some done
  | a :: rest =>
    if p a then
      if (done ++ rest).any fun b => indexes.any fun index => clashes index b (f a) then none
      else updateFrom indexes p f (done ++ [f a]) rest
    else updateFrom indexes p f (done ++ [a]) rest

theorem any_clashes_eq_false {a : α} {l : List α} :
    (l.any fun b => indexes.any fun index => clashes index b a) = false ↔
      ∀ b ∈ l, Coexist indexes b a := by
  simp only [Coexist, List.any_eq_false, Bool.not_eq_true]

section Updates

variable {p : α → Bool} {f : α → α} {done rest rows : List α}

/-- An update that is not refused has the new rows, apart from each other. -/
theorem updateFrom_eq_some (h : updateFrom indexes p f done rest = some rows)
    (hunique : (done ++ rest).Pairwise (Coexist indexes)) :
    rows = done ++ rest.map (fun a => if p a then f a else a) ∧
      rows.Pairwise (Coexist indexes) := by
  induction rest generalizing done with
  | nil =>
    rw [updateFrom] at h
    obtain rfl := Option.some.inj h
    rw [List.append_nil] at hunique
    exact ⟨(List.append_nil done).symm, hunique⟩
  | cons a rest ih =>
    rw [updateFrom] at h
    rw [List.map_cons, List.append_cons]
    cases hp : p a with
    | false =>
      rw [if_neg (by rw [hp]; exact Bool.false_ne_true)] at h
      rw [List.append_cons] at hunique
      exact ih h hunique
    | true =>
      rw [if_pos hp] at h
      split at h
      · cases h
      · next hfree =>
        have hapart := any_clashes_eq_false.mp (Bool.eq_false_iff.mpr hfree)
        apply ih h
        rw [← List.append_cons]
        have hothers := (List.pairwise_middle Coexist.symm).mp hunique
        apply (List.pairwise_middle Coexist.symm).mpr
        exact List.pairwise_cons.mpr
          ⟨fun b hb => (hapart b hb).symm, (List.pairwise_cons.mp hothers).2⟩

/-- When the rows updated clash neither with each other's old row nor with its new one, the update
goes through exactly when none of the other rows clashes with them. -/
theorem updateFrom_isSome_iff
    (hrest : rest.Pairwise fun a b => p a = true → p b = true →
      Coexist indexes b (f a) ∧ Coexist indexes (f a) (f b)) :
    (updateFrom indexes p f done rest).isSome = true ↔
      ∀ a ∈ rest, p a = true → (∀ b ∈ done, Coexist indexes b (f a)) ∧
        ∀ b ∈ rest, p b = false → Coexist indexes b (f a) := by
  induction rest generalizing done with
  | nil => exact iff_of_true rfl fun a ha => absurd ha List.not_mem_nil
  | cons a rest ih =>
    obtain ⟨ha, hrest⟩ := List.pairwise_cons.mp hrest
    rw [updateFrom]
    cases hp : p a with
    | false =>
      rw [if_neg Bool.false_ne_true, ih hrest]
      simp only [List.forall_mem_cons, List.forall_mem_append, hp, Bool.false_eq_true,
        false_implies, true_and, true_implies, List.not_mem_nil, implies_true, and_true]
      apply forall₂_congr
      intro b _
      apply imp_congr_right
      intro _
      exact and_assoc
    | true =>
      rw [if_pos rfl]
      by_cases hfree : ((done ++ rest).any fun b => indexes.any fun index =>
          clashes index b (f a)) = true
      · rw [if_pos hfree]
        apply iff_of_false Bool.false_ne_true
        intro hall
        obtain ⟨hdone, hothers⟩ := hall a List.mem_cons_self hp
        rw [any_clashes_eq_false.mpr] at hfree
        · exact Bool.false_ne_true hfree
        · intro b hb
          rcases List.mem_append.mp hb with hb | hb
          · exact hdone b hb
          · cases hpb : p b with
            | false => exact hothers b (List.mem_cons_of_mem a hb) hpb
            | true => exact (ha b hb hp hpb).1
      · rw [if_neg hfree, ih hrest]
        have hapart := any_clashes_eq_false.mp (Bool.eq_false_iff.mpr hfree)
        constructor
        · intro h b hb hpb
          rcases List.mem_cons.mp hb with rfl | hb
          · refine ⟨fun c hc => hapart c (List.mem_append_left _ hc), fun c hc hpc => ?_⟩
            rcases List.mem_cons.mp hc with rfl | hc
            · rw [hp] at hpc
              cases hpc
            · exact hapart c (List.mem_append_right _ hc)
          · obtain ⟨hdone, hothers⟩ := h b hb hpb
            refine ⟨fun c hc => hdone c (List.mem_append_left _ hc), fun c hc hpc => ?_⟩
            rcases List.mem_cons.mp hc with rfl | hc
            · rw [hp] at hpc
              cases hpc
            · exact hothers c hc hpc
        · intro h b hb hpb
          obtain ⟨hdone, hothers⟩ := h b (List.mem_cons_of_mem a hb) hpb
          refine ⟨fun c hc => ?_, fun c hc hpc => hothers c (List.mem_cons_of_mem a hc) hpc⟩
          rcases List.mem_append.mp hc with hc | hc
          · exact hdone c hc
          · rw [List.mem_singleton.mp hc]
            exact (ha b hb hp hpb).2

end Updates

/-- `UPDATE … WHERE`, or nothing when an index refuses a row. -/
def Table.updateWhere (t : Table indexes) (p : α → Bool) (f : α → α) : Option (Table indexes) :=
  match h : updateFrom indexes p f [] t.rows with
  | none => none
  | some rows => some ⟨rows, (updateFrom_eq_some h t.unique).2⟩

theorem updateWhere_rows {t t' : Table indexes} {p : α → Bool} {f : α → α}
    (h : t.updateWhere p f = some t') : t'.rows = t.rows.map fun a => if p a then f a else a := by
  rw [Table.updateWhere] at h
  split at h
  · cases h
  · next rows hrows =>
    obtain rfl := Option.some.inj h
    exact (updateFrom_eq_some hrows t.unique).1

theorem updateWhere_isSome (t : Table indexes) (p : α → Bool) (f : α → α) :
    (t.updateWhere p f).isSome = (updateFrom indexes p f [] t.rows).isSome := by
  rw [Table.updateWhere]
  split
  · next h => exact (congrArg Option.isSome h).symm
  · next h => exact (congrArg Option.isSome h).symm

/-- `INSERT` without a conflict clause: nothing when a row clashes. -/
def Table.insertOrAbort (t : Table indexes) (a : α) : Option (Table indexes) :=
  if t.conflicts a then none else some (t.insertOrIgnore a)

def Table.insertEach (t : Table indexes) (as : List α) : Option (Table indexes) :=
  as.foldlM Table.insertOrAbort t

/-- Rows that clash neither with the table nor with each other are inserted one by one. -/
theorem insertEach_apart {t : Table indexes} {as : List α}
    (hold : ∀ b ∈ t.rows, ∀ a ∈ as, Coexist indexes b a) (h : as.Pairwise (Coexist indexes)) :
    ∃ t', t.insertEach as = some t' ∧ t'.rows = t.rows ++ as := by
  induction as generalizing t with
  | nil => exact ⟨t, rfl, (List.append_nil _).symm⟩
  | cons a as ih =>
    obtain ⟨ha, h⟩ := List.pairwise_cons.mp h
    have hfree : t.conflicts a = false :=
      any_clashes_eq_false.mpr fun b hb => hold b hb a List.mem_cons_self
    have hinsert : t.insertOrAbort a = some (t.insertOrIgnore a) := by
      rw [Table.insertOrAbort, hfree, if_neg Bool.false_ne_true]
    have hrows : (t.insertOrIgnore a).rows = t.rows ++ [a] := by
      rw [rows_insertOrIgnore, hfree, if_neg Bool.false_ne_true]
    have hnext : ∀ b ∈ (t.insertOrIgnore a).rows, ∀ c ∈ as, Coexist indexes b c := by
      intro b hb c hc
      rw [hrows] at hb
      rcases List.mem_append.mp hb with hb | hb
      · exact hold b hb c (List.mem_cons_of_mem a hc)
      · rw [List.mem_singleton.mp hb]
        exact ha c hc
    obtain ⟨t', ht', hall⟩ := ih hnext h
    refine ⟨t', ?_, ?_⟩
    · rw [Table.insertEach, List.foldlM_cons, hinsert]
      exact ht'
    · rw [hall, hrows, List.append_assoc]
      rfl

/-- An update of columns that no index is on. -/
def Table.mapRows (t : Table indexes) (f : α → α)
    (h : ∀ index ∈ indexes, ∀ a, index (f a) = index a) : Table indexes :=
  ⟨t.rows.map f, List.pairwise_map.mpr (t.unique.imp fun hapart index hindex => by
    rw [clashes, h index hindex, h index hindex]
    exact hapart index hindex)⟩

end PartialUniqueIndex
