import Mathlib.Data.List.Induction
import Mathlib.Data.List.Nodup

/-! # The first element of each key

Elements are kept with their position in the list. -/
namespace FirstOccurrences

variable {α κ : Type*} [DecidableEq κ] {key : α → κ} {l : List α}

def firsts (key : α → κ) (l : List α) : List (α × ℕ) :=
  l.zipIdx.filter fun e => (l.take e.2).all fun b => decide (key b ≠ key e.1)

theorem mem_firsts {a : α} {n : ℕ} :
    (a, n) ∈ firsts key l ↔ l[n]? = some a ∧ ∀ b ∈ l.take n, key b ≠ key a := by
  simp [firsts, List.mem_filter, List.mem_zipIdx_iff_getElem?]

theorem snd_lt_of_mem_firsts {e : α × ℕ} (h : e ∈ firsts key l) : e.2 < l.length := by
  obtain ⟨a, n⟩ := e
  exact (List.getElem?_eq_some_iff.mp (mem_firsts.mp h).1).1

theorem firsts_append_singleton (l : List α) (a : α) :
    firsts key (l ++ [a]) =
      firsts key l ++ if key a ∈ l.map key then [] else [(a, l.length)] := by
  have hold : (l.zipIdx.filter fun e =>
      ((l ++ [a]).take e.2).all fun b => decide (key b ≠ key e.1)) = firsts key l := by
    apply List.filter_congr
    rintro ⟨b, n⟩ hb
    have hn : n < l.length := by
      rw [List.mem_zipIdx_iff_getElem?] at hb
      exact (List.getElem?_eq_some_iff.mp hb).1
    rw [List.take_append_of_le_length (Nat.le_of_lt hn)]
  rw [firsts, List.zipIdx_append, List.filter_append, hold]
  congr 1
  by_cases hmem : key a ∈ l.map key
  · obtain ⟨b, hb, hkey⟩ := List.mem_map.mp hmem
    simp only [hmem, if_true, List.zipIdx_cons, List.zipIdx_nil, List.filter_cons,
      List.filter_nil]
    rw [if_neg]
    simpa using ⟨b, hb, hkey⟩
  · have hnone : ∀ b ∈ l, key b ≠ key a :=
      fun b hb hkey => hmem (List.mem_map.mpr ⟨b, hb, hkey⟩)
    simp only [hmem, if_false, List.zipIdx_cons, List.zipIdx_nil, List.filter_cons,
      List.filter_nil]
    rw [if_pos]
    · simp
    · simpa using hnone

theorem key_mem_of_mem_firsts {e : α × ℕ} (h : e ∈ firsts key l) : key e.1 ∈ l.map key := by
  obtain ⟨a, n⟩ := e
  exact List.mem_map_of_mem (List.mem_of_getElem? (mem_firsts.mp h).1)

theorem exists_first {k : κ} (h : k ∈ l.map key) : ∃ e ∈ firsts key l, key e.1 = k := by
  induction l using List.reverseRecOn with
  | nil => cases h
  | append_singleton l a ih =>
    rw [firsts_append_singleton]
    by_cases hold : k ∈ l.map key
    · obtain ⟨e, he, hk⟩ := ih hold
      exact ⟨e, List.mem_append_left _ he, hk⟩
    · rw [List.map_append, List.mem_append, List.map_singleton, List.mem_singleton] at h
      obtain rfl := h.resolve_left hold
      exact ⟨(a, l.length), List.mem_append_right _ (by simp [hold]), rfl⟩

/-- One element for each key there is. -/
theorem countP_firsts (key : α → κ) (l : List α) (k : κ) :
    (firsts key l).countP (fun e => decide (key e.1 = k)) = if k ∈ l.map key then 1 else 0 := by
  induction l using List.reverseRecOn with
  | nil => rfl
  | append_singleton l a ih =>
    rw [firsts_append_singleton, List.countP_append, ih, List.map_append, List.map_singleton]
    by_cases hold : k ∈ l.map key
    · by_cases ha : key a ∈ l.map key
      · simp [hold, ha]
      · have hne : key a ≠ k := by
          rintro rfl
          exact ha hold
        simp [hold, ha, hne]
    · by_cases hk : key a = k
      · subst hk
        simp [hold]
      · by_cases ha : key a ∈ l.map key
        · simp [hold, ha, Ne.symm hk]
        · simp [hold, ha, hk, Ne.symm hk]

theorem nodup_snd_firsts (key : α → κ) (l : List α) : ((firsts key l).map Prod.snd).Nodup := by
  have hsub : ((firsts key l).map Prod.snd).Sublist (l.zipIdx.map Prod.snd) :=
    List.filter_sublist.map Prod.snd
  rw [List.zipIdx_map_snd] at hsub
  exact hsub.nodup List.nodup_range'

/-- Blocks laid end to end under distinct tags: the tag of one gives it back. -/
theorem filter_flatMap_of_tag {β γ ι : Type*} [DecidableEq ι] {tag : γ → ι} {tagOf : β → ι}
    {block : β → List γ} {bs : List β} (hn : (bs.map tagOf).Nodup)
    (htag : ∀ b ∈ bs, ∀ c ∈ block b, tag c = tagOf b) {b : β} (hb : b ∈ bs) :
    (bs.flatMap block).filter (fun c => decide (tag c = tagOf b)) = block b := by
  induction bs with
  | nil => cases hb
  | cons d bs ih =>
    rw [List.map_cons, List.nodup_cons] at hn
    rw [List.flatMap_cons, List.filter_append]
    have htail : ∀ e ∈ bs, ∀ c ∈ block e, tag c = tagOf e :=
      fun e he => htag e (List.mem_cons_of_mem _ he)
    have hhead := htag d List.mem_cons_self
    rcases List.mem_cons.mp hb with rfl | hmem
    · have hrest : (bs.flatMap block).filter (fun c => decide (tag c = tagOf b)) = [] := by
        rw [List.filter_eq_nil_iff]
        intro c hc
        obtain ⟨e, he, hce⟩ := List.mem_flatMap.mp hc
        rw [decide_eq_true_eq, htail e he c hce]
        intro heq
        exact hn.1 (List.mem_map.mpr ⟨e, he, heq⟩)
      rw [hrest, List.append_nil, List.filter_eq_self]
      intro c hc
      simpa using hhead c hc
    · have hne : tagOf d ≠ tagOf b := by
        intro heq
        exact hn.1 (List.mem_map.mpr ⟨b, hmem, heq.symm⟩)
      have hfirst : (block d).filter (fun c => decide (tag c = tagOf b)) = [] := by
        rw [List.filter_eq_nil_iff]
        intro c hc
        rw [decide_eq_true_eq, hhead c hc]
        exact hne
      rw [hfirst, List.nil_append]
      exact ih hn.2 htail hmem

end FirstOccurrences
