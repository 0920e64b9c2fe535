import Mathlib.Data.List.Basic

/-! # Finite maps as association lists

The first pair of a key is the one read. Writing an existing key keeps its place, as a
dictionary that remembers insertion order does. -/
namespace FieldMap

variable {κ ν : Type*} [DecidableEq κ]

def put (m : List (κ × ν)) (k : κ) (v : ν) : List (κ × ν) :=
  match m with
  | [] => [(k, v)]
  | (a, b) :: m => if a = k then (a, v) :: m else (a, b) :: put m k v

def del (m : List (κ × ν)) (k : κ) : List (κ × ν) := m.filter fun e => decide (e.1 ≠ k)

def keys (m : List (κ × ν)) : List κ := m.map Prod.fst

/-- Assignments carried out in order. -/
def putAll (m : List (κ × ν)) (fs : List (κ × ν)) : List (κ × ν) :=
  fs.foldl (fun m f => put m f.1 f.2) m

theorem lookup_put_self (m : List (κ × ν)) (k : κ) (v : ν) :
    (put m k v).lookup k = some v := by
  induction m with
  | nil => simp [put]
  | cons e m ih =>
    obtain ⟨a, b⟩ := e
    by_cases ha : a = k
    · simp [put, ha]
    · have hka : (k == a) = false := beq_eq_false_iff_ne.mpr (Ne.symm ha)
      simp [put, ha, List.lookup_cons, hka, ih]

theorem lookup_put_ne (m : List (κ × ν)) {k j : κ} (v : ν) (h : j ≠ k) :
    (put m k v).lookup j = m.lookup j := by
  have hjk : (j == k) = false := beq_eq_false_iff_ne.mpr h
  induction m with
  | nil => simp [put, List.lookup_cons, hjk]
  | cons e m ih =>
    obtain ⟨a, b⟩ := e
    by_cases ha : a = k
    · subst ha
      simp [put, List.lookup_cons, hjk]
    · simp [put, ha, List.lookup_cons, ih]

theorem lookup_put (m : List (κ × ν)) (k j : κ) (v : ν) :
    (put m k v).lookup j = if j = k then some v else m.lookup j := by
  by_cases h : j = k
  · subst h
    simp [lookup_put_self]
  · simp [h, lookup_put_ne m v h]

theorem lookup_del_self (m : List (κ × ν)) (k : κ) : (del m k).lookup k = none := by
  induction m with
  | nil => rfl
  | cons e m ih =>
    obtain ⟨a, b⟩ := e
    by_cases ha : a = k
    · simpa [del, ha] using ih
    · have hka : (k == a) = false := beq_eq_false_iff_ne.mpr (Ne.symm ha)
      simpa [del, ha, List.lookup_cons, hka] using ih

theorem lookup_del_ne (m : List (κ × ν)) {k j : κ} (h : j ≠ k) :
    (del m k).lookup j = m.lookup j := by
  induction m with
  | nil => rfl
  | cons e m ih =>
    obtain ⟨a, b⟩ := e
    by_cases ha : a = k
    · subst ha
      have hja : (j == a) = false := beq_eq_false_iff_ne.mpr h
      simpa [del, List.lookup_cons, hja] using ih
    · simp only [del, List.filter_cons, ne_eq, ha, not_false_eq_true, decide_true,
        if_true, List.lookup_cons]
      rw [show (m.filter fun e => decide (¬e.1 = k)).lookup j = m.lookup j from ih]

theorem lookup_del (m : List (κ × ν)) (k j : κ) :
    (del m k).lookup j = if j = k then none else m.lookup j := by
  by_cases h : j = k
  · subst h
    simp [lookup_del_self]
  · simp [h, lookup_del_ne m h]

theorem mem_keys_iff (m : List (κ × ν)) (k : κ) : k ∈ keys m ↔ (m.lookup k).isSome := by
  induction m with
  | nil => simp [keys]
  | cons e m ih =>
    obtain ⟨a, b⟩ := e
    by_cases ha : k = a
    · simp [keys, ha]
    · have hka : (k == a) = false := beq_eq_false_iff_ne.mpr ha
      simpa only [keys, List.map_cons, List.mem_cons, ha, false_or, List.lookup_cons, hka]
        using ih

theorem lookup_append (m n : List (κ × ν)) (k : κ) :
    (m ++ n).lookup k = (m.lookup k).or (n.lookup k) := by
  induction m with
  | nil => simp
  | cons e m ih =>
    obtain ⟨a, b⟩ := e
    by_cases ha : k == a
    · simp [List.lookup_cons, ha]
    · simp [List.lookup_cons, ha, ih]

/-- The last assignment to a key is the one that stays. -/
theorem lookup_putAll (m fs : List (κ × ν)) (k : κ) :
    (putAll m fs).lookup k = (fs.reverse.lookup k).or (m.lookup k) := by
  induction fs generalizing m with
  | nil => simp [putAll]
  | cons f fs ih =>
    obtain ⟨a, b⟩ := f
    have hput := ih (put m a b)
    simp only [putAll, List.foldl_cons, List.reverse_cons, lookup_append] at hput ⊢
    rw [hput, lookup_put]
    by_cases ha : k = a
    · subst ha
      cases fs.reverse.lookup k <;> simp
    · have hka : (k == a) = false := beq_eq_false_iff_ne.mpr ha
      cases fs.reverse.lookup k <;> simp [ha, List.lookup_cons, hka]

theorem lookup_putAll_of_notMem (m fs : List (κ × ν)) {k : κ} (h : k ∉ keys fs) :
    (putAll m fs).lookup k = m.lookup k := by
  have hr : fs.reverse.lookup k = none := by
    have hk : k ∉ keys fs.reverse := by
      rwa [keys, List.map_reverse, List.mem_reverse]
    rw [mem_keys_iff, Option.not_isSome_iff_eq_none] at hk
    exact hk
  rw [lookup_putAll, hr, Option.none_or]

theorem put_of_notMem {m : List (κ × ν)} {k : κ} (h : k ∉ keys m) (v : ν) :
    put m k v = m ++ [(k, v)] := by
  induction m with
  | nil => rfl
  | cons e m ih =>
    rw [keys, List.map_cons, List.mem_cons, not_or] at h
    rw [put, if_neg (Ne.symm h.1), ih h.2, List.cons_append]

theorem keys_put_of_mem {m : List (κ × ν)} {k : κ} (h : k ∈ keys m) (v : ν) :
    keys (put m k v) = keys m := by
  induction m with
  | nil => cases h
  | cons e m ih =>
    obtain ⟨a, b⟩ := e
    by_cases ha : a = k
    · rw [put, if_pos ha]
      rfl
    · have hmem : k ∈ keys m := (List.mem_cons.mp h).resolve_left (Ne.symm ha)
      rw [put, if_neg ha]
      exact congrArg (a :: ·) (ih hmem)

theorem nodup_keys_put {m : List (κ × ν)} (h : (keys m).Nodup) (k : κ) (v : ν) :
    (keys (put m k v)).Nodup := by
  by_cases hk : k ∈ keys m
  · rwa [keys_put_of_mem hk]
  · rw [put_of_notMem hk, keys, List.map_append]
    refine List.nodup_append.mpr ⟨h, by simp, fun a ha b hb hab => ?_⟩
    have hak : a = k := hab.trans (List.mem_singleton.mp hb)
    exact hk (hak ▸ ha)

theorem mem_keys_put {m : List (κ × ν)} {k j : κ} {v : ν} :
    j ∈ keys (put m k v) ↔ j = k ∨ j ∈ keys m := by
  rw [mem_keys_iff, lookup_put, mem_keys_iff]
  by_cases hj : j = k
  · simp [hj]
  · simp [hj]

theorem lookup_of_mem {m : List (κ × ν)} (h : (keys m).Nodup) {e : κ × ν} (he : e ∈ m) :
    m.lookup e.1 = some e.2 := by
  induction m with
  | nil => cases he
  | cons f m ih =>
    obtain ⟨a, b⟩ := f
    obtain ⟨ha, hm⟩ := List.nodup_cons.mp h
    rcases List.mem_cons.mp he with rfl | he
    · exact List.lookup_cons_self
    · have hmem : e.1 ∈ keys m := List.mem_map_of_mem he
      have hbeq : (e.1 == a) = false := beq_eq_false_iff_ne.mpr fun heq => ha (heq ▸ hmem)
      rw [List.lookup_cons, hbeq]
      exact ih hm he

theorem mem_put {m : List (κ × ν)} {k : κ} {v : ν} {e : κ × ν} (h : e ∈ put m k v) :
    e = (k, v) ∨ e ∈ m := by
  fun_induction put m k v with
  | case1 => exact .inl (List.mem_singleton.mp h)
  | case2 w m =>
    rcases List.mem_cons.mp h with heq | hmem
    · exact .inl heq
    · exact .inr (List.mem_cons_of_mem _ hmem)
  | case3 a w m hne ih =>
    rcases List.mem_cons.mp h with heq | hmem
    · exact .inr (List.mem_cons.mpr (.inl heq))
    · exact (ih hmem).imp_right fun hin => List.mem_cons_of_mem _ hin

theorem mem_putAll {m fs : List (κ × ν)} {e : κ × ν} (h : e ∈ putAll m fs) :
    e ∈ fs ∨ e ∈ m := by
  induction fs generalizing m with
  | nil => exact .inr h
  | cons f fs ih =>
    rcases ih h with hmem | hput
    · exact .inl (List.mem_cons_of_mem _ hmem)
    · rcases mem_put hput with heq | hm
      · exact .inl (List.mem_cons.mpr (.inl heq))
      · exact .inr hm

theorem lookup_map_snd {μ : Type*} (f : ν → μ) (m : List (κ × ν)) (k : κ) :
    (m.map fun e => (e.1, f e.2)).lookup k = (m.lookup k).map f := by
  induction m with
  | nil => rfl
  | cons e m ih =>
    obtain ⟨a, b⟩ := e
    rw [List.map_cons, List.lookup_cons, List.lookup_cons, ih]
    cases k == a <;> rfl

theorem put_map_snd {μ : Type*} (f : ν → μ) (m : List (κ × ν)) (k : κ) (v : ν) :
    put (m.map fun e => (e.1, f e.2)) k (f v) = (put m k v).map fun e => (e.1, f e.2) := by
  induction m with
  | nil => rfl
  | cons e m ih =>
    obtain ⟨a, b⟩ := e
    rw [List.map_cons, put, put, ih]
    split <;> rfl

/-- Assignments to different keys that are new. -/
theorem putAll_of_nodup {m fs : List (κ × ν)} (h : (keys fs).Nodup)
    (hnew : ∀ k ∈ keys fs, k ∉ keys m) : putAll m fs = m ++ fs := by
  induction fs generalizing m with
  | nil => exact (List.append_nil m).symm
  | cons f fs ih =>
    obtain ⟨hf, hfs⟩ := List.nodup_cons.mp h
    rw [putAll, List.foldl_cons, ← putAll, put_of_notMem (hnew f.1 List.mem_cons_self),
      ih hfs fun k hk => ?_]
    · simp
    · intro hmem
      rw [keys, List.map_append, List.mem_append] at hmem
      rcases hmem with hmem | hmem
      · exact hnew k (List.mem_cons_of_mem _ hk) hmem
      · rw [List.map_singleton, List.mem_singleton] at hmem
        exact hf (hmem ▸ hk)

theorem putAll_nil_of_nodup {fs : List (κ × ν)} (h : (keys fs).Nodup) : putAll [] fs = fs :=
  putAll_of_nodup h fun _ _ hmem => nomatch hmem

theorem ne_nil_of_lookup {m : List (κ × ν)} {k : κ} {v : ν} (h : m.lookup k = some v) :
    m ≠ [] := by
  rintro rfl
  cases h

end FieldMap
