import Mathlib.Data.List.Count

/-! # Counting the elements of a list

Bounds on `List.countP` when one element changes, or when the elements fall into groups. -/
namespace ListCounting

variable {α : Type*} {p q r : α → Bool}

/-- Replacing an element by one that is not counted unless the old one was. -/
theorem countP_set_le {l : List α} {i : ℕ} {a b : α} (hi : l[i]? = some a)
    (h : p b = true → p a = true) : (l.set i b).countP p ≤ l.countP p := by
  induction l generalizing i with
  | nil => cases hi
  | cons c l ih =>
    cases i with
    | zero =>
      obtain rfl := Option.some.inj hi
      simp only [List.set_cons_zero, List.countP_cons]
      by_cases hb : p b = true
      · simp [hb, h hb]
      · simp [hb]
    | succ i =>
      have hset := ih (i := i) (by simpa using hi)
      simp only [List.set_cons_succ, List.countP_cons]
      omega

theorem countP_set_le_succ (l : List α) (i : ℕ) (b : α) :
    (l.set i b).countP p ≤ l.countP p + 1 := by
  induction l generalizing i with
  | nil => simp
  | cons c l ih =>
    cases i with
    | zero =>
      simp only [List.set_cons_zero, List.countP_cons]
      split <;> split <;> omega
    | succ i =>
      have hset := ih i
      simp only [List.set_cons_succ, List.countP_cons]
      omega

theorem countP_le_add {l : List α} (h : ∀ x ∈ l, p x = true → q x = true ∨ r x = true) :
    l.countP p ≤ l.countP q + l.countP r := by
  induction l with
  | nil => simp
  | cons c l ih =>
    have hl := ih fun x hx => h x (List.mem_cons_of_mem _ hx)
    have hc := h c List.mem_cons_self
    simp only [List.countP_cons]
    by_cases hp : p c = true
    · rcases hc hp with hq | hr
      · simp only [hp, hq, if_true]
        split <;> omega
      · simp only [hp, hr, if_true]
        split <;> omega
    · simp only [hp, Bool.false_eq_true, if_false]
      omega

/-- A condition that as many elements meet as a weaker one is met by the same ones. -/
theorem of_countP_eq {l : List α} (hpq : ∀ x ∈ l, p x = true → q x = true)
    (h : l.countP p = l.countP q) {a : α} (ha : a ∈ l) (hq : q a = true) : p a = true := by
  induction l with
  | nil => cases ha
  | cons b l ih =>
    have hrest : ∀ x ∈ l, p x = true → q x = true := fun x hx => hpq x (List.mem_cons_of_mem _ hx)
    have hle : l.countP p ≤ l.countP q := List.countP_mono_left hrest
    rw [List.countP_cons, List.countP_cons] at h
    cases hb : p b with
    | true =>
      have hqb := hpq b List.mem_cons_self hb
      rw [hb, hqb] at h
      rcases List.mem_cons.mp ha with rfl | ha
      · exact hb
      · exact ih hrest (by omega) ha
    | false =>
      cases hqb : q b with
      | true =>
        rw [hb, hqb, if_neg Bool.false_ne_true, if_pos rfl] at h
        omega
      | false =>
        rw [hb, hqb] at h
        rcases List.mem_cons.mp ha with rfl | ha
        · rw [hq] at hqb
          cases hqb
        · exact ih hrest (by omega) ha

/-- Elements in groups `0 … k`, at most `b` of each. -/
theorem countP_le_groups {l : List α} (g : α → ℕ) {k b : ℕ}
    (hg : ∀ x ∈ l, p x = true → g x ≤ k)
    (hb : ∀ j, l.countP (fun x => p x && decide (g x = j)) ≤ b) :
    l.countP p ≤ (k + 1) * b := by
  have hupto : ∀ n, l.countP (fun x => p x && decide (g x < n)) ≤ n * b := by
    intro n
    induction n with
    | zero => simp
    | succ n ih =>
      have hsplit : l.countP (fun x => p x && decide (g x < n + 1)) ≤
          l.countP (fun x => p x && decide (g x < n)) +
            l.countP (fun x => p x && decide (g x = n)) := by
        apply countP_le_add
        intro x _ hx
        simp only [Bool.and_eq_true, decide_eq_true_eq] at hx ⊢
        have : g x < n ∨ g x = n := by omega
        exact this.imp (fun hlt => ⟨hx.1, hlt⟩) fun he => ⟨hx.1, he⟩
      calc l.countP (fun x => p x && decide (g x < n + 1))
          ≤ n * b + b := Nat.le_trans hsplit (Nat.add_le_add ih (hb n))
        _ = (n + 1) * b := by rw [Nat.succ_mul]
  refine Nat.le_trans ?_ (hupto (k + 1))
  apply List.countP_mono_left
  intro x hx hp
  have := hg x hx hp
  simp only [hp, Bool.true_and, decide_eq_true_eq]
  omega

end ListCounting
