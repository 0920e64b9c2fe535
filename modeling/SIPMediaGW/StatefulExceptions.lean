import Mathlib.Init

/-! # Programs with a state and exceptions

What a program did before it raised stays done: the state survives the exception. -/
namespace StatefulExceptions

/-- Programs over a state `σ` that return an `α` or raise an `ε`. -/
abbrev Action (σ ε α : Type) : Type := ExceptT ε (StateM σ) α

variable {σ ε α β : Type} {s t : σ} {a : α} {e : ε}

/-- What a program returns or raises from a state, and the state it leaves. -/
def exec (p : Action σ ε α) (s : σ) : Except ε α × σ := (p.run).run s

@[simp] theorem exec_pure (a : α) (s : σ) : exec (pure a : Action σ ε α) s = (.ok a, s) := rfl

@[simp] theorem exec_get (s : σ) : exec (get : Action σ ε σ) s = (.ok s, s) := rfl

@[simp] theorem exec_set (s t : σ) : exec (set t : Action σ ε PUnit) s = (.ok ⟨⟩, t) := rfl

@[simp] theorem exec_modify (f : σ → σ) (s : σ) :
    exec (modify f : Action σ ε PUnit) s = (.ok ⟨⟩, f s) := rfl

@[simp] theorem exec_liftM (x : Except ε α) (s : σ) :
    exec (liftM x : Action σ ε α) s = (x, s) := rfl

theorem exec_bind (p : Action σ ε α) (f : α → Action σ ε β) (s : σ) :
    exec (p >>= f) s =
      match exec p s with
      | (.ok a, t) => exec (f a) t
      | (.error e, t) => (.error e, t) := by
  simp only [exec, ExceptT.run_bind, StateT.run_bind]
  generalize StateT.run (ExceptT.run p) s = r
  obtain ⟨r, t⟩ := r
  cases r <;> rfl

theorem exec_bind_ok {p : Action σ ε α} {f : α → Action σ ε β} (h : exec p s = (.ok a, t)) :
    exec (p >>= f) s = exec (f a) t := by
  rw [exec_bind, h]

theorem exec_bind_error {p : Action σ ε α} {f : α → Action σ ε β}
    (h : exec p s = (.error e, t)) : exec (p >>= f) s = (.error e, t) := by
  rw [exec_bind, h]

/-- What holds of the state a program leaves, by its first part. -/
theorem exec_bind_state {p : Action σ ε α} {f : α → Action σ ε β} {P : σ → Prop}
    (hok : ∀ a t, exec p s = (.ok a, t) → P (exec (f a) t).2)
    (herror : ∀ e t, exec p s = (.error e, t) → P t) : P (exec (p >>= f) s).2 := by
  cases h : exec p s with
  | mk result t =>
    cases result with
    | ok a =>
      rw [exec_bind_ok h]
      exact hok a t h
    | error e =>
      rw [exec_bind_error h]
      exact herror e t h

/-- A first part that only reads. -/
theorem exec_read_state {x : Except ε α} {f : α → Action σ ε β} {P : σ → Prop}
    (hok : ∀ a, x = .ok a → P (exec (f a) s).2) (herror : P s) :
    P (exec (liftM x >>= f) s).2 := by
  refine exec_bind_state (fun a t h => ?_) fun e t h => ?_
  · rw [exec_liftM] at h
    obtain ⟨hx, rfl⟩ := Prod.mk.inj h
    exact hok a hx
  · rw [exec_liftM] at h
    obtain ⟨-, rfl⟩ := Prod.mk.inj h
    exact herror

/-- Nothing follows but the answer. -/
theorem exec_then_pure {p : Action σ ε α} (b : β) (s : σ) :
    (exec (p >>= fun _ => pure b) s).2 = (exec p s).2 := by
  refine exec_bind_state (P := fun t => t = (exec p s).2) (fun a t h => ?_) fun e t h => ?_
  · rw [exec_pure, h]
  · rw [h]

theorem exec_tryCatch (p : Action σ ε α) (handler : ε → Action σ ε α) (s : σ) :
    exec (tryCatch p handler) s =
      match exec p s with
      | (.ok a, t) => (.ok a, t)
      | (.error e, t) => exec (handler e) t := by
  simp only [exec, tryCatch, tryCatchThe, MonadExceptOf.tryCatch, ExceptT.tryCatch,
    ExceptT.run_mk, StateT.run_bind]
  unfold ExceptT.run
  generalize StateT.run p s = r
  obtain ⟨r, t⟩ := r
  cases r <;> rfl

/-- Where an exception comes from. -/
theorem bind_eq_error {x : Except ε α} {f : α → Except ε β} :
    x >>= f = .error e ↔ x = .error e ∨ ∃ a, x = .ok a ∧ f a = .error e := by
  cases x with
  | error e' => simp [bind, Except.bind]
  | ok a => simp [bind, Except.bind]

/-- A program keeps a property of the state, whether it returns or raises. -/
def Keeps (I : σ → Prop) (p : Action σ ε α) : Prop := ∀ s, I s → I (exec p s).2

section Rules

variable {I : σ → Prop}

theorem keeps_pure (a : α) : Keeps I (pure a : Action σ ε α) := fun _ h => h

theorem keeps_throw (e : ε) : Keeps I (throw e : Action σ ε α) := fun _ h => h

theorem Keeps.bind {p : Action σ ε α} {f : α → Action σ ε β} (hp : Keeps I p)
    (hf : ∀ a, Keeps I (f a)) : Keeps I (p >>= f) := by
  intro s hs
  have hp := hp s hs
  rw [exec_bind]
  generalize exec p s = r at hp
  obtain ⟨r, t⟩ := r
  cases r with
  | ok a => exact hf a t hp
  | error e => exact hp

/-- A program that goes on from the state it reads. -/
theorem keeps_get_bind {f : σ → Action σ ε β} (hf : ∀ s, I s → I (exec (f s) s).2) :
    Keeps I (get >>= f) := by
  intro s hs
  rw [exec_bind_ok (exec_get s)]
  exact hf s hs

theorem keeps_modify {f : σ → σ} (hf : ∀ s, I s → I (f s)) :
    Keeps I (modify f : Action σ ε PUnit) := hf

theorem keeps_liftM (x : Except ε α) : Keeps I (liftM x : Action σ ε α) := fun _ h => h

theorem keeps_forM {l : List α} {f : α → Action σ ε PUnit} (hf : ∀ a ∈ l, Keeps I (f a)) :
    Keeps I (forM l f) := by
  induction l with
  | nil => exact keeps_pure _
  | cons a l ih =>
    rw [List.forM_cons]
    exact (hf a List.mem_cons_self).bind fun _ => ih fun b hb => hf b (List.mem_cons_of_mem _ hb)

end Rules

/-- From a state that meets `P`, a program that returns leaves what `Q` says of its result, and
one that raises what `R` says of its exception. -/
def Meets (P : σ → Prop) (p : Action σ ε α) (Q : α → σ → Prop) (R : ε → σ → Prop) : Prop :=
  ∀ s, P s → match exec p s with
    | (.ok a, t) => Q a t
    | (.error e, t) => R e t

section Contracts

variable {P P' : σ → Prop} {Q Q' : α → σ → Prop} {R R' : ε → σ → Prop}

theorem Meets.of_ok {p : Action σ ε α} (h : Meets P p Q R) (hs : P s)
    (run : exec p s = (.ok a, t)) : Q a t := by
  have h := h s hs
  rwa [run] at h

theorem Meets.of_error {p : Action σ ε α} (h : Meets P p Q R) (hs : P s)
    (run : exec p s = (.error e, t)) : R e t := by
  have h := h s hs
  rwa [run] at h

theorem keeps_iff_meets {I : σ → Prop} {p : Action σ ε α} :
    Keeps I p ↔ Meets I p (fun _ => I) (fun _ => I) := by
  unfold Keeps Meets
  refine forall_congr' fun s => forall_congr' fun _ => ?_
  generalize exec p s = r
  obtain ⟨r, t⟩ := r
  cases r <;> rfl

theorem meets_pure {a : α} (h : ∀ s, P s → Q a s) : Meets P (pure a : Action σ ε α) Q R := h

theorem meets_throw {e : ε} (h : ∀ s, P s → R e s) : Meets P (throw e : Action σ ε α) Q R := h

theorem meets_modify {f : σ → σ} {Q : PUnit → σ → Prop} (h : ∀ s, P s → Q ⟨⟩ (f s)) :
    Meets P (modify f : Action σ ε PUnit) Q R := h

theorem Meets.weaken {p : Action σ ε α} (h : Meets P p Q R) (hP : ∀ s, P' s → P s)
    (hQ : ∀ a s, Q a s → Q' a s) (hR : ∀ e s, R e s → R' e s) : Meets P' p Q' R' := by
  intro s hs
  have h := h s (hP s hs)
  generalize exec p s = r at h
  obtain ⟨r, t⟩ := r
  cases r with
  | ok a => exact hQ a t h
  | error e => exact hR e t h

theorem Meets.bind {p : Action σ ε α} {f : α → Action σ ε β} {Q' : β → σ → Prop}
    (hp : Meets P p Q R) (hf : ∀ a, Meets (Q a) (f a) Q' R) : Meets P (p >>= f) Q' R := by
  intro s hs
  have hp := hp s hs
  rw [exec_bind]
  generalize exec p s = r at hp
  obtain ⟨r, t⟩ := r
  cases r with
  | ok a => exact hf a t hp
  | error e => exact hp

theorem meets_get_bind {f : σ → Action σ ε β} {Q : β → σ → Prop}
    (h : ∀ s, P s → Meets (· = s) (f s) Q R) : Meets P (get >>= f) Q R := by
  intro s hs
  rw [exec_bind_ok (exec_get s)]
  exact h s hs s rfl

theorem Meets.tryCatch {p : Action σ ε α} {handler : ε → Action σ ε α} (hp : Meets P p Q R')
    (hh : ∀ e, Meets (R' e) (handler e) Q R) : Meets P (tryCatch p handler) Q R := by
  intro s hs
  have hp := hp s hs
  rw [exec_tryCatch]
  generalize exec p s = r at hp
  obtain ⟨r, t⟩ := r
  cases r with
  | ok a => exact hp
  | error e => exact hh e t hp

end Contracts

end StatefulExceptions
