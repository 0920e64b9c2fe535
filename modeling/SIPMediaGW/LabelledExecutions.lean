import Mathlib.Logic.Relation

/-! # Finite executions of labelled transition relations

States and events are arbitrary types. A guard restricts the steps an execution may
take without changing what a step does. -/
namespace LabelledExecutions

variable {σ ε : Type*}

inductive Execution (Step : σ → ε → σ → Prop) : σ → σ → Prop where
  | refl (s) : Execution Step s s
  | tail {s u v e} : Execution Step s u → Step u e v → Execution Step s v

/-- The steps of `Step` whose source state and event meet `P`. -/
def Guarded (P : σ → ε → Prop) (Step : σ → ε → σ → Prop) (s : σ) (e : ε) (t : σ) : Prop :=
  P s e ∧ Step s e t

/-- The relation of a partial step function: `none` means the event is not enabled. -/
def StepOf (next : σ → ε → Option σ) (s : σ) (e : ε) (t : σ) : Prop := next s e = some t

variable {Step : σ → ε → σ → Prop} {P : σ → ε → Prop}

theorem Execution.trans {s t u : σ} (h : Execution Step s t) (k : Execution Step t u) :
    Execution Step s u := by
  induction k with
  | refl => exact h
  | tail _ st ih => exact .tail ih st

theorem Execution.head {s t u : σ} {e : ε} (h : Step s e t) (k : Execution Step t u) :
    Execution Step s u := (Execution.tail (.refl s) h).trans k

theorem Execution.mono {Step' : σ → ε → σ → Prop} (hs : ∀ s e t, Step s e t → Step' s e t)
    {s t : σ} (h : Execution Step s t) : Execution Step' s t := by
  induction h with
  | refl => exact .refl _
  | tail _ st ih => exact .tail ih (hs _ _ _ st)

theorem Execution.invariant {I : σ → Prop} (step : ∀ s e t, I s → Step s e t → I t)
    {s t : σ} (h : Execution Step s t) (hs : I s) : I t := by
  induction h with
  | refl => exact hs
  | tail _ st ih => exact step _ _ _ ih st

/-- An invariant that needs the guard only at the steps that could break it. -/
theorem Execution.guarded_invariant {I : σ → Prop}
    (step : ∀ s e t, I s → P s e → Step s e t → I t)
    {s t : σ} (h : Execution (Guarded P Step) s t) (hs : I s) : I t :=
  h.invariant (fun s e t hi st => step s e t hi st.1 st.2) hs

/-- Events run in order from a state: the executable form of an execution. -/
def runEvents (next : σ → ε → Option σ) : σ → List ε → Option σ
  | s, [] => some s
  | s, e :: es => (next s e).bind fun t => runEvents next t es

theorem runEvents_execution {next : σ → ε → Option σ} {s t : σ} {es : List ε}
    (h : runEvents next s es = some t) : Execution (StepOf next) s t := by
  induction es generalizing s with
  | nil =>
    obtain rfl := Option.some.inj h
    exact .refl _
  | cons e es ih =>
    obtain ⟨u, hu, ht⟩ := Option.bind_eq_some_iff.mp h
    exact .head hu (ih ht)

/-- `next` at the events a decidable guard lets through. -/
def guardedNext (p : σ → ε → Bool) (next : σ → ε → Option σ) (s : σ) (e : ε) : Option σ :=
  if p s e then next s e else none

theorem runEvents_guarded {p : σ → ε → Bool} {next : σ → ε → Option σ} {s t : σ} {es : List ε}
    (h : runEvents (guardedNext p next) s es = some t) :
    Execution (Guarded (fun u e => p u e = true) (StepOf next)) s t := by
  apply (runEvents_execution h).mono
  intro u e v st
  simp only [StepOf, guardedNext] at st
  split at st
  · rename_i hp
    exact ⟨hp, st⟩
  · cases st

end LabelledExecutions
