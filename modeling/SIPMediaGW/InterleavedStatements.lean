import Mathlib.Data.Nat.Notation
import SIPMediaGW.LabelledExecutions

/-! # Programs made of atomic statements, interleaved

A program runs one statement at a time on a state it shares with others: what a statement does
is one function of that state, and what the program does next depends on the state it found.
Programs arrive, advance by one statement in any order, and may end before their last. -/
namespace InterleavedStatements

open LabelledExecutions

inductive Program (σ ρ : Type) where
  | answer (r : ρ)
  | statement (effect : σ → σ) (next : σ → Program σ ρ)

variable {σ ρ ι : Type}

/-- A statement that only reads. -/
def Program.select (next : σ → Program σ ρ) : Program σ ρ := .statement id next

/-- The program alone, from its first statement to its answer. -/
def Program.run : Program σ ρ → σ → ρ × σ
  | .answer r, s => (r, s)
  | .statement effect next, s => (next s).run (effect s)

/-- `P` of every statement, whatever the statements before it found. -/
def Program.Every (P : (σ → σ) → Prop) : Program σ ρ → Prop
  | .answer _ => True
  | .statement effect next => P effect ∧ ∀ s, (next s).Every P

structure System (σ ρ : Type) where
  shared : σ
  pending : List (Program σ ρ)

inductive Event (ι : Type) where
  | arrive (request : ι)
  | advance (i : ℕ)
  | drop (i : ℕ)

/-- The shared state before any program arrived. -/
def start (s : σ) : System σ ρ := ⟨s, []⟩

def next (program : ι → Program σ ρ) (s : System σ ρ) : Event ι → Option (System σ ρ)
  | .arrive request => some { s with pending := s.pending ++ [program request] }
  | .advance i =>
    match s.pending[i]? with
    | some (.statement effect next) =>
      some ⟨effect s.shared, s.pending.set i (next s.shared)⟩
    | _ => none
  | .drop i => some { s with pending := s.pending.eraseIdx i }

/-- Only requests that `allowed` lets through arrive. -/
def Arrivals (allowed : ι → Prop) (_ : System σ ρ) (e : Event ι) : Prop :=
  ∀ request, e = .arrive request → allowed request

section Rules

variable {program : ι → Program σ ρ} {P Q : (σ → σ) → Prop} {s t : System σ ρ} {e : Event ι}
  {allowed : ι → Prop} {R : σ → σ → Prop} {I : σ → Prop} {p : Program σ ρ}

theorem Program.Every.mono (hPQ : ∀ f, P f → Q f) (h : p.Every P) : p.Every Q := by
  induction p with
  | answer r => trivial
  | statement effect next ih => exact ⟨hPQ effect h.1, fun s => ih s (h.2 s)⟩

theorem every_select {next : σ → Program σ ρ} (hid : P id) (h : ∀ s, (next s).Every P) :
    (Program.select next).Every P := ⟨hid, h⟩

/-- What a step does to the shared state, and to the programs still to run. -/
theorem next_cases (h : next program s e = some t) :
    (∃ request, e = .arrive request ∧ t.shared = s.shared ∧
      t.pending = s.pending ++ [program request]) ∨
    (∃ i effect after, e = .advance i ∧ s.pending[i]? = some (.statement effect after) ∧
      t.shared = effect s.shared ∧ t.pending = s.pending.set i (after s.shared)) ∨
    ∃ i, e = .drop i ∧ t.shared = s.shared ∧ t.pending = s.pending.eraseIdx i := by
  cases e with
  | arrive request =>
    obtain rfl := Option.some.inj h
    exact .inl ⟨request, rfl, rfl, rfl⟩
  | advance i =>
    simp only [next] at h
    split at h
    · rename_i effect after hi
      obtain rfl := Option.some.inj h
      exact .inr (.inl ⟨i, effect, after, rfl, hi, rfl, rfl⟩)
    · cases h
  | drop i =>
    obtain rfl := Option.some.inj h
    exact .inr (.inr ⟨i, rfl, rfl, rfl⟩)

/-- The statements still to run are those of requests that arrived. -/
theorem next_every (each : ∀ request, allowed request → (program request).Every P)
    (hs : ∀ p ∈ s.pending, p.Every P) (harr : Arrivals allowed s e)
    (h : next program s e = some t) : ∀ p ∈ t.pending, p.Every P := by
  intro p hp
  rcases next_cases h with ⟨request, rfl, -, hpend⟩ | ⟨i, effect, after, rfl, hi, -, hpend⟩ |
    ⟨i, rfl, -, hpend⟩
  · rw [hpend] at hp
    rcases List.mem_append.mp hp with hp | hp
    · exact hs p hp
    · obtain rfl := List.mem_singleton.mp hp
      exact each request (harr request rfl)
  · rw [hpend] at hp
    rcases List.mem_or_eq_of_mem_set hp with hp | rfl
    · exact hs p hp
    · exact (hs _ (List.mem_of_getElem? hi)).2 s.shared
  · rw [hpend] at hp
    exact hs p (List.mem_of_mem_eraseIdx hp)

theorem guarded_of_execution (h : Execution (StepOf (next program)) s t) :
    Execution (Guarded (Arrivals fun _ => True) (StepOf (next program))) s t :=
  h.mono fun _ _ _ step => ⟨fun _ _ => trivial, step⟩

/-- The statements still to run, all along a run. -/
theorem every_of_execution (each : ∀ request, allowed request → (program request).Every P)
    (hs : ∀ p ∈ s.pending, p.Every P)
    (h : Execution (Guarded (Arrivals allowed) (StepOf (next program))) s t) :
    ∀ p ∈ t.pending, p.Every P :=
  h.guarded_invariant (I := fun u => ∀ p ∈ u.pending, p.Every P)
    (fun _ _ _ hu harr hstep => next_every each hu harr hstep) hs

/-- What relates the state before each statement to the one after it relates the two ends of
every run, in whatever order the statements come. -/
theorem related_of_execution (refl : ∀ a, R a a) (trans : ∀ a b c, R a b → R b c → R a c)
    (each : ∀ request, allowed request → (program request).Every fun f => ∀ a, R a (f a))
    (hs : ∀ p ∈ s.pending, p.Every fun f => ∀ a, R a (f a))
    (h : Execution (Guarded (Arrivals allowed) (StepOf (next program))) s t) :
    R s.shared t.shared := by
  have hboth : R s.shared t.shared ∧ ∀ p ∈ t.pending, p.Every fun f => ∀ a, R a (f a) := by
    refine h.guarded_invariant
      (I := fun u => R s.shared u.shared ∧ ∀ p ∈ u.pending, p.Every fun f => ∀ a, R a (f a)) ?_
      ⟨refl s.shared, hs⟩
    rintro u e v ⟨hrel, hevery⟩ harr hstep
    refine ⟨?_, next_every each hevery harr hstep⟩
    rcases next_cases hstep with ⟨_, -, hsame, -⟩ | ⟨i, effect, after, -, hi, hnew, -⟩ |
      ⟨_, -, hsame, -⟩
    · rwa [hsame]
    · rw [hnew]
      exact trans _ _ _ hrel ((hevery _ (List.mem_of_getElem? hi)).1 u.shared)
    · rwa [hsame]
  exact hboth.1

/-- A property of the shared state that every statement keeps holds in every run. -/
theorem invariant_of_execution (each : ∀ request, allowed request →
      (program request).Every fun f => ∀ a, I a → I (f a))
    {a : σ} (ha : I a) (h : Execution (Guarded (Arrivals allowed) (StepOf (next program)))
      (start a : System σ ρ) t) : I t.shared :=
  related_of_execution (R := fun a b => I a → I b) (fun _ h => h)
    (fun _ _ _ hab hbc h => hbc (hab h)) each (fun _ hp => absurd hp List.not_mem_nil) h ha

/-- One program after the other, each to its end. -/
def runSerial (program : ι → Program σ ρ) (requests : List ι) (s : σ) : σ :=
  requests.foldl (fun s request => ((program request).run s).2) s

theorem runSerial_invariant (each : ∀ request s, I s → I ((program request).run s).2)
    (requests : List ι) {s : σ} (hs : I s) : I (runSerial program requests s) := by
  induction requests generalizing s with
  | nil => exact hs
  | cons request requests ih => exact ih (each request s hs)

end Rules

end InterleavedStatements
