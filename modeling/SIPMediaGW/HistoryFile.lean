import SIPMediaGW.LabelledExecutions
import Mathlib.Data.List.Basic

/-! # The history file of a gateway

The log parsers of the Event and of the Baresip pipe append to one file, and either of them
pushes it. Each file operation holds the lock; a push is three of them, a read, a POST and a
truncation, and the other parser goes on in between. -/
namespace HistoryFile

open LabelledExecutions

inductive Process where
  | event
  | baresip
  deriving DecidableEq, Repr

/-- A line of the file. The number tells apart two records with the same text. -/
structure Record where
  number : ℕ
  line : String
  deriving DecidableEq, Repr

def appendHistory (file : List Record) (record : Record) : List Record := file ++ [record]

/-- What the last of its reads returns. -/
def readHistoryStable (file : List Record) : List Record := file

def truncateHistory (_ : List Record) : List Record := []

/-- Where a `pushHistory` is after it has read some lines. -/
inductive Push where
  | posting (lines : List Record)
  | truncating (lines : List Record)
  deriving DecidableEq, Repr

/-- `appended` and `delivered` are ghost observations: every record appended, and the source
lines of the pushes answered 2xx. -/
structure State where
  file : List Record
  push : Process → Option Push
  appended : List Record
  delivered : List Record

inductive Event where
  | append (p : Process) (line : String)
  | read (p : Process)
  /-- `none` where the request raises. -/
  | answer (p : Process) (status : Option ℕ)
  | truncate (p : Process)

def accepted (status : Option ℕ) : Bool := status.any fun code => 200 ≤ code && code < 300

def State.setPush (s : State) (p : Process) (push : Option Push) : State :=
  { s with push := fun q => if q = p then push else s.push q }

/-- A parser reads its pipe only between its pushes. -/
def next (s : State) : Event → Option State
  | .append p line =>
    match s.push p with
    | none =>
      let record : Record := ⟨s.appended.length, line⟩
      some { s with file := appendHistory s.file record, appended := s.appended ++ [record] }
    | some _ => none
  | .read p =>
    match s.push p with
    | none =>
      let lines := readHistoryStable s.file
      if lines.isEmpty then some s else some (s.setPush p (some (.posting lines)))
    | some _ => none
  | .answer p status =>
    match s.push p with
    | some (.posting lines) =>
      if accepted status then
        some { s.setPush p (some (.truncating lines)) with delivered := s.delivered ++ lines }
      else some (s.setPush p none)
    | _ => none
  | .truncate p =>
    match s.push p with
    | some (.truncating _) => some { s.setPush p none with file := truncateHistory s.file }
    | _ => none

abbrev Step := StepOf next

/-- A gateway that starts with the lines of an earlier run. -/
def start (lines : List String) : State :=
  let file := lines.zipIdx.map fun e => ⟨e.2, e.1⟩
  ⟨file, fun _ => none, file, []⟩

def NothingLost (s : State) : Prop := ∀ r ∈ s.appended, r ∈ s.delivered ∨ r ∈ s.file

/-- A truncation that finds only records its own push read, or a push answered 2xx. -/
def Fits (s : State) : Event → Prop
  | .truncate p => ∀ lines, s.push p = some (.truncating lines) →
      ∀ r ∈ s.file, r ∈ lines ∨ r ∈ s.delivered
  | _ => True

/-- The file holds appended records, and a push that truncates has been answered 2xx. -/
structure Invariant (s : State) : Prop where
  file : ∀ r ∈ s.file, r ∈ s.appended
  answered : ∀ p lines, s.push p = some (.truncating lines) → ∀ r ∈ lines, r ∈ s.delivered

section Steps

variable {s t : State} {e : Event}

/-- What one event does. -/
theorem step_cases (h : Step s e t) :
    (∃ p line, e = .append p line ∧
      t = { s with file := s.file ++ [⟨s.appended.length, line⟩],
                   appended := s.appended ++ [⟨s.appended.length, line⟩] }) ∨
    (∃ p, e = .read p ∧ (t = s ∨ t = s.setPush p (some (.posting s.file)))) ∨
    (∃ p lines status, e = .answer p status ∧
      (t = s.setPush p none ∨
        t = { s.setPush p (some (.truncating lines)) with delivered := s.delivered ++ lines })) ∨
    ∃ p lines, e = .truncate p ∧ s.push p = some (.truncating lines) ∧
      t = { s.setPush p none with file := [] } := by
  cases e with
  | append p line =>
    simp only [StepOf, next] at h
    split at h
    · exact Or.inl ⟨p, line, rfl, (Option.some.inj h).symm⟩
    · cases h
  | read p =>
    simp only [StepOf, next] at h
    split at h
    · split at h
      · exact Or.inr (Or.inl ⟨p, rfl, Or.inl (Option.some.inj h).symm⟩)
      · exact Or.inr (Or.inl ⟨p, rfl, Or.inr (Option.some.inj h).symm⟩)
    · cases h
  | answer p status =>
    simp only [StepOf, next] at h
    split at h
    · next lines _ =>
      split at h
      · exact Or.inr (Or.inr (Or.inl
          ⟨p, lines, status, rfl, Or.inr (Option.some.inj h).symm⟩))
      · exact Or.inr (Or.inr (Or.inl
          ⟨p, lines, status, rfl, Or.inl (Option.some.inj h).symm⟩))
    · cases h
  | truncate p =>
    simp only [StepOf, next] at h
    split at h
    · next lines hpush =>
      exact Or.inr (Or.inr (Or.inr ⟨p, lines, rfl, hpush, (Option.some.inj h).symm⟩))
    · cases h

theorem setPush_self (s : State) (p : Process) (push : Option Push) :
    (s.setPush p push).push p = push := if_pos rfl

theorem setPush_ne (s : State) {p q : Process} (push : Option Push) (h : q ≠ p) :
    (s.setPush p push).push q = s.push q := if_neg h

/-- A push that was not truncating before a step, or is the one that took it. -/
theorem answered_setPush (h : Invariant s) (p : Process) {push : Option Push}
    {delivered : List Record} (hgrow : ∀ r ∈ s.delivered, r ∈ delivered)
    (hpush : ∀ lines, push = some (.truncating lines) → ∀ r ∈ lines, r ∈ delivered) (q : Process)
    (lines : List Record) (hq : (s.setPush p push).push q = some (.truncating lines)) :
    ∀ r ∈ lines, r ∈ delivered := by
  by_cases hqp : q = p
  · subst hqp
    rw [setPush_self] at hq
    exact hpush lines hq
  · rw [setPush_ne _ _ hqp] at hq
    exact fun r hr => hgrow r (h.answered q lines hq r hr)

theorem invariant_step (h : Invariant s) (step : Step s e t) : Invariant t := by
  rcases step_cases step with ⟨p, line, -, rfl⟩ | ⟨p, -, rfl | rfl⟩ |
    ⟨p, lines, status, -, rfl | rfl⟩ | ⟨p, lines, -, -, rfl⟩
  · refine ⟨fun r hr => ?_, h.answered⟩
    rcases List.mem_append.mp hr with hr | hr
    · exact List.mem_append_left _ (h.file r hr)
    · exact List.mem_append_right _ hr
  · exact h
  · exact ⟨h.file, answered_setPush h p (fun _ hr => hr) fun _ hnone => by cases hnone⟩
  · exact ⟨h.file, answered_setPush h p (fun _ hr => hr) fun _ hnone => by cases hnone⟩
  · refine ⟨h.file, answered_setPush h p (fun _ hr => List.mem_append_left _ hr) ?_⟩
    intro lines' heq r hr
    obtain rfl := Push.truncating.inj (Option.some.inj heq)
    exact List.mem_append_right _ hr
  · exact ⟨by simp, answered_setPush h p (fun _ hr => hr) fun _ hnone => by cases hnone⟩

/-- Nothing is lost by a step that fits. -/
theorem nothingLost_step (hinv : Invariant s) (h : NothingLost s) (hfits : Fits s e)
    (step : Step s e t) : NothingLost t := by
  intro r hr
  rcases step_cases step with ⟨p, line, -, rfl⟩ | ⟨p, -, rfl | rfl⟩ |
    ⟨p, lines, status, -, rfl | rfl⟩ | ⟨p, lines, rfl, hpush, rfl⟩
  · rcases List.mem_append.mp hr with hr | hr
    · exact (h r hr).imp_right (List.mem_append_left _)
    · exact Or.inr (List.mem_append_right _ hr)
  · exact h r hr
  · exact h r hr
  · exact h r hr
  · exact (h r hr).imp_left (List.mem_append_left _)
  · refine Or.inl ?_
    rcases h r hr with hd | hf
    · exact hd
    · exact (hfits lines hpush r hf).elim (hinv.answered p lines hpush r) id

/-- A step after which nothing is lost fits. -/
theorem fits_of_nothingLost (hinv : Invariant s) (step : Step s e t) (h : NothingLost t) :
    Fits s e := by
  rcases step_cases step with ⟨p, line, rfl, -⟩ | ⟨p, rfl, -⟩ |
    ⟨p, lines, status, rfl, -⟩ | ⟨p, lines, rfl, hpush, rfl⟩
  · trivial
  · trivial
  · trivial
  · intro lines' _ r hr
    rcases h r (hinv.file r hr) with hd | hf
    · exact Or.inr hd
    · cases hf

/-- A parser appends only while no push is under way: the other one appends nothing between a read
and its truncation. -/
def Waits (s : State) : Event → Prop
  | .append _ _ => ∀ p, s.push p = none
  | _ => True

def Push.lines : Push → List Record
  | .posting lines => lines
  | .truncating lines => lines

/-- What is in the file has been read by every push under way. -/
def Seen (s : State) : Prop := ∀ p push, s.push p = some push → ∀ r ∈ s.file, r ∈ push.lines

theorem seen_setPush (h : Seen s) (p : Process) (push : Option Push)
    (hpush : ∀ push', push = some push' → ∀ r ∈ s.file, r ∈ push'.lines) :
    Seen (s.setPush p push) := by
  intro q push' hq
  by_cases hqp : q = p
  · subst hqp
    rw [setPush_self] at hq
    exact hpush push' hq
  · rw [setPush_ne _ _ hqp] at hq
    exact h q push' hq

theorem seen_step (h : Seen s) (hwaits : Waits s e) (step : Step s e t) : Seen t := by
  cases e with
  | append p line =>
    obtain ⟨_, _, heq, rfl⟩ | ⟨_, heq, -⟩ | ⟨_, _, _, heq, -⟩ | ⟨_, _, heq, -⟩ := step_cases step
    · intro q push hq
      cases (hwaits q).symm.trans hq
    · cases heq
    · cases heq
    · cases heq
  | read p =>
    simp only [StepOf, next] at step
    split at step
    · split at step
      · rwa [← Option.some.inj step]
      · rw [← Option.some.inj step]
        refine seen_setPush h p _ fun push hpush r hr => ?_
        rw [← Option.some.inj hpush]
        exact hr
    · cases step
  | answer p status =>
    simp only [StepOf, next] at step
    split at step
    · next lines hposting =>
      split at step
      · rw [← Option.some.inj step]
        refine seen_setPush h p _ fun push hpush => ?_
        rw [← Option.some.inj hpush]
        exact fun r hr => h p _ hposting r hr
      · rw [← Option.some.inj step]
        exact seen_setPush h p none fun _ hpush => by cases hpush
    · cases step
  | truncate p =>
    obtain ⟨_, _, heq, -⟩ | ⟨_, heq, -⟩ | ⟨_, _, _, heq, -⟩ | ⟨_, _, -, -, rfl⟩ := step_cases step
    · cases heq
    · cases heq
    · cases heq
    · intro q push _ r hr
      cases hr

theorem fits_of_waits (h : Seen s) : Fits s e := by
  cases e with
  | truncate p => exact fun lines hpush r hr => .inl (h p _ hpush r hr)
  | _ => trivial

end Steps

section Runs

variable {s t : State}

theorem start_invariant (lines : List String) : Invariant (start lines) :=
  ⟨fun _ hr => hr, fun _ _ hpush => by cases hpush⟩

theorem start_nothingLost (lines : List String) : NothingLost (start lines) :=
  fun _ hr => Or.inr hr

/-- A run whose truncations fit loses nothing on its way, and only such a run does. -/
theorem no_record_lost_iff (lines : List String) (t : State) :
    Execution (Guarded Fits Step) (start lines) t ↔
      Execution (fun u e v => Step u e v ∧ NothingLost v) (start lines) t := by
  constructor
  · intro hrun
    have hall : Execution (fun u e v => Step u e v ∧ NothingLost v) (start lines) t ∧
        Invariant t ∧ NothingLost t := by
      induction hrun with
      | refl => exact ⟨.refl _, start_invariant lines, start_nothingLost lines⟩
      | tail _ step ih =>
        obtain ⟨hrun, hinv, hlost⟩ := ih
        have hlost' := nothingLost_step hinv hlost step.1 step.2
        exact ⟨hrun.tail ⟨step.2, hlost'⟩, invariant_step hinv step.2, hlost'⟩
    exact hall.1
  · intro hrun
    have hall : Execution (Guarded Fits Step) (start lines) t ∧ Invariant t := by
      induction hrun with
      | refl => exact ⟨.refl _, start_invariant lines⟩
      | tail _ step ih =>
        obtain ⟨hrun, hinv⟩ := ih
        exact ⟨hrun.tail ⟨fits_of_nothingLost hinv step.1 step.2, step.1⟩,
          invariant_step hinv step.1⟩
    exact hall.1

theorem nothingLost_of_waits {lines : List String}
    (hrun : Execution (Guarded Waits Step) (start lines) t) : NothingLost t := by
  have hall : Invariant t ∧ NothingLost t ∧ Seen t := by
    refine Execution.guarded_invariant (I := fun u => Invariant u ∧ NothingLost u ∧ Seen u)
      (fun u e v hu hwaits step => ?_) hrun
      ⟨start_invariant lines, start_nothingLost lines, fun _ _ hpush => by cases hpush⟩
    obtain ⟨hinv, hlost, hseen⟩ := hu
    exact ⟨invariant_step hinv step, nothingLost_step hinv hlost (fits_of_waits hseen) step,
      seen_step hseen hwaits step⟩
  exact hall.2.1

/-- The Event parser pushes a call; the Baresip parser appends a figure before it truncates. -/
def lateFigure : List Event :=
  [.append .event "call_closed:", .read .event, .answer .event (some 200),
   .append .baresip "stats_value:", .truncate .event]

theorem late_record_lost :
    ¬ ∀ (lines : List String) (t : State), Execution Step (start lines) t → NothingLost t := by
  intro h
  have hevents : runEvents next (start []) lateFigure = some _ := rfl
  rcases h [] _ (runEvents_execution hevents) ⟨1, "stats_value:"⟩ (by decide) with hd | hf
  · exact absurd hd (by decide)
  · exact absurd hf (by decide)

end Runs

end HistoryFile
