import Mathlib.Algebra.Order.Archimedean.Basic
import Mathlib.Data.Rat.Floor
import SIPMediaGW.LabelledExecutions
import SIPMediaGW.PartialUniqueIndex

/-! # The pool sampler

A process reads the pool, stores a sample that stands for one interval, and sleeps for one. It
may be stopped and started again at any instant. -/
namespace PoolSampler

open LabelledExecutions PartialUniqueIndex

/-- `POOL_SAMPLE_INTERVAL`; the sampler is off below one second. -/
structure Interval where
  seconds : ℕ
  pos : 0 < seconds

structure Counts where
  free : ℕ
  idle : ℕ
  ivr : ℕ
  in_call : ℕ

def Counts.zero : Counts := ⟨0, 0, 0, 0⟩

def Counts.add (counts : Counts) (state : String) : Counts :=
  let key := if state = "call" then "in_call" else state
  if key = "free" then { counts with free := counts.free + 1 }
  else if key = "idle" then { counts with idle := counts.idle + 1 }
  else if key = "ivr" then { counts with ivr := counts.ivr + 1 }
  else if key = "in_call" then { counts with in_call := counts.in_call + 1 }
  else counts

/-- A row of `pool_samples`. -/
structure Sample where
  ts : ℤ
  interval_s : ℕ
  counts : Counts

def Sample.key (sample : Sample) : Option ℤ := some sample.ts

abbrev PoolSamples := Table [Sample.key]

def sampleAt (interval : Interval) (now : ℚ) (states : List String) : Sample :=
  ⟨⌊now⌋, interval.seconds, states.foldl Counts.add .zero⟩

/-- `wake` is the earliest instant of the next reading, where a process runs. -/
structure State where
  now : ℚ
  wake : Option ℚ
  samples : PoolSamples

def State.init (now : ℚ) : State := ⟨now, none, .empty _⟩

inductive Reading where
  | proxyDown
  | databaseDown
  | taken (states : List String)

/-- A reading has its statuses at `t` and is over at `finished`. A start ends the process before. -/
inductive Event where
  | start (t : ℚ)
  | stop (t : ℚ)
  | read (t finished : ℚ) (reading : Reading)

section Sampler

variable (interval : Interval)

def sampleOnce (samples : PoolSamples) (now : ℚ) : Reading → PoolSamples
  | .taken states => samples.insertOrIgnore (sampleAt interval now states)
  | _ => samples

/-- `none` where the event is not possible. -/
def next (s : State) : Event → Option State
  | .start t => if s.now ≤ t then some { s with now := t, wake := some t } else none
  | .stop t => if s.now ≤ t then some { s with now := t, wake := none } else none
  | .read t finished reading =>
    s.wake.bind fun wake =>
      if wake ≤ t ∧ t ≤ finished then
        some ⟨t, some (finished + interval.seconds), sampleOnce interval s.samples t reading⟩
      else none

structure Period where
  since : ℚ
  before : ℚ
  ordered : since ≤ before

def Period.has (p : Period) (sample : Sample) : Bool :=
  decide (p.since ≤ sample.ts) && decide (sample.ts < p.before)

/-- `SUM(interval_s)` over the samples of a period. -/
def claimed (rows : List Sample) (p : Period) : ℕ := ((rows.filter p.has).map Sample.interval_s).sum

def NeverInvents (rows : List Sample) : Prop :=
  ∀ p : Period, (claimed rows p : ℚ) ≤ (p.before - p.since) + interval.seconds

/-- A reading is stored an interval after every sample, or in the second of one. -/
def Late (s : State) : Event → Prop
  | .read t _ (.taken _) => ∀ row ∈ s.samples.rows,
      row.ts = ⌊t⌋ ∨ row.ts + interval.seconds ≤ ⌊t⌋
  | _ => True

instance (s : State) (e : Event) : Decidable (Late interval s e) :=
  match e with
  | .read _ _ (.taken _) => inferInstanceAs (Decidable (∀ row ∈ s.samples.rows, _))
  | .read _ _ .proxyDown => isTrue trivial
  | .read _ _ .databaseDown => isTrue trivial
  | .start _ => isTrue trivial
  | .stop _ => isTrue trivial

def AllLate (s : State) : List Event → Prop
  | [] => True
  | e :: es => Late interval s e ∧ match next interval s e with
    | some t => AllLate t es
    | none => True

def decideAllLate (s : State) : (es : List Event) → Decidable (AllLate interval s es)
  | [] => isTrue trivial
  | e :: es =>
    have : Decidable (match next interval s e with
        | some t => AllLate interval t es
        | none => True) :=
      match next interval s e with
      | some t => decideAllLate t es
      | none => isTrue trivial
    inferInstanceAs (Decidable (_ ∧ _))

instance (s : State) (es : List Event) : Decidable (AllLate interval s es) :=
  decideAllLate interval s es

def Spaced (rows : List Sample) : Prop :=
  rows.Pairwise fun (row row' : Sample) => row.ts + interval.seconds ≤ row'.ts

/-- The samples in the order of their seconds, none later than the clock. -/
structure Ordered (s : State) : Prop where
  uniform : ∀ row ∈ s.samples.rows, row.interval_s = interval.seconds
  sorted : s.samples.rows.Pairwise fun row row' => row.ts ≤ row'.ts
  past : ∀ row ∈ s.samples.rows, row.ts ≤ ⌊s.now⌋
  wake : ∀ wake, s.wake = some wake → s.now ≤ wake

end Sampler

section Events

variable {interval : Interval} {s s' : State} {e : Event} {rows : List Sample}

theorem conflicts_iff (samples : PoolSamples) (now : ℚ) (states : List String) :
    samples.conflicts (sampleAt interval now states) = true ↔
      ∃ row ∈ samples.rows, row.ts = ⌊now⌋ := by
  rw [clash_of_conflicts]
  simp [clashes, Sample.key, sampleAt]

/-- A reading keeps the samples, or adds one at its second. -/
theorem rows_sampleOnce (samples : PoolSamples) (t : ℚ) (reading : Reading) :
    ((sampleOnce interval samples t reading).rows = samples.rows ∧
      ∀ states, reading = .taken states → ∃ row ∈ samples.rows, row.ts = ⌊t⌋) ∨
      ∃ states, reading = .taken states ∧ (∀ row ∈ samples.rows, row.ts ≠ ⌊t⌋) ∧
        (sampleOnce interval samples t reading).rows =
          samples.rows ++ [sampleAt interval t states] := by
  cases reading with
  | proxyDown => exact Or.inl ⟨rfl, fun states h => (nomatch h)⟩
  | databaseDown => exact Or.inl ⟨rfl, fun states h => (nomatch h)⟩
  | taken states =>
    rw [sampleOnce, rows_insertOrIgnore]
    split
    · next hconflict => exact Or.inl ⟨rfl, fun _ _ => (conflicts_iff _ _ _).mp hconflict⟩
    · next hfree =>
      refine Or.inr ⟨states, rfl, fun row hrow hts => hfree ?_, rfl⟩
      exact (conflicts_iff _ _ _).mpr ⟨row, hrow, hts⟩

theorem next_cases (h : next interval s e = some s') :
    (s'.samples = s.samples ∧ s.now ≤ s'.now ∧ (∀ wake, s'.wake = some wake → s'.now ≤ wake) ∧
        Late interval s e) ∨
      ∃ t finished reading wake, e = .read t finished reading ∧ s.wake = some wake ∧
        wake ≤ t ∧ t ≤ finished ∧ s' =
          ⟨t, some (finished + interval.seconds), sampleOnce interval s.samples t reading⟩ := by
  cases e with
  | start t =>
    rw [next] at h
    split at h
    · next hle =>
      obtain rfl := Option.some.inj h
      exact Or.inl ⟨rfl, hle, fun wake hwake => (Option.some.inj hwake).le, trivial⟩
    · cases h
  | stop t =>
    rw [next] at h
    split at h
    · next hle =>
      obtain rfl := Option.some.inj h
      exact Or.inl ⟨rfl, hle, fun wake hwake => (nomatch hwake), trivial⟩
    · cases h
  | read t finished reading =>
    obtain ⟨wake, hwake, h⟩ := Option.bind_eq_some_iff.mp h
    split at h
    · next hle =>
      obtain rfl := Option.some.inj h
      exact Or.inr ⟨t, finished, reading, wake, rfl, hwake, hle.1, hle.2, rfl⟩
    · cases h

theorem ordered_init (now : ℚ) : Ordered interval (.init now) where
  uniform row hrow := by cases hrow
  sorted := .nil
  past row hrow := by cases hrow
  wake wake hwake := by cases hwake

theorem Ordered.next (h : Ordered interval s) (hnext : PoolSampler.next interval s e = some s') :
    Ordered interval s' := by
  rcases next_cases hnext with ⟨hsamples, hnow, hwake, -⟩ |
    ⟨t, finished, reading, wake, -, hwake, hle, hdone, rfl⟩
  · exact ⟨hsamples ▸ h.uniform, hsamples ▸ h.sorted,
      fun row hrow => (h.past row (hsamples ▸ hrow)).trans (Int.floor_le_floor hnow), hwake⟩
  · have hpast : ∀ row ∈ s.samples.rows, row.ts ≤ ⌊t⌋ := fun row hrow =>
      (h.past row hrow).trans (Int.floor_le_floor ((h.wake wake hwake).trans hle))
    have hlater : ∀ wake', some (finished + interval.seconds) = some wake' → t ≤ wake' := by
      intro wake' hwake'
      have hpos : (0 : ℚ) ≤ interval.seconds := Nat.cast_nonneg _
      have heq := Option.some.inj hwake'
      linarith
    rcases rows_sampleOnce s.samples t reading with ⟨hrows, -⟩ | ⟨states, -, -, hrows⟩
    · exact ⟨hrows ▸ h.uniform, hrows ▸ h.sorted, hrows ▸ hpast, hlater⟩
    · refine ⟨?_, ?_, ?_, hlater⟩
      · rw [hrows, List.forall_mem_append]
        exact ⟨h.uniform, fun row hrow => by rw [List.mem_singleton.mp hrow]; rfl⟩
      · rw [hrows, List.pairwise_append]
        exact ⟨h.sorted, List.pairwise_singleton _ _,
          fun row hrow row' hrow' => by rw [List.mem_singleton.mp hrow']; exact hpast row hrow⟩
      · rw [hrows, List.forall_mem_append]
        exact ⟨hpast, fun row hrow => by rw [List.mem_singleton.mp hrow]; exact le_rfl⟩

/-- Where the second of the reading has a sample already, the others are an interval before. -/
theorem Spaced.before_last (h : Spaced interval rows) {last : Sample} (hmem : last ∈ rows)
    (hlast : ∀ row ∈ rows, row.ts ≤ last.ts) :
    ∀ row ∈ rows, row.ts = last.ts ∨ row.ts + interval.seconds ≤ last.ts := by
  have hpos := interval.pos
  obtain ⟨front, back, rfl⟩ := List.append_of_mem hmem
  obtain ⟨-, hback, hcross⟩ := List.pairwise_append.mp h
  intro row hrow
  rcases List.mem_append.mp hrow with hrow | hrow
  · exact Or.inr (hcross row hrow last List.mem_cons_self)
  rcases List.mem_cons.mp hrow with rfl | hrow
  · exact Or.inl rfl
  · have hlater := (List.pairwise_cons.mp hback).1 row hrow
    have hle := hlast row (List.mem_append_right _ (List.mem_cons_of_mem _ hrow))
    omega

/-- The samples stay spaced in exactly the events that are late enough. -/
theorem spaced_next_iff (h : Ordered interval s) (hnext : next interval s e = some s') :
    Spaced interval s'.samples.rows ↔ Spaced interval s.samples.rows ∧ Late interval s e := by
  rcases next_cases hnext with ⟨hsamples, -, -, hlate⟩ |
    ⟨t, finished, reading, wake, rfl, hwake, hle, -, rfl⟩
  · rw [hsamples]
    exact (and_iff_left hlate).symm
  · have hpast : ∀ row ∈ s.samples.rows, row.ts ≤ ⌊t⌋ := fun row hrow =>
      (h.past row hrow).trans (Int.floor_le_floor ((h.wake wake hwake).trans hle))
    rcases rows_sampleOnce s.samples t reading with ⟨hrows, hsame⟩ | ⟨states, rfl, hfree, hrows⟩
    · rw [hrows]
      refine ⟨fun hspaced => ⟨hspaced, ?_⟩, And.left⟩
      cases reading with
      | proxyDown => trivial
      | databaseDown => trivial
      | taken states =>
        obtain ⟨last, hmem, hts⟩ := hsame states rfl
        have hbefore := hspaced.before_last hmem (hts ▸ hpast)
        rwa [hts] at hbefore
    · rw [hrows, Spaced, List.pairwise_append]
      refine and_congr_right fun _ => ?_
      constructor
      · rintro ⟨-, hcross⟩ row hrow
        exact Or.inr (hcross row hrow _ (List.mem_singleton_self _))
      · intro hlate
        refine ⟨List.pairwise_singleton _ _, fun row hrow row' hrow' => ?_⟩
        rw [List.mem_singleton.mp hrow']
        exact (hlate row hrow).resolve_left (hfree row hrow)

/-- The process reads an interval after every sample. -/
def Rested (interval : Interval) (s : State) : Prop :=
  ∀ wake, s.wake = some wake → ∀ row ∈ s.samples.rows, row.ts + interval.seconds ≤ ⌊wake⌋

theorem Rested.late (h : Rested interval s) (hnext : next interval s e = some s') :
    Late interval s e := by
  rcases next_cases hnext with ⟨-, -, -, hlate⟩ |
    ⟨t, finished, reading, wake, rfl, hwake, hle, -, rfl⟩
  · exact hlate
  · cases reading with
    | proxyDown => trivial
    | databaseDown => trivial
    | taken states =>
      exact fun row hrow => Or.inr ((h wake hwake row hrow).trans (Int.floor_le_floor hle))

/-- Once it has its statuses, whatever becomes of them, a process is rested. -/
theorem rested_of_taken (h : Ordered interval s) {t finished : ℚ} {states : List String}
    (hnext : next interval s (.read t finished (.taken states)) = some s') :
    Rested interval s' := by
  have hordered := h.next hnext
  obtain ⟨wake, -, hread⟩ := Option.bind_eq_some_iff.mp hnext
  split at hread
  · next hle =>
    obtain rfl := Option.some.inj hread
    intro wake' hwake' row hrow
    obtain rfl := Option.some.inj hwake'
    have hpast : row.ts ≤ ⌊t⌋ := hordered.past row hrow
    have hfinished : ⌊t⌋ ≤ ⌊finished⌋ := Int.floor_le_floor hle.2
    rw [Int.floor_add_natCast]
    omega
  · cases hread

theorem Rested.skipped (h : Rested interval s) {t finished : ℚ} {reading : Reading}
    (hnext : next interval s (.read t finished reading) = some s')
    (hkept : sampleOnce interval s.samples t reading = s.samples) : Rested interval s' := by
  obtain ⟨wake, hwake, hread⟩ := Option.bind_eq_some_iff.mp hnext
  split at hread
  · next hle =>
    obtain rfl := Option.some.inj hread
    intro wake' hwake' row hrow
    obtain rfl := Option.some.inj hwake'
    have hpos : (0 : ℚ) ≤ interval.seconds := Nat.cast_nonneg _
    have hlater : wake ≤ finished + interval.seconds := by linarith [hle.1, hle.2]
    rw [hkept] at hrow
    exact (h wake hwake row hrow).trans (Int.floor_le_floor hlater)
  · cases hread

theorem Rested.read (h : Rested interval s) {t finished : ℚ} {reading : Reading}
    (hs : Ordered interval s) (hnext : next interval s (.read t finished reading) = some s') :
    Rested interval s' := by
  cases reading with
  | taken states => exact rested_of_taken hs hnext
  | proxyDown => exact h.skipped hnext rfl
  | databaseDown => exact h.skipped hnext rfl

theorem runEvents_spaced_iff {es : List Event} (h : Ordered interval s)
    (hrun : runEvents (next interval) s es = some s') :
    Ordered interval s' ∧
      (Spaced interval s'.samples.rows ↔
        Spaced interval s.samples.rows ∧ AllLate interval s es) := by
  induction es generalizing s with
  | nil =>
    obtain rfl := Option.some.inj hrun
    exact ⟨h, (and_iff_left trivial).symm⟩
  | cons e es ih =>
    obtain ⟨s₁, hnext, hrest⟩ := Option.bind_eq_some_iff.mp hrun
    obtain ⟨hordered, hspaced⟩ := ih (h.next hnext) hrest
    refine ⟨hordered, ?_⟩
    rw [hspaced, spaced_next_iff h hnext, AllLate, hnext, and_assoc]

theorem claimed_eq (h : ∀ row ∈ rows, row.interval_s = interval.seconds) (p : Period) :
    claimed rows p = (rows.filter p.has).length * interval.seconds := by
  have hmap : (rows.filter p.has).map Sample.interval_s =
      List.replicate (rows.filter p.has).length interval.seconds := by
    rw [List.eq_replicate_iff, List.length_map]
    refine ⟨rfl, fun n hn => ?_⟩
    obtain ⟨row, hrow, rfl⟩ := List.mem_map.mp hn
    exact h row (List.mem_of_mem_filter hrow)
  rw [claimed, hmap, List.sum_replicate_nat]

/-- Instants of a period that lie a step apart. -/
theorem length_mul_le {step a b : ℚ} (hstep : 0 ≤ step) (hab : a ≤ b) {ts : List ℚ}
    (hspaced : ts.Pairwise fun x y => x + step ≤ y) (hin : ∀ x ∈ ts, a ≤ x ∧ x < b) :
    ts.length * step ≤ (b - a) + step := by
  induction ts generalizing a with
  | nil =>
    rw [List.length_nil, Nat.cast_zero, zero_mul]
    linarith
  | cons x ts ih =>
    obtain ⟨hnext, hrest⟩ := List.pairwise_cons.mp hspaced
    obtain ⟨⟨hax, hxb⟩, hin⟩ := List.forall_mem_cons.mp hin
    rw [List.length_cons, Nat.cast_succ, add_mul, one_mul]
    cases ts with
    | nil =>
      rw [List.length_nil, Nat.cast_zero, zero_mul]
      linarith
    | cons y ts =>
      have hlt := (hnext y List.mem_cons_self).trans (hin y List.mem_cons_self).2.le
      have hle := ih hlt hrest fun z hz => ⟨hnext z hz, (hin z hz).2⟩
      linarith

theorem Spaced.neverInvents (h : Spaced interval rows)
    (huniform : ∀ row ∈ rows, row.interval_s = interval.seconds) :
    NeverInvents interval rows := by
  intro p
  have hspaced : ((rows.filter p.has).map fun row => (row.ts : ℚ)).Pairwise
      fun x y => x + (interval.seconds : ℚ) ≤ y := by
    refine List.pairwise_map.mpr ((h.filter p.has).imp fun hle => ?_)
    exact_mod_cast hle
  have hin : ∀ x ∈ (rows.filter p.has).map fun row => (row.ts : ℚ), p.since ≤ x ∧ x < p.before := by
    intro x hx
    obtain ⟨row, hrow, rfl⟩ := List.mem_map.mp hx
    simpa [Period.has] using List.of_mem_filter hrow
  have hle := length_mul_le (Nat.cast_nonneg _) p.ordered hspaced hin
  rw [List.length_map] at hle
  rw [claimed_eq huniform, Nat.cast_mul]
  exact hle

/-- Two samples less than an interval apart claim more than a period around them has. -/
theorem NeverInvents.spaced (h : NeverInvents interval rows)
    (huniform : ∀ row ∈ rows, row.interval_s = interval.seconds)
    (hsorted : rows.Pairwise fun row row' => row.ts ≤ row'.ts) : Spaced interval rows := by
  refine List.pairwise_iff_forall_sublist.mpr fun {row row'} hsub => ?_
  have hle : row.ts ≤ row'.ts := List.pairwise_iff_forall_sublist.mp hsorted hsub
  by_contra hclose
  have hclose : (row'.ts : ℚ) < row.ts + interval.seconds := by exact_mod_cast not_le.mp hclose
  have hle : (row.ts : ℚ) ≤ row'.ts := by exact_mod_cast hle
  have hpos : (0 : ℚ) < interval.seconds := by exact_mod_cast interval.pos
  let p : Period :=
    { since := row.ts
      before := (row.ts + row'.ts + interval.seconds) / 2
      ordered := by linarith }
  have hboth : [row, row'].filter p.has = [row, row'] := by
    refine List.filter_eq_self.mpr fun r hr => ?_
    simp only [List.mem_cons, List.not_mem_nil, or_false] at hr
    simp only [Period.has, Bool.and_eq_true, decide_eq_true_eq, p]
    rcases hr with rfl | rfl
    · constructor <;> linarith
    · constructor <;> linarith
  have htwo := (hsub.filter p.has).length_le
  rw [hboth, List.length_cons, List.length_cons, List.length_nil] at htwo
  have hclaimed : 2 * interval.seconds ≤ claimed rows p := by
    rw [claimed_eq huniform]
    exact Nat.mul_le_mul_right _ htwo
  have hclaimed : (2 * interval.seconds : ℚ) ≤ claimed rows p := by exact_mod_cast hclaimed
  have hbound := h p
  simp only [p] at hbound hclaimed
  linarith

/-- The hours are never invented in exactly the runs whose readings are all late enough. -/
theorem neverInvents_iff (interval : Interval) (now : ℚ) (es : List Event) (s : State)
    (hrun : runEvents (next interval) (.init now) es = some s) :
    NeverInvents interval s.samples.rows ↔ AllLate interval (.init now) es := by
  obtain ⟨hordered, hspaced⟩ := runEvents_spaced_iff (ordered_init now) hrun
  have hinit : Spaced interval (State.init now).samples.rows := .nil
  rw [and_iff_right hinit] at hspaced
  rw [← hspaced]
  exact ⟨fun h => h.spaced hordered.uniform hordered.sorted,
    fun h => h.neverInvents hordered.uniform⟩

end Events

def minute : Interval := ⟨60, by decide⟩

def steadyRun : List Event :=
  [.start 0, .read (1 / 2) 1 (.taken ["free", "call"]), .read 62 63 .proxyDown,
    .read 124 124 (.taken ["idle"])]

theorem steadyRun_neverInvents : ∃ s, runEvents (next minute) (.init 0) steadyRun = some s ∧
    NeverInvents minute s.samples.rows := by
  obtain ⟨s, hs⟩ : ∃ s, runEvents (next minute) (.init 0) steadyRun = some s :=
    Option.isSome_iff_exists.mp (by decide +kernel)
  exact ⟨s, hs, (neverInvents_iff minute 0 steadyRun s hs).mpr (by decide +kernel)⟩

/-- The process is started again after half a minute. -/
def restartRun : List Event :=
  [.start 0, .read 0 0 (.taken ["call"]), .start 30, .read 30 30 (.taken ["call"])]

def firstSeconds : Period := ⟨0, 31, by decide +kernel⟩

theorem restart_invents : ∃ s, runEvents (next minute) (.init 0) restartRun = some s ∧
    ¬ NeverInvents minute s.samples.rows := by
  obtain ⟨s, hs⟩ : ∃ s, runEvents (next minute) (.init 0) restartRun = some s :=
    Option.isSome_iff_exists.mp (by decide +kernel)
  have hclaimed : (runEvents (next minute) (.init 0) restartRun).map
      (fun s => claimed s.samples.rows firstSeconds) = some 120 := by decide +kernel
  rw [hs, Option.map_some, Option.some_inj] at hclaimed
  refine ⟨s, hs, fun h => ?_⟩
  have hbound := h firstSeconds
  rw [hclaimed] at hbound
  simp only [firstSeconds, minute] at hbound
  norm_num at hbound

end PoolSampler
