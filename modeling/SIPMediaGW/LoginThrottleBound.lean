import Mathlib.Tactic.Linarith
import SIPMediaGW.ListCounting
import SIPMediaGW.LoginThrottle

/-! # How many wrong passwords an address may try

Between two clearings of an address, a check that passes has counted every failure of the
last `lockSeconds`; what it has not counted is still in progress. -/
namespace LoginThrottleBound

open LabelledExecutions
open ListCounting
open LoginThrottle

def inWindow (w t : ℚ) : Bool := decide (w ≤ t) && decide (t < w + lockSeconds)

/-- The verifications of an address started in the window that ended in failure. -/
def failedIn (s : System) (ip : String) (w : ℚ) : ℕ :=
  s.attempts.countP fun a => decide (a.ip = ip) &&
    (a.ended.any fun e => e.outcome == .failed) && a.startedAt.any (inWindow w)

def clearsIn (s : System) (ip : String) (w : ℚ) : ℕ := (s.clears ip).countP (inWindow w)

/-- The requests of an address between their check and their end. -/
def running (ip : String) (a : Attempt) : Bool := decide (a.ip = ip) && a.ended.isNone

def inProgress (s : System) (ip : String) : ℕ := s.attempts.countP (running ip)

/-- The failures an entry counts once it has been checked. -/
def known (s : System) (ip : String) : ℕ :=
  (((loginThrottled s.failures s.now ip).1 ip).map Prod.fst).getD 0

/-- A failure of the address, recorded since its last clearing. -/
structure FailedSince (ip : String) (clears : List ℚ) (a : Attempt) (e : Ending) : Prop where
  ip : a.ip = ip
  ended : a.ended = some e
  failed : e.outcome = .failed
  since : e.seen = clears.length

/-- A failure the entry must still count. -/
def counted (ip : String) (clears : List ℚ) (now : ℚ) (a : Attempt) : Bool :=
  decide (a.ip = ip) && a.ended.any fun e => e.outcome == .failed &&
    decide (e.seen = clears.length) && decide (now < e.endedAt + lockSeconds)

structure ValidEnding (now : ℚ) (clears : List ℚ) (a : Attempt) (e : Ending) : Prop where
  begun : ∃ t, a.startedAt = some t ∧ t ≤ e.endedAt
  past : e.endedAt ≤ now
  order : a.seen ≤ e.seen
  seen : e.seen ≤ clears.length
  after : ∀ c ∈ clears.drop e.seen, e.endedAt ≤ c

structure ValidAttempt (now : ℚ) (clears : List ℚ) (a : Attempt) : Prop where
  checked : a.checkedAt ≤ now
  begun : ∀ t, a.startedAt = some t → a.checkedAt ≤ t ∧ t ≤ now
  seen : a.seen ≤ clears.length
  before : ∀ c ∈ clears.take a.seen, c ≤ a.checkedAt
  ended : ∀ e, a.ended = some e → e.outcome = .failed → ValidEnding now clears a e

/-- What the entry of an address says about its attempts. -/
structure Counts (ip : String) (now : ℚ) (clears : List ℚ) (l : List Attempt)
    (entry : Option (ℕ × ℚ)) : Prop where
  unlocks : ∀ a ∈ l, ∀ e, FailedSince ip clears a e →
    e.endedAt + lockSeconds ≤ (entry.map Prod.snd).getD now
  covers : l.countP (counted ip clears now) ≤ (entry.map Prod.fst).getD 0

theorem failedSince_of_counted {ip : String} {clears : List ℚ} {now : ℚ} {a : Attempt}
    (h : counted ip clears now a = true) :
    ∃ e, FailedSince ip clears a e ∧ now < e.endedAt + lockSeconds := by
  obtain ⟨hip, hany⟩ := Bool.and_eq_true_iff.mp h
  obtain ⟨e, he, hboth⟩ := (Option.any_eq_true _ _).mp hany
  simp only [Bool.and_eq_true, beq_iff_eq, decide_eq_true_eq] at hip hboth
  exact ⟨e, ⟨hip, he, hboth.1.1, hboth.1.2⟩, hboth.2⟩

theorem counted_of_failedSince {ip : String} {clears : List ℚ} {now : ℚ} {a : Attempt}
    {e : Ending} (h : FailedSince ip clears a e) (hlate : now < e.endedAt + lockSeconds) :
    counted ip clears now a = true := by
  simp [counted, h.ip, h.ended, h.failed, h.since, hlate]

section Entries

variable {ip : String} {now : ℚ} {clears : List ℚ} {l : List Attempt}
variable {entry : Option (ℕ × ℚ)}

/-- An entry past its instant says nothing any more. -/
theorem Counts.expire {count : ℕ} {unlockAt : ℚ}
    (h : Counts ip now clears l (some (count, unlockAt))) (hold : unlockAt ≤ now) :
    Counts ip now clears l none := by
  have hunlocks : ∀ a ∈ l, ∀ e, FailedSince ip clears a e →
      e.endedAt + lockSeconds ≤ now :=
    fun a ha e he => (h.unlocks a ha e he).trans hold
  refine ⟨hunlocks, ?_⟩
  simp only [Option.map_none, Option.getD_none, Nat.le_zero, List.countP_eq_zero]
  intro a ha hcounted
  obtain ⟨e, he, hlate⟩ := failedSince_of_counted hcounted
  exact absurd (hunlocks a ha e he) (not_le.mpr hlate)

theorem Counts.withoutExpired (h : Counts ip now clears l entry) :
    Counts ip now clears l (entry.filter fun x => decide (now < x.2)) := by
  rcases entry with _ | ⟨count, unlockAt⟩
  · exact h
  · by_cases hold : now < unlockAt
    · simpa [Option.filter, hold] using h
    · simpa [Option.filter, hold] using h.expire (not_lt.mp hold)

theorem Counts.later {now' : ℚ} (h : Counts ip now clears l entry) (hle : now ≤ now') :
    Counts ip now' clears l entry := by
  constructor
  · intro a ha e he
    refine (h.unlocks a ha e he).trans ?_
    cases entry
    · exact hle
    · exact le_refl _
  · refine le_trans (List.countP_mono_left ?_) h.covers
    intro a _ hcounted
    obtain ⟨e, he, hlate⟩ := failedSince_of_counted hcounted
    exact counted_of_failedSince he (lt_of_le_of_lt hle hlate)

/-- A change of the list that adds no failure. -/
theorem Counts.replace {i : ℕ} {a b : Attempt} (h : Counts ip now clears l entry)
    (hi : l[i]? = some a) (hb : ∀ e, ¬ FailedSince ip clears b e) :
    Counts ip now clears (l.set i b) entry := by
  constructor
  · intro c hc e he
    rcases List.mem_or_eq_of_mem_set hc with hold | rfl
    · exact h.unlocks c hold e he
    · exact absurd he (hb e)
  · refine le_trans (countP_set_le hi ?_) h.covers
    intro hcounted
    obtain ⟨e, he, -⟩ := failedSince_of_counted hcounted
    exact absurd he (hb e)

theorem Counts.append {b : Attempt} (h : Counts ip now clears l entry)
    (hb : ∀ e, ¬ FailedSince ip clears b e) : Counts ip now clears (l ++ [b]) entry := by
  have hnot : counted ip clears now b = false := by
    by_contra hcounted
    obtain ⟨e, he, -⟩ := failedSince_of_counted (Bool.not_eq_false _ ▸ hcounted)
    exact hb e he
  constructor
  · intro c hc e he
    rcases List.mem_append.mp hc with hold | hnew
    · exact h.unlocks c hold e he
    · obtain rfl := List.mem_singleton.mp hnew
      exact absurd he (hb e)
  · simpa [hnot] using h.covers

/-- One failure more, and an entry that counts it. -/
theorem Counts.failed {i : ℕ} {b : Attempt} (h : Counts ip now clears l entry)
    (hpast : ∀ a ∈ l.set i b, ∀ e, FailedSince ip clears a e → e.endedAt ≤ now) :
    Counts ip now clears (l.set i b)
      (some ((entry.map Prod.fst).getD 0 + 1, now + lockSeconds)) := by
  constructor
  · intro a ha e he
    have := hpast a ha e he
    simp only [Option.map_some, Option.getD_some]
    linarith
  · have hset := countP_set_le_succ (p := counted ip clears now) l i b
    have := h.covers
    simp only [Option.map_some, Option.getD_some]
    omega

theorem Counts.cleared (later : List ℚ) (hl : ∀ a ∈ l, ∀ e, a.ended = some e →
    e.outcome = .failed → a.ip = ip → e.seen < later.length) :
    Counts ip now later l none := by
  constructor
  · intro a ha e he
    have := hl a ha e he.ended he.failed he.ip
    exact absurd he.since (by omega)
  · simp only [Option.map_none, Option.getD_none, Nat.le_zero, List.countP_eq_zero]
    intro a ha hcounted
    obtain ⟨e, he, -⟩ := failedSince_of_counted hcounted
    have := hl a ha e he.ended he.failed he.ip
    exact absurd he.since (by omega)

/-- What the entry counts once a check has passed covers the failures. -/
theorem Counts.of_open {failures : Failures} (h : Counts ip now clears l (failures ip))
    (hopen : (loginThrottled failures now ip).2 = false) :
    Counts ip now clears l ((loginThrottled failures now ip).1 ip) := by
  simp only [loginThrottled] at hopen ⊢
  split at hopen
  · rename_i hnone
    rw [hnone] at h
    simpa only [hnone] using h
  · rename_i count unlockAt hsome
    rw [hsome] at h
    split at hopen
    · rename_i hlow
      simpa only [hsome, if_pos hlow] using h
    · rename_i hhigh
      split at hopen
      · rename_i hold
        simpa only [if_neg hhigh, if_pos hold, Function.update_self] using h.expire hold
      · cases hopen

end Entries

/-- A request that may end as a failure started in the window. -/
def candidate (ip : String) (w : ℚ) (a : Attempt) : Bool :=
  decide (a.ip = ip) && decide (a.checkedAt < w + lockSeconds) &&
    (a.ended.all fun e => e.outcome == .failed) && a.startedAt.all (inWindow w)

/-- How many clearings of the address the window holds before this request's check. -/
def group (clears : List ℚ) (w : ℚ) (a : Attempt) : ℕ :=
  a.seen - clears.countP fun c => decide (c < w)

def grouped (ip : String) (clears : List ℚ) (w : ℚ) (j : ℕ) (a : Attempt) : Bool :=
  candidate ip w a && decide (group clears w a = j)

structure Invariant (ip : String) (m : ℕ) (s : System) : Prop where
  past : ∀ c ∈ s.clears ip, c ≤ s.now
  valid : ∀ a ∈ s.attempts, a.ip = ip → ValidAttempt s.now (s.clears ip) a
  counts : Counts ip s.now (s.clears ip) s.attempts (s.failures ip)
  few : inProgress s ip ≤ m
  groups : ∀ w j, s.attempts.countP (grouped ip (s.clears ip) w j) ≤ m

theorem candidate_iff {ip : String} {w : ℚ} {a : Attempt} : candidate ip w a = true ↔
    a.ip = ip ∧ a.checkedAt < w + lockSeconds ∧ (∀ e, a.ended = some e → e.outcome = .failed) ∧
      ∀ t, a.startedAt = some t → w ≤ t ∧ t < w + lockSeconds := by
  simp only [candidate, inWindow, Bool.and_eq_true, decide_eq_true_eq, Option.all_eq_true,
    beq_iff_eq, and_assoc]

theorem ValidAttempt.later {now now' : ℚ} {clears : List ℚ} {a : Attempt}
    (h : ValidAttempt now clears a) (hle : now ≤ now') : ValidAttempt now' clears a where
  checked := h.checked.trans hle
  begun t ht := ⟨(h.begun t ht).1, (h.begun t ht).2.trans hle⟩
  seen := h.seen
  before := h.before
  ended e he hfailed :=
    { h.ended e he hfailed with past := (h.ended e he hfailed).past.trans hle }

theorem ValidAttempt.cleared {now : ℚ} {clears : List ℚ} {a : Attempt}
    (h : ValidAttempt now clears a) : ValidAttempt now (clears ++ [now]) a where
  checked := h.checked
  begun := h.begun
  seen := by
    have := h.seen
    simp only [List.length_append, List.length_singleton]
    omega
  before := by
    rw [List.take_append_of_le_length h.seen]
    exact h.before
  ended e he hfailed := by
    have hv := h.ended e he hfailed
    refine ⟨hv.begun, hv.past, hv.order, ?_, ?_⟩
    · have := hv.seen
      simp only [List.length_append, List.length_singleton]
      omega
    · rw [List.drop_append_of_le_length hv.seen]
      intro c hc
      rcases List.mem_append.mp hc with hold | hnew
      · exact hv.after c hold
      · obtain rfl := List.mem_singleton.mp hnew
        exact hv.past

section Steps

variable {ip : String} {m : ℕ} {s : System} {i : ℕ} {a b : Attempt}

/-- What an attempt of the current group is when a check passes: in progress or counted. -/
theorem running_or_counted {w : ℚ} {j : ℕ} (hv : ValidAttempt s.now (s.clears ip) a)
    (hnow : s.now < w + lockSeconds)
    (hj : (s.clears ip).length - (s.clears ip).countP (fun c => decide (c < w)) = j)
    (h : grouped ip (s.clears ip) w j a = true) :
    running ip a = true ∨ counted ip (s.clears ip) s.now a = true := by
  simp only [grouped, Bool.and_eq_true, decide_eq_true_eq, candidate_iff] at h
  obtain ⟨⟨hip, -, hfailed, hstarted⟩, hgroup⟩ := h
  rcases he : a.ended with _ | e
  · left
    simp [running, hip, he]
  · right
    have hend := hv.ended e he (hfailed e he)
    obtain ⟨t, ht, hte⟩ := hend.begun
    have hwt := (hstarted t ht).1
    refine counted_of_failedSince ⟨hip, he, hfailed e he, ?_⟩ (by linarith)
    -- no clearing since the failure: it would lie in the window, before this check
    by_contra hne
    have hlt : e.seen < (s.clears ip).length := lt_of_le_of_ne hend.seen hne
    have hsome : (s.clears ip)[e.seen] ∈ (s.clears ip).drop e.seen := by
      rw [List.drop_eq_getElem_cons hlt]
      exact List.mem_cons_self
    have hafter := hend.after _ hsome
    have hmem : (s.clears ip)[e.seen] ∈ s.clears ip := List.getElem_mem hlt
    have hbefore : (s.clears ip).countP (fun c => decide (c < w)) < (s.clears ip).length := by
      rw [List.countP_lt_length_iff]
      exact ⟨_, hmem, by simpa using hwt.trans (hte.trans hafter)⟩
    have := hend.order
    rw [group] at hgroup
    omega

/-- A new attempt of the address, its check just passed. -/
theorem groups_passed (hs : Invariant ip m s) (route : Route)
    (hopen : (loginThrottled s.failures s.now ip).2 = false)
    (hroom : known s ip + inProgress s ip < m) (w : ℚ) (j : ℕ) :
    (passedCheck s ip route).attempts.countP (grouped ip (s.clears ip) w j) ≤ m := by
  have hgroups := hs.groups w j
  simp only [passedCheck, List.countP_append, List.countP_singleton]
  split
  · rename_i hnew
    simp only [grouped, Bool.and_eq_true, candidate_iff, group] at hnew
    obtain ⟨⟨-, hnow, -, -⟩, hj⟩ := hnew
    replace hj := of_decide_eq_true hj
    have hsplit : s.attempts.countP (grouped ip (s.clears ip) w j) ≤
        inProgress s ip + s.attempts.countP (counted ip (s.clears ip) s.now) := by
      apply countP_le_add
      intro a ha hgrouped
      have hip : a.ip = ip := by
        simp only [grouped, Bool.and_eq_true, candidate_iff] at hgrouped
        exact hgrouped.1.1
      exact running_or_counted (hs.valid a ha hip) hnow hj hgrouped
    have hcounted := (hs.counts.of_open hopen).covers
    rw [known] at hroom
    omega
  · simpa using hgroups

theorem invariant_passed (hs : Invariant ip m s) (route : Route)
    (hopen : (loginThrottled s.failures s.now ip).2 = false)
    (hroom : known s ip + inProgress s ip < m) : Invariant ip m (passedCheck s ip route) where
  past := hs.past
  valid := by
    intro a ha hip
    rcases List.mem_append.mp ha with hold | hnew
    · exact hs.valid a hold hip
    · obtain rfl := List.mem_singleton.mp hnew
      exact ⟨le_refl _, fun t ht => (nomatch ht), le_refl _,
        fun c hc => hs.past c (List.mem_of_mem_take hc), fun e he => (nomatch he)⟩
  counts := (hs.counts.of_open hopen).append fun e he => (nomatch he.ended)
  few := by
    simp only [inProgress, passedCheck, List.countP_append, List.countP_singleton]
    rw [inProgress] at hroom
    split <;> omega
  groups := groups_passed hs route hopen hroom

theorem loginThrottled_other (failures : Failures) (now : ℚ) {other : String}
    (h : other ≠ ip) : (loginThrottled failures now other).1 ip = failures ip := by
  simp only [loginThrottled]
  split
  · rfl
  · split
    · rfl
    · split
      · exact Function.update_of_ne (Ne.symm h) _ _
      · rfl

theorem invariant_passed_other (hs : Invariant ip m s) {other : String} (route : Route)
    (h : other ≠ ip) : Invariant ip m (passedCheck s other route) where
  past := hs.past
  valid := by
    intro a ha hip
    rcases List.mem_append.mp ha with hold | hnew
    · exact hs.valid a hold hip
    · obtain rfl := List.mem_singleton.mp hnew
      exact absurd hip h
  counts := by
    have happend := hs.counts.append
      (b := ⟨other, route, s.now, (s.clears other).length, none, none⟩)
      fun e he => (nomatch he.ended)
    simpa only [passedCheck, loginThrottled_other s.failures s.now h] using happend
  few := by simpa [inProgress, passedCheck, running, h] using hs.few
  groups := by
    intro w j
    simpa [passedCheck, grouped, candidate, h] using hs.groups w j

/-- How an attempt may change: it starts, or it ends. -/
structure Moves (ip : String) (now : ℚ) (clears : List ℚ) (a b : Attempt) : Prop where
  running : a.ended = none
  same : b.ip = a.ip ∧ b.seen = a.seen
  valid : b.ip = ip → ValidAttempt now clears b
  candidate : ∀ w, candidate ip w b = true → candidate ip w a = true

theorem valid_replace (hs : Invariant ip m s) (hm : Moves ip s.now (s.clears ip) a b) :
    ∀ c ∈ (s.replace i b).attempts, c.ip = ip → ValidAttempt s.now (s.clears ip) c := by
  intro c hc hip
  rcases List.mem_or_eq_of_mem_set hc with hold | rfl
  · exact hs.valid c hold hip
  · exact hm.valid hip

theorem few_replace (hs : Invariant ip m s) (hi : s.attempts[i]? = some a)
    (hm : Moves ip s.now (s.clears ip) a b) : inProgress (s.replace i b) ip ≤ m := by
  refine le_trans (countP_set_le hi ?_) hs.few
  intro hb
  simp only [LoginThrottleBound.running, Bool.and_eq_true, hm.same.1] at hb
  simp [LoginThrottleBound.running, hb.1, hm.running]

theorem groups_replace (hs : Invariant ip m s) (hi : s.attempts[i]? = some a)
    (hm : Moves ip s.now (s.clears ip) a b) (w : ℚ) (j : ℕ) :
    (s.replace i b).attempts.countP (grouped ip (s.clears ip) w j) ≤ m := by
  refine le_trans (countP_set_le hi ?_) (hs.groups w j)
  intro hb
  simp only [grouped, Bool.and_eq_true, group, hm.same.2] at hb ⊢
  exact ⟨hm.candidate w hb.1, hb.2⟩

theorem invariant_replace (hs : Invariant ip m s) (hi : s.attempts[i]? = some a)
    (hm : Moves ip s.now (s.clears ip) a b) (hb : ∀ e, ¬ FailedSince ip (s.clears ip) b e) :
    Invariant ip m (s.replace i b) :=
  ⟨hs.past, valid_replace hs hm, hs.counts.replace hi hb, few_replace hs hi hm,
    groups_replace hs hi hm⟩

theorem moves_start (hs : Invariant ip m s) (hi : s.attempts[i]? = some a)
    (idle : a.startedAt = none) (hrunning : a.ended = none) :
    Moves ip s.now (s.clears ip) a { a with startedAt := some s.now } where
  running := hrunning
  same := ⟨rfl, rfl⟩
  valid hip := by
    have hv := hs.valid a (List.mem_of_getElem? hi) hip
    refine ⟨hv.checked, ?_, hv.seen, hv.before, ?_⟩
    · intro t ht
      obtain rfl := Option.some.inj ht
      exact ⟨hv.checked, le_refl _⟩
    · intro e he
      rw [hrunning] at he
      cases he
  candidate w hb := by
    rw [candidate_iff] at hb ⊢
    refine ⟨hb.1, hb.2.1, hb.2.2.1, ?_⟩
    intro t ht
    rw [idle] at ht
    cases ht

theorem moves_close (hs : Invariant ip m s) (hi : s.attempts[i]? = some a)
    (hrunning : a.ended = none) {outcome : Outcome}
    (hbegun : outcome = .failed → ∃ t, a.startedAt = some t) :
    Moves ip s.now (s.clears ip) a (a.close outcome s.now (s.clears a.ip).length) where
  running := hrunning
  same := ⟨rfl, rfl⟩
  valid hip := by
    have hv := hs.valid a (List.mem_of_getElem? hi) hip
    refine ⟨hv.checked, hv.begun, hv.seen, hv.before, ?_⟩
    intro e he hfailed
    obtain rfl := Option.some.inj he
    obtain ⟨t, ht⟩ := hbegun hfailed
    have hip' : a.ip = ip := hip
    refine ⟨⟨t, ht, (hv.begun t ht).2⟩, le_refl _, ?_, ?_, ?_⟩
    · rw [hip']
      exact hv.seen
    · simp only [hip', le_refl]
    · simp only [hip', List.drop_length, List.not_mem_nil, false_implies, implies_true]
  candidate w hb := by
    rw [candidate_iff] at hb ⊢
    refine ⟨hb.1, hb.2.1, ?_, hb.2.2.2⟩
    intro e he
    rw [hrunning] at he
    cases he

theorem not_failedSince_close {outcome : Outcome} (h : outcome ≠ .failed) {clears : List ℚ}
    {now : ℚ} {seen : ℕ} (e : Ending) :
    ¬ FailedSince ip clears (a.close outcome now seen) e := by
  intro he
  obtain rfl := Option.some.inj he.ended
  exact h he.failed

theorem invariant_failed (hs : Invariant ip m s) (hi : s.attempts[i]? = some a) {t : ℚ}
    (begun : a.startedAt = some t) (hrunning : a.ended = none) :
    Invariant ip m (finishFailed s i a) := by
  have hm : Moves ip s.now (s.clears ip) a (a.close .failed s.now (s.clears a.ip).length) :=
    moves_close hs hi hrunning fun _ => ⟨t, begun⟩
  refine ⟨hs.past, valid_replace hs hm, ?_, few_replace hs hi hm, groups_replace hs hi hm⟩
  have hkept := hs.counts.withoutExpired
  by_cases hip : a.ip = ip
  · have hpast : ∀ c ∈ (s.attempts.set i (a.close .failed s.now (s.clears a.ip).length)),
        ∀ e, FailedSince ip (s.clears ip) c e → e.endedAt ≤ s.now :=
      fun c hc e he => ((valid_replace hs hm c hc he.ip).ended e he.ended he.failed).past
    have hcount := hkept.failed hpast
    simpa [finishFailed, recordLoginFailure, hip, withoutExpired, System.replace] using hcount
  · have hreplace := hkept.replace (b := a.close .failed s.now (s.clears a.ip).length) hi
      fun e he => hip he.ip
    simpa [finishFailed, recordLoginFailure, Ne.symm hip, withoutExpired, System.replace]
      using hreplace

/-- What is left of the groups once the address is cleared: with the window not begun, only
requests in progress; else the same groups. -/
theorem groups_cleared (hs : Invariant ip m s) (w : ℚ) (j : ℕ) :
    s.attempts.countP (grouped ip (s.clears ip ++ [s.now]) w j) ≤ m := by
  by_cases hw : s.now < w
  · refine le_trans (List.countP_mono_left ?_) hs.few
    intro c hc hgrouped
    simp only [grouped, Bool.and_eq_true, candidate_iff] at hgrouped
    obtain ⟨⟨hip, -, hfailed, hstarted⟩, -⟩ := hgrouped
    rcases he : c.ended with _ | e
    · simp [running, hip, he]
    · have hend := (hs.valid c hc hip).ended e he (hfailed e he)
      obtain ⟨t, ht, hte⟩ := hend.begun
      have hwt := (hstarted t ht).1
      exact absurd (hwt.trans (hte.trans hend.past)) (not_le.mpr hw)
  · have hbefore : (s.clears ip ++ [s.now]).countP (fun c => decide (c < w)) =
        (s.clears ip).countP fun c => decide (c < w) := by
      simp [hw]
    have hsame : grouped ip (s.clears ip ++ [s.now]) w j = grouped ip (s.clears ip) w j := by
      funext c
      rw [grouped, grouped, group, group, hbefore]
    rw [hsame]
    exact hs.groups w j

theorem invariant_cleared (hs : Invariant ip m s) : Invariant ip m (s.clearAddress ip) := by
  have hclears : (s.clearAddress ip).clears ip = s.clears ip ++ [s.now] :=
    Function.update_self _ _ _
  have hnone : (s.clearAddress ip).failures ip = none := Function.update_self _ _ _
  refine ⟨?_, ?_, ?_, hs.few, ?_⟩
  · intro c hc
    rw [hclears] at hc
    rcases List.mem_append.mp hc with hold | hnew
    · exact hs.past c hold
    · exact (List.mem_singleton.mp hnew).le
  · intro c hc hip
    rw [hclears]
    exact (hs.valid c hc hip).cleared
  · rw [hclears, hnone]
    apply Counts.cleared _
    intro c hc e he hfailed hip
    have hseen := ((hs.valid c hc hip).ended e he hfailed).seen
    rw [List.length_append, List.length_singleton]
    exact Nat.lt_succ_of_le hseen
  · intro w j
    rw [hclears]
    exact groups_cleared hs w j

theorem invariant_cleared_other (hs : Invariant ip m s) {other : String} (h : other ≠ ip) :
    Invariant ip m (s.clearAddress other) := by
  have hclears : (s.clearAddress other).clears ip = s.clears ip :=
    Function.update_of_ne (Ne.symm h) _ _
  have hentry : (s.clearAddress other).failures ip = s.failures ip :=
    Function.update_of_ne (Ne.symm h) _ _
  refine ⟨?_, ?_, ?_, hs.few, ?_⟩
  · rw [hclears]
    exact hs.past
  · rw [hclears]
    exact hs.valid
  · rw [hclears, hentry]
    exact hs.counts
  · rw [hclears]
    exact hs.groups

theorem invariant_succeeded (hs : Invariant ip m s) (hi : s.attempts[i]? = some a)
    (hrunning : a.ended = none) : Invariant ip m (finishSucceeded s i a) := by
  have hm : Moves ip s.now (s.clears ip) a
      (a.close .succeeded s.now (s.clears a.ip).length) :=
    moves_close hs hi hrunning fun h => (nomatch h)
  have hsame := invariant_replace hs hi hm (not_failedSince_close (by decide))
  rw [finishSucceeded]
  split
  · by_cases hip : a.ip = ip
    · rw [hip] at hsame ⊢
      exact invariant_cleared hsame
    · exact invariant_cleared_other hsame hip
  · exact hsame

end Steps

/-- A check that passes leaves room: the failures counted and the requests of the address still
in progress are fewer than `m`. -/
def room (ip : String) (m : ℕ) (s : System) : Event → Bool
  | .check other _ => decide (other ≠ ip) || (loginThrottled s.failures s.now ip).2 ||
      decide (known s ip + inProgress s ip < m)
  | _ => true

theorem invariant_step {ip : String} {m : ℕ} {s t : System} {e : Event}
    (hs : Invariant ip m s) (hp : room ip m s e = true) (h : Step s e t) :
    Invariant ip m t := by
  cases step_effect h with
  | ticked d later =>
    have hle : s.now ≤ s.now + d := by linarith
    exact ⟨fun c hc => (hs.past c hc).trans hle, fun a ha hip => (hs.valid a ha hip).later hle,
      hs.counts.later hle, hs.few, hs.groups⟩
  | throttled => exact hs
  | passed other route hopen =>
    by_cases hip : other = ip
    · subst hip
      exact invariant_passed hs route hopen (by simpa [room, hopen] using hp)
    · exact invariant_passed_other hs route hip
  | refused i a hi idle hrunning =>
    exact invariant_replace hs hi (moves_close hs hi hrunning fun h => (nomatch h))
      (not_failedSince_close (by decide))
  | started i a hi idle hrunning =>
    apply invariant_replace hs hi (moves_start hs hi idle hrunning)
    intro e he
    have hended : a.ended = some e := he.ended
    rw [hrunning] at hended
    cases hended
  | failed i a t hi begun hrunning => exact invariant_failed hs hi begun hrunning
  | succeeded i a t hi begun hrunning => exact invariant_succeeded hs hi hrunning

theorem invariant_quiet (ip : String) (m : ℕ) (now : ℚ) : Invariant ip m (quiet now) := by
  constructor
  · intro c hc
    cases hc
  · intro a ha
    cases ha
  · constructor
    · intro a ha
      cases ha
    · exact le_refl _
  · exact Nat.zero_le _
  · intro w j
    exact Nat.zero_le _

/-- The clearings before a check of the window are before the window or in it. -/
theorem group_le_clearsIn {ip : String} {m : ℕ} {s : System} (hs : Invariant ip m s) {w : ℚ}
    {a : Attempt} (ha : a ∈ s.attempts) (h : candidate ip w a = true) :
    group (s.clears ip) w a ≤ clearsIn s ip w := by
  obtain ⟨hip, hnow, -, -⟩ := candidate_iff.mp h
  have hv := hs.valid a ha hip
  have hsub : ((s.clears ip).take a.seen).Sublist (s.clears ip) := List.take_sublist _ _
  have hlength : ((s.clears ip).take a.seen).countP (fun _ => true) = a.seen := by
    rw [List.countP_true, List.length_take, Nat.min_eq_left hv.seen]
  have hsplit : ((s.clears ip).take a.seen).countP (fun _ => true) ≤
      ((s.clears ip).take a.seen).countP (fun c => decide (c < w)) +
        ((s.clears ip).take a.seen).countP (inWindow w) := by
    apply countP_le_add
    intro c hc _
    have hbefore := lt_of_le_of_lt (hv.before c hc) hnow
    by_cases hcw : c < w
    · exact .inl (by simpa using hcw)
    · exact .inr (by simp [inWindow, not_lt.mp hcw, hbefore])
  have hfirst := hsub.countP_le (p := fun c => decide (c < w))
  have hsecond := hsub.countP_le (p := inWindow w)
  rw [group, clearsIn]
  omega

/-- At most `maxFailures` wrong passwords in any window of `lockSeconds`. -/
def ThrottleBound : Prop :=
  ∀ now s, Execution Step (quiet now) s → ∀ ip w, failedIn s ip w ≤ maxFailures

/-- In every run that leaves room for `m`, a window with `k` sign-ins of the address holds at most
`k + 1` times `m` failed verifications. -/
theorem failures_bounded {ip : String} {m : ℕ} {s : System} (hs : Invariant ip m s) (w : ℚ) :
    failedIn s ip w ≤ (clearsIn s ip w + 1) * m := by
  have hcandidates : failedIn s ip w ≤ s.attempts.countP (candidate ip w) := by
    apply List.countP_mono_left
    intro a ha hfailed
    simp only [Bool.and_eq_true, decide_eq_true_eq, Option.any_eq_true, beq_iff_eq, inWindow]
      at hfailed
    obtain ⟨⟨hip, e, he, hout⟩, t, ht, hwt⟩ := hfailed
    refine candidate_iff.mpr ⟨hip, ?_, ?_, ?_⟩
    · exact lt_of_le_of_lt ((hs.valid a ha hip).begun t ht).1 hwt.2
    · intro e' he'
      rw [he] at he'
      rwa [← Option.some.inj he']
    · intro t' ht'
      rw [ht] at ht'
      rwa [← Option.some.inj ht']
  exact hcandidates.trans
    (countP_le_groups (group (s.clears ip) w) (fun a ha => group_le_clearsIn hs ha) (hs.groups w))

/-- Requests one after the other leave room. -/
theorem room_of_none_inProgress {ip : String} {s : System} (hnone : inProgress s ip = 0)
    (e : Event) : room ip maxFailures s e = true := by
  cases e with
  | check other route =>
    simp only [room, Bool.or_eq_true, decide_eq_true_eq, hnone, add_zero]
    cases hopen : (loginThrottled s.failures s.now ip).2 with
    | true => exact .inl (.inr rfl)
    | false =>
      refine .inr ?_
      simp only [known, loginThrottled] at hopen ⊢
      split at hopen
      · rename_i hfree
        simp [hfree, maxFailures]
      · rename_i count unlockAt hsome
        split at hopen
        · rename_i hlow
          simpa only [hsome, if_pos hlow, Option.map_some, Option.getD_some] using hlow
        · rename_i hhigh
          split at hopen
          · rename_i hold
            rw [if_neg hhigh, if_pos hold]
            dsimp only
            rw [Function.update_self]
            decide
          · cases hopen
  | tick => rfl
  | refuse => rfl
  | start => rfl
  | finish => rfl

/-- A sign-in of the address within a window. -/
def signsIn (ip : String) (w : ℚ) (s : System) : Event → Bool
  | .finish i true => inWindow w s.now &&
      (s.attempts[i]?).any fun a => decide (a.ip = ip) && decide (a.route = .login)
  | _ => false

/-- The steps that keep the throttle: a check leaves room, and no sign-in of the address is in the
window. -/
def orderly (ip : String) (w : ℚ) (s : System) (e : Event) : Bool :=
  room ip maxFailures s e && ! signsIn ip w s e

theorem clearsIn_clearAddress {s : System} {ip other : String} {w : ℚ}
    (h : ip = other → inWindow w s.now = false) :
    clearsIn (s.clearAddress other) ip w = clearsIn s ip w := by
  by_cases hip : ip = other
  · subst hip
    have hclears : (s.clearAddress ip).clears ip = s.clears ip ++ [s.now] :=
      Function.update_self _ _ _
    rw [clearsIn, hclears, List.countP_append, List.countP_singleton, h rfl]
    rfl
  · have hclears : (s.clearAddress other).clears ip = s.clears ip :=
      Function.update_of_ne hip _ _
    rw [clearsIn, hclears, clearsIn]

theorem clearsIn_step {ip : String} {w : ℚ} {s t : System} {e : Event}
    (hnone : clearsIn s ip w = 0) (hp : signsIn ip w s e = false) (h : Step s e t) :
    clearsIn t ip w = 0 := by
  cases step_effect h with
  | succeeded i a t hi begun hrunning =>
    rw [finishSucceeded]
    split
    · next hroute =>
      rw [clearsIn_clearAddress]
      · exact hnone
      · rintro rfl
        have hlate : inWindow w s.now = false := by simpa [signsIn, hi, hroute] using hp
        exact hlate
    · exact hnone
  | _ => exact hnone

/-- Where checks leave room, a window in which the address does not sign in holds at most
`maxFailures` failed verifications. -/
theorem throttle_bounds (ip : String) (w now : ℚ) {s : System}
    (h : Execution (Guarded (fun u e => orderly ip w u e = true) Step) (quiet now) s) :
    failedIn s ip w ≤ maxFailures := by
  have hboth : Invariant ip maxFailures s ∧ clearsIn s ip w = 0 := by
    apply h.guarded_invariant _ ⟨invariant_quiet ip maxFailures now, rfl⟩
    rintro u e t ⟨hinvariant, hnone⟩ hp hstep
    obtain ⟨hroom, hsign⟩ := Bool.and_eq_true_iff.mp hp
    rw [Bool.not_eq_true'] at hsign
    exact ⟨invariant_step hinvariant hroom hstep, clearsIn_step hnone hsign hstep⟩
  have hbound := failures_bounded hboth.1 w
  rwa [hboth.2, zero_add, one_mul] at hbound

/-- One request from its check to its answer; `i` requests came before it. -/
def oneRequest (ok : Bool) (i : ℕ) : List Event :=
  [.check "192.0.2.7" .login, .start i, .finish i ok]

/-- Requests whose checks all come first. -/
def atOnce (n : ℕ) : List Event :=
  List.replicate n (.check "192.0.2.7" .login) ++
    (List.range n).flatMap fun i => [.start i, .finish i false]

/-- Two wrong passwords, two more at once, and one that waits: the sixth is refused. -/
def guessRun : List Event :=
  (List.range 2).flatMap (oneRequest false) ++
    [.check "192.0.2.7" .login, .check "192.0.2.7" .ownPassword, .start 2, .start 3,
      .finish 3 false, .finish 2 false] ++ oneRequest false 4 ++
    [.check "192.0.2.7" .login, .tick 60] ++ oneRequest true 5

theorem guesses_with_room_are_bounded :
    ∃ s, runEvents (guardedNext (orderly "192.0.2.7" 0) next) (quiet 0) guessRun = some s ∧
      failedIn s "192.0.2.7" 0 ≤ maxFailures := by
  have hrun : (runEvents (guardedNext (orderly "192.0.2.7" 0) next) (quiet 0) guessRun).isSome =
      true := by decide +kernel
  obtain ⟨s, hs⟩ := Option.isSome_iff_exists.mp hrun
  exact ⟨s, hs, throttle_bounds "192.0.2.7" 0 0 (runEvents_guarded hs)⟩

/-- Six requests pass their checks before the first failure is recorded. -/
theorem overlapping_guesses_exceed : ¬ ThrottleBound := by
  intro h
  have hrun : (runEvents next (quiet 0) (atOnce 6)).map (fun s => failedIn s "192.0.2.7" 0) =
      some 6 := by decide +kernel
  obtain ⟨s, hs, hcount⟩ := Option.map_eq_some_iff.mp hrun
  have hbound := h 0 s (runEvents_execution hs) "192.0.2.7" 0
  rw [hcount] at hbound
  exact absurd hbound (by decide)

/-- A sign-in clears the count: eight wrong passwords in one instant, one after the other. -/
example : (runEvents next (quiet 0) ((List.range 4).flatMap (oneRequest false) ++
    oneRequest true 4 ++ ((List.range 4).map (· + 5)).flatMap (oneRequest false))).map
      (fun s => failedIn s "192.0.2.7" 0) = some 8 := by
  decide +kernel

end LoginThrottleBound
