import Mathlib.Tactic.Linarith
import SIPMediaGW.CodeTries

/-! # How many pairing codes an address may guess

Between two expirations the counter of an address counts every lookup of an unknown code, as long
as each is made under the address itself and on a check that still holds. -/
namespace CodeTryBound

open CodeTries
open LabelledExecutions

/-- The counter of an address has counted its lookups since it last expired. -/
structure Invariant (limit : ℤ) (ip : String) (s : Tries) : Prop where
  past : ∀ n, (ip, n) ∈ s.lookups → n ≤ s.expirations ip
  counted : lookupsIn s ip (s.expirations ip) ≤ s.value ip
  limited : ∀ n, (lookupsIn s ip n : ℤ) ≤ limit

section Operations

variable {limit : ℤ} {ip : String} {s : Tries}

theorem value_incr_self (s : Tries) (ip : String) : (s.incr ip).value ip = s.value ip + 1 := by
  simp [Tries.value, Tries.incr]

theorem value_incr_of_ne {key : String} (h : key ≠ ip) : (s.incr key).value ip = s.value ip := by
  simp [Tries.value, Tries.incr, Function.update_of_ne (Ne.symm h)]

theorem Invariant.incr (hs : Invariant limit ip s) (key : String) :
    Invariant limit ip (s.incr key) where
  past := hs.past
  counted := by
    have hcounted : lookupsIn s ip (s.expirations ip) ≤ s.value ip := hs.counted
    change lookupsIn s ip (s.expirations ip) ≤ (s.incr key).value ip
    by_cases hkey : key = ip
    · rw [hkey, value_incr_self]
      omega
    · rw [value_incr_of_ne hkey]
      exact hcounted
  limited := hs.limited

theorem lookupsIn_succ_expirations (hs : Invariant limit ip s) :
    lookupsIn s ip (s.expirations ip + 1) = 0 := by
  apply List.count_eq_zero_of_not_mem
  intro hmem
  have := hs.past _ hmem
  omega

/-- The counter of the address expires. -/
theorem Invariant.expiration {t : Tries} (hs : Invariant limit ip s)
    (hlookups : t.lookups = s.lookups) (hexpirations : t.expirations ip = s.expirations ip + 1) :
    Invariant limit ip t where
  past n hn := by
    rw [hlookups] at hn
    have := hs.past n hn
    omega
  counted := by
    have hzero := lookupsIn_succ_expirations hs
    rw [lookupsIn] at hzero
    rw [lookupsIn, hlookups, hexpirations, hzero]
    exact Nat.zero_le _
  limited n := by
    rw [lookupsIn, hlookups]
    exact hs.limited n

/-- The counter of the address stays. -/
theorem Invariant.same {t : Tries} (hs : Invariant limit ip s) (hlookups : t.lookups = s.lookups)
    (hexpirations : t.expirations ip = s.expirations ip) (hvalue : t.value ip = s.value ip) :
    Invariant limit ip t where
  past := by
    rw [hlookups, hexpirations]
    exact hs.past
  counted := by
    rw [lookupsIn, hlookups, hexpirations, hvalue]
    exact hs.counted
  limited n := by
    rw [lookupsIn, hlookups]
    exact hs.limited n

theorem Invariant.expire (hs : Invariant limit ip s) (key : String) (seconds : ℤ) :
    Invariant limit ip (s.expire key seconds) := by
  rw [Tries.expire]
  split
  · by_cases hkey : key = ip
    · subst hkey
      exact hs.expiration rfl (Function.update_self _ _ _)
    · have hne := Ne.symm hkey
      exact hs.same rfl (Function.update_of_ne hne _ _)
        (by simp [Tries.value, Tries.remove, Function.update_of_ne hne])
  · refine hs.same rfl rfl ?_
    by_cases hkey : key = ip
    · simp [Tries.value, hkey]
    · simp [Tries.value, Function.update_of_ne (Ne.symm hkey)]

theorem Invariant.advance (hs : Invariant limit ip s) (d : ℚ) :
    Invariant limit ip (s.advance d) := by
  cases hgone : (s.counters ip).any (expired (s.now + d)) with
  | true =>
    refine hs.expiration rfl ?_
    simp [Tries.advance, hgone]
  | false =>
    have hkept : (s.counters ip).filter (fun counter => !expired (s.now + d) counter) =
        s.counters ip := by
      cases hcounter : s.counters ip with
      | none => rfl
      | some counter =>
        rw [hcounter, Option.any_some] at hgone
        rw [Option.filter_some, hgone]
        rfl
    refine hs.same rfl ?_ ?_
    · simp [Tries.advance, hgone]
    · exact congrArg (fun counter => (counter.map Counter.value).getD 0) hkept

theorem Invariant.lookedUp_other (hs : Invariant limit ip s) {other : String} (h : other ≠ ip) :
    Invariant limit ip (s.lookedUp other) := by
  have hcount : ∀ n, lookupsIn (s.lookedUp other) ip n = lookupsIn s ip n := by
    intro n
    simp [lookupsIn, Tries.lookedUp, h]
  constructor
  · intro n hn
    rcases List.mem_append.mp hn with hold | hnew
    · exact hs.past n hold
    · exact absurd (Prod.mk.inj (List.mem_singleton.mp hnew)).1.symm h
  · rw [hcount]
    exact hs.counted
  · intro n
    rw [hcount]
    exact hs.limited n

/-- A lookup of the address, counted below the limit. -/
theorem Invariant.lookedUp_incr (hs : Invariant limit ip s) (hfew : (s.value ip : ℤ) < limit) :
    Invariant limit ip ((s.lookedUp ip).incr ip) := by
  have hnow : lookupsIn (s.lookedUp ip) ip (s.expirations ip) =
      lookupsIn s ip (s.expirations ip) + 1 := by
    simp [lookupsIn, Tries.lookedUp]
  have hvalue : ((s.lookedUp ip).incr ip).value ip = s.value ip + 1 := value_incr_self _ _
  have hcounted := hs.counted
  constructor
  · intro n hn
    rcases List.mem_append.mp hn with hold | hnew
    · exact hs.past n hold
    · exact (Prod.mk.inj (List.mem_singleton.mp hnew)).2.le
  · rw [hvalue]
    change lookupsIn (s.lookedUp ip) ip (s.expirations ip) ≤ _
    omega
  · intro n
    change (lookupsIn (s.lookedUp ip) ip n : ℤ) ≤ limit
    by_cases hn : n = s.expirations ip
    · rw [hn, hnow]
      omega
    · have hold : lookupsIn (s.lookedUp ip) ip n = lookupsIn s ip n := by
        simp [lookupsIn, Tries.lookedUp, Ne.symm hn]
      rw [hold]
      exact hs.limited n

end Operations

section Steps

variable {cfg : Config} {frontEnd : String} {ip : String}

/-- A failure is one increment, and an expiry at most. -/
theorem invariant_note {s : Tries} {origin : Origin} (hlimit : 0 < cfg.codeTryLimit)
    (hs : Invariant cfg.codeTryLimit ip (s.incr (callerAddress cfg origin))) :
    Invariant cfg.codeTryLimit ip (noteFailedCodeTry cfg s origin) := by
  rw [noteFailedCodeTry, if_neg (by omega)]
  dsimp only
  split
  · exact hs.expire _ _
  · exact hs

/-- An event that lets the address look up an unknown code counts it for the address, on a check
that still holds. -/
def onTime (cfg : Config) (frontEnd ip : String) (s : System) (e : Event) : Bool :=
  (searching cfg frontEnd s e).all fun v => decide (v.address ≠ ip) ||
    decide (callerAddress cfg (viaFrontEnd frontEnd v) = ip) &&
      !tooManyCodeTries cfg s.tries (viaFrontEnd frontEnd v)

theorem invariant_step {s t : System} {e : Event} (hlimit : 0 < cfg.codeTryLimit)
    (hs : Invariant cfg.codeTryLimit ip s.tries) (hp : onTime cfg frontEnd ip s e = true)
    (h : Step cfg frontEnd s e t) : Invariant cfg.codeTryLimit ip t.tries := by
  have heffect := step_effect h
  generalize t.tries = u at heffect ⊢
  cases heffect with
  | kept => exact hs
  | advanced d => exact hs.advance d
  | noted v => exact invariant_note hlimit (hs.incr _)
  | searched v hv =>
    apply invariant_note hlimit
    by_cases hip : v.address = ip
    · rw [onTime, hv] at hp
      simp only [Option.all_some, hip, ne_eq, not_true, decide_false, Bool.false_or,
        Bool.and_eq_true, decide_eq_true_eq, Bool.not_eq_true', tooManyCodeTries,
        if_neg (not_le.mpr hlimit), decide_eq_false_iff_not, not_le] at hp
      obtain ⟨hkey, hfew⟩ := hp
      rw [hkey] at hfew ⊢
      rw [hip]
      exact hs.lookedUp_incr hfew
    · exact (hs.lookedUp_other hip).incr _

theorem invariant_quiet (hlimit : 0 < cfg.codeTryLimit) (now : ℚ)
    (codes : String → Option String) : Invariant cfg.codeTryLimit ip (quiet now codes).tries := by
  constructor
  · intro n hn
    cases hn
  · exact le_refl _
  · intro n
    exact hlimit.le

end Steps

/-- In every run whose lookups of unknown codes by an address are on time, the address makes at
most `codeTryLimit` of them between two expirations of its counter. -/
theorem guesses_limited (cfg : Config) (frontEnd ip : String) (hlimit : 0 < cfg.codeTryLimit)
    {now : ℚ} {codes : String → Option String} {s : System}
    (h : Execution (Guarded (fun u e => onTime cfg frontEnd ip u e = true) (Step cfg frontEnd))
      (quiet now codes) s) (n : ℕ) :
    (lookupsIn s.tries ip n : ℤ) ≤ cfg.codeTryLimit := by
  have hs : Invariant cfg.codeTryLimit ip s.tries :=
    h.guarded_invariant (I := fun u => Invariant cfg.codeTryLimit ip u.tries)
      (fun _ _ _ hi hp st => invariant_step hlimit hi hp st) (invariant_quiet hlimit now codes)
  exact hs.limited n

/-- The default limit behind a front end. -/
def defaults : Config where
  trustForwarded := true
  codeTryLimit := 10
  codeTryWindow := 60
  repr _ := ""
  upper s := s.map Char.toUpper

def guess : Query := ⟨none, none, some "AAAAA"⟩

/-- A client without a header guesses by both routes, one request after the other. -/
def turnRun : List Event :=
  [.resolve ⟨"192.0.2.7", none⟩, .body 0 (some (.obj [("code", .str "aaaaa")])),
   .interact ⟨"192.0.2.7", none⟩ guess, .tick 60, .resolve ⟨"192.0.2.7", none⟩, .body 0 none]

theorem requests_in_turn_are_limited :
    ∃ s, runEvents (guardedNext (onTime defaults "203.0.113.1" "192.0.2.7")
        (next defaults "203.0.113.1")) (quiet 0 fun _ => none) turnRun = some s ∧
      (lookupsIn s.tries "192.0.2.7" 0 : ℤ) ≤ 10 := by
  have hrun : (runEvents (guardedNext (onTime defaults "203.0.113.1" "192.0.2.7")
      (next defaults "203.0.113.1")) (quiet 0 fun _ => none) turnRun).isSome = true := by
    decide +kernel
  obtain ⟨s, hs⟩ := Option.isSome_iff_exists.mp hrun
  exact ⟨s, hs, guesses_limited defaults "203.0.113.1" "192.0.2.7" (by decide)
    (runEvents_guarded hs) 0⟩

/-- Each guess brings an address of its own to be counted under. -/
def forgedRun : List Event :=
  (List.range 11).map fun i => .interact ⟨"192.0.2.7", some (Nat.repr i)⟩ guess

/-- No header is sent, and every check comes before the first body. -/
def staleRun : List Event :=
  List.replicate 11 (.resolve ⟨"192.0.2.7", none⟩) ++
    List.replicate 11 (.body 0 (some (.obj [("code", .str "aaaaa")])))

theorem forged_addresses_exceed_the_limit : ¬ GuessesLimited defaults "203.0.113.1" := by
  intro h
  have hrun : (runEvents (next defaults "203.0.113.1") (quiet 0 fun _ => none) forgedRun).map
      (fun s => lookupsIn s.tries "192.0.2.7" 0) = some 11 := by decide +kernel
  obtain ⟨s, hs, hcount⟩ := Option.map_eq_some_iff.mp hrun
  have hbound := h 0 _ s (runEvents_execution hs) "192.0.2.7" 0
  rw [hcount] at hbound
  exact absurd hbound (by decide)

example : (runEvents (next defaults "203.0.113.1") (quiet 0 fun _ => none) staleRun).map
    (fun s => lookupsIn s.tries "192.0.2.7" 0) = some 11 := by decide +kernel

end CodeTryBound
