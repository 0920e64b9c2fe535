import Mathlib.Data.Rat.Floor
import Mathlib.Data.List.Sort
import SIPMediaGW.IngestMapping
import SIPMediaGW.PythonArithmetic
import SIPMediaGW.StatefulExceptions

/-! # The scaler

What the SIP and the media scaler share: the decision of an iteration, the instances it
creates, and the cleanup of instances without a public address. The provider is a parameter;
the calls it receives are logged beside the store the scaler reads. The numbers of a configuration
are those of its file; the arithmetic says what Python reads and computes. -/
namespace Scaler

open IngestMapping
open PythonArithmetic
open PythonJson
open StatefulExceptions

inductive PyError where
  | keyError (key : String)
  | valueError
  | typeError
  | zeroDivisionError
  | unboundLocalError (name : String)
  deriving DecidableEq, Repr

inductive ProviderCall where
  | createInstance (cpu : String)
  | destroyInstances (ipList : List String)
  deriving DecidableEq, Repr

/-- The store of a scaler and the provider calls made so far. -/
structure World (ρ : Type) where
  store : ρ
  calls : List ProviderCall

abbrev Scaling (ρ α : Type) := Action (World ρ) PyError α

structure Instance where
  start : String
  priv : String
  pub : Option String
  cpuCount : ℤ
  deriving DecidableEq, Repr

/-- Dates as texts: `datetime.isoformat()` and `dateutil.parser.parse`. -/
structure Dates where
  isoformat : Datetime → String
  /-- `none` where it raises. -/
  parse : String → Option Datetime
  isoformat_ne : ∀ d, isoformat d ≠ ""
  /-- A date without an offset is read back without one. -/
  parse_naive : ∀ wall, ∃ wall', parse (isoformat ⟨wall, none⟩) = some ⟨wall', none⟩

/-- The cloud provider, on addresses `ip_address` reads. -/
structure Provider (dates : Dates) where
  instType : List String
  instances : List Instance
  ipAddress : String → Bool
  private_addresses : ∀ inst ∈ instances, ipAddress inst.priv = true
  /-- `launchTime` carries an offset. -/
  aware : ∀ inst ∈ instances, ∃ wall offset,
    dates.parse inst.start = some ⟨wall, some offset⟩

structure Slot where
  maxGw : Option ℚ
  unlockedMin : Option ℚ
  minGw : Option ℚ
  loadMax : Option ℚ
  deriving DecidableEq

structure Config where
  cpuPerGw : ℚ
  gwNamePrefix : String
  cleanerBlacklist : List Instance
  cleanupThresholdSeconds : Option ℚ

section Provider

variable {ρ : Type} {dates : Dates} (csp : Provider dates)

def createInstance (cpu : String) : Scaling ρ Unit :=
  modify fun w => { w with calls := w.calls ++ [.createInstance cpu] }

/-- Addresses are handed over as they are; one that cannot be read raises. -/
def Provider.destroyInstances (ipList : List String) : Scaling ρ Unit := do
  modify fun w => { w with calls := w.calls ++ [.destroyInstances ipList] }
  if ipList.all csp.ipAddress then pure () else throw .valueError

/-- `now - date` in microseconds; a date without an offset cannot be subtracted. -/
def elapsed (now : ℤ) (date : Datetime) : Except PyError ℤ :=
  match date.utcoffset with
  | some offset => .ok (now - (date.wall - offset))
  | none => .error .typeError

def parseDate (dates : Dates) (s : String) : Except PyError Datetime :=
  match dates.parse s with
  | some date => .ok date
  | none => .error .valueError

/-- An instance that has run for ten minutes without a public address. -/
def unreachable (dates : Dates) (now : ℤ) (inst : Instance) : Except PyError Bool := do
  if (inst.pub.getD "") ≠ "" then .ok false
  else
    let start ← parseDate dates inst.start
    let age ← elapsed now start
    .ok (decide (age > 600000000))

def Provider.cleanupInstance (cfg : Config) (now : ℤ) (inst : Instance) : Scaling ρ Unit := do
  if inst ∉ cfg.cleanerBlacklist then
    let expired ← liftM (unreachable dates now inst)
    if expired = true then csp.destroyInstances [inst.priv]

/-- `Scaler.cleanup`. -/
def Provider.cleanup (cfg : Config) (now : ℤ) : Scaling ρ Unit :=
  forM csp.instances (csp.cleanupInstance cfg now)

/-- The loop of `upScale` over the sizes: the CPUs that are left. -/
def createBySize : List String → ℤ → Scaling ρ ℤ
  | [], numCPU => pure numCPU
  | cpu :: rest, numCPU => do
    match intOfText cpu with
    | none => throw .valueError
    | some 0 => throw .zeroDivisionError
    | some size =>
      forM (List.replicate (numCPU.fdiv size).toNat cpu) createInstance
      createBySize rest (numCPU.fmod size)

/-- The sizes as texts, sorted downwards: the last one takes what is left. -/
def Provider.cpuRange : List String := csp.instType.insertionSort fun a b => b ≤ a

def Provider.upScale (numCPU : ℤ) : Scaling ρ Unit := do
  let rest ← createBySize csp.cpuRange numCPU
  if rest ≠ 0 then
    match csp.cpuRange.getLast? with
    | some cpu => createInstance cpu
    | none => throw (.unboundLocalError "cpu")

theorem keeps_destroyInstances {I : World ρ → Prop} {ipList : List String}
    (hI : ∀ w, I w → I { w with calls := w.calls ++ [.destroyInstances ipList] }) :
    Keeps I (csp.destroyInstances ipList) := by
  refine Keeps.bind (keeps_modify hI) fun _ => ?_
  split
  · exact keeps_pure _
  · exact keeps_throw _

/-- The cleanup of instances destroys some that are listed. -/
theorem keeps_baseCleanup (cfg : Config) (now : ℤ) {I : World ρ → Prop}
    (hI : ∀ inst ∈ csp.instances, ∀ w, I w →
      I { w with calls := w.calls ++ [.destroyInstances [inst.priv]] }) :
    Keeps I (csp.cleanup cfg now) := by
  apply keeps_forM
  intro inst hinst
  unfold Provider.cleanupInstance
  split
  · refine (keeps_liftM _).bind fun expired => ?_
    split
    · exact keeps_destroyInstances csp (hI inst hinst)
    · exact keeps_pure _
  · exact keeps_pure _

end Provider

section Decision

/-- One or two digits of a time of day. -/
def timeField (limit : ℕ) : List Char → Option ℕ
  | [a] => if a.isDigit then some (a.toNat - 48) else none
  | [a, b] =>
    let n := (a.toNat - 48) * 10 + (b.toNat - 48)
    if a.isDigit ∧ b.isDigit ∧ n ≤ limit then some n else none
  | _ => none

def getSeconds (stringHMS : String) : Except PyError ℤ :=
  match split ':' stringHMS.toList with
  | [h, m, s] =>
    match timeField 23 h, timeField 59 m, timeField 59 s with
    | some h, some m, some s => .ok (h * 3600 + m * 60 + s)
    | _, _, _ => .error .valueError
  | _ => .error .valueError

/-- The first slot nearest to a time, among those that have started. -/
def nearest (seconds : ℤ) : List (String × Slot) → Except PyError (Option (ℤ × Slot))
  | [] => .ok none
  | (start, slot) :: rest => do
    let s ← getSeconds start
    let distance := |s - seconds|
    match ← nearest seconds rest with
    | some (d, other) => .ok (some (if d < distance then (d, other) else (distance, slot)))
    | none => .ok (some (distance, slot))

def slotAt (timeLine : List (String × Slot)) (scaleTime : String) : Except PyError Slot := do
  let started := timeLine.filter fun e => decide (e.1 ≤ scaleTime)
  if started.isEmpty then .error .valueError
  else
    let seconds ← getSeconds scaleTime
    match ← nearest seconds started with
    | some (_, slot) => .ok slot
    | none => .error .valueError

/-- The gateways that a target lacks, rounded up; negative when there are too many. -/
def missing (arithmetic : Arithmetic) (targetCapacity : ℚ) (currentCapacity : ℤ) : ℤ :=
  ⌈arithmetic.number (targetCapacity - currentCapacity)⌉

/-- Gateways to add, or to remove when negative. -/
def capacityIncrease (arithmetic : Arithmetic) (slot : Slot) (currentCapacity readyToRunNum : ℤ)
    (incallsNum : Option ℤ) : Except PyError ℤ :=
  let inCallNum : ℤ :=
    match incallsNum with
    | some n => if n ≠ 0 then n else currentCapacity - readyToRunNum
    | none => currentCapacity - readyToRunNum
  let minCapacity := max (arithmetic.number (slot.minGw.getD 0))
    (arithmetic.number (arithmetic.number (slot.unlockedMin.getD 0) + inCallNum))
  match slot.maxGw, slot.loadMax with
  | none, _ => .error (.keyError "maxGw")
  | _, none => .error (.keyError "loadMax")
  | some maxGw, some loadMax =>
    if loadMax = 0 then .error .zeroDivisionError
    else
      let targetCapacity := min (arithmetic.number maxGw)
        (max minCapacity (arithmetic.number (inCallNum / arithmetic.number loadMax)))
      .ok (missing arithmetic targetCapacity currentCapacity)

/-- The gateways a slot asks for while some are in a call. -/
def Slot.asked (arithmetic : Arithmetic) (slot : Slot) (maxGw loadMax : ℚ) (inCallNum : ℤ) : ℚ :=
  min (arithmetic.number maxGw) (max (max (arithmetic.number (slot.minGw.getD 0))
    (arithmetic.number (arithmetic.number (slot.unlockedMin.getD 0) + inCallNum)))
    (arithmetic.number (inCallNum / arithmetic.number loadMax)))

section Missing

variable {arithmetic : Arithmetic} {target : ℚ} {current : ℤ}

theorem missing_exact (target : ℚ) (current : ℤ) :
    missing .exact target current = ⌈target⌉ - current := by
  rw [missing, number_exact, Int.ceil_sub_intCast]

theorem missing_pos_iff : 0 < missing arithmetic target current ↔ (current : ℚ) < target := by
  rw [missing, Int.ceil_pos, number_pos_iff, sub_pos]

theorem missing_neg_iff :
    missing arithmetic target current < 0 ↔ arithmetic.number (target - current) ≤ -1 := by
  rw [missing, ← Int.le_sub_one_iff, zero_sub, Int.ceil_le, Int.cast_neg, Int.cast_one]

theorem missing_eq_zero_iff : missing arithmetic target current = 0 ↔
    target ≤ current ∧ -1 < arithmetic.number (target - current) := by
  have hsign : arithmetic.number (target - current) ≤ 0 ↔ target ≤ current := by
    rw [← not_lt, number_pos_iff, sub_pos, not_lt]
  rw [missing, Int.ceil_eq_zero_iff, Set.mem_Ioc, hsign, and_comm]

theorem missing_le (arithmetic : Arithmetic) (target : ℚ) (current : ℤ) :
    missing arithmetic target current ≤ ⌈target⌉ - current := by
  rw [← Int.ceil_sub_intCast]
  exact ceil_number_le arithmetic _

end Missing

/-- Without a number of calls, the decision is on what the two capacities leave. -/
theorem capacityIncrease_eq_ok {arithmetic : Arithmetic} {slot : Slot}
    {current ready increase : ℤ} :
    capacityIncrease arithmetic slot current ready none = .ok increase ↔
      ∃ maxGw loadMax, slot.maxGw = some maxGw ∧ slot.loadMax = some loadMax ∧ loadMax ≠ 0 ∧
        increase =
          missing arithmetic (slot.asked arithmetic maxGw loadMax (current - ready)) current := by
  unfold capacityIncrease
  cases hmax : slot.maxGw with
  | none => simp
  | some maxGw =>
    cases hload : slot.loadMax with
    | none => simp
    | some loadMax =>
      by_cases hzero : loadMax = 0
      · simp [hzero]
      · simp only [hzero, if_false, Except.ok.injEq, Option.some.injEq]
        constructor
        · rintro rfl
          exact ⟨maxGw, loadMax, rfl, rfl, hzero, rfl⟩
        · rintro ⟨_, _, rfl, rfl, -, rfl⟩
          rfl

/-- The CPUs of some gateways. -/
def Config.cpusOf (cfg : Config) (arithmetic : Arithmetic) (gateways : ℤ) : ℤ :=
  ⌈arithmetic.number (gateways * arithmetic.number cfg.cpuPerGw)⌉

theorem cpusOf_nonneg {cfg : Config} (arithmetic : Arithmetic) (hcpu : 0 ≤ cfg.cpuPerGw)
    {gateways : ℤ} (hn : 0 ≤ gateways) : 0 ≤ cfg.cpusOf arithmetic gateways := by
  have hread : ((0 : ℤ) : ℚ) ≤ arithmetic.number cfg.cpuPerGw :=
    le_number_of_le (by exact_mod_cast hcpu)
  have hproduct : ((0 : ℤ) : ℚ) ≤ gateways * arithmetic.number cfg.cpuPerGw := by
    push_cast at hread ⊢
    exact mul_nonneg (by exact_mod_cast hn) hread
  exact Int.ceil_nonneg (by exact_mod_cast le_number_of_le hproduct)

theorem cpusOf_pos {cfg : Config} (arithmetic : Arithmetic) (hcpu : 0 < cfg.cpuPerGw)
    {gateways : ℤ} (hn : 0 < gateways) : 0 < cfg.cpusOf arithmetic gateways :=
  Int.ceil_pos.mpr (number_pos (mul_pos (by exact_mod_cast hn) (number_pos hcpu)))

/-- `Scaler.scale`, over the two capacities and the `downScale` of a scaler. -/
def scale {ρ : Type} {dates : Dates} (arithmetic : Arithmetic) (csp : Provider dates)
    (cfg : Config) (timeLine : List (String × Slot)) (scaleTime : String)
    (incallsNum : Option ℤ) (getCurrentCapacity getReadyToRunCapacity : Scaling ρ ℤ)
    (downScale : ℤ → Scaling ρ Unit) :
    Scaling ρ Unit := do
  let slot ← liftM (slotAt timeLine scaleTime)
  let currentCapacity ← getCurrentCapacity
  let readyToRunNum ← getReadyToRunCapacity
  let increase ←
    liftM (capacityIncrease arithmetic slot currentCapacity readyToRunNum incallsNum)
  if increase > 0 then csp.upScale (cfg.cpusOf arithmetic increase)
  if increase < 0 then downScale |increase|

inductive Answer where
  | succeed
  | failed (e : PyError)
  deriving DecidableEq, Repr

/-- The `auto` branch of the web service. -/
def autoIteration {ρ : Type} (cleanup scale : Scaling ρ Unit) : Scaling ρ Answer :=
  tryCatch (do cleanup; scale; pure .succeed) fun e => pure (.failed e)

theorem getSeconds_error {stringHMS : String} {e : PyError}
    (h : getSeconds stringHMS = .error e) : e = .valueError := by
  unfold getSeconds at h
  split at h
  · split at h
    · cases h
    · exact (Except.error.inj h).symm
  · exact (Except.error.inj h).symm

theorem nearest_error {seconds : ℤ} {started : List (String × Slot)} {e : PyError}
    (h : nearest seconds started = .error e) : e = .valueError := by
  induction started with
  | nil => cases h
  | cons entry rest ih =>
    obtain ⟨start, slot⟩ := entry
    simp only [nearest] at h
    rcases bind_eq_error.mp h with hstart | ⟨s, -, h⟩
    · exact getSeconds_error hstart
    · rcases bind_eq_error.mp h with hrest | ⟨found, -, h⟩
      · exact ih hrest
      · cases found <;> cases h

/-- A time without a slot, and a time that cannot be read. -/
theorem slotAt_error {timeLine : List (String × Slot)} {scaleTime : String} {e : PyError}
    (h : slotAt timeLine scaleTime = .error e) : e = .valueError := by
  simp only [slotAt] at h
  split at h
  · exact (Except.error.inj h).symm
  · rcases bind_eq_error.mp h with hseconds | ⟨seconds, -, h⟩
    · exact getSeconds_error hseconds
    · rcases bind_eq_error.mp h with hnearest | ⟨found, -, h⟩
      · exact nearest_error hnearest
      · cases found with
        | none => exact (Except.error.inj h).symm
        | some found => cases h

section Runs

variable {ρ : Type} {dates : Dates} {csp : Provider dates} {cfg : Config} {w : World ρ}
variable {arithmetic : Arithmetic}
variable {timeLine : List (String × Slot)} {scaleTime : String} {incallsNum : Option ℤ}
variable {getCurrentCapacity getReadyToRunCapacity : Scaling ρ ℤ}
variable {downScale : ℤ → Scaling ρ Unit} {slot : Slot} {current ready : ℤ}

/-- What a decision leads to. -/
def adjust (arithmetic : Arithmetic) (csp : Provider dates) (cfg : Config)
    (downScale : ℤ → Scaling ρ Unit) (increase : ℤ) : Scaling ρ Unit :=
  if increase > 0 then csp.upScale (cfg.cpusOf arithmetic increase)
  else if increase < 0 then downScale |increase| else pure ()

/-- An iteration takes its decision from two capacities and acts on it, or raises. -/
theorem exec_scale (hslot : slotAt timeLine scaleTime = .ok slot)
    (hcurrent : exec getCurrentCapacity w = (.ok current, w))
    (hready : exec getReadyToRunCapacity w = (.ok ready, w)) :
    exec (scale arithmetic csp cfg timeLine scaleTime incallsNum getCurrentCapacity
        getReadyToRunCapacity downScale) w =
      match capacityIncrease arithmetic slot current ready incallsNum with
      | .ok increase => exec (adjust arithmetic csp cfg downScale increase) w
      | .error e => (.error e, w) := by
  rw [scale, exec_bind_ok (by rw [hslot, exec_liftM]), exec_bind_ok hcurrent,
    exec_bind_ok hready]
  cases capacityIncrease arithmetic slot current ready incallsNum with
  | error e => rw [exec_bind_error (exec_liftM _ _)]
  | ok increase =>
    rw [exec_bind_ok (exec_liftM _ _)]
    by_cases hpos : increase > 0
    · have hneg : ¬ increase < 0 := by omega
      simp only [adjust, if_pos hpos, if_neg hneg, bind_pure_unit]
    · simp only [adjust, if_neg hpos]

theorem exec_scale_error {e : PyError} (hslot : slotAt timeLine scaleTime = .error e) :
    exec (scale arithmetic csp cfg timeLine scaleTime incallsNum getCurrentCapacity
      getReadyToRunCapacity downScale) w = (.error e, w) := by
  rw [scale, exec_bind_error (by rw [hslot, exec_liftM])]

/-- What the web service answers, and the state the cleanup and the scaling leave. -/
theorem exec_autoIteration (cleanup scale : Scaling ρ Unit) :
    exec (autoIteration cleanup scale) w =
      match exec (cleanup >>= fun _ => scale) w with
      | (.ok _, t) => (.ok .succeed, t)
      | (.error e, t) => (.ok (.failed e), t) := by
  rw [autoIteration, exec_tryCatch, exec_bind, exec_bind]
  cases exec cleanup w with
  | mk r t =>
    cases r with
    | error e => rfl
    | ok u =>
      simp only [exec_bind scale]
      cases exec scale t with
      | mk r t => cases r <;> rfl

theorem exec_autoIteration_snd (cleanup scale : Scaling ρ Unit) :
    (exec (autoIteration cleanup scale) w).2 = (exec (cleanup >>= fun _ => scale) w).2 := by
  rw [exec_autoIteration]
  cases exec (cleanup >>= fun _ => scale) w with
  | mk r t => cases r <;> rfl

end Runs

end Decision

end Scaler
