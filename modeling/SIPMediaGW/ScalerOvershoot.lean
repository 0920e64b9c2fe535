import SIPMediaGW.LabelledExecutions
import SIPMediaGW.MediaCleanup
import SIPMediaGW.ScalerCreation
import Mathlib.Data.Int.ConditionallyCompleteOrder
import Mathlib.Tactic.Linarith

/-! # Iterations of the scaler over a fleet that boots

An iteration decides from the gateways in the registry. An instance it creates counts there
only once its gateways have registered, any number of iterations later. -/
namespace ScalerOvershoot

open FieldMap
open LabelledExecutions
open PythonArithmetic
open PythonJson
open ProxyRegistry
open Scaler
open ScalerCreation
open MediaScaler
open MediaCleanup
open StatefulExceptions

/-- Sizes that are multiples of the smallest. `upScale` takes the last size it tries for what
is left: this is the smallest one, or nothing is left. -/
structure Sizes {dates : Dates} (csp : Provider dates) (cfg : Config) where
  smallest : ℤ
  smallest_pos : 0 < smallest
  multiple : Multiples smallest csp.instType
  last : (∀ size, csp.cpuRange.getLast? = some size → intOfText size = some smallest) ∨
    ((∃ size ∈ csp.instType, intOfText size = some smallest) ∧
      ∃ k : ℤ, cfg.cpuPerGw = k * smallest)

/-- What stays the same over the iterations. -/
structure Setting (dates : Dates) where
  arithmetic : Arithmetic
  csp : Provider dates
  cfg : Config
  sizes : Sizes csp cfg
  cpu_nonneg : 0 ≤ cfg.cpuPerGw
  timeLine : List (String × Slot)
  slot : Slot
  maxGw : ℚ
  slot_max : slot.maxGw = some maxGw
  inCalls : ℕ

def idle (registry : Redis) (scan : List String) : ℕ :=
  scan.countP fun key => isFree (gwLoad (registry.lookup key))

inductive Event where
  | iterate (registry : Redis) (scan : List String) (scaleTime : String) (now localNow : ℤ)
  | register (i gateways : ℕ)
  | terminate (i : ℕ)

section Steps

variable {dates : Dates} (S : Setting dates)

/-- `cpu_per_gw` as it is read. -/
def Setting.cpuPerGw : ℚ := S.arithmetic.number S.cfg.cpuPerGw

/-- `maxGw * cpu_per_gw`, rounded up to the smallest size. -/
def Setting.limit : ℤ :=
  ⌈S.arithmetic.number S.maxGw * S.cpuPerGw / S.sizes.smallest⌉ * S.sizes.smallest

/-- The gateways the slot asks for while some are in a call. -/
def Setting.target (busy : ℤ) : ℚ :=
  S.slot.asked S.arithmetic S.maxGw (S.slot.loadMax.getD 0) busy

/-- One automatic iteration over a registry. -/
def Setting.iteration (scan : List String) (scaleTime : String) (now localNow : ℤ) :
    MediaScaling Answer :=
  autoIteration (MediaScaler.cleanup S.csp S.cfg now scan)
    (scale S.arithmetic S.csp S.cfg S.timeLine scaleTime none (getCurrentCapacity scan)
      (getReadyToRunCapacity scan) (MediaScaler.downScale S.csp localNow scan))

/-- Instances register their gateways and end at any time, in any order. -/
inductive Step : Fleet → Event → Fleet → Prop where
  | iterate (fleet : Fleet) (registry : Redis) (scan : List String) (scaleTime : String)
      (now localNow : ℤ) : ScanOrder registry scan →
      (keys registry).length = registered fleet →
      idle registry (keys registry) + S.inCalls = registered fleet →
      slotAt S.timeLine scaleTime = .ok S.slot →
      Step fleet (.iterate registry scan scaleTime now localNow)
        (fleet ++ created (exec (S.iteration scan scaleTime now localNow) ⟨registry, []⟩).2.calls)
  | register (fleet : Fleet) (i : ℕ) (m : Machine) (gateways : ℕ) : fleet[i]? = some m →
      m.gateways = 0 → Step fleet (.register i gateways) (fleet.set i ⟨m.cpu, gateways⟩)
  | terminate (fleet : Fleet) (i : ℕ) : Step fleet (.terminate i) (fleet.eraseIdx i)

/-- An iteration that finds fewer gateways than the slot asks for: the CPUs no gateway it
finds accounts for, those of booting instances among them, fit between the target and the
limit. -/
def Setting.Fits (fleet : Fleet) : Event → Prop
  | .iterate registry scan _ _ _ =>
    let target := S.target (scan.length - idle registry scan)
    scan.length < target →
      deployed fleet - scan.length * S.cpuPerGw ≤ S.limit - ⌈target⌉ * S.cpuPerGw
  | _ => True

instance (fleet : Fleet) (e : Event) : Decidable (S.Fits fleet e) := by
  cases e <;> simp only [Setting.Fits] <;> infer_instance

end Steps

section Creation

variable {ρ : Type} {dates : Dates} {csp : Provider dates} {cfg : Config}

/-- `upScale` creates the CPUs of some gateways, rounded up to the smallest size. -/
theorem exec_upScale (arithmetic : Arithmetic) (sizes : Sizes csp cfg)
    (hcpu : 0 ≤ cfg.cpuPerGw) {gateways : ℤ} (hn : 0 ≤ gateways) (w : World ρ) :
    ∃ more, (exec (csp.upScale (cfg.cpusOf arithmetic gateways)) w).2 =
        { w with calls := w.calls ++ more } ∧
      Offered csp.instType (created more) ∧
      deployed (created more) < cfg.cpusOf arithmetic gateways + sizes.smallest := by
  have hpos := sizes.smallest_pos
  obtain ⟨rest, more, hrun, hmore⟩ := exec_createBySize hpos
    (fun size hsize => sizes.multiple size (mem_cpuRange.mp hsize))
    (cpusOf_nonneg arithmetic hcpu hn) w
  have htotal := hmore.total
  have hrest := hmore.rest_nonneg
  have hoffered : Offered csp.instType (created more) :=
    fun m hm => mem_cpuRange.mp (hmore.offered m hm)
  rw [Provider.upScale, exec_bind_ok hrun]
  by_cases hzero : rest = 0
  · rw [if_neg (not_not.mpr hzero)]
    exact ⟨more, rfl, hoffered, by omega⟩
  · rw [if_pos hzero]
    cases hlast : csp.cpuRange.getLast? with
    | none => exact ⟨more, rfl, hoffered, by omega⟩
    | some size =>
      have hne : csp.cpuRange ≠ [] := by
        intro hnil
        rw [hnil] at hlast
        cases hlast
      have hmem : size ∈ csp.instType := mem_cpuRange.mp (List.mem_of_getLast? hlast)
      rcases sizes.last with hsmallest | ⟨⟨t, ht, htext⟩, k, hk⟩
      · have hlt := hmore.rest_lt hsmallest hne
        have hsize : cpus size = sizes.smallest := by
          rw [cpus, hsmallest size hlast]
          rfl
        have hsum : deployed (created (more ++ [.createInstance size])) =
            deployed (created more) + sizes.smallest := by
          rw [created_append, deployed_append]
          simp [created, deployed, hsize]
        refine ⟨more ++ [.createInstance size], ?_, ?_, ?_⟩
        · simp only [exec_createInstance, List.append_assoc]
        · rw [created_append]
          apply hoffered.append
          intro m hm
          obtain rfl := List.mem_singleton.mp hm
          exact hmem
        · rw [hsum]
          omega
      · -- a multiple of a size that is offered leaves nothing
        have hceil : cfg.cpusOf arithmetic gateways = gateways * k * sizes.smallest := by
          rw [Config.cpusOf, hk, ← Int.cast_mul, number_intCast, ← Int.cast_mul, number_intCast,
            Int.ceil_intCast, mul_assoc]
        refine absurd (hmore.rest_zero ?_ ⟨t, mem_cpuRange.mpr ht, htext⟩) hzero
        rw [hceil]
        exact dvd_mul_left _ _

end Creation

section Iterations

variable {dates : Dates} {S : Setting dates} {registry : Redis} {scan : List String}
variable {scaleTime : String} {now localNow : ℤ} {fleet fleet' : Fleet} {e : Event}

/-- A registry as it was read, and the instances created so far. -/
def Seen (registry : Redis) (fleet : Fleet) (w : World Redis) : Prop :=
  w.store = registry ∧ created w.calls = fleet

theorem seen_destroy (ipList : List String) (w : World Redis) (h : Seen registry fleet w) :
    Seen registry fleet { w with calls := w.calls ++ [.destroyInstances ipList] } :=
  ⟨h.1, (created_destroy _ _).trans h.2⟩

/-- The cleanup reads the registry and destroys instances. -/
theorem keeps_cleanup (csp : Provider dates) (cfg : Config) (now : ℤ) (scan : List String) :
    Keeps (Seen registry fleet) (MediaScaler.cleanup csp cfg now scan) := by
  have hbase : Keeps (Seen registry fleet) (csp.cleanup cfg now) :=
    keeps_baseCleanup csp cfg now fun inst _ => seen_destroy [inst.priv]
  unfold MediaScaler.cleanup
  apply keeps_get_bind
  intro w hw
  refine (keeps_liftM _).bind (fun ipList => ?_) w hw
  split
  · exact (keeps_destroyInstances csp (seen_destroy _)).bind fun _ => hbase
  · exact hbase

/-- Stopping gateways creates no instance. -/
theorem created_downScale (csp : Provider dates) (scan : List String) (numGW : ℤ) :
    Keeps (fun w : World Redis => created w.calls = fleet)
      (MediaScaler.downScale csp localNow scan numGW) :=
  keeps_downScale csp (fun _ _ hw => hw) (fun _ _ hw => (created_destroy _ _).trans hw) scan numGW

/-- What an iteration creates: nothing, or the missing gateways rounded up to the smallest
size. -/
def Adds (S : Setting dates) (found busy : ℤ) (more : Fleet) : Prop :=
  more = [] ∨ found < S.target busy ∧ Offered S.csp.instType more ∧
    deployed more <
      S.cfg.cpusOf S.arithmetic (missing S.arithmetic (S.target busy) found) + S.sizes.smallest

theorem capacityIncrease_eq {found ready increase : ℤ}
    (h : capacityIncrease S.arithmetic S.slot found ready none = .ok increase) :
    increase = missing S.arithmetic (S.target (found - ready)) found := by
  obtain ⟨maxGw, loadMax, hmax, hload, -, rfl⟩ := capacityIncrease_eq_ok.mp h
  rw [S.slot_max] at hmax
  obtain rfl := Option.some.inj hmax
  rw [Setting.target, hload, Option.getD_some]

theorem adds_scale (hslot : slotAt S.timeLine scaleTime = .ok S.slot) {w : World Redis}
    (hw : Seen registry [] w) :
    Adds S scan.length (scan.length - idle registry scan) (created (exec (scale S.arithmetic
      S.csp S.cfg S.timeLine scaleTime none (getCurrentCapacity scan) (getReadyToRunCapacity scan)
      (MediaScaler.downScale S.csp localNow scan)) w).2.calls) := by
  have hready : exec (getReadyToRunCapacity scan) w = (.ok (idle registry scan : ℤ), w) := by
    rw [getReadyToRunCapacity, exec_bind_ok (exec_get w), hw.1]
    rfl
  have hcurrent : exec (getCurrentCapacity scan) w = (.ok (scan.length : ℤ), w) := rfl
  rw [exec_scale hslot hcurrent hready]
  cases hinc : capacityIncrease S.arithmetic S.slot scan.length (idle registry scan) none with
  | error e => exact .inl hw.2
  | ok increase =>
    have heq := capacityIncrease_eq hinc
    by_cases hpos : increase > 0
    · have hfound := missing_pos_iff.mp (heq ▸ hpos)
      obtain ⟨more, hrun, hoffered, hlt⟩ :=
        exec_upScale S.arithmetic S.sizes S.cpu_nonneg hpos.le w
      simp only [adjust, if_pos hpos]
      rw [hrun, created_append, hw.2, List.nil_append]
      rw [heq] at hlt
      exact .inr ⟨hfound, hoffered, hlt⟩
    · by_cases hneg : increase < 0
      · simp only [adjust, if_neg hpos, if_pos hneg]
        exact .inl (created_downScale S.csp scan _ w hw.2)
      · simp only [adjust, if_neg hpos, if_neg hneg]
        exact .inl hw.2

theorem adds_iteration (hslot : slotAt S.timeLine scaleTime = .ok S.slot) :
    Adds S scan.length (scan.length - idle registry scan)
      (created (exec (S.iteration scan scaleTime now localNow) ⟨registry, []⟩).2.calls) := by
  have hcleanup : Seen registry []
      (exec (MediaScaler.cleanup S.csp S.cfg now scan) ⟨registry, []⟩).2 :=
    keeps_cleanup S.csp S.cfg now scan _ ⟨rfl, rfl⟩
  rw [Setting.iteration, exec_autoIteration_snd]
  cases hrun : exec (MediaScaler.cleanup S.csp S.cfg now scan) ⟨registry, []⟩ with
  | mk r w =>
    rw [hrun] at hcleanup
    cases r with
    | error e =>
      rw [exec_bind_error hrun]
      exact .inl hcleanup.2
    | ok u =>
      rw [exec_bind_ok hrun]
      exact adds_scale hslot hcleanup

/-- Every instance has an offered size, and the fleet is within a bound. -/
structure Within (S : Setting dates) (bound : ℤ) (fleet : Fleet) : Prop where
  offered : Offered S.csp.instType fleet
  bounded : deployed fleet ≤ bound

/-- Rounding the missing gateways up stays within a limit that is a multiple of the size. -/
theorem within_add (h : Within S S.limit fleet) {more : Fleet} {found busy : ℤ}
    (hadds : Adds S found busy more)
    (hfits : found < S.target busy →
      deployed fleet - found * S.cpuPerGw ≤ S.limit - ⌈S.target busy⌉ * S.cpuPerGw) :
    Within S S.limit (fleet ++ more) := by
  rcases hadds with rfl | ⟨hfound, hoffered, hlt⟩
  · rw [List.append_nil]
    exact h
  · refine ⟨h.offered.append hoffered, ?_⟩
    have hcpu : 0 ≤ S.cpuPerGw := by
      have hread := @le_number_of_le S.arithmetic S.cfg.cpuPerGw 0 (by exact_mod_cast S.cpu_nonneg)
      exact_mod_cast hread
    have hmissing : (missing S.arithmetic (S.target busy) found : ℚ) ≤ ⌈S.target busy⌉ - found := by
      exact_mod_cast missing_le S.arithmetic (S.target busy) found
    have hroom : S.cfg.cpusOf S.arithmetic (missing S.arithmetic (S.target busy) found) ≤
        S.limit - deployed fleet := by
      apply Int.ceil_le.mpr
      apply number_le_of_le
      have hscaled := mul_le_mul_of_nonneg_right hmissing hcpu
      rw [sub_mul] at hscaled
      push_cast
      change _ * S.cpuPerGw ≤ _
      linarith [hfits hfound]
    obtain ⟨a, ha⟩ := dvd_deployed S.sizes.multiple h.offered
    obtain ⟨b, hb⟩ := dvd_deployed S.sizes.multiple hoffered
    have hpos := S.sizes.smallest_pos
    have hwhole :
        a + b < ⌈S.arithmetic.number S.maxGw * S.cpuPerGw / S.sizes.smallest⌉ + 1 := by
      apply lt_of_mul_lt_mul_left _ hpos.le
      rw [Setting.limit] at hroom
      linarith
    calc deployed (fleet ++ more) = (a + b) * S.sizes.smallest := by
          rw [deployed_append, ha, hb]
          ring
      _ ≤ S.limit := mul_le_mul_of_nonneg_right (by omega) hpos.le

theorem offered_set {sizes : List String} (h : Offered sizes fleet) {i : ℕ} {m : Machine}
    (hm : fleet[i]? = some m) (gateways : ℕ) :
    Offered sizes (fleet.set i ⟨m.cpu, gateways⟩) := by
  intro n hn
  rcases List.mem_or_eq_of_mem_set hn with hn | rfl
  · exact h n hn
  · exact h m (List.mem_of_getElem? hm)

theorem deployed_set {i : ℕ} {m : Machine} (hm : fleet[i]? = some m) (gateways : ℕ) :
    deployed (fleet.set i ⟨m.cpu, gateways⟩) = deployed fleet := by
  have hcpu : (fleet.set i ⟨m.cpu, gateways⟩).map (fun m => cpus m.cpu) =
      fleet.map fun m => cpus m.cpu := by
    apply List.ext_getElem?
    intro j
    rw [List.map_set, List.getElem?_set]
    split
    · rename_i hj
      subst hj
      have hlt : i < (fleet.map fun m => cpus m.cpu).length := by
        rw [List.length_map]
        exact (List.getElem?_eq_some_iff.mp hm).1
      rw [if_pos hlt, List.getElem?_map, hm]
      rfl
    · rfl
  rw [deployed, hcpu, deployed]

theorem deployed_eraseIdx (hoffered : Offered S.csp.instType fleet) (i : ℕ) :
    deployed (fleet.eraseIdx i) ≤ deployed fleet := by
  apply List.Sublist.sum_le_sum ((List.eraseIdx_sublist fleet i).map _)
  intro c hc
  obtain ⟨m, hm, rfl⟩ := List.mem_map.mp hc
  exact cpus_nonneg S.sizes.smallest_pos S.sizes.multiple (hoffered m hm)

theorem within_step (h : Within S S.limit fleet) (hfits : S.Fits fleet e)
    (hstep : Step S fleet e fleet') : Within S S.limit fleet' := by
  cases hstep with
  | iterate registry scan scaleTime now localNow _ _ _ hslot =>
    apply within_add h (adds_iteration hslot)
    simpa [Setting.Fits] using hfits
  | register i m gateways hm _ =>
    refine ⟨offered_set h.offered hm gateways, ?_⟩
    rw [deployed_set hm]
    exact h.bounded
  | terminate i =>
    refine ⟨fun m hm => h.offered m (List.mem_of_mem_eraseIdx hm), ?_⟩
    exact (deployed_eraseIdx h.offered i).trans h.bounded

/-- Where every iteration that adds gateways finds room for the booting ones, the deployed CPUs
stay within `maxGw`. -/
theorem never_overshoots (S : Setting dates) (fleet fleet' : Fleet)
    (hoffered : Offered S.csp.instType fleet) (hbounded : deployed fleet ≤ S.limit)
    (hrun : Execution (Guarded S.Fits (Step S)) fleet fleet') : deployed fleet' ≤ S.limit :=
  (hrun.guarded_invariant (fun _ _ _ h hfits hstep => within_step h hfits hstep)
    ⟨hoffered, hbounded⟩).bounded

end Iterations

def shippedSlot : Slot := ⟨some 4, some 2, none, some (3 / 4)⟩

def shipped : Setting plainDates where
  arithmetic := .binary64
  csp := plainProvider
  cfg := plainConfig
  sizes := by
    refine ⟨4, by decide, ?_, .inl ?_⟩
    · intro size hsize
      rcases List.mem_pair.mp hsize with rfl | rfl
      · exact ⟨1, by decide, by decide⟩
      · exact ⟨2, by decide, by decide⟩
    · intro size hsize
      have hlast : plainProvider.cpuRange.getLast? = some "4" := by decide
      obtain rfl := Option.some.inj (hlast.symm.trans hsize)
      decide
  cpu_nonneg := by norm_num [plainConfig]
  timeLine := [("07:00:00", shippedSlot)]
  slot := shippedSlot
  maxGw := 4
  slot_max := rfl
  inCalls := 0

theorem shipped_limit : shipped.limit = 16 := by
  decide +kernel

/-- With nothing registered, an iteration creates the two gateways of the slot. -/
theorem shipped_creates :
    created (exec (shipped.iteration [] "08:00:00" 0 0) ⟨[], []⟩).2.calls = [⟨"8", 0⟩] := by
  decide +kernel

def unregistered : Event := .iterate [] [] "08:00:00" 0 0

theorem shipped_step {fleet : Fleet} (h : registered fleet = 0) :
    Step shipped fleet unregistered (fleet ++ [⟨"8", 0⟩]) := by
  rw [← shipped_creates]
  exact .iterate fleet [] [] "08:00:00" 0 0 (by decide) h.symm h.symm (by decide +kernel)

/-- The first iteration of an empty fleet meets the condition, and its gateways register. -/
theorem shipped_stays_within : deployed [⟨"8", 2⟩] ≤ shipped.limit := by
  apply never_overshoots shipped [] [⟨"8", 2⟩] (by decide) (by decide +kernel)
  apply Execution.tail (u := [⟨"8", 0⟩]) (e := .register 0 2)
  · apply Execution.tail (e := unregistered) (.refl [])
    exact ⟨by decide +kernel, shipped_step rfl⟩
  · exact ⟨trivial, .register [⟨"8", 0⟩] 0 ⟨"8", 0⟩ 2 rfl rfl⟩

/-- Three iterations while nothing has registered: 24 CPUs for a limit of 16. -/
theorem booting_overshoots :
    ¬ ∀ (dates : Dates) (S : Setting dates) (fleet fleet' : Fleet),
      Offered S.csp.instType fleet → deployed fleet ≤ S.limit →
      Execution (Step S) fleet fleet' → deployed fleet' ≤ S.limit := by
  intro h
  have hrun : Execution (Step shipped) [] [⟨"8", 0⟩, ⟨"8", 0⟩, ⟨"8", 0⟩] :=
    .tail (.tail (.tail (.refl []) (shipped_step rfl)) (shipped_step rfl)) (shipped_step rfl)
  have hle := h plainDates shipped [] _ (by decide) (by decide +kernel) hrun
  rw [shipped_limit] at hle
  exact absurd hle (by decide)

end ScalerOvershoot
