import SIPMediaGW.MediaCleanup
import SIPMediaGW.ScalerCreation
import Mathlib.Data.String.Basic

/-! # The sizes of the instances created

`upScale` goes through the sizes in the descending order of their texts, and creates one more
instance of the last of them for what is left. -/
namespace UpScalePacking

open MediaCleanup (plainDates plainProvider plain_offered)
open PythonJson
open Scaler
open ScalerCreation
open StatefulExceptions

def Smallest (sizes : List String) (cpu : String) : Prop :=
  cpu ∈ sizes ∧ ∀ other ∈ sizes, cpus cpu ≤ cpus other

/-- Enough CPUs, by less than the smallest size, with one instance at most beyond them. -/
structure Packing (sizes : List String) (numCPU : ℤ) (fleet : Fleet) : Prop where
  enough : numCPU ≤ deployed fleet
  close : ∀ cpu, Smallest sizes cpu → deployed fleet < numCPU + cpus cpu
  beyond : ∃ fitting extra, fleet = fitting ++ extra ∧ deployed fitting ≤ numCPU ∧
    extra.length ≤ 1 ∧ ∀ m ∈ extra, Smallest sizes m.cpu

def Packs {ρ : Type} {dates : Dates} (csp : Provider dates) (w : World ρ) (numCPU : ℤ) : Prop :=
  ∃ more, exec (csp.upScale numCPU) w = (.ok (), { w with calls := w.calls ++ more }) ∧
    Packing csp.instType numCPU (created more)

/-- The first size in the order of texts is the smallest number. -/
def TextOrdered (sizes : List String) : Prop :=
  ∀ cpu ∈ sizes, (∀ other ∈ sizes, cpu ≤ other) → Smallest sizes cpu

/-- A number is a sum of sizes in which what follows a size is always below it. -/
def FillsUp : List ℤ → ℤ → Prop
  | [], n => n = 0
  | size :: rest, n => ∃ k m : ℤ, 0 ≤ m ∧ m < size ∧ n = k * size + m ∧ FillsUp rest m

section LeftOver

variable {sizes : List ℤ} {n : ℤ}

def leftOver (sizes : List ℤ) (n : ℤ) : ℤ := sizes.foldl (fun n size => n % size) n

theorem leftOver_nonneg (hpos : ∀ size ∈ sizes, 0 < size) (hn : 0 ≤ n) : 0 ≤ leftOver sizes n := by
  induction sizes generalizing n with
  | nil => exact hn
  | cons size sizes ih =>
    obtain ⟨hsize, hpos⟩ := List.forall_mem_cons.mp hpos
    exact ih hpos (Int.emod_nonneg n hsize.ne')

theorem leftOver_le (hpos : ∀ size ∈ sizes, 0 < size) (hn : 0 ≤ n) : leftOver sizes n ≤ n := by
  induction sizes generalizing n with
  | nil => exact le_rfl
  | cons size sizes ih =>
    obtain ⟨hsize, hpos⟩ := List.forall_mem_cons.mp hpos
    have hmod : n % size ≤ n := by
      have hdivmod := Int.mul_ediv_add_emod n size
      have hprod := Int.mul_nonneg hsize.le (Int.ediv_nonneg hn hsize.le)
      omega
    exact (ih hpos (Int.emod_nonneg n hsize.ne')).trans hmod

/-- What is left is below every size. -/
theorem leftOver_lt (hpos : ∀ size ∈ sizes, 0 < size) (hn : 0 ≤ n) :
    ∀ size ∈ sizes, leftOver sizes n < size := by
  induction sizes generalizing n with
  | nil => exact fun size hsize => nomatch hsize
  | cons first sizes ih =>
    obtain ⟨hfirst, hothers⟩ := List.forall_mem_cons.mp hpos
    have hmod : 0 ≤ n % first := Int.emod_nonneg n hfirst.ne'
    have hle : leftOver sizes (n % first) ≤ n % first := leftOver_le hothers hmod
    intro size hsize
    rcases List.mem_cons.mp hsize with rfl | hsize
    · exact hle.trans_lt (Int.emod_lt_of_pos n hfirst)
    · exact ih hothers hmod size hsize

theorem leftOver_eq_zero_iff (hpos : ∀ size ∈ sizes, 0 < size) :
    leftOver sizes n = 0 ↔ FillsUp sizes n := by
  induction sizes generalizing n with
  | nil => exact Iff.rfl
  | cons size sizes ih =>
    obtain ⟨hsize, hpos⟩ := List.forall_mem_cons.mp hpos
    have hcons : leftOver (size :: sizes) n = leftOver sizes (n % size) := rfl
    rw [hcons, ih hpos]
    constructor
    · intro hfills
      have hdivmod := Int.mul_ediv_add_emod n size
      exact ⟨n / size, n % size, Int.emod_nonneg n hsize.ne', Int.emod_lt_of_pos n hsize,
        by linarith, hfills⟩
    · rintro ⟨k, m, hm, hlt, rfl, hfills⟩
      rw [Int.add_comm, Int.add_mul_emod_self_right, Int.emod_eq_of_lt hm hlt]
      exact hfills

end LeftOver

section Loop

variable {ρ : Type} {dates : Dates} {csp : Provider dates} {range : List String} {n : ℤ}

theorem multiples_one {s : ℤ} (hs : 0 < s) (h : Multiples s range) : Multiples 1 range := by
  intro size hsize
  obtain ⟨k, hk, htext⟩ := h size hsize
  exact ⟨k * s, Int.mul_pos hk hs, by rw [htext, mul_one]⟩

theorem cpus_pos (h : Multiples 1 range) : ∀ size ∈ range.map cpus, 0 < size := by
  refine List.forall_mem_map.mpr fun size hsize => ?_
  obtain ⟨k, hk, htext⟩ := h size hsize
  rw [cpus, htext, Option.getD_some, mul_one]
  exact hk

theorem rest_createBySize (h : Multiples 1 range) (hn : 0 ≤ n) (w : World ρ) :
    (exec (createBySize range n) w).1 = .ok (leftOver (range.map cpus) n) := by
  induction range generalizing n w with
  | nil => rfl
  | cons size range ih =>
    obtain ⟨k, hk, htext⟩ := h size List.mem_cons_self
    rw [mul_one] at htext
    have hcpus : cpus size = k := by rw [cpus, htext, Option.getD_some]
    have hmod : n.fmod k = n % k := Int.fmod_eq_emod_of_nonneg n hk.le
    have hrest : leftOver ((size :: range).map cpus) n = leftOver (range.map cpus) (n % k) := by
      rw [← hcpus]
      rfl
    simp only [createBySize, htext]
    split
    · next hnone => cases hnone
    · next hzero => exact absurd (Option.some.inj hzero) hk.ne'
    · next c _ hsome =>
      obtain rfl := Option.some.inj hsome
      rw [hmod, exec_bind_ok (exec_createInstances _ _ _), hrest]
      exact ih (fun t ht => h t (List.mem_cons_of_mem _ ht)) (Int.emod_nonneg n hk.ne') _

/-- The last size of the range is the first in the order of texts. -/
theorem getLast_le {last : String} (h : csp.cpuRange.getLast? = some last) :
    last ∈ csp.instType ∧ ∀ size ∈ csp.instType, last ≤ size := by
  have hmem := mem_cpuRange.mp (List.mem_of_getLast? h)
  refine ⟨hmem, fun size hsize => ?_⟩
  have hsorted : csp.cpuRange.Pairwise fun a b => b ≤ a :=
    List.pairwise_insertionSort (fun a b : String => b ≤ a) csp.instType
  obtain ⟨before, hbefore⟩ := List.getLast?_eq_some_iff.mp h
  have hsize' := mem_cpuRange.mpr hsize
  rw [hbefore] at hsorted hsize'
  rcases List.mem_append.mp hsize' with hin | hin
  · exact (List.pairwise_append.mp hsorted).2.2 size hin last (List.mem_singleton_self last)
  · exact (List.mem_singleton.mp hin).ge

/-- What `upScale` creates: the instances that fit, and one for what is left. -/
theorem exec_upScale (hsizes : Multiples 1 csp.instType) (hsome : csp.instType ≠ [])
    (hn : 0 ≤ n) (w : World ρ) :
    ∃ fitting last, csp.cpuRange.getLast? = some last ∧
      deployed (created fitting) = n - leftOver (csp.cpuRange.map cpus) n ∧
      exec (csp.upScale n) w = (.ok (), { w with
        calls := w.calls ++ (fitting ++ if leftOver (csp.cpuRange.map cpus) n = 0 then []
          else [.createInstance last]) }) := by
  have hrange : Multiples 1 csp.cpuRange := fun size hsize => hsizes size (mem_cpuRange.mp hsize)
  obtain ⟨rest, fitting, hrun, hmore⟩ := exec_createBySize one_pos hrange hn w
  have hrest := rest_createBySize hrange hn w
  rw [hrun] at hrest
  obtain rfl := Except.ok.inj hrest
  obtain ⟨last, hlast⟩ : ∃ last, csp.cpuRange.getLast? = some last := by
    obtain ⟨size, hsize⟩ := List.exists_mem_of_ne_nil _ hsome
    have hne := List.ne_nil_of_mem (mem_cpuRange.mpr hsize)
    exact ⟨_, List.getLast?_eq_some_getLast hne⟩
  have htotal := hmore.total
  refine ⟨fitting, last, hlast, by omega, ?_⟩
  rw [Provider.upScale, exec_bind_ok hrun]
  by_cases hzero : leftOver (csp.cpuRange.map cpus) n = 0
  · rw [if_neg (not_not.mpr hzero), if_pos hzero, List.append_nil]
    rfl
  · rw [if_pos hzero, if_neg hzero, hlast, exec_createInstance, List.append_assoc]

end Loop

section Packing

variable {ρ : Type} {dates : Dates} {csp : Provider dates} {n : ℤ}

theorem packing_exact {sizes : List String} {fleet : Fleet} (hpos : ∀ cpu ∈ sizes, 0 < cpus cpu)
    (htotal : deployed fleet = n) : Packing sizes n fleet := by
  refine ⟨htotal.ge, fun cpu hcpu => ?_, fleet, [], (List.append_nil fleet).symm, htotal.le,
    Nat.zero_le 1, fun m hm => nomatch hm⟩
  have hcpu := hpos cpu hcpu.1
  omega

/-- One more instance, for what is left, packs well where it is of the smallest size. -/
theorem packing_extra {sizes : List String} {fitting : Fleet} {last : String} {left : ℤ}
    (htotal : deployed fitting = n - left) (hleft : 0 < left) (hlt : left < cpus last) :
    Packing sizes n (fitting ++ [⟨last, 0⟩]) ↔ Smallest sizes last := by
  have hsum : deployed (fitting ++ [⟨last, 0⟩]) = n - left + cpus last := by
    rw [deployed_append, htotal]
    simp [deployed]
  constructor
  · rintro ⟨-, -, fits, extra, heq, hfits, hone, hextra⟩
    cases extra with
    | nil =>
      rw [List.append_nil] at heq
      rw [← heq] at hfits
      omega
    | cons m extra =>
      obtain rfl : extra = [] := List.eq_nil_of_length_eq_zero (by simpa using hone)
      have hm : m = ⟨last, 0⟩ := (List.append_singleton_inj.mp heq).2.symm
      have hsmallest := hextra m List.mem_cons_self
      rwa [hm] at hsmallest
  · intro hsmallest
    refine ⟨by omega, fun cpu hcpu => ?_, fitting, [⟨last, 0⟩], rfl, by omega, le_rfl, ?_⟩
    · have hle := hsmallest.2 cpu hcpu.1
      omega
    · intro m hm
      rw [List.mem_singleton.mp hm]
      exact hsmallest

/-- The last size is the smallest exactly when the texts have the order of the numbers. -/
theorem smallest_last_iff {sizes : List String} {last : String} (hmem : last ∈ sizes)
    (hleast : ∀ size ∈ sizes, last ≤ size) : Smallest sizes last ↔ TextOrdered sizes := by
  constructor
  · intro hsmallest cpu hcpu hfirst
    rw [le_antisymm (hfirst last hmem) (hleast cpu hcpu)]
    exact hsmallest
  · exact fun hordered => hordered last hmem hleast

/-- The sizes are packed well exactly when the texts have the order of the numbers, or nothing
is left for the last size. -/
theorem packs_iff {ρ : Type} {dates : Dates} (csp : Provider dates)
    (hsizes : Multiples 4 csp.instType) (hsome : csp.instType ≠ []) (n : ℤ) (hn : 0 ≤ n)
    (w : World ρ) :
    Packs csp w n ↔ TextOrdered csp.instType ∨ FillsUp (csp.cpuRange.map cpus) n := by
  have hone : Multiples 1 csp.instType := multiples_one (by decide) hsizes
  have hrange : Multiples 1 csp.cpuRange := fun size hsize => hone size (mem_cpuRange.mp hsize)
  have hpos := cpus_pos hrange
  obtain ⟨fitting, last, hlast, htotal, hrun⟩ := exec_upScale hone hsome hn w
  obtain ⟨hmem, hleast⟩ := getLast_le hlast
  have hnonneg := leftOver_nonneg hpos hn
  have hlt : leftOver (csp.cpuRange.map cpus) n < cpus last :=
    leftOver_lt hpos hn _ (List.mem_map_of_mem (mem_cpuRange.mpr hmem))
  have hpacks : Packs csp w n ↔ Packing csp.instType n (created (fitting ++
      if leftOver (csp.cpuRange.map cpus) n = 0 then [] else [.createInstance last])) := by
    constructor
    · rintro ⟨more, hmore, hpacking⟩
      have hcalls := congrArg (fun r => r.2.calls) (hmore.symm.trans hrun)
      rwa [List.append_cancel_left hcalls] at hpacking
    · exact fun hpacking => ⟨_, hrun, hpacking⟩
  rw [hpacks, ← leftOver_eq_zero_iff hpos, created_append]
  by_cases hzero : leftOver (csp.cpuRange.map cpus) n = 0
  · rw [if_pos hzero]
    refine iff_of_true (packing_exact (List.forall_mem_map.mp (cpus_pos hone)) ?_) (Or.inr hzero)
    rw [hzero, sub_zero] at htotal
    rw [deployed_append, htotal]
    exact add_zero n
  · rw [if_neg hzero, or_iff_left hzero, ← smallest_last_iff hmem hleast]
    exact packing_extra htotal (lt_of_le_of_ne hnonneg (Ne.symm hzero)) hlt

/-- Sizes of 8 and of 16 CPUs: the text `16` comes before the text `8`. -/
def wideProvider : Provider plainDates where
  instType := ["8", "16"]
  instances := []
  ipAddress _ := true
  private_addresses _ h := by cases h
  aware := plainProvider.aware

theorem wide_multiples : Multiples 4 wideProvider.instType := by
  intro size hsize
  rcases List.mem_pair.mp hsize with rfl | rfl
  · exact ⟨2, by decide, by decide⟩
  · exact ⟨4, by decide, by decide⟩

theorem plain_upScale : Packs plainProvider (⟨(), []⟩ : World Unit) 13 := by
  have hsizes : Multiples 4 plainProvider.instType := by
    intro size hsize
    rcases List.mem_pair.mp hsize with rfl | rfl
    · exact ⟨1, by decide, by decide⟩
    · exact ⟨2, by decide, by decide⟩
  refine (packs_iff plainProvider hsizes plain_offered 13 (by decide) _).mpr (Or.inl ?_)
  exact (smallest_last_iff (show "4" ∈ ["4", "8"] by decide) (by decide)).mp
    ⟨by decide, by decide⟩

/-- Four CPUs are asked for, and sixteen are created. -/
theorem wide_upScale : ¬ ∀ (csp : Provider plainDates) (numCPU : ℤ), Multiples 4 csp.instType →
    csp.instType ≠ [] → 0 ≤ numCPU → Packs csp (⟨(), []⟩ : World Unit) numCPU := by
  intro h
  obtain ⟨more, hrun, hpacking⟩ :=
    h wideProvider 4 wide_multiples (List.cons_ne_nil _ _) (by decide)
  have hcreated : exec (wideProvider.upScale 4) (⟨(), []⟩ : World Unit) =
      (.ok (), ⟨(), [.createInstance "16"]⟩) := rfl
  obtain rfl : more = [.createInstance "16"] :=
    (congrArg (fun r => r.2.calls) (hcreated.symm.trans hrun)).symm
  have hsmallest : Smallest wideProvider.instType "8" := ⟨by decide, by decide⟩
  exact absurd (hpacking.close "8" hsmallest) (by decide)

end Packing

end UpScalePacking
