import SIPMediaGW.Scaler
import Mathlib.Algebra.BigOperators.Ring.List
import Mathlib.Algebra.Order.BigOperators.Group.List
import Mathlib.Tactic.Linarith

/-! # The instances a scaler creates

What `upScale` asks the provider for, as a fleet of machines, and what leaves the fleet as it
is. -/
namespace ScalerCreation

open PythonJson
open Scaler
open StatefulExceptions

/-- A running instance: the size it was created with, and its gateways in the registry, none
while it boots. -/
structure Machine where
  cpu : String
  gateways : ℕ
  deriving DecidableEq, Repr

abbrev Fleet := List Machine

def cpus (size : String) : ℤ := (intOfText size).getD 0

def deployed (fleet : Fleet) : ℤ := (fleet.map fun m => cpus m.cpu).sum

def registered (fleet : Fleet) : ℕ := (fleet.map Machine.gateways).sum

/-- The instances a log of provider calls creates, booting. -/
def created (calls : List ProviderCall) : Fleet :=
  calls.filterMap fun call =>
    match call with
    | .createInstance cpu => some ⟨cpu, 0⟩
    | .destroyInstances _ => none

/-- Sizes that are positive multiples of one. -/
def Multiples (s : ℤ) (sizes : List String) : Prop :=
  ∀ size ∈ sizes, ∃ k : ℤ, 0 < k ∧ intOfText size = some (k * s)

section Creation

variable {ρ : Type} {dates : Dates} {csp : Provider dates} {cfg : Config} {w : World ρ}

theorem created_append (c d : List ProviderCall) : created (c ++ d) = created c ++ created d :=
  List.filterMap_append ..

theorem deployed_append (f g : Fleet) : deployed (f ++ g) = deployed f + deployed g := by
  simp [deployed]

/-- Instances of given sizes. -/
def Offered (sizes : List String) (fleet : Fleet) : Prop := ∀ m ∈ fleet, m.cpu ∈ sizes

instance (sizes : List String) (fleet : Fleet) : Decidable (Offered sizes fleet) :=
  inferInstanceAs (Decidable (∀ m ∈ fleet, m.cpu ∈ sizes))

theorem Offered.append {sizes : List String} {f g : Fleet} (hf : Offered sizes f)
    (hg : Offered sizes g) : Offered sizes (f ++ g) := by
  intro m hm
  rcases List.mem_append.mp hm with hm | hm
  · exact hf m hm
  · exact hg m hm

theorem cpus_nonneg {s : ℤ} {sizes : List String} {size : String} (hs : 0 < s)
    (hsizes : Multiples s sizes) (hsize : size ∈ sizes) : 0 ≤ cpus size := by
  obtain ⟨k, hk, htext⟩ := hsizes size hsize
  rw [cpus, htext, Option.getD_some]
  exact (Int.mul_pos hk hs).le

theorem deployed_nonneg {s : ℤ} {sizes : List String} {f : Fleet} (hs : 0 < s)
    (hsizes : Multiples s sizes) (hf : Offered sizes f) : 0 ≤ deployed f := by
  apply List.sum_nonneg
  intro c hc
  obtain ⟨m, hm, rfl⟩ := List.mem_map.mp hc
  exact cpus_nonneg hs hsizes (hf m hm)

theorem dvd_deployed {s : ℤ} {sizes : List String} {f : Fleet} (hsizes : Multiples s sizes)
    (hf : Offered sizes f) : s ∣ deployed f := by
  apply List.dvd_sum
  intro c hc
  obtain ⟨m, hm, rfl⟩ := List.mem_map.mp hc
  obtain ⟨k, hk, hsize⟩ := hsizes _ (hf m hm)
  rw [cpus, hsize, Option.getD_some]
  exact dvd_mul_left s k

theorem exec_createInstance (cpu : String) (w : World ρ) :
    exec (createInstance cpu) w = (.ok (), { w with calls := w.calls ++ [.createInstance cpu] }) :=
  rfl

theorem exec_createInstances (cpu : String) (n : ℕ) (w : World ρ) :
    exec (forM (List.replicate n cpu) (createInstance : String → Scaling ρ Unit)) w =
      (.ok (), { w with calls := w.calls ++ List.replicate n (.createInstance cpu) }) := by
  induction n generalizing w with
  | zero => simp
  | succ n ih =>
    rw [List.replicate_succ, List.forM_cons, exec_bind_ok (exec_createInstance _ _), ih]
    simp [List.replicate_succ]

theorem created_replicate (cpu : String) (n : ℕ) :
    created (List.replicate n (.createInstance cpu)) = List.replicate n ⟨cpu, 0⟩ := by
  induction n with
  | zero => rfl
  | succ n ih =>
    rw [List.replicate_succ, List.replicate_succ, ← ih]
    rfl

theorem deployed_replicate (cpu : String) (n : ℕ) :
    deployed (List.replicate n ⟨cpu, 0⟩) = n * cpus cpu := by
  simp [deployed]

/-- What the loop over the sizes creates, and the CPUs it leaves: fewer than the last size
where this is the smallest, and none of a multiple of the smallest size where it is offered. -/
structure BySize (s : ℤ) (range : List String) (n rest : ℤ) (more : List ProviderCall) : Prop where
  rest_nonneg : 0 ≤ rest
  total : deployed (created more) + rest = n
  offered : Offered range (created more)
  rest_lt : (∀ size, range.getLast? = some size → intOfText size = some s) → range ≠ [] →
    rest < s
  rest_zero : s ∣ n → (∃ size ∈ range, intOfText size = some s) → rest = 0

/-- One more size before the others: as many instances of it as fit. -/
theorem BySize.cons {s k n rest : ℤ} {size : String} {range : List String}
    {more : List ProviderCall} (hs : 0 < s) (hk : 0 < k) (hsize : intOfText size = some (k * s))
    (hrange : Multiples s range) (hn : 0 ≤ n) (hmore : BySize s range (n % (k * s)) rest more) :
    BySize s (size :: range) n rest
      (List.replicate (n / (k * s)).toNat (.createInstance size) ++ more) := by
  have hc : 0 < k * s := Int.mul_pos hk hs
  have hq : 0 ≤ n / (k * s) := Int.ediv_nonneg hn hc.le
  have htotal := hmore.total
  have hpos := deployed_nonneg hs hrange hmore.offered
  have hsum : deployed (created (List.replicate (n / (k * s)).toNat (.createInstance size) ++
      more)) = n / (k * s) * (k * s) + deployed (created more) := by
    rw [created_append, deployed_append, created_replicate, deployed_replicate, cpus, hsize,
      Option.getD_some, Int.toNat_of_nonneg hq]
  constructor
  · exact hmore.rest_nonneg
  · have hdivmod := Int.mul_ediv_add_emod n (k * s)
    rw [hsum]
    linarith
  · rw [created_append, created_replicate]
    intro m hm
    rcases List.mem_append.mp hm with hm | hm
    · rw [List.eq_of_mem_replicate hm]
      exact List.mem_cons_self
    · exact List.mem_cons_of_mem _ (hmore.offered m hm)
  · intro hlast _
    cases range with
    | nil =>
      -- the last size is the smallest, and what it leaves is below it
      have hone : k * s = s := by
        rw [hlast size rfl] at hsize
        exact (Option.some.inj hsize).symm
      have hlt := Int.emod_lt_of_pos n hc
      omega
    | cons t range =>
      apply hmore.rest_lt _ (List.cons_ne_nil _ _)
      intro u hu
      apply hlast
      rw [List.getLast?_cons_cons, hu]
  · rintro hdvd ⟨t, ht, htext⟩
    have hdvd' : s ∣ n % (k * s) := by
      rw [Int.emod_def]
      exact dvd_sub hdvd (dvd_mul_of_dvd_left (dvd_mul_left s k) _)
    rcases List.mem_cons.mp ht with rfl | ht
    · -- the smallest size leaves nothing of a multiple of it
      have hone : k * s = s := by
        rw [htext] at hsize
        exact (Option.some.inj hsize).symm
      have hzero : n % (k * s) = 0 := by
        rw [hone]
        exact Int.emod_eq_zero_of_dvd hdvd
      have hrest := hmore.rest_nonneg
      omega
    · exact hmore.rest_zero hdvd' ⟨t, ht, htext⟩

theorem exec_createBySize {s : ℤ} (hs : 0 < s) {range : List String} (hrange : Multiples s range)
    {n : ℤ} (hn : 0 ≤ n) (w : World ρ) :
    ∃ rest more, exec (createBySize range n) w =
        (.ok rest, { w with calls := w.calls ++ more }) ∧ BySize s range n rest more := by
  induction range generalizing n w with
  | nil =>
    refine ⟨n, [], by simp [createBySize], hn, zero_add n, ?_, ?_, ?_⟩
    · intro m hm
      cases hm
    · intro _ h
      exact absurd rfl h
    · rintro _ ⟨size, hsize, _⟩
      cases hsize
  | cons size range ih =>
    obtain ⟨k, hk, hsize⟩ := hrange size List.mem_cons_self
    have hrange' : Multiples s range := fun t ht => hrange t (List.mem_cons_of_mem _ ht)
    have hc : 0 < k * s := Int.mul_pos hk hs
    have hdiv : n.fdiv (k * s) = n / (k * s) := Int.fdiv_eq_ediv_of_nonneg n hc.le
    have hmod : n.fmod (k * s) = n % (k * s) := Int.fmod_eq_emod_of_nonneg n hc.le
    have hr : 0 ≤ n % (k * s) := Int.emod_nonneg n hc.ne'
    obtain ⟨rest, more, hrun, hmore⟩ := ih hrange' hr
      ⟨w.store, w.calls ++ List.replicate (n / (k * s)).toNat (.createInstance size)⟩
    refine ⟨rest, List.replicate (n / (k * s)).toNat (.createInstance size) ++ more, ?_,
      hmore.cons hs hk hsize hrange' hn⟩
    simp only [createBySize, hsize]
    split
    · rename_i hnone
      cases hnone
    · rename_i hzero
      exact absurd (Option.some.inj hzero) hc.ne'
    · rename_i c _ hsome
      obtain rfl := Option.some.inj hsome
      rw [hdiv, hmod, exec_bind_ok (exec_createInstances _ _ _), hrun, List.append_assoc]

theorem mem_cpuRange {size : String} : size ∈ csp.cpuRange ↔ size ∈ csp.instType :=
  (List.perm_insertionSort _ _).mem_iff

/-- With sizes that can be used, a positive number of CPUs takes an instance. -/
theorem upScale_creates (hsizes : Multiples 1 csp.instType) (hsome : csp.instType ≠ []) {n : ℤ}
    (hn : 0 < n) (w : World ρ) :
    ∃ more, exec (csp.upScale n) w = (.ok (), { w with calls := w.calls ++ more }) ∧
      created more ≠ [] := by
  obtain ⟨rest, more, hrun, hmore⟩ := exec_createBySize one_pos
    (fun size hsize => hsizes size (mem_cpuRange.mp hsize)) hn.le w
  rw [Provider.upScale, exec_bind_ok hrun]
  by_cases hzero : rest = 0
  · rw [if_neg (not_not.mpr hzero)]
    refine ⟨more, rfl, fun hnil => ?_⟩
    have htotal := hmore.total
    rw [hnil, hzero] at htotal
    simp only [deployed, List.map_nil, List.sum_nil, add_zero] at htotal
    omega
  · rw [if_pos hzero]
    cases hlast : csp.cpuRange.getLast? with
    | none =>
      obtain ⟨size, hsize⟩ := List.exists_mem_of_ne_nil _ hsome
      rw [List.getLast?_eq_none_iff] at hlast
      have hmem := mem_cpuRange.mpr hsize
      rw [hlast] at hmem
      cases hmem
    | some size =>
      refine ⟨more ++ [.createInstance size], ?_, ?_⟩
      · simp only [exec_createInstance, List.append_assoc]
      · rw [created_append]
        exact List.append_ne_nil_of_right_ne_nil _ (List.cons_ne_nil _ _)

/-- `upScale` creates instances and does nothing else, even where it raises. -/
theorem keeps_upScale {I : World ρ → Prop}
    (hI : ∀ cpu w, I w → I { w with calls := w.calls ++ [.createInstance cpu] }) (n : ℤ) :
    Keeps I (csp.upScale n) := by
  have hloop : ∀ (range : List String) (n : ℤ), Keeps I (createBySize range n) := by
    intro range
    induction range with
    | nil => exact fun _ => keeps_pure _
    | cons cpu rest ih =>
      intro n
      unfold createBySize
      split
      · exact keeps_throw _
      · exact keeps_throw _
      · exact (keeps_forM fun cpu _ => keeps_modify (hI cpu)).bind fun _ => ih _
  refine (hloop _ n).bind fun rest => ?_
  split
  · split
    · exact keeps_modify (hI _)
    · exact keeps_throw _
  · exact keeps_pure _

end Creation

section Destruction

variable {ρ : Type} {dates : Dates}

theorem created_destroy (calls : List ProviderCall) (ipList : List String) :
    created (calls ++ [.destroyInstances ipList]) = created calls := by
  rw [created_append]
  exact List.append_nil _

end Destruction

end ScalerCreation
