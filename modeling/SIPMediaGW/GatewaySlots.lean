import Mathlib.Data.Rat.Floor
import Mathlib.Tactic.Linarith
import Mathlib.Tactic.Ring

/-! # Gateway slots

How `SIPMediaGW.sh` picks the id of a gateway. The bound of the loop is compared as a text, and
an id is read back as one digit. -/
namespace GatewaySlots

abbrev Text := List Char

def text (n : ℕ) : Text := Nat.toDigits 10 n

/-- `$(echo "$(nproc)/$CPU_PER_GW" | bc)`. -/
def maxGwNum (nproc : ℕ) (cpuPerGw : ℚ) : ℕ := (nproc / cpuPerGw : ℚ).floor.toNat

/-- `[[ "$i" < $maxGwNum ]]`: words are compared character by character. -/
def Before (maxGwNum i : ℕ) : Prop := text i < text maxGwNum

instance (maxGwNum i : ℕ) : Decidable (Before maxGwNum i) :=
  inferInstanceAs (Decidable (text i < text maxGwNum))

/-- The loop of `lockGw` from a number on, for at most so many turns; `held` are the locks that
other gateways have. The inner result is the id, if one was locked. -/
def lockLoop (maxGwNum : ℕ) (held : ℕ → Bool) : ℕ → ℕ → Option (Option ℕ)
  | 0, _ => none
  | turns + 1, i =>
    if Before maxGwNum i then
      if held i then lockLoop maxGwNum held turns (i + 1) else some (some i)
    else some none

def lockGw (maxGwNum : ℕ) (held : ℕ → Bool) : Option (Option ℕ) :=
  lockLoop maxGwNum held (maxGwNum + 1) 0

/-- The containers of a gateway's project. -/
def containerNames (id : ℕ) (withTranscript : Bool) : List Text :=
  ("gw".toList ++ text id) :: if withTranscript then ["transcript".toList ++ text id] else []

/-- `docker ps -a .. --format '{{.Names}}' | tr -cd '0-9' | head -c1`. -/
def readId (names : List Text) : Text :=
  ((names.flatMap fun name => name ++ ['\n']).filter Char.isDigit).take 1

section Digits

variable {u v l l' : Text}

theorem ofDigitChars_cons_eq (c : Char) (u : Text) : Nat.ofDigitChars 10 (c :: u) 0 =
    10 ^ u.length * (c.toNat - '0'.toNat) + Nat.ofDigitChars 10 u 0 := by
  rw [Nat.ofDigitChars_cons, Nat.ofDigitChars_eq_ofDigitChars_zero, Nat.mul_zero, Nat.zero_add]

theorem ofDigitChars_lt (h : ∀ c ∈ u, c.isDigit = true) :
    Nat.ofDigitChars 10 u 0 < 10 ^ u.length := by
  induction u with
  | nil => exact Nat.one_pos
  | cons c u ih =>
    obtain ⟨hc, hu⟩ := List.forall_mem_cons.mp h
    have hrest := ih hu
    have hdigit : '0'.toNat ≤ c.toNat ∧ c.toNat ≤ '9'.toNat := Char.isDigit_iff_toNat.mp hc
    have hnine : c.toNat - '0'.toNat + 1 ≤ 10 := by
      have hzero : '0'.toNat = 48 := rfl
      have hninth : '9'.toNat = 57 := rfl
      omega
    have hmul := Nat.mul_le_mul_left (10 ^ u.length) hnine
    rw [ofDigitChars_cons_eq, List.length_cons, pow_succ]
    rw [Nat.mul_add] at hmul
    omega

/-- The first digit decides, then the digits after it. -/
theorem leading_lt_iff {a b x y bound : ℕ} (hx : x < bound) (hy : y < bound) :
    bound * a + x < bound * b + y ↔ a < b ∨ a = b ∧ x < y := by
  rcases lt_trichotomy a b with hab | rfl | hab
  · have hmul := Nat.mul_le_mul_left bound (Nat.succ_le_of_lt hab)
    rw [Nat.mul_succ] at hmul
    exact iff_of_true (by omega) (.inl hab)
  · simp
  · have hmul := Nat.mul_le_mul_left bound (Nat.succ_le_of_lt hab)
    rw [Nat.mul_succ] at hmul
    exact iff_of_false (by omega) (by omega)

theorem leading_eq_iff {a b x y bound : ℕ} (hx : x < bound) (hy : y < bound) :
    bound * a + x = bound * b + y ↔ a = b ∧ x = y := by
  have hlt := @leading_lt_iff a b x y bound hx hy
  have hgt := @leading_lt_iff b a y x bound hy hx
  omega

/-- Texts of as many digits compare as their numbers do, and then by what follows. -/
theorem append_lt_append_iff (hlength : u.length = v.length)
    (hu : ∀ c ∈ u, c.isDigit = true) (hv : ∀ c ∈ v, c.isDigit = true) :
    u ++ l < v ++ l' ↔ Nat.ofDigitChars 10 u 0 < Nat.ofDigitChars 10 v 0 ∨
      Nat.ofDigitChars 10 u 0 = Nat.ofDigitChars 10 v 0 ∧ l < l' := by
  induction u generalizing v with
  | nil =>
    obtain rfl := List.length_eq_zero_iff.mp hlength.symm
    simp
  | cons c u ih =>
    cases v with
    | nil => exact absurd hlength (Nat.succ_ne_zero _)
    | cons d v =>
      have hsame : u.length = v.length := Nat.succ.inj hlength
      obtain ⟨hc, hu⟩ := List.forall_mem_cons.mp hu
      obtain ⟨hd, hv⟩ := List.forall_mem_cons.mp hv
      have hcdigit : '0'.toNat ≤ c.toNat ∧ c.toNat ≤ '9'.toNat := Char.isDigit_iff_toNat.mp hc
      have hddigit : '0'.toNat ≤ d.toNat ∧ d.toNat ≤ '9'.toNat := Char.isDigit_iff_toNat.mp hd
      have hlt : c < d ↔ c.toNat - '0'.toNat < d.toNat - '0'.toNat := by
        have hchar : c < d ↔ c.toNat < d.toNat := Iff.rfl
        rw [hchar]
        omega
      have heq : c = d ↔ c.toNat - '0'.toNat = d.toNat - '0'.toNat := by
        rw [← Char.toNat_inj]
        omega
      have hx := ofDigitChars_lt hu
      have hy := ofDigitChars_lt hv
      rw [← hsame] at hy
      rw [List.cons_append, List.cons_append, List.cons_lt_cons_iff, ih hsame hu hv, hlt, heq,
        ofDigitChars_cons_eq, ofDigitChars_cons_eq, ← hsame, leading_lt_iff hx hy,
        leading_eq_iff hx hy, and_or_left, or_assoc, and_assoc]

theorem isDigit_of_mem_text {n : ℕ} {c : Char} (h : c ∈ text n) : c.isDigit = true :=
  Nat.isDigit_of_mem_toDigits (by decide) (by decide) h

theorem ofDigitChars_text (n : ℕ) : Nat.ofDigitChars 10 (text n) 0 = n :=
  Nat.ofDigitChars_ten_toDigits

theorem length_text_mono {i n : ℕ} (h : i ≤ n) : (text i).length ≤ (text n).length := by
  have hpos : 0 < (text n).length := Nat.length_toDigits_pos
  have hn : n < 10 ^ (text n).length :=
    (Nat.length_toDigits_le_iff (by decide) hpos).mp le_rfl
  exact (Nat.length_toDigits_le_iff (by decide) hpos).mpr (by omega)

/-- A smaller number comes before `n` as a text where, filled up with zeros to as many digits, it
is at most `n`. -/
theorem before_iff {i n : ℕ} (h : i < n) :
    Before n i ↔ i * 10 ^ ((text n).length - (text i).length) ≤ n := by
  set width := (text i).length with hwidth
  have hle : width ≤ (text n).length := length_text_mono h.le
  -- The digits of `n` as wide as `i`, and those after them.
  have htake : ∀ c ∈ (text n).take width, c.isDigit = true :=
    fun c hc => isDigit_of_mem_text (List.mem_of_mem_take hc)
  have hdrop : ∀ c ∈ (text n).drop width, c.isDigit = true :=
    fun c hc => isDigit_of_mem_text (List.mem_of_mem_drop hc)
  have hlength : (text i).length = ((text n).take width).length := by
    rw [List.length_take, ← hwidth]
    omega
  have hvalue : n = 10 ^ ((text n).length - width) * Nat.ofDigitChars 10 ((text n).take width) 0 +
      Nat.ofDigitChars 10 ((text n).drop width) 0 := by
    conv_lhs => rw [← ofDigitChars_text n, ← List.take_append_drop width (text n)]
    rw [Nat.ofDigitChars_append, Nat.ofDigitChars_eq_ofDigitChars_zero, List.length_drop]
  have hrest := ofDigitChars_lt hdrop
  rw [List.length_drop] at hrest
  have hsplit := @append_lt_append_iff (text i) ((text n).take width) [] ((text n).drop width)
    hlength (fun c hc => isDigit_of_mem_text hc) htake
  rw [List.append_nil, List.take_append_drop, ofDigitChars_text] at hsplit
  unfold Before
  rw [hsplit]
  set lead := Nat.ofDigitChars 10 ((text n).take width) 0
  set rest := Nat.ofDigitChars 10 ((text n).drop width) 0
  rcases hle.eq_or_lt with heq | hlt
  · have hnil : (text n).drop width = [] := List.drop_eq_nil_of_le heq.ge
    have hzero : rest = 0 := by
      change Nat.ofDigitChars 10 ((text n).drop width) 0 = 0
      rw [hnil, Nat.ofDigitChars_nil]
    have hlead : n = lead := by
      rw [hzero, ← heq, Nat.sub_self, pow_zero] at hvalue
      omega
    rw [← heq, Nat.sub_self, pow_zero]
    omega
  · have hne : [] < (text n).drop width := by
      obtain ⟨c, cs, hcs⟩ := List.exists_cons_of_ne_nil (List.drop_eq_nil_iff.not.mpr hlt.not_ge)
      rw [hcs]
      exact List.nil_lt_cons c cs
    have hpos : 0 < 10 ^ ((text n).length - width) := Nat.pow_pos (by decide)
    constructor
    · intro hcases
      have hi : i ≤ lead := by omega
      have hmul := Nat.mul_le_mul_left (10 ^ ((text n).length - width)) hi
      rw [Nat.mul_comm]
      omega
    · intro hmul
      rw [Nat.mul_comm] at hmul
      have hi : i ≤ lead := by
        by_contra hgt
        have hmul' := Nat.mul_le_mul_left (10 ^ ((text n).length - width))
          (Nat.succ_le_of_lt (Nat.lt_of_not_le hgt))
        rw [Nat.mul_succ] at hmul'
        omega
      rcases hi.lt_or_eq with hless | hsame
      · exact .inl hless
      · exact .inr ⟨hsame, hne⟩

end Digits

/-- The smallest id below a number whose lock is free. -/
def smallestFree (maxGwNum : ℕ) (held : ℕ → Bool) : Option ℕ :=
  (List.range maxGwNum).find? fun i => !held i

section Locking

variable {maxGwNum : ℕ} {held : ℕ → Bool}

/-- How the loop ended. -/
def Ended (maxGwNum : ℕ) (held : ℕ → Bool) (first : ℕ) : Option ℕ → Prop
  | some i => first ≤ i ∧ (∀ j, first ≤ j → j ≤ i → Before maxGwNum j) ∧
      (∀ j, first ≤ j → j < i → held j = true) ∧ held i = false
  | none => ∃ i, first ≤ i ∧ ¬ Before maxGwNum i ∧ ∀ j, first ≤ j → j < i → held j = true

theorem lockLoop_ended {turns first : ℕ} {result : Option ℕ}
    (h : lockLoop maxGwNum held turns first = some result) : Ended maxGwNum held first result := by
  induction turns generalizing first with
  | zero => cases h
  | succ turns ih =>
    rw [lockLoop] at h
    split at h
    · next hbefore =>
      split at h
      · next hheld =>
        have hrest := ih h
        have hfirst {j : ℕ} (hj : first ≤ j) : j = first ∨ first + 1 ≤ j := by omega
        cases result with
        | some i =>
          obtain ⟨hle, hbefores, hhelds, hfree⟩ := hrest
          refine ⟨by omega, fun j hj hji => ?_, fun j hj hji => ?_, hfree⟩
          · rcases hfirst hj with rfl | hj
            · exact hbefore
            · exact hbefores j hj hji
          · rcases hfirst hj with rfl | hj
            · exact hheld
            · exact hhelds j hj hji
        | none =>
          obtain ⟨i, hle, hstop, hhelds⟩ := hrest
          refine ⟨i, by omega, hstop, fun j hj hji => ?_⟩
          rcases hfirst hj with rfl | hj
          · exact hheld
          · exact hhelds j hj hji
      · next hfree =>
        obtain rfl := Option.some.inj h
        refine ⟨le_rfl, fun j hj hji => ?_, fun j hj hji => absurd hji (by omega), ?_⟩
        · obtain rfl := le_antisymm hj hji
          exact hbefore
        · simpa using hfree
    · next hstop =>
      obtain rfl := Option.some.inj h
      exact ⟨first, le_rfl, hstop, fun j hj hji => absurd hji (by omega)⟩

theorem not_before_self (n : ℕ) : ¬ Before n n := List.lt_irrefl (text n)

/-- The loop ends at its bound at the latest. -/
theorem isSome_lockLoop {turns first : ℕ} (hle : first ≤ maxGwNum)
    (hturns : maxGwNum < first + turns) : (lockLoop maxGwNum held turns first).isSome = true := by
  induction turns generalizing first with
  | zero => omega
  | succ turns ih =>
    rw [lockLoop]
    split
    · next hbefore =>
      have hne : first ≠ maxGwNum := by
        rintro rfl
        exact not_before_self first hbefore
      split
      · exact ih (by omega) (by omega)
      · rfl
    · rfl

theorem smallestFree_eq_some_iff {i : ℕ} : smallestFree maxGwNum held = some i ↔
    i < maxGwNum ∧ held i = false ∧ ∀ j < i, held j = true := by
  unfold smallestFree
  rw [List.find?_range_eq_some]
  simp only [List.mem_range, Bool.not_eq_true', Bool.not_not]
  exact and_left_comm

/-- The loop takes the smallest free id exactly where no number up to it ends the loop. -/
theorem lockGw_eq_iff : lockGw maxGwNum held = some (smallestFree maxGwNum held) ↔
    ∀ i, smallestFree maxGwNum held = some i → ∀ j ≤ i, Before maxGwNum j := by
  constructor
  · intro h i hi j hj
    rw [hi] at h
    exact (lockLoop_ended h).2.1 j (Nat.zero_le j) hj
  · intro h
    obtain ⟨result, hresult⟩ := Option.isSome_iff_exists.mp
      (@isSome_lockLoop maxGwNum held (maxGwNum + 1) 0 (Nat.zero_le _) (by omega))
    have hended := lockLoop_ended hresult
    rw [lockGw, hresult]
    cases result with
    | some i =>
      obtain ⟨-, hbefore, hheld, hfree⟩ := hended
      have hlt : i < maxGwNum := by
        by_contra hge
        exact not_before_self maxGwNum (hbefore maxGwNum (Nat.zero_le _) (by omega))
      rw [smallestFree_eq_some_iff.mpr ⟨hlt, hfree, fun j hj => hheld j (Nat.zero_le j) hj⟩]
    | none =>
      obtain ⟨stop, -, hstop, hheld⟩ := hended
      cases hsmallest : smallestFree maxGwNum held with
      | none => rfl
      | some i =>
        obtain ⟨-, hfree, -⟩ := smallestFree_eq_some_iff.mp hsmallest
        have hle : stop ≤ i := by
          by_contra hlt
          exact absurd (hheld i (Nat.zero_le i) (by omega)) (by simp [hfree])
        exact absurd (h i hsmallest stop hle) hstop

end Locking

section Names

variable {id : ℕ} {names : List Text}

theorem filter_name {front : Text} (hfront : ∀ c ∈ front, c.isDigit = false) :
    (front ++ text id ++ ['\n']).filter Char.isDigit = text id := by
  have hnone : front.filter Char.isDigit = [] := by
    simpa [List.filter_eq_nil_iff] using hfront
  have hall : (text id).filter Char.isDigit = text id :=
    List.filter_eq_self.mpr fun c hc => isDigit_of_mem_text hc
  have hend : ['\n'].filter Char.isDigit = [] := rfl
  rw [List.filter_append, List.filter_append, hnone, hall, hend, List.nil_append, List.append_nil]

theorem filter_containerName {withTranscript : Bool} {name : Text}
    (h : name ∈ containerNames id withTranscript) :
    (name ++ ['\n']).filter Char.isDigit = text id := by
  unfold containerNames at h
  rcases List.mem_cons.mp h with rfl | h
  · exact filter_name (List.forall_iff_forall_mem.mp ⟨rfl, rfl⟩)
  · cases withTranscript with
    | false => exact absurd h List.not_mem_nil
    | true =>
      obtain rfl := List.mem_singleton.mp h
      have hfront : "transcript".toList.all (fun c => !c.isDigit) = true := by decide
      exact filter_name fun c hc => by simpa using List.all_eq_true.mp hfront c hc

/-- In whatever order the containers are listed, the first digit of the id is read. -/
theorem readId_eq {withTranscript : Bool} (h : names.Perm (containerNames id withTranscript)) :
    readId names = (text id).take 1 := by
  have hne : text id ≠ [] := Nat.toDigits_ne_nil
  obtain ⟨digit, digits, hdigits⟩ := List.exists_cons_of_ne_nil hne
  cases names with
  | nil => exact absurd (List.nil_perm.mp h) (List.cons_ne_nil _ _)
  | cons name names =>
    have hname := filter_containerName (h.mem_iff.mp List.mem_cons_self)
    unfold readId
    rw [List.flatMap_cons, List.filter_append, hname, hdigits]
    rfl

theorem take_one_eq_iff : (text id).take 1 = text id ↔ id < 10 := by
  have hlength := @Nat.length_toDigits_le_iff 10 id 1 (by decide) Nat.one_pos
  rw [List.take_eq_self_iff]
  simpa [text] using hlength

end Names

/-- `lockGw` takes the smallest free id, or none where all are held; and from the containers of
a gateway started under an id, listed in any order, that id is read. -/
def SlotsKept (maxGwNum : ℕ) (held : ℕ → Bool) (id : ℕ) (withTranscript : Bool) : Prop :=
  lockGw maxGwNum held = some (smallestFree maxGwNum held) ∧
    ∀ names : List Text, names.Perm (containerNames id withTranscript) → readId names = text id

theorem slotsKept_iff (nproc : ℕ) (cpuPerGw : ℚ) (held : ℕ → Bool) (id : ℕ)
    (withTranscript : Bool) :
    SlotsKept (maxGwNum nproc cpuPerGw) held id withTranscript ↔
      (∀ i, smallestFree (maxGwNum nproc cpuPerGw) held = some i → ∀ j ≤ i,
        j * 10 ^ ((text (maxGwNum nproc cpuPerGw)).length - (text j).length) ≤
          maxGwNum nproc cpuPerGw) ∧ id < 10 := by
  unfold SlotsKept
  rw [lockGw_eq_iff]
  refine and_congr (forall_congr' fun i => ?_) ?_
  · refine forall_congr' fun hi => forall_congr' fun j => forall_congr' fun hj => ?_
    have hlt := (smallestFree_eq_some_iff.mp hi).1
    exact before_iff (by omega)
  · constructor
    · intro h
      exact take_one_eq_iff.mp ((readId_eq (List.Perm.refl _)).symm.trans (h _ (List.Perm.refl _)))
    · intro h names hnames
      exact (readId_eq hnames).trans (take_one_eq_iff.mpr h)

theorem maxGwNum_forty : maxGwNum 40 4 = 10 := by
  have hfloor : ((40 : ℕ) / 4 : ℚ).floor = 10 := by
    change ⌊((40 : ℕ) / 4 : ℚ)⌋ = 10
    norm_num
  rw [maxGwNum, hfloor]
  rfl

/-- Ten slots of which the first two are taken: the third one is not tried. -/
theorem third_slot_refused : ¬ SlotsKept (maxGwNum 40 4) (fun i => decide (i < 2)) 0 false := by
  rintro ⟨hlock, -⟩
  rw [maxGwNum_forty] at hlock
  exact absurd hlock (by decide)

end GatewaySlots
