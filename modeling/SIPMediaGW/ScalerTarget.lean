import SIPMediaGW.MediaCleanup
import Mathlib.Data.String.Basic
import Mathlib.Tactic.Linarith

/-! # The target of one scaling step

The slot of a time of day is looked up in the order of texts, which for padded times is the
order of time. -/
namespace ScalerTarget

open IngestMapping
open MediaCleanup (plainConfig plainProvider)
open PythonArithmetic
open PythonJson
open Scaler
open StatefulExceptions

structure TimeOfDay where
  hours : ℕ
  minutes : ℕ
  seconds : ℕ
  hours_lt : hours < 24
  minutes_lt : minutes < 60
  seconds_lt : seconds < 60

def digitPair (n : ℕ) : List Char := [Nat.digitChar (n / 10), Nat.digitChar (n % 10)]

/-- `HH:MM:SS`, zeros in front. -/
def TimeOfDay.text (t : TimeOfDay) : String :=
  String.ofList (digitPair t.hours ++ ':' :: (digitPair t.minutes ++ ':' :: digitPair t.seconds))

def TimeOfDay.time (t : TimeOfDay) : ℤ := t.hours * 3600 + t.minutes * 60 + t.seconds

def midnight : TimeOfDay := ⟨0, 0, 0, Nat.succ_pos 23, Nat.succ_pos 59, Nat.succ_pos 59⟩

section Texts

variable {a b : ℕ} {l l' : List Char}

theorem digitChar_lt (ha : a < 10) (hb : b < 10) :
    Nat.digitChar a < Nat.digitChar b ↔ a < b := by
  have hall : ∀ i j : Fin 10, Nat.digitChar i < Nat.digitChar j ↔ i.val < j.val := by decide
  exact hall ⟨a, ha⟩ ⟨b, hb⟩

theorem digitChar_inj (ha : a < 10) (hb : b < 10) :
    Nat.digitChar a = Nat.digitChar b ↔ a = b := by
  have hall : ∀ i j : Fin 10, Nat.digitChar i = Nat.digitChar j ↔ i.val = j.val := by decide
  exact hall ⟨a, ha⟩ ⟨b, hb⟩

/-- Two digits compare as their numbers do. -/
theorem digitPair_lt (ha : a < 100) (hb : b < 100) :
    digitPair a ++ l < digitPair b ++ l' ↔ a < b ∨ a = b ∧ l < l' := by
  have hten : a / 10 < 10 ∧ b / 10 < 10 ∧ a % 10 < 10 ∧ b % 10 < 10 := by omega
  obtain ⟨hten, hten', hone, hone'⟩ := hten
  simp only [digitPair, List.cons_append, List.nil_append, List.cons_lt_cons_iff,
    digitChar_lt hten hten', digitChar_inj hten hten', digitChar_lt hone hone',
    digitChar_inj hone hone']
  constructor
  · rintro (htens | ⟨htens, hones | ⟨hones, hrest⟩⟩)
    · left
      omega
    · left
      omega
    · exact Or.inr ⟨by omega, hrest⟩
  · rintro (hlt | ⟨rfl, hrest⟩)
    · by_cases htens : a / 10 < b / 10
      · exact Or.inl htens
      · exact Or.inr ⟨by omega, Or.inl (by omega)⟩
    · exact Or.inr ⟨rfl, Or.inr ⟨rfl, hrest⟩⟩

theorem text_lt_iff (s t : TimeOfDay) : s.text < t.text ↔ s.time < t.time := by
  have hnil : ¬ ([] : List Char) < [] := List.not_lt_nil _
  have hcolon : ¬ (':' : Char) < ':' := lt_irrefl _
  have hbounds := s.hours_lt
  have hbounds' := t.hours_lt
  have hminutes := s.minutes_lt
  have hminutes' := t.minutes_lt
  have hseconds := s.seconds_lt
  have hseconds' := t.seconds_lt
  rw [String.lt_iff, TimeOfDay.text, TimeOfDay.text, String.toList_ofList, String.toList_ofList,
    digitPair_lt (by omega) (by omega), List.cons_lt_cons_iff,
    digitPair_lt (by omega) (by omega), List.cons_lt_cons_iff,
    ← List.append_nil (digitPair s.seconds), ← List.append_nil (digitPair t.seconds),
    digitPair_lt (by omega) (by omega)]
  simp only [hnil, hcolon, and_false, or_false, false_or, true_and, TimeOfDay.time]
  omega

theorem text_le_iff (s t : TimeOfDay) : s.text ≤ t.text ↔ s.time ≤ t.time := by
  rw [← not_lt, text_lt_iff, not_lt]

theorem split_digitPair (hn : a < 60) (rest : List Char) :
    split ':' (digitPair a ++ ':' :: rest) = digitPair a :: split ':' rest := by
  have hall : ∀ i : Fin 10, Nat.digitChar i ≠ ':' := by decide
  have htens : Nat.digitChar (a / 10) ≠ ':' := hall ⟨a / 10, by omega⟩
  have hones : Nat.digitChar (a % 10) ≠ ':' := hall ⟨a % 10, by omega⟩
  simp [digitPair, split, htens, hones]

theorem split_lastPair (hn : a < 60) : split ':' (digitPair a) = [digitPair a] := by
  have hall : ∀ i : Fin 10, Nat.digitChar i ≠ ':' := by decide
  have htens : Nat.digitChar (a / 10) ≠ ':' := hall ⟨a / 10, by omega⟩
  have hones : Nat.digitChar (a % 10) ≠ ':' := hall ⟨a % 10, by omega⟩
  simp [digitPair, split, htens, hones]

theorem timeField_digitPair {limit : ℕ} (hlimit : limit < 60) (hn : a ≤ limit) :
    timeField limit (digitPair a) = some a := by
  have hall : ∀ i : Fin 10, (Nat.digitChar i).isDigit = true ∧
      (Nat.digitChar i).toNat - 48 = i.val := by decide
  obtain ⟨htens, htens'⟩ := hall ⟨a / 10, by omega⟩
  obtain ⟨hones, hones'⟩ := hall ⟨a % 10, by omega⟩
  have hvalue : a / 10 * 10 + a % 10 = a := by omega
  simp only [digitPair, timeField, htens, hones, htens', hones', hvalue, hn, and_self, if_true]

theorem getSeconds_text (t : TimeOfDay) : getSeconds t.text = .ok t.time := by
  have hhours := t.hours_lt
  have hminutes := t.minutes_lt
  have hseconds := t.seconds_lt
  rw [getSeconds, TimeOfDay.text, String.toList_ofList, split_digitPair (by omega),
    split_digitPair hminutes, split_lastPair hseconds]
  simp only [timeField_digitPair (show 23 < 60 by decide) (show t.hours ≤ 23 by omega),
    timeField_digitPair (show 59 < 60 by decide) (show t.minutes ≤ 59 by omega),
    timeField_digitPair (show 59 < 60 by decide) (show t.seconds ≤ 59 by omega), TimeOfDay.time]

end Texts

section Lookup

variable {timeLine : List (String × Slot)} {now : TimeOfDay}

/-- Every slot starts at a padded time. -/
def Padded (timeLine : List (String × Slot)) : Prop := ∀ e ∈ timeLine, ∃ t : TimeOfDay, e.1 = t.text

/-- The slot with the greatest start that is not after a time. -/
structure Current (timeLine : List (String × Slot)) (now start : TimeOfDay) (slot : Slot) :
    Prop where
  mem : (start.text, slot) ∈ timeLine
  started : start.time ≤ now.time
  greatest : ∀ (other : TimeOfDay) slot', (other.text, slot') ∈ timeLine →
    other.time ≤ now.time → other.time ≤ start.time

/-- What is found is at the least distance. -/
theorem nearest_padded (seconds : ℤ) (hpadded : Padded timeLine) (hne : timeLine ≠ []) :
    ∃ start slot, (TimeOfDay.text start, slot) ∈ timeLine ∧
      nearest seconds timeLine = .ok (some (|start.time - seconds|, slot)) ∧
      ∀ (other : TimeOfDay) slot', (other.text, slot') ∈ timeLine →
        |start.time - seconds| ≤ |other.time - seconds| := by
  induction timeLine with
  | nil => exact absurd rfl hne
  | cons e rest ih =>
    obtain ⟨key, slot⟩ := e
    obtain ⟨⟨t, ht⟩, hrest⟩ := List.forall_mem_cons.mp hpadded
    obtain rfl : key = t.text := ht
    have hdistance {other : TimeOfDay} {slot' : Slot} (h : (other.text, slot') = (t.text, slot)) :
        other.time = t.time := by
      have htext : other.text = t.text := congrArg Prod.fst h
      exact le_antisymm ((text_le_iff _ _).mp htext.le) ((text_le_iff _ _).mp htext.ge)
    by_cases hempty : rest = []
    · subst hempty
      refine ⟨t, slot, List.mem_cons_self, ?_, fun other slot' hmem => ?_⟩
      · simp [nearest, getSeconds_text, bind, Except.bind]
      · rw [hdistance (List.mem_singleton.mp hmem)]
    · obtain ⟨start, found, hmem, hnearest, hleast⟩ := ih hrest hempty
      have hnear : nearest seconds ((t.text, slot) :: rest) =
          .ok (some (if |start.time - seconds| < |t.time - seconds|
            then (|start.time - seconds|, found) else (|t.time - seconds|, slot))) := by
        rw [nearest, getSeconds_text, hnearest]
        rfl
      by_cases hlt : |start.time - seconds| < |t.time - seconds|
      · rw [if_pos hlt] at hnear
        refine ⟨start, found, List.mem_cons_of_mem _ hmem, hnear, fun other slot' hother => ?_⟩
        rcases List.mem_cons.mp hother with heq | hother
        · rw [hdistance heq]
          exact hlt.le
        · exact hleast other slot' hother
      · rw [if_neg hlt] at hnear
        refine ⟨t, slot, List.mem_cons_self, hnear, fun other slot' hother => ?_⟩
        rcases List.mem_cons.mp hother with heq | hother
        · rw [hdistance heq]
        · exact (not_lt.mp hlt).trans (hleast other slot' hother)

/-- Among the slots that have started, the nearest start is the greatest. -/
theorem slotAt_padded (hpadded : Padded timeLine)
    (hmidnight : ∃ slot, (midnight.text, slot) ∈ timeLine) (now : TimeOfDay) :
    ∃ start slot, Current timeLine now start slot ∧ slotAt timeLine now.text = .ok slot := by
  let started := timeLine.filter fun e => decide (e.1 ≤ now.text)
  have hmem {t : TimeOfDay} {slot : Slot} :
      (t.text, slot) ∈ started ↔ (t.text, slot) ∈ timeLine ∧ t.time ≤ now.time := by
    rw [List.mem_filter, decide_eq_true_iff, text_le_iff]
  have hne : started ≠ [] := by
    obtain ⟨slot, hslot⟩ := hmidnight
    have hzero : midnight.time ≤ now.time := by
      simp only [midnight, TimeOfDay.time]
      omega
    exact List.ne_nil_of_mem (hmem.mpr ⟨hslot, hzero⟩)
  have hstarted : Padded started := fun e he => hpadded e (List.mem_of_mem_filter he)
  obtain ⟨start, slot, hstart, hnearest, hleast⟩ := nearest_padded now.time hstarted hne
  obtain ⟨hslot, hle⟩ := hmem.mp hstart
  refine ⟨start, slot, ⟨hslot, hle, fun other slot' hother hotherLe => ?_⟩, ?_⟩
  · have hcloser := hleast other slot' (hmem.mpr ⟨hother, hotherLe⟩)
    rw [abs_of_nonpos (by omega), abs_of_nonpos (by omega)] at hcloser
    omega
  · have hempty : started.isEmpty = false := by
      rw [List.isEmpty_eq_false_iff]
      exact hne
    rw [slotAt, if_neg (by rw [hempty]; decide), getSeconds_text]
    dsimp only [bind, Except.bind]
    rw [hnearest]

end Lookup

/-- The numbers of a slot; the floor and the buffer are 0 where the slot names none. -/
structure Asks (slot : Slot) (maxGw minGw unlockedMin : ℕ) (loadMax : ℚ) : Prop where
  most : slot.maxGw = some (maxGw : ℚ)
  floor : slot.minGw.getD 0 = minGw
  buffer : slot.unlockedMin.getD 0 = unlockedMin
  load : slot.loadMax = some loadMax
  positive : 0 < loadMax

/-- What the floor, the buffer and the load ask for. -/
def wanted (minGw unlockedMin : ℕ) (loadMax : ℚ) (inCallNum : ℤ) : ℚ :=
  max (max minGw (unlockedMin + inCallNum)) (inCallNum / loadMax)

def target (maxGw minGw unlockedMin : ℕ) (loadMax : ℚ) (inCallNum : ℤ) : ℤ :=
  ⌈min (maxGw : ℚ) (wanted minGw unlockedMin loadMax inCallNum)⌉

section Guarantees

variable {maxGw minGw unlockedMin : ℕ} {loadMax : ℚ} {inCallNum : ℤ}

theorem target_le_maxGw : target maxGw minGw unlockedMin loadMax inCallNum ≤ maxGw :=
  Int.ceil_le.mpr (by exact_mod_cast min_le_left _ _)

/-- What the documentation promises of the capacity while the maximum does not bind. -/
structure Served (minGw unlockedMin : ℕ) (loadMax : ℚ) (inCallNum capacity : ℤ) : Prop where
  floor : minGw ≤ capacity
  buffer : unlockedMin ≤ capacity - inCallNum
  load : (inCallNum : ℚ) ≤ loadMax * capacity

theorem served_target (hpos : 0 < loadMax)
    (hfree : wanted minGw unlockedMin loadMax inCallNum ≤ maxGw) :
    Served minGw unlockedMin loadMax inCallNum
      (target maxGw minGw unlockedMin loadMax inCallNum) := by
  have hle : wanted minGw unlockedMin loadMax inCallNum ≤
      target maxGw minGw unlockedMin loadMax inCallNum := by
    rw [target, min_eq_right hfree]
    exact Int.le_ceil _
  refine ⟨?_, ?_, ?_⟩
  · have hfloor : (minGw : ℚ) ≤ target maxGw minGw unlockedMin loadMax inCallNum :=
      ((le_max_left _ _).trans (le_max_left _ _)).trans hle
    exact_mod_cast hfloor
  · have hbuffer : (unlockedMin + inCallNum : ℚ) ≤
        target maxGw minGw unlockedMin loadMax inCallNum :=
      ((le_max_right _ _).trans (le_max_left _ _)).trans hle
    have hsum : unlockedMin + inCallNum ≤ target maxGw minGw unlockedMin loadMax inCallNum := by
      exact_mod_cast hbuffer
    omega
  · rw [← div_le_iff₀' hpos]
    exact (le_max_right _ _).trans hle

theorem capacityIncrease_asks {slot : Slot} {current ready : ℤ}
    (h : Asks slot maxGw minGw unlockedMin loadMax) :
    capacityIncrease .exact slot current ready none =
      .ok (target maxGw minGw unlockedMin loadMax (current - ready) - current) := by
  refine capacityIncrease_eq_ok.mpr ⟨maxGw, loadMax, h.most, h.load, h.positive.ne', ?_⟩
  rw [missing_exact, Slot.asked, h.floor, h.buffer, target, wanted]
  simp only [number_exact]

end Guarantees

section Step

variable {ρ : Type} {dates : Dates}

/-- An operation that returns and adds to the capacity. -/
def ChangesBy (capacity : World ρ → ℤ) (operation : Scaling ρ Unit) (w : World ρ) (n : ℤ) : Prop :=
  ∃ w', exec operation w = (.ok (), w') ∧ capacity w' = capacity w + n

/-- The number of gateways a step decides to add. -/
def Decides (timeLine : List (String × Slot)) (scaleTime : String) (current ready n : ℤ) : Prop :=
  ∃ slot, slotAt timeLine scaleTime = .ok slot ∧
    capacityIncrease .exact slot current ready none = .ok n

theorem changesBy_adjust {csp : Provider dates} {cfg : Config} {downScale : ℤ → Scaling ρ Unit}
    {capacity : World ρ → ℤ} {w : World ρ} {n : ℤ}
    (hup : 0 < n → ChangesBy capacity (csp.upScale ⌈n * cfg.cpuPerGw⌉) w n)
    (hdown : n < 0 → ChangesBy capacity (downScale |n|) w n) :
    ChangesBy capacity (adjust .exact csp cfg downScale n) w n := by
  rw [adjust]
  split
  · next hpos => exact hup hpos
  split
  · next hneg => exact hdown hneg
  · have hzero : n = 0 := by omega
    exact ⟨w, rfl, by rw [hzero, add_zero]⟩

/-- One step brings the capacity to the target of the slot of the time. -/
theorem scale_target (csp : Provider dates) (cfg : Config) (timeLine : List (String × Slot))
    (now : TimeOfDay) (getCurrentCapacity getReadyToRunCapacity : Scaling ρ ℤ)
    (downScale : ℤ → Scaling ρ Unit) (capacity : World ρ → ℤ) (w : World ρ) (current ready : ℤ)
    (hcapacity : capacity w = current)
    (hcurrent : exec getCurrentCapacity w = (.ok current, w))
    (hready : exec getReadyToRunCapacity w = (.ok ready, w))
    (hpadded : Padded timeLine) (hmidnight : ∃ slot, ("00:00:00", slot) ∈ timeLine)
    (hup : ∀ n, Decides timeLine now.text current ready n → 0 < n →
      ChangesBy capacity (csp.upScale ⌈n * cfg.cpuPerGw⌉) w n)
    (hdown : ∀ n, Decides timeLine now.text current ready n → n < 0 →
      ChangesBy capacity (downScale |n|) w n) :
    ∃ start slot, Current timeLine now start slot ∧
      ∀ (maxGw minGw unlockedMin : ℕ) (loadMax : ℚ),
        Asks slot maxGw minGw unlockedMin loadMax → ∃ w' increase,
          exec (scale .exact csp cfg timeLine now.text none getCurrentCapacity getReadyToRunCapacity
            downScale) w = (.ok (), w') ∧
          exec (scale .exact csp cfg timeLine now.text none getCurrentCapacity getReadyToRunCapacity
            downScale) w = exec (adjust .exact csp cfg downScale increase) w ∧
          capacity w' = target maxGw minGw unlockedMin loadMax (current - ready) ∧
          capacity w' ≤ maxGw ∧
          (wanted minGw unlockedMin loadMax (current - ready) ≤ maxGw →
            Served minGw unlockedMin loadMax (current - ready) (capacity w') ∧
            (increase < 0 → |increase| ≤ ready - unlockedMin)) := by
  obtain ⟨start, slot, hslot, hat⟩ := slotAt_padded hpadded hmidnight now
  refine ⟨start, slot, hslot, fun maxGw minGw unlockedMin loadMax hasks => ?_⟩
  have hdecided : capacityIncrease .exact slot current ready none =
      .ok (target maxGw minGw unlockedMin loadMax (current - ready) - current) :=
    capacityIncrease_asks hasks
  have hdecides : Decides timeLine now.text current ready
      (target maxGw minGw unlockedMin loadMax (current - ready) - current) :=
    ⟨slot, hat, hdecided⟩
  have hrun : exec (scale .exact csp cfg timeLine now.text none getCurrentCapacity
      getReadyToRunCapacity downScale) w = exec (adjust .exact csp cfg downScale
        (target maxGw minGw unlockedMin loadMax (current - ready) - current)) w := by
    rw [exec_scale hat hcurrent hready, hdecided]
  obtain ⟨w', hadjust, hchanged⟩ := changesBy_adjust
    (hup _ hdecides) (hdown _ hdecides)
  have hreached : capacity w' = target maxGw minGw unlockedMin loadMax (current - ready) := by
    rw [hchanged, hcapacity]
    omega
  refine ⟨w', _, hrun.trans hadjust, hrun, hreached, ?_, fun hfree => ?_⟩
  · rw [hreached]
    exact target_le_maxGw
  · have hserved := served_target hasks.positive hfree
    have hbuffer := hserved.buffer
    rw [hreached]
    refine ⟨hserved, fun hneg => ?_⟩
    rw [abs_of_neg hneg]
    omega

/-- Six gateways, five of them ready, and a timeline that asks for a buffer of two by day. -/
def dayLine : List (String × Slot) :=
  [("00:00:00", ⟨some 4, none, none, some 1⟩), ("08:00:00", ⟨some 10, some 2, none, some (3 / 4)⟩),
   ("19:30:00", ⟨some 4, some 1, some 1, some 1⟩)]

def noon : TimeOfDay := ⟨12, 5, 9, by decide, by decide, by decide⟩

/-- The store is the capacity. -/
def removeGateways (numGW : ℤ) : Scaling ℤ Unit :=
  modify fun w => { w with store := w.store - numGW }

theorem noon_padded : Padded dayLine := by
  intro e he
  simp only [dayLine, List.mem_cons, List.not_mem_nil, or_false] at he
  rcases he with rfl | rfl | rfl
  · exact ⟨midnight, by decide +kernel⟩
  · exact ⟨⟨8, 0, 0, by decide, by decide, by decide⟩, by decide +kernel⟩
  · exact ⟨⟨19, 30, 0, by decide, by decide, by decide⟩, by decide +kernel⟩

theorem noon_decides {n : ℤ} (h : Decides dayLine noon.text 6 5 n) : n = -3 := by
  obtain ⟨slot, hslot, hn⟩ := h
  have hat : slotAt dayLine noon.text = .ok ⟨some 10, some 2, none, some (3 / 4)⟩ := by
    decide +kernel
  have hthree :
      capacityIncrease .exact ⟨some 10, some 2, none, some (3 / 4)⟩ 6 5 none = .ok (-3) := by
    decide +kernel
  obtain rfl := Except.ok.inj (hslot.symm.trans hat)
  exact Except.ok.inj (hn.symm.trans hthree)

theorem noon_target : ∃ start slot, Current dayLine noon start slot ∧
    ∀ (maxGw minGw unlockedMin : ℕ) (loadMax : ℚ),
      Asks slot maxGw minGw unlockedMin loadMax → ∃ w' increase,
        exec (scale .exact plainProvider plainConfig dayLine noon.text none (pure 6) (pure 5)
          removeGateways) ⟨6, []⟩ = (.ok (), w') ∧
        exec (scale .exact plainProvider plainConfig dayLine noon.text none (pure 6) (pure 5)
          removeGateways) ⟨6, []⟩ =
            exec (adjust .exact plainProvider plainConfig removeGateways increase) ⟨6, []⟩ ∧
        w'.store = target maxGw minGw unlockedMin loadMax (6 - 5) ∧
        w'.store ≤ maxGw ∧
        (wanted minGw unlockedMin loadMax (6 - 5) ≤ maxGw →
          Served minGw unlockedMin loadMax (6 - 5) w'.store ∧
          (increase < 0 → |increase| ≤ 5 - unlockedMin)) := by
  refine scale_target plainProvider plainConfig dayLine noon (pure 6) (pure 5) removeGateways
    World.store ⟨6, []⟩ 6 5 rfl (exec_pure _ _) (exec_pure _ _) noon_padded
    ⟨⟨some 4, none, none, some 1⟩, List.mem_cons_self⟩ (fun n hn hpos => ?_) fun n hn hneg => ?_
  · have hthree := noon_decides hn
    omega
  · obtain rfl := noon_decides hn
    exact ⟨⟨3, []⟩, rfl, rfl⟩

end Step

end ScalerTarget
