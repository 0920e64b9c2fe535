import SIPMediaGW.BodyJson

/-! # The escape of a NUL character

In the text of a JSON body the six characters `\u0000` stand for a NUL character where their
backslash is not itself escaped, and a readable body has no other way to write one. -/
namespace BodyEscapes

open BodyJson
open CodePoints
open PythonJson (PyFloat)

mutual

/-- The strings of a document, its keys among them. -/
def strings : Doc → List Text
  | .str s => [s]
  | .arr xs => itemStrings xs
  | .obj members => memberStrings members
  | _ => []

def itemStrings : List Doc → List Text
  | [] => []
  | v :: xs => strings v ++ itemStrings xs

def memberStrings : List (Text × Doc) → List Text
  | [] => []
  | (key, v) :: members => key :: strings v ++ memberStrings members

end

theorem itemStrings_eq (xs : List Doc) : itemStrings xs = xs.flatMap strings := by
  induction xs with
  | nil => rfl
  | cons v xs ih => rw [itemStrings, ih, List.flatMap_cons]

def memberHeld (m : Text × Doc) : List Text := m.1 :: strings m.2

theorem memberStrings_eq (members : List (Text × Doc)) :
    memberStrings members = members.flatMap memberHeld := by
  induction members with
  | nil => rfl
  | cons m members ih => rw [memberStrings, ih, List.flatMap_cons, memberHeld]

/-- Some of the strings holds a NUL character. -/
def anyNul (ss : List Text) : Bool := ss.any fun s => decide (0 ∈ s)

theorem anyNul_append (ss ts : List Text) : anyNul (ss ++ ts) = (anyNul ss || anyNul ts) :=
  List.any_append

/-- What follows a part of a text that holds no backslash. -/
def Skips (text rest : Text) : Prop := ∃ skipped, 92 ∉ skipped ∧ text = skipped ++ rest

section Skipping

variable {c : ℕ} {cs text rest rest' : Text}

theorem Skips.refl (text : Text) : Skips text text := ⟨[], List.not_mem_nil, rfl⟩

theorem Skips.trans (h : Skips text rest) (h' : Skips rest rest') : Skips text rest' := by
  obtain ⟨xs, hxs, rfl⟩ := h
  obtain ⟨ys, hys, rfl⟩ := h'
  exact ⟨xs ++ ys, by simp [hxs, hys], (List.append_assoc ..).symm⟩

theorem Skips.cons (h : c ≠ 92) (hrest : Skips cs rest) : Skips (c :: cs) rest := by
  obtain ⟨xs, hxs, rfl⟩ := hrest
  exact ⟨c :: xs, by simp [hxs, Ne.symm h], rfl⟩

theorem Skips.length_le (h : Skips text rest) : rest.length ≤ text.length := by
  obtain ⟨xs, -, rfl⟩ := h
  rw [List.length_append]
  omega

theorem skips_dropWhile {p : ℕ → Bool} (h : p 92 = false) (text : Text) :
    Skips text (text.dropWhile p) := by
  refine ⟨text.takeWhile p, ?_, List.takeWhile_append_dropWhile.symm⟩
  intro hmem
  have htrue := List.mem_takeWhile_imp hmem
  rw [h] at htrue
  cases htrue

theorem skips_skipBlanks (text : Text) : Skips text (skipBlanks text) := skips_dropWhile rfl text

theorem isDigit_ne (h : isDigit c = true) : c ≠ 92 := by
  rintro rfl
  cases h

theorem skips_skipFraction (text : Text) : Skips text (skipFraction text) := by
  fun_cases skipFraction text with
  | case1 c cs hdigit =>
    exact .cons (by decide) (.cons (isDigit_ne hdigit) (skips_dropWhile rfl cs))
  | case2 c cs hdigit => exact .refl _
  | case3 => exact .refl _

theorem skips_skipDigits (h : skipDigits text = some rest) : Skips text rest := by
  unfold skipDigits at h
  split at h
  · cases h
    exact skips_dropWhile rfl text
  · cases h

theorem skips_skipSign {signs : List ℕ} (h : 92 ∉ signs) (text : Text) :
    Skips text (skipSign signs text) := by
  cases text with
  | nil => exact .refl _
  | cons c cs =>
    rw [skipSign]
    split
    · next hc => exact .cons (fun heq => h (heq ▸ hc)) (.refl cs)
    · exact .refl _

theorem skips_skipExponent (text : Text) : Skips text (skipExponent text) := by
  cases text with
  | nil => exact .refl _
  | cons e cs =>
    rw [skipExponent]
    split
    · next he =>
      have hsign : Skips cs (skipSign [43, 45] cs) := skips_skipSign (by decide) cs
      cases hdigits : skipDigits (skipSign [43, 45] cs) with
      | none => exact .refl _
      | some rest => exact .cons (by omega) (hsign.trans (skips_skipDigits hdigits))
    · exact .refl _

theorem wholeDigits_append (text : Text) :
    wholeDigits text ++ text.drop (wholeDigits text).length = text := by
  unfold wholeDigits
  split
  · next hzero =>
    cases text with
    | nil => cases hzero
    | cons c cs =>
      rw [List.head?_cons, Option.some.injEq] at hzero
      rw [hzero]
      rfl
  · exact List.prefix_iff_eq_append.mp (List.takeWhile_prefix isDigit)

theorem notMem_wholeDigits (text : Text) : 92 ∉ wholeDigits text := by
  unfold wholeDigits
  split
  · decide
  · exact fun hmem => isDigit_ne (List.mem_takeWhile_imp hmem) rfl

theorem integer_strings {negative : Bool} {digits : Text} {v : Doc}
    (h : integer negative digits = some v) : strings v = [] := by
  unfold integer at h
  split at h <;> cases h
  rfl

theorem literals_plain : ∀ e ∈ literals, 92 ∉ e.1 ∧ e.1 ≠ [] ∧ strings e.2 = [] := by
  decide

variable {floatOf : Text → PyFloat} {v : Doc}

theorem scanNumber_skips (h : scanNumber floatOf text = some (v, rest)) :
    strings v = [] ∧ Skips text rest ∧ rest.length < text.length := by
  unfold scanNumber at h
  dsimp only at h
  split at h
  · cases h
  · next hdigits =>
    have hsign := skips_skipSign (show 92 ∉ [45] by decide) text
    generalize skipSign [45] text = unsigned at hsign h hdigits
    have hwhole := wholeDigits_append unsigned
    have hplain := notMem_wholeDigits unsigned
    generalize wholeDigits unsigned = digits at hwhole hplain h hdigits
    generalize unsigned.drop digits.length = rest' at hwhole h
    have hdrop : Skips unsigned rest' := ⟨digits, hplain, hwhole.symm⟩
    have hshort : rest'.length < text.length := by
      have hne := List.length_pos_of_ne_nil (fun he => hdigits (List.isEmpty_iff.mpr he))
      have hle := hsign.length_le
      rw [← hwhole, List.length_append] at hle
      omega
    have hafter := (skips_skipFraction rest').trans (skips_skipExponent _)
    split at h
    · obtain ⟨w, hw, hr⟩ := Option.map_eq_some_iff.mp h
      cases hr
      exact ⟨integer_strings hw, hsign.trans hdrop, hshort⟩
    · cases h
      exact ⟨rfl, (hsign.trans hdrop).trans hafter, hafter.length_le.trans_lt hshort⟩

theorem scanAtom_skips (h : scanAtom floatOf text = some (v, rest)) :
    strings v = [] ∧ Skips text rest ∧ rest.length < text.length := by
  unfold scanAtom at h
  split at h
  · next e hfind =>
    obtain ⟨hplain, hne, hstrings⟩ := literals_plain e (List.mem_of_find?_eq_some hfind)
    have hstart := List.find?_some (p := fun e : Text × Doc => e.1.isPrefixOf text) hfind
    have hprefix := List.isPrefixOf_iff_prefix.mp hstart
    cases h
    have hpos := List.length_pos_of_ne_nil hne
    refine ⟨hstrings, ⟨e.1, hplain, (List.prefix_iff_eq_append.mp hprefix).symm⟩, ?_⟩
    have hle := hprefix.length_le
    rw [List.length_drop]
    omega
  · exact scanNumber_skips h

end Skipping

/-- `\u0000` with a backslash that is not itself escaped; the flag tells of a backslash before. -/
def hasEscape : Bool → Text → Bool
  | _, [] => false
  | false, c :: cs => hasEscape (c == 92) cs
  | true, c :: cs => [117, 48, 48, 48, 48].isPrefixOf (c :: cs) || hasEscape false cs

section Escapes

variable {c : ℕ} {cs text rest : Text}

theorem hasEscape_cons (h : c ≠ 92) : hasEscape false (c :: cs) = hasEscape false cs := by
  rw [hasEscape, beq_eq_false_iff_ne.mpr h]

theorem Skips.hasEscape_eq (h : Skips text rest) : hasEscape false rest = hasEscape false text := by
  obtain ⟨xs, hxs, rfl⟩ := h
  induction xs with
  | nil => rfl
  | cons c xs ih =>
    rw [List.mem_cons, not_or] at hxs
    rw [List.cons_append, hasEscape_cons (Ne.symm hxs.1), ih hxs.2]

theorem length_skipBlanks (text : Text) : (skipBlanks text).length ≤ text.length :=
  (skips_skipBlanks text).length_le

theorem hasEscape_skipBlanks (text : Text) :
    hasEscape false (skipBlanks text) = hasEscape false text :=
  (skips_skipBlanks text).hasEscape_eq

def isNul (u : Unit16) : Bool := u.value == 0

theorem letter_ne {d : ℕ} (h : letter c = some d) : c ≠ 117 ∧ d ≠ 0 := by
  unfold letter at h
  grind

theorem hexDigit_ne {d : ℕ} (h : hexDigit c = some d) : c ≠ 92 ∧ (d = 0 ↔ c = 48) := by
  unfold hexDigit at h
  grind

/-- What a mode has read so far, put before the text: the escape it may be in. -/
def inMode : Mode → Text → Bool
  | .plain, text => hasEscape false text
  | .escape, text => hasEscape true text
  | .hex left value, text =>
    (value == 0 && (List.replicate (left + 1) 48).isPrefixOf text) || hasEscape false text

/-- What one character does: it ends the string, changes the mode, or completes a unit. -/
theorem scanUnits_cons {mode : Mode} {us : List Unit16}
    (h : scanUnits mode (c :: cs) = some (us, rest)) :
    (us = [] ∧ rest = cs ∧ inMode mode (c :: cs) = hasEscape false cs) ∨
      (∃ mode', scanUnits mode' cs = some (us, rest) ∧
        inMode mode (c :: cs) = inMode mode' cs) ∨
      ∃ u us', us = u :: us' ∧ scanUnits .plain cs = some (us', rest) ∧
        inMode mode (c :: cs) = (isNul u || inMode .plain cs) := by
  have hunit {u : Unit16}
      (h : (scanUnits .plain cs).map (fun r => (u :: r.1, r.2)) = some (us, rest))
      (hescape : inMode mode (c :: cs) = (isNul u || inMode .plain cs)) :
      ∃ u us', us = u :: us' ∧ scanUnits .plain cs = some (us', rest) ∧
        inMode mode (c :: cs) = (isNul u || inMode .plain cs) := by
    obtain ⟨⟨us', rest'⟩, hscan, hr⟩ := Option.map_eq_some_iff.mp h
    cases hr
    exact ⟨u, us', rfl, hscan, hescape⟩
  cases mode with
  | plain =>
    rw [scanUnits] at h
    split at h
    · next hquote =>
      cases h
      exact .inl ⟨rfl, rfl, hasEscape_cons (by omega)⟩
    split at h
    · next hslash =>
      subst hslash
      exact .inr (.inl ⟨.escape, h, rfl⟩)
    next hslash =>
    split at h
    · cases h
    · next hcontrol =>
      have hnul : isNul ⟨c, false⟩ = false := beq_eq_false_iff_ne.mpr (show c ≠ 0 by omega)
      refine .inr (.inr (hunit h ?_))
      rw [hnul, Bool.false_or]
      exact hasEscape_cons hslash
  | escape =>
    rw [scanUnits] at h
    cases hletter : letter c with
    | some d =>
      rw [hletter] at h
      obtain ⟨hne, hd⟩ := letter_ne hletter
      have hnul : isNul ⟨d, false⟩ = false := beq_eq_false_iff_ne.mpr hd
      have hfirst : (117 == c) = false := beq_eq_false_iff_ne.mpr (Ne.symm hne)
      refine .inr (.inr (hunit h ?_))
      change hasEscape true (c :: cs) = (isNul ⟨d, false⟩ || hasEscape false cs)
      rw [hnul, Bool.false_or, hasEscape, List.isPrefixOf, hfirst, Bool.false_and, Bool.false_or]
    | none =>
      rw [hletter] at h
      dsimp only at h
      split at h
      · next hu =>
        subst hu
        exact .inr (.inl ⟨.hex 3 0, h, rfl⟩)
      · cases h
  | hex left value =>
    rw [scanUnits] at h
    cases hdigit : hexDigit c with
    | none =>
      rw [hdigit] at h
      cases h
    | some d =>
      rw [hdigit] at h
      obtain ⟨hne, hzero⟩ := hexDigit_ne hdigit
      have hvalue : (value * 16 + d == 0) = (value == 0 && 48 == c) := by
        rw [Bool.eq_iff_iff, Bool.and_eq_true, beq_iff_eq, beq_iff_eq, beq_iff_eq]
        omega
      cases left with
      | zero =>
        refine .inr (.inr (hunit h ?_))
        change (value == 0 && [48].isPrefixOf (c :: cs) || hasEscape false (c :: cs)) =
          (value * 16 + d == 0 || hasEscape false cs)
        rw [hasEscape_cons hne, hvalue, List.isPrefixOf, List.isPrefixOf, Bool.and_true]
      | succ left =>
        refine .inr (.inl ⟨_, h, ?_⟩)
        rw [inMode, inMode, hasEscape_cons hne, hvalue, List.replicate_succ, List.isPrefixOf,
          Bool.and_assoc]

theorem scanUnits_spec {mode : Mode} {us : List Unit16}
    (h : scanUnits mode text = some (us, rest)) : rest.length < text.length ∧
      inMode mode text = (us.any isNul || hasEscape false rest) := by
  induction text generalizing mode us with
  | nil =>
    rw [scanUnits] at h
    cases h
  | cons c cs ih =>
    rcases scanUnits_cons h with ⟨rfl, rfl, hescape⟩ | ⟨mode', hscan, hescape⟩ |
      ⟨u, us', rfl, hscan, hescape⟩
    · exact ⟨Nat.lt_succ_self _, hescape⟩
    · obtain ⟨hlength, hrest⟩ := ih hscan
      exact ⟨Nat.lt_succ_of_lt hlength, hescape.trans hrest⟩
    · obtain ⟨hlength, hrest⟩ := ih hscan
      refine ⟨Nat.lt_succ_of_lt hlength, ?_⟩
      rw [hescape, hrest, List.any_cons, Bool.or_assoc]

theorem zero_mem_joinEscapes (us : List Unit16) :
    decide (0 ∈ joinEscapes us) = us.any isNul := by
  induction us using joinEscapes.induct with
  | case1 => rfl
  | case2 u =>
    rw [joinEscapes, Bool.eq_iff_iff, decide_eq_true_eq, List.mem_singleton, List.any_cons,
      List.any_nil, Bool.or_false, isNul, beq_iff_eq]
    exact eq_comm
  | case3 u v us hpair ih =>
    have hhigh : u.value ≠ 0 ∧ v.value ≠ 0 := by
      simp only [isHigh, isLow, Bool.and_eq_true, decide_eq_true_eq] at hpair
      omega
    have hjoined : 0 ≠ joined u.value v.value := by
      unfold joined
      omega
    have hfirst : isNul u = false := beq_eq_false_iff_ne.mpr hhigh.1
    have hsecond : isNul v = false := beq_eq_false_iff_ne.mpr hhigh.2
    rw [joinEscapes, if_pos hpair, List.any_cons, List.any_cons, hfirst, hsecond, Bool.false_or,
      Bool.false_or, ← ih, Bool.eq_iff_iff, decide_eq_true_eq, decide_eq_true_eq, List.mem_cons]
    exact or_iff_right hjoined
  | case4 u v us hpair ih =>
    rw [joinEscapes, if_neg hpair, List.any_cons, ← ih, Bool.eq_iff_iff, Bool.or_eq_true,
      decide_eq_true_eq, decide_eq_true_eq, List.mem_cons, isNul, beq_iff_eq]
    exact or_congr eq_comm Iff.rfl

theorem scanString_spec {s : Text} (h : scanString text = some (s, rest)) :
    rest.length < text.length ∧
      hasEscape false text = (decide (0 ∈ s) || hasEscape false rest) := by
  obtain ⟨⟨us, rest'⟩, hscan, hr⟩ := Option.map_eq_some_iff.mp h
  cases hr
  rw [zero_mem_joinEscapes]
  exact scanUnits_spec hscan

section Readers

variable {α : Type} {entry : Text → Option (α × Text)} {held : α → List Text} {k close : ℕ}

/-- What an entry of the reader leaves is shorter, and the escapes that the reader has passed are
those of the strings it holds. -/
structure Finds (entry : Text → Option (α × Text)) (held : α → List Text) : Prop where
  shorter : ∀ {text v rest}, entry text = some (v, rest) → rest.length < text.length
  escape : ∀ {text v rest}, entry text = some (v, rest) →
    hasEscape false text = (anyNul (held v) || hasEscape false rest)

theorem Finds.scanUntil (h : Finds entry held) (hclose : close ≠ 92) :
    Finds (scanUntil entry close k) fun vs => vs.flatMap held := by
  have hboth {text rest : Text} {vs : List α}
      (hscan : BodyJson.scanUntil entry close k text = some (vs, rest)) :
      rest.length < text.length ∧
        hasEscape false text = (anyNul (vs.flatMap held) || hasEscape false rest) := by
    induction k generalizing text vs with
    | zero => cases hscan
    | succ k ih =>
      rw [BodyJson.scanUntil] at hscan
      obtain ⟨⟨v, after⟩, hv, hscan⟩ := Option.bind_eq_some_iff.mp hscan
      have hshort := h.shorter hv
      have hfirst := h.escape hv
      have hblanks := length_skipBlanks after
      rw [← hasEscape_skipBlanks after] at hfirst
      dsimp only at hscan
      split at hscan
      · cases hscan
      · next c rest' hnext =>
        rw [hnext, List.length_cons] at hblanks
        rw [hnext] at hfirst
        split at hscan
        · next hcomma =>
          obtain ⟨⟨ws, rest''⟩, hrest, hr⟩ := Option.map_eq_some_iff.mp hscan
          cases hr
          obtain ⟨hlength, hescape⟩ := ih hrest
          have hskip := length_skipBlanks rest'
          refine ⟨by dsimp only at *; omega, ?_⟩
          rw [hfirst, hasEscape_cons (by omega), ← hasEscape_skipBlanks, hescape,
            List.flatMap_cons, anyNul_append, Bool.or_assoc]
        split at hscan
        · next hend =>
          cases hscan
          refine ⟨by omega, ?_⟩
          rw [hfirst, hasEscape_cons (hend ▸ hclose), List.flatMap_cons, List.flatMap_nil,
            List.append_nil]
        · cases hscan
  exact ⟨fun hscan => (hboth hscan).1, fun hscan => (hboth hscan).2⟩

theorem Finds.scanEntries (h : Finds entry held) (hclose : close ≠ 92) :
    Finds (scanEntries entry close) fun vs => vs.flatMap held := by
  have huntil {k : ℕ} := h.scanUntil (k := k) hclose
  constructor
  · intro text vs rest hscan
    have hblanks := length_skipBlanks text
    unfold BodyJson.scanEntries at hscan
    split at hscan
    · next hend =>
      obtain ⟨rest', hrest⟩ := List.head?_eq_some_iff.mp hend
      cases hscan
      rw [hrest, List.length_cons] at hblanks
      rw [hrest, List.drop_succ_cons, List.drop_zero]
      omega
    · exact (huntil.shorter hscan).trans_le hblanks
  · intro text vs rest hscan
    rw [← hasEscape_skipBlanks]
    unfold BodyJson.scanEntries at hscan
    split at hscan
    · next hend =>
      obtain ⟨rest', hrest⟩ := List.head?_eq_some_iff.mp hend
      cases hscan
      rw [hrest, hasEscape_cons hclose]
      rfl
    · exact huntil.escape hscan



end Readers

variable {element : Text → Option (Doc × Text)}

theorem Finds.scanMember (h : Finds element strings) :
    Finds (scanMember element) memberHeld := by
  have hboth {text rest : Text} {m : Text × Doc}
      (hscan : BodyJson.scanMember element text = some (m, rest)) : rest.length < text.length ∧
        hasEscape false text = (anyNul (memberHeld m) || hasEscape false rest) := by
    unfold BodyJson.scanMember at hscan
    split at hscan
    · next text' =>
      obtain ⟨⟨key, after⟩, hkey, hscan⟩ := Option.bind_eq_some_iff.mp hscan
      obtain ⟨hshort, hfirst⟩ := scanString_spec hkey
      have hblanks := length_skipBlanks after
      rw [← hasEscape_skipBlanks after] at hfirst
      dsimp only at hscan
      split at hscan
      · next rest' hcolon =>
        obtain ⟨⟨v, rest''⟩, hv, hr⟩ := Option.map_eq_some_iff.mp hscan
        cases hr
        have hvalue := h.escape hv
        have hlength := h.shorter hv
        have hnext := length_skipBlanks rest'
        rw [hasEscape_skipBlanks] at hvalue
        rw [hcolon, List.length_cons] at hblanks
        refine ⟨show rest''.length < text'.length + 1 by omega, ?_⟩
        rw [hasEscape_cons (by decide), hfirst, hcolon, hasEscape_cons (by decide), hvalue,
          memberHeld, anyNul, anyNul, List.any_cons, Bool.or_assoc]
      · cases hscan
    · cases hscan
  exact ⟨fun hscan => (hboth hscan).1, fun hscan => (hboth hscan).2⟩

variable {floatOf : Text → PyFloat}

theorem finds_scanOnce_of {depth : ℕ}
    (ih : ∀ d, depth = d + 1 → Finds (scanOnce floatOf d) strings) :
    Finds (scanOnce floatOf depth) strings := by
  have hboth {text rest : Text} {v : Doc} (h : scanOnce floatOf depth text = some (v, rest)) :
      rest.length < text.length ∧
        hasEscape false text = (anyNul (strings v) || hasEscape false rest) := by
    cases text with
    | nil =>
      rw [scanOnce] at h
      cases h
    | cons c cs =>
      unfold scanOnce at h
      split at h
      · next hquote =>
        obtain ⟨⟨s, rest'⟩, hscan, hr⟩ := Option.map_eq_some_iff.mp h
        cases hr
        obtain ⟨hshort, hescape⟩ := scanString_spec hscan
        refine ⟨Nat.lt_succ_of_lt hshort, ?_⟩
        rw [hasEscape_cons (by omega), hescape, strings, anyNul, List.any_cons, List.any_nil,
          Bool.or_false]
      split at h
      · next hbracket =>
        cases depth with
        | zero => cases h
        | succ depth =>
          obtain ⟨⟨xs, rest'⟩, hscan, hr⟩ := Option.map_eq_some_iff.mp h
          cases hr
          have hitems := (ih depth rfl).scanEntries (show (93 : ℕ) ≠ 92 by decide)
          refine ⟨Nat.lt_succ_of_lt (hitems.shorter hscan), ?_⟩
          rw [hasEscape_cons (by omega), hitems.escape hscan, strings, itemStrings_eq]
      split at h
      · next hbrace =>
        cases depth with
        | zero => cases h
        | succ depth =>
          obtain ⟨⟨members, rest'⟩, hscan, hr⟩ := Option.map_eq_some_iff.mp h
          cases hr
          have hmembers := (ih depth rfl).scanMember.scanEntries (show (125 : ℕ) ≠ 92 by decide)
          refine ⟨Nat.lt_succ_of_lt (hmembers.shorter hscan), ?_⟩
          rw [hasEscape_cons (by omega), hmembers.escape hscan, strings, memberStrings_eq]
      · obtain ⟨hstrings, hskips, hshort⟩ := scanAtom_skips h
        refine ⟨hshort, ?_⟩
        rw [hstrings, hskips.hasEscape_eq]
        rfl
  exact ⟨fun h => (hboth h).1, fun h => (hboth h).2⟩

theorem finds_scanOnce (depth : ℕ) : Finds (scanOnce floatOf depth) strings := by
  induction depth with
  | zero => exact finds_scanOnce_of fun d hd => nomatch hd
  | succ depth ih =>
    refine finds_scanOnce_of fun d hd => ?_
    obtain rfl := Nat.succ.inj hd
    exact ih

theorem hasEscape_readText {maxDepth : ℕ} {v : Doc} (h : readText floatOf maxDepth text = some v) :
    hasEscape false text = anyNul (strings v) := by
  obtain ⟨⟨v', rest⟩, hscan, h⟩ := Option.bind_eq_some_iff.mp h
  have hfinds := (finds_scanOnce maxDepth).escape hscan
  dsimp only at h
  split at h
  · next hend =>
    cases h
    rw [hasEscape_skipBlanks, ← hasEscape_skipBlanks rest, hend] at hfinds
    rw [hfinds, hasEscape, Bool.or_false]
  · cases h

end Escapes

end BodyEscapes
