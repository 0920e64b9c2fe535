import Mathlib.Algebra.Group.Nat.Defs

/-! # Escape sequences

A backslash, then a letter that stands for one character or for a number of hexadecimal digits
to come. A decoder yields code points, and reads one character at a time. -/
namespace EscapedTexts

def hexValue (c : Char) : Option ℕ :=
  if '0' ≤ c ∧ c ≤ '9' then some (c.toNat - 48)
  else if 'a' ≤ c ∧ c ≤ 'f' then some (c.toNat - 87)
  else if 'A' ≤ c ∧ c ≤ 'F' then some (c.toNat - 55)
  else none

/-- The lowest digits of a number, in lower case. -/
def toHex : ℕ → ℕ → List Char
  | 0, _ => []
  | width + 1, n => toHex width (n / 16) ++ [Nat.digitChar (n % 16)]

/-- The letters after a backslash: a character, or how many digits follow. -/
structure Escapes where
  letter : Char → Option Char
  width : Char → Option ℕ

inductive Mode where
  | plain
  | escape
  | hex (left value : ℕ)

/-- The code points of a text; `none` where an escape is not one. -/
def decode (e : Escapes) : Mode → List Char → Option (List ℕ)
  | .plain, [] => some []
  | .escape, [] => none
  | .hex _ _, [] => none
  | .plain, c :: cs =>
    if c = '\\' then decode e .escape cs else (decode e .plain cs).map (c.toNat :: ·)
  | .escape, c :: cs =>
    match e.letter c, e.width c with
    | some d, _ => (decode e .plain cs).map (d.toNat :: ·)
    | none, some width => decode e (.hex width 0) cs
    | none, none => none
  | .hex left value, c :: cs =>
    (hexValue c).bind fun digit =>
      if left = 1 then (decode e .plain cs).map ((16 * value + digit) :: ·)
      else decode e (.hex (left - 1) (16 * value + digit)) cs

/-- The character of a code point that is not a surrogate. -/
def scalar (n : ℕ) : Option Char := if n.isValidChar then some (Char.ofNat n) else none

/-- Every code point as a character. -/
def scalars : List ℕ → Option (List Char)
  | [] => some []
  | n :: ns => (scalar n).bind fun c => (scalars ns).map (c :: ·)

theorem scalar_toNat (c : Char) : scalar c.toNat = some c := by
  have hvalid : c.toNat.isValidChar := c.valid
  rw [scalar, if_pos hvalid, Char.ofNat_toNat]

theorem scalars_map_toNat (cs : List Char) : scalars (cs.map Char.toNat) = some cs := by
  induction cs with
  | nil => rfl
  | cons c cs ih =>
    rw [List.map_cons, scalars, scalar_toNat, Option.bind_some, ih, Option.map_some]

theorem hexValue_digitChar {n : ℕ} (h : n < 16) : hexValue (Nat.digitChar n) = some n := by
  have hall : ∀ k : Fin 16, hexValue (Nat.digitChar k) = some k.val := by decide
  exact hall ⟨n, h⟩

/-- No digit is a backslash or a quote. -/
theorem digitChar_plain {n : ℕ} (h : n < 16) :
    Nat.digitChar n ≠ '\\' ∧ Nat.digitChar n ≠ '\'' ∧ Nat.digitChar n ≠ '"' := by
  have hall : ∀ k : Fin 16, Nat.digitChar k ≠ '\\' ∧ Nat.digitChar k ≠ '\'' ∧
      Nat.digitChar k ≠ '"' := by decide
  exact hall ⟨n, h⟩

theorem toHex_plain {width n : ℕ} {c : Char} (h : c ∈ toHex width n) :
    c ≠ '\\' ∧ c ≠ '\'' ∧ c ≠ '"' := by
  induction width generalizing n with
  | zero => cases h
  | succ width ih =>
    rcases List.mem_append.mp h with h | h
    · exact ih h
    · obtain rfl := List.mem_singleton.mp h
      exact digitChar_plain (Nat.mod_lt n (by decide))

theorem toHex_visible {width n : ℕ} {c : Char} (h : c ∈ toHex width n) :
    32 < c.toNat ∧ c.toNat < 127 := by
  have hall : ∀ k : Fin 16, 32 < (Nat.digitChar k).toNat ∧ (Nat.digitChar k).toNat < 127 := by
    decide
  induction width generalizing n with
  | zero => cases h
  | succ width ih =>
    rcases List.mem_append.mp h with h | h
    · exact ih h
    · obtain rfl := List.mem_singleton.mp h
      exact hall ⟨n % 16, Nat.mod_lt n (by decide)⟩

section Decode

variable {e : Escapes} {cs : List Char}

theorem decode_plain {c : Char} (h : c ≠ '\\') :
    decode e .plain (c :: cs) = (decode e .plain cs).map (c.toNat :: ·) := by
  rw [decode, if_neg h]

theorem decode_letter {c d : Char} (h : e.letter c = some d) :
    decode e .plain ('\\' :: c :: cs) = (decode e .plain cs).map (d.toNat :: ·) := by
  rw [decode, if_pos rfl, decode, h]

theorem decode_width {c : Char} {width : ℕ} (hl : e.letter c = none) (hw : e.width c = some width) :
    decode e .plain ('\\' :: c :: cs) = decode e (.hex width 0) cs := by
  rw [decode, if_pos rfl, decode, hl, hw]

/-- All digits but the last ones. -/
theorem decode_toHex {width left n : ℕ} (value : ℕ) (hleft : 0 < left) (hn : n < 16 ^ width) :
    decode e (.hex (width + left) value) (toHex width n ++ cs) =
      decode e (.hex left (value * 16 ^ width + n)) cs := by
  induction width generalizing n left cs with
  | zero =>
    obtain rfl : n = 0 := by simpa using hn
    simp [toHex]
  | succ width ih =>
    have hdiv : n / 16 < 16 ^ width :=
      Nat.div_lt_of_lt_mul (by rwa [Nat.pow_succ, Nat.mul_comm] at hn)
    have hvalue : 16 * (value * 16 ^ width + n / 16) + n % 16 = value * 16 ^ (width + 1) + n := by
      rw [Nat.pow_succ]
      have hn := Nat.div_add_mod n 16
      have hassoc : value * (16 ^ width * 16) = 16 * (value * 16 ^ width) := by
        rw [Nat.mul_comm 16, Nat.mul_assoc]
      omega
    have hsum : width + 1 + left = width + (left + 1) := by omega
    have hone : ¬ left + 1 = 1 := by omega
    rw [toHex, List.append_assoc, hsum, ih (by omega) hdiv, List.singleton_append, decode,
      hexValue_digitChar (Nat.mod_lt n (by decide)), Option.bind_some, if_neg hone,
      Nat.add_sub_cancel, hvalue]

/-- The digits of a number that fits. -/
theorem decode_hex {width n : ℕ} (hn : n < 16 ^ (width + 1)) :
    decode e (.hex (width + 1) 0) (toHex (width + 1) n ++ cs) =
      (decode e .plain cs).map (n :: ·) := by
  have hdiv : n / 16 < 16 ^ width :=
    Nat.div_lt_of_lt_mul (by rwa [Nat.pow_succ, Nat.mul_comm] at hn)
  have hn := Nat.div_add_mod n 16
  rw [toHex, List.append_assoc, decode_toHex 0 Nat.one_pos hdiv, List.singleton_append, decode,
    hexValue_digitChar (Nat.mod_lt n (by decide)), Option.bind_some, if_pos rfl, Nat.zero_mul,
    Nat.zero_add, hn]

end Decode

/-- One character of a text: the mode after it, and what it yields. -/
inductive DecodeStep (e : Escapes) : Mode → Char → Mode → List ℕ → Prop where
  | plain {c : Char} (h : c ≠ '\\') : DecodeStep e .plain c .plain [c.toNat]
  | opens : DecodeStep e .plain '\\' .escape []
  | letter {c d : Char} (h : e.letter c = some d) : DecodeStep e .escape c .plain [d.toNat]
  | width {c : Char} {w : ℕ} (hl : e.letter c = none) (hw : e.width c = some w) :
      DecodeStep e .escape c (.hex w 0) []
  | last {c : Char} {value digit : ℕ} (h : hexValue c = some digit) :
      DecodeStep e (.hex 1 value) c .plain [16 * value + digit]
  | digit {c : Char} {left value digit : ℕ} (h : hexValue c = some digit) (hleft : left ≠ 1) :
      DecodeStep e (.hex left value) c (.hex (left - 1) (16 * value + digit)) []

section Steps

variable {e : Escapes} {m : Mode} {c : Char} {cs : List Char} {ns : List ℕ}

theorem decode_cons (h : decode e m (c :: cs) = some ns) : ∃ m' front ms,
    DecodeStep e m c m' front ∧ decode e m' cs = some ms ∧ ns = front ++ ms := by
  cases m with
  | plain =>
    rw [decode] at h
    split at h
    · next hc =>
      subst hc
      exact ⟨_, _, ns, .opens, h, rfl⟩
    · next hc =>
      obtain ⟨ms, hms, rfl⟩ := Option.map_eq_some_iff.mp h
      exact ⟨_, _, ms, .plain hc, hms, rfl⟩
  | escape =>
    rw [decode] at h
    split at h
    · next d hd =>
      obtain ⟨ms, hms, rfl⟩ := Option.map_eq_some_iff.mp h
      exact ⟨_, _, ms, .letter hd, hms, rfl⟩
    · next hl hw => exact ⟨_, _, ns, .width hl hw, h, rfl⟩
    · cases h
  | hex left value =>
    rw [decode] at h
    obtain ⟨digit, hdigit, hrest⟩ := Option.bind_eq_some_iff.mp h
    clear h
    split at hrest
    · next hleft =>
      subst hleft
      obtain ⟨ms, hms, rfl⟩ := Option.map_eq_some_iff.mp hrest
      exact ⟨_, _, ms, .last hdigit, hms, rfl⟩
    · next hleft => exact ⟨_, _, ns, .digit hdigit hleft, hrest, rfl⟩

theorem decode_of_notMem (h : '\\' ∉ cs) : decode e .plain cs = some (cs.map Char.toNat) := by
  induction cs with
  | nil => rfl
  | cons c cs ih =>
    obtain ⟨hc, hcs⟩ := not_or.mp (mt List.mem_cons.mpr h)
    rw [decode_plain (Ne.symm hc), ih hcs, Option.map_some, List.map_cons]

/-- A character that no escape can have is one of the text. -/
theorem mem_decode (hc : c ≠ '\\') (hl : e.letter c = none) (hw : e.width c = none)
    (hx : hexValue c = none) (hmem : c ∈ cs) (h : decode e m cs = some ns) : c.toNat ∈ ns := by
  induction cs generalizing m ns with
  | nil => cases hmem
  | cons d cs ih =>
    obtain ⟨m', front, ms, hstep, hrest, rfl⟩ := decode_cons h
    clear h
    rcases List.mem_cons.mp hmem with rfl | hmem
    · cases hstep with
      | plain => exact List.mem_append_left _ (List.mem_singleton_self _)
      | opens => exact absurd rfl hc
      | letter h => cases hl.symm.trans h
      | width _ h => cases hw.symm.trans h
      | last h => cases hx.symm.trans h
      | digit h => cases hx.symm.trans h
    · exact List.mem_append_right _ (ih hmem hrest)

/-- An escaped backslash or quote is in what is decoded. -/
theorem mem_decode_of_pair (hbackslash : e.letter '\\' = some '\\') (hc : e.letter c = some c)
    (hpair : ['\\', c] <:+: cs) (h : decode e m cs = some ns) :
    '\\'.toNat ∈ ns ∨ c.toNat ∈ ns := by
  induction cs generalizing m ns with
  | nil => simp at hpair
  | cons d cs ih =>
    obtain ⟨m', front, ms, hstep, hrest, rfl⟩ := decode_cons h
    clear h
    rcases List.infix_cons_iff.mp hpair with hpre | hpair
    · obtain ⟨rfl, hnext⟩ := List.cons_prefix_cons.mp hpre
      clear hpre hpair ih
      cases hstep with
      | plain h => exact absurd rfl h
      | opens =>
        obtain ⟨after, rfl⟩ := hnext
        obtain ⟨m'', front, ms, hstep, -, rfl⟩ := decode_cons hrest
        clear hrest
        cases hstep with
        | letter h =>
          obtain rfl := Option.some.inj (hc.symm.trans h)
          exact Or.inr (by simp)
        | width h => cases hc.symm.trans h
      | letter h =>
        obtain rfl := Option.some.inj (hbackslash.symm.trans h)
        exact Or.inl (by simp)
      | width h => cases hbackslash.symm.trans h
      | last h => cases h
      | digit h => cases h
    · rcases ih hpair hrest with hmem | hmem
      · exact Or.inl (List.mem_append_right _ hmem)
      · exact Or.inr (List.mem_append_right _ hmem)

/-- A text whose only escapes are slashes. -/
theorem decode_slashes (hslash : e.letter '/' = some '/')
    (hpairs : ∀ d, ['\\', d] <:+: cs → d = '/') (h : decode e .plain cs = some ns) :
    ns = (cs.filter (· ≠ '\\')).map Char.toNat := by
  suffices hboth : ∀ m, (m = .plain ∨ m = .escape ∧ ∀ d, cs.head? = some d → d = '/') →
      ∀ ns, decode e m cs = some ns → ns = (cs.filter (· ≠ '\\')).map Char.toNat from
    hboth .plain (Or.inl rfl) ns h
  clear h
  induction cs with
  | nil =>
    intro m hm ns h
    rcases hm with rfl | ⟨rfl, -⟩
    · exact (Option.some.inj h).symm
    · cases h
  | cons c cs ih =>
    intro m hm ns h
    have hnext := ih fun d hd => hpairs d (hd.trans (List.suffix_cons c cs).isInfix)
    obtain ⟨m', front, ms, hstep, hrest, rfl⟩ := decode_cons h
    clear h
    rcases hm with rfl | ⟨rfl, hhead⟩
    · cases hstep with
      | plain hc =>
        rw [List.filter_cons, if_pos (decide_eq_true hc), hnext .plain (Or.inl rfl) ms hrest]
        rfl
      | opens =>
        refine hnext .escape (Or.inr ⟨rfl, fun d hd => hpairs d ?_⟩) ms hrest
        cases cs with
        | nil => cases hd
        | cons d' cs =>
          obtain rfl := Option.some.inj hd
          exact (List.prefix_append ['\\', d'] cs).isInfix
    · obtain rfl := hhead c rfl
      cases hstep with
      | letter h =>
        obtain rfl := Option.some.inj (hslash.symm.trans h)
        rw [hnext .plain (Or.inl rfl) ms hrest]
        rfl
      | width h => cases hslash.symm.trans h

end Steps

end EscapedTexts
