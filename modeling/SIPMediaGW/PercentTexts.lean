import SIPMediaGW.Utf8Text

/-! # Percent sequences

Texts in which a percent sign and two hexadecimal digits stand for a byte. Reading one never
gives more ASCII characters than it has, and gives fewer as soon as it has a sequence. -/
namespace PercentTexts

open Utf8Text

def isAscii (c : Char) : Bool := c.toNat < 128

def isAsciiByte (b : UInt8) : Bool := b.toNat < 128

def hexValue (c : Char) : Option ℕ :=
  let n := c.toNat
  if 48 ≤ n ∧ n ≤ 57 then some (n - 48)
  else if 65 ≤ n ∧ n ≤ 70 then some (n - 55)
  else if 97 ≤ n ∧ n ≤ 102 then some (n - 87)
  else none

/-- The byte of two hexadecimal digits at the front. -/
def hexByte : List Char → Option UInt8
  | a :: b :: _ => do some (UInt8.ofNat (16 * (← hexValue a) + (← hexValue b)))
  | _ => none

/-- The byte of a percent sequence at the front. -/
def sequenceByte (c : Char) (cs : List Char) : Option UInt8 := if c = '%' then hexByte cs else none

/-- The bytes of a text, with the number of characters still to leave out. -/
def decodeFrom : ℕ → List Char → List UInt8
  | _, [] => []
  | skip + 1, _ :: cs => decodeFrom skip cs
  | 0, c :: cs =>
    match sequenceByte c cs with
    | some b => b :: decodeFrom 2 cs
    | none => String.utf8EncodeChar c ++ decodeFrom 0 cs

/-- Percent sequences as their bytes, all else as UTF-8. -/
def percentDecode (cs : List Char) : List UInt8 := decodeFrom 0 cs

def hasSequence : List Char → Bool
  | [] => false
  | c :: cs => (sequenceByte c cs).isSome || hasSequence cs

/-- The sequence of a byte, in capital digits. -/
def percentByte (b : UInt8) : List Char :=
  ['%', (Nat.digitChar (b.toNat / 16)).toUpper, (Nat.digitChar (b.toNat % 16)).toUpper]

/-- A reading of bytes as UTF-8 that replaces what is malformed. A byte of an ASCII character is
never part of another one, nor of what is malformed. -/
structure Replacing where
  read : List UInt8 → List Char
  read_encode : ∀ cs, read (encode cs) = cs
  count_ascii : ∀ bs, (read bs).countP isAscii = bs.countP isAsciiByte

theorem toNat_of_isUpper {c : Char} (h : c.isUpper = true) : 65 ≤ c.toNat ∧ c.toNat ≤ 90 :=
  of_decide_eq_true h

theorem toNat_of_isLower {c : Char} (h : c.isLower = true) : 97 ≤ c.toNat ∧ c.toNat ≤ 122 :=
  (Bool.and_eq_true_iff.mp h).imp of_decide_eq_true of_decide_eq_true

theorem toNat_of_isAlpha {c : Char} (h : c.isAlpha = true) : 65 ≤ c.toNat ∧ c.toNat ≤ 122 := by
  rcases Bool.or_eq_true_iff.mp h with h | h
  · obtain ⟨hle, hge⟩ := toNat_of_isUpper h
    omega
  · obtain ⟨hle, hge⟩ := toNat_of_isLower h
    omega

theorem toNat_of_isAlphanum {c : Char} (h : c.isAlphanum = true) :
    48 ≤ c.toNat ∧ c.toNat ≤ 122 := by
  rcases Bool.or_eq_true_iff.mp h with h | h
  · obtain ⟨hle, hge⟩ := toNat_of_isAlpha h
    omega
  · obtain ⟨hle, hge⟩ := Char.isDigit_iff_toNat.mp h
    have hzero : '0'.toNat = 48 := rfl
    have hnine : '9'.toNat = 57 := rfl
    omega

section Sequences

variable {c : Char} {cs : List Char} {b : UInt8}

theorem decodeFrom_eq (skip : ℕ) (cs : List Char) :
    decodeFrom skip cs = percentDecode (cs.drop skip) := by
  induction skip generalizing cs with
  | zero => rfl
  | succ skip ih =>
    cases cs with
    | nil => rfl
    | cons c cs => exact ih cs

theorem percentDecode_some (h : sequenceByte c cs = some b) :
    percentDecode (c :: cs) = b :: percentDecode (cs.drop 2) := by
  rw [percentDecode, decodeFrom, h, decodeFrom_eq]

theorem percentDecode_none (h : sequenceByte c cs = none) :
    percentDecode (c :: cs) = String.utf8EncodeChar c ++ percentDecode cs := by
  rw [percentDecode, decodeFrom, h, percentDecode]

/-- A sequence has three characters, all of them ASCII. -/
theorem exists_of_sequence (h : sequenceByte c cs = some b) :
    ∃ x y rest, c = '%' ∧ cs = x :: y :: rest ∧ (hexValue x).isSome ∧ (hexValue y).isSome := by
  unfold sequenceByte at h
  split at h
  · next hc =>
    unfold hexByte at h
    split at h
    · next x y rest =>
      obtain ⟨m, hm, h⟩ := Option.bind_eq_some_iff.mp h
      obtain ⟨n, hn, -⟩ := Option.bind_eq_some_iff.mp h
      exact ⟨x, y, rest, hc, rfl, Option.isSome_of_eq_some hm, Option.isSome_of_eq_some hn⟩
    · cases h
  · cases h

theorem isAscii_of_hexValue (h : (hexValue c).isSome = true) : isAscii c = true := by
  have hrange : c.toNat < 128 := by
    unfold hexValue at h
    dsimp only at h
    split_ifs at h <;> first | omega | cases h
  exact decide_eq_true hrange

/-- The bytes of a character are ASCII where it is. -/
theorem countP_utf8EncodeChar (c : Char) :
    (String.utf8EncodeChar c).countP isAsciiByte = if isAscii c then 1 else 0 := by
  have hvalue : c.toNat = c.val.toNat := rfl
  have hlt (n : ℕ) : isAsciiByte (UInt8.ofNat n) = decide (n % 256 < 128) := by
    unfold isAsciiByte
    rw [UInt8.toNat_ofNat']
  unfold String.utf8EncodeChar isAscii
  rw [hvalue]
  dsimp only
  split_ifs <;> simp only [List.countP_cons, List.countP_nil, hlt, decide_eq_true_eq] at * <;>
    split_ifs <;> omega

theorem countP_encode (cs : List Char) : (encode cs).countP isAsciiByte = cs.countP isAscii := by
  induction cs with
  | nil => rfl
  | cons c cs ih =>
    rw [encode_cons, List.countP_append, ih, countP_utf8EncodeChar, List.countP_cons, Nat.add_comm]

/-- What is read has fewer ASCII characters where there is a sequence. -/
theorem countP_percentDecode (cs : List Char) :
    (percentDecode cs).countP isAsciiByte ≤ cs.countP isAscii ∧
    ((percentDecode cs).countP isAsciiByte = cs.countP isAscii → hasSequence cs = false) := by
  induction hn : cs.length using Nat.strongRecOn generalizing cs with
  | ind n ih =>
    subst hn
    cases cs with
    | nil => exact ⟨Nat.le_refl _, fun _ => rfl⟩
    | cons c cs =>
      cases h : sequenceByte c cs with
      | none =>
        obtain ⟨hle, heq⟩ := ih cs.length (Nat.lt_succ_self _) cs rfl
        rw [percentDecode_none h, List.countP_append, countP_utf8EncodeChar, List.countP_cons,
          hasSequence, h]
        refine ⟨by omega, fun hcount => ?_⟩
        exact heq (by omega)
      | some b =>
        obtain ⟨x, y, rest, rfl, rfl, hx, hy⟩ := exists_of_sequence h
        obtain ⟨hle, -⟩ := ih rest.length (by simp only [List.length_cons]; omega) rest rfl
        have hpercent : isAscii '%' = true := by decide
        have hone : (if isAsciiByte b = true then 1 else 0) ≤ 1 := by split <;> omega
        rw [percentDecode_some h, List.countP_cons, List.countP_cons, List.countP_cons,
          List.countP_cons, if_pos (isAscii_of_hexValue hx), if_pos (isAscii_of_hexValue hy),
          if_pos hpercent]
        change _ + _ ≤ _ ∧ (_ + _ = _ → _)
        simp only [List.drop_succ_cons, List.drop_zero] at hle ⊢
        exact ⟨by omega, fun hcount => absurd hcount (by omega)⟩

theorem percentDecode_of_plain (h : hasSequence cs = false) : percentDecode cs = encode cs := by
  induction cs with
  | nil => rfl
  | cons c cs ih =>
    rw [hasSequence, Bool.or_eq_false_iff] at h
    rw [percentDecode_none (Option.not_isSome_iff_eq_none.mp (by simp [h.1])), ih h.2, encode_cons]

theorem hexValue_digit (n : ℕ) (h : n < 16) : hexValue (Nat.digitChar n).toUpper = some n := by
  have hall : ∀ n : Fin 16, hexValue (Nat.digitChar n).toUpper = some n.val := by decide
  exact hall ⟨n, h⟩

/-- A byte comes back from its sequence. -/
theorem percentDecode_percentByte (b : UInt8) (cs : List Char) :
    percentDecode (percentByte b ++ cs) = b :: percentDecode cs := by
  have hb : b.toNat < 256 := b.toNat_lt
  have hsequence : sequenceByte '%' ((Nat.digitChar (b.toNat / 16)).toUpper ::
      (Nat.digitChar (b.toNat % 16)).toUpper :: cs) = some b := by
    have hbyte : 16 * (b.toNat / 16) + b.toNat % 16 = b.toNat := by omega
    rw [sequenceByte, if_pos rfl, hexByte, hexValue_digit _ (by omega), hexValue_digit _ (by omega)]
    dsimp only [bind, Option.bind]
    rw [hbyte, UInt8.ofNat_toNat]
  exact percentDecode_some hsequence

theorem percentDecode_flatMap (bs : List UInt8) (cs : List Char) :
    percentDecode (bs.flatMap percentByte ++ cs) = bs ++ percentDecode cs := by
  induction bs with
  | nil => rfl
  | cons b bs ih =>
    rw [List.flatMap_cons, List.append_assoc, percentDecode_percentByte, ih, List.cons_append]

end Sequences

/-- ASCII characters that are written as their sequences, the percent sign among them. -/
structure Marks where
  isMark : Char → Bool
  percent : isMark '%' = true
  ascii : ∀ c, isMark c = true → isAscii c = true

def Marks.escapeChar (m : Marks) (c : Char) : List Char :=
  if m.isMark c then percentByte (UInt8.ofNat c.toNat) else [c]

def Marks.escape (m : Marks) (cs : List Char) : List Char := cs.flatMap m.escapeChar

section Escapes

variable {m : Marks} {c : Char}

theorem utf8EncodeChar_ascii (h : isAscii c = true) :
    String.utf8EncodeChar c = [UInt8.ofNat c.toNat] := by
  have hlow : c.val.toNat ≤ 0x7f := Nat.le_of_lt_succ (of_decide_eq_true h)
  rw [String.utf8EncodeChar]
  exact if_pos hlow

theorem percentDecode_escape (m : Marks) (cs : List Char) :
    percentDecode (m.escape cs) = encode cs := by
  induction cs with
  | nil => rfl
  | cons c cs ih =>
    rw [Marks.escape, List.flatMap_cons, Marks.escapeChar, encode_cons, ← ih]
    by_cases hmark : m.isMark c = true
    · rw [if_pos hmark, percentDecode_percentByte, utf8EncodeChar_ascii (m.ascii c hmark)]
      rfl
    · have hpercent : c ≠ '%' := fun heq => hmark (heq ▸ m.percent)
      rw [if_neg hmark]
      exact percentDecode_none (if_neg hpercent)

/-- A mark that is not part of a sequence is not written. -/
theorem notMem_escape (hmark : m.isMark c = true) (hpercent : c ≠ '%') (hhex : hexValue c = none)
    (cs : List Char) : c ∉ m.escape cs := by
  intro hmem
  obtain ⟨d, -, hd⟩ := List.mem_flatMap.mp hmem
  unfold Marks.escapeChar at hd
  split at hd
  · have hb := UInt8.toNat_lt (UInt8.ofNat d.toNat)
    have hdigit (n : ℕ) (hn : n < 16) : c ≠ (Nat.digitChar n).toUpper := by
      rintro rfl
      rw [hexValue_digit n hn] at hhex
      cases hhex
    rcases List.mem_cons.mp hd with heq | hd
    · exact hpercent heq
    · rcases List.mem_pair.mp hd with heq | heq
      · exact hdigit _ (by omega) heq
      · exact hdigit _ (by omega) heq
  · next hplain =>
    obtain rfl := List.mem_singleton.mp hd
    exact hplain hmark

end Escapes

end PercentTexts
