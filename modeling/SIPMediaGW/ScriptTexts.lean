import Mathlib.Data.List.TakeWhile
import Mathlib.Order.MinMax
import Mathlib.Tactic.SplitIfs
import SIPMediaGW.EscapedTexts

/-! # Texts of JavaScript

Scripts that consist of names, marks and string literals, cut into tokens. The value of a string
literal is a list of UTF-16 code units. -/
namespace ScriptTexts

open EscapedTexts (hexValue)

/-- The code units of a code point. -/
def unitsOf (n : ℕ) : List ℕ :=
  if n < 0x10000 then [n]
  else [0xD800 + (n - 0x10000) / 0x400, 0xDC00 + (n - 0x10000) % 0x400]

def units (cs : List Char) : List ℕ := cs.flatMap fun c => unitsOf c.toNat

def isLineTerminator (c : Char) : Bool := c.toNat ∈ [10, 13, 8232, 8233]

def hexNumber (digits : List Char) : Option ℕ :=
  digits.foldlM (fun n d => (hexValue d).map (16 * n + ·)) 0

/-- `\xHH` and `\uHHHH`. -/
def hexEscape (width : ℕ) (cs : List Char) : Option (List ℕ × ℕ) :=
  if (cs.take width).length = width then
    (hexNumber (cs.take width)).map fun n => ([n], width + 1)
  else none

/-- `\u{H...}`, of which `cs` is what follows the brace. -/
def braceEscape (cs : List Char) : Option (List ℕ × ℕ) :=
  let digits := cs.takeWhile fun c => (hexValue c).isSome
  if digits ≠ [] ∧ (cs.drop digits.length).head? = some '}' then
    (hexNumber digits).bind fun n =>
      if n ≤ 0x10FFFF then some (unitsOf n, digits.length + 3) else none
  else none

def isOctal (c : Char) : Bool := decide ('0' ≤ c) && decide (c ≤ '7')

/-- The digits of a legacy octal escape, whose value is below 256. -/
def octalDigits (c : Char) (cs : List Char) : List Char :=
  ((c :: cs).takeWhile isOctal).take (if c ≤ '3' then 3 else 2)

def octalNumber (digits : List Char) : ℕ :=
  digits.foldl (fun n d => 8 * n + (d.toNat - 48)) 0

/-- A letter for a control character; any other character is escaped to itself. -/
def letter (c : Char) : ℕ :=
  if c = 'b' then 8
  else if c = 't' then 9
  else if c = 'n' then 10
  else if c = 'v' then 11
  else if c = 'f' then 12
  else if c = 'r' then 13
  else c.toNat

/-- What stands after a backslash: its code units and the number of its characters. -/
def escape : List Char → Option (List ℕ × ℕ)
  | [] => none
  | c :: cs =>
    if c = 'x' then hexEscape 2 cs
    else if c = 'u' then
      if cs.head? = some '{' then braceEscape (cs.drop 1) else hexEscape 4 cs
    else if isOctal c then some ([octalNumber (octalDigits c cs)], (octalDigits c cs).length)
    else if c = '\r' ∧ cs.head? = some '\n' then some ([], 2)
    else if isLineTerminator c then some ([], 1)
    else some (unitsOf (letter c), 1)

/-- The value of a literal and what follows it, after its opening quote and with the number of
characters still to leave out. -/
def literal (quote : Char) : ℕ → List Char → Option (List ℕ × List Char)
  | _, [] => none
  | skip + 1, _ :: cs => literal quote skip cs
  | 0, c :: cs =>
    if c = quote then some ([], cs)
    else if c = '\\' then
      (escape cs).bind fun e => (literal quote e.2 cs).map fun r => (e.1 ++ r.1, r.2)
    else if c = '\n' ∨ c = '\r' then none
    else (literal quote 0 cs).map fun r => (unitsOf c.toNat ++ r.1, r.2)

inductive Token where
  | name (s : List Char)
  | mark (c : Char)
  | text (ns : List ℕ)
  deriving DecidableEq

def isBlank (c : Char) : Bool :=
  let n := c.toNat
  isLineTerminator c || decide (n ∈ [9, 11, 12, 32, 160, 5760, 8239, 8287, 12288, 65279]) ||
    (decide (8192 ≤ n) && decide (n ≤ 8202))

def isNameStart (c : Char) : Bool := c.isAlpha || decide (c ∈ ['$', '_'])

def isNamePart (c : Char) : Bool := c.isAlphanum || decide (c ∈ ['$', '_'])

def isMark (c : Char) : Bool := c ∈ ['.', '=', '(', ')', ',', ';']

/-- What follows a comment between `/*` and `*/`. -/
def afterComment : List Char → Option (List Char)
  | [] => none
  | c :: cs => if c = '*' ∧ cs.head? = some '/' then some (cs.drop 1) else afterComment cs

/-- At most one token at the front, and what follows it. -/
def next : List Char → Option (List Token × List Char)
  | [] => none
  | c :: cs =>
    if isBlank c then some ([], cs)
    else if c = '/' ∧ cs.head? = some '/' then
      some ([], cs.dropWhile fun d => !isLineTerminator d)
    else if c = '/' ∧ cs.head? = some '*' then
      (afterComment (cs.drop 1)).map fun rest => ([], rest)
    else if c = '\'' ∨ c = '"' then (literal c 0 cs).map fun r => ([.text r.1], r.2)
    else if isNameStart c then some ([.name (c :: cs.takeWhile isNamePart)],
      cs.dropWhile isNamePart)
    else if isMark c then some ([.mark c], cs)
    else none

def tokensIn : ℕ → List Char → Option (List Token)
  | _, [] => some []
  | 0, _ :: _ => none
  | fuel + 1, c :: cs =>
    (next (c :: cs)).bind fun r => (tokensIn fuel r.2).map (r.1 ++ ·)

/-- The tokens of a script; `none` where it has others than names, marks and string literals. -/
def tokens (cs : List Char) : Option (List Token) := tokensIn cs.length cs

section Units

variable {c : Char} {cs : List Char} {n : ℕ}

theorem length_unitsOf_pos (n : ℕ) : 0 < (unitsOf n).length := by
  unfold unitsOf
  split
  · exact Nat.one_pos
  · exact Nat.two_pos

theorem length_unitsOf_le (n : ℕ) : (unitsOf n).length ≤ 2 := by
  unfold unitsOf
  split
  · exact Nat.le_succ 1
  · exact le_refl 2

theorem units_cons (c : Char) (cs : List Char) : units (c :: cs) = unitsOf c.toNat ++ units cs :=
  List.flatMap_cons

theorem units_append (cs ds : List Char) : units (cs ++ ds) = units cs ++ units ds :=
  List.flatMap_append

theorem length_le_units (cs : List Char) : cs.length ≤ (units cs).length := by
  induction cs with
  | nil => exact le_refl 0
  | cons c cs ih =>
    have hpos := length_unitsOf_pos c.toNat
    rw [units_cons, List.length_append, List.length_cons]
    omega

/-- An escaped letter is not longer than its unescaped form. -/
theorem length_letter_le (c : Char) : (unitsOf (letter c)).length ≤ (unitsOf c.toNat).length := by
  have hpos := length_unitsOf_pos c.toNat
  unfold letter
  split_ifs
  · exact hpos
  · exact hpos
  · exact hpos
  · exact hpos
  · exact hpos
  · exact hpos
  · exact le_refl _

end Units

section Escapes

variable {c : Char} {cs : List Char} {ns : List ℕ} {k width : ℕ}

/-- A text of an escape without quotes, and a value that is not longer. -/
def Shortened (cs : List Char) (ns : List ℕ) (k : ℕ) : Prop :=
  k ≤ cs.length ∧ ns.length ≤ (units (cs.take k)).length ∧
    (k = 1 ∨ 1 < k ∧ ∀ c ∈ cs.take k, c ≠ '\'' ∧ c ≠ '"')

theorem isSome_of_foldlM {digits : List Char} {m n : ℕ}
    (h : digits.foldlM (fun n d => (hexValue d).map (16 * n + ·)) m = some n) :
    ∀ d ∈ digits, (hexValue d).isSome = true := by
  induction digits generalizing m with
  | nil => exact List.forall_mem_nil _
  | cons d digits ih =>
    rw [List.foldlM_cons] at h
    obtain ⟨l, hl, h⟩ := Option.bind_eq_some_iff.mp h
    obtain ⟨value, hvalue, -⟩ := Option.map_eq_some_iff.mp hl
    exact List.forall_mem_cons.mpr ⟨by rw [hvalue, Option.isSome_some], ih h⟩

theorem unquoted_of_hex (h : (hexValue c).isSome = true) : c ≠ '\'' ∧ c ≠ '"' := by
  constructor
  · rintro rfl
    cases h
  · rintro rfl
    cases h

theorem shortened_cons (hlen : 0 < k) (hk : k ≤ cs.length) (hns : ns.length ≤ k + 1)
    (hc : c ≠ '\'' ∧ c ≠ '"') (hcs : ∀ d ∈ cs.take k, d ≠ '\'' ∧ d ≠ '"') :
    Shortened (c :: cs) ns (k + 1) := by
  refine ⟨Nat.succ_le_succ hk, ?_, .inr ⟨Nat.succ_lt_succ hlen, ?_⟩⟩
  · have hunits := length_le_units ((c :: cs).take (k + 1))
    rw [List.length_take, List.length_cons, min_eq_left (Nat.succ_le_succ hk)] at hunits
    exact hns.trans hunits
  · rw [List.take_succ_cons]
    exact List.forall_mem_cons.mpr ⟨hc, hcs⟩

theorem shortened_hexEscape (hwidth : 0 < width) (hc : c ≠ '\'' ∧ c ≠ '"')
    (h : hexEscape width cs = some (ns, k)) : Shortened (c :: cs) ns k := by
  unfold hexEscape at h
  split at h
  · next hlen =>
    obtain ⟨n, hn, hpair⟩ := Option.map_eq_some_iff.mp h
    obtain ⟨rfl, rfl⟩ := Prod.mk.inj hpair
    rw [List.length_take, min_eq_left_iff] at hlen
    refine shortened_cons hwidth hlen (Nat.le_add_left 1 width) hc fun d hd => ?_
    exact unquoted_of_hex (isSome_of_foldlM hn d hd)
  · cases h

theorem shortened_braceEscape (h : braceEscape cs = some (ns, k)) :
    Shortened ('u' :: '{' :: cs) ns k := by
  unfold braceEscape at h
  dsimp only at h
  split at h
  · next hbrace =>
    obtain ⟨-, hclose⟩ := hbrace
    obtain ⟨n, hn, h⟩ := Option.bind_eq_some_iff.mp h
    split at h
    · obtain ⟨rfl, rfl⟩ := Prod.mk.inj (Option.some.inj h)
      generalize hdigits : (cs.takeWhile fun c => (hexValue c).isSome) = digits at hn hclose ⊢
      have hprefix : digits <+: cs := hdigits ▸ List.takeWhile_prefix _
      obtain ⟨rest, rfl⟩ := hprefix
      rw [List.drop_left] at hclose
      obtain ⟨rest, rfl⟩ := List.head?_eq_some_iff.mp hclose
      have hlen : digits.length + 2 ≤ ('{' :: (digits ++ '}' :: rest)).length := by
        rw [List.length_cons, List.length_append, List.length_cons]
        omega
      have htake : ('{' :: (digits ++ '}' :: rest)).take (digits.length + 2) =
          '{' :: (digits ++ ['}']) := by
        rw [List.take_succ_cons, List.take_length_add_append]
        rfl
      refine shortened_cons (Nat.succ_pos _) hlen ?_ ⟨by decide, by decide⟩ ?_
      · exact (length_unitsOf_le n).trans (by omega)
      · rw [htake]
        refine List.forall_mem_cons.mpr ⟨⟨by decide, by decide⟩, fun d hd => ?_⟩
        rcases List.mem_append.mp hd with hd | hd
        · exact unquoted_of_hex (isSome_of_foldlM hn d hd)
        · obtain rfl := List.mem_singleton.mp hd
          exact ⟨by decide, by decide⟩
    · cases h
  · cases h

theorem octalDigits_spec (h : isOctal c = true) : ∃ digits, octalDigits c cs = c :: digits ∧
    digits <+: cs ∧ ∀ d ∈ digits, isOctal d = true := by
  have hwidth : ∃ m, (if c ≤ '3' then 3 else 2) = m + 1 := by
    split
    · exact ⟨2, rfl⟩
    · exact ⟨1, rfl⟩
  obtain ⟨m, hm⟩ := hwidth
  refine ⟨(cs.takeWhile isOctal).take m, ?_, ?_, fun d hd => ?_⟩
  · rw [octalDigits, hm, List.takeWhile_cons_of_pos h, List.take_succ_cons]
  · exact (List.take_prefix _ _).trans (List.takeWhile_prefix _)
  · exact List.mem_takeWhile_imp (List.mem_of_mem_take hd)

theorem unquoted_of_octal (h : isOctal c = true) : c ≠ '\'' ∧ c ≠ '"' := by
  constructor
  · rintro rfl
    cases h
  · rintro rfl
    cases h

theorem shortened_octal (h : isOctal c = true) :
    Shortened (c :: cs) [octalNumber (octalDigits c cs)] (octalDigits c cs).length := by
  obtain ⟨digits, hdigits, ⟨rest, hrest⟩, hall⟩ := @octalDigits_spec c cs h
  rw [hdigits, List.length_cons, ← hrest]
  rcases Nat.eq_zero_or_pos digits.length with hzero | hpos
  · rw [hzero]
    exact ⟨Nat.succ_le_succ (Nat.zero_le _), length_le_units [c], .inl rfl⟩
  · refine shortened_cons hpos ?_ (Nat.le_add_left 1 _) (unquoted_of_octal h) fun d hd => ?_
    · rw [List.length_append]
      exact Nat.le_add_right _ _
    · rw [List.take_left] at hd
      exact unquoted_of_octal (hall d hd)

/-- No escape is shorter than its value. -/
theorem escape_spec (h : escape cs = some (ns, k)) : Shortened cs ns k := by
  match cs with
  | [] => cases h
  | c :: cs =>
    have hone : 1 ≤ (c :: cs).length := Nat.succ_le_succ (Nat.zero_le _)
    rw [escape] at h
    split at h
    · next hc => exact shortened_hexEscape Nat.two_pos (by rw [hc]; decide) h
    · split at h
      · next hc =>
        split at h
        · next hbrace =>
          obtain ⟨ds, rfl⟩ := List.head?_eq_some_iff.mp hbrace
          rw [hc]
          exact shortened_braceEscape h
        · exact shortened_hexEscape (by decide) (by rw [hc]; decide) h
      · split at h
        · next hoctal =>
          obtain ⟨rfl, rfl⟩ := Prod.mk.inj (Option.some.inj h)
          exact shortened_octal hoctal
        · split at h
          · next hfeed =>
            obtain ⟨rfl, hfeed⟩ := hfeed
            obtain ⟨ds, rfl⟩ := List.head?_eq_some_iff.mp hfeed
            obtain ⟨rfl, rfl⟩ := Prod.mk.inj (Option.some.inj h)
            refine shortened_cons Nat.one_pos (Nat.succ_le_succ (Nat.zero_le _)) (Nat.zero_le _)
              ⟨by decide, by decide⟩ fun d hd => ?_
            obtain rfl := List.mem_singleton.mp hd
            exact ⟨by decide, by decide⟩
          · split at h
            · obtain ⟨rfl, rfl⟩ := Prod.mk.inj (Option.some.inj h)
              exact ⟨hone, Nat.zero_le _, .inl rfl⟩
            · obtain ⟨rfl, rfl⟩ := Prod.mk.inj (Option.some.inj h)
              refine ⟨hone, ?_, .inl rfl⟩
              rw [List.take_succ_cons, List.take_zero, units_cons, units, List.flatMap_nil,
                List.append_nil]
              exact length_letter_le c

end Escapes

/-- A text that may stand between such quotes as it is. -/
def Inert (quote : Char) (cs : List Char) : Prop :=
  ∀ c ∈ cs, c ≠ quote ∧ c ≠ '\\' ∧ c ≠ '\n' ∧ c ≠ '\r'

section Literals

variable {quote : Char} {cs tail rest : List Char} {ns : List ℕ}

theorem literal_skip (quote : Char) (cs : List Char) (k : ℕ) (ds : List Char)
    (h : k ≤ cs.length) : literal quote k (cs ++ ds) = literal quote 0 (cs.drop k ++ ds) := by
  induction cs generalizing k with
  | nil =>
    obtain rfl := Nat.le_zero.mp h
    rfl
  | cons c cs ih =>
    cases k with
    | zero => rfl
    | succ k => exact ih k (Nat.le_of_succ_le_succ h)

theorem literal_inert (h : Inert quote cs) (tail : List Char) :
    literal quote 0 (cs ++ quote :: tail) = some (units cs, tail) := by
  induction cs with
  | nil =>
    rw [List.nil_append, literal, if_pos rfl]
    rfl
  | cons c cs ih =>
    obtain ⟨hquote, hbackslash, hfeed, hreturn⟩ := h c List.mem_cons_self
    rw [List.cons_append, literal, if_neg hquote, if_neg hbackslash,
      if_neg (not_or.mpr ⟨hfeed, hreturn⟩), ih fun d hd => h d (List.mem_cons_of_mem c hd),
      Option.map_some, units_cons]

/-- The escape at the end of a text, before the quote that should close the literal. -/
theorem escape_quote (hquote : quote = '\'' ∨ quote = '"') (tail : List Char) :
    escape (quote :: tail) = some ([quote.toNat], 1) := by
  rcases hquote with rfl | rfl
  · rfl
  · rfl

/-- An escape ends before the quote, or is the escape of it. -/
theorem escape_append (hquote : quote = '\'' ∨ quote = '"') {k : ℕ}
    (h : escape (cs ++ quote :: tail) = some (ns, k)) :
    (k ≤ cs.length ∧ ns.length ≤ (units (cs.take k)).length) ∨
      (cs = [] ∧ k = 1 ∧ ns = [quote.toNat]) := by
  cases cs with
  | nil =>
    rw [List.nil_append, escape_quote hquote] at h
    obtain ⟨rfl, rfl⟩ := Prod.mk.inj (Option.some.inj h)
    exact .inr ⟨rfl, rfl, rfl⟩
  | cons c cs =>
    obtain ⟨-, hlen, hunquoted⟩ := escape_spec h
    have hk : k ≤ (c :: cs).length := by
      rcases hunquoted with rfl | ⟨-, hunquoted⟩
      · exact Nat.succ_le_succ (Nat.zero_le _)
      · refine not_lt.mp fun hlt => ?_
        have hmem : quote ∈ ((c :: cs) ++ quote :: tail).take k := by
          rw [List.take_append, List.take_of_length_le hlt.le]
          refine List.mem_append_right _ ?_
          obtain ⟨m, hm⟩ : ∃ m, k - (c :: cs).length = m + 1 := ⟨_, (Nat.succ_pred
            (Nat.sub_ne_zero_of_lt hlt)).symm⟩
          rw [hm, List.take_succ_cons]
          exact List.mem_cons_self
        obtain ⟨hsingle, hdouble⟩ := hunquoted quote hmem
        rcases hquote with rfl | rfl
        · exact hsingle rfl
        · exact hdouble rfl
    rw [List.take_append_of_le_length hk] at hlen
    exact .inl ⟨hk, hlen⟩

/-- The value of a literal is shorter than its text, unless the text is inert, or the literal
goes on after the quote that should close it. -/
theorem literal_cases (hquote : quote = '\'' ∨ quote = '"')
    (h : literal quote 0 (cs ++ quote :: tail) = some (ns, rest)) :
    (Inert quote cs ∧ rest = tail) ∨ ns.length < (units cs).length ∨
      ∃ before front ms, cs = before ++ ['\\'] ∧ ns = front ++ quote.toNat :: ms ∧
        literal quote 0 tail = some (ms, rest) := by
  induction hlen : cs.length using Nat.strong_induction_on generalizing cs ns with
  | _ len ih =>
    match cs with
    | [] =>
      obtain ⟨-, rfl⟩ := Prod.mk.inj (Option.some.inj
        ((literal_inert (List.forall_mem_nil _) tail).symm.trans h))
      exact .inl ⟨List.forall_mem_nil _, rfl⟩
    | c :: cs =>
      have hpos := length_unitsOf_pos c.toNat
      rw [List.cons_append, literal] at h
      rw [units_cons, List.length_append]
      split at h
      · obtain ⟨rfl, -⟩ := Prod.mk.inj (Option.some.inj h)
        refine .inr (.inl ?_)
        rw [List.length_nil]
        omega
      · next hc =>
        split at h
        · next hbackslash =>
          obtain ⟨⟨es, k⟩, hescape, h⟩ := Option.bind_eq_some_iff.mp h
          obtain ⟨⟨ms, rest'⟩, hrest, hpair⟩ := Option.map_eq_some_iff.mp h
          obtain ⟨rfl, rfl⟩ := Prod.mk.inj hpair
          rw [hbackslash]
          rcases escape_append hquote hescape with ⟨hk, hle⟩ | ⟨rfl, rfl, rfl⟩
          · dsimp only at hrest ⊢
            rw [literal_skip quote cs k _ hk] at hrest
            have hunits : (units cs).length =
                (units (cs.take k)).length + (units (cs.drop k)).length := by
              rw [← List.length_append, ← units_append, List.take_append_drop]
            have hlt : (cs.drop k).length < len := by
              rw [List.length_cons] at hlen
              rw [List.length_drop]
              omega
            have hone : (unitsOf '\\'.toNat).length = 1 := rfl
            rw [List.length_append, hone]
            rcases ih _ hlt hrest rfl with
              ⟨hinert, rfl⟩ | hshort | ⟨before, front, ls, hcs, rfl, hls⟩
            · refine .inr (.inl ?_)
              rw [literal_inert hinert] at hrest
              obtain ⟨rfl, -⟩ := Prod.mk.inj (Option.some.inj hrest)
              omega
            · exact .inr (.inl (by omega))
            · refine .inr (.inr ⟨'\\' :: (cs.take k ++ before), es ++ front, ls, ?_, ?_, hls⟩)
              · rw [List.cons_append, List.append_assoc, ← hcs, List.take_append_drop]
              · rw [List.append_assoc]
          · exact .inr (.inr ⟨[], [], ms, rfl, rfl, hrest⟩)
        · next hbackslash =>
          split at h
          · cases h
          · next hbreak =>
            obtain ⟨⟨ms, rest'⟩, hrest, hpair⟩ := Option.map_eq_some_iff.mp h
            obtain ⟨rfl, rfl⟩ := Prod.mk.inj hpair
            have hlt : cs.length < len := by
              rw [← hlen, List.length_cons]
              exact Nat.lt_succ_self _
            dsimp only
            rw [List.length_append]
            rcases ih _ hlt hrest rfl with
              ⟨hinert, rfl⟩ | hshort | ⟨before, front, ls, hcs, rfl, hls⟩
            · exact .inl ⟨List.forall_mem_cons.mpr
                ⟨⟨hc, hbackslash, not_or.mp hbreak⟩, hinert⟩, rfl⟩
            · exact .inr (.inl (by omega))
            · refine .inr (.inr ⟨c :: before, unitsOf c.toNat ++ front, ls, ?_, ?_, hls⟩)
              · rw [hcs, List.cons_append]
              · rw [List.append_assoc]

/-- A quoted text is read as itself exactly if it is inert. What follows it must not look like
the end of a text with a backslash at its end. -/
theorem literal_eq_units_iff (hquote : quote = '\'' ∨ quote = '"')
    (hquiet : ∀ ms rest, literal quote 0 tail = some (ms, rest) →
      (quote.toNat :: ms).getLast? ≠ some '\\'.toNat) :
    literal quote 0 (cs ++ quote :: tail) = some (units cs, rest) ↔
      Inert quote cs ∧ rest = tail := by
  constructor
  · intro h
    rcases literal_cases hquote h with hinert | hshort | ⟨before, front, ms, rfl, hvalue, hms⟩
    · exact hinert
    · exact absurd hshort (lt_irrefl _)
    · have hlast := congrArg List.getLast? hvalue
      have hone : units ['\\'] = ['\\'.toNat] := rfl
      rw [units_append, hone, List.getLast?_concat, List.getLast?_append, List.getLast?_cons,
        Option.some_or, ← List.getLast?_cons] at hlast
      exact absurd hlast.symm (hquiet ms rest hms)
  · rintro ⟨hinert, rfl⟩
    exact literal_inert hinert rest

end Literals

section Tokens

variable {cs rest : List Char} {ts : List Token} {quote : Char} {ns : List ℕ}

theorem length_afterComment (h : afterComment cs = some rest) : rest.length < cs.length := by
  induction cs with
  | nil => cases h
  | cons c cs ih =>
    rw [afterComment] at h
    rw [List.length_cons]
    split at h
    · obtain rfl := Option.some.inj h
      rw [List.length_drop]
      omega
    · exact (ih h).trans (Nat.lt_succ_self _)

theorem length_literal {k : ℕ} (h : literal quote k cs = some (ns, rest)) :
    rest.length < cs.length := by
  induction cs generalizing k ns with
  | nil => cases k <;> cases h
  | cons c cs ih =>
    rw [List.length_cons]
    cases k with
    | succ k => exact (ih h).trans (Nat.lt_succ_self _)
    | zero =>
      rw [literal] at h
      split at h
      · obtain ⟨-, rfl⟩ := Prod.mk.inj (Option.some.inj h)
        exact Nat.lt_succ_self _
      · split at h
        · obtain ⟨e, -, h⟩ := Option.bind_eq_some_iff.mp h
          obtain ⟨r, hr, hpair⟩ := Option.map_eq_some_iff.mp h
          obtain ⟨-, rfl⟩ := Prod.mk.inj hpair
          exact (ih hr).trans (Nat.lt_succ_self _)
        · split at h
          · cases h
          · obtain ⟨r, hr, hpair⟩ := Option.map_eq_some_iff.mp h
            obtain ⟨-, rfl⟩ := Prod.mk.inj hpair
            exact (ih hr).trans (Nat.lt_succ_self _)

theorem length_dropWhile_le (p : Char → Bool) (cs : List Char) :
    (cs.dropWhile p).length ≤ cs.length := (List.dropWhile_suffix p).length_le

theorem length_next (h : next cs = some (ts, rest)) : rest.length < cs.length := by
  match cs with
  | [] => cases h
  | c :: cs =>
    rw [next] at h
    rw [List.length_cons, Nat.lt_succ_iff]
    split_ifs at h
    · obtain ⟨-, rfl⟩ := Prod.mk.inj (Option.some.inj h)
      exact le_refl _
    · obtain ⟨-, rfl⟩ := Prod.mk.inj (Option.some.inj h)
      exact length_dropWhile_le _ _
    · obtain ⟨r, hr, hpair⟩ := Option.map_eq_some_iff.mp h
      obtain ⟨-, rfl⟩ := Prod.mk.inj hpair
      have hlt := length_afterComment hr
      rw [List.length_drop] at hlt
      omega
    · obtain ⟨r, hr, hpair⟩ := Option.map_eq_some_iff.mp h
      obtain ⟨-, rfl⟩ := Prod.mk.inj hpair
      exact (length_literal hr).le
    · obtain ⟨-, rfl⟩ := Prod.mk.inj (Option.some.inj h)
      exact length_dropWhile_le _ _
    · obtain ⟨-, rfl⟩ := Prod.mk.inj (Option.some.inj h)
      exact le_refl _

/-- More fuel than characters changes nothing. -/
theorem tokensIn_eq {fuel : ℕ} (h : cs.length ≤ fuel) : tokensIn fuel cs = tokens cs := by
  induction hlen : cs.length using Nat.strong_induction_on generalizing cs fuel with
  | _ len ih =>
    match cs, fuel with
    | [], fuel => cases fuel <;> rfl
    | c :: cs, fuel + 1 =>
      rw [tokens, List.length_cons, tokensIn, tokensIn]
      refine Option.bind_congr fun r hr => ?_
      have hlt := length_next (Option.mem_def.mp hr)
      rw [List.length_cons] at hlt hlen h
      rw [ih _ (hlen ▸ hlt) (by omega) rfl, ih _ (hlen ▸ hlt) (by omega) rfl]

theorem tokens_eq (hne : cs ≠ []) :
    tokens cs = (next cs).bind fun r => (tokens r.2).map (r.1 ++ ·) := by
  obtain ⟨c, cs, rfl⟩ := List.exists_cons_of_ne_nil hne
  rw [tokens, List.length_cons, tokensIn]
  refine Option.bind_congr fun r hr => ?_
  have hlt := length_next (Option.mem_def.mp hr)
  rw [List.length_cons] at hlt
  rw [tokensIn_eq (Nat.lt_succ_iff.mp hlt)]

theorem tokens_of_next (h : next cs = some (ts, rest)) :
    tokens cs = (tokens rest).map (ts ++ ·) := by
  have hne : cs ≠ [] := by
    rintro rfl
    cases h
  rw [tokens_eq hne, h, Option.bind_some]

/-- The tokens of so many steps. -/
def nextN : ℕ → List Char → Option (List Token × List Char)
  | 0, cs => some ([], cs)
  | k + 1, cs => (next cs).bind fun r => (nextN k r.2).map fun q => (r.1 ++ q.1, q.2)

theorem tokens_of_nextN {k : ℕ} (h : nextN k cs = some (ts, rest)) :
    tokens cs = (tokens rest).map (ts ++ ·) := by
  induction k generalizing cs ts with
  | zero =>
    obtain ⟨rfl, rfl⟩ := Prod.mk.inj (Option.some.inj h)
    exact Option.map_id'.symm
  | succ k ih =>
    obtain ⟨⟨us, cs'⟩, hnext, h⟩ := Option.bind_eq_some_iff.mp h
    obtain ⟨⟨vs, cs''⟩, hrest, hpair⟩ := Option.map_eq_some_iff.mp h
    obtain ⟨rfl, rfl⟩ := Prod.mk.inj hpair
    rw [tokens_of_next hnext, ih hrest, Option.map_map]
    refine Option.map_congr fun xs _ => ?_
    exact (List.append_assoc us vs xs).symm

end Tokens

def quoted (v : List Char) : List Char := '\'' :: v ++ ['\'']

/-- Texts put between single quotes, up to the end of the call. -/
def arguments (vs : List (List Char)) : List Char := [',', ' '].intercalate (vs.map quoted) ++ [')']

def argumentTokens (vs : List (List Char)) : List Token :=
  (vs.map fun v => Token.text (units v)).intersperse (.mark ',') ++ [.mark ')']

section Arguments

variable {v w tail : List Char} {vs : List (List Char)} {ts : List Token}

/-- The text behind an argument, of which a backslash before it would make a value. -/
def Closing (tail : List Char) : Prop :=
  ∀ ms rest, literal '\'' 0 tail = some (ms, rest) →
    ('\''.toNat :: ms).getLast? ≠ some '\\'.toNat

theorem closing_end : Closing [')'] := fun _ _ h => nomatch h

theorem closing_comma (cs : List Char) : Closing (',' :: ' ' :: '\'' :: cs) := by
  intro ms rest h
  have hvalue : literal '\'' 0 (',' :: ' ' :: '\'' :: cs) = some ([44, 32], cs) := rfl
  obtain ⟨rfl, -⟩ := Prod.mk.inj (Option.some.inj (hvalue.symm.trans h))
  decide

/-- A literal at the front is read as its text exactly if that is inert. -/
theorem tokens_quoted_iff (htail : Closing tail) :
    tokens (quoted v ++ tail) = some (.text (units v) :: ts) ↔
      Inert '\'' v ∧ tokens tail = some ts := by
  have happend : quoted v ++ tail = '\'' :: (v ++ '\'' :: tail) := by
    rw [quoted, List.cons_append, List.cons_append, List.append_assoc, List.singleton_append]
  have hnext : next (quoted v ++ tail) =
      (literal '\'' 0 (v ++ '\'' :: tail)).map fun r => ([.text r.1], r.2) := by
    rw [happend]
    rfl
  constructor
  · intro h
    cases hliteral : literal '\'' 0 (v ++ '\'' :: tail) with
    | none =>
      rw [tokens_eq (happend ▸ List.cons_ne_nil _ _), hnext, hliteral] at h
      cases h
    | some r =>
      obtain ⟨ns, rest⟩ := r
      rw [hliteral, Option.map_some] at hnext
      rw [tokens_of_next hnext] at h
      obtain ⟨us, hus, heq⟩ := Option.map_eq_some_iff.mp h
      obtain ⟨htext, rfl⟩ := List.cons.inj heq
      obtain rfl := Token.text.inj htext
      obtain ⟨hinert, rfl⟩ := (literal_eq_units_iff (.inl rfl) htail).mp hliteral
      exact ⟨hinert, hus⟩
  · rintro ⟨hinert, hts⟩
    rw [literal_inert hinert, Option.map_some] at hnext
    rw [tokens_of_next hnext, hts]
    rfl

theorem arguments_cons_cons (v w : List Char) (vs : List (List Char)) :
    arguments (v :: w :: vs) = quoted v ++ ',' :: ' ' :: arguments (w :: vs) := by
  rw [arguments, arguments, List.map_cons, List.map_cons, List.intercalate_cons_cons,
    List.append_assoc, List.append_assoc]
  rfl

theorem argumentTokens_cons_cons (v w : List Char) (vs : List (List Char)) :
    argumentTokens (v :: w :: vs) =
      .text (units v) :: ([.mark ','] ++ argumentTokens (w :: vs)) := rfl

theorem arguments_cons (w : List Char) (vs : List (List Char)) :
    ∃ cs, arguments (w :: vs) = '\'' :: cs := by
  cases vs with
  | nil => exact ⟨_, rfl⟩
  | cons v vs => exact ⟨_, arguments_cons_cons w v vs⟩

/-- The arguments are read as their texts exactly if all of them are inert. -/
theorem tokens_arguments_iff (hne : vs ≠ []) :
    tokens (arguments vs) = some (argumentTokens vs) ↔ ∀ v ∈ vs, Inert '\'' v := by
  induction vs with
  | nil => exact absurd rfl hne
  | cons v vs ih =>
    rw [List.forall_mem_cons]
    cases vs with
    | nil =>
      have hend : tokens [')'] = some [.mark ')'] := rfl
      rw [arguments, List.map_singleton, List.intercalate_singleton]
      refine (tokens_quoted_iff closing_end).trans ?_
      rw [hend]
      exact and_congr_right fun _ => iff_of_true rfl (List.forall_mem_nil _)
    | cons w vs =>
      obtain ⟨cs, hcs⟩ := arguments_cons w vs
      have hcomma : nextN 2 (',' :: ' ' :: arguments (w :: vs)) =
          some ([.mark ','], arguments (w :: vs)) := rfl
      have hclosing : Closing (',' :: ' ' :: arguments (w :: vs)) := hcs ▸ closing_comma cs
      rw [arguments_cons_cons, argumentTokens_cons_cons]
      refine (tokens_quoted_iff hclosing).trans (and_congr_right fun _ => ?_)
      rw [tokens_of_nextN hcomma, ← ih (List.cons_ne_nil w vs)]
      constructor
      · intro h
        obtain ⟨us, hus, heq⟩ := Option.map_eq_some_iff.mp h
        rw [hus, List.append_cancel_left heq]
      · intro h
        rw [h, Option.map_some]

end Arguments

end ScriptTexts
