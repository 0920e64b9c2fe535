import SIPMediaGW.BracketTexts
import SIPMediaGW.EscapedTexts

/-! # Literals of Python

`repr()` of the values that JSON has, and the part of `ast.literal_eval` that reads what `repr`
writes. Which characters outside ASCII are printable, and the texts of floats, are left to
parameters. -/
namespace PythonLiterals

open BracketTexts
open EscapedTexts
open FieldMap
open PythonJson

/-- `str.isprintable()` of one character: of the blanks, only the space is. -/
structure CharTable where
  isprintable : Char → Bool
  ascii : ∀ c, c.toNat < 128 → isprintable c = (decide (32 ≤ c.toNat) && decide (c.toNat < 127))
  blank : ∀ c, isSpace c = true → c ≠ ' ' → isprintable c = false

def floatChars : List Char := "0123456789.e+-".toList

/-- `repr()` of a finite float, which `float()` reads back, and which is not the text of an int. -/
structure FloatTexts where
  text : ℚ → List Char
  read : List Char → Option ℚ
  read_text : ∀ q, read (text q) = some q
  nonempty : ∀ q, text q ≠ []
  chars : ∀ q, ∀ c ∈ text q, c ∈ floatChars
  marked : ∀ q, '.' ∈ text q ∨ 'e' ∈ text q

structure Tables where
  chars : CharTable
  floats : FloatTexts

def lexicon : Lexicon where
  quote c := decide (c = '\'') || decide (c = '"')
  blank c := decide (c = ' ') || decide (c = '\t') || decide (c = '\n') || decide (c = '\r')

theorem lexicon_lawful : lexicon.Lawful where
  space := rfl
  quote_blank c h := by
    simp only [lexicon, Bool.or_eq_true, decide_eq_true_eq] at h
    rcases h with rfl | rfl <;> rfl
  mark_blank c h := by
    simp only [isMark, List.mem_cons, List.not_mem_nil, or_false, decide_eq_true_eq] at h
    rcases h with rfl | rfl | rfl | rfl | rfl | rfl <;> rfl
  mark_quote c h := by
    simp only [isMark, List.mem_cons, List.not_mem_nil, or_false, decide_eq_true_eq] at h
    rcases h with rfl | rfl | rfl | rfl | rfl | rfl <;> rfl
  backslash := rfl

/-- Double quotes only where single ones would need an escape and they do not. -/
def quoteOf (s : List Char) : Char := if '\'' ∈ s ∧ '"' ∉ s then '"' else '\''

def escapeChar (t : CharTable) (quote c : Char) : List Char :=
  if c = quote ∨ c = '\\' then ['\\', c]
  else if c = '\t' then ['\\', 't']
  else if c = '\n' then ['\\', 'n']
  else if c = '\r' then ['\\', 'r']
  else if t.isprintable c then [c]
  else if c.toNat < 256 then '\\' :: 'x' :: toHex 2 c.toNat
  else if c.toNat < 65536 then '\\' :: 'u' :: toHex 4 c.toNat
  else '\\' :: 'U' :: toHex 8 c.toNat

def quoted (t : CharTable) (s : String) : Quoted :=
  ⟨quoteOf s.toList, s.toList.flatMap (escapeChar t (quoteOf s.toList))⟩

def escapes : Escapes where
  letter c :=
    if c = '\\' ∨ c = '\'' ∨ c = '"' then some c
    else if c = 't' then some '\t'
    else if c = 'n' then some '\n'
    else if c = 'r' then some '\r'
    else none
  width c :=
    if c = 'x' then some 2 else if c = 'u' then some 4 else if c = 'U' then some 8 else none

def readString (body : List Char) : Option String :=
  ((decode escapes .plain body).bind scalars).map String.ofList

section Strings

variable {t : CharTable} {quote : Char}

theorem quoteOf_cases (s : List Char) : quoteOf s = '\'' ∨ quoteOf s = '"' := by
  unfold quoteOf
  split <;> simp

theorem decode_escapeChar (hquote : quote = '\'' ∨ quote = '"') (c : Char) (cs : List Char) :
    decode escapes .plain (escapeChar t quote c ++ cs) =
      (decode escapes .plain cs).map (c.toNat :: ·) := by
  unfold escapeChar
  split
  · next h =>
    refine decode_letter ?_
    rcases h with rfl | rfl
    · rcases hquote with rfl | rfl <;> rfl
    · rfl
  · next h =>
    have hplain : c ≠ '\\' := fun heq => h (Or.inr heq)
    split
    · next htab =>
      rw [htab]
      exact decode_letter rfl
    split
    · next hfeed =>
      rw [hfeed]
      exact decode_letter rfl
    split
    · next hreturn =>
      rw [hreturn]
      exact decode_letter rfl
    split
    · exact decode_plain hplain
    split
    · next hlt => exact (decode_width rfl rfl).trans (decode_hex hlt)
    split
    · next hlt => exact (decode_width rfl rfl).trans (decode_hex hlt)
    · refine (decode_width rfl rfl).trans (decode_hex ?_)
      have hvalid : c.toNat.isValidChar := c.valid
      rcases hvalid with hlow | ⟨-, hhigh⟩ <;> omega

theorem decode_escaped (hquote : quote = '\'' ∨ quote = '"') (s : List Char) :
    decode escapes .plain (s.flatMap (escapeChar t quote)) = some (s.map Char.toNat) := by
  induction s with
  | nil => rfl
  | cons c s ih =>
    rw [List.flatMap_cons, decode_escapeChar hquote, ih, Option.map_some, List.map_cons]

/-- `literal_eval(repr(s))`. -/
theorem readString_quoted (t : CharTable) (s : String) :
    readString (quoted t s).body = some s := by
  have hdecode := decode_escaped (t := t) (quoteOf_cases s.toList) s.toList
  rw [readString, quoted, hdecode, Option.bind_some, scalars_map_toNat, Option.map_some,
    String.ofList_toList]

theorem closed_append {pre : List Char} (h : ∀ c ∈ pre, c ≠ '\\' ∧ c ≠ quote) (cs : List Char) :
    closed quote (pre ++ cs) = closed quote cs := by
  induction pre with
  | nil => rfl
  | cons c pre ih =>
    obtain ⟨⟨hplain, hc⟩, hpre⟩ := List.forall_mem_cons.mp h
    rw [List.cons_append, closed, ih hpre, decide_eq_true hc, Bool.true_and]
    · exact fun heq => absurd heq hplain
    · exact fun d ds heq => absurd heq hplain

theorem closed_escapeChar (hquote : quote = '\'' ∨ quote = '"') (c : Char) (cs : List Char) :
    closed quote (escapeChar t quote c ++ cs) = closed quote cs := by
  have hhex (letter : Char) (width : ℕ) :
      closed quote ('\\' :: letter :: toHex width c.toNat ++ cs) = closed quote cs := by
    rw [List.cons_append, List.cons_append, closed]
    refine closed_append (fun d hd => ?_) cs
    obtain ⟨hplain, hsingle, hdouble⟩ := toHex_plain hd
    rcases hquote with rfl | rfl
    · exact ⟨hplain, hsingle⟩
    · exact ⟨hplain, hdouble⟩
  unfold escapeChar
  split
  · rfl
  · next h =>
    split
    · rfl
    split
    · rfl
    split
    · rfl
    split
    · refine closed_append (fun d hd => ?_) cs
      obtain rfl := List.mem_singleton.mp hd
      exact ⟨fun heq => h (Or.inr heq), fun heq => h (Or.inl heq)⟩
    split
    · exact hhex 'x' 2
    split
    · exact hhex 'u' 4
    · exact hhex 'U' 8

theorem quoted_wellFormed (t : CharTable) (s : String) : (quoted t s).WellFormed lexicon where
  quote := by
    have hcases := quoteOf_cases s.toList
    simp [quoted, lexicon, hcases]
  body := by
    have hall (cs : List Char) :
        closed (quoteOf s.toList) (cs.flatMap (escapeChar t (quoteOf s.toList))) = true := by
      induction cs with
      | nil => rfl
      | cons c cs ih => rw [List.flatMap_cons, closed_escapeChar (quoteOf_cases s.toList), ih]
    exact hall s.toList

end Strings

/-- `int(token)` of decimal digits. -/
def readNat (token : List Char) : Option ℕ :=
  if token ≠ [] ∧ token.all Char.isDigit then some (Nat.ofDigitChars 10 token 0) else none

def readInt : List Char → Option ℤ
  | '-' :: token => (readNat token).map fun n : ℕ => -(n : ℤ)
  | token => (readNat token).map fun n : ℕ => (n : ℤ)

def intText (n : ℤ) : List Char :=
  if n < 0 then '-' :: Nat.toDigits 10 n.natAbs else Nat.toDigits 10 n.natAbs

def floatText (f : FloatTexts) : PyFloat → List Char
  | .finite q => f.text q
  | .infinity true => "-inf".toList
  | .infinity false => "inf".toList
  | .nan => "nan".toList

def readAtom (f : FloatTexts) (token : List Char) : Option Json :=
  if token = "None".toList then some .null
  else if token = "True".toList then some (.bool true)
  else if token = "False".toList then some (.bool false)
  else match readInt token with
    | some n => some (.int n)
    | none => (f.read token).map fun q => .float (.finite q)

def reading (f : FloatTexts) : Reading where
  atom := readAtom f
  text := readString

mutual

def toRaw (t : Tables) : Json → Raw
  | .null => .atom "None".toList
  | .bool true => .atom "True".toList
  | .bool false => .atom "False".toList
  | .int n => .atom (intText n)
  | .float x => .atom (floatText t.floats x)
  | .str s => .text (quoted t.chars s)
  | .arr xs => .list (toRaws t xs)
  | .obj d => .dict (toRawMembers t d)

def toRaws (t : Tables) : List Json → List Raw
  | [] => []
  | v :: xs => toRaw t v :: toRaws t xs

def toRawMembers (t : Tables) : List (String × Json) → List (Quoted × Raw)
  | [] => []
  | (k, v) :: d => (quoted t.chars k, toRaw t v) :: toRawMembers t d

end

def repr (t : Tables) (v : Json) : List Char := (toRaw t v).print

def literalEval (t : Tables) (text : List Char) : Option Json :=
  (parse lexicon text).bind (Raw.read (reading t.floats))

/-- A value that a literal writes: no float is infinite or undefined, and every key is there
once. -/
inductive Literal : Json → Prop where
  | null : Literal .null
  | bool (b : Bool) : Literal (.bool b)
  | int (n : ℤ) : Literal (.int n)
  | float (q : ℚ) : Literal (.float (.finite q))
  | str (s : String) : Literal (.str s)
  | arr {xs : List Json} (h : ∀ v ∈ xs, Literal v) : Literal (.arr xs)
  | obj {d : Dict} (keys : (keys d).Nodup) (h : ∀ m ∈ d, Literal m.2) : Literal (.obj d)

section Values

variable {t : Tables}

theorem toRaws_eq (xs : List Json) : toRaws t xs = xs.map (toRaw t) := by
  induction xs with
  | nil => rfl
  | cons v xs ih => rw [toRaws, ih, List.map_cons]

theorem toRawMembers_eq (d : Dict) :
    toRawMembers t d = d.map fun m => (quoted t.chars m.1, toRaw t m.2) := by
  induction d with
  | nil => rfl
  | cons m d ih => rw [toRawMembers, ih, List.map_cons]

theorem readNat_toDigits (n : ℕ) : readNat (Nat.toDigits 10 n) = some n := by
  have hdigits : (Nat.toDigits 10 n).all Char.isDigit = true :=
    List.all_eq_true.mpr fun c hc => Nat.isDigit_of_mem_toDigits (by decide) (by decide) hc
  rw [readNat, if_pos ⟨Nat.toDigits_ne_nil, hdigits⟩, Nat.ofDigitChars_ten_toDigits]

theorem readInt_intText (n : ℤ) : readInt (intText n) = some n := by
  unfold intText
  split
  · rw [readInt, readNat_toDigits, Option.map_some]
    congr 1
    omega
  · next hn =>
    have hdigit (cs : List Char) (h : Nat.toDigits 10 n.natAbs = '-' :: cs) : False := by
      have hminus := Nat.isDigit_of_mem_toDigits (b := 10) (c := '-') (n := n.natAbs) (by decide)
        (by decide) (by simp [h])
      exact absurd hminus (by decide)
    rw [readInt, readNat_toDigits, Option.map_some]
    · congr 1
      omega
    · exact fun cs h => hdigit cs h

theorem readInt_of_marked {token : List Char} (h : '.' ∈ token ∨ 'e' ∈ token) :
    readInt token = none := by
  have hnat (cs : List Char) (hcs : '.' ∈ cs ∨ 'e' ∈ cs) : readNat cs = none := by
    refine if_neg fun hall => ?_
    have hdigit := List.all_eq_true.mp hall.2
    rcases hcs with hdot | he
    · exact absurd (hdigit '.' hdot) (by decide)
    · exact absurd (hdigit 'e' he) (by decide)
  unfold readInt
  split
  · next cs => rw [hnat cs (by simpa using h), Option.map_none]
  · rw [hnat token h, Option.map_none]

theorem readAtom_intText (n : ℤ) : readAtom t.floats (intText n) = some (.int n) := by
  have hword (word : List Char) (hword : readInt word = none) : intText n ≠ word := by
    intro heq
    rw [← heq, readInt_intText] at hword
    cases hword
  rw [readAtom, if_neg (hword _ rfl), if_neg (hword _ rfl), if_neg (hword _ rfl), readInt_intText]

/-- The words that Python reads as constants are no floats. -/
theorem readAtom_floatText (q : ℚ) (hwords : ∀ word ∈ ["None".toList, "True".toList,
    "False".toList], t.floats.text q ≠ word) :
    readAtom t.floats (t.floats.text q) = some (.float (.finite q)) := by
  rw [readAtom, if_neg (hwords _ (by simp)), if_neg (hwords _ (by simp)),
    if_neg (hwords _ (by simp)), readInt_of_marked (t.floats.marked q), t.floats.read_text q]
  rfl

/-- No character of a float is in `N`, `T` or `F`. -/
theorem floatText_ne_word (q : ℚ) : ∀ word ∈ ["None".toList, "True".toList, "False".toList],
    t.floats.text q ≠ word := by
  intro word hword heq
  have hchars := t.floats.chars q
  rw [heq] at hchars
  simp only [List.mem_cons, List.not_mem_nil, or_false] at hword
  rcases hword with rfl | rfl | rfl
  · exact absurd (hchars 'N' (by decide)) (by decide)
  · exact absurd (hchars 'T' (by decide)) (by decide)
  · exact absurd (hchars 'F' (by decide)) (by decide)

theorem atomChar_of_isDigit {c : Char} (h : c.isDigit = true) : lexicon.atomChar c = true := by
  have hne (d : Char) (hd : d.isDigit = false) : c ≠ d := by
    rintro rfl
    rw [h] at hd
    cases hd
  have hquote : lexicon.quote c = false := by
    simp [lexicon, hne '\'' rfl, hne '"' rfl]
  have hblank : lexicon.blank c = false := by
    simp [lexicon, hne ' ' rfl, hne '\t' rfl, hne '\n' rfl, hne '\r' rfl]
  have hmark : isMark c = false := by
    simp [isMark, hne '[' rfl, hne ']' rfl, hne '{' rfl, hne '}' rfl, hne ',' rfl, hne ':' rfl]
  rw [Lexicon.atomChar, hquote, hblank, hmark]
  rfl

theorem intText_wellFormed (n : ℤ) : (Raw.atom (intText n)).WellFormed lexicon := by
  have hdigit (c : Char) (hc : c ∈ Nat.toDigits 10 n.natAbs) : lexicon.atomChar c = true :=
    atomChar_of_isDigit (Nat.isDigit_of_mem_toDigits (by decide) (by decide) hc)
  unfold intText
  split
  · exact .atom (List.cons_ne_nil _ _) (List.forall_mem_cons.mpr ⟨rfl, hdigit⟩)
  · exact .atom Nat.toDigits_ne_nil hdigit

theorem floatText_wellFormed (q : ℚ) : (Raw.atom (t.floats.text q)).WellFormed lexicon := by
  have hchars : floatChars.all lexicon.atomChar = true := by decide
  exact .atom (t.floats.nonempty q) fun c hc => List.all_eq_true.mp hchars c (t.floats.chars q c hc)

/-- Whatever the value, `repr` writes a text of the lexicon. -/
theorem toRaw_wellFormed {v : Json} (h : Literal v) : (toRaw t v).WellFormed lexicon := by
  induction h with
  | null => exact .atom (by decide) (List.all_eq_true.mp (by decide))
  | bool b =>
    cases b
    · exact .atom (by decide) (List.all_eq_true.mp (by decide))
    · exact .atom (by decide) (List.all_eq_true.mp (by decide))
  | int n => exact intText_wellFormed n
  | float q => exact floatText_wellFormed q
  | str s => exact .text (quoted_wellFormed t.chars s)
  | arr h ih =>
    rw [toRaw, toRaws_eq]
    exact .list (List.forall_mem_map.mpr ih)
  | obj keys h ih =>
    rw [toRaw, toRawMembers_eq]
    exact .dict (List.forall_mem_map.mpr fun m _ => quoted_wellFormed t.chars m.1)
      (List.forall_mem_map.mpr ih)

theorem readItems_toRaw {xs : List Json}
    (h : ∀ v ∈ xs, (toRaw t v).read (reading t.floats) = some v) :
    readItems (reading t.floats) (xs.map (toRaw t)) = some xs := by
  induction xs with
  | nil => rfl
  | cons v xs ih =>
    obtain ⟨hv, hxs⟩ := List.forall_mem_cons.mp h
    rw [List.map_cons, readItems, hv, Option.bind_some, ih hxs, Option.map_some]

theorem readMembers_toRaw {d : Dict}
    (h : ∀ m ∈ d, (toRaw t m.2).read (reading t.floats) = some m.2) :
    readMembers (reading t.floats) (d.map fun m => (quoted t.chars m.1, toRaw t m.2)) = some d := by
  induction d with
  | nil => rfl
  | cons m d ih =>
    obtain ⟨hm, hd⟩ := List.forall_mem_cons.mp h
    have hkey : (reading t.floats).text (quoted t.chars m.1).body = some m.1 :=
      readString_quoted t.chars m.1
    rw [List.map_cons, readMembers, hkey, Option.bind_some, hm, Option.bind_some, ih hd,
      Option.map_some]

theorem read_toRaw {v : Json} (h : Literal v) : (toRaw t v).read (reading t.floats) = some v := by
  induction h with
  | null => rfl
  | bool b => cases b <;> rfl
  | int n => exact readAtom_intText n
  | float q => exact readAtom_floatText q (floatText_ne_word q)
  | str s =>
    rw [toRaw, Raw.read]
    exact congrArg _ (readString_quoted t.chars s)
  | arr h ih => rw [toRaw, toRaws_eq, Raw.read, readItems_toRaw ih, Option.map_some]
  | obj keys h ih =>
    rw [toRaw, toRawMembers_eq, Raw.read, readMembers_toRaw ih, Option.map_some,
      putAll_nil_of_nodup keys]

theorem isprintable_visible {c : Char} (h : 32 ≤ c.toNat ∧ c.toNat < 127) :
    t.chars.isprintable c = true := by
  rw [t.chars.ascii c (by omega), decide_eq_true h.1, decide_eq_true h.2]
  rfl

theorem isprintable_escapeChar {quote c d : Char} (hquote : quote = '\'' ∨ quote = '"')
    (h : d ∈ escapeChar t.chars quote c) : t.chars.isprintable d = true := by
  have hbackslash : t.chars.isprintable '\\' = true := isprintable_visible (by decide)
  have hpair (e : Char) (he : 32 ≤ e.toNat ∧ e.toNat < 127) (hd : d ∈ ['\\', e]) :
      t.chars.isprintable d = true := by
    rcases List.mem_pair.mp hd with rfl | rfl
    · exact hbackslash
    · exact isprintable_visible he
  have hhex (letter : Char) (width : ℕ) (hletter : 32 ≤ letter.toNat ∧ letter.toNat < 127)
      (hd : d ∈ '\\' :: letter :: toHex width c.toNat) : t.chars.isprintable d = true := by
    rcases List.mem_cons.mp hd with rfl | hd
    · exact hbackslash
    · rcases List.mem_cons.mp hd with rfl | hd
      · exact isprintable_visible hletter
      · exact isprintable_visible ⟨(toHex_visible hd).1.le, (toHex_visible hd).2⟩
  unfold escapeChar at h
  split at h
  · next hc =>
    refine hpair c ?_ h
    rcases hc with rfl | rfl
    · rcases hquote with rfl | rfl <;> decide
    · decide
  split at h
  · exact hpair 't' (by decide) h
  split at h
  · exact hpair 'n' (by decide) h
  split at h
  · exact hpair 'r' (by decide) h
  split at h
  · next hc =>
    obtain rfl := List.mem_singleton.mp h
    exact hc
  split at h
  · exact hhex 'x' 2 (by decide) h
  split at h
  · exact hhex 'u' 4 (by decide) h
  · exact hhex 'U' 8 (by decide) h

theorem isprintable_quoted {s : String} {d : Char} (h : d ∈ (quoted t.chars s).print) :
    t.chars.isprintable d = true := by
  have hcases := quoteOf_cases s.toList
  have hquote : t.chars.isprintable (quoteOf s.toList) = true := by
    refine isprintable_visible ?_
    rcases hcases with hq | hq <;> rw [hq] <;> decide
  rcases List.mem_append.mp h with h | h
  · rcases List.mem_cons.mp h with rfl | h
    · exact hquote
    · obtain ⟨c, -, hc⟩ := List.mem_flatMap.mp h
      exact isprintable_escapeChar hcases hc
  · obtain rfl := List.mem_singleton.mp h
    exact hquote

theorem isprintable_of_all (word : List Char) {d : Char}
    (hword : word.all (fun c => decide (32 ≤ c.toNat ∧ c.toNat < 127)) = true) (h : d ∈ word) :
    t.chars.isprintable d = true :=
  isprintable_visible (of_decide_eq_true (List.all_eq_true.mp hword d h))

theorem isprintable_intText {n : ℤ} {d : Char} (h : d ∈ intText n) :
    t.chars.isprintable d = true := by
  have hdigits (hd : d ∈ Nat.toDigits 10 n.natAbs) : t.chars.isprintable d = true := by
    have hdigit := Nat.isDigit_of_mem_toDigits (by decide) (by decide) hd
    obtain ⟨hlow, hhigh⟩ := Char.isDigit_iff_toNat.mp hdigit
    simp only [Char.reduceToNat] at hlow hhigh
    exact isprintable_visible ⟨by omega, by omega⟩
  unfold intText at h
  split at h
  · rcases List.mem_cons.mp h with rfl | h
    · exact isprintable_visible (by decide)
    · exact hdigits h
  · exact hdigits h

/-- `repr` writes printable characters only. -/
theorem isprintable_repr {v : Json} (h : Literal v) :
    ∀ d ∈ repr t v, t.chars.isprintable d = true := by
  induction h with
  | null => exact fun d hd => isprintable_of_all "None".toList (by decide) hd
  | bool b =>
    cases b
    · exact fun d hd => isprintable_of_all "False".toList (by decide) hd
    · exact fun d hd => isprintable_of_all "True".toList (by decide) hd
  | int n => exact fun d hd => isprintable_intText hd
  | float q =>
    intro d hd
    exact isprintable_of_all floatChars (by decide) (t.floats.chars q d hd)
  | str s => exact fun d hd => isprintable_quoted hd
  | arr h ih =>
    intro d hd
    rw [repr, toRaw, toRaws_eq, Raw.print, List.cons_append] at hd
    rcases List.mem_cons.mp hd with rfl | hd
    · exact isprintable_visible (by decide)
    · rcases List.mem_append.mp hd with hd | hd
      · rcases mem_printItems hd with hd | ⟨r, hr, hd⟩
        · exact isprintable_of_all separator (by decide) hd
        · obtain ⟨v, hv, rfl⟩ := List.mem_map.mp hr
          exact ih v hv d hd
      · exact isprintable_of_all [']'] (by decide) hd
  | obj keys h ih =>
    intro d hd
    rw [repr, toRaw, toRawMembers_eq, Raw.print, List.cons_append] at hd
    rcases List.mem_cons.mp hd with rfl | hd
    · exact isprintable_visible (by decide)
    · rcases List.mem_append.mp hd with hd | hd
      · rcases mem_printMembers hd with hd | ⟨r, hr, hd⟩
        · exact isprintable_of_all [',', ' ', ':'] (by decide) hd
        · obtain ⟨m, hm, rfl⟩ := List.mem_map.mp hr
          rcases hd with hd | hd
          · exact isprintable_quoted hd
          · exact ih m hm d hd
      · exact isprintable_of_all ['}'] (by decide) hd

/-- `ast.literal_eval(repr(d))`. -/
theorem literalEval_repr {d : Dict} (h : Literal (.obj d)) :
    literalEval t (repr t (.obj d)) = some (.obj d) := by
  have hwell := toRaw_wellFormed (t := t) h
  have hread := read_toRaw (t := t) h
  rw [literalEval, repr]
  rw [toRaw] at hwell hread ⊢
  rw [parse_print_dict lexicon_lawful hwell, Option.bind_some, hread]

end Values

/-- Every character outside ASCII is printable, blanks apart. -/
def plainChars : CharTable where
  isprintable c :=
    if c.toNat < 128 then decide (32 ≤ c.toNat) && decide (c.toNat < 127) else !isSpace c
  ascii c h := if_pos h
  blank c hblank hspace := by
    split
    · next hascii =>
      have hne : c.toNat ≠ 32 := fun heq => hspace (Char.toNat_inj.mp heq)
      have hlow : c.toNat < 32 := by
        simp only [isSpace, Bool.or_eq_true, Bool.and_eq_true, decide_eq_true_eq, beq_iff_eq]
          at hblank
        omega
      rw [decide_eq_false (by omega), Bool.false_and]
    · rw [hblank]
      rfl

/-- A fraction as numerator and denominator. -/
def fractionText (q : ℚ) : List Char := intText q.num ++ 'e' :: Nat.toDigits 10 q.den

def readFraction (cs : List Char) : Option ℚ :=
  (readInt (cs.takeWhile (· ≠ 'e'))).bind fun n =>
    (readNat ((cs.dropWhile (· ≠ 'e')).drop 1)).map fun d : ℕ => mkRat n d

theorem mem_intText {n : ℤ} {c : Char} (h : c ∈ intText n) : c = '-' ∨ c.isDigit = true := by
  have hdigit (hc : c ∈ Nat.toDigits 10 n.natAbs) : c.isDigit = true :=
    Nat.isDigit_of_mem_toDigits (by decide) (by decide) hc
  unfold intText at h
  split at h
  · rcases List.mem_cons.mp h with h | h
    · exact Or.inl h
    · exact Or.inr (hdigit h)
  · exact Or.inr (hdigit h)

theorem readFraction_text (q : ℚ) : readFraction (fractionText q) = some q := by
  have hplain : ∀ c ∈ intText q.num, decide (c ≠ 'e') = true := by
    intro c hc
    rcases mem_intText hc with rfl | hdigit
    · rfl
    · exact decide_eq_true fun heq => absurd (heq ▸ hdigit) (by decide)
  have hfront : (fractionText q).takeWhile (· ≠ 'e') = intText q.num := by
    rw [fractionText, List.takeWhile_append_of_pos hplain]
    simp
  have hback : ((fractionText q).dropWhile (· ≠ 'e')).drop 1 = Nat.toDigits 10 q.den := by
    rw [fractionText, List.dropWhile_append_of_pos hplain]
    simp
  rw [readFraction, hfront, hback, readInt_intText, Option.bind_some, readNat_toDigits,
    Option.map_some, Rat.mkRat_self]

theorem floatChar_of_isDigit {c : Char} (h : c.isDigit = true) : c ∈ floatChars := by
  have hall : ∀ k : Fin 10, Char.ofNat (48 + k) ∈ floatChars := by decide
  obtain ⟨hlow, hhigh⟩ := Char.isDigit_iff_toNat.mp h
  simp only [Char.reduceToNat] at hlow hhigh
  have hc : 48 + (c.toNat - 48) = c.toNat := by omega
  have hmem := hall ⟨c.toNat - 48, by omega⟩
  rwa [hc, Char.ofNat_toNat] at hmem

def plainFloats : FloatTexts where
  text := fractionText
  read := readFraction
  read_text := readFraction_text
  nonempty q := by simp [fractionText]
  chars q c hc := by
    rcases List.mem_append.mp hc with hc | hc
    · rcases mem_intText hc with rfl | hdigit
      · decide
      · exact floatChar_of_isDigit hdigit
    · rcases List.mem_cons.mp hc with rfl | hc
      · decide
      · exact floatChar_of_isDigit (Nat.isDigit_of_mem_toDigits (by decide) (by decide) hc)
  marked q := by simp [fractionText]

def plainTables : Tables := ⟨plainChars, plainFloats⟩

end PythonLiterals
