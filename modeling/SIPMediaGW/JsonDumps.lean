import SIPMediaGW.JsonStrings
import SIPMediaGW.PythonLiterals

/-! # Writing JSON texts

`json.dumps(value, ensure_ascii=False)`, which `json.loads` reads back. The texts of floats are
left to a parameter. -/
namespace JsonDumps

open BracketTexts
open EscapedTexts
open FieldMap
open JsonTexts
open PythonJson
open PythonLiterals (floatChars intText)

/-- `float.__repr__` of a finite float: a JSON number that `float()` reads back. -/
structure FloatTexts where
  text : ℚ → List Char
  floatOf : List Char → PyFloat
  reads : ∀ q, readNumber floatOf (text q) = some (.float (.finite q))
  chars : ∀ q, ∀ c ∈ text q, c ∈ floatChars

def escapeChar (c : Char) : List Char :=
  if c = '"' ∨ c = '\\' then ['\\', c]
  else if c = '\n' then ['\\', 'n']
  else if c = '\r' then ['\\', 'r']
  else if c = '\t' then ['\\', 't']
  else if c = Char.ofNat 12 then ['\\', 'f']
  else if c = Char.ofNat 8 then ['\\', 'b']
  else if c.toNat < 32 then '\\' :: 'u' :: toHex 4 c.toNat
  else [c]

def quoted (s : String) : Quoted := ⟨'"', s.toList.flatMap escapeChar⟩

theorem decode_escapeChar (c : Char) (cs : List Char) :
    decode escapes .plain (escapeChar c ++ cs) =
      (decode escapes .plain cs).map (c.toNat :: ·) := by
  unfold escapeChar
  split
  · next h =>
    refine decode_letter ?_
    rcases h with rfl | rfl <;> rfl
  · next h =>
    have hplain : c ≠ '\\' := fun heq => h (.inr heq)
    split_ifs with hfeed hreturn htab hform hback hlow
    · rw [hfeed]
      exact decode_letter rfl
    · rw [hreturn]
      exact decode_letter rfl
    · rw [htab]
      exact decode_letter rfl
    · rw [hform]
      exact decode_letter rfl
    · rw [hback]
      exact decode_letter rfl
    · exact (decode_width rfl rfl).trans (decode_hex (by omega))
    · exact decode_plain hplain

theorem decode_escaped (s : List Char) :
    decode escapes .plain (s.flatMap escapeChar) = some (s.map Char.toNat) := by
  induction s with
  | nil => rfl
  | cons c s ih =>
    rw [List.flatMap_cons, decode_escapeChar, ih, Option.map_some, List.map_cons]

/-- No control character is written. -/
theorem visible_escapeChar {c d : Char} (h : d ∈ escapeChar c) : 32 ≤ d.toNat := by
  have hpair (e : Char) (he : 32 ≤ e.toNat) (hd : d ∈ ['\\', e]) : 32 ≤ d.toNat := by
    rcases List.mem_pair.mp hd with rfl | rfl
    · decide
    · exact he
  unfold escapeChar at h
  split at h
  · next hc =>
    refine hpair c ?_ h
    rcases hc with rfl | rfl <;> decide
  · split_ifs at h with hfeed hreturn htab hform hback hlow
    · exact hpair 'n' (by decide) h
    · exact hpair 'r' (by decide) h
    · exact hpair 't' (by decide) h
    · exact hpair 'f' (by decide) h
    · exact hpair 'b' (by decide) h
    · rcases List.mem_cons.mp h with rfl | h
      · decide
      · rcases List.mem_cons.mp h with rfl | h
        · decide
        · exact (toHex_visible h).1.le
    · obtain rfl := List.mem_singleton.mp h
      omega

theorem readString_quoted (strict : Bool) (s : String) :
    readString strict (quoted s).body = some s := by
  have hcontrol : ((quoted s).body.any fun c => decide (c.toNat < 32)) = false := by
    rw [List.any_eq_false]
    intro c hc
    obtain ⟨d, -, hd⟩ := List.mem_flatMap.mp hc
    simpa using visible_escapeChar hd
  have hdecode : decode escapes .plain (quoted s).body = some (s.toList.map Char.toNat) :=
    decode_escaped s.toList
  rw [readString, hcontrol, Bool.and_false, if_neg Bool.false_ne_true, hdecode, Option.bind_some,
    joinSurrogates_toNat, scalars_map_toNat, Option.map_some, String.ofList_toList]

theorem closed_escapeChar (c : Char) (cs : List Char) :
    closed '"' (escapeChar c ++ cs) = closed '"' cs := by
  unfold escapeChar
  split
  · rfl
  · next h =>
    split_ifs
    · rfl
    · rfl
    · rfl
    · rfl
    · rfl
    · rw [List.cons_append, List.cons_append, closed]
      refine PythonLiterals.closed_append (fun d hd => ?_) cs
      obtain ⟨hplain, -, hdouble⟩ := toHex_plain hd
      exact ⟨hplain, hdouble⟩
    · refine PythonLiterals.closed_append (fun d hd => ?_) cs
      obtain rfl := List.mem_singleton.mp hd
      exact ⟨fun heq => h (.inr heq), fun heq => h (.inl heq)⟩

theorem quoted_wellFormed (s : String) : (quoted s).WellFormed lexicon where
  quote := rfl
  body := by
    have hall (cs : List Char) : closed '"' (cs.flatMap escapeChar) = true := by
      induction cs with
      | nil => rfl
      | cons c cs ih => rw [List.flatMap_cons, closed_escapeChar, ih]
    exact hall s.toList

def floatText (f : FloatTexts) : PyFloat → List Char
  | .finite q => f.text q
  | .infinity true => "-Infinity".toList
  | .infinity false => "Infinity".toList
  | .nan => "NaN".toList

/-- A form of strings that `json.loads` reads back. -/
structure Quoting where
  quoted : String → Quoted
  wellFormed : ∀ s, (quoted s).WellFormed lexicon
  reads : ∀ strict s, readString strict (quoted s).body = some s

def plainQuoting : Quoting where
  quoted := quoted
  wellFormed := quoted_wellFormed
  reads := readString_quoted

mutual

def toRawWith (w : Quoting) (f : FloatTexts) : Json → Raw
  | .null => .atom "null".toList
  | .bool true => .atom "true".toList
  | .bool false => .atom "false".toList
  | .int n => .atom (intText n)
  | .float x => .atom (floatText f x)
  | .str s => .text (w.quoted s)
  | .arr xs => .list (toRawsWith w f xs)
  | .obj d => .dict (toRawMembersWith w f d)

def toRawsWith (w : Quoting) (f : FloatTexts) : List Json → List Raw
  | [] => []
  | v :: xs => toRawWith w f v :: toRawsWith w f xs

def toRawMembersWith (w : Quoting) (f : FloatTexts) : List (String × Json) → List (Quoted × Raw)
  | [] => []
  | (k, v) :: d => (w.quoted k, toRawWith w f v) :: toRawMembersWith w f d

end

/-- `json.dumps(value, ensure_ascii=False)`. -/
def dumps (f : FloatTexts) (v : Json) : List Char := (toRawWith plainQuoting f v).print

/-- `json.dumps` with its separators and its form of strings. -/
def dumpsWith (w : Quoting) (l : Layout) (f : FloatTexts) (v : Json) : List Char :=
  (toRawWith w f v).printWith l

/-- A value that Python writes: the keys of a `dict` are there once, and no int has more digits
than `int.__repr__` goes up to. -/
inductive Writable : Json → Prop where
  | null : Writable .null
  | bool (b : Bool) : Writable (.bool b)
  | int {n : ℤ} (h : (Nat.toDigits 10 n.natAbs).length ≤ maxStrDigits) : Writable (.int n)
  | float (x : PyFloat) : Writable (.float x)
  | str (s : String) : Writable (.str s)
  | arr {xs : List Json} (h : ∀ v ∈ xs, Writable v) : Writable (.arr xs)
  | obj {d : Dict} (keys : (keys d).Nodup) (h : ∀ m ∈ d, Writable m.2) : Writable (.obj d)

section Values

variable {f : FloatTexts}

theorem toRawsWith_eq (w : Quoting) (xs : List Json) :
    toRawsWith w f xs = xs.map (toRawWith w f) := by
  induction xs with
  | nil => rfl
  | cons v xs ih => rw [toRawsWith, ih, List.map_cons]

theorem toRawMembersWith_eq (w : Quoting) (d : Dict) :
    toRawMembersWith w f d = d.map fun m => (w.quoted m.1, toRawWith w f m.2) := by
  induction d with
  | nil => rfl
  | cons m d ih => rw [toRawMembersWith, ih, List.map_cons]

theorem dumpsWith_plain (v : Json) : dumpsWith plainQuoting spaced f v = dumps f v :=
  printWith_spaced _

/-- A number other than zero starts with another digit. -/
theorem head_toDigits {n : ℕ} (h : 0 < n) : (Nat.toDigits 10 n).head? ≠ some '0' := by
  induction n using Nat.strong_induction_on with
  | _ n ih =>
    by_cases hlt : n < 10
    · rw [Nat.toDigits_of_lt_base hlt]
      have hdigit : ∀ m < 10, 0 < m → Nat.digitChar m ≠ '0' := by decide
      simpa using hdigit n hlt h
    · have hle : 10 ≤ n := not_lt.mp hlt
      have hhead := ih (n / 10) (by omega) (by omega)
      obtain ⟨c, cs, hcs⟩ := List.exists_cons_of_ne_nil
        (Nat.toDigits_ne_nil (n := n / 10) (b := 10))
      rw [Nat.toDigits_of_base_le (by decide) hle, hcs]
      rwa [hcs] at hhead

theorem isDigit_toDigits {n : ℕ} {c : Char} (hc : c ∈ Nat.toDigits 10 n) : c.isDigit = true :=
  Nat.isDigit_of_mem_toDigits (by decide) (by decide) hc

theorem takeWhile_toDigits (n : ℕ) :
    (Nat.toDigits 10 n).takeWhile Char.isDigit = Nat.toDigits 10 n ∧
      (Nat.toDigits 10 n).dropWhile Char.isDigit = [] :=
  ⟨List.takeWhile_eq_self_iff.mpr fun _ hc => isDigit_toDigits hc,
    List.dropWhile_eq_nil_iff.mpr fun _ hc => isDigit_toDigits hc⟩

/-- An int has no zero in front. -/
theorem plain_toDigits (n : ℕ) : (decide (1 < (Nat.toDigits 10 n).length) &&
    decide ((Nat.toDigits 10 n).head? = some '0')) = false := by
  rcases Nat.eq_zero_or_pos n with rfl | hpos
  · rfl
  · rw [decide_eq_false (head_toDigits hpos), Bool.and_false]

theorem intText_cases (n : ℤ) :
    (n < 0 ∧ intText n = '-' :: Nat.toDigits 10 n.natAbs) ∨
      (0 ≤ n ∧ intText n = Nat.toDigits 10 n.natAbs) := by
  unfold intText
  split
  · next h => exact .inl ⟨h, rfl⟩
  · next h => exact .inr ⟨not_lt.mp h, rfl⟩

theorem head_toDigits_ne_minus (n : ℕ) : (Nat.toDigits 10 n).head? ≠ some '-' := by
  intro h
  obtain ⟨cs, hcs⟩ := List.head?_eq_some_iff.mp h
  have hdigit := isDigit_toDigits (n := n) (c := '-') (by rw [hcs]; exact List.mem_cons_self)
  cases hdigit

theorem readNumber_intText {floatOf : List Char → PyFloat} {n : ℤ}
    (h : (Nat.toDigits 10 n.natAbs).length ≤ maxStrDigits) :
    readNumber floatOf (intText n) = some (.int n) := by
  have hne : (Nat.toDigits 10 n.natAbs).isEmpty = false := by
    rw [List.isEmpty_eq_false_iff]
    exact Nat.toDigits_ne_nil
  have hnatural : natural (Nat.toDigits 10 n.natAbs) = some n.natAbs := by
    rw [natural, if_pos h, Nat.ofDigitChars_ten_toDigits]
  obtain ⟨htake, hdrop⟩ := takeWhile_toDigits n.natAbs
  rcases intText_cases n with ⟨hneg, htext⟩ | ⟨hpos, htext⟩
  · rw [htext, readNumber]
    simp only [List.head?_cons, if_true, List.drop_succ_cons, List.drop_zero, htake, hdrop, hne,
      plain_toDigits, Bool.or_false, Bool.false_eq_true, if_false, List.isEmpty_nil, hnatural]
    change some (Json.int (-(n.natAbs : ℤ))) = _
    rw [Int.ofNat_natAbs_of_nonpos hneg.le, neg_neg]
  · rw [htext, readNumber]
    simp only [head_toDigits_ne_minus, if_false, htake, hdrop, hne, plain_toDigits, Bool.or_false,
      Bool.false_eq_true, List.isEmpty_nil, if_true, hnatural]
    change some (Json.int (n.natAbs : ℤ)) = _
    rw [Int.natAbs_of_nonneg hpos]

/-- The first character of a number tells it from the words. -/
theorem readAtom_number {floatOf : List Char → PyFloat} {token : List Char} {v : Json}
    (hread : readNumber floatOf token = some v) : readAtom floatOf token = some v := by
  have hword (word : List Char) (hnone : readNumber floatOf word = none) : token ≠ word := by
    rintro rfl
    rw [hnone] at hread
    cases hread
  rw [readAtom, if_neg (hword _ rfl), if_neg (hword _ rfl), if_neg (hword _ rfl),
    if_neg (hword _ rfl), if_neg (hword _ rfl), if_neg (hword _ rfl), hread]

theorem readAtom_floatText (x : PyFloat) :
    readAtom f.floatOf (floatText f x) = some (.float x) := by
  match x with
  | .finite q => exact readAtom_number (f.reads q)
  | .infinity true => rfl
  | .infinity false => rfl
  | .nan => rfl

theorem atomChar_of_isDigit {c : Char} (h : c.isDigit = true) : lexicon.atomChar c = true := by
  have hpython := PythonLiterals.atomChar_of_isDigit h
  simp only [Lexicon.atomChar, PythonLiterals.lexicon, lexicon, Bool.and_eq_true,
    Bool.not_eq_true', Bool.or_eq_false_iff, decide_eq_false_iff_not] at hpython ⊢
  exact ⟨⟨hpython.1.1.2, hpython.1.2⟩, hpython.2⟩

theorem intText_wellFormed (n : ℤ) : (Raw.atom (intText n)).WellFormed lexicon := by
  have hdigit (c : Char) (hc : c ∈ Nat.toDigits 10 n.natAbs) : lexicon.atomChar c = true :=
    atomChar_of_isDigit (isDigit_toDigits hc)
  rcases intText_cases n with ⟨-, htext⟩ | ⟨-, htext⟩
  · rw [htext]
    exact .atom (List.cons_ne_nil _ _) (List.forall_mem_cons.mpr ⟨rfl, hdigit⟩)
  · rw [htext]
    exact .atom Nat.toDigits_ne_nil hdigit

theorem floatText_wellFormed (x : PyFloat) : (Raw.atom (floatText f x)).WellFormed lexicon := by
  have hall (word : List Char) (hne : word ≠ []) (hword : word.all lexicon.atomChar = true) :
      (Raw.atom word).WellFormed lexicon := .atom hne (List.all_eq_true.mp hword)
  match x with
  | .finite q =>
    have hchars : floatChars.all lexicon.atomChar = true := by decide
    refine .atom ?_ fun c hc => List.all_eq_true.mp hchars c (f.chars q c hc)
    intro hnil
    have hread := f.reads q
    have hfloat : floatText f (.finite q) = f.text q := rfl
    rw [← hfloat, hnil] at hread
    cases hread
  | .infinity true => exact hall "-Infinity".toList (by decide) (by decide)
  | .infinity false => exact hall "Infinity".toList (by decide) (by decide)
  | .nan => exact hall "NaN".toList (by decide) (by decide)

theorem toRawWith_wellFormed (w : Quoting) {v : Json} (h : Writable v) :
    (toRawWith w f v).WellFormed lexicon := by
  induction h with
  | null => exact .atom (by decide) (List.all_eq_true.mp (by decide))
  | bool b =>
    cases b
    · exact .atom (by decide) (List.all_eq_true.mp (by decide))
    · exact .atom (by decide) (List.all_eq_true.mp (by decide))
  | int => exact intText_wellFormed _
  | float x => exact floatText_wellFormed x
  | str s => exact .text (w.wellFormed s)
  | arr h ih =>
    rw [toRawWith, toRawsWith_eq]
    exact .list (List.forall_mem_map.mpr ih)
  | obj keys h ih =>
    rw [toRawWith, toRawMembersWith_eq]
    exact .dict (List.forall_mem_map.mpr fun m _ => w.wellFormed m.1)
      (List.forall_mem_map.mpr ih)

theorem readItems_toRawWith {w : Quoting} {strict : Bool} {xs : List Json}
    (h : ∀ v ∈ xs, (toRawWith w f v).read (reading f.floatOf strict) = some v) :
    readItems (reading f.floatOf strict) (xs.map (toRawWith w f)) = some xs := by
  induction xs with
  | nil => rfl
  | cons v xs ih =>
    obtain ⟨hv, hxs⟩ := List.forall_mem_cons.mp h
    rw [List.map_cons, readItems, hv, Option.bind_some, ih hxs, Option.map_some]

theorem readMembers_toRawWith {w : Quoting} {strict : Bool} {d : Dict}
    (h : ∀ m ∈ d, (toRawWith w f m.2).read (reading f.floatOf strict) = some m.2) :
    readMembers (reading f.floatOf strict) (d.map fun m => (w.quoted m.1, toRawWith w f m.2)) =
      some d := by
  induction d with
  | nil => rfl
  | cons m d ih =>
    obtain ⟨hm, hd⟩ := List.forall_mem_cons.mp h
    have hkey : (reading f.floatOf strict).text (w.quoted m.1).body = some m.1 :=
      w.reads strict m.1
    rw [List.map_cons, readMembers, hkey, Option.bind_some, hm, Option.bind_some, ih hd,
      Option.map_some]

theorem read_toRawWith (w : Quoting) {strict : Bool} {v : Json} (h : Writable v) :
    (toRawWith w f v).read (reading f.floatOf strict) = some v := by
  induction h with
  | null => rfl
  | bool b => cases b <;> rfl
  | int h => exact readAtom_number (readNumber_intText h)
  | float x => exact readAtom_floatText x
  | str s =>
    rw [toRawWith, Raw.read]
    exact congrArg _ (w.reads strict s)
  | arr h ih => rw [toRawWith, toRawsWith_eq, Raw.read, readItems_toRawWith ih, Option.map_some]
  | obj keys h ih =>
    rw [toRawWith, toRawMembersWith_eq, Raw.read, readMembers_toRawWith ih, Option.map_some,
      putAll_nil_of_nodup keys]

/-- `json.loads(json.dumps(d))`, whatever the separators. -/
theorem loads_dumpsWith (w : Quoting) {l : Layout} (hl : l.Blank lexicon) {strict : Bool}
    {d : Dict} (h : Writable (.obj d)) :
    loads f.floatOf strict (dumpsWith w l f (.obj d)) = some (.obj d) := by
  have hwell := @toRawWith_wellFormed f w _ h
  have hread := @read_toRawWith f w strict _ h
  rw [loads, dumpsWith]
  rw [toRawWith] at hwell hread ⊢
  rw [parse_printWith_dict lexicon_lawful hl hwell, Option.bind_some, hread]

/-- `json.loads(json.dumps(d, ensure_ascii=False))`. -/
theorem loads_dumps {strict : Bool} {d : Dict} (h : Writable (.obj d)) :
    loads f.floatOf strict (dumps f (.obj d)) = some (.obj d) := by
  rw [← dumpsWith_plain]
  exact loads_dumpsWith plainQuoting (spaced_blank lexicon_lawful) h

end Values

/-- What is written beside the texts of a value. -/
def bareChars : List Char := "[]{},: \"nulltruefalse-InfinityNaN0123456789.e+".toList

mutual

/-- The texts of a value, keys and members. -/
def texts : Json → List String
  | .null => []
  | .bool _ => []
  | .int _ => []
  | .float _ => []
  | .str s => [s]
  | .arr xs => itemTexts xs
  | .obj d => memberTexts d

def itemTexts : List Json → List String
  | [] => []
  | v :: xs => texts v ++ itemTexts xs

def memberTexts : List (String × Json) → List String
  | [] => []
  | (k, v) :: d => k :: (texts v ++ memberTexts d)

end

theorem mem_itemTexts {xs : List Json} {s : String} :
    s ∈ itemTexts xs ↔ ∃ v ∈ xs, s ∈ texts v := by
  induction xs with
  | nil => simp [itemTexts]
  | cons v xs ih => rw [itemTexts, List.mem_append, ih, List.exists_mem_cons_iff]

theorem mem_memberTexts {d : Dict} {s : String} :
    s ∈ memberTexts d ↔ ∃ m ∈ d, s = m.1 ∨ s ∈ texts m.2 := by
  induction d with
  | nil => simp [memberTexts]
  | cons m d ih =>
    rw [memberTexts, List.mem_cons, List.mem_append, ih, List.exists_mem_cons_iff, or_assoc]

section Characters

variable {f : FloatTexts} {c : Char}

theorem mem_bareChars_of (word : List Char)
    (hall : (word.all fun d => decide (d ∈ bareChars)) = true) (h : c ∈ word) : c ∈ bareChars :=
  of_decide_eq_true (List.all_eq_true.mp hall c h)

theorem mem_quoted {s : String} (h : c ∈ (quoted s).print) :
    c ∈ bareChars ∨ c ∈ s.toList.flatMap escapeChar := by
  rcases List.mem_append.mp h with h | h
  · rcases List.mem_cons.mp h with rfl | h
    · exact .inl (mem_bareChars_of ['"'] (by decide) List.mem_cons_self)
    · exact .inr h
  · obtain rfl := List.mem_singleton.mp h
    exact .inl (mem_bareChars_of ['"'] (by decide) List.mem_cons_self)

theorem mem_bareChars_of_int {n : ℤ} (h : c ∈ intText n) : c ∈ bareChars := by
  rcases PythonLiterals.mem_intText h with rfl | hdigit
  · exact mem_bareChars_of ['-'] (by decide) List.mem_cons_self
  · exact mem_bareChars_of floatChars (by decide) (PythonLiterals.floatChar_of_isDigit hdigit)

theorem mem_bareChars_of_float {x : PyFloat} (h : c ∈ floatText f x) : c ∈ bareChars := by
  match x with
  | .finite q => exact mem_bareChars_of floatChars (by decide) (f.chars q c h)
  | .infinity true => exact mem_bareChars_of "-Infinity".toList (by decide) h
  | .infinity false => exact mem_bareChars_of "Infinity".toList (by decide) h
  | .nan => exact mem_bareChars_of "NaN".toList (by decide) h

/-- What is written of the texts is what their characters are escaped to. -/
theorem mem_dumps {v : Json} (h : c ∈ dumps f v) :
    c ∈ bareChars ∨ ∃ s ∈ texts v, c ∈ s.toList.flatMap escapeChar := by
  induction v using Json.induct with
  | null => exact .inl (mem_bareChars_of "null".toList (by decide) h)
  | bool b =>
    cases b
    · exact .inl (mem_bareChars_of "false".toList (by decide) h)
    · exact .inl (mem_bareChars_of "true".toList (by decide) h)
  | int n => exact .inl (mem_bareChars_of_int h)
  | float x => exact .inl (mem_bareChars_of_float h)
  | str s => exact (mem_quoted h).imp_right fun h => ⟨s, List.mem_cons_self, h⟩
  | arr xs ih =>
    rw [dumps, toRawWith, toRawsWith_eq, Raw.print, List.cons_append] at h
    rcases List.mem_cons.mp h with rfl | h
    · exact .inl (mem_bareChars_of ['['] (by decide) List.mem_cons_self)
    · rcases List.mem_append.mp h with h | h
      · rcases mem_printItems h with h | ⟨r, hr, h⟩
        · exact .inl (mem_bareChars_of separator (by decide) h)
        · obtain ⟨v, hv, rfl⟩ := List.mem_map.mp hr
          refine (ih v hv h).imp_right ?_
          rintro ⟨s, hs, h⟩
          exact ⟨s, mem_itemTexts.mpr ⟨v, hv, hs⟩, h⟩
      · exact .inl (mem_bareChars_of [']'] (by decide) h)
  | obj d ih =>
    rw [dumps, toRawWith, toRawMembersWith_eq, Raw.print, List.cons_append] at h
    rcases List.mem_cons.mp h with rfl | h
    · exact .inl (mem_bareChars_of ['{'] (by decide) List.mem_cons_self)
    · rcases List.mem_append.mp h with h | h
      · rcases mem_printMembers h with h | ⟨r, hr, h⟩
        · exact .inl (mem_bareChars_of [',', ' ', ':'] (by decide) h)
        · obtain ⟨m, hm, rfl⟩ := List.mem_map.mp hr
          rcases h with h | h
          · exact (mem_quoted h).imp_right fun h =>
              ⟨m.1, mem_memberTexts.mpr ⟨m, hm, .inl rfl⟩, h⟩
          · refine (ih m hm h).imp_right ?_
            rintro ⟨s, hs, h⟩
            exact ⟨s, mem_memberTexts.mpr ⟨m, hm, .inr hs⟩, h⟩
      · exact .inl (mem_bareChars_of ['}'] (by decide) h)

/-- Every text is written. -/
theorem text_infix_dumps {v : Json} {s : String} (h : s ∈ texts v) :
    s.toList.flatMap escapeChar <:+: dumps f v := by
  have hquoted (s : String) : s.toList.flatMap escapeChar <:+: (quoted s).print :=
    ⟨['"'], ['"'], rfl⟩
  induction v using Json.induct with
  | null => cases h
  | bool b => cases h
  | int n => cases h
  | float x => cases h
  | str t =>
    obtain rfl := List.mem_singleton.mp h
    exact hquoted s
  | arr xs ih =>
    obtain ⟨v, hv, hs⟩ := mem_itemTexts.mp h
    rw [dumps, toRawWith, toRawsWith_eq]
    have hitem := item_infix_printItems (List.mem_map_of_mem (f := toRawWith plainQuoting f) hv)
    exact ((ih v hv hs).trans hitem).trans ⟨['['], [']'], rfl⟩
  | obj d ih =>
    obtain ⟨m, hm, hs⟩ := mem_memberTexts.mp h
    rw [dumps, toRawWith, toRawMembersWith_eq]
    have hmem := List.mem_map_of_mem (f := fun m => (quoted m.1, toRawWith plainQuoting f m.2)) hm
    refine List.IsInfix.trans ?_ (⟨['{'], ['}'], rfl⟩ : printMembers _ <:+: _)
    rcases hs with rfl | hs
    · exact (hquoted m.1).trans (key_infix_printMembers hmem)
    · exact (ih m hm hs).trans (value_infix_printMembers hmem)

/-- No line ends in what is written, whatever the texts of the value. -/
theorem visible_dumps (v : Json) : ∀ d ∈ dumps f v, 32 ≤ d.toNat := by
  intro d hd
  rcases mem_dumps hd with hbare | ⟨s, -, hd⟩
  · have hall : (bareChars.all fun d => decide (32 ≤ d.toNat)) = true := by decide
    exact of_decide_eq_true (List.all_eq_true.mp hall d hbare)
  · obtain ⟨c, -, hc⟩ := List.mem_flatMap.mp hd
    exact visible_escapeChar hc

/-- A property of every character that is written is one of the texts. -/
theorem forall_mem_dumps_iff {P : Char → Prop} (hbare : ∀ d ∈ bareChars, P d) (v : Json) :
    (∀ d ∈ dumps f v, P d) ↔ ∀ s ∈ texts v, ∀ c ∈ s.toList, ∀ d ∈ escapeChar c, P d := by
  constructor
  · intro h s hs c hc d hd
    exact h d ((text_infix_dumps hs).subset (List.mem_flatMap.mpr ⟨c, hc, hd⟩))
  · intro h d hd
    rcases mem_dumps hd with hd | ⟨s, hs, hd⟩
    · exact hbare d hd
    · obtain ⟨c, hc, hd⟩ := List.mem_flatMap.mp hd
      exact h s hs c hc d hd

end Characters

def asciiChar (c : Char) : List Char :=
  if 32 ≤ c.toNat ∧ c.toNat < 127 then [c]
  else if c.toNat < 0x10000 then '\\' :: 'u' :: toHex 4 c.toNat
  else '\\' :: 'u' :: toHex 4 (0xD800 + (c.toNat - 0x10000) / 0x400) ++
    '\\' :: 'u' :: toHex 4 (0xDC00 + (c.toNat - 0x10000) % 0x400)

/-- `json.dumps(value)`: all but visible ASCII stands inside of texts, and is escaped there. -/
def asciiDumps (f : FloatTexts) (v : Json) : List Char := (dumps f v).flatMap asciiChar

/-- A character of a string of `json.dumps(value)`. -/
def asciiEscape (c : Char) : List Char := if c.toNat < 127 then escapeChar c else asciiChar c

def asciiQuoted (s : String) : Quoted := ⟨'"', s.toList.flatMap asciiEscape⟩

/-- The UTF-16 code units of a character. -/
def codeUnits (c : Char) : List ℕ :=
  if c.toNat < 0x10000 then [c.toNat]
  else [0xD800 + (c.toNat - 0x10000) / 0x400, 0xDC00 + (c.toNat - 0x10000) % 0x400]

section Ascii

theorem toNat_lt (c : Char) : c.toNat < 0x110000 := by
  have hvalid : c.toNat.isValidChar := c.valid
  rcases hvalid with hlow | ⟨-, hhigh⟩ <;> omega

theorem decode_unit {n : ℕ} (hn : n < 0x10000) (cs : List Char) :
    decode escapes .plain ('\\' :: 'u' :: toHex 4 n ++ cs) =
      (decode escapes .plain cs).map (n :: ·) :=
  (decode_width rfl rfl).trans (decode_hex hn)

theorem decode_asciiEscape (c : Char) (cs : List Char) :
    decode escapes .plain (asciiEscape c ++ cs) =
      (decode escapes .plain cs).map (codeUnits c ++ ·) := by
  have hlt := toNat_lt c
  unfold asciiEscape codeUnits
  by_cases hascii : c.toNat < 127
  · rw [if_pos hascii, if_pos (by omega), decode_escapeChar]
    rfl
  · rw [if_neg hascii, asciiChar, if_neg fun h => hascii h.2]
    by_cases hone : c.toNat < 0x10000
    · rw [if_pos hone, if_pos hone, decode_unit hone]
      rfl
    · rw [if_neg hone, if_neg hone, List.append_assoc, decode_unit (by omega),
        decode_unit (by omega), Option.map_map]
      rfl

theorem decode_asciiEscaped (s : List Char) :
    decode escapes .plain (s.flatMap asciiEscape) = some (s.flatMap codeUnits) := by
  induction s with
  | nil => rfl
  | cons c s ih =>
    rw [List.flatMap_cons, decode_asciiEscape, ih, Option.map_some, List.flatMap_cons]

/-- The units of a text are joined to its characters. -/
theorem joinSurrogates_codeUnits (cs : List Char) :
    joinSurrogates (cs.flatMap codeUnits) = cs.map Char.toNat := by
  induction cs with
  | nil => rfl
  | cons c cs ih =>
    have hlt := toNat_lt c
    rw [List.flatMap_cons, List.map_cons, ← ih, codeUnits]
    by_cases hone : c.toNat < 0x10000
    · rw [if_pos hone, List.singleton_append]
      cases hrest : cs.flatMap codeUnits with
      | nil => rfl
      | cons n ns =>
        rw [joinSurrogates, isHigh_toNat, Bool.false_and, if_neg Bool.false_ne_true]
    · have hjoined : 0x10000 + (0xD800 + (c.toNat - 0x10000) / 0x400 - 0xD800) * 1024 +
          (0xDC00 + (c.toNat - 0x10000) % 0x400 - 0xDC00) = c.toNat := by
        omega
      rw [if_neg hone, List.cons_append, List.singleton_append, joinSurrogates, if_pos, hjoined]
      rw [isHigh, isLow, decide_eq_true (by omega), decide_eq_true (by omega),
        decide_eq_true (by omega), decide_eq_true (by omega)]
      rfl

theorem visible_asciiEscape {c d : Char} (h : d ∈ asciiEscape c) : 32 ≤ d.toNat := by
  have hunit {n : ℕ} (hd : d ∈ '\\' :: 'u' :: toHex 4 n) : 32 ≤ d.toNat := by
    rcases List.mem_cons.mp hd with rfl | hd
    · decide
    · rcases List.mem_cons.mp hd with rfl | hd
      · decide
      · exact (toHex_visible hd).1.le
  unfold asciiEscape at h
  split at h
  · exact visible_escapeChar h
  · unfold asciiChar at h
    split_ifs at h with hvisible hone
    · obtain rfl := List.mem_singleton.mp h
      exact hvisible.1
    · exact hunit h
    · rcases List.mem_append.mp h with hd | hd
      · exact hunit hd
      · exact hunit hd

theorem readString_asciiQuoted (strict : Bool) (s : String) :
    readString strict (asciiQuoted s).body = some s := by
  have hcontrol : ((asciiQuoted s).body.any fun c => decide (c.toNat < 32)) = false := by
    rw [List.any_eq_false]
    intro c hc
    obtain ⟨d, -, hd⟩ := List.mem_flatMap.mp hc
    rw [decide_eq_true_eq, not_lt]
    exact visible_asciiEscape hd
  have hdecode : decode escapes .plain (asciiQuoted s).body = some (s.toList.flatMap codeUnits) :=
    decode_asciiEscaped s.toList
  rw [readString, hcontrol, Bool.and_false, if_neg Bool.false_ne_true, hdecode, Option.bind_some,
    joinSurrogates_codeUnits, scalars_map_toNat, Option.map_some, String.ofList_toList]

theorem closed_unit (n : ℕ) (cs : List Char) :
    closed '"' ('\\' :: 'u' :: toHex 4 n ++ cs) = closed '"' cs := by
  rw [List.cons_append, List.cons_append, closed]
  refine PythonLiterals.closed_append (fun d hd => ?_) cs
  obtain ⟨hplain, -, hdouble⟩ := toHex_plain hd
  exact ⟨hplain, hdouble⟩

theorem closed_asciiEscape (c : Char) (cs : List Char) :
    closed '"' (asciiEscape c ++ cs) = closed '"' cs := by
  unfold asciiEscape
  by_cases hascii : c.toNat < 127
  · rw [if_pos hascii, closed_escapeChar]
  · rw [if_neg hascii, asciiChar, if_neg fun h => hascii h.2]
    by_cases hone : c.toNat < 0x10000
    · rw [if_pos hone, closed_unit]
    · rw [if_neg hone, List.append_assoc, closed_unit, closed_unit]

theorem asciiQuoted_wellFormed (s : String) : (asciiQuoted s).WellFormed lexicon where
  quote := rfl
  body := by
    have hall (cs : List Char) : closed '"' (cs.flatMap asciiEscape) = true := by
      induction cs with
      | nil => rfl
      | cons c cs ih => rw [List.flatMap_cons, closed_asciiEscape, ih]
    exact hall s.toList

end Ascii

def asciiQuoting : Quoting where
  quoted := asciiQuoted
  wellFormed := asciiQuoted_wellFormed
  reads := readString_asciiQuoted

def compact : Layout := ⟨[], []⟩

/-- `json.dumps(value, separators=(",", ":"))`. -/
def compactDumps (f : FloatTexts) (v : Json) : List Char := dumpsWith asciiQuoting compact f v

section Values

variable {f : FloatTexts}

theorem compact_blank : compact.Blank lexicon where
  item _ hc := nomatch hc
  key _ hc := nomatch hc

theorem loads_compactDumps {strict : Bool} {d : Dict} (h : Writable (.obj d)) :
    loads f.floatOf strict (compactDumps f (.obj d)) = some (.obj d) :=
  loads_dumpsWith asciiQuoting compact_blank h

/-- An object begins and ends with its braces. -/
theorem dumps_obj (f : FloatTexts) (d : Dict) : ∃ cs, dumps f (.obj d) = '{' :: cs ++ ['}'] :=
  ⟨_, rfl⟩

end Values

theorem isExponent_toDigits (n : ℕ) : isExponent ('e' :: Nat.toDigits 10 n) = true := by
  have hall : (Nat.toDigits 10 n).all Char.isDigit = true :=
    List.all_eq_true.mpr fun c hc => isDigit_toDigits hc
  obtain ⟨c, cs, hcs⟩ := List.exists_cons_of_ne_nil (Nat.toDigits_ne_nil (n := n) (b := 10))
  rw [hcs] at hall ⊢
  unfold isExponent
  split
  · next heq => cases heq
  · next e digits heq =>
    obtain ⟨rfl, rfl⟩ := List.cons.inj heq
    dsimp only
    split
    · next heq =>
      rw [heq] at hall
      cases hall
    · next heq =>
      rw [heq] at hall
      cases hall
    · rw [hall]
      rfl

theorem readNumber_fractionText (floatOf : List Char → PyFloat) (q : ℚ) :
    readNumber floatOf (PythonLiterals.fractionText q) =
      some (.float (floatOf (PythonLiterals.fractionText q))) := by
  have hdigits : ∀ c ∈ Nat.toDigits 10 q.num.natAbs, Char.isDigit c = true :=
    fun c hc => isDigit_toDigits hc
  have htake : (Nat.toDigits 10 q.num.natAbs ++ 'e' :: Nat.toDigits 10 q.den).takeWhile
      Char.isDigit = Nat.toDigits 10 q.num.natAbs := by
    rw [List.takeWhile_append_of_pos hdigits]
    simp
  have hdrop : (Nat.toDigits 10 q.num.natAbs ++ 'e' :: Nat.toDigits 10 q.den).dropWhile
      Char.isDigit = 'e' :: Nat.toDigits 10 q.den := by
    rw [List.dropWhile_append_of_pos hdigits]
    simp
  have hunsigned : (if (PythonLiterals.fractionText q).head? = some '-'
      then (PythonLiterals.fractionText q).drop 1 else PythonLiterals.fractionText q) =
      Nat.toDigits 10 q.num.natAbs ++ 'e' :: Nat.toDigits 10 q.den := by
    rw [PythonLiterals.fractionText]
    rcases intText_cases q.num with ⟨-, htext⟩ | ⟨-, htext⟩
    · rw [htext]
      rfl
    · obtain ⟨c, cs, hcs⟩ := List.exists_cons_of_ne_nil
        (Nat.toDigits_ne_nil (n := q.num.natAbs) (b := 10))
      have hhead := head_toDigits_ne_minus q.num.natAbs
      rw [hcs] at hhead
      rw [htext, hcs]
      exact if_neg hhead
  have hne : (Nat.toDigits 10 q.num.natAbs).isEmpty = false := by
    rw [List.isEmpty_eq_false_iff]
    exact Nat.toDigits_ne_nil
  have hexponent : (afterFraction ('e' :: Nat.toDigits 10 q.den)).any isExponent = true :=
    isExponent_toDigits q.den
  rw [readNumber, hunsigned]
  simp only [htake, hdrop, hne, plain_toDigits, Bool.or_false, Bool.false_eq_true, if_false,
    List.isEmpty_cons, hexponent, if_true]

/-- Floats as fractions, in the form of JSON numbers. -/
def plainFloats : FloatTexts where
  text := PythonLiterals.fractionText
  floatOf token := ((PythonLiterals.readFraction token).map PyFloat.finite).getD .nan
  reads q := by
    rw [readNumber_fractionText, PythonLiterals.readFraction_text]
    rfl
  chars := PythonLiterals.plainFloats.chars

end JsonDumps
