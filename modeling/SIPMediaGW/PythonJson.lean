import Mathlib.Data.List.DropRight
import Mathlib.Data.Rat.Defs

/-! # JSON values as Python reads them

A float is carried as its exact value. The text of floats, lists and objects is left to
a parameter: `str()` of the other values is spelled out. -/
namespace PythonJson

inductive PyFloat where
  | finite (q : ℚ)
  | infinity (negative : Bool)
  | nan
  deriving DecidableEq

inductive Json where
  | null
  | bool (b : Bool)
  | int (n : ℤ)
  | float (x : PyFloat)
  | str (s : String)
  | arr (xs : List Json)
  | obj (d : List (String × Json))

theorem Json.induct {P : Json → Prop} (null : P .null) (bool : ∀ b, P (.bool b))
    (int : ∀ n, P (.int n)) (float : ∀ x, P (.float x)) (str : ∀ s, P (.str s))
    (arr : ∀ xs, (∀ v ∈ xs, P v) → P (.arr xs)) (obj : ∀ d, (∀ m ∈ d, P m.2) → P (.obj d))
    (v : Json) : P v := by
  refine @Json.rec P (fun xs => ∀ v ∈ xs, P v) (fun d => ∀ m ∈ d, P m.2) (fun m => P m.2)
    null bool int float str arr obj ?_ ?_ ?_ ?_ ?_ v
  · exact fun v hv => nomatch hv
  · exact fun v xs hv hxs => List.forall_mem_cons.mpr ⟨hv, hxs⟩
  · exact fun m hm => nomatch hm
  · exact fun m d hm hd => List.forall_mem_cons.mpr ⟨hm, hd⟩
  · exact fun k v hv => hv

/-- A `dict`: keys in insertion order. -/
abbrev Dict := List (String × Json)

mutual

/-- The same value, key by key. -/
def same : Json → Json → Bool
  | .null, .null => true
  | .bool a, .bool b => decide (a = b)
  | .int m, .int n => decide (m = n)
  | .float x, .float y => decide (x = y)
  | .str s, .str t => decide (s = t)
  | .arr xs, .arr ys => sameItems xs ys
  | .obj d, .obj e => sameMembers d e
  | _, _ => false

def sameItems : List Json → List Json → Bool
  | [], [] => true
  | v :: xs, w :: ys => same v w && sameItems xs ys
  | _, _ => false

def sameMembers : List (String × Json) → List (String × Json) → Bool
  | [], [] => true
  | (k, v) :: d, (k', w) :: e => decide (k = k') && (same v w && sameMembers d e)
  | _, _ => false

end

mutual

theorem same_iff : (v w : Json) → (same v w = true ↔ v = w)
  | .null, w => by cases w <;> simp [same]
  | .bool a, w => by cases w <;> simp [same]
  | .int n, w => by cases w <;> simp [same]
  | .float x, w => by cases w <;> simp [same]
  | .str s, w => by cases w <;> simp [same]
  | .arr xs, w => by cases w <;> simp [same, sameItems_iff xs]
  | .obj d, w => by cases w <;> simp [same, sameMembers_iff d]

theorem sameItems_iff : (xs ys : List Json) → (sameItems xs ys = true ↔ xs = ys)
  | [], ys => by cases ys <;> simp [sameItems]
  | v :: xs, ys => by cases ys <;> simp [sameItems, same_iff v, sameItems_iff xs]

theorem sameMembers_iff : (d e : List (String × Json)) → (sameMembers d e = true ↔ d = e)
  | [], e => by cases e <;> simp [sameMembers]
  | (k, v) :: d, e => by
    cases e <;> simp [sameMembers, same_iff v, sameMembers_iff d, Prod.ext_iff, and_assoc]

end

instance : DecidableEq Json := fun v w => decidable_of_iff (same v w = true) (same_iff v w)

def truthy : Json → Bool
  | .null => false
  | .bool b => b
  | .int n => n != 0
  | .float (.finite q) => q != 0
  | .float _ => true
  | .str s => s != ""
  | .arr xs => !xs.isEmpty
  | .obj d => !d.isEmpty

/-- `value == text` for a string constant of the source. -/
def isText (v : Json) (text : String) : Bool :=
  match v with
  | .str s => s == text
  | _ => false

/-- `dict.get(key)`: an absent key reads as `None`. -/
def field (d : Dict) (key : String) : Json := (d.lookup key).getD .null

/-- `str(value)`, given the text of floats, lists and objects. -/
def pyStr (repr : Json → String) : Json → String
  | .null => "None"
  | .bool true => "True"
  | .bool false => "False"
  | .int n => toString n
  | .str s => s
  | v => repr v

/-- `str.isspace()` of one character. -/
def isSpace (c : Char) : Bool :=
  let n := c.toNat
  (9 ≤ n && n ≤ 13) || (28 ≤ n && n ≤ 32) || n == 133 || n == 160 || n == 5760 ||
    (8192 ≤ n && n ≤ 8202) || n == 8232 || n == 8233 || n == 8239 || n == 8287 || n == 12288

def stripChars (blank : Char → Bool) (cs : List Char) : List Char :=
  (cs.dropWhile blank).rdropWhile blank

/-- `str.strip()`. -/
def strip (s : String) : String := String.ofList (stripChars isSpace s.toList)

/-- `str.split(sep)` for a separator of one character. -/
def split (sep : Char) : List Char → List (List Char)
  | [] => [[]]
  | c :: cs =>
    if c = sep then [] :: split sep cs
    else match split sep cs with
      | [] => [[c]]
      | word :: words => (c :: word) :: words

/-- The zero of every run of ten decimal digits, as of Unicode 15.0. -/
def decimalZeros : List Nat :=
  [48, 1632, 1776, 1984, 2406, 2534, 2662, 2790, 2918, 3046, 3174, 3302, 3430, 3558, 3664,
   3792, 3872, 4160, 4240, 6112, 6160, 6470, 6608, 6784, 6800, 6992, 7088, 7232, 7248, 42528,
   43216, 43264, 43472, 43504, 43600, 44016, 65296, 66720, 68912, 69734, 69872, 69942, 70096,
   70384, 70736, 70864, 71248, 71360, 71472, 71904, 72016, 72784, 73040, 73120, 73552, 92768,
   92864, 93008, 120782, 120792, 120802, 120812, 120822, 123200, 123632, 124144, 125264, 130032]

def decimalDigit (c : Char) : Option Nat :=
  (decimalZeros.find? fun z => z ≤ c.toNat && c.toNat < z + 10).map fun z => c.toNat - z

/-- The digits outside the decimal runs (superscripts, circled digits, ...), as ranges. -/
def otherDigits : List (Nat × Nat) :=
  [(178, 179), (185, 185), (4969, 4977), (6618, 6618), (8304, 8304), (8308, 8313), (8320, 8329),
   (9312, 9320), (9332, 9340), (9352, 9360), (9450, 9450), (9461, 9469), (9471, 9471),
   (10102, 10110), (10112, 10120), (10122, 10130), (68160, 68163), (69216, 69224),
   (69714, 69722), (127232, 127242)]

/-- `str.isdigit()` of one character. -/
def isDigit (c : Char) : Bool :=
  (decimalDigit c).isSome || otherDigits.any fun r => r.1 ≤ c.toNat && c.toNat ≤ r.2

/-- Blanks around a number: the ASCII ones of C, and any blank outside ASCII. -/
def isNumberBlank (c : Char) : Bool :=
  if c.toNat < 127 then (9 ≤ c.toNat && c.toNat ≤ 13) || c.toNat == 32 else isSpace c

/-- The digits of a number text: single underscores may stand between two digits. -/
def digitsOf : List Char → Option (List Nat)
  | [] => none
  | [c] => (decimalDigit c).map fun d => [d]
  | c :: '_' :: cs => (decimalDigit c).bind fun d => (digitsOf cs).map (d :: ·)
  | c :: cs => (decimalDigit c).bind fun d => (digitsOf cs).map (d :: ·)

/-- The longest number text `int()` converts (`sys.get_int_max_str_digits()`). -/
def maxStrDigits : Nat := 4300

def naturalOfText (cs : List Char) : Option ℕ :=
  (digitsOf cs).bind fun ds =>
    if ds.length ≤ maxStrDigits then some (ds.foldl (fun n d => 10 * n + d) 0) else none

/-- `int(text)`; `none` where it raises ValueError. -/
def intOfText (s : String) : Option ℤ :=
  match stripChars isNumberBlank s.toList with
  | '-' :: cs => (naturalOfText cs).map fun n => -(n : ℤ)
  | '+' :: cs => (naturalOfText cs).map fun n => (n : ℤ)
  | cs => (naturalOfText cs).map fun n => (n : ℤ)

/-- `int(value)`; `none` where it raises TypeError, ValueError or OverflowError. -/
def pyInt : Json → Option ℤ
  | .bool b => some (if b then 1 else 0)
  | .int n => some n
  | .float (.finite q) => some (q.num.tdiv q.den)
  | .str s => intOfText s
  | _ => none

example : intOfText " -1_0 " = some (-10) := by decide

theorem decimalDigit_of_isDigit {c : Char} (h : c.isDigit) :
    decimalDigit c = some (c.toNat - 48) := by
  have hrange : 48 ≤ c.toNat ∧ c.toNat < 48 + 10 := by
    obtain ⟨hlow, hhigh⟩ := Char.isDigit_iff_toNat.mp h
    simp at hlow hhigh
    omega
  have hfind : decimalZeros.find? (fun z => z ≤ c.toNat && c.toNat < z + 10) = some 48 :=
    List.find?_cons_of_pos (by simpa using hrange)
  rw [decimalDigit, hfind]
  rfl

theorem isDigit_of_ascii {c : Char} (h : c.isDigit) : isDigit c = true := by
  rw [isDigit, decimalDigit_of_isDigit h]
  rfl

theorem digitsOf_of_isDigit {cs : List Char} (hne : cs ≠ []) (h : ∀ c ∈ cs, c.isDigit) :
    digitsOf cs = some (cs.map fun c => c.toNat - 48) := by
  fun_induction digitsOf cs with
  | case1 => exact absurd rfl hne
  | case2 c =>
    rw [decimalDigit_of_isDigit (h c List.mem_cons_self)]
    rfl
  | case3 c cs ih =>
    have hunderscore := h '_' (by simp)
    exact absurd hunderscore (by decide)
  | case4 c cs hcs hunderscore ih =>
    rw [decimalDigit_of_isDigit (h c List.mem_cons_self),
      ih hcs fun d hd => h d (List.mem_cons_of_mem c hd)]
    rfl

theorem isText_unique {v : Json} {a b : String} (ha : isText v a = true)
    (hb : isText v b = true) : a = b := by
  cases v with
  | str s => exact (beq_iff_eq.mp ha).symm.trans (beq_iff_eq.mp hb)
  | _ => cases ha

theorem isText_ne {v : Json} {a b : String} (ha : isText v a = true) (hne : a ≠ b) :
    isText v b = false := by
  rw [Bool.eq_false_iff]
  exact fun hb => hne (isText_unique ha hb)

theorem stripChars_of_forall {blank : Char → Bool} {cs : List Char}
    (h : ∀ c ∈ cs, blank c = false) : stripChars blank cs = cs := by
  have hfront : cs.dropWhile blank = cs :=
    List.dropWhile_eq_self_iff.mpr fun hlt => by simp [h _ (List.getElem_mem hlt)]
  rw [stripChars, hfront, List.rdropWhile_eq_self_iff]
  intro hne
  simp [h _ (List.getLast_mem hne)]

theorem stripChars_eq_self {blank : Char → Bool} {cs : List Char}
    (h : ∀ hne : cs ≠ [], blank (cs.head hne) = false ∧ blank (cs.getLast hne) = false) :
    stripChars blank cs = cs := by
  have hfront : cs.dropWhile blank = cs := by
    cases cs with
    | nil => rfl
    | cons c cs =>
      have hhead : blank c = false := (h (List.cons_ne_nil c cs)).1
      exact List.dropWhile_cons_of_neg (by simp [hhead])
  rw [stripChars, hfront, List.rdropWhile_eq_self_iff]
  intro hne
  simp [(h hne).2]

theorem ends_stripChars {blank : Char → Bool} {cs : List Char}
    (hne : stripChars blank cs ≠ []) : blank ((stripChars blank cs).head hne) = false ∧
      blank ((stripChars blank cs).getLast hne) = false := by
  constructor
  · have hstart : stripChars blank cs <+: cs.dropWhile blank := List.rdropWhile_prefix blank _
    rw [List.IsPrefix.head hstart hne]
    exact List.head_dropWhile_not blank _
  · exact Bool.eq_false_iff.mpr (List.rdropWhile_last_not blank _ hne)

theorem stripChars_stripChars (blank : Char → Bool) (cs : List Char) :
    stripChars blank (stripChars blank cs) = stripChars blank cs :=
  stripChars_eq_self fun hne => ends_stripChars hne

theorem mem_of_mem_stripChars {blank : Char → Bool} {cs : List Char} {c : Char}
    (h : c ∈ stripChars blank cs) : c ∈ cs :=
  (List.dropWhile_suffix blank).subset ((List.rdropWhile_prefix blank _).subset h)

theorem naturalOfText_toDigits {n : ℕ} (h : (Nat.toDigits 10 n).length ≤ maxStrDigits) :
    naturalOfText (Nat.toDigits 10 n) = some n := by
  have hdigits : ∀ c ∈ Nat.toDigits 10 n, c.isDigit := fun c hc =>
    Nat.isDigit_of_mem_toDigits (by decide) (by decide) hc
  rw [naturalOfText, digitsOf_of_isDigit Nat.toDigits_ne_nil hdigits, Option.bind_some,
    if_pos (by rwa [List.length_map]), List.foldl_map]
  exact congrArg some (Nat.ofDigitChars_eq_foldl.symm.trans Nat.ofDigitChars_ten_toDigits)

/-- `int(str(n))`. -/
theorem intOfText_toDigits {n : ℕ} (h : (Nat.toDigits 10 n).length ≤ maxStrDigits) :
    intOfText (String.ofList (Nat.toDigits 10 n)) = some (n : ℤ) := by
  have hdigits : ∀ c ∈ Nat.toDigits 10 n, c.isDigit := fun c hc =>
    Nat.isDigit_of_mem_toDigits (by decide) (by decide) hc
  have hblank : ∀ c ∈ Nat.toDigits 10 n, isNumberBlank c = false := by
    intro c hc
    obtain ⟨hlow, hhigh⟩ := Char.isDigit_iff_toNat.mp (hdigits c hc)
    simp at hlow hhigh
    rw [isNumberBlank, if_pos (by omega)]
    simp
    omega
  rw [intOfText, String.toList_ofList, stripChars_of_forall hblank]
  split
  · next cs heq => exact absurd (hdigits '-' (by rw [heq]; exact List.mem_cons_self)) (by decide)
  · next cs heq => exact absurd (hdigits '+' (by rw [heq]; exact List.mem_cons_self)) (by decide)
  · rw [naturalOfText_toDigits h]
    rfl

/-- A sequence of steps that may raise, none of which did. -/
theorem bind_eq_ok {ε α β : Type} {x : Except ε α} {f : α → Except ε β} {b : β}
    (h : x >>= f = .ok b) : ∃ a, x = .ok a ∧ f a = .ok b := by
  cases x with
  | error e => cases h
  | ok a => exact ⟨a, rfl, h⟩

end PythonJson
