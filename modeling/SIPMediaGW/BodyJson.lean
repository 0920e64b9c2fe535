import SIPMediaGW.PythonJson
import SIPMediaGW.CodePoints

/-! # JSON bodies

`json.loads` on the bytes of a body. The members of an object are kept as they stand in the text,
duplicates among them. -/
namespace BodyJson

open CodePoints
open PythonJson (PyFloat maxStrDigits)

inductive Doc where
  | null
  | bool (b : Bool)
  | int (n : ℤ)
  | float (x : PyFloat)
  | str (s : Text)
  | arr (xs : List Doc)
  | obj (members : List (Text × Doc))

section Strings

def letter (e : ℕ) : Option ℕ :=
  if e = 34 ∨ e = 92 ∨ e = 47 then some e
  else if e = 98 then some 8
  else if e = 102 then some 12
  else if e = 110 then some 10
  else if e = 114 then some 13
  else if e = 116 then some 9
  else none

def hexDigit (c : ℕ) : Option ℕ :=
  if 48 ≤ c ∧ c ≤ 57 then some (c - 48)
  else if 97 ≤ c ∧ c ≤ 102 then some (c - 87)
  else if 65 ≤ c ∧ c ≤ 70 then some (c - 55)
  else none

inductive Mode where
  | plain
  | escape
  | hex (left value : ℕ)

/-- A code point of a string, and whether it was written as four hexadecimal digits. -/
structure Unit16 where
  value : ℕ
  escaped : Bool

/-- The units of a string up to its quote, and what follows it. -/
def scanUnits : Mode → Text → Option (List Unit16 × Text)
  | _, [] => none
  | .plain, c :: cs =>
    if c = 34 then some ([], cs)
    else if c = 92 then scanUnits .escape cs
    else if c < 32 then none
    else (scanUnits .plain cs).map fun r => (⟨c, false⟩ :: r.1, r.2)
  | .escape, c :: cs =>
    match letter c with
    | some d => (scanUnits .plain cs).map fun r => (⟨d, false⟩ :: r.1, r.2)
    | none => if c = 117 then scanUnits (.hex 3 0) cs else none
  | .hex left value, c :: cs =>
    match hexDigit c with
    | none => none
    | some d =>
      match left with
      | 0 => (scanUnits .plain cs).map fun r => (⟨value * 16 + d, true⟩ :: r.1, r.2)
      | left + 1 => scanUnits (.hex left (value * 16 + d)) cs

/-- A high surrogate and the low one after it, both written as digits, are one code point. -/
def joinEscapes : List Unit16 → Text
  | [] => []
  | [u] => [u.value]
  | u :: v :: us =>
    if u.escaped && v.escaped && isHigh u.value && isLow v.value then
      joined u.value v.value :: joinEscapes us
    else u.value :: joinEscapes (v :: us)

/-- `scanstring`, after the quote. -/
def scanString (text : Text) : Option (Text × Text) :=
  (scanUnits .plain text).map fun r => (joinEscapes r.1, r.2)

end Strings

section Numbers

def isDigit (c : ℕ) : Bool := decide (48 ≤ c) && decide (c ≤ 57)

def skipFraction : Text → Text
  | 46 :: c :: cs => if isDigit c then cs.dropWhile isDigit else 46 :: c :: cs
  | cs => cs

/-- The digits of an exponent, after its letter. -/
def skipDigits (text : Text) : Option Text :=
  if (text.head?).any isDigit then some (text.dropWhile isDigit) else none

def skipSign (signs : List ℕ) : Text → Text
  | c :: cs => if c ∈ signs then cs else c :: cs
  | [] => []

def skipExponent : Text → Text
  | e :: cs =>
    if e = 101 ∨ e = 69 then (skipDigits (skipSign [43, 45] cs)).getD (e :: cs) else e :: cs
  | [] => []

def ofDigits (digits : Text) : ℕ := digits.foldl (fun n c => n * 10 + (c - 48)) 0

def integer (negative : Bool) (digits : Text) : Option Doc :=
  if digits.length ≤ maxStrDigits then
    some (.int (if negative then -(ofDigits digits : ℤ) else ofDigits digits))
  else none

/-- The digits of a number: a zero stands alone. -/
def wholeDigits (text : Text) : Text :=
  if text.head? = some 48 then [48] else text.takeWhile isDigit

/-- `_match_number`; the value of a number with a fraction or an exponent is left to `floatOf`. -/
def scanNumber (floatOf : Text → PyFloat) (text : Text) : Option (Doc × Text) :=
  let unsigned := skipSign [45] text
  let digits := wholeDigits unsigned
  if digits.isEmpty then none
  else
    let rest := unsigned.drop digits.length
    let after := skipExponent (skipFraction rest)
    if after.length = rest.length then
      (integer (decide (text.head? = some 45)) digits).map fun v => (v, rest)
    else some (.float (floatOf (text.take (text.length - after.length))), after)

end Numbers

section Values

variable (floatOf : Text → PyFloat)

def isBlank (c : ℕ) : Bool := c == 32 || c == 9 || c == 10 || c == 13

def skipBlanks (text : Text) : Text := text.dropWhile isBlank

def literals : List (Text × Doc) :=
  [("null".toList.map Char.toNat, .null), ("true".toList.map Char.toNat, .bool true),
    ("false".toList.map Char.toNat, .bool false), ("NaN".toList.map Char.toNat, .float .nan),
    ("Infinity".toList.map Char.toNat, .float (.infinity false)),
    ("-Infinity".toList.map Char.toNat, .float (.infinity true))]

/-- A literal, or a number. -/
def scanAtom (text : Text) : Option (Doc × Text) :=
  match literals.find? fun e => e.1.isPrefixOf text with
  | some e => some (e.2, text.drop e.1.length)
  | none => scanNumber floatOf text

/-- The entries of a list or an object, parted by commas, up to the bracket. -/
def scanUntil {α : Type} (entry : Text → Option (α × Text)) (close : ℕ) :
    ℕ → Text → Option (List α × Text)
  | 0, _ => none
  | k + 1, text => do
    let (v, rest) ← entry text
    match skipBlanks rest with
    | [] => none
    | c :: rest =>
      if c = 44 then (scanUntil entry close k (skipBlanks rest)).map fun r => (v :: r.1, r.2)
      else if c = close then some ([v], rest)
      else none

def scanEntries {α : Type} (entry : Text → Option (α × Text)) (close : ℕ) (text : Text) :
    Option (List α × Text) :=
  if (skipBlanks text).head? = some close then some ([], (skipBlanks text).drop 1)
  else scanUntil entry close (skipBlanks text).length (skipBlanks text)

/-- A key and its value. -/
def scanMember (element : Text → Option (Doc × Text)) : Text → Option ((Text × Doc) × Text)
  | 34 :: text => do
    let (key, rest) ← scanString text
    match skipBlanks rest with
    | 58 :: rest => (element (skipBlanks rest)).map fun r => ((key, r.1), r.2)
    | _ => none
  | _ => none

/-- `scan_once`, at most so deep. -/
def scanOnce : ℕ → Text → Option (Doc × Text)
  | _, [] => none
  | depth, c :: cs =>
    if c = 34 then (scanString cs).map fun r => (.str r.1, r.2)
    else if c = 91 then
      match depth with
      | 0 => none
      | depth + 1 => (scanEntries (scanOnce depth) 93 cs).map fun r => (.arr r.1, r.2)
    else if c = 123 then
      match depth with
      | 0 => none
      | depth + 1 =>
        (scanEntries (scanMember (scanOnce depth)) 125 cs).map fun r => (.obj r.1, r.2)
    else scanAtom floatOf (c :: cs)

/-- The document of a text; `none` where ValueError or RecursionError is raised. -/
def readText (maxDepth : ℕ) (text : Text) : Option Doc := do
  let (v, rest) ← scanOnce floatOf maxDepth (skipBlanks text)
  if skipBlanks rest = [] then some v else none

/-- `json.loads(body)`. -/
def loads (maxDepth : ℕ) (body : List UInt8) : Option Doc :=
  (decodeBody body).bind (readText floatOf maxDepth)

end Values

end BodyJson
