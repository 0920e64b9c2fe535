import SIPMediaGW.BracketTexts
import SIPMediaGW.EscapedTexts

/-! # JSON texts

`json.loads`. The value of a number with a fraction or an exponent is left to a parameter. A text
with the escape of a lone surrogate is not one here: no character stands for it. -/
namespace JsonTexts

open BracketTexts
open EscapedTexts
open PythonJson

def lexicon : Lexicon where
  quote c := decide (c = '"')
  blank c := decide (c = ' ') || decide (c = '\t') || decide (c = '\n') || decide (c = '\r')

def escapes : Escapes where
  letter c :=
    if c = '"' ∨ c = '\\' ∨ c = '/' then some c
    else if c = 'b' then some (Char.ofNat 8)
    else if c = 'f' then some (Char.ofNat 12)
    else if c = 'n' then some '\n'
    else if c = 'r' then some '\r'
    else if c = 't' then some '\t'
    else none
  width c := if c = 'u' then some 4 else none

def isHigh (n : ℕ) : Bool := decide (0xD800 ≤ n) && decide (n ≤ 0xDBFF)

def isLow (n : ℕ) : Bool := decide (0xDC00 ≤ n) && decide (n ≤ 0xDFFF)

/-- A high surrogate and the low one after it are one code point. -/
def joinSurrogates : List ℕ → List ℕ
  | [] => []
  | [n] => [n]
  | n :: m :: ns =>
    if isHigh n && isLow m then
      (0x10000 + (n - 0xD800) * 1024 + (m - 0xDC00)) :: joinSurrogates ns
    else n :: joinSurrogates (m :: ns)

/-- A string; strict texts have no control character in one. -/
def readString (strict : Bool) (body : List Char) : Option String :=
  if strict && body.any fun c => decide (c.toNat < 32) then none
  else ((decode escapes .plain body).bind fun ns => scalars (joinSurrogates ns)).map String.ofList

/-- What follows a fraction, if there is one; `none` where its digits are missing. -/
def afterFraction : List Char → Option (List Char)
  | '.' :: cs =>
    if (cs.takeWhile Char.isDigit).isEmpty then none else some (cs.dropWhile Char.isDigit)
  | cs => some cs

def isExponent : List Char → Bool
  | [] => true
  | e :: cs =>
    let digits := match cs with
      | '+' :: ds => ds
      | '-' :: ds => ds
      | ds => ds
    (e == 'e' || e == 'E') && !digits.isEmpty && digits.all Char.isDigit

def natural (digits : List Char) : Option ℕ :=
  if digits.length ≤ maxStrDigits then some (Nat.ofDigitChars 10 digits 0) else none

def readNumber (floatOf : List Char → PyFloat) (token : List Char) : Option Json :=
  let unsigned := if token.head? = some '-' then token.drop 1 else token
  let digits := unsigned.takeWhile Char.isDigit
  let rest := unsigned.dropWhile Char.isDigit
  if digits.isEmpty || (decide (1 < digits.length) && decide (digits.head? = some '0')) then none
  else if rest.isEmpty then
    (natural digits).map fun n => Json.int (if token.head? = some '-' then -(n : ℤ) else n)
  else if (afterFraction rest).any isExponent then some (.float (floatOf token))
  else none

def readAtom (floatOf : List Char → PyFloat) (token : List Char) : Option Json :=
  if token = "null".toList then some .null
  else if token = "true".toList then some (.bool true)
  else if token = "false".toList then some (.bool false)
  else if token = "NaN".toList then some (.float .nan)
  else if token = "Infinity".toList then some (.float (.infinity false))
  else if token = "-Infinity".toList then some (.float (.infinity true))
  else readNumber floatOf token

def reading (floatOf : List Char → PyFloat) (strict : Bool) : Reading where
  atom := readAtom floatOf
  text := readString strict

/-- `json.loads(text, strict=strict)`; `none` where it raises. -/
def loads (floatOf : List Char → PyFloat) (strict : Bool) (text : List Char) : Option Json :=
  (parse lexicon text).bind (Raw.read (reading floatOf strict))

/-- A key in single quotes opens no JSON object. -/
theorem loads_single_quoted (floatOf : List Char → PyFloat) (strict : Bool) (cs : List Char) :
    loads floatOf strict ('{' :: '\'' :: cs) = none := by
  have hopen : step lexicon .start '{' = some ⟨.key, [.members []]⟩ := rfl
  have hquote : step lexicon ⟨.key, [.members []]⟩ '\'' = none := rfl
  rw [loads, parse, run_of_step lexicon hopen, run, hquote]
  rfl

end JsonTexts
