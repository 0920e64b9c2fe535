import Mathlib.Data.List.Basic

/-! # Bodies as code points

`bytes.decode(json.detect_encoding(body), "surrogatepass")`: UTF-8, UTF-16 or UTF-32, with a
surrogate that is not part of a pair as a code point of its own. -/
namespace CodePoints

abbrev Text := List ℕ

def isHigh (n : ℕ) : Bool := decide (0xD800 ≤ n) && decide (n ≤ 0xDBFF)

def isLow (n : ℕ) : Bool := decide (0xDC00 ≤ n) && decide (n ≤ 0xDFFF)

/-- The code point of a pair of surrogates. -/
def joined (high low : ℕ) : ℕ := 0x10000 + (high - 0xD800) * 0x400 + (low - 0xDC00)

inductive Encoding where
  | utf8
  | utf16 (big : Bool)
  | utf32 (big : Bool)
  deriving DecidableEq, Repr

/-- `json.detect_encoding`, and what follows the byte order mark. -/
def detectEncoding : List UInt8 → Encoding × List UInt8
  | 0x00 :: 0x00 :: 0xFE :: 0xFF :: rest => (.utf32 true, rest)
  | 0xFF :: 0xFE :: 0x00 :: 0x00 :: rest => (.utf32 false, rest)
  | 0xFE :: 0xFF :: rest => (.utf16 true, rest)
  | 0xFF :: 0xFE :: rest => (.utf16 false, rest)
  | 0xEF :: 0xBB :: 0xBF :: rest => (.utf8, rest)
  | [a, b] =>
    if a = 0 then (.utf16 true, [a, b])
    else if b = 0 then (.utf16 false, [a, b])
    else (.utf8, [a, b])
  | a :: b :: c :: d :: rest =>
    let body := a :: b :: c :: d :: rest
    if a = 0 then if b = 0 then (.utf32 true, body) else (.utf16 true, body)
    else if b = 0 then if c = 0 ∧ d = 0 then (.utf32 false, body) else (.utf16 false, body)
    else (.utf8, body)
  | body => (.utf8, body)

/-- The six low bits of a byte that continues a sequence. -/
def continuation (b : UInt8) : Option ℕ :=
  if 0x80 ≤ b ∧ b ≤ 0xBF then some (b.toNat - 0x80) else none

/-- What is left to read of a sequence: the bytes, its value so far and the least it stands for. -/
structure Sequence where
  left : ℕ
  value : ℕ
  least : ℕ

/-- UTF-8; a sequence that is longer than it has to be is none. -/
def decodeUtf8 : Option Sequence → List UInt8 → Option Text
  | none, [] => some []
  | some _, [] => none
  | none, b :: rest =>
    if b < 0x80 then (decodeUtf8 none rest).map (b.toNat :: ·)
    else if 0xC0 ≤ b ∧ b < 0xE0 then decodeUtf8 (some ⟨1, b.toNat - 0xC0, 0x80⟩) rest
    else if 0xE0 ≤ b ∧ b < 0xF0 then decodeUtf8 (some ⟨2, b.toNat - 0xE0, 0x800⟩) rest
    else if 0xF0 ≤ b ∧ b < 0xF8 then decodeUtf8 (some ⟨3, b.toNat - 0xF0, 0x10000⟩) rest
    else none
  | some s, b :: rest =>
    match continuation b with
    | none => none
    | some low =>
      let value := s.value * 0x40 + low
      if 1 < s.left then decodeUtf8 (some ⟨s.left - 1, value, s.least⟩) rest
      else if s.least ≤ value ∧ value < 0x110000 then (decodeUtf8 none rest).map (value :: ·)
      else none

/-- The number that bytes give, the most significant first or last. -/
def ofBytes (big : Bool) (bytes : List UInt8) : ℕ :=
  (if big then bytes else bytes.reverse).foldl (fun n b => n * 0x100 + b.toNat) 0

def units16 (big : Bool) : List UInt8 → Option Text
  | [] => some []
  | a :: b :: rest => (units16 big rest).map (ofBytes big [a, b] :: ·)
  | [_] => none

/-- Pairs of surrogates as one code point. -/
def joinUnits : Text → Text
  | [] => []
  | [n] => [n]
  | n :: m :: rest =>
    if isHigh n && isLow m then joined n m :: joinUnits rest else n :: joinUnits (m :: rest)

def decodeUtf32 (big : Bool) : List UInt8 → Option Text
  | [] => some []
  | a :: b :: c :: d :: rest =>
    let n := ofBytes big [a, b, c, d]
    if n < 0x110000 then (decodeUtf32 big rest).map (n :: ·) else none
  | _ => none

/-- The text of a body; `none` where decoding raises ValueError. -/
def decodeBody (body : List UInt8) : Option Text :=
  match detectEncoding body with
  | (.utf8, rest) => decodeUtf8 none rest
  | (.utf16 big, rest) => (units16 big rest).map joinUnits
  | (.utf32 big, rest) => decodeUtf32 big rest

end CodePoints
