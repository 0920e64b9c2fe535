import SIPMediaGW.PythonJson
import SIPMediaGW.Utf8Text

/-! # The reader of the gateway's event stream

One connected socket, read by the loop of `getEvents`. The bytes the event source has sent
wait in order; a schedule says, call by call, how many of them `recv` may return. -/
namespace NetstringReader

open PythonJson Utf8Text

/-- `schedule i` is the most call `i` of `recv` returns; `none` when it times out. -/
structure Socket where
  stream : List UInt8
  schedule : ℕ → Option ℕ
  calls : ℕ

/-- `recv(n)`: at least one byte while there are bytes; none at all once the source is done. -/
def recv (s : Socket) (n : ℕ) : Option (List UInt8) × Socket :=
  match s.schedule s.calls with
  | none => (none, { s with calls := s.calls + 1 })
  | some k =>
    (some (s.stream.take (min n (max 1 k))),
      { s with stream := s.stream.drop (min n (max 1 k)), calls := s.calls + 1 })

def timeOutEvent : List Char :=
  let retTxt := "\x7b\"event\": true, \"type\": \"TIME_OUT\"\x7d".toList
  Nat.toDigits 10 retTxt.length ++ ':' :: (retTxt ++ [','])

/-- The loop over `received[0].isdigit()`. -/
def skipToDigit : List Char → ℤ → List Char × ℤ
  | [], preRead => ([], preRead)
  | c :: cs, preRead => if isDigit c then (c :: cs, preRead) else skipToDigit cs (preRead - 1)

/-- `dataLen` after the head; `none` where `int()` raises. -/
def remaining (received : List Char) (preRead : ℤ) : Option ℤ :=
  match received.findIdx? (· = ':') with
  | none => some 0
  | some preLen =>
    (intOfText (String.ofList (received.take preLen))).map fun n => preLen + 2 + n - preRead

def readLen (dataLen : ℕ) : ℕ := if dataLen / 1024 = 0 then dataLen % 1024 else 1024

theorem readLen_eq (dataLen : ℕ) : readLen dataLen = min 1024 dataLen := by
  rw [readLen]
  split <;> omega

/-- `while dataLen > 0`: what was asked for is counted, not what came. -/
def readRest (s : Socket) (received : List Char) (dataLen : ℕ) : List Char × Socket :=
  if _h : dataLen = 0 then (received, s)
  else match recv s (readLen dataLen) with
    | (none, s') => (timeOutEvent, s')
    | (some packet, s') =>
      if packet = [] then (received, s')
      else match decode packet with
        | none => (received, s')
        | some text => readRest s' (received ++ text) (dataLen - readLen dataLen)
termination_by dataLen
decreasing_by
  rw [readLen_eq]
  omega

/-- `__getStatus`. An exception ends the reading with what `received` holds by then. -/
def getStatus (s : Socket) : List Char × Socket :=
  match recv s 8 with
  | (none, s') => (timeOutEvent, s')
  | (some packet, s') =>
    match decode packet with
    | none => ([], s')
    | some text =>
      let (received, preRead) := skipToDigit text 8
      match remaining received preRead with
      | none => (received, s')
      | some dataLen => readRest s' received dataLen.toNat

/-- The results of `k` successive calls. -/
def statuses : ℕ → Socket → List (List Char) × Socket
  | 0, s => ([], s)
  | k + 1, s =>
    let (status, s') := getStatus s
    let (rest, s'') := statuses k s'
    (status :: rest, s'')

/-- `<len>:<payload>,` with the length in bytes. -/
def frame (payload : List Char) : List Char :=
  Nat.toDigits 10 (encode payload).length ++ ':' :: (payload ++ [','])

def wire (payloads : List (List Char)) : List UInt8 := encode (payloads.flatMap frame)

end NetstringReader
