import SIPMediaGW.HistoryPayload
import SIPMediaGW.JsonTexts
import SIPMediaGW.PythonLiterals

/-! # The log parser

`logParse` reads the standard output of one process of the gateway. Every line passes a row of
tests, the first that takes it decides, and what it appends is one record of the history file. -/
namespace LogParser

open HistoryPayload (orElse normalizeSipUri lower)
open PythonJson

structure Environment where
  tables : PythonLiterals.Tables
  floatOf : List Char → PyFloat
  rawTimestamp : ℤ → String
  isoZ : ℤ → String
  isoZms : ℤ → String

structure State where
  currentMedia : Option String
  currentStream : Option ℤ
  videoAutoIndex : ℤ
  lastFinalCallId : Option String
  gwStartLogged : Bool
  deriving DecidableEq

def State.start : State := ⟨none, none, -1, none, false⟩

structure Record where
  recordType : String
  recordObj : Dict

inductive Action where
  | appendHistory (r : Record)
  | pushHistory

def escapeCode : Char := Char.ofNat 27

def sequenceLength : List Char → Option ℕ
  | '[' :: cs =>
    let params := cs.takeWhile fun c => decide ('0' ≤ c) && decide (c ≤ '?')
    let cs' := cs.dropWhile fun c => decide ('0' ≤ c) && decide (c ≤ '?')
    let intermediates := cs'.takeWhile fun c => decide (' ' ≤ c) && decide (c ≤ '/')
    match cs'.dropWhile fun c => decide (' ' ≤ c) && decide (c ≤ '/') with
    | c :: _ =>
      if '@' ≤ c ∧ c ≤ '~' then some (1 + params.length + intermediates.length + 1) else none
    | [] => none
  | c :: _ => if '@' ≤ c ∧ c ≤ '_' then some 1 else none
  | [] => none

/-- `ansiEscapeRegex.sub("", raw)`, with the number of characters still to leave out. -/
def stripAnsi : ℕ → List Char → List Char
  | _, [] => []
  | skip + 1, _ :: cs => stripAnsi skip cs
  | 0, c :: cs =>
    if c = escapeCode then
      match sequenceLength cs with
      | some n => stripAnsi n cs
      | none => c :: stripAnsi 0 cs
    else c :: stripAnsi 0 cs

def isLineEnd (c : Char) : Bool :=
  decide (c.toNat ∈ [10, 11, 12, 13, 28, 29, 30, 133, 8232, 8233])

/-- The lines of a raw one, without escape codes and blanks around; empty ones are skipped. -/
def cleanLines (raw : List Char) : List (List Char) :=
  let cleaned := ((stripAnsi 0 raw).filter (· ≠ Char.ofNat 8)).map fun c =>
    if c = '\r' then '\n' else c
  ((cleaned.splitOnP isLineEnd).map (stripChars isSpace)).filter (· ≠ [])

def after (sep : List Char) : List Char → Option (List Char)
  | [] => if sep = [] then some [] else none
  | c :: cs => if sep <+: c :: cs then some ((c :: cs).drop sep.length) else after sep cs

def afterFront (sep cs : List Char) : Option (List Char) :=
  if sep <+: cs then some (cs.drop sep.length) else none

def contains (sep : String) (line : List Char) : Bool := (after sep.toList line).isSome

def stripped (cs : List Char) : String := String.ofList (stripChars isSpace cs)

theorem isSome_after_iff {sep cs : List Char} : (after sep cs).isSome = true ↔ sep <:+: cs := by
  induction cs with
  | nil =>
    rw [after, List.infix_nil]
    split
    · next h => exact ⟨fun _ => h, fun _ => rfl⟩
    · next h => exact ⟨fun hsome => (nomatch hsome), fun heq => absurd heq h⟩
  | cons c cs ih =>
    rw [after, List.infix_cons_iff]
    split
    · next h => exact ⟨fun _ => Or.inl h, fun _ => rfl⟩
    · next h => exact ih.trans (or_iff_right h).symm

/-- `encoderRegex.search(line)`: the medium and the rest. -/
def encoderMatch : List Char → Option (String × List Char)
  | [] => none
  | c :: cs =>
    match afterFront "Set audio encoder:".toList (c :: cs),
      afterFront "Set video encoder:".toList (c :: cs) with
    | some (d :: ds), _ => some ("audio", d :: ds)
    | _, some (d :: ds) => some ("video", d :: ds)
    | _, _ => encoderMatch cs

inductive Capture where
  | gwStart (url : String)
  | encoder (media value : String)
  | room (value : String)
  | browsing (value : String)
  deriving DecidableEq

/-- The tests that look for a text anywhere in the line. -/
def capture (gwStartLogged : Bool) (line : List Char) : Option Capture :=
  if !gwStartLogged && contains "Web browsing URL:" line then
    some (.gwStart (((after "URL:".toList line).map stripped).getD ""))
  else match encoderMatch line with
    | some (media, rest) => some (.encoder media (stripped rest))
    | none =>
      match after "room:".toList line with
      | some rest => some (.room (stripped rest))
      | none =>
        (after "browsing:".toList line).map fun rest => Capture.browsing (stripped rest)

section Parser

variable (env : Environment)

def Capture.record (now : ℤ) : Capture → Record
  | .gwStart url => ⟨"gw_start", [("raw", .str (env.rawTimestamp now)),
      ("timestamp", .str (env.isoZ now)), ("url", .str url)]⟩
  | .encoder media value => ⟨"encoder", [("media", .str media), ("value", .str value)]⟩
  | .room value => ⟨"room", [("value", .str value)]⟩
  | .browsing value => ⟨"browsing", [("value", .str value)]⟩

def Capture.isGwStart : Capture → Bool
  | .gwStart _ => true
  | _ => false

/-- `dtmfRegex.match(line)`. -/
def dtmfMatch (line : List Char) : Option (List Char) :=
  let rest := match afterFront "Event:".toList line with
    | some cs => cs.dropWhile isSpace
    | none => line
  (afterFront "Received DTMF:".toList rest).filter (· ≠ [])

def asDict : Json → Option Dict
  | .obj d => some d
  | _ => none

def parseEventDict (line : List Char) : Option Dict :=
  let text := match afterFront "Event:".toList (stripChars isSpace line) with
    | some cs => stripChars isSpace cs
    | none => stripChars isSpace line
  if text.head? = some '{' ∧ text.getLast? = some '}' then
    if contains "'type'" text || contains "\"type\"" text then
      ((JsonTexts.loads env.floatOf true text).bind asDict).or
        ((PythonLiterals.literalEval env.tables text).bind asDict)
    else none
  else none

def fieldText (event : Dict) (key : String) : String :=
  strip (pyStr (fun v => String.ofList (PythonLiterals.repr env.tables v))
    (orElse (field event key) (.str "")))

def callStart (now : ℤ) (event : Dict) : Record :=
  ⟨"call_start", [("timestamp", .str (env.isoZ now)), ("callId", .str (fieldText env event "id")),
    ("sourceURI", .str (normalizeSipUri (fieldText env event "peeruri"))),
    ("peerDisplayName", .str (fieldText env event "peerdisplayname")),
    ("peerUserAgent", .str (fieldText env event "peeruseragent")),
    ("mediaDir", .obj [("audio", .str (fieldText env event "audiodir")),
      ("video", .str (fieldText env event "videodir")),
      ("remoteAudio", .str (fieldText env event "remoteaudiodir")),
      ("remoteVideo", .str (fieldText env event "remotevideodir")),
      ("localAudio", .str (fieldText env event "localaudiodir")),
      ("localVideo", .str (fieldText env event "localvideodir"))])]⟩

def callClosed (event : Dict) : Record :=
  ⟨"call_closed", [("callId", .str (fieldText env event "id")),
    ("peerDisplayName", .str (fieldText env event "peerdisplayname")),
    ("closeReason", .str (fieldText env event "param")), ("lastEventType", .str "CALL_CLOSED"),
    ("sourceURI", .str (normalizeSipUri (fieldText env event "peeruri"))),
    ("destinationURI", .str (normalizeSipUri (fieldText env event "accountaor")))]⟩

def callEnd (now : ℤ) : Record :=
  ⟨"call_end", [("raw", .str (env.rawTimestamp now)), ("timestamp", .str (env.isoZ now))]⟩

/-- A call that closes is told once for each call id. -/
def onCallEvent (st : State) (now : ℤ) (event : Dict) : State × List Action :=
  let lastType := fieldText env event "type"
  if lastType = "CALL_ESTABLISHED" then (st, [.appendHistory (callStart env now event)])
  else if lastType ≠ "CALL_CLOSED" then (st, [])
  else
    let callId := fieldText env event "id"
    if callId ≠ "" ∧ some callId = st.lastFinalCallId then (st, [])
    else
      ({ st with lastFinalCallId := if callId = "" then st.lastFinalCallId else some callId },
        [.appendHistory (callClosed env event), .appendHistory (callEnd env now), .pushHistory])

def onEventLine (st : State) (now : ℤ) (line : List Char) : State × List Action :=
  match dtmfMatch line with
  | some input => (st, [.appendHistory ⟨"dtmf",
      [("timestamp", .str (env.isoZms now)), ("input", .str (stripped input))]⟩])
  | none =>
    match parseEventDict env line with
    | none => (st, [])
    | some event =>
      if isText (field event "type") "MEDIA_STATS" then
        (st, [.appendHistory ⟨"media_sample", event⟩])
      else if isText (field event "class") "call" then onCallEvent env st now event
      else (st, [])

def until? (delimiter : Char) (cs : List Char) : Option (List Char × List Char) :=
  let run := cs.takeWhile (· ≠ delimiter)
  match cs.dropWhile (· ≠ delimiter) with
  | _ :: rest => if run.isEmpty then none else some (run, rest)
  | [] => none

/-- `baresipRegex.match(line)`: the user and the domain that were dialled. -/
def baresipMatch (line : List Char) : Option (String × String) := do
  let (destUser, cs) ← until? '@' (← afterFront "sip:".toList line)
  let (destDom, cs) ← until? ':' cs
  let cs ← afterFront "Call with".toList (cs.dropWhile isSpace)
  let cs ← afterFront "sip:".toList (cs.dropWhile isSpace)
  let (_, cs) ← until? '@' cs
  if (cs.takeWhile fun c => !isSpace c).isEmpty then none
  else some (String.ofList destUser, String.ofList destDom)

/-- `\s+Transmit:\s*Receive:\s*$`. -/
def isTransmit (cs : List Char) : Bool :=
  !(cs.takeWhile isSpace).isEmpty &&
    ((afterFront "Transmit:".toList (cs.dropWhile isSpace)).bind fun ds =>
      afterFront "Receive:".toList (ds.dropWhile isSpace)).any fun ds =>
        (ds.dropWhile isSpace).isEmpty

def streamNumber (cs : List Char) : Option (List Char × List Char) :=
  let blanks := cs.takeWhile isSpace
  let digits := (cs.dropWhile isSpace).takeWhile fun c => (decimalDigit c).isSome
  if blanks.isEmpty || digits.isEmpty then none
  else some (digits, (cs.dropWhile isSpace).drop digits.length)

/-- `statHeaderRegex.match(line)`. -/
def statHeaderMatch (line : List Char) : Option (String × Option (List Char)) :=
  let header (media : String) : Option (String × Option (List Char)) := do
    let cs ← afterFront media.toList line
    match streamNumber cs with
    | some (digits, rest) => if isTransmit rest then some (media, some digits) else none
    | none => if isTransmit cs then some (media, none) else none
  (header "audio").or (header "video")

/-- `statValueRegex.match(line)`: the label and the rest. -/
def statValueMatch (line : List Char) : Option (String × List Char) :=
  (until? ':' line).bind fun (label, rest) =>
    if rest.isEmpty then none else some (stripped label, rest)

/-- A number at the front, `[-+]?\d+(?:\.\d+)?`. -/
def numberAt (cs : List Char) : Option (List Char × List Char) :=
  let digit (c : Char) : Bool := (decimalDigit c).isSome
  let sign := cs.take (if cs.head? = some '-' ∨ cs.head? = some '+' then 1 else 0)
  let digits := (cs.drop sign.length).takeWhile digit
  let rest := (cs.drop sign.length).dropWhile digit
  if digits.isEmpty then none
  else match rest with
    | '.' :: ds =>
      if (ds.takeWhile digit).isEmpty then some (sign ++ digits, rest)
      else some (sign ++ digits ++ '.' :: ds.takeWhile digit, ds.dropWhile digit)
    | _ => some (sign ++ digits, rest)

/-- `numRegex.findall(text)`; every step takes a character at least. -/
def findNumbers : ℕ → List Char → List (List Char)
  | 0, _ => []
  | _, [] => []
  | fuel + 1, c :: cs =>
    match numberAt (c :: cs) with
    | some (number, rest) => number :: findNumbers fuel rest
    | none => findNumbers fuel cs

def fieldMap : List (String × String) :=
  [("packets", "packets"), ("errors", "errors"), ("pkt.report", "packetReports"),
   ("avg. bitrate", "avgBitrateKbps"), ("lost", "lostPackets"), ("jitter", "jitterMs")]

def toNumber : Option (List Char) → Option Json
  | none => some .null
  | some token =>
    if '.' ∈ token then some (.float (env.floatOf token))
    else (intOfText (String.ofList token)).map Json.int

def onStatHeader (st : State) (media : String) (stream : Option (List Char)) : State :=
  if media = "video" then
    match stream with
    | some digits =>
      match intOfText (String.ofList digits) with
      | some n =>
        ⟨some media, some n, max st.videoAutoIndex n, st.lastFinalCallId, st.gwStartLogged⟩
      | none => { st with currentMedia := some media }
    | none => ⟨some media, some (st.videoAutoIndex + 1), st.videoAutoIndex + 1, st.lastFinalCallId,
        st.gwStartLogged⟩
  else { st with currentMedia := some media, currentStream := none }

def statsValue (st : State) (media label : String) (rest : List Char) : List Action :=
  match fieldMap.lookup label with
  | none => []
  | some name =>
    let nums := findNumbers (rest.length + 1) rest
    match toNumber env nums[0]?, toNumber env nums[1]? with
    | some tx, some rx => [.appendHistory ⟨"stats_value", [("media", .str media),
        ("streamIndex", (st.currentStream.map Json.int).getD .null), ("field", .str name),
        ("tx", tx), ("rx", rx)]⟩]
    | _, _ => []

def isEndLine (line : List Char) : Bool :=
  contains "ua: stop all" line || contains "Files sent and removed" line ||
    contains "Files moved in log directory" line

def onBaresipLine (st : State) (now : ℤ) (line : List Char) : State × List Action :=
  match baresipMatch line with
  | some (destUser, destDom) => (st, [.appendHistory ⟨"destination",
      [("destinationURI", .str (destUser ++ "@" ++ destDom)),
       ("destinationRoomName", .str destUser), ("destinationDomain", .str destDom)]⟩])
  | none =>
    match statHeaderMatch line, statValueMatch line, st.currentMedia with
    | some (media, stream), _, _ => (onStatHeader st media stream, [])
    | none, some (label, rest), some media => (st, statsValue env st media label rest)
    | none, _, _ =>
      if isEndLine line then (st, [.appendHistory (callEnd env now), .pushHistory]) else (st, [])

def onLine (pref : String) (st : State) (now : ℤ) (line : List Char) : State × List Action :=
  match capture st.gwStartLogged line with
  | some c => ({ st with gwStartLogged := st.gwStartLogged || c.isGwStart },
      [.appendHistory (c.record env now)])
  | none =>
    if pref = "Event" then onEventLine env st now line
    else if pref = "Baresip" then onBaresipLine env st now line
    else (st, [])

structure LogLine where
  raw : List Char
  now : ℤ

def stdin (log : List LogLine) : List (ℤ × List Char) :=
  log.flatMap fun l => (cleanLines l.raw).map fun line => (l.now, line)

def runLines (pref : String) (st : State) : List (ℤ × List Char) → State × List Action
  | [] => (st, [])
  | (now, line) :: lines =>
    let (st', actions) := onLine env pref st now line
    let (st'', rest) := runLines pref st' lines
    (st'', actions ++ rest)

def main (pref : String) (log : List LogLine) : List Action :=
  (runLines env pref .start (stdin log)).2

end Parser

def Action.record? : Action → Option Record
  | .appendHistory r => some r
  | .pushHistory => none

def records (actions : List Action) : List Record := actions.filterMap Action.record?

def Record.line (r : Record) : HistoryPayload.HistoryLine := .record r.recordType (.obj r.recordObj)

end LogParser
