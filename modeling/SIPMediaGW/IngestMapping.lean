import SIPMediaGW.PythonArithmetic
import SIPMediaGW.PythonJson

/-! # From a pushed payload to database rows

A float is its value. What Python makes of a text that is a float or a date is left to
`PythonText`, and whether its results are rounded to floats. -/
namespace IngestMapping

open PythonArithmetic
open PythonJson

/-- A parsed date: wall-clock microseconds, and the offset when the text gives one. -/
structure Datetime where
  wall : ℤ
  utcoffset : Option ℤ
  deriving DecidableEq

structure PythonText where
  /-- `str()` of a float, a list or an object. -/
  repr : Json → String
  /-- `float(text)`; `none` where it raises. -/
  floatOfText : String → Option PyFloat
  /-- `datetime.fromisoformat(text)`; `none` where it raises ValueError. -/
  fromisoformat : String → Option Datetime
  arithmetic : Arithmetic := .binary64

/-- The same texts, and numbers as exact rationals. -/
def PythonText.exactly (py : PythonText) : PythonText := { py with arithmetic := .exact }

@[simp] theorem exactly_arithmetic (py : PythonText) : py.exactly.arithmetic = .exact := rfl

inductive MappingError where
  | valueError (message : String)
  | typeError
  | overflowError
  deriving DecidableEq

section Values

variable (py : PythonText)

/-- Empty texts are not identifiers. -/
def text : Json → Option String
  | .null => none
  | v =>
    let stripped := strip (pyStr py.repr v)
    if stripped = "" then none else some stripped

theorem text_ne_empty (v : Json) : text py v ≠ some "" := by
  intro h
  unfold text at h
  split at h
  · cases h
  · dsimp only at h
    split at h
    · cases h
    · rename_i hne
      exact hne (Option.some.inj h)

/-- `value.replace("Z", "+00:00")`. -/
def zuluAsOffset (s : String) : String :=
  String.ofList (s.toList.flatMap fun c => if c = 'Z' then "+00:00".toList else [c])

/-- An instant in microseconds; a date without an offset is read as UTC. -/
def ts (v : Json) : Option ℤ :=
  (text py v).bind fun value =>
    (py.fromisoformat (zuluAsOffset value)).map fun d => d.wall - d.utcoffset.getD 0

def intLimit : ℤ := 2 ^ 31 - 1

def int (v : Json) : Option ℤ :=
  (pyInt v).filter fun n => decide (-intLimit ≤ n) && decide (n ≤ intLimit)

/-- An int from here on rounds to infinity as a float: `float()` raises OverflowError. -/
def floatOverflow : ℤ := 2 ^ 1024 - 2 ^ 970

def pyFloat : Json → Option PyFloat
  | .bool b => some (.finite (if b then 1 else 0))
  | .int n => if |n| < floatOverflow then some (.finite (py.arithmetic.float n)) else none
  | .float x => some x
  | .str s => py.floatOfText s
  | _ => none

def float (v : Json) : Option ℚ :=
  (pyFloat py v).bind fun
    | .finite q => some q
    | _ => none

/-- The key of a connector: a letter or a digit, then at most 39 more characters. -/
def isPlatformKey (value : String) : Bool :=
  let plain (c : Char) : Bool :=
    ('A' ≤ c && c ≤ 'Z') || ('a' ≤ c && c ≤ 'z') || ('0' ≤ c && c ≤ '9')
  match value.toList with
  | [] => false
  | c :: cs => plain c && decide (cs.length ≤ 39) &&
      cs.all fun d => plain d || d == '.' || d == '_' || d == '-'

def platform (v : Json) : Option String := (text py v).filter isPlatformKey

/-- A JSON object, or an empty one. -/
def obj : Json → Dict
  | .obj d => d
  | _ => []

/-- `[x for x in (value or []) if isinstance(x, dict)]`: a number or `true` cannot be
iterated, and the characters of a text or the keys of an object are no objects. -/
def objectsOf (v : Json) : Except MappingError (List Dict) :=
  if ! truthy v then .ok []
  else match v with
    | .arr xs => .ok (xs.filterMap fun
        | .obj d => some d
        | _ => none)
    | .str _ | .obj _ => .ok []
    | _ => .error .typeError

end Values

inductive Media where
  | audio
  | video
  deriving DecidableEq, Repr

inductive Direction where
  | tx
  | rx
  deriving DecidableEq, Repr

def Direction.text : Direction → String
  | .tx => "tx"
  | .rx => "rx"

structure MediaRow where
  media : Media
  streamIndex : ℤ
  direction : Direction
  packets : Option ℤ
  errors : Option ℤ
  packetReports : Option ℤ
  avgBitrateKbps : Option ℚ
  lostPackets : Option ℤ
  jitterMs : Option ℚ
  deriving DecidableEq

section Streams

variable (py : PythonText)

def directionRow (block : Json) (media : Media) (streamIndex : ℤ) (direction : Direction) :
    Option MediaRow :=
  match field (obj block) direction.text with
  | .obj stats => some
    { media := media, streamIndex := streamIndex, direction := direction
      packets := int (field stats "packets")
      errors := int (field stats "errors")
      packetReports := int (field stats "packetReports")
      avgBitrateKbps := float py (field stats "avgBitrateKbps")
      lostPackets := int (field stats "lostPackets")
      jitterMs := float py (field stats "jitterMs") }
  | _ => none

/-- One row per direction of a single stream. -/
def streamRows (block : Json) (media : Media) (streamIndex : ℤ) : List MediaRow :=
  [.tx, .rx].filterMap (directionRow py block media streamIndex)

def counters (stream : Dict) : List ℤ :=
  [Direction.rx, .tx].flatMap fun direction =>
    ["packets", "packetReports"].map fun key =>
      (int (field (obj (field stream direction.text)) key)).getD 0

/-- `video[::2]`. -/
def everyOther {α : Type} : List α → List α
  | [] => []
  | [x] => [x]
  | x :: _ :: xs => x :: everyOther xs

def neverDecreases (series : List (List ℤ)) : Bool :=
  (series.zip series.tail).all fun pair => (pair.1.zip pair.2).all fun c => decide (c.1 ≤ c.2)

def looksCumulative (video : List Dict) : Bool :=
  decide (4 ≤ video.length) && decide (video.length % 2 = 0) &&
    neverDecreases ((everyOther video).map counters) &&
    neverDecreases ((everyOther video.tail).map counters)

/-- The video list holds the readings of earlier gateways rather than streams. -/
def isRepeated (mediaStats : Dict) : Except MappingError Bool :=
  match field mediaStats "video" with
  | .obj _ => .ok false
  | v => do
    let video ← objectsOf v
    match field mediaStats "samples" with
    | .arr samples =>
      if video.length < 4 then .ok false
      else .ok ((!samples.isEmpty && decide (2 * samples.length ≤ video.length)) ||
        looksCumulative video)
    | _ => .ok false

def videoEntries (mediaStats : Dict) : Except MappingError (List (ℤ × Dict)) := do
  let video ← objectsOf (match field mediaStats "video" with
    | .obj d => .arr [.obj d]
    | v => v)
  let repeated ← isRepeated mediaStats
  if repeated then
    .ok ((video.drop (video.length - 2)).zipIdx.map fun e => ((e.2 : ℤ), e.1))
  else
    .ok (video.zipIdx.map fun e => ((int (field e.1 "streamIndex")).getD e.2, e.1))

def mediaRows (mediaStats : Json) : Except MappingError (List MediaRow) := do
  let stats := obj mediaStats
  let entries ← videoEntries stats
  .ok (streamRows py (field stats "audio") .audio 0 ++
    entries.flatMap fun e => streamRows py (.obj e.2) .video e.1)

end Streams

def lowFps : ℚ := 5

def placeholderSource : String := "fakevideo"

structure Interval where
  t : Option ℚ
  seconds : ℚ
  rx : Option ℚ
  tx : Option ℚ
  presentation : Bool

inductive VideoState where
  | ok
  | oneway
  | stalled
  | noPicture
  deriving DecidableEq, Repr

structure SampleSummary where
  videoMinRxFps : Option ℚ
  videoLowIntervals : Option ℤ
  videoKeyframeRequests : Option ℤ
  presentationS : Option ℤ
  videoState : Option VideoState
  deriving DecidableEq

section Details

variable (py : PythonText)

/-- The codec named first in an encoder line. -/
def codec (line : Json) : Option String :=
  (text py line).map fun s => String.ofList (s.toList.takeWhile fun c => ! isSpace c)

/-- `mediaDir`, or nothing when it says nothing. -/
def direction : Json → Option (List (String × String))
  | .obj d =>
    let cleaned := d.filterMap fun e => (text py e.2).map fun v => (e.1, v)
    if cleaned.isEmpty then none else some cleaned
  | _ => none

def points (samples : Json) : Except MappingError (List Dict) := do
  let dicts ← objectsOf samples
  .ok (dicts.filter fun s => match field s "video" with
    | .obj _ => true
    | _ => false)

def part (sample : Dict) (name : String) : Dict :=
  obj (field (obj (field sample "video")) name)

/-- Frames per second of one counter over an interval. -/
def rate (before after : Dict) (seconds : ℚ) (key : String) : Option ℚ :=
  (int (field before key)).bind fun start => (int (field after key)).map fun (stop : ℤ) =>
    py.arithmetic.roundTenth (py.arithmetic.float ((stop - start) / seconds))

def interval (before after : Dict) : Option Interval :=
  let seconds := py.arithmetic.float ((float py (field after "seconds")).getD 0 -
    (float py (field before "seconds")).getD 0)
  if seconds ≤ 0 then none
  else
    let a := part before "main"
    let b := part after "main"
    let sending := (text py (field (part after "slides") "source")).getD placeholderSource ≠
      placeholderSource
    let receiving := (int (field (part before "slides") "rxFrames")).getD 0 <
      (int (field (part after "slides") "rxFrames")).getD 0
    some
      { t := float py (field after "seconds"), seconds := seconds
        rx := rate py a b seconds "rxFrames", tx := rate py a b seconds "txFrames"
        presentation := decide sending || decide receiving }

/-- One entry per interval between two samples that could be measured. -/
def frameRates (points : List Dict) : List Interval :=
  (points.zip points.tail).filterMap fun pair => interval py pair.1 pair.2

def measuredState (low total : ℕ) : VideoState :=
  if low = 0 then .ok else if low = total then .noPicture else .stalled

def sampleSummary (samples : Json) (direction : Option (List (String × String))) :
    Except MappingError SampleSummary := do
  let facing := (direction.getD []).lookup "video"
  let oneway := if facing = some "sendonly" ∨ facing = some "recvonly" then
    some VideoState.oneway else none
  let points ← points samples
  match points.getLast? with
  | none => .ok ⟨none, none, none, none, oneway⟩
  | some last =>
    let intervals := frameRates py points
    let rates := intervals.filterMap Interval.rx
    let shown := py.arithmetic.sum ((intervals.filter Interval.presentation).map Interval.seconds)
    let low := rates.countP fun r => decide (r < lowFps)
    let presentationS ← (py.arithmetic.round shown).elim (.error .overflowError) .ok
    .ok
      { videoMinRxFps := rates.min?.map py.arithmetic.roundTenth
        videoLowIntervals := if rates.isEmpty then none else some low
        videoKeyframeRequests := int (field (part last "main") "rxPicup")
        presentationS := some presentationS
        videoState := oneway.or
          (if rates.isEmpty then none else some (measuredState low rates.length)) }

end Details

/-- The `calls` columns of a payload. -/
structure CallRow where
  callId : Option String
  gwAlias : Option String
  gwId : Option String
  gwHost : Option String
  mainApp : Option String
  platform : Option String
  room : Option String
  callUrl : Option String
  sourceUri : Option String
  sourceName : Option String
  sourceNumber : Option String
  sourceDomain : Option String
  destinationUri : Option String
  destinationRoom : Option String
  destinationDomain : Option String
  peerDisplayName : Option String
  callStart : Option ℤ
  callEnd : Option ℤ
  durationS : Option ℤ
  occupancyS : Option ℤ
  closeReason : Option String
  lastEventType : Option String
  dtmfEvents : Json
  peerUserAgent : Option String
  audioCodec : Option String
  videoCodec : Option String
  videoEncoder : Option String
  mediaDirection : Option (List (String × String))
  gwVersion : Option String
  baresipVersion : Option String
  baresipPatch : Option String
  chromiumVersion : Option String
  summary : SampleSummary

section Calls

variable (py : PythonText)

/-- The call duration: `totalTime.seconds`, or its milliseconds. -/
def totalSeconds (total : Dict) : Option ℤ :=
  (int (field total "seconds")).or ((int (field total "milliseconds")).map fun ms => ms / 1000)

def firstLine (encoders : Dict) : Json :=
  match field encoders "video" with
  | .arr (line :: _) => line
  | _ => .null

def callColumns (call : Dict) (summary : SampleSummary) : CallRow :=
  let session := obj (field call "callSession")
  let details := obj (field call "details")
  let source := obj (field details "source")
  let destination := obj (field details "destination")
  let total := obj (field session "totalTime")
  let gateway := obj (field call "gateway")
  let encoders := obj (field details "encoders")
  { callId := text py (field details "callId")
    gwAlias := text py (field destination "destinationGw")
    gwId := text py (field call "gwId")
    gwHost := text py (field destination "destinationDomainIp")
    mainApp := text py (field call "mainApp")
    platform := platform py (field call "browsing")
    room := text py (field call "room")
    callUrl := text py (field call "callUrl")
    sourceUri := text py (field source "sourceURI")
    sourceName := text py (field source "sourceName")
    sourceNumber := text py (field source "sourceNumber")
    sourceDomain := text py (field source "sourceDomain")
    destinationUri := text py (field destination "destinationURI")
    destinationRoom := text py (field destination "destinationRoomName")
    destinationDomain := text py (field destination "destinationDomain")
    peerDisplayName := text py (field destination "peerDisplayName")
    callStart := ts py (field (obj (field session "callStart")) "timestamp")
    callEnd := ts py (field (obj (field session "callEnd")) "timestamp")
    durationS := totalSeconds total
    occupancyS := totalSeconds total
    closeReason := text py (field details "closeReason")
    lastEventType := text py (field details "lastEventType")
    dtmfEvents := if truthy (field call "dtmfEvents") then field call "dtmfEvents" else .arr []
    peerUserAgent := text py (field details "peerUserAgent")
    audioCodec := codec py (field encoders "audio")
    videoCodec := codec py (firstLine encoders)
    videoEncoder := text py (firstLine encoders)
    mediaDirection := direction py (field details "mediaDir")
    gwVersion := text py (field gateway "gwVersion")
    baresipVersion := text py (field gateway "baresipVersion")
    baresipPatch := text py (field gateway "baresipPatch")
    chromiumVersion := text py (field gateway "chromiumVersion")
    summary := summary }

/-- The `call` object of a payload that looks like a call history. -/
def callOf : Json → Except MappingError Dict
  | .obj payload => match field payload "call" with
    | .obj call => .ok call
    | _ => .error (.valueError "missing 'call' object")
  | _ => .error (.valueError "payload is not an object")

def callRow (payload : Json) : Except MappingError CallRow := do
  let call ← callOf payload
  let details := obj (field call "details")
  let mediaStats := obj (field call "mediaStats")
  let summary ← sampleSummary py (field mediaStats "samples")
    (direction py (field details "mediaDir"))
  .ok (callColumns py call summary)

end Calls

/-- Texts with one date, 24 September 2026 at 08:20:48 UTC. -/
def oneDate : PythonText where
  repr _ := "{}"
  floatOfText _ := none
  fromisoformat s :=
    if s = "2026-09-24T08:20:48+00:00" then some ⟨1790238048000000, some 0⟩ else none

end IngestMapping
