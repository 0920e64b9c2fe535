import Mathlib.Data.List.Sort
import SIPMediaGW.FieldMap
import SIPMediaGW.IngestMapping

/-! # The payload of a call

`buildPayloadFromLines` folds the lines of the history file into one payload. A line is
represented by what `split` and `json.loads` make of it. -/
namespace HistoryPayload

open FieldMap
open IngestMapping (Datetime PythonText)
open PythonJson

/-- The exceptions of the builder: a value without the method of a text or an object, and a URL
that `urlsplit` refuses. -/
inductive PyError where
  | attributeError
  | valueError
  deriving DecidableEq, Repr

inductive HistoryLine where
  | mainApp (value : String)
  | record (recordType : String) (recordData : Json)
  /-- A line without a colon, or whose payload is not JSON. -/
  | unreadable

/-- What the library makes of URLs, and the versions of the gateway. -/
structure Environment where
  py : PythonText
  /-- `unquote(text)`: percent sequences as UTF-8. -/
  unquote : List Char → String
  /-- The checks of `urlsplit` on a host in brackets, and on one that is not ASCII. -/
  bracketedHost : List Char → Bool
  composedHost : List Char → Bool
  gatewayVersions : Dict

structure Stream where
  streamIndex : ℤ
  tx : Dict
  rx : Dict

structure MediaStats where
  audioTx : Dict
  audioRx : Dict
  videoStreams : List (ℤ × Stream)

/-- The variables of the builder. -/
structure Building where
  mainApp : String
  callStartRaw : Json
  callStartTimestamp : Json
  callEndRaw : Json
  callEndTimestamp : Json
  callUrl : Json
  callId : Json
  peerDisplay : String
  closeReason : Json
  lastEventType : String
  peerUserAgent : Json
  mediaDir : Json
  encoders : Dict
  sourceUri : String
  destinationUri : String
  destinationDomain : String
  destinationUriRaw : String
  roomLineValue : String
  browsingLineValue : String
  dtmfEvents : List Json
  media : MediaStats
  mediaSamples : List Json
  haveFinalCallClosed : Bool

def Building.start : Building where
  mainApp := ""
  callStartRaw := .str ""
  callStartTimestamp := .str ""
  callEndRaw := .str ""
  callEndTimestamp := .str ""
  callUrl := .str ""
  callId := .str ""
  peerDisplay := ""
  closeReason := .str ""
  lastEventType := ""
  peerUserAgent := .str ""
  mediaDir := .obj []
  encoders := []
  sourceUri := ""
  destinationUri := ""
  destinationDomain := ""
  destinationUriRaw := ""
  roomLineValue := ""
  browsingLineValue := ""
  dtmfEvents := []
  media := ⟨[], [], []⟩
  mediaSamples := []
  haveFinalCallClosed := false

/-- `a or b`. -/
def orElse (a b : Json) : Json := if truthy a then a else b

/-- `(value or "").strip()`. -/
def stripped (v : Json) : Except PyError String :=
  if truthy v then
    match v with
    | .str s => .ok (strip s)
    | _ => .error .attributeError
  else .ok ""

def sipPrefix : List Char := "sip:".toList

def normalizeSipUri (uri : String) : String :=
  let cleanUri := strip uri
  if cleanUri = "" then ""
  else if sipPrefix <+: cleanUri.toList then cleanUri
  else if '@' ∈ cleanUri.toList then String.ofList (sipPrefix ++ cleanUri.toList)
  else cleanUri

def stripSipPrefix (uri : String) : String :=
  let cleanUri := strip uri
  if sipPrefix <+: cleanUri.toList then String.ofList (cleanUri.toList.drop 4) else cleanUri

/-- The parts before and after the first `@`. -/
def splitUri (uri : String) : String × String :=
  let cleanUri := stripSipPrefix uri
  if '@' ∈ cleanUri.toList then
    (String.ofList (cleanUri.toList.takeWhile (· ≠ '@')),
     String.ofList ((cleanUri.toList.dropWhile (· ≠ '@')).drop 1))
  else ("", "")

/-- A value that `normalizeSipUri` is given where it is not empty. -/
def uriField (data : Dict) (key before : String) : Except PyError String :=
  if truthy (field data key) then
    match field data key with
    | .str uri => .ok (normalizeSipUri uri)
    | _ => .error .attributeError
  else .ok before

def onCallStart (b : Building) (data : Dict) : Building :=
  { b with
    callStartRaw := orElse b.callStartRaw (orElse (field data "raw") (.str ""))
    callStartTimestamp := orElse b.callStartTimestamp (orElse (field data "timestamp") (.str ""))
    callUrl := orElse (field data "url") b.callUrl
    peerUserAgent := orElse (field data "peerUserAgent") b.peerUserAgent
    mediaDir := orElse (field data "mediaDir") b.mediaDir }

def onCallEnd (b : Building) (data : Dict) : Building :=
  { b with
    callEndRaw := orElse (field data "raw") b.callEndRaw
    callEndTimestamp := orElse (field data "timestamp") b.callEndTimestamp }

/-- `encoders.setdefault("video", []).append(value)`. -/
def addVideoEncoder (encoders : Dict) (value : String) : Dict :=
  match encoders.lookup "video" with
  | some (.arr xs) => put encoders "video" (.arr (xs ++ [.str value]))
  | _ => put encoders "video" (.arr [.str value])

def onEncoder (b : Building) (data : Dict) : Except PyError Building := do
  let encoderMedia ← stripped (field data "media")
  let encoderValue ← stripped (field data "value")
  if encoderMedia = "audio" then
    .ok { b with encoders := put b.encoders "audio" (.str encoderValue) }
  else if encoderMedia = "video" then
    .ok { b with encoders := addVideoEncoder b.encoders encoderValue }
  else .ok b

def onRoom (b : Building) (data : Dict) : Except PyError Building := do
  .ok { b with roomLineValue := ← stripped (field data "value") }

def onBrowsing (b : Building) (data : Dict) : Except PyError Building := do
  .ok { b with browsingLineValue := ← stripped (field data "value") }

def onDestination (b : Building) (data : Dict) : Except PyError Building := do
  let uri ← stripped (field data "destinationURI")
  let domain ← stripped (field data "destinationDomain")
  .ok { b with
    destinationUri := if truthy (field data "destinationURI") then uri else b.destinationUri
    destinationDomain :=
      if truthy (field data "destinationDomain") then domain else b.destinationDomain }

/-- The final record of a call drops the tables of readings that were cut short. -/
def onCallClosed (b : Building) (data : Dict) : Except PyError Building := do
  let eventType ← stripped (field data "lastEventType")
  let isFinal := decide (eventType = "CALL_CLOSED")
  if b.haveFinalCallClosed && !isFinal then .ok b
  else
    let peerDisplay ← stripped (orElse (field data "peerDisplayName") (.str b.peerDisplay))
    let sourceUri ← uriField data "sourceURI" b.sourceUri
    let destinationUriRaw ← uriField data "destinationURI" b.destinationUriRaw
    .ok { b with
      haveFinalCallClosed := b.haveFinalCallClosed || isFinal
      media := if isFinal && !b.mediaSamples.isEmpty then { b.media with videoStreams := [] }
        else b.media
      callId := orElse (field data "callId") b.callId
      peerDisplay := peerDisplay
      closeReason := orElse (field data "closeReason") b.closeReason
      lastEventType := if eventType = "" then b.lastEventType else eventType
      sourceUri := sourceUri
      destinationUriRaw := destinationUriRaw }

def onDtmf (b : Building) (data : Dict) : Except PyError Building := do
  let ts := orElse (field data "timestamp") (.str "")
  let input ← stripped (field data "input")
  if truthy ts && decide (input ≠ "") then
    .ok { b with
      dtmfEvents := b.dtmfEvents ++ [.obj [("timestamp", ts), ("input", .str input)]] }
  else .ok b

def onMediaSample (b : Building) (data : Dict) : Building :=
  { b with
    media := { b.media with videoStreams := [] }
    mediaSamples := b.mediaSamples ++
      [.obj [("seconds", field data "seconds"), ("video", orElse (field data "video") (.obj []))]] }

/-- `d[field] = value`, unless the value is `None`. -/
def putFigure (d : Dict) (name : String) : Json → Dict
  | .null => d
  | v => put d name v

/-- `int(value)`, or 0 where it raises or the value is `None`. -/
def streamIdx (v : Json) : ℤ := (pyInt v).getD 0

def MediaStats.addAudio (media : MediaStats) (name : String) (tx rx : Json) : MediaStats :=
  { media with
    audioTx := putFigure media.audioTx name tx
    audioRx := putFigure media.audioRx name rx }

/-- `videoStreams.setdefault(streamIdx, ...)` and its two figures. -/
def MediaStats.addVideo (media : MediaStats) (index : ℤ) (name : String) (tx rx : Json) :
    MediaStats :=
  let stream := (media.videoStreams.lookup index).getD ⟨index, [], []⟩
  let stream' : Stream :=
    { stream with tx := putFigure stream.tx name tx, rx := putFigure stream.rx name rx }
  { media with videoStreams := put media.videoStreams index stream' }

/-- The ASCII part of `str.lower()`: no other character has a letter of `audio` or `video` as its
lower case. -/
def lower (s : String) : String := String.ofList (s.toList.map Char.toLower)

def onStatsValue (b : Building) (data : Dict) : Except PyError Building := do
  let mediaType := lower (← stripped (field data "media"))
  let name ← stripped (field data "field")
  if mediaType = "" ∨ name = "" then .ok b
  else if mediaType = "audio" then
    .ok { b with media := b.media.addAudio name (field data "tx") (field data "rx") }
  else if mediaType = "video" then
    let index := streamIdx (field data "streamIndex")
    .ok { b with media := b.media.addVideo index name (field data "tx") (field data "rx") }
  else .ok b

def onRecord (b : Building) (recordType : String) (data : Dict) : Except PyError Building :=
  if recordType = "call_start" then .ok (onCallStart b data)
  else if recordType = "call_end" then .ok (onCallEnd b data)
  else if recordType = "encoder" then onEncoder b data
  else if recordType = "room" then onRoom b data
  else if recordType = "browsing" then onBrowsing b data
  else if recordType = "destination" then onDestination b data
  else if recordType = "call_closed" then onCallClosed b data
  else if recordType = "dtmf" then onDtmf b data
  else if recordType = "media_sample" then .ok (onMediaSample b data)
  else if recordType = "stats_value" then onStatsValue b data
  else .ok b

def recordTypes : List String :=
  ["call_start", "call_end", "encoder", "room", "browsing", "destination", "call_closed", "dtmf",
   "media_sample", "stats_value"]

def onLine (b : Building) : HistoryLine → Except PyError Building
  | .mainApp value => .ok { b with mainApp := strip value }
  | .record recordType (.obj data) => onRecord b recordType data
  | .record recordType _ => if recordType ∈ recordTypes then .error .attributeError else .ok b
  | .unreadable => .ok b

/-- The loop over the lines. -/
def readLines (b : Building) : List HistoryLine → Except PyError Building
  | [] => .ok b
  | line :: rest => do readLines (← onLine b line) rest

/-- The query of `urlsplit`: blanks and controls in front go, then tabs and line ends. -/
def urlQuery (url : List Char) : List Char :=
  let url := (url.dropWhile fun c => c.toNat ≤ 32).filter fun c => c ∉ ['\t', '\r', '\n']
  ((url.takeWhile (· ≠ '#')).dropWhile (· ≠ '?')).drop 1

def schemeChar (c : Char) : Bool := c.isAlphanum || c == '+' || c == '-' || c == '.'

/-- The network location of `urlsplit`: what follows `//` after the scheme, if there is one. -/
def netloc (url : List Char) : List Char :=
  let url := (url.dropWhile fun c => c.toNat ≤ 32).filter fun c => c ∉ ['\t', '\r', '\n']
  let scheme := url.takeWhile (· ≠ ':')
  let schemed := decide (scheme.length < url.length) && scheme.head?.any Char.isAlpha &&
    scheme.all schemeChar
  match if schemed then url.drop (scheme.length + 1) else url with
  | '/' :: '/' :: rest => rest.takeWhile fun c => c ∉ ['/', '?', '#']
  | _ => []

/-- `urlsplit` raises ValueError: one bracket without the other, or a check that fails. -/
def Environment.refuses (env : Environment) (netloc : List Char) : Bool :=
  (decide ('[' ∈ netloc) != decide (']' ∈ netloc)) ||
    (decide ('[' ∈ netloc) && !env.bracketedHost netloc) ||
    (netloc.any (fun c => decide (128 ≤ c.toNat)) && !env.composedHost netloc)

/-- `urlsplit` takes the URL, if it is one. -/
def Environment.Splits (env : Environment) (v : Json) : Prop :=
  ∀ s, v = .str s → env.refuses (netloc (strip s).toList) = false

/-- `parse_qs(query, keep_blank_values=True)`, as the pairs in their order. -/
def parseQs (unquote : List Char → String) (query : List Char) : List (String × String) :=
  ((split '&' query).filter (· ≠ [])).map fun nameValue =>
    let plain (cs : List Char) : String := unquote (cs.map fun c => if c = '+' then ' ' else c)
    (plain (nameValue.takeWhile (· ≠ '=')), plain ((nameValue.dropWhile (· ≠ '=')).drop 1))

/-- `sourceName` and `destinationRoomName`, empty where the URL names none. -/
def parseCallUrlDetails (unquote : List Char → String) (url : String) : String × String :=
  let params := parseQs unquote (urlQuery (strip url).toList)
  (strip ((params.lookup "displayName").getD ""), strip ((params.lookup "mixedId").getD ""))

/-- Two digits at least. -/
def twoDigits (n : ℕ) : List Char :=
  let digits := Nat.toDigits 10 n
  if digits.length < 2 then '0' :: digits else digits

/-- `parseIso`: an instant in microseconds. -/
def parseIso (py : PythonText) : Json → Option ℤ
  | .str timestamp =>
    if timestamp = "" then none
    else if timestamp.toList.getLast? = some 'Z' then
      (py.fromisoformat (String.ofList timestamp.toList.dropLast)).map fun d => d.wall
    else (py.fromisoformat timestamp).map fun d => d.wall - d.utcoffset.getD 0
  | _ => none

/-- The whole seconds between two instants that are in order. -/
def callSeconds (py : PythonText) (callStartTimestamp callEndTimestamp : Json) : ℕ :=
  match parseIso py callStartTimestamp, parseIso py callEndTimestamp with
  | some startDate, some endDate => ((endDate - startDate) / 1000000).toNat
  | _, _ => 0

def totalTime (sec : ℕ) : Json :=
  .obj [("seconds", .int sec), ("milliseconds", .int (sec * 1000)),
    ("raw", .str (String.ofList (twoDigits (sec / 3600) ++ ':' :: twoDigits (sec % 3600 / 60) ++
      ':' :: twoDigits (sec % 60))))]

/-- The streams in the order of their numbers; numbered anew when there were readings. -/
def Building.streams (b : Building) : List Stream :=
  let sorted := (b.media.videoStreams.mergeSort fun a c => decide (a.1 ≤ c.1)).map Prod.snd
  if b.mediaSamples.isEmpty then sorted
  else sorted.zipIdx.map fun e => { e.1 with streamIndex := e.2 }

def Stream.json (s : Stream) : Dict :=
  [("streamIndex", .int s.streamIndex), ("tx", .obj s.tx), ("rx", .obj s.rx)]

def Building.mediaStats (b : Building) : Dict :=
  [("audio", .obj [("tx", .obj b.media.audioTx), ("rx", .obj b.media.audioRx)]),
   ("video", .arr (b.streams.map fun s => .obj s.json)),
   ("samples", .arr b.mediaSamples)]

/-- A URL that is not a text cannot be stripped, and one of a bad host cannot be split. -/
def urlDetails (env : Environment) (callUrl : Json) : Except PyError (String × String) := do
  let url ← stripped callUrl
  if env.refuses (netloc url.toList) then .error .valueError
  else .ok (parseCallUrlDetails env.unquote url)

def Building.details (b : Building) (sourceName destinationRoomName : String) : Dict :=
  let sourceUri := normalizeSipUri b.sourceUri
  let (sourceNumber, sourceDomain) := splitUri sourceUri
  let (destinationGw, destinationDomainIp) := splitUri b.destinationUriRaw
  [("callId", b.callId),
   ("source", .obj [("sourceURI", .str (stripSipPrefix sourceUri)),
      ("sourceName", .str sourceName), ("sourceNumber", .str sourceNumber),
      ("sourceDomain", .str sourceDomain)]),
   ("destination", .obj [("destinationURI", .str (stripSipPrefix b.destinationUri)),
      ("destinationRoomName", .str destinationRoomName),
      ("destinationDomain", .str b.destinationDomain),
      ("destinationDomainRaw", .str (stripSipPrefix b.destinationUriRaw)),
      ("destinationGw", .str destinationGw), ("destinationDomainIp", .str destinationDomainIp),
      ("peerDisplayName", .str b.peerDisplay)]),
   ("closeReason", b.closeReason), ("lastEventType", .str b.lastEventType),
   ("peerUserAgent", b.peerUserAgent), ("encoders", .obj b.encoders), ("mediaDir", b.mediaDir)]

def Building.call (env : Environment) (b : Building) (sourceName destinationRoomName : String) :
    Dict :=
  let sec := callSeconds env.py b.callStartTimestamp b.callEndTimestamp
  [("mainApp", .str b.mainApp), ("callUrl", b.callUrl), ("browsing", .str b.browsingLineValue),
   ("room", .str b.roomLineValue), ("roomType", .str "IVR"),
   ("callSession", .obj [
      ("callStart", .obj [("raw", b.callStartRaw), ("timestamp", b.callStartTimestamp)]),
      ("callEnd", .obj [("raw", b.callEndRaw), ("timestamp", b.callEndTimestamp)]),
      ("totalTime", totalTime sec)]),
   ("details", .obj (b.details sourceName destinationRoomName)),
   ("dtmfEvents", .arr b.dtmfEvents), ("mediaStats", .obj b.mediaStats),
   ("gateway", .obj env.gatewayVersions)]

/-- The `call` object of the payload. -/
def buildPayloadFromLines (env : Environment) (lines : List HistoryLine) :
    Except PyError Dict := do
  let b ← readLines Building.start lines
  let (sourceName, destinationRoomName) ← urlDetails env b.callUrl
  .ok (b.call env sourceName destinationRoomName)

section Records

variable {b b' : Building} {data : Dict}

/-- The URL and the readings are those of other records. -/
structure Aside (b b' : Building) : Prop where
  callUrl : b'.callUrl = b.callUrl
  mediaSamples : b'.mediaSamples = b.mediaSamples

theorem onEncoder_aside (h : onEncoder b data = .ok b') : Aside b b' := by
  obtain ⟨encoderMedia, -, h⟩ := bind_eq_ok h
  obtain ⟨encoderValue, -, h⟩ := bind_eq_ok h
  split at h
  · obtain rfl := Except.ok.inj h
    exact ⟨rfl, rfl⟩
  · split at h
    · obtain rfl := Except.ok.inj h
      exact ⟨rfl, rfl⟩
    · obtain rfl := Except.ok.inj h
      exact ⟨rfl, rfl⟩

theorem onRoom_aside (h : onRoom b data = .ok b') : Aside b b' := by
  obtain ⟨value, -, h⟩ := bind_eq_ok h
  obtain rfl := Except.ok.inj h
  exact ⟨rfl, rfl⟩

theorem onBrowsing_aside (h : onBrowsing b data = .ok b') : Aside b b' := by
  obtain ⟨value, -, h⟩ := bind_eq_ok h
  obtain rfl := Except.ok.inj h
  exact ⟨rfl, rfl⟩

theorem onDestination_aside (h : onDestination b data = .ok b') : Aside b b' := by
  obtain ⟨uri, -, h⟩ := bind_eq_ok h
  obtain ⟨domain, -, h⟩ := bind_eq_ok h
  obtain rfl := Except.ok.inj h
  exact ⟨rfl, rfl⟩

theorem onCallClosed_aside (h : onCallClosed b data = .ok b') : Aside b b' := by
  obtain ⟨eventType, -, h⟩ := bind_eq_ok h
  dsimp only at h
  by_cases hlate : (b.haveFinalCallClosed && !decide (eventType = "CALL_CLOSED")) = true
  · rw [if_pos hlate] at h
    obtain rfl := Except.ok.inj h
    exact ⟨rfl, rfl⟩
  · rw [if_neg hlate] at h
    obtain ⟨peerDisplay, -, h⟩ := bind_eq_ok h
    obtain ⟨sourceUri, -, h⟩ := bind_eq_ok h
    obtain ⟨destinationUriRaw, -, h⟩ := bind_eq_ok h
    obtain rfl := Except.ok.inj h
    exact ⟨rfl, rfl⟩

theorem onDtmf_aside (h : onDtmf b data = .ok b') : Aside b b' := by
  obtain ⟨input, -, h⟩ := bind_eq_ok h
  split at h
  · obtain rfl := Except.ok.inj h
    exact ⟨rfl, rfl⟩
  · obtain rfl := Except.ok.inj h
    exact ⟨rfl, rfl⟩

theorem onStatsValue_aside (h : onStatsValue b data = .ok b') : Aside b b' := by
  obtain ⟨media, -, h⟩ := bind_eq_ok h
  obtain ⟨name, -, h⟩ := bind_eq_ok h
  split at h
  · obtain rfl := Except.ok.inj h
    exact ⟨rfl, rfl⟩
  · split at h
    · obtain rfl := Except.ok.inj h
      exact ⟨rfl, rfl⟩
    · split at h
      · obtain rfl := Except.ok.inj h
        exact ⟨rfl, rfl⟩
      · obtain rfl := Except.ok.inj h
        exact ⟨rfl, rfl⟩

/-- Only `call_start` sets the URL, and only `media_sample` adds a reading. -/
theorem onRecord_cases {recordType : String} (h : onRecord b recordType data = .ok b') :
    (recordType = "call_start" ∧ b' = onCallStart b data) ∨
    (recordType = "media_sample" ∧ b' = onMediaSample b data) ∨
    recordType ≠ "call_start" ∧ recordType ≠ "media_sample" ∧ Aside b b' := by
  unfold onRecord at h
  by_cases hstart : recordType = "call_start"
  · rw [if_pos hstart] at h
    exact Or.inl ⟨hstart, (Except.ok.inj h).symm⟩
  by_cases hsample : recordType = "media_sample"
  · subst hsample
    exact Or.inr (Or.inl ⟨rfl, (Except.ok.inj h).symm⟩)
  rw [if_neg hstart, if_neg hsample] at h
  refine Or.inr (Or.inr ⟨hstart, hsample, ?_⟩)
  split at h
  · obtain rfl := Except.ok.inj h
    exact ⟨rfl, rfl⟩
  split at h
  · exact onEncoder_aside h
  split at h
  · exact onRoom_aside h
  split at h
  · exact onBrowsing_aside h
  split at h
  · exact onDestination_aside h
  split at h
  · exact onCallClosed_aside h
  split at h
  · exact onDtmf_aside h
  split at h
  · exact onStatsValue_aside h
  · obtain rfl := Except.ok.inj h
    exact ⟨rfl, rfl⟩

theorem onLine_cases {line : HistoryLine} (h : onLine b line = .ok b') :
    (∃ data, line = .record "call_start" (.obj data) ∧ b' = onCallStart b data) ∨
    (∃ data, line = .record "media_sample" (.obj data) ∧ b' = onMediaSample b data) ∨
    (∀ recordType v, line = .record recordType v →
      recordType ≠ "call_start" ∧ recordType ≠ "media_sample") ∧ Aside b b' := by
  cases line with
  | mainApp value =>
    obtain rfl := Except.ok.inj h
    exact Or.inr (Or.inr ⟨(fun _ _ hline => by cases hline), rfl, rfl⟩)
  | unreadable =>
    obtain rfl := Except.ok.inj h
    exact Or.inr (Or.inr ⟨(fun _ _ hline => by cases hline), rfl, rfl⟩)
  | record recordType v =>
    cases v with
    | obj data =>
      rcases onRecord_cases h with ⟨rfl, hb⟩ | ⟨rfl, hb⟩ | ⟨hstart, hsample, haside⟩
      · exact Or.inl ⟨data, rfl, hb⟩
      · exact Or.inr (Or.inl ⟨data, rfl, hb⟩)
      · refine Or.inr (Or.inr ⟨fun other v hline => ?_, haside⟩)
        obtain ⟨rfl, -⟩ := HistoryLine.record.inj hline
        exact ⟨hstart, hsample⟩
    | _ =>
      simp only [onLine] at h
      split at h
      · cases h
      · next hother =>
        obtain rfl := Except.ok.inj h
        refine Or.inr (Or.inr ⟨fun other v hline => ?_, rfl, rfl⟩)
        obtain ⟨rfl, -⟩ := HistoryLine.record.inj hline
        exact ⟨fun hstart => hother (by rw [hstart]; decide),
          fun hsample => hother (by rw [hsample]; decide)⟩

end Records

end HistoryPayload
