import SIPMediaGW.LogParser
import SIPMediaGW.Utf8Text

/-! # The call URL

`IVR.setUrl` prints the URL of the IVR page. `logParse` keeps it in the record of the gateway
start, and the payload reads it in the record of the call start. -/
namespace CallUrl

open HistoryPayload hiding Environment onLine
open LogParser
open PythonJson

/-- The texts that the page is opened with; an empty one is not set. -/
structure IVR where
  path : String
  name : String
  roomName : String
  browsingId : String
  browsingName : String
  mixedId : String

/-- Characters that `quote` leaves as they are. -/
def isSafe (b : UInt8) : Bool :=
  let c := Char.ofNat b.toNat
  decide (b.toNat < 128) && (c.isAlphanum || decide (c ∈ ['_', '.', '-', '~', '/']))

def hexDigit (n : ℕ) : Char := (Nat.digitChar n).toUpper

/-- `urllib.parse.quote(text)`. -/
def quote (text : String) : String :=
  String.ofList ((Utf8Text.encode text.toList).flatMap fun b =>
    if isSafe b then [Char.ofNat b.toNat]
    else ['%', hexDigit (b.toNat / 16), hexDigit (b.toNat % 16)])

/-- `&name=value`, unless the value is empty. -/
def parameter (name value : String) : String :=
  if value = "" then "" else "&" ++ name ++ "=" ++ value

def setUrl (ivr : IVR) : String :=
  "file://" ++ ivr.path ++ "?displayName=" ++ ivr.name ++ parameter "roomId" ivr.roomName ++
    parameter "domainId" ivr.browsingId ++ parameter "domainKey" ivr.browsingName ++
    parameter "mixedId" (if ivr.mixedId = "" then "" else quote ivr.mixedId)

/-- The line that `setUrl` prints. -/
def urlLine (ivr : IVR) : List Char := ("Web browsing URL: " ++ setUrl ivr).toList

section Run

variable (env : Environment)

def closes (line : List Char) : Bool :=
  (parseEventDict env line).any fun event =>
    isText (field event "class") "call" && decide (fieldText env event "type" = "CALL_CLOSED")

def urlOf (line : List Char) : Option String :=
  (afterFront "Web browsing URL: ".toList line).map String.ofList

/-- The last URL printed before the close. -/
def lastUrl (log : List LogLine) : Option String :=
  ((((stdin log).map Prod.snd).takeWhile fun line => !closes env line).filterMap urlOf).getLast?

/-- The history file of a gateway run: what `main` appended for each of its processes, in any
order, and the lines that the start script wrote. -/
structure GatewayRun where
  processes : List (String × List LogLine)
  events : List LogLine
  events_mem : ("Event", events) ∈ processes
  history : List HistoryLine
  appended : ∀ line ∈ history, (∃ value, line = .mainApp value) ∨ line = .unreadable ∨
    ∃ p ∈ processes, ∃ r ∈ records (main env p.1 p.2), line = r.line
  ivr : IVR
  launched : lastUrl env events = some (setUrl ivr)

end Run

def payloadNames (payload : Dict) : Json × Json :=
  let details := IngestMapping.obj (field payload "details")
  (field (IngestMapping.obj (field details "source")) "sourceName",
   field (IngestMapping.obj (field details "destination")) "destinationRoomName")

/-- The payload has the URL, and the names that its query gives. -/
structure UrlReaches (builder : HistoryPayload.Environment) (payload : Dict) (url : String) :
    Prop where
  callUrl : field payload "callUrl" = .str url
  names : payloadNames payload =
    (.str (parseCallUrlDetails builder.unquote url).1,
     .str (parseCallUrlDetails builder.unquote url).2)

/-- No record of a call start has a URL. -/
def WithoutUrl (r : Record) : Prop := r.recordType = "call_start" → field r.recordObj "url" = .null

section Records

variable {env : Environment} {pref : String} {st : LogParser.State} {now : ℤ} {line : List Char}

theorem withoutUrl_of_ne {recordType : String} (h : recordType ≠ "call_start") (d : Dict) :
    WithoutUrl ⟨recordType, d⟩ := fun heq => absurd heq h

theorem capture_withoutUrl (c : Capture) : WithoutUrl (c.record env now) := by
  cases c with
  | _ => exact withoutUrl_of_ne (by decide) _

theorem mem_onCallEvent {event : Dict} {r : Record}
    (h : .appendHistory r ∈ (onCallEvent env st now event).2) : WithoutUrl r := by
  unfold onCallEvent at h
  dsimp only at h
  split at h
  · obtain rfl := Action.appendHistory.inj (List.mem_singleton.mp h)
    exact fun _ => rfl
  · split at h
    · cases h
    · split at h
      · cases h
      · simp only [List.mem_cons, Action.appendHistory.injEq, reduceCtorEq, List.not_mem_nil,
          or_false] at h
        rcases h with rfl | rfl
        · exact withoutUrl_of_ne (by decide) _
        · exact withoutUrl_of_ne (by decide) _

theorem mem_onEventLine {r : Record} (h : .appendHistory r ∈ (onEventLine env st now line).2) :
    WithoutUrl r := by
  unfold onEventLine at h
  split at h
  · obtain rfl := Action.appendHistory.inj (List.mem_singleton.mp h)
    exact withoutUrl_of_ne (by decide) _
  · split at h
    · cases h
    · split at h
      · obtain rfl := Action.appendHistory.inj (List.mem_singleton.mp h)
        exact withoutUrl_of_ne (by decide) _
      · split at h
        · exact mem_onCallEvent h
        · cases h

theorem mem_statsValue {media label : String} {rest : List Char} {r : Record}
    (h : .appendHistory r ∈ statsValue env st media label rest) : WithoutUrl r := by
  unfold statsValue at h
  split at h
  · cases h
  · dsimp only at h
    split at h
    · obtain rfl := Action.appendHistory.inj (List.mem_singleton.mp h)
      exact withoutUrl_of_ne (by decide) _
    · cases h

theorem mem_onBaresipLine {r : Record} (h : .appendHistory r ∈ (onBaresipLine env st now line).2) :
    WithoutUrl r := by
  unfold onBaresipLine at h
  split at h
  · obtain rfl := Action.appendHistory.inj (List.mem_singleton.mp h)
    exact withoutUrl_of_ne (by decide) _
  · split at h
    · cases h
    · exact mem_statsValue h
    · split at h
      · simp only [List.mem_cons, Action.appendHistory.injEq, reduceCtorEq, List.not_mem_nil,
          or_false] at h
        obtain rfl := h
        exact withoutUrl_of_ne (by decide) _
      · cases h

theorem mem_onLine {r : Record} (h : .appendHistory r ∈ (onLine env pref st now line).2) :
    WithoutUrl r := by
  unfold onLine at h
  split at h
  · obtain rfl := Action.appendHistory.inj (List.mem_singleton.mp h)
    exact capture_withoutUrl _
  · split at h
    · exact mem_onEventLine h
    · split at h
      · exact mem_onBaresipLine h
      · cases h

theorem mem_runLines {lines : List (ℤ × List Char)} {r : Record}
    (h : .appendHistory r ∈ (runLines env pref st lines).2) : WithoutUrl r := by
  induction lines generalizing st with
  | nil => cases h
  | cons l lines ih =>
    rcases List.mem_append.mp h with h | h
    · exact mem_onLine h
    · exact ih h

/-- Whatever the process and its log. -/
theorem mem_main {log : List LogLine} {r : Record} (h : r ∈ records (main env pref log)) :
    WithoutUrl r := by
  obtain ⟨a, ha, hr⟩ := List.mem_filterMap.mp h
  cases a with
  | appendHistory r' =>
    obtain rfl := Option.some.inj hr
    exact mem_runLines ha
  | pushHistory => cases hr

end Records

section Builder

variable {b b' : Building}

/-- The URL stays empty while no record of a call start has one. -/
theorem onLine_callUrl {line : HistoryLine}
    (hline : ∀ r : Record, line = r.line → WithoutUrl r)
    (h : HistoryPayload.onLine b line = .ok b') : b'.callUrl = b.callUrl := by
  rcases onLine_cases h with ⟨data, rfl, rfl⟩ | ⟨data, -, rfl⟩ | ⟨-, haside⟩
  · have hurl : field data "url" = .null := hline ⟨"call_start", data⟩ rfl rfl
    rw [onCallStart, hurl]
    rfl
  · rfl
  · exact haside.callUrl

theorem readLines_callUrl {lines : List HistoryLine}
    (hlines : ∀ line ∈ lines, ∀ r : Record, line = r.line → WithoutUrl r)
    (h : readLines b lines = .ok b') : b'.callUrl = b.callUrl := by
  induction lines generalizing b with
  | nil =>
    obtain rfl := Except.ok.inj h
    rfl
  | cons line lines ih =>
    obtain ⟨b₁, hline, hrest⟩ := bind_eq_ok h
    obtain ⟨hhead, htail⟩ := List.forall_mem_cons.mp hlines
    rw [ih htail hrest, onLine_callUrl hhead hline]

variable {env : LogParser.Environment} {builder : HistoryPayload.Environment}

theorem GatewayRun.withoutUrl (run : GatewayRun env) :
    ∀ line ∈ run.history, ∀ r : Record, line = r.line → WithoutUrl r := by
  intro line hline r hr
  rcases run.appended line hline with ⟨value, hvalue⟩ | hunreadable | ⟨p, -, r', hr', heq⟩
  · rw [hvalue] at hr
    cases hr
  · rw [hunreadable] at hr
    cases hr
  · rw [hr] at heq
    obtain ⟨htype, hobj⟩ := HistoryLine.record.inj heq
    have hwithout := mem_main hr'
    rw [WithoutUrl, htype, Json.obj.inj hobj]
    exact hwithout

theorem callUrl_eq_empty (run : GatewayRun env) {payload : Dict}
    (h : buildPayloadFromLines builder run.history = .ok payload) :
    field payload "callUrl" = .str "" := by
  obtain ⟨b, hread, h⟩ := bind_eq_ok h
  obtain ⟨names, -, h⟩ := bind_eq_ok h
  obtain rfl := Except.ok.inj h
  exact readLines_callUrl run.withoutUrl hread

theorem setUrl_ne_empty (ivr : IVR) : setUrl ivr ≠ "" := by
  intro h
  have hchars := congrArg String.toList h
  simp [setUrl, String.toList_append] at hchars

/-- Every run loses the URL that its last launch printed. -/
theorem url_never_reaches (run : GatewayRun env) {payload : Dict}
    (h : buildPayloadFromLines builder run.history = .ok payload) :
    ¬ UrlReaches builder payload (setUrl run.ivr) := by
  intro hreaches
  have hurl := hreaches.callUrl
  rw [callUrl_eq_empty run h] at hurl
  exact setUrl_ne_empty run.ivr (Json.str.inj hurl).symm

end Builder

def plainTexts : LogParser.Environment where
  tables := PythonLiterals.plainTables
  floatOf _ := .nan
  rawTimestamp _ := "Sep 24 08:20:48"
  isoZ _ := "2026-09-24T08:20:48Z"
  isoZms _ := "2026-09-24T08:20:48.000Z"

def plainBuilder : HistoryPayload.Environment where
  py := IngestMapping.oneDate
  unquote := String.ofList
  bracketedHost _ := true
  composedHost _ := true
  gatewayVersions := []

/-- The IVR of a call from `Ann` that asks for room 7. -/
def launch : IVR := ⟨"/index.html", "Ann", "", "", "", "7"⟩

def callEvent (eventType : String) : Dict :=
  [("event", .bool true), ("type", .str eventType), ("class", .str "call"), ("id", .str "a1"),
    ("peeruri", .str "sip:ann@sample.org"), ("accountaor", .str "sip:gw@sample.org")]

/-- The browser warms up, a call comes and launches the IVR, and the call closes. -/
def callLog : List LogLine :=
  [urlLine ⟨"/index.html", "", "", "", "", ""⟩,
    PythonLiterals.repr plainTexts.tables (.obj (callEvent "CALL_ESTABLISHED")), urlLine launch,
    PythonLiterals.repr plainTexts.tables (.obj (callEvent "CALL_CLOSED"))].map (LogLine.mk · 0)

theorem lastUrl_callLog : lastUrl plainTexts callLog = some (setUrl launch) := by decide +kernel

def callRun : GatewayRun plainTexts where
  processes := [("Event", callLog)]
  events := callLog
  events_mem := List.mem_cons_self
  history := (records (main plainTexts "Event" callLog)).map Record.line
  appended line hline := by
    obtain ⟨r, hr, rfl⟩ := List.mem_map.mp hline
    exact Or.inr (Or.inr ⟨_, List.mem_cons_self, r, hr, rfl⟩)
  ivr := launch
  launched := lastUrl_callLog

theorem callRun_payload : ∃ payload,
    buildPayloadFromLines plainBuilder callRun.history = .ok payload := by
  have hok : (buildPayloadFromLines plainBuilder callRun.history).isOk = true := by decide +kernel
  cases h : buildPayloadFromLines plainBuilder callRun.history with
  | ok payload => exact ⟨payload, rfl⟩
  | error e =>
    rw [h] at hok
    cases hok

theorem callRun_without_url : ∃ payload,
    buildPayloadFromLines plainBuilder callRun.history = .ok payload ∧
      ¬ UrlReaches plainBuilder payload (setUrl launch) := by
  obtain ⟨payload, h⟩ := callRun_payload
  exact ⟨payload, h, url_never_reaches callRun h⟩

/-- The URL of the launch is not in the payload of the call. -/
theorem launched_url_lost : ¬ ∀ (env : LogParser.Environment)
    (builder : HistoryPayload.Environment) (run : GatewayRun env) (payload : Dict),
    buildPayloadFromLines builder run.history = .ok payload →
      UrlReaches builder payload (setUrl run.ivr) := by
  intro h
  obtain ⟨payload, hbuild⟩ := callRun_payload
  have hurl := (h plainTexts plainBuilder callRun payload hbuild).callUrl
  rw [callUrl_eq_empty callRun hbuild] at hurl
  exact setUrl_ne_empty launch (Json.str.inj hurl).symm

end CallUrl
