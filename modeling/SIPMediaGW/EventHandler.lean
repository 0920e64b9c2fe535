import SIPMediaGW.FieldMap
import SIPMediaGW.PythonJson
import SIPMediaGW.StatefulExceptions

/-! # The event handler

The main thread reads events and hands them to `event_handler`; a thread it starts runs the
IVR and the meeting on the same object. An attribute exists once something has assigned it. -/
namespace EventHandler

open FieldMap
open PythonJson
open StatefulExceptions

inductive PyError where
  | keyError (key : String)
  | attributeError (name : String)
  | indexError
  | typeError
  deriving DecidableEq, Repr

/-- The modules `attend` can import. -/
inductive Connector where
  | bbbesr | bigbluebutton | edumeet | googlemeet | jitsi | livekit | nextcloud | teams | visio
  | webinaire
  deriving DecidableEq, Repr

/-- What `Browsing` assigns to its instances, and its methods. -/
def browsingAttributes : List String :=
  ["url", "room", "name", "width", "height", "config", "modName", "initScript", "screenShared",
   "streamedSlide", "userInputs", "readPairingCode", "service", "chromeOptions", "driver",
   "rtcstatsOn", "iconB64", "dtmfB64", "menuIcons", "slideSelector", "loadJS", "loadImages",
   "loadPage", "join", "monitorSingleParticipant", "monitorLeftMeeting", "browse",
   "dualScreenLayout", "manageLayout", "checkStreamedSlide", "interact", "unset", "run", "stop"]

/-- What the class of a connector adds. -/
def Connector.attributes : Connector → List String
  | .edumeet => browsingAttributes ++ ["setUrl"]
  | .googlemeet => browsingAttributes ++ ["chatHandler"]
  | .livekit => browsingAttributes ++ ["chatHandler"]
  | .nextcloud => browsingAttributes ++ ["chatHandler"]
  | .visio => browsingAttributes ++ ["_unpinSlideThread"]
  | .webinaire => browsingAttributes ++ ["token"]
  | _ => browsingAttributes

/-- The IVR object, the queues it shares and the `AUDIO_ONLY` variable. -/
structure Ivr where
  mixedId : String
  roomName : String
  name : String
  browsingObj : Option Connector
  /-- `none` while nothing has assigned it. -/
  screenShared : Option Bool
  userInputs : List String
  chatMsg : List String
  audioOnly : Bool

/-- `IVR.__init__`. -/
def Ivr.init (roomName name mixedId : Option String) (audioOnly : Bool) : Ivr where
  mixedId := mixedId.getD ""
  roomName := roomName.getD ""
  name := name.getD ""
  browsingObj := none
  screenShared := none
  userInputs := []
  chatMsg := []
  audioOnly := audioOnly

inductive Command where
  | hangup
  | accept
  | quit
  deriving DecidableEq, Repr

abbrev Handling (α : Type) := Action Ivr PyError α

/-- `data[key]`. -/
def getItem (data : Dict) (key : String) : Except PyError Json :=
  match data.lookup key with
  | some v => .ok v
  | none => .error (.keyError key)

/-- `data[key]` where a text is needed: it is added to another one. -/
def getText (data : Dict) (key : String) : Except PyError String := do
  match ← getItem data key with
  | .str s => .ok s
  | _ => .error .typeError

/-- `s[n:]`. -/
def sliceFrom (s : List Char) (n : ℤ) : List Char :=
  if n < 0 then s.drop (s.length - n.natAbs) else s.drop n.toNat

/-- `s[0:n]`. -/
def sliceTo (s : List Char) (n : ℤ) : List Char :=
  if n < 0 then s.take (s.length - n.natAbs) else s.take n.toNat

/-- The room and the name of `<length>-<room><name>`; `none` where reading it raises. -/
def roomAndName (peerdisplayname : Json) : Option (String × String) :=
  match peerdisplayname with
  | .str s =>
    let cs := s.toList
    match cs.dropWhile (· ≠ '-') with
    | _ :: rest =>
      (intOfText (String.ofList (cs.takeWhile (· ≠ '-')))).map fun roomLen =>
        (String.ofList (sliceTo rest roomLen), String.ofList (sliceFrom rest roomLen))
    | [] => none
  | _ => none

/-- `peeruri.split(';')[0].split(':')[1]`; `none` where it raises. -/
def uriName (peeruri : String) : Option String :=
  match (peeruri.toList.takeWhile (· ≠ ';')).dropWhile (· ≠ ':') with
  | _ :: rest => some (String.ofList (rest.takeWhile (· ≠ ':')))
  | [] => none

/-- `displayName` after the `try`, the prefix aside. -/
def shownName (data : Dict) : Json :=
  match data.lookup "peerdisplayname" with
  | none => .str ""
  | some v =>
    match roomAndName v with
    | some (_, name) => .str name
    | none => v

def noteDirection (data : Dict) : Handling Unit := do
  let remotevideodir ← liftM (getItem data "remotevideodir")
  if isText remotevideodir "inactive" then modify fun ivr => { ivr with audioOnly := true }

def noteRoom (data : Dict) : Handling Unit :=
  match (data.lookup "peerdisplayname").bind roomAndName with
  | some (mixedId, _) => modify fun ivr => { ivr with mixedId := mixedId }
  | none => pure ()

def nameFromUri (peeruri : String) : Handling Unit :=
  match uriName peeruri with
  | some displayName => modify fun ivr => { ivr with name := displayName }
  | none => throw .indexError

def noteName (data : Dict) : Handling Unit :=
  if truthy (shownName data) then
    match shownName data with
    | .str displayName => modify fun ivr => { ivr with name := displayName }
    | _ => throw .typeError
  else do
    match ← liftM (getItem data "peeruri") with
    | .str peeruri => nameFromUri peeruri
    | _ => throw (.attributeError "split")

def callEstablished (data : Dict) : Handling Unit := do
  noteDirection data
  noteRoom data
  noteName data

def slidesStart (param : Json) : Handling Unit :=
  if isText param "VIDEO_SLIDES_START" then
    modify fun ivr =>
      { ivr with userInputs := ivr.userInputs ++ ["s"], screenShared := some true }
  else pure ()

def slidesStop (param : Json) : Handling Unit := do
  if isText param "VIDEO_SLIDES_STOP" then
    match (← get).screenShared with
    | none => throw (.attributeError "screenShared")
    | some true =>
      modify fun ivr =>
        { ivr with userInputs := ivr.userInputs ++ ["q"], screenShared := some false }
    | some false => pure ()

def videoDisp (data : Dict) : Handling Unit := do
  let param ← liftM (getItem data "param")
  slidesStart param
  slidesStop param

/-- `args['ivr'].browsingObj.chatMsg.put(text)`. -/
def putChat (text : String) : Handling Unit := do
  match (← get).browsingObj with
  | none => throw (.attributeError "chatMsg")
  | some connector =>
    if "chatMsg" ∈ connector.attributes then
      modify fun ivr => { ivr with chatMsg := ivr.chatMsg ++ [text] }
    else throw (.attributeError "chatMsg")

def chatText (data : Dict) : Handling Unit := do
  if "text" ∈ keys data then
    let text ← liftM (getText data "text")
    putChat text

def chatAction (data : Dict) : Handling Unit := do
  if "action" ∈ keys data then
    let action ← liftM (getText data "action")
    if action = "toggle" then modify fun ivr => { ivr with userInputs := ivr.userInputs ++ ["c"] }

def chatInput (data : Dict) : Handling Unit := do
  chatText data
  chatAction data

/-- `inputs['from']`, where it is not empty. -/
abbrev FromUri := Option String

/-- The peer is the one the gateway was started for, or it was started for any. -/
def matchesFrom (from_uri : FromUri) (data : Dict) : Handling Bool :=
  match from_uri with
  | some uri => do
    let peeruri ← liftM (getItem data "peeruri")
    pure (isText peeruri uri)
  | none => pure true

def eventHandler (from_uri : FromUri) (data : Dict) : Handling (Option Command) := do
  let type ← liftM (getItem data "type")
  if isText type "CALL_INCOMING" then
    let matched ← matchesFrom from_uri data
    pure (some (if matched then .accept else .hangup))
  else if isText type "CALL_ESTABLISHED" then
    callEstablished data
    pure none
  else if isText type "CALL_DTMF_START" then
    let param ← liftM (getText data "param")
    modify fun ivr => { ivr with userInputs := ivr.userInputs ++ [param] }
    pure none
  else if isText type "CALL_CLOSED" then
    let matched ← matchesFrom from_uri data
    pure (if matched then some .quit else none)
  else if isText type "TIME_OUT" then
    if (← get).name = "" then pure (some .quit) else pure none
  else if isText type "VIDEO_DISP" then
    videoDisp data
    pure none
  else if isText type "CHAT_INPUT" then
    chatInput data
    pure none
  else pure none

/-- What the browse thread may do to the object at any time. -/
inductive BrowseStep where
  | prompted (roomName : String)
  | attend (connector : Connector)
  | consumed (userInputs : List String)

def BrowseStep.apply (step : BrowseStep) (ivr : Ivr) : Ivr :=
  match step with
  | .prompted roomName => { ivr with roomName := roomName }
  | .attend connector => { ivr with browsingObj := some connector }
  | .consumed userInputs => { ivr with userInputs := userInputs }

/-- What happens next: the loop decodes a status, or the thread goes on. -/
inductive Turn where
  | read (status : Dict)
  | browse (step : BrowseStep)

/-- The loop of `getEvents`: it breaks on an empty status. -/
def getEvents (from_uri : FromUri) : List Turn → Handling Unit
  | [] => pure ()
  | .browse step :: rest => do
    modify step.apply
    getEvents from_uri rest
  | .read status :: rest => do
    if status.isEmpty then pure ()
    else
      if "event" ∈ keys status then
        let _ ← eventHandler from_uri status
      getEvents from_uri rest

section Condition

def isType (data : Dict) (type : String) : Bool := isText (field data "type") type

/-- The keys an event of each type needs. -/
structure Carries (from_uri : FromUri) (data : Dict) : Prop where
  type : (data.lookup "type").isSome
  incoming : isType data "CALL_INCOMING" → from_uri.isSome → (data.lookup "peeruri").isSome
  closed : isType data "CALL_CLOSED" → from_uri.isSome → (data.lookup "peeruri").isSome
  established : isType data "CALL_ESTABLISHED" →
    (data.lookup "remotevideodir").isSome ∧ ∃ uri, data.lookup "peeruri" = some (.str uri)
  dtmf : isType data "CALL_DTMF_START" → ∃ key, data.lookup "param" = some (.str key)
  video : isType data "VIDEO_DISP" → (data.lookup "param").isSome
  chat : isType data "CHAT_INPUT" → ∀ key ∈ ["text", "action"], ∀ v,
    data.lookup key = some v → ∃ s, v = .str s

/-- A caller whose display name is a text, or who has none and a URI with a scheme. -/
def Named (data : Dict) : Prop :=
  if truthy (shownName data) then ∃ name, shownName data = .str name
  else ∃ uri, data.lookup "peeruri" = some (.str uri) ∧ ':' ∈ uri.toList.takeWhile (· ≠ ';')

def startsSlides (data : Dict) : Bool :=
  isType data "VIDEO_DISP" && isText (field data "param") "VIDEO_SLIDES_START"

def stopsSlides (data : Dict) : Bool :=
  isType data "VIDEO_DISP" && isText (field data "param") "VIDEO_SLIDES_STOP"

/-- An event that comes after slides have been shown, or not. -/
structure Fine (shown : Bool) (data : Dict) : Prop where
  named : isType data "CALL_ESTABLISHED" → Named data
  slides : stopsSlides data → shown = true
  chat : isType data "CHAT_INPUT" → "text" ∉ keys data

/-- Events that are fine one after the other, up to an empty status. -/
def AllFine : Bool → List Turn → Prop
  | _, [] => True
  | shown, .browse _ :: rest => AllFine shown rest
  | shown, .read status :: rest =>
    status = [] ∨ ("event" ∈ keys status → Fine shown status) ∧
      AllFine (shown || ("event" ∈ keys status && startsSlides status)) rest

end Condition

section Handlers

variable {data : Dict} {s : Ivr} {from_uri : FromUri}

/-- A handler returns exactly when `P` holds, and then the slides have been shown or not. -/
def Returns {α : Type} (p : Handling α) (s : Ivr) (P : Prop) (shown : Bool) : Prop :=
  (P → ∃ a t, exec p s = (.ok a, t) ∧ t.screenShared.isSome = shown) ∧
    (¬ P → ∃ e t, exec p s = (.error e, t))

theorem returns_ok {α : Type} {p : Handling α} {P : Prop} {shown : Bool} {a : α} {t : Ivr}
    (hP : P) (h : exec p s = (.ok a, t)) (hshown : t.screenShared.isSome = shown) :
    Returns p s P shown :=
  ⟨fun _ => ⟨a, t, h, hshown⟩, fun hnot => absurd hP hnot⟩

theorem returns_error {α : Type} {p : Handling α} {P : Prop} {shown : Bool} {e : PyError}
    {t : Ivr} (hP : ¬ P) (h : exec p s = (.error e, t)) : Returns p s P shown :=
  ⟨fun hp => absurd hp hP, fun _ => ⟨e, t, h⟩⟩

theorem Returns.bind {α β : Type} {p : Handling α} {f : α → Handling β} {P : Prop} {shown : Bool}
    (h : Returns p s P shown) (hf : ∀ a t, ∃ b, exec (f a) t = (.ok b, t)) :
    Returns (p >>= f) s P shown := by
  constructor
  · intro hP
    obtain ⟨a, t, hrun, hshown⟩ := h.1 hP
    obtain ⟨b, hb⟩ := hf a t
    exact ⟨b, t, by rw [exec_bind_ok hrun, hb], hshown⟩
  · intro hP
    obtain ⟨e, t, hrun⟩ := h.2 hP
    exact ⟨e, t, exec_bind_error hrun⟩

theorem getItem_ok {key : String} (h : (data.lookup key).isSome) :
    getItem data key = .ok (field data key) := by
  obtain ⟨v, hv⟩ := Option.isSome_iff_exists.mp h
  rw [getItem, field, hv]
  rfl

theorem uriName_eq_none_iff (uri : String) :
    uriName uri = none ↔ ':' ∉ uri.toList.takeWhile (· ≠ ';') := by
  unfold uriName
  generalize uri.toList.takeWhile (· ≠ ';') = front
  split
  · next rest h =>
    constructor
    · intro hnone
      cases hnone
    · intro hnot
      have hall : front.dropWhile (· ≠ ':') = [] := by
        rw [List.dropWhile_eq_nil_iff]
        intro c hc
        simpa using fun heq : c = ':' => hnot (heq ▸ hc)
      rw [hall] at h
      cases h
  · next h =>
    refine ⟨fun _ hmem => ?_, fun _ => rfl⟩
    have hall := List.dropWhile_eq_nil_iff.mp h ':' hmem
    simp at hall

theorem exec_noteDirection (hdir : (data.lookup "remotevideodir").isSome) (s : Ivr) :
    ∃ t, exec (noteDirection data) s = (.ok (), t) ∧ t.screenShared = s.screenShared := by
  rw [noteDirection, exec_bind_ok (by rw [getItem_ok hdir, exec_liftM])]
  split
  · exact ⟨_, rfl, rfl⟩
  · exact ⟨_, rfl, rfl⟩

theorem exec_noteRoom (data : Dict) (s : Ivr) :
    ∃ t, exec (noteRoom data) s = (.ok (), t) ∧ t.screenShared = s.screenShared := by
  unfold noteRoom
  split
  · exact ⟨_, rfl, rfl⟩
  · exact ⟨_, rfl, rfl⟩

theorem noteName_returns {uri : String} (huri : data.lookup "peeruri" = some (.str uri))
    (s : Ivr) : Returns (noteName data) s (Named data) s.screenShared.isSome := by
  unfold noteName Named
  by_cases htruthy : truthy (shownName data) = true
  · rw [if_pos htruthy, if_pos htruthy]
    cases hname : shownName data with
    | str name => exact returns_ok ⟨name, rfl⟩ rfl rfl
    | _ =>
      refine returns_error ?_ rfl
      rintro ⟨name, hstr⟩
      cases hstr
  · have hitem : getItem data "peeruri" = .ok (.str uri) := by rw [getItem, huri]
    rw [if_neg htruthy, if_neg htruthy, Returns, exec_bind_ok (by rw [hitem, exec_liftM])]
    change Returns (nameFromUri uri) s _ _
    unfold nameFromUri
    cases hname : uriName uri with
    | some name =>
      refine returns_ok ⟨uri, huri, ?_⟩ rfl rfl
      by_contra hnot
      rw [(uriName_eq_none_iff uri).mpr hnot] at hname
      cases hname
    | none =>
      refine returns_error ?_ rfl
      rintro ⟨uri', huri', hcolon⟩
      rw [huri] at huri'
      obtain rfl := Json.str.inj (Option.some.inj huri')
      exact (uriName_eq_none_iff uri).mp hname hcolon

theorem callEstablished_returns (hdir : (data.lookup "remotevideodir").isSome)
    {uri : String} (huri : data.lookup "peeruri" = some (.str uri)) (s : Ivr) :
    Returns (callEstablished data) s (Named data) s.screenShared.isSome := by
  obtain ⟨t, ht, hdirection⟩ := exec_noteDirection hdir s
  obtain ⟨u, hu, hroom⟩ := exec_noteRoom data t
  rw [Returns, callEstablished, exec_bind_ok ht, exec_bind_ok hu, ← hdirection, ← hroom]
  exact noteName_returns huri u

theorem videoDisp_returns (hparam : (data.lookup "param").isSome) (s : Ivr) :
    Returns (videoDisp data) s
      (isText (field data "param") "VIDEO_SLIDES_STOP" = true → s.screenShared.isSome = true)
      (s.screenShared.isSome || isText (field data "param") "VIDEO_SLIDES_START") := by
  rw [Returns, videoDisp, exec_bind_ok (by rw [getItem_ok hparam, exec_liftM])]
  by_cases hstart : isText (field data "param") "VIDEO_SLIDES_START" = true
  · rw [slidesStart, if_pos hstart, exec_bind_ok (exec_modify _ _), slidesStop,
      isText_ne hstart (by decide), if_neg Bool.false_ne_true]
    exact returns_ok (fun h => by cases h) rfl (by rw [hstart, Bool.or_true]; rfl)
  · rw [slidesStart, if_neg hstart, exec_bind_ok (exec_pure _ _), slidesStop,
      Bool.eq_false_iff.mpr hstart, Bool.or_false]
    by_cases hstop : isText (field data "param") "VIDEO_SLIDES_STOP" = true
    · rw [if_pos hstop, exec_bind_ok (exec_get _)]
      cases hshared : s.screenShared with
      | none => exact returns_error (fun h => by cases h hstop) rfl
      | some shared =>
        cases shared with
        | false => exact returns_ok (fun _ => rfl) rfl (by rw [hshared])
        | true => exact returns_ok (fun _ => rfl) rfl rfl
    · rw [if_neg hstop]
      exact returns_ok (fun h => absurd h hstop) rfl rfl

theorem chatMsg_notMem (connector : Connector) : "chatMsg" ∉ connector.attributes := by
  cases connector <;> decide

/-- No connector has a queue of chat messages. -/
theorem exec_putChat (text : String) (s : Ivr) :
    exec (putChat text) s = (.error (.attributeError "chatMsg"), s) := by
  rw [putChat, exec_bind_ok (exec_get _)]
  cases s.browsingObj with
  | none => rfl
  | some connector =>
    simp only [if_neg (chatMsg_notMem connector)]
    rfl

theorem chatInput_returns (hchat : ∀ key ∈ ["text", "action"], ∀ v,
    data.lookup key = some v → ∃ s, v = .str s) (s : Ivr) :
    Returns (chatInput data) s ("text" ∉ keys data) s.screenShared.isSome := by
  have htext : ∀ key ∈ ["text", "action"], key ∈ keys data →
      ∃ text, getText data key = .ok text := by
    intro key hkey hmem
    obtain ⟨v, hv⟩ := Option.isSome_iff_exists.mp ((mem_keys_iff data key).mp hmem)
    obtain ⟨text, rfl⟩ := hchat key hkey v hv
    refine ⟨text, ?_⟩
    rw [getText, getItem, hv]
    rfl
  by_cases hmem : "text" ∈ keys data
  · obtain ⟨text, hget⟩ := htext "text" (by decide) hmem
    refine returns_error (not_not.mpr hmem) (e := .attributeError "chatMsg") (t := s) ?_
    have hrun : exec (chatText data) s = (.error (.attributeError "chatMsg"), s) := by
      rw [chatText, if_pos hmem, hget, exec_bind_ok (exec_liftM _ _)]
      exact exec_putChat text s
    exact exec_bind_error hrun
  · rw [Returns, chatInput, chatText, if_neg hmem, exec_bind_ok (exec_pure _ _), chatAction]
    by_cases haction : "action" ∈ keys data
    · obtain ⟨action, hget⟩ := htext "action" (by decide) haction
      rw [if_pos haction, hget, exec_bind_ok (exec_liftM _ _)]
      split
      · exact returns_ok hmem rfl rfl
      · exact returns_ok hmem rfl rfl
    · rw [if_neg haction]
      exact returns_ok hmem rfl rfl

theorem isType_ne {data : Dict} {type other : String} (h : isType data type = true)
    (hne : type ≠ other) : isType data other = false :=
  isText_ne h hne

/-- An event of another type is fine as far as the types it is not are concerned. -/
theorem fine_of_ne {shown : Bool} (hestablished : isType data "CALL_ESTABLISHED" = false)
    (hvideo : isType data "VIDEO_DISP" = false) (hchat : isType data "CHAT_INPUT" = false) :
    Fine shown data :=
  ⟨fun h => by simp [hestablished] at h, fun h => by simp [stopsSlides, hvideo] at h,
    fun h => by simp [hchat] at h⟩

theorem returns_plain {p : Handling (Option Command)} {c : Option Command} {t : Ivr}
    {type : String} (htype : isType data type = true)
    (hother : type ∉ ["CALL_ESTABLISHED", "VIDEO_DISP", "CHAT_INPUT"])
    (hrun : exec p s = (.ok c, t)) (hshared : t.screenShared = s.screenShared) :
    Returns p s (Fine s.screenShared.isSome data) (s.screenShared.isSome || startsSlides data) := by
  have hnot : ∀ other ∈ ["CALL_ESTABLISHED", "VIDEO_DISP", "CHAT_INPUT"],
      isType data other = false := by
    intro other hmem
    refine isType_ne htype fun hsame => hother ?_
    rwa [hsame]
  have hvideo := hnot "VIDEO_DISP" (by decide)
  refine returns_ok (fine_of_ne (hnot _ (by decide)) hvideo (hnot _ (by decide))) hrun ?_
  rw [startsSlides, hvideo, Bool.false_and, Bool.or_false, hshared]

theorem exec_matchesFrom (h : from_uri.isSome → (data.lookup "peeruri").isSome) (s : Ivr) :
    ∃ matched, exec (matchesFrom from_uri data) s = (.ok matched, s) := by
  cases from_uri with
  | none => exact ⟨true, rfl⟩
  | some uri =>
    refine ⟨isText (field data "peeruri") uri, ?_⟩
    rw [matchesFrom, getItem_ok (h rfl), exec_bind_ok (exec_liftM _ _), exec_pure]

theorem Returns.congr {α : Type} {p : Handling α} {P Q : Prop} {shown shown' : Bool}
    (h : Returns p s P shown) (hPQ : P ↔ Q) (hshown : shown = shown') : Returns p s Q shown' := by
  rw [← hPQ, ← hshown]
  exact h

theorem established_returns (h : Carries from_uri data)
    (hestablished : isType data "CALL_ESTABLISHED" = true) (s : Ivr) :
    Returns (do callEstablished data; pure (none : Option Command)) s
      (Fine s.screenShared.isSome data) (s.screenShared.isSome || startsSlides data) := by
  obtain ⟨hdir, uri, huri⟩ := h.established hestablished
  have hvideo : isType data "VIDEO_DISP" = false := isType_ne hestablished (by decide)
  have hchat : isType data "CHAT_INPUT" = false := isType_ne hestablished (by decide)
  refine ((callEstablished_returns hdir huri s).bind fun _ _ => ⟨none, rfl⟩).congr ?_ ?_
  · exact ⟨fun hnamed => ⟨fun _ => hnamed, fun hs => by simp [stopsSlides, hvideo] at hs,
      fun hc => by simp [hchat] at hc⟩, fun hfine => hfine.named hestablished⟩
  · rw [startsSlides, hvideo, Bool.false_and, Bool.or_false]

theorem dtmf_returns (h : Carries from_uri data)
    (hdtmf : isType data "CALL_DTMF_START" = true) (s : Ivr) :
    Returns (do
        let param ← liftM (getText data "param")
        modify fun ivr => { ivr with userInputs := ivr.userInputs ++ [param] }
        pure (none : Option Command)) s (Fine s.screenShared.isSome data)
      (s.screenShared.isSome || startsSlides data) := by
  obtain ⟨key, hkey⟩ := h.dtmf hdtmf
  have hget : getText data "param" = .ok key := by
    rw [getText, getItem, hkey]
    rfl
  refine returns_plain hdtmf (by decide) (c := none)
    (t := { s with userInputs := s.userInputs ++ [key] }) ?_ rfl
  rw [hget, exec_bind_ok (exec_liftM _ _)]
  rfl

theorem timeout_returns (htimeout : isType data "TIME_OUT" = true) (s : Ivr) :
    Returns (do if (← get).name = "" then pure (some Command.quit) else pure none) s
      (Fine s.screenShared.isSome data) (s.screenShared.isSome || startsSlides data) := by
  by_cases hname : s.name = ""
  · refine returns_plain htimeout (by decide) (c := some .quit) (t := s) ?_ rfl
    rw [exec_bind_ok (exec_get _), if_pos hname, exec_pure]
  · refine returns_plain htimeout (by decide) (c := none) (t := s) ?_ rfl
    rw [exec_bind_ok (exec_get _), if_neg hname, exec_pure]

theorem video_returns (h : Carries from_uri data)
    (hvideo : isType data "VIDEO_DISP" = true) (s : Ivr) :
    Returns (do videoDisp data; pure (none : Option Command)) s (Fine s.screenShared.isSome data)
      (s.screenShared.isSome || startsSlides data) := by
  have hestablished : isType data "CALL_ESTABLISHED" = false := isType_ne hvideo (by decide)
  have hchat : isType data "CHAT_INPUT" = false := isType_ne hvideo (by decide)
  refine ((videoDisp_returns (h.video hvideo) s).bind fun _ _ => ⟨none, rfl⟩).congr ?_ ?_
  · constructor
    · intro hslides
      refine ⟨fun he => by simp [hestablished] at he, fun hs => ?_,
        fun hc => by simp [hchat] at hc⟩
      rw [stopsSlides, hvideo, Bool.true_and] at hs
      exact hslides hs
    · intro hfine hstop
      apply hfine.slides
      rw [stopsSlides, hvideo, hstop, Bool.true_and]
  · rw [startsSlides, hvideo, Bool.true_and]

theorem chat_returns (h : Carries from_uri data)
    (hchat : isType data "CHAT_INPUT" = true) (s : Ivr) :
    Returns (do chatInput data; pure (none : Option Command)) s (Fine s.screenShared.isSome data)
      (s.screenShared.isSome || startsSlides data) := by
  have hestablished : isType data "CALL_ESTABLISHED" = false := isType_ne hchat (by decide)
  have hvideo : isType data "VIDEO_DISP" = false := isType_ne hchat (by decide)
  refine ((chatInput_returns (h.chat hchat) s).bind fun _ _ => ⟨none, rfl⟩).congr ?_ ?_
  · exact ⟨fun hnot => ⟨fun he => by simp [hestablished] at he,
      fun hs => by simp [stopsSlides, hvideo] at hs, fun _ => hnot⟩, fun hfine => hfine.chat hchat⟩
  · rw [startsSlides, hvideo, Bool.false_and, Bool.or_false]

theorem eventHandler_returns (h : Carries from_uri data) (s : Ivr) :
    Returns (eventHandler from_uri data) s (Fine s.screenShared.isSome data)
      (s.screenShared.isSome || startsSlides data) := by
  have hrun : ∀ f : Json → Handling (Option Command),
      exec (liftM (getItem data "type") >>= f) s = exec (f (field data "type")) s :=
    fun f => exec_bind_ok (by rw [getItem_ok h.type, exec_liftM])
  unfold eventHandler
  rw [Returns, hrun]
  change Returns (if isType data "CALL_INCOMING" = true then _ else _) s _ _
  by_cases hincoming : isType data "CALL_INCOMING" = true
  · rw [if_pos hincoming]
    obtain ⟨matched, hmatched⟩ := exec_matchesFrom (h.incoming hincoming) s
    refine returns_plain hincoming (by decide) (t := s)
      (c := some (if matched then .accept else .hangup)) ?_ rfl
    rw [exec_bind_ok hmatched, exec_pure]
  rw [if_neg hincoming]
  change Returns (if isType data "CALL_ESTABLISHED" = true then _ else _) s _ _
  by_cases hestablished : isType data "CALL_ESTABLISHED" = true
  · rw [if_pos hestablished]
    exact established_returns h hestablished s
  rw [if_neg hestablished]
  change Returns (if isType data "CALL_DTMF_START" = true then _ else _) s _ _
  by_cases hdtmf : isType data "CALL_DTMF_START" = true
  · rw [if_pos hdtmf]
    exact dtmf_returns h hdtmf s
  rw [if_neg hdtmf]
  change Returns (if isType data "CALL_CLOSED" = true then _ else _) s _ _
  by_cases hclosed : isType data "CALL_CLOSED" = true
  · rw [if_pos hclosed]
    obtain ⟨matched, hmatched⟩ := exec_matchesFrom (h.closed hclosed) s
    refine returns_plain hclosed (by decide) (t := s)
      (c := if matched then some .quit else none) ?_ rfl
    rw [exec_bind_ok hmatched, exec_pure]
  rw [if_neg hclosed]
  change Returns (if isType data "TIME_OUT" = true then _ else _) s _ _
  by_cases htimeout : isType data "TIME_OUT" = true
  · rw [if_pos htimeout]
    exact timeout_returns htimeout s
  rw [if_neg htimeout]
  change Returns (if isType data "VIDEO_DISP" = true then _ else _) s _ _
  by_cases hvideo : isType data "VIDEO_DISP" = true
  · rw [if_pos hvideo]
    exact video_returns h hvideo s
  rw [if_neg hvideo]
  change Returns (if isType data "CHAT_INPUT" = true then _ else _) s _ _
  by_cases hchat : isType data "CHAT_INPUT" = true
  · rw [if_pos hchat]
    exact chat_returns h hchat s
  · rw [if_neg hchat]
    refine returns_ok (fine_of_ne (Bool.eq_false_iff.mpr hestablished)
      (Bool.eq_false_iff.mpr hvideo) (Bool.eq_false_iff.mpr hchat)) (exec_pure none s) ?_
    rw [startsSlides, Bool.eq_false_iff.mpr hvideo, Bool.false_and, Bool.or_false]

end Handlers

section Loop

variable {from_uri : FromUri}

theorem browse_screenShared (step : BrowseStep) (ivr : Ivr) :
    (step.apply ivr).screenShared = ivr.screenShared := by
  cases step <;> rfl

/-- The loop goes on until an empty status exactly when its events are fine one after the other. -/
theorem getEvents_returns_iff (from_uri : FromUri) (turns : List Turn) (s : Ivr)
    (hcarries : ∀ status, Turn.read status ∈ turns → "event" ∈ keys status →
      Carries from_uri status) :
    (∃ t, exec (getEvents from_uri turns) s = (.ok (), t)) ↔
      AllFine s.screenShared.isSome turns := by
  induction turns generalizing s with
  | nil => exact ⟨fun _ => trivial, fun _ => ⟨s, rfl⟩⟩
  | cons turn rest ih =>
    have hrest : ∀ status, Turn.read status ∈ rest → "event" ∈ keys status →
        Carries from_uri status := fun status hmem => hcarries status (List.mem_cons_of_mem _ hmem)
    cases turn with
    | browse step =>
      rw [getEvents, exec_bind_ok (exec_modify _ _), ih _ hrest, browse_screenShared, AllFine]
    | read status =>
      by_cases hempty : status = []
      · rw [getEvents, hempty]
        exact ⟨fun _ => Or.inl rfl, fun _ => ⟨s, rfl⟩⟩
      · have hfull : ¬ status.isEmpty = true := by rwa [List.isEmpty_iff]
        rw [getEvents, if_neg hfull, AllFine, or_iff_right hempty]
        by_cases hevent : "event" ∈ keys status
        · have hreturns := eventHandler_returns (hcarries status List.mem_cons_self hevent) s
          rw [if_pos hevent, decide_eq_true hevent, Bool.true_and]
          by_cases hfine : Fine s.screenShared.isSome status
          · obtain ⟨cmd, t, hrun, hshown⟩ := hreturns.1 hfine
            rw [exec_bind_ok hrun, ih t hrest, hshown]
            exact ⟨fun hall => ⟨fun _ => hfine, hall⟩, fun hall => hall.2⟩
          · obtain ⟨e, t, hrun⟩ := hreturns.2 hfine
            rw [exec_bind_error hrun]
            constructor
            · rintro ⟨u, hu⟩
              cases hu
            · exact fun hall => absurd (hall.1 hevent) hfine
        · rw [if_neg hevent, decide_eq_false hevent, Bool.false_and, Bool.or_false]
          rw [ih s hrest]
          exact ⟨fun hall => ⟨fun he => absurd he hevent, hall⟩, fun hall => hall.2⟩

end Loop

def closedEvent : Dict :=
  [("event", .bool true), ("type", .str "CALL_CLOSED"), ("class", .str "call"),
   ("peeruri", .str "sip:alice@example.org")]

def chatEvent : Dict :=
  [("event", .bool true), ("type", .str "CHAT_INPUT"), ("text", .str "hello")]

def establishedEvent : Dict :=
  [("event", .bool true), ("type", .str "CALL_ESTABLISHED"), ("class", .str "call"),
   ("remotevideodir", .str "sendrecv"), ("peeruri", .str "sip:alice@example.org"),
   ("peerdisplayname", .str "4-1234Alice")]

def slidesEvent (param : String) : Dict :=
  [("event", .bool true), ("type", .str "VIDEO_DISP"), ("param", .str param)]

/-- A call that is answered, shows slides, stops them and ends, while the room is prompted. -/
def slidesCall : List Turn :=
  [.read establishedEvent, .browse (.prompted "1234"), .browse (.attend .jitsi),
    .read (slidesEvent "VIDEO_SLIDES_START"), .browse (.consumed []),
    .read (slidesEvent "VIDEO_SLIDES_STOP"), .read closedEvent, .read []]

theorem carries_slidesCall {status : Dict} (hmem : Turn.read status ∈ slidesCall)
    (hevent : "event" ∈ keys status) : Carries none status := by
  simp only [slidesCall, List.mem_cons, Turn.read.injEq, reduceCtorEq, List.not_mem_nil, false_or,
    or_false] at hmem
  rcases hmem with rfl | rfl | rfl | rfl | rfl
  · exact ⟨rfl, nofun, nofun, fun _ => ⟨rfl, "sip:alice@example.org", rfl⟩,
      fun hd => absurd hd (by decide), by decide, fun hc => absurd hc (by decide)⟩
  · exact ⟨rfl, nofun, nofun, fun he => absurd he (by decide), fun hd => absurd hd (by decide),
      fun _ => rfl, fun hc => absurd hc (by decide)⟩
  · exact ⟨rfl, nofun, nofun, fun he => absurd he (by decide), fun hd => absurd hd (by decide),
      fun _ => rfl, fun hc => absurd hc (by decide)⟩
  · exact ⟨rfl, nofun, nofun, fun he => absurd he (by decide), fun hd => absurd hd (by decide),
      by decide, fun hc => absurd hc (by decide)⟩
  · cases hevent

theorem slidesCall_fine : AllFine false slidesCall := by
  refine .inr ⟨fun _ => ⟨fun _ => ?_, by decide, by decide⟩, ?_⟩
  · exact ⟨"Alice", rfl⟩
  · refine .inr ⟨fun _ => ⟨fun he => absurd he (by decide), by decide, by decide⟩, ?_⟩
    refine .inr ⟨fun _ => ⟨fun he => absurd he (by decide), by decide, by decide⟩, ?_⟩
    exact .inr ⟨fun _ => ⟨fun he => absurd he (by decide), by decide, by decide⟩, .inl rfl⟩

theorem slidesCall_returns :
    ∃ t, exec (getEvents none slidesCall) (Ivr.init none none none false) = (.ok (), t) :=
  (getEvents_returns_iff none slidesCall (Ivr.init none none none false)
    fun _ hmem hevent => carries_slidesCall hmem hevent).mpr slidesCall_fine

/-- Without a meeting there is no queue for the text. -/
theorem chat_ends_loop :
    ¬ ∀ (from_uri : FromUri) (turns : List Turn) (roomName name mixedId : Option String)
      (audioOnly : Bool), (∀ status, Turn.read status ∈ turns → "event" ∈ keys status →
        Carries from_uri status) →
      ∃ t, exec (getEvents from_uri turns) (Ivr.init roomName name mixedId audioOnly) =
        (.ok (), t) := by
  intro h
  obtain ⟨t, hrun⟩ := h none [.read chatEvent] none none none false (by
    intro status hmem _
    obtain rfl := Turn.read.inj (List.mem_singleton.mp hmem)
    refine ⟨by decide, by decide, by decide, fun he => absurd he (by decide),
      fun hd => absurd hd (by decide), by decide, ?_⟩
    intro _ key hkey v hv
    rcases List.mem_pair.mp hkey with rfl | rfl
    · exact ⟨"hello", (Option.some.inj hv).symm⟩
    · cases hv)
  cases hrun

end EventHandler
