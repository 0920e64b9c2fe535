import Mathlib.Data.List.Forall2
import Mathlib.Data.Nat.Digits.Lemmas
import Mathlib.Tactic.Common
import SIPMediaGW.LabelledExecutions

/-! # The page on which a caller chooses a platform and a room

`ivr.js` reads keys one at a time; a room that it opens asks a mapper for its conference and a
server for its token (`room.js`), and is handed over when both are done. `IVR.prompt` polls the
page. Each promise goes on in a step of its own, after any others. The language is one of the two
that the page has texts in, `fr` and `en`: with another it throws where a platform is chosen. -/
namespace IvrPage

open LabelledExecutions

/-- A platform, under the number that the page shows. -/
structure Domain where
  id : ℕ
  key : String
  name : String
  domain : String
  deriving DecidableEq, Repr

/-- What of the configuration the page and its rooms read. -/
structure Config where
  webrtcDomains : List (String × String × String)
  minIvrDigitLength : List Char
  mapper : Bool
  authUrl : Bool
  secureRoom : List Char → Bool
  jwt : String

def isBlank (c : Char) : Bool :=
  decide (c ∈ ['\t', '\n', '\x0b', '\x0c', '\r', ' ', '\u00a0', '\u1680', '\u2028', '\u2029',
    '\u202f', '\u205f', '\u3000', '\ufeff']) || (decide ('\u2000' ≤ c) && decide (c ≤ '\u200a'))

def digitValue (ds : List Char) : ℕ := ds.foldl (fun n c => 10 * n + (c.toNat - '0'.toNat)) 0

def leadingNumber (cs : List Char) : Option ℤ :=
  match cs.takeWhile Char.isDigit with
  | [] => none
  | ds => some (digitValue ds)

/-- `parseInt(text, 10)`: what follows the digits is dropped, no digit is `NaN`. -/
def parseInt (cs : List Char) : Option ℤ :=
  match cs.dropWhile isBlank with
  | '-' :: rest => (leadingNumber rest).map (- ·)
  | '+' :: rest => leadingNumber rest
  | rest => leadingNumber rest

def expectedLength (cfg : Config) : ℤ := (parseInt cfg.minIvrDigitLength).getD 0

def LongEnough (cfg : Config) (roomId : List Char) : Prop :=
  expectedLength cfg = 0 ∨ expectedLength cfg ≤ roomId.length

instance (cfg : Config) (roomId : List Char) : Decidable (LongEnough cfg roomId) :=
  inferInstanceAs (Decidable (_ ∨ _))

/-- The platforms of `parseDomains` from a number on. -/
def parseDomains : ℕ → List (String × String × String) → List Domain
  | _, [] => []
  | index, (key, name, domain) :: rest =>
    ⟨index, key, name, domain⟩ :: parseDomains (index + 1) rest

def domains (cfg : Config) : List Domain := parseDomains 1 cfg.webrtcDomains

def numbered (cfg : Config) (n : ℤ) : Option Domain := (domains cfg).find? fun d => d.id = n

/-- The characters of a code: between the letters, the slash to the underscore is a range. -/
def accepted (c : Char) : Bool :=
  (decide ('a' ≤ c) && decide (c ≤ 'z')) || (decide ('A' ≤ c) && decide (c ≤ 'Z')) ||
    (decide ('0' ≤ c) && decide (c ≤ '9')) || (decide ('/' ≤ c) && decide (c ≤ '_')) ||
    decide (c ∈ ['-', '_', '.'])

inductive Stage where
  | domain
  | room
  deriving DecidableEq, Repr

/-- How far `initRoom` has come: a request is out, or its promise is resolved and the next step of
the room waits for its turn. -/
inductive Phase where
  | mapping
  | refused
  | mapped
  | token
  | prepared
  | ready
  deriving DecidableEq, Repr

structure Room where
  webrtcDomain : String
  roomId : List Char
  roomName : List Char
  roomToken : String
  mappedDomain : Option (List Char)
  phase : Phase
  deriving DecidableEq, Repr

/-- The line under the digits. -/
inductive Status where
  | clear
  | invalid (text : List Char)
  | incomplete (count : ℕ) (expected : ℤ)
  | confirmContinue (text : List Char)
  deriving DecidableEq, Repr

/-- A room whose mapping failed waits for `#` under its code. -/
structure Waiting where
  room : ℕ
  roomId : List Char
  deriving DecidableEq, Repr

/-- The rooms are in the order they were opened in, and `window.room` is a position in it. -/
structure Page where
  inputDigits : List Char
  stage : Stage
  selectedDomain : Option Domain
  pendingRoomId : Option (List Char)
  waitingConfirm : Option Waiting
  browsing : Option String
  inputRoomName : List Char
  rooms : List Room
  room : Option ℕ
  listening : Bool
  status : Status
  deriving DecidableEq, Repr

section Input

variable (cfg : Config)

/-- The first step of a room that needs no mapping, or has one. -/
def tokenPhase (roomName : List Char) : Phase :=
  if cfg.authUrl then
    if cfg.secureRoom roomName then .token else .prepared
  else .ready

/-- `new Room` and `initRoom` up to the first request. -/
def initRoom (d : Domain) (roomId : List Char) : Room where
  webrtcDomain := d.domain
  roomId := roomId
  roomName := roomId
  roomToken := cfg.jwt
  mappedDomain := none
  phase := if cfg.mapper then .mapping else tokenPhase cfg roomId

/-- The success callback of the room at a position. -/
def Page.handedOver (s : Page) (i : ℕ) : Page := { s with room := some i, listening := false }

def Page.setRoom (s : Page) (i : ℕ) (r : Room) : Page := { s with rooms := s.rooms.set i r }

/-- A room that is ready is handed over at once. -/
def Page.settled (s : Page) (i : ℕ) (r : Room) : Page :=
  if r.phase = .ready then s.handedOver i else s

def openRoom (s : Page) : Page :=
  if LongEnough cfg s.inputDigits then
    match s.selectedDomain with
    | none => s
    | some d =>
      let r := initRoom cfg d s.inputDigits
      { s with rooms := s.rooms ++ [r] }.settled s.rooms.length r
  else { s with status := .incomplete s.inputDigits.length (expectedLength cfg) }

/-- `waitingConfirm.proceed()`: a promise that is resolved stays so. -/
def Page.proceed (s : Page) (i : ℕ) : Page :=
  match s.rooms[i]? with
  | some r => if r.phase = .refused then s.setRoom i { r with phase := .mapped } else s
  | none => s

/-- The digits that `#` enters: those the console has sent, once it has sent some. -/
def Page.entered (s : Page) : List Char :=
  if s.inputRoomName = [] then s.inputDigits else s.inputRoomName

/-- The room that `#` confirms. -/
def Page.confirmed (s : Page) : Option ℕ :=
  s.waitingConfirm.bind fun w => if s.entered = w.roomId then some w.room else none

def enterRoom (s : Page) : Page :=
  let s := { s with inputDigits := s.entered }
  match s.confirmed with
  | some i => { s.proceed i with waitingConfirm := none }
  | none => openRoom cfg s

/-- A key once a platform is chosen. -/
def roomInput (s : Page) (key : List Char) : Page :=
  match key with
  | [c] =>
    if accepted c then { s with inputDigits := s.inputDigits ++ [c], status := .clear }
    else if c = '*' then { s with inputDigits := s.inputDigits.dropLast, status := .clear }
    else if c = '#' then enterRoom cfg s
    else { s with status := .clear }
  | _ => { s with status := .clear }

def Page.withDomain (s : Page) (d : Domain) : Page :=
  { s with selectedDomain := some d, browsing := some d.key, inputDigits := [], stage := .room }

def roomKeys (s : Page) (cs : List Char) : Page := cs.foldl (fun s c => roomInput cfg s [c]) s

/-- A platform is chosen, and the code that the link holds is entered. -/
def chooseDomain (s : Page) (d : Domain) : Page :=
  match s.pendingRoomId with
  | none => s.withDomain d
  | some roomId => { roomKeys cfg (s.withDomain d) (roomId ++ ['#']) with pendingRoomId := none }

def domainInput (s : Page) (key : List Char) : Page :=
  match key with
  | [c] =>
    if accepted c then { s with inputDigits := [c], status := .clear }
    else if c = '*' then { s with inputDigits := s.inputDigits.dropLast, status := .clear }
    else if c = '#' then
      match (parseInt s.inputDigits).bind (numbered cfg) with
      | some d => chooseDomain cfg s d
      | none => { s with status := .invalid s.inputDigits }
    else { s with status := .clear }
  | _ => { s with status := .clear }

def handleInput (s : Page) (key : List Char) : Page :=
  match s.stage with
  | .domain => domainInput cfg s key
  | .room => roomInput cfg s key

def handleKeys (s : Page) (cs : List Char) : Page := cs.foldl (fun s c => handleInput cfg s [c]) s

end Input

/-- The parameters of the address; one that is missing is empty. -/
structure Link where
  domainId : List Char
  domainKey : List Char
  roomId : List Char
  mixedId : List Char
  deriving DecidableEq, Repr

/-- One digit from 1 on. -/
def isChoice : List Char → Bool
  | [c] => decide ('1' ≤ c) && decide (c ≤ '9')
  | _ => false

def isDigitText : List Char → Bool
  | [c] => c.isDigit
  | _ => false

/-- `mixedId`, cut into a platform and a room. -/
def mixedParts (mixedId : List Char) : List Char × List Char :=
  if isChoice mixedId then (mixedId, [])
  else
    match mixedId.splitOnP fun c => c = '#' || c = '.' with
    | [d, r] => (d, r)
    | _ => ([], mixedId)

/-- The key of a number in the dictionary of platforms. -/
def idText (d : Domain) : List Char := Nat.toDigits 10 d.id

def keyed (cfg : Config) (text : List Char) : Option Domain :=
  (domains cfg).find? fun d => idText d = text

/-- The platform of `mixedId`. -/
def mixedDomain (cfg : Config) (link : Link) : Option Domain :=
  let d := (mixedParts link.mixedId).1
  if isChoice d then keyed cfg d else none

/-- The platform of `domainKey`, or else of `domainId`. -/
def linkDomain (cfg : Config) (link : Link) : Option Domain :=
  if link.domainKey ≠ [] then (domains cfg).find? fun d => d.key.toList = link.domainKey
  else keyed cfg link.domainId

def pendingRoomId (link : Link) : Option (List Char) :=
  let r := (mixedParts link.mixedId).2
  if r ≠ [] ∧ isDigitText r = false then some r
  else if link.roomId ≠ [] ∧ link.roomId ≠ ['0'] then some link.roomId
  else none

def blank (pending : Option (List Char)) : Page where
  inputDigits := []
  stage := .domain
  selectedDomain := none
  pendingRoomId := pending
  waitingConfirm := none
  browsing := none
  inputRoomName := []
  rooms := []
  room := none
  listening := true
  status := .clear

section Start

variable (cfg : Config)

/-- The page types the number of a platform and `#`. -/
def selected (s : Page) (d : Domain) : Page :=
  handleKeys cfg { s with selectedDomain := some d } (idText d ++ ['#'])

def selectedIf (s : Page) : Option Domain → Page
  | none => s
  | some d => selected cfg s d

/-- The one platform there is, where none is chosen. -/
def onlyDomain (s : Page) : Option Domain :=
  match s.selectedDomain, domains cfg with
  | none, [d] => some d
  | _, _ => none

def initIVR (link : Link) : Page :=
  let s := selectedIf cfg (blank (pendingRoomId link)) (mixedDomain cfg link)
  let s := selectedIf cfg s (linkDomain cfg link)
  selectedIf cfg s (onlyDomain cfg s)

end Start

/-- What the mapper answers under the names that are read; one that is missing is empty. -/
structure Mapping where
  conference : List Char
  url : List Char
  meetingInstance : List Char
  text : List Char
  deriving DecidableEq, Repr

inductive MapperReply where
  | failed (reason : List Char)
  | unreadable
  | data (m : Mapping)
  deriving DecidableEq, Repr

inductive TokenReply where
  | failed (reason : List Char)
  | unreadable
  | data (jwt : String)
  deriving DecidableEq, Repr

/-- A text before and after the first place of another one. -/
def cutAt (sep : List Char) : List Char → Option (List Char × List Char)
  | [] => none
  | c :: cs =>
    if sep.isPrefixOf (c :: cs) then some ([], (c :: cs).drop sep.length)
    else (cutAt sep cs).map fun parts => (c :: parts.1, parts.2)

/-- `conference.split('@conference.')[1]`. -/
def afterConference (conference : List Char) : Option (List Char) :=
  (cutAt "@conference.".toList conference).map fun parts =>
    ((cutAt "@conference.".toList parts.2).map Prod.fst).getD parts.2

section Runs

variable (cfg : Config)

/-- A room once its mapping is answered: no conference is a refusal, a network error none. -/
def mappedRoom (r : Room) : MapperReply → Room
  | .data m =>
    if m.conference = [] then { r with phase := .refused }
    else
      { r with
        phase := .mapped
        roomName := if m.url = [] then m.conference.takeWhile (· ≠ '@') else m.url
        mappedDomain :=
          if m.meetingInstance = [] then afterConference m.conference else some m.meetingInstance }
  | _ => { r with phase := .mapped }

def mapperReplied (s : Page) (i : ℕ) (r : Room) (reply : MapperReply) : Page :=
  let s := match reply with
    | .failed reason => { s with status := .invalid reason }
    | .unreadable => s
    | .data m =>
      if m.conference = [] then
        { s with waitingConfirm := some ⟨i, r.roomId⟩, status := .confirmContinue m.text }
      else s
  s.setRoom i (mappedRoom r reply)

def tokenRoom (r : Room) : TokenReply → Room
  | .data jwt => { r with phase := .prepared, roomToken := if jwt = "" then r.roomToken else jwt }
  | _ => { r with phase := .prepared }

def tokenReplied (s : Page) (i : ℕ) (r : Room) (reply : TokenReply) : Page :=
  let s := match reply with
    | .failed reason => { s with status := .invalid reason }
    | _ => s
  s.setRoom i (tokenRoom r reply)

/-- The gateway's thread (`IVR.prompt`) and the page that it polls. -/
structure Session where
  page : Page
  browsingName : String
  result : Option (String × Room)
  deriving DecidableEq, Repr

inductive Event where
  | key (key : List Char)
  | roomName (name : List Char)
  | mapper (i : ℕ) (reply : MapperReply)
  | token (i : ℕ) (reply : TokenReply)
  | resume (i : ℕ)
  | poll
  deriving DecidableEq, Repr

/-- A key reaches the page while it listens. -/
def keyEvent (s : Page) (key : List Char) : Page :=
  if s.listening then handleInput cfg s key else s

/-- The command of the console: the name, then `#`. -/
def sendRoomName (s : Page) (name : List Char) : Page :=
  keyEvent cfg { s with inputRoomName := name } ['#']

/-- The room at a position, where it is in a phase. -/
def Page.roomIn (s : Page) (i : ℕ) (phase : Phase) : Option Room :=
  s.rooms[i]?.filter fun r => r.phase = phase

/-- What a room does once its promise is resolved. -/
def resumed (s : Page) (i : ℕ) : Option Page :=
  match s.rooms[i]? with
  | some r =>
    match r.phase with
    | .mapped =>
      let r := { r with phase := tokenPhase cfg r.roomName }
      some ((s.setRoom i r).settled i r)
    | .prepared => some ((s.setRoom i { r with phase := .ready }).handedOver i)
    | _ => none
  | none => none

def polled (s : Session) : Session :=
  if s.browsingName = "" then { s with browsingName := s.page.browsing.getD "" }
  else
    match s.page.room.bind fun i => s.page.rooms[i]? with
    | some r => { s with result := some (s.browsingName, r) }
    | none => s

/-- A key, a command, an answer, a step of a room or a poll, until the poll has a room. -/
def next (s : Session) (e : Event) : Option Session :=
  if s.result.isSome then none
  else
    match e with
    | .key key => some { s with page := keyEvent cfg s.page key }
    | .roomName name => some { s with page := sendRoomName cfg s.page name }
    | .mapper i reply =>
      (s.page.roomIn i .mapping).map fun r => { s with page := mapperReplied s.page i r reply }
    | .token i reply =>
      (s.page.roomIn i .token).map fun r => { s with page := tokenReplied s.page i r reply }
    | .resume i => (resumed cfg s.page i).map fun page => { s with page := page }
    | .poll => some (polled s)

def loaded (link : Link) : Session := ⟨initIVR cfg link, "", none⟩

def Reachable (link : Link) (s : Session) : Prop :=
  Execution (StepOf (next cfg)) (loaded cfg link) s

end Runs

section Changes

variable {cfg : Config} {s t : Page} {r r' : Room} {i : ℕ}

/-- A room at a later step: where and under which code it was opened does not change. -/
structure Later (cfg : Config) (r r' : Room) : Prop where
  notReady : r.phase ≠ .ready
  webrtcDomain : r'.webrtcDomain = r.webrtcDomain
  roomId : r'.roomId = r.roomId
  roomName : cfg.mapper = false → r.phase = .mapping ∨ r'.roomName = r.roomName
  refused : r'.phase = .refused → r.phase = .mapping
  mapping : r'.phase ≠ .mapping

/-- The rooms of a page after one step of it. -/
inductive RoomsNext (cfg : Config) (s t : Page) : Prop where
  | same (rooms : t.rooms = s.rooms) (room : t.room = s.room)
  | later {i : ℕ} {r r' : Room} (found : s.rooms[i]? = some r) (later : Later cfg r r')
      (rooms : t.rooms = s.rooms.set i r')
      (room : t.room = if r'.phase = .ready then some i else s.room)
  | opened {d : Domain} {roomId : List Char} (long : LongEnough cfg roomId)
      (selected : s.selectedDomain = some d)
      (rooms : t.rooms = s.rooms ++ [initRoom cfg d roomId])
      (room : t.room =
        if (initRoom cfg d roomId).phase = .ready then some s.rooms.length else s.room)

/-- A step of a page whose platform stays. -/
structure Change (cfg : Config) (s t : Page) : Prop where
  stage : t.stage = s.stage
  selectedDomain : t.selectedDomain = s.selectedDomain
  browsing : t.browsing = s.browsing
  rooms : RoomsNext cfg s t

@[simp] theorem settled_eq (s : Page) (i : ℕ) (r : Room) : s.settled i r =
    { s with room := if r.phase = .ready then some i else s.room
             listening := if r.phase = .ready then false else s.listening } := by
  unfold Page.settled Page.handedOver
  split
  · rfl
  · rfl

theorem Change.of_same (hstage : t.stage = s.stage)
    (hselected : t.selectedDomain = s.selectedDomain) (hbrowsing : t.browsing = s.browsing)
    (hrooms : t.rooms = s.rooms) (hroom : t.room = s.room) : Change cfg s t :=
  ⟨hstage, hselected, hbrowsing, .same hrooms hroom⟩

/-- What the digits and the name of the console are does not matter to a change. -/
theorem Change.of_digits {digits name : List Char}
    (h : Change cfg { s with inputDigits := digits, inputRoomName := name } t) :
    Change cfg s t := by
  obtain ⟨hstage, hselected, hbrowsing, hrooms⟩ := h
  refine ⟨hstage, hselected, hbrowsing, ?_⟩
  cases hrooms with
  | same hsame hroom => exact .same hsame hroom
  | later hfound hlater hset hroom => exact .later hfound hlater hset hroom
  | opened hlong hchosen happend hroom => exact .opened hlong hchosen happend hroom

theorem change_openRoom (cfg : Config) (s : Page) : Change cfg s (openRoom cfg s) := by
  unfold openRoom
  by_cases hlong : LongEnough cfg s.inputDigits
  · rw [if_pos hlong]
    cases hselected : s.selectedDomain with
    | none => exact .of_same rfl rfl rfl rfl rfl
    | some d =>
      simp only [settled_eq]
      exact ⟨rfl, hselected.symm, rfl, .opened hlong hselected rfl rfl⟩
  · rw [if_neg hlong]
    exact .of_same rfl rfl rfl rfl rfl

theorem change_proceed (cfg : Config) (s : Page) (i : ℕ) :
    Change cfg s { s.proceed i with waitingConfirm := none } := by
  unfold Page.proceed
  cases hroom : s.rooms[i]? with
  | none => exact .of_same rfl rfl rfl rfl rfl
  | some r =>
    by_cases hrefused : r.phase = .refused
    · simp only [if_pos hrefused]
      have hready : r.phase ≠ .ready := by
        rw [hrefused]
        decide
      have hlater : Later cfg r { r with phase := .mapped } :=
        ⟨hready, rfl, rfl, fun _ => .inr rfl, Phase.noConfusion, Phase.noConfusion⟩
      exact ⟨rfl, rfl, rfl, .later hroom hlater rfl rfl⟩
    · simp only [if_neg hrefused]
      exact .of_same rfl rfl rfl rfl rfl

theorem change_enterRoom (cfg : Config) (s : Page) : Change cfg s (enterRoom cfg s) := by
  unfold enterRoom
  dsimp only
  split
  · next i _ => exact (change_proceed cfg { s with inputDigits := s.entered } i).of_digits
  · exact (change_openRoom cfg { s with inputDigits := s.entered }).of_digits

theorem change_roomInput (cfg : Config) (s : Page) (key : List Char) :
    Change cfg s (roomInput cfg s key) := by
  unfold roomInput
  split
  · split_ifs
    · exact .of_same rfl rfl rfl rfl rfl
    · exact .of_same rfl rfl rfl rfl rfl
    · exact change_enterRoom cfg s
    · exact .of_same rfl rfl rfl rfl rfl
  · exact .of_same rfl rfl rfl rfl rfl

theorem later_mappedRoom (cfg : Config) (reply : MapperReply) (h : r.phase = .mapping) :
    Later cfg r (mappedRoom r reply) ∧ (mappedRoom r reply).phase ≠ .ready := by
  have hready : r.phase ≠ .ready := by
    rw [h]
    exact Phase.noConfusion
  have hmapped (name : List Char) (domain : Option (List Char)) :
      Later cfg r { r with phase := .mapped, roomName := name, mappedDomain := domain } :=
    ⟨hready, rfl, rfl, fun _ => .inl h, Phase.noConfusion, Phase.noConfusion⟩
  cases reply with
  | failed reason => exact ⟨hmapped r.roomName r.mappedDomain, Phase.noConfusion⟩
  | unreadable => exact ⟨hmapped r.roomName r.mappedDomain, Phase.noConfusion⟩
  | data m =>
    by_cases hconference : m.conference = []
    · simp only [mappedRoom, if_pos hconference]
      exact ⟨⟨hready, rfl, rfl, fun _ => .inl h, fun _ => h, Phase.noConfusion⟩, Phase.noConfusion⟩
    · simp only [mappedRoom, if_neg hconference]
      exact ⟨hmapped _ _, Phase.noConfusion⟩

theorem change_mapperReplied (reply : MapperReply) (hroom : s.rooms[i]? = some r)
    (hphase : r.phase = .mapping) : Change cfg s (mapperReplied s i r reply) := by
  obtain ⟨hlater, hready⟩ := later_mappedRoom cfg reply hphase
  have hsame : (if (mappedRoom r reply).phase = .ready then some i else s.room) = s.room :=
    if_neg hready
  unfold mapperReplied
  split
  · exact ⟨rfl, rfl, rfl, .later hroom hlater rfl hsame.symm⟩
  · exact ⟨rfl, rfl, rfl, .later hroom hlater rfl hsame.symm⟩
  · split
    · exact ⟨rfl, rfl, rfl, .later hroom hlater rfl hsame.symm⟩
    · exact ⟨rfl, rfl, rfl, .later hroom hlater rfl hsame.symm⟩

theorem later_tokenRoom (cfg : Config) (reply : TokenReply) (h : r.phase = .token) :
    Later cfg r (tokenRoom r reply) ∧ (tokenRoom r reply).phase ≠ .ready := by
  have hready : r.phase ≠ .ready := by
    rw [h]
    exact Phase.noConfusion
  have hprepared (token : String) : Later cfg r { r with phase := .prepared, roomToken := token } :=
    ⟨hready, rfl, rfl, fun _ => .inr rfl, Phase.noConfusion, Phase.noConfusion⟩
  cases reply with
  | failed reason => exact ⟨hprepared r.roomToken, Phase.noConfusion⟩
  | unreadable => exact ⟨hprepared r.roomToken, Phase.noConfusion⟩
  | data jwt => exact ⟨hprepared _, Phase.noConfusion⟩

theorem change_tokenReplied (reply : TokenReply) (hroom : s.rooms[i]? = some r)
    (hphase : r.phase = .token) : Change cfg s (tokenReplied s i r reply) := by
  obtain ⟨hlater, hready⟩ := later_tokenRoom cfg reply hphase
  have hsame : (if (tokenRoom r reply).phase = .ready then some i else s.room) = s.room :=
    if_neg hready
  unfold tokenReplied
  split
  · exact ⟨rfl, rfl, rfl, .later hroom hlater rfl hsame.symm⟩
  · exact ⟨rfl, rfl, rfl, .later hroom hlater rfl hsame.symm⟩

theorem tokenPhase_cases (cfg : Config) (roomName : List Char) :
    tokenPhase cfg roomName = .token ∨ tokenPhase cfg roomName = .prepared ∨
      tokenPhase cfg roomName = .ready := by
  unfold tokenPhase
  split_ifs
  · exact .inl rfl
  · exact .inr (.inl rfl)
  · exact .inr (.inr rfl)

theorem tokenPhase_ne (cfg : Config) (roomName : List Char) :
    tokenPhase cfg roomName ≠ .mapping ∧ tokenPhase cfg roomName ≠ .refused := by
  rcases tokenPhase_cases cfg roomName with h | h | h <;> rw [h] <;> decide

theorem change_resumed (h : resumed cfg s i = some t) : Change cfg s t := by
  unfold resumed at h
  cases hroom : s.rooms[i]? with
  | none => simp only [hroom, reduceCtorEq] at h
  | some r =>
    simp only [hroom] at h
    split at h
    · next hphase =>
      obtain rfl := Option.some.inj h
      obtain ⟨hmapping, hrefused⟩ := tokenPhase_ne cfg r.roomName
      have hlater : Later cfg r { r with phase := tokenPhase cfg r.roomName } := by
        refine ⟨?_, rfl, rfl, fun _ => .inr rfl, fun hnext => absurd hnext hrefused, hmapping⟩
        rw [hphase]
        exact Phase.noConfusion
      simp only [settled_eq]
      exact ⟨rfl, rfl, rfl, .later hroom hlater rfl rfl⟩
    · next hphase =>
      obtain rfl := Option.some.inj h
      have hlater : Later cfg r { r with phase := .ready } := by
        refine ⟨?_, rfl, rfl, fun _ => .inr rfl, Phase.noConfusion, Phase.noConfusion⟩
        rw [hphase]
        exact Phase.noConfusion
      exact ⟨rfl, rfl, rfl, .later hroom hlater rfl rfl⟩
    · cases h

end Changes

section Platforms

variable {cfg : Config} {s t : Page} {d : Domain}

theorem mem_parseDomains {index : ℕ} {raw : List (String × String × String)}
    (h : d ∈ parseDomains index raw) :
    index ≤ d.id ∧ (parseDomains index raw).find? (fun e => e.id = (d.id : ℤ)) = some d := by
  induction raw generalizing index with
  | nil => cases h
  | cons entry rest ih =>
    obtain ⟨key, name, domain⟩ := entry
    rw [parseDomains] at h ⊢
    rcases List.mem_cons.mp h with rfl | hmem
    · exact ⟨le_rfl, List.find?_cons_of_pos (decide_eq_true rfl)⟩
    · obtain ⟨hle, hfind⟩ := ih hmem
      have hne : (index : ℤ) ≠ d.id := by omega
      refine ⟨by omega, ?_⟩
      rw [List.find?_cons, decide_eq_false hne]
      exact hfind

theorem numbered_of_mem (h : d ∈ domains cfg) : numbered cfg d.id = some d := (mem_parseDomains h).2

theorem one_le_id (h : d ∈ domains cfg) : 1 ≤ d.id := (mem_parseDomains h).1

theorem mem_of_numbered {n : ℤ} (h : numbered cfg n = some d) : d ∈ domains cfg ∧ d.id = n := by
  have hid := List.find?_some h
  exact ⟨List.mem_of_find?_eq_some h, of_decide_eq_true hid⟩

theorem parseInt_digitChar {n : ℕ} (h : n < 10) : parseInt [n.digitChar] = some (n : ℤ) := by
  have hall : ∀ k : Fin 10, parseInt [Nat.digitChar k] = some (k.val : ℤ) := by decide +kernel
  exact hall ⟨n, h⟩

theorem accepted_digitChar {n : ℕ} (h : n < 10) : accepted n.digitChar = true := by
  have hall : ∀ k : Fin 10, accepted (Nat.digitChar k) = true := by decide
  exact hall ⟨n, h⟩

theorem leadingNumber_le {cs : List Char} {n : ℤ} (hlen : cs.length ≤ 1)
    (h : leadingNumber cs = some n) : 0 ≤ n ∧ n ≤ 9 := by
  match cs, hlen with
  | [], _ => cases h
  | [c], _ =>
    unfold leadingNumber at h
    by_cases hdigit : c.isDigit = true
    · simp only [List.takeWhile_cons, if_pos hdigit, List.takeWhile_nil] at h
      obtain rfl := Option.some.inj h
      obtain ⟨hlow, hhigh⟩ := Char.isDigit_iff_toNat.mp hdigit
      have hvalue : digitValue [c] = 10 * 0 + (c.toNat - '0'.toNat) := rfl
      have hzero : '0'.toNat = 48 := rfl
      have hnine : '9'.toNat = 57 := rfl
      omega
    · simp only [List.takeWhile_cons, if_neg hdigit, reduceCtorEq] at h

/-- One character names no platform after 9. -/
theorem parseInt_le {cs : List Char} {n : ℤ} (hlen : cs.length ≤ 1) (h : parseInt cs = some n) :
    n ≤ 9 := by
  have hrest : (cs.dropWhile isBlank).length ≤ 1 :=
    (List.dropWhile_suffix isBlank).length_le.trans hlen
  unfold parseInt at h
  split at h
  · next rest heq =>
    rw [heq, List.length_cons] at hrest
    obtain ⟨m, hm, rfl⟩ := Option.map_eq_some_iff.mp h
    have hle := leadingNumber_le (by omega) hm
    omega
  · next rest heq =>
    rw [heq, List.length_cons] at hrest
    exact (leadingNumber_le (by omega) h).2
  · exact (leadingNumber_le hrest h).2

end Platforms

section Coherence

variable {cfg : Config} {s t : Page} {d : Domain}

/-- Before a platform is chosen: at most one digit, and no room. -/
structure Unchosen (s : Page) : Prop where
  stage : s.stage = .domain
  browsing : s.browsing = none
  rooms : s.rooms = []
  room : s.room = none
  inputDigits : s.inputDigits.length ≤ 1

/-- The platform of `window.browsing` is that of every room, and of the next one. -/
structure Chosen (cfg : Config) (d : Domain) (s : Page) : Prop where
  stage : s.stage = .room
  mem : d ∈ domains cfg
  id : d.id ≤ 9
  browsing : s.browsing = some d.key
  selected : ∃ e, s.selectedDomain = some e ∧ e.domain = d.domain
  rooms : ∀ r ∈ s.rooms, r.webrtcDomain = d.domain

structure RoomSound (cfg : Config) (r : Room) : Prop where
  long : LongEnough cfg r.roomId
  unmapped : cfg.mapper = false → r.phase ≠ .mapping ∧ r.roomName = r.roomId

structure Sound (cfg : Config) (s : Page) : Prop where
  rooms : ∀ r ∈ s.rooms, RoomSound cfg r
  room : ∀ i, s.room = some i → ∃ r, s.rooms[i]? = some r ∧ r.phase = .ready

theorem roomSound_initRoom {roomId : List Char} (h : LongEnough cfg roomId) :
    RoomSound cfg (initRoom cfg d roomId) := by
  refine ⟨h, fun hmapper => ⟨?_, rfl⟩⟩
  simp only [initRoom, hmapper, Bool.false_eq_true, if_false]
  exact (tokenPhase_ne cfg roomId).1

theorem RoomSound.later {r r' : Room} (h : RoomSound cfg r) (hlater : Later cfg r r') :
    RoomSound cfg r' := by
  refine ⟨hlater.roomId ▸ h.long, fun hmapper => ⟨hlater.mapping, ?_⟩⟩
  obtain ⟨hphase, hname⟩ := h.unmapped hmapper
  rcases hlater.roomName hmapper with hmapping | hsame
  · exact absurd hmapping hphase
  · rw [hsame, hlater.roomId, hname]

theorem Change.chosen (h : Change cfg s t) (hs : Chosen cfg d s) : Chosen cfg d t := by
  obtain ⟨e, hselected, hdomain⟩ := hs.selected
  refine ⟨h.stage.trans hs.stage, hs.mem, hs.id, h.browsing.trans hs.browsing,
    ⟨e, h.selectedDomain.trans hselected, hdomain⟩, fun r hr => ?_⟩
  cases h.rooms with
  | same hrooms _ =>
    rw [hrooms] at hr
    exact hs.rooms r hr
  | later hfound hlater hrooms _ =>
    rw [hrooms] at hr
    rcases List.mem_or_eq_of_mem_set hr with hmem | rfl
    · exact hs.rooms r hmem
    · exact hlater.webrtcDomain.trans (hs.rooms _ (List.mem_of_getElem? hfound))
  | opened _ hchosen hrooms _ =>
    rw [hrooms] at hr
    rcases List.mem_append.mp hr with hmem | hmem
    · exact hs.rooms r hmem
    · obtain rfl := List.mem_singleton.mp hmem
      obtain rfl := Option.some.inj (hchosen.symm.trans hselected)
      exact hdomain

theorem Change.sound (h : Change cfg s t) (hs : Sound cfg s) : Sound cfg t := by
  cases h.rooms with
  | same hrooms hroom =>
    refine ⟨fun r hr => hs.rooms r (hrooms ▸ hr), fun i hi => ?_⟩
    rw [hrooms]
    exact hs.room i (hroom.symm.trans hi)
  | @later i r r' hfound hlater hrooms hroom =>
    obtain ⟨hlt, -⟩ := List.getElem?_eq_some_iff.mp hfound
    constructor
    · intro q hq
      rw [hrooms] at hq
      rcases List.mem_or_eq_of_mem_set hq with hmem | rfl
      · exact hs.rooms q hmem
      · exact (hs.rooms r (List.mem_of_getElem? hfound)).later hlater
    · intro j hj
      rw [hrooms]
      by_cases hready : r'.phase = .ready
      · rw [hroom, if_pos hready] at hj
        obtain rfl := Option.some.inj hj
        exact ⟨r', List.getElem?_set_self hlt, hready⟩
      · rw [hroom, if_neg hready] at hj
        obtain ⟨q, hq, hphase⟩ := hs.room j hj
        have hne : i ≠ j := by
          rintro rfl
          obtain rfl := Option.some.inj (hfound.symm.trans hq)
          exact hlater.notReady hphase
        exact ⟨q, (List.getElem?_set_ne hne).trans hq, hphase⟩
  | @opened e roomId hlong _ hrooms hroom =>
    constructor
    · intro q hq
      rw [hrooms] at hq
      rcases List.mem_append.mp hq with hmem | hmem
      · exact hs.rooms q hmem
      · obtain rfl := List.mem_singleton.mp hmem
        exact roomSound_initRoom hlong
    · intro j hj
      rw [hrooms]
      by_cases hready : (initRoom cfg e roomId).phase = .ready
      · rw [hroom, if_pos hready] at hj
        obtain rfl := Option.some.inj hj
        exact ⟨_, List.getElem?_concat_length, hready⟩
      · rw [hroom, if_neg hready] at hj
        obtain ⟨q, hq, hphase⟩ := hs.room j hj
        obtain ⟨hlt, -⟩ := List.getElem?_eq_some_iff.mp hq
        exact ⟨q, (List.getElem?_append_left hlt).trans hq, hphase⟩

theorem chosen_roomKeys (cs : List Char) (hchosen : Chosen cfg d s) (hsound : Sound cfg s) :
    Chosen cfg d (roomKeys cfg s cs) ∧ Sound cfg (roomKeys cfg s cs) := by
  induction cs generalizing s with
  | nil => exact ⟨hchosen, hsound⟩
  | cons c rest ih =>
    have hstep := change_roomInput cfg s [c]
    exact ih (hstep.chosen hchosen) (hstep.sound hsound)

theorem sound_nil (hrooms : s.rooms = []) (hroom : s.room = none) : Sound cfg s := by
  constructor
  · rw [hrooms]
    exact fun r hr => absurd hr List.not_mem_nil
  · rw [hroom]
    exact fun i hi => absurd hi.symm (Option.some_ne_none i)

theorem chosen_withDomain (hs : Unchosen s) (hmem : d ∈ domains cfg) (hid : d.id ≤ 9) :
    Chosen cfg d (s.withDomain d) ∧ Sound cfg (s.withDomain d) := by
  refine ⟨⟨rfl, hmem, hid, rfl, ⟨d, rfl, rfl⟩, ?_⟩, sound_nil hs.rooms hs.room⟩
  intro r hr
  rw [Page.withDomain, hs.rooms] at hr
  exact absurd hr List.not_mem_nil

theorem chosen_chooseDomain (hs : Unchosen s) (hmem : d ∈ domains cfg) (hid : d.id ≤ 9) :
    Chosen cfg d (chooseDomain cfg s d) ∧ Sound cfg (chooseDomain cfg s d) := by
  obtain ⟨hchosen, hsound⟩ := @chosen_withDomain cfg s d hs hmem hid
  unfold chooseDomain
  split
  · exact ⟨hchosen, hsound⟩
  · next roomId _ =>
    obtain ⟨hchosen, hsound⟩ := chosen_roomKeys (roomId ++ ['#']) hchosen hsound
    exact ⟨⟨hchosen.stage, hmem, hid, hchosen.browsing, hchosen.selected, hchosen.rooms⟩,
      ⟨hsound.rooms, hsound.room⟩⟩

/-- The page of every moment. -/
def Coherent (cfg : Config) (s : Page) : Prop :=
  Sound cfg s ∧ (Unchosen s ∨ ∃ d, Chosen cfg d s)

theorem Unchosen.coherent (h : Unchosen s) : Coherent cfg s :=
  ⟨sound_nil h.rooms h.room, .inl h⟩

theorem Unchosen.typed (h : Unchosen s) {digits : List Char} (hlen : digits.length ≤ 1)
    (status : Status) : Unchosen { s with inputDigits := digits, status := status } :=
  ⟨h.stage, h.browsing, h.rooms, h.room, hlen⟩

theorem coherent_domainInput (h : Unchosen s) (key : List Char) :
    Coherent cfg (domainInput cfg s key) := by
  unfold domainInput
  split
  · next c =>
    split_ifs
    · exact (h.typed le_rfl .clear).coherent
    · refine (h.typed ?_ .clear).coherent
      rw [List.length_dropLast]
      exact (Nat.sub_le _ _).trans h.inputDigits
    · cases hchoice : (parseInt s.inputDigits).bind (numbered cfg) with
      | none => exact (h.typed h.inputDigits _).coherent
      | some d =>
        obtain ⟨n, hn, hd⟩ := Option.bind_eq_some_iff.mp hchoice
        obtain ⟨hmem, hid⟩ := mem_of_numbered hd
        have hle := parseInt_le h.inputDigits hn
        obtain ⟨hchosen, hsound⟩ := chosen_chooseDomain h hmem (by omega)
        exact ⟨hsound, .inr ⟨d, hchosen⟩⟩
    · exact (h.typed h.inputDigits .clear).coherent
  · exact (h.typed h.inputDigits .clear).coherent

theorem handleInput_room {key : List Char} (h : s.stage = .room) :
    handleInput cfg s key = roomInput cfg s key := by
  simp only [handleInput, h]

theorem Coherent.handleInput (h : Coherent cfg s) (key : List Char) :
    Coherent cfg (handleInput cfg s key) := by
  obtain ⟨hsound, hs | ⟨d, hs⟩⟩ := h
  · rw [IvrPage.handleInput, hs.stage]
    exact coherent_domainInput hs key
  · rw [handleInput_room hs.stage]
    have hstep := change_roomInput cfg s key
    exact ⟨hstep.sound hsound, .inr ⟨d, hstep.chosen hs⟩⟩

theorem Coherent.handleKeys (h : Coherent cfg s) (cs : List Char) :
    Coherent cfg (handleKeys cfg s cs) := by
  induction cs generalizing s with
  | nil => exact h
  | cons c rest ih => exact ih (h.handleInput [c])

theorem unchosen_blank (pending : Option (List Char)) : Unchosen (blank pending) :=
  ⟨rfl, rfl, rfl, rfl, Nat.zero_le 1⟩

/-- The platform that the address names twice has one domain. -/
def Agree (cfg : Config) (link : Link) : Prop :=
  ∀ d e, mixedDomain cfg link = some d → linkDomain cfg link = some e → d.domain = e.domain

theorem Chosen.domain_eq {e : Domain} (h : Chosen cfg d s) (k : Chosen cfg e s) :
    d.domain = e.domain := by
  obtain ⟨f, hselected, hd⟩ := h.selected
  obtain ⟨g, hsame, he⟩ := k.selected
  obtain rfl := Option.some.inj (hselected.symm.trans hsame)
  exact hd.symm.trans he

theorem Unchosen.not_chosen (h : Unchosen s) : ¬ Chosen cfg d s := by
  intro k
  have hstage := h.stage.symm.trans k.stage
  cases hstage

theorem idText_singleton {c : Char} (h : idText d = [c]) : d.id ≤ 9 := by
  have hlen : (Nat.toDigits 10 d.id).length ≤ 1 := by
    rw [← idText, h, List.length_singleton]
  have hlt := (Nat.length_toDigits_le_iff (by decide) (by decide)).mp hlen
  omega

theorem mixedDomain_spec {link : Link} (h : mixedDomain cfg link = some d) :
    d ∈ domains cfg ∧ d.id ≤ 9 := by
  unfold mixedDomain keyed at h
  dsimp only at h
  split at h
  · next hchoice =>
    have hid := List.find?_some h
    refine ⟨List.mem_of_find?_eq_some h, ?_⟩
    unfold isChoice at hchoice
    split at hchoice
    · next c heq => exact idText_singleton ((of_decide_eq_true hid).trans heq)
    · cases hchoice
  · cases h

theorem accepted_of_isDigit {c : Char} (h : c.isDigit = true) : accepted c = true := by
  obtain ⟨hlow, hhigh⟩ := Char.isDigit_iff_toNat.mp h
  have hdigit : '0' ≤ c ∧ c ≤ '9' := ⟨Char.le_def.mpr hlow, Char.le_def.mpr hhigh⟩
  simp only [accepted, hdigit.1, hdigit.2, decide_true, Bool.and_self, Bool.or_true, Bool.true_or]

theorem idText_last (d : Domain) :
    ∃ before, idText d = before ++ [(d.id % 10).digitChar] ∧ ∀ c ∈ before, accepted c = true := by
  by_cases h : d.id < 10
  · refine ⟨[], ?_, fun c hc => absurd hc List.not_mem_nil⟩
    rw [idText, Nat.toDigits_of_lt_base h, Nat.mod_eq_of_lt h, List.nil_append]
  · refine ⟨Nat.toDigits 10 (d.id / 10), ?_, fun c hc => ?_⟩
    · exact Nat.toDigits_of_base_le (by decide) (not_lt.mp h)
    · exact accepted_of_isDigit (Nat.isDigit_of_mem_toDigits (by decide) (by decide) hc)

/-- Each character takes the place of the one before. -/
theorem handleKeys_domain {c : Char} (before : List Char) (hstage : s.stage = .domain)
    (hbefore : ∀ c ∈ before, accepted c = true) (hc : accepted c = true) :
    handleKeys cfg s (before ++ [c]) = { s with inputDigits := [c], status := .clear } := by
  have hone (s : Page) (hstage : s.stage = .domain) {c : Char} (hc : accepted c = true) :
      handleInput cfg s [c] = { s with inputDigits := [c], status := .clear } := by
    simp only [handleInput, hstage, domainInput, hc, if_true]
  induction before generalizing s with
  | nil => exact hone s hstage hc
  | cons b rest ih =>
    obtain ⟨hb, hrest⟩ := List.forall_mem_cons.mp hbefore
    rw [List.cons_append, handleKeys, List.foldl_cons, hone s hstage hb]
    exact ih hstage hrest

/-- The last digit of its number decides which platform is chosen. -/
theorem handleKeys_idText (hstage : s.stage = .domain) :
    handleKeys cfg s (idText d ++ ['#']) =
      let typed := { s with inputDigits := [(d.id % 10).digitChar], status := .clear }
      match numbered cfg (d.id % 10 : ℕ) with
      | some e => chooseDomain cfg typed e
      | none => { typed with status := .invalid [(d.id % 10).digitChar] } := by
  have hlt : d.id % 10 < 10 := Nat.mod_lt d.id (by decide)
  have haccepted : accepted '#' = false := by decide
  have hstar : ¬ '#' = '*' := by decide
  obtain ⟨before, htext, hbefore⟩ := idText_last d
  have htyped := @handleKeys_domain cfg s _ before hstage hbefore (accepted_digitChar hlt)
  have hkeys : handleKeys cfg s (idText d ++ ['#']) =
      handleInput cfg (handleKeys cfg s (before ++ [(d.id % 10).digitChar])) ['#'] := by
    rw [htext, handleKeys, List.foldl_append]
    rfl
  rw [hkeys, htyped]
  simp only [handleInput, hstage, domainInput, haccepted, Bool.false_eq_true, if_false, hstar,
    if_true, parseInt_digitChar hlt, Option.bind_some]

theorem selected_eq (hstage : s.stage = .domain) :
    selected cfg s d =
      let typed := { s with selectedDomain := some d, inputDigits := [(d.id % 10).digitChar]
                            status := .clear }
      match numbered cfg (d.id % 10 : ℕ) with
      | some e => chooseDomain cfg typed e
      | none => { typed with status := .invalid [(d.id % 10).digitChar] } :=
  @handleKeys_idText cfg { s with selectedDomain := some d } d hstage

/-- Naming a platform chooses the one whose number is the last digit of its number. -/
theorem chosen_selected {e : Domain} (hs : Unchosen s)
    (he : numbered cfg (d.id % 10 : ℕ) = some e) :
    Chosen cfg e (selected cfg s d) := by
  obtain ⟨hmem, hid⟩ := mem_of_numbered he
  have hle : e.id ≤ 9 := by
    have hlt := Nat.mod_lt d.id (show 0 < 10 by decide)
    omega
  have htyped : Unchosen { s with selectedDomain := some d
                                  inputDigits := [(d.id % 10).digitChar], status := .clear } :=
    ⟨hs.stage, hs.browsing, hs.rooms, hs.room, le_rfl⟩
  rw [selected_eq hs.stage, he]
  exact (chosen_chooseDomain htyped hmem hle).1

theorem chosen_self (hs : Unchosen s) (hmem : d ∈ domains cfg) (hid : d.id ≤ 9) :
    Chosen cfg d (selected cfg s d) := by
  have hself : numbered cfg (d.id % 10 : ℕ) = some d := by
    rw [Nat.mod_eq_of_lt (Nat.lt_succ_of_le hid)]
    exact numbered_of_mem hmem
  exact chosen_selected hs hself

theorem Coherent.selected (h : Coherent cfg s)
    (hagree : ∀ e, Chosen cfg e s → e.domain = d.domain) : Coherent cfg (selected cfg s d) := by
  obtain ⟨hsound, hs | ⟨e, hs⟩⟩ := h
  · exact (@Unchosen.coherent cfg { s with selectedDomain := some d }
      ⟨hs.stage, hs.browsing, hs.rooms, hs.room, hs.inputDigits⟩).handleKeys _
  · have hchosen : Coherent cfg { s with selectedDomain := some d } :=
      ⟨⟨hsound.rooms, hsound.room⟩, .inr ⟨e, hs.stage, hs.mem, hs.id, hs.browsing,
        ⟨d, rfl, (hagree e hs).symm⟩, hs.rooms⟩⟩
    exact hchosen.handleKeys _

theorem coherent_initIVR {link : Link} (h : Agree cfg link) : Coherent cfg (initIVR cfg link) := by
  have hblank := unchosen_blank (pendingRoomId link)
  unfold initIVR
  -- the platform of `mixedId`, then that of the other parameters
  have hmixed : Coherent cfg
      (selectedIf cfg (blank (pendingRoomId link)) (mixedDomain cfg link)) := by
    cases hd : mixedDomain cfg link with
    | none => exact hblank.coherent
    | some d => exact hblank.coherent.selected fun e he => absurd he hblank.not_chosen
  have hlink : Coherent cfg (selectedIf cfg
      (selectedIf cfg (blank (pendingRoomId link)) (mixedDomain cfg link))
      (linkDomain cfg link)) := by
    cases he : linkDomain cfg link with
    | none => exact hmixed
    | some e =>
      refine hmixed.selected fun f hf => ?_
      cases hd : mixedDomain cfg link with
      | none =>
        rw [hd] at hf
        exact absurd hf hblank.not_chosen
      | some d =>
        rw [hd] at hf
        obtain ⟨hmem, hid⟩ := mixedDomain_spec hd
        exact (hf.domain_eq (chosen_self hblank hmem hid)).trans (h d e hd he)
  dsimp only
  cases honly : onlyDomain cfg (selectedIf cfg
      (selectedIf cfg (blank (pendingRoomId link)) (mixedDomain cfg link))
      (linkDomain cfg link)) with
  | none => exact hlink
  | some d =>
    refine hlink.selected fun e he => ?_
    obtain ⟨f, hselected, -⟩ := he.selected
    unfold onlyDomain at honly
    rw [hselected] at honly
    cases honly

end Coherence

section Attended

variable {cfg : Config} {link : Link} {s t : Session}

/-- The gateway has read the platform, and its room is one of the page. -/
structure Polled (cfg : Config) (s : Session) : Prop where
  page : Coherent cfg s.page
  browsingName : s.browsingName = "" ∨ s.page.browsing = some s.browsingName
  result : ∀ name room, s.result = some (name, room) →
    name = s.browsingName ∧ name ≠ "" ∧ room ∈ s.page.rooms ∧ room.phase = .ready

/-- What an event other than a poll does to the page. -/
inductive PageStep (cfg : Config) (s : Page) : Event → Page → Prop where
  | key (key : List Char) : PageStep cfg s (.key key) (keyEvent cfg s key)
  | roomName (name : List Char) : PageStep cfg s (.roomName name) (sendRoomName cfg s name)
  | mapped {i : ℕ} {r : Room} (found : s.rooms[i]? = some r) (phase : r.phase = .mapping)
      (reply : MapperReply) : PageStep cfg s (.mapper i reply) (mapperReplied s i r reply)
  | token {i : ℕ} {r : Room} (found : s.rooms[i]? = some r) (phase : r.phase = .token)
      (reply : TokenReply) : PageStep cfg s (.token i reply) (tokenReplied s i r reply)
  | resumed {i : ℕ} {r : Room} {t : Page} (found : s.rooms[i]? = some r)
      (step : resumed cfg s i = some t) : PageStep cfg s (.resume i) t

theorem roomIn_eq {s : Page} {i : ℕ} {phase : Phase} {r : Room} (h : s.roomIn i phase = some r) :
    s.rooms[i]? = some r ∧ r.phase = phase := by
  obtain ⟨hroom, hphase⟩ := Option.filter_eq_some_iff.mp h
  exact ⟨hroom, of_decide_eq_true hphase⟩

theorem next_cases {e : Event} (h : next cfg s e = some t) :
    s.result = none ∧
      ((e = .poll ∧ t = polled s) ∨
        ∃ page, PageStep cfg s.page e page ∧ t = { s with page := page }) := by
  unfold next at h
  by_cases hresult : s.result.isSome = true
  · rw [if_pos hresult] at h
    cases h
  rw [if_neg hresult] at h
  refine ⟨Option.not_isSome_iff_eq_none.mp hresult, ?_⟩
  cases e with
  | key key =>
    obtain rfl := Option.some.inj h
    exact .inr ⟨_, .key key, rfl⟩
  | roomName name =>
    obtain rfl := Option.some.inj h
    exact .inr ⟨_, .roomName name, rfl⟩
  | mapper i reply =>
    obtain ⟨r, hr, rfl⟩ := Option.map_eq_some_iff.mp h
    obtain ⟨hroom, hphase⟩ := roomIn_eq hr
    exact .inr ⟨_, .mapped hroom hphase reply, rfl⟩
  | token i reply =>
    obtain ⟨r, hr, rfl⟩ := Option.map_eq_some_iff.mp h
    obtain ⟨hroom, hphase⟩ := roomIn_eq hr
    exact .inr ⟨_, .token hroom hphase reply, rfl⟩
  | resume i =>
    obtain ⟨page, hpage, rfl⟩ := Option.map_eq_some_iff.mp h
    cases hroom : s.page.rooms[i]? with
    | none => simp only [resumed, hroom, reduceCtorEq] at hpage
    | some r => exact .inr ⟨page, .resumed hroom hpage, rfl⟩
  | poll => exact .inl ⟨rfl, (Option.some.inj h).symm⟩

theorem change_keyEvent {s : Page} (key : List Char) (hstage : s.stage = .room) :
    Change cfg s (keyEvent cfg s key) := by
  unfold keyEvent
  split
  · rw [handleInput_room hstage]
    exact change_roomInput cfg s key
  · exact .of_same rfl rfl rfl rfl rfl

/-- Once a platform is chosen, every step is a change. -/
theorem PageStep.change {s t : Page} {e : Event} (h : PageStep cfg s e t)
    (hstage : s.stage = .room) : Change cfg s t := by
  cases h with
  | key key => exact change_keyEvent key hstage
  | roomName name =>
    exact (@change_keyEvent cfg { s with inputRoomName := name } ['#'] hstage).of_digits
  | mapped hfound hphase reply => exact change_mapperReplied reply hfound hphase
  | token hfound hphase reply => exact change_tokenReplied reply hfound hphase
  | resumed _ hstep => exact change_resumed hstep

theorem Unchosen.keyEvent {s : Page} (hs : Unchosen s) (key : List Char) :
    Coherent cfg (keyEvent cfg s key) := by
  unfold IvrPage.keyEvent
  split
  · exact hs.coherent.handleInput key
  · exact hs.coherent

/-- Before that, only keys do something. -/
theorem PageStep.unchosen {s t : Page} {e : Event} (h : PageStep cfg s e t) (hs : Unchosen s) :
    Coherent cfg t := by
  have hnone {i : ℕ} {r : Room} (hfound : s.rooms[i]? = some r) : Coherent cfg t := by
    rw [hs.rooms, List.getElem?_nil] at hfound
    cases hfound
  cases h with
  | key key => exact hs.keyEvent key
  | roomName name =>
    have hnamed : Unchosen { s with inputRoomName := name } :=
      ⟨hs.stage, hs.browsing, hs.rooms, hs.room, hs.inputDigits⟩
    exact hnamed.keyEvent ['#']
  | mapped hfound _ _ => exact hnone hfound
  | token hfound _ _ => exact hnone hfound
  | resumed hfound _ => exact hnone hfound

theorem PageStep.coherent {s t : Page} {e : Event} (h : PageStep cfg s e t) (hs : Coherent cfg s) :
    Coherent cfg t ∧ ∀ name, s.browsing = some name → t.browsing = some name := by
  obtain ⟨hsound, hs | ⟨d, hs⟩⟩ := hs
  · refine ⟨h.unchosen hs, fun name hname => ?_⟩
    exact absurd (hname.symm.trans hs.browsing) (Option.some_ne_none name)
  · have hchange := h.change hs.stage
    exact ⟨⟨hchange.sound hsound, .inr ⟨d, hchange.chosen hs⟩⟩,
      fun _ hname => hchange.browsing.trans hname⟩

@[simp] theorem polled_page (s : Session) : (polled s).page = s.page := by
  unfold polled
  split
  · rfl
  · split
    · rfl
    · rfl

theorem Polled.polled (h : Polled cfg s) (hnone : s.result = none) : Polled cfg (polled s) := by
  unfold IvrPage.polled
  by_cases hname : s.browsingName = ""
  · rw [if_pos hname]
    refine ⟨h.page, ?_, fun name room hresult =>
      absurd (hresult.symm.trans hnone) (Option.some_ne_none _)⟩
    cases hbrowsing : s.page.browsing with
    | none => exact .inl rfl
    | some key => exact .inr rfl
  · rw [if_neg hname]
    split
    · next r hroom =>
      obtain ⟨i, hi, hr⟩ := Option.bind_eq_some_iff.mp hroom
      obtain ⟨q, hq, hready⟩ := h.page.1.room i hi
      obtain rfl := Option.some.inj (hr.symm.trans hq)
      refine ⟨h.page, h.browsingName, fun name room hresult => ?_⟩
      obtain ⟨rfl, rfl⟩ := Prod.mk.inj (Option.some.inj hresult)
      exact ⟨rfl, hname, List.mem_of_getElem? hr, hready⟩
    · exact h

theorem Polled.next {e : Event} (h : Polled cfg s) (hstep : next cfg s e = some t) :
    Polled cfg t := by
  obtain ⟨hnone, ⟨-, rfl⟩ | ⟨page, hpage, rfl⟩⟩ := next_cases hstep
  · exact h.polled hnone
  · obtain ⟨hcoherent, hbrowsing⟩ := hpage.coherent h.page
    refine ⟨hcoherent, h.browsingName.imp_right fun hname => hbrowsing _ hname, ?_⟩
    intro name room hresult
    exact absurd (hresult.symm.trans hnone) (Option.some_ne_none _)

theorem polled_reachable (hlink : Agree cfg link) (h : Reachable cfg link s) : Polled cfg s := by
  refine Execution.invariant (fun _ _ _ hs hstep => hs.next hstep) h ?_
  exact ⟨coherent_initIVR hlink, .inl rfl, fun _ _ hresult =>
    absurd hresult.symm (Option.some_ne_none _)⟩

/-- What the gateway attends: a platform of the configuration, its domain, and a room of it. -/
structure Attends (cfg : Config) (name : String) (room : Room) (d : Domain) : Prop where
  mem : d ∈ domains cfg
  id : d.id ≤ 9
  key : d.key = name
  webrtcDomain : room.webrtcDomain = d.domain
  long : LongEnough cfg room.roomId
  ready : room.phase = .ready
  unmapped : cfg.mapper = false → room.roomName = room.roomId

theorem Polled.attends {name : String} {room : Room} {d : Domain} (h : Polled cfg s)
    (hd : Chosen cfg d s.page) (hresult : s.result = some (name, room)) :
    Attends cfg name room d := by
  obtain ⟨hname, hne, hmem, hready⟩ := h.result name room hresult
  have hkey : s.page.browsing = some name := by
    rw [hname]
    exact h.browsingName.resolve_left fun heq => hne (hname.trans heq)
  obtain ⟨hlong, hunmapped⟩ := h.page.1.rooms room hmem
  exact ⟨hd.mem, hd.id, Option.some.inj (hd.browsing.symm.trans hkey), hd.rooms room hmem,
    hlong, hready, fun hmapper => (hunmapped hmapper).2⟩

theorem attends_one_platform {name : String} {room : Room} (hlink : Agree cfg link)
    (h : Reachable cfg link s) (hresult : s.result = some (name, room)) :
    ∃ d, Attends cfg name room d := by
  have hpolled := polled_reachable hlink h
  obtain ⟨-, -, hmem, -⟩ := hpolled.result name room hresult
  rcases hpolled.page.2 with hs | ⟨d, hs⟩
  · rw [hs.rooms] at hmem
    exact absurd hmem List.not_mem_nil
  · exact ⟨d, hpolled.attends hs hresult⟩

/-- Two platforms, and codes of four characters. -/
def twoPlatforms : Config where
  webrtcDomains :=
    [("jitsi", "Jitsi", "meet.example.org"), ("bigbluebutton", "BBB", "bbb.example.org")]
  minIvrDigitLength := ['4']
  mapper := false
  authUrl := false
  secureRoom := fun _ => true
  jwt := ""

def polledTwice (cfg : Config) (link : Link) : Option Session :=
  runEvents (next cfg) (loaded cfg link) [.poll, .poll]

/-- Room 1234 of the second platform. -/
def dialledRoom : Room :=
  ⟨"bbb.example.org", "1234".toList, "1234".toList, "", none, .ready⟩

theorem attends_dialled :
    ∃ s, Reachable twoPlatforms ⟨[], [], [], "2.1234".toList⟩ s ∧
      s.result = some ("bigbluebutton", dialledRoom) ∧
      ∃ d, Attends twoPlatforms "bigbluebutton" dialledRoom d := by
  have hagree : Agree twoPlatforms ⟨[], [], [], "2.1234".toList⟩ := by
    intro d e _ he
    have hnone : linkDomain twoPlatforms ⟨[], [], [], "2.1234".toList⟩ = none := by decide +kernel
    exact absurd (he.symm.trans hnone) (Option.some_ne_none e)
  have hrun : (polledTwice twoPlatforms ⟨[], [], [], "2.1234".toList⟩).bind Session.result =
      some ("bigbluebutton", dialledRoom) := by
    decide +kernel
  obtain ⟨s, hs, hresult⟩ := Option.bind_eq_some_iff.mp hrun
  have hreach : Reachable twoPlatforms ⟨[], [], [], "2.1234".toList⟩ s := runEvents_execution hs
  exact ⟨s, hreach, hresult, attends_one_platform hagree hreach hresult⟩

/-- The gateway has one platform and the call another: the room of the one, with its number at the
end of the code here, under the platform of the other. -/
theorem not_attends_clash :
    ∃ s room, Reachable twoPlatforms ⟨[], "jitsi".toList, [], "2.1234".toList⟩ s ∧
      s.result = some ("bigbluebutton", room) ∧ room.roomId = "12341".toList ∧
      ¬ ∃ d, Attends twoPlatforms "bigbluebutton" room d := by
  have hrun : (polledTwice twoPlatforms ⟨[], "jitsi".toList, [], "2.1234".toList⟩).bind
      Session.result = some ("bigbluebutton",
        ⟨"meet.example.org", "12341".toList, "12341".toList, "", none, .ready⟩) := by
    decide +kernel
  obtain ⟨s, hs, hresult⟩ := Option.bind_eq_some_iff.mp hrun
  refine ⟨s, _, runEvents_execution hs, hresult, rfl, ?_⟩
  rintro ⟨d, hd⟩
  have hmem : d ∈ [(⟨1, "jitsi", "Jitsi", "meet.example.org"⟩ : Domain),
      ⟨2, "bigbluebutton", "BBB", "bbb.example.org"⟩] := hd.mem
  have hkey := hd.key
  have hdomain := hd.webrtcDomain
  simp only [List.mem_cons, List.not_mem_nil, or_false] at hmem
  rcases hmem with rfl | rfl
  · exact absurd hkey (by decide)
  · exact absurd hdomain (by decide)

theorem Chosen.next {d : Domain} {e : Event} (h : Chosen cfg d s.page)
    (hstep : next cfg s e = some t) : Chosen cfg d t.page := by
  obtain ⟨-, ⟨-, rfl⟩ | ⟨page, hpage, rfl⟩⟩ := next_cases hstep
  · rw [polled_page]
    exact h
  · exact (hpage.change h.stage).chosen h

theorem exists_numbered {d : Domain} {index k : ℕ} {raw : List (String × String × String)}
    (h : d ∈ parseDomains index raw) (hindex : index ≤ k) (hk : k ≤ d.id) :
    ∃ e ∈ parseDomains index raw, e.id = k := by
  induction raw generalizing index with
  | nil => cases h
  | cons entry rest ih =>
    obtain ⟨key, name, domain⟩ := entry
    rw [parseDomains] at h ⊢
    rcases hindex.eq_or_lt with rfl | hlt
    · exact ⟨_, List.mem_cons_self, rfl⟩
    · rcases List.mem_cons.mp h with rfl | hmem
      · exact absurd hk (not_le.mpr hlt)
      · obtain ⟨e, he, hid⟩ := ih hmem hlt
        exact ⟨e, List.mem_cons_of_mem _ he, hid⟩

/-- The platform that an address names by its key or its number, and by nothing else. -/
theorem initIVR_named {d : Domain} (hmixed : mixedDomain cfg link = none)
    (hlink : linkDomain cfg link = some d) :
    initIVR cfg link = selected cfg (blank (pendingRoomId link)) d := by
  have hselected : ∃ f, (selected cfg (blank (pendingRoomId link)) d).selectedDomain = some f := by
    have hblank := unchosen_blank (pendingRoomId link)
    cases he : numbered cfg (d.id % 10 : ℕ) with
    | some e =>
      obtain ⟨f, hf, -⟩ := (chosen_selected hblank he).selected
      exact ⟨f, hf⟩
    | none =>
      rw [selected_eq hblank.stage, he]
      exact ⟨d, rfl⟩
  obtain ⟨f, hf⟩ := hselected
  simp only [initIVR, hmixed, hlink, selectedIf, onlyDomain, hf]

theorem linkDomain_mem {d : Domain} (h : linkDomain cfg link = some d) : d ∈ domains cfg := by
  unfold linkDomain keyed at h
  split at h
  · exact List.mem_of_find?_eq_some h
  · exact List.mem_of_find?_eq_some h

/-- An address that names a platform ends on the one of its last digit, or chooses none. -/
theorem named_platform {d : Domain} (hmixed : mixedDomain cfg link = none)
    (hlink : linkDomain cfg link = some d) (h : Reachable cfg link s) :
    (d.id % 10 ≠ 0 → ∃ e ∈ domains cfg, e.id = d.id % 10 ∧ s.page.browsing = some e.key ∧
      ∀ name room, s.result = some (name, room) → Attends cfg name room e) ∧
    (d.id % 10 = 0 → Unchosen (initIVR cfg link)) := by
  have hblank := unchosen_blank (pendingRoomId link)
  have hagree : Agree cfg link := by
    intro e _ he _
    exact absurd (he.symm.trans hmixed) (Option.some_ne_none e)
  constructor
  · intro hdigit
    obtain ⟨e, hmem, hid⟩ := exists_numbered (linkDomain_mem hlink)
      (Nat.one_le_iff_ne_zero.mpr hdigit) (Nat.mod_le d.id 10)
    have hnumbered : numbered cfg (d.id % 10 : ℕ) = some e := by
      rw [← hid]
      exact numbered_of_mem hmem
    have hloaded : Chosen cfg e (loaded cfg link).page := by
      rw [loaded, initIVR_named hmixed hlink]
      exact chosen_selected hblank hnumbered
    have hchosen : Chosen cfg e s.page :=
      Execution.invariant (I := fun s => Chosen cfg e s.page)
        (fun _ _ _ hs hstep => Chosen.next hs hstep) h hloaded
    refine ⟨e, hmem, hid, hchosen.browsing, fun name room hresult => ?_⟩
    exact (polled_reachable hagree h).attends hchosen hresult
  · intro hdigit
    have hnumbered : numbered cfg (d.id % 10 : ℕ) = none := by
      cases he : numbered cfg (d.id % 10 : ℕ) with
      | none => rfl
      | some e =>
        obtain ⟨hmem, hid⟩ := mem_of_numbered he
        have hpos := one_le_id hmem
        omega
    rw [initIVR_named hmixed hlink, selected_eq hblank.stage, hnumbered]
    exact ⟨rfl, rfl, rfl, rfl, le_rfl⟩

/-- Twelve platforms, of which the last two are named by their keys. -/
def twelvePlatforms : Config :=
  { twoPlatforms with
    webrtcDomains := twoPlatforms.webrtcDomains ++ List.replicate 8 ("", "", "") ++
      [("teams", "Teams", "teams.example.org"), ("jitsi2", "Jitsi", "meet2.example.org")] }

theorem named_platform_twelfth :
    ∃ s room, Reachable twelvePlatforms ⟨[], "jitsi2".toList, "1234".toList, []⟩ s ∧
      s.result = some ("bigbluebutton", room) ∧ room.roomName = "1234".toList ∧
      ∃ e ∈ domains twelvePlatforms, e.id = 2 ∧ Attends twelvePlatforms "bigbluebutton" room e := by
  have hmixed : mixedDomain twelvePlatforms ⟨[], "jitsi2".toList, "1234".toList, []⟩ = none := rfl
  have hlink : linkDomain twelvePlatforms ⟨[], "jitsi2".toList, "1234".toList, []⟩ =
      some ⟨12, "jitsi2", "Jitsi", "meet2.example.org"⟩ := by decide +kernel
  have hrun : (polledTwice twelvePlatforms ⟨[], "jitsi2".toList, "1234".toList, []⟩).bind
      Session.result = some ("bigbluebutton", dialledRoom) := by
    decide +kernel
  obtain ⟨s, hs, hresult⟩ := Option.bind_eq_some_iff.mp hrun
  have hreach : Reachable twelvePlatforms ⟨[], "jitsi2".toList, "1234".toList, []⟩ s :=
    runEvents_execution hs
  obtain ⟨e, hmem, hid, -, hattends⟩ := (named_platform hmixed hlink hreach).1 (by decide)
  exact ⟨s, dialledRoom, hreach, hresult, rfl, e, hmem, hid, hattends _ _ hresult⟩

end Attended

end IvrPage
