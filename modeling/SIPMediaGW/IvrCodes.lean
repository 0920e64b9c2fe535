import SIPMediaGW.IvrPage

/-! # The codes under which the page opens rooms

A refused room waits for its own code; a name that the console sends stands for what is typed; and
the address of the page types what a caller would. -/
namespace IvrCodes

open LabelledExecutions
open IvrPage

section Invariants

variable {cfg : Config} {s t : Page} {I : Page → Prop}

/-- What the digits, the status and the choice of a platform leave as it is. -/
structure SameRooms (s t : Page) : Prop where
  stage : t.stage = s.stage ∨ t.stage = .room
  rooms : t.rooms = s.rooms
  room : t.room = s.room
  waitingConfirm : t.waitingConfirm = s.waitingConfirm
  inputRoomName : t.inputRoomName = s.inputRoomName

variable (frame : ∀ s t, SameRooms s t → I s → I t)
  (input : ∀ s key, s.stage = .room → I s → I (roomInput cfg s key))

include input in
theorem invariant_roomKeys (cs : List Char) (hstage : s.stage = .room) (h : I s) :
    I (roomKeys cfg s cs) := by
  induction cs generalizing s with
  | nil => exact h
  | cons c rest ih =>
    exact ih ((change_roomInput cfg s [c]).stage.trans hstage) (input s [c] hstage h)

include frame input in
theorem invariant_chooseDomain (d : Domain) (h : I s) : I (chooseDomain cfg s d) := by
  have hchosen : I (s.withDomain d) := frame s _ ⟨.inr rfl, rfl, rfl, rfl, rfl⟩ h
  unfold chooseDomain
  split
  · exact hchosen
  · next roomId _ =>
    have hkeys := invariant_roomKeys input (roomId ++ ['#']) rfl hchosen
    exact frame (roomKeys cfg (s.withDomain d) (roomId ++ ['#'])) _
      ⟨.inl rfl, rfl, rfl, rfl, rfl⟩ hkeys

include frame input in
/-- A property of the rooms that keys keep once a platform is chosen, they keep. -/
theorem invariant_handleInput (key : List Char) (h : I s) : I (handleInput cfg s key) := by
  unfold handleInput
  split
  · unfold domainInput
    split
    · split_ifs
      · exact frame s _ ⟨.inl rfl, rfl, rfl, rfl, rfl⟩ h
      · exact frame s _ ⟨.inl rfl, rfl, rfl, rfl, rfl⟩ h
      · split
        · next d _ => exact invariant_chooseDomain frame input d h
        · exact frame s _ ⟨.inl rfl, rfl, rfl, rfl, rfl⟩ h
      · exact frame s _ ⟨.inl rfl, rfl, rfl, rfl, rfl⟩ h
    · exact frame s _ ⟨.inl rfl, rfl, rfl, rfl, rfl⟩ h
  · next hstage => exact input s key hstage h

include frame input in
theorem invariant_handleKeys (cs : List Char) (h : I s) : I (handleKeys cfg s cs) := by
  induction cs generalizing s with
  | nil => exact h
  | cons c rest ih => exact ih (invariant_handleInput frame input [c] h)

include frame input in
theorem invariant_selectedIf (d : Option Domain) (h : I s) : I (selectedIf cfg s d) := by
  cases d with
  | none => exact h
  | some d =>
    exact invariant_handleKeys frame input _ (frame s _ ⟨.inl rfl, rfl, rfl, rfl, rfl⟩ h)

include frame input in
theorem invariant_initIVR (link : Link) (h : I (blank (pendingRoomId link))) :
    I (initIVR cfg link) :=
  invariant_selectedIf frame input _
    (invariant_selectedIf frame input _ (invariant_selectedIf frame input _ h))

end Invariants

section Refused

variable {cfg : Config} {link : Link}

/-- A room that waits for a confirmation waits for its own code. -/
structure Kept (cfg : Config) (s : Page) : Prop where
  sound : Sound cfg s
  domain : s.stage = .domain → s.rooms = []
  waiting : ∀ w, s.waitingConfirm = some w →
    ∃ r, s.rooms[w.room]? = some r ∧ r.roomId = w.roomId

theorem Kept.frame {s t : Page} (h : SameRooms s t) (hs : Kept cfg s) : Kept cfg t := by
  refine ⟨⟨?_, ?_⟩, ?_, ?_⟩
  · rw [h.rooms]
    exact hs.sound.rooms
  · rw [h.rooms, h.room]
    exact hs.sound.room
  · intro hstage
    rw [h.rooms]
    rcases h.stage with hsame | hroom
    · exact hs.domain (hsame.symm.trans hstage)
    · cases hstage.symm.trans hroom
  · rw [h.rooms, h.waitingConfirm]
    exact hs.waiting

/-- A change keeps the codes of the rooms there are. -/
theorem roomId_kept {s t : Page} (h : Change cfg s t) {i : ℕ} {r : Room}
    (hroom : s.rooms[i]? = some r) : ∃ r', t.rooms[i]? = some r' ∧ r'.roomId = r.roomId := by
  obtain ⟨hlt, -⟩ := List.getElem?_eq_some_iff.mp hroom
  cases h.rooms with
  | same hrooms _ => exact ⟨r, hrooms ▸ hroom, rfl⟩
  | @later j q q' hfound hlater hrooms _ =>
    rw [hrooms]
    by_cases hij : j = i
    · subst hij
      obtain rfl := Option.some.inj (hfound.symm.trans hroom)
      exact ⟨q', List.getElem?_set_self hlt, hlater.roomId⟩
    · exact ⟨r, (List.getElem?_set_ne hij).trans hroom, rfl⟩
  | opened _ _ hrooms _ =>
    rw [hrooms]
    exact ⟨r, (List.getElem?_append_left hlt).trans hroom, rfl⟩

theorem Kept.change {s t : Page} (hs : Kept cfg s) (hstage : s.stage = .room)
    (h : Change cfg s t)
    (hwaiting : ∀ w, t.waitingConfirm = some w → s.waitingConfirm = some w ∨
      ∃ r, s.rooms[w.room]? = some r ∧ r.roomId = w.roomId) : Kept cfg t := by
  refine ⟨h.sound hs.sound, fun hdomain => ?_, fun w hw => ?_⟩
  · cases hdomain.symm.trans (h.stage.trans hstage)
  · obtain ⟨r, hroom, hid⟩ := (hwaiting w hw).elim (hs.waiting w) id
    obtain ⟨r', hroom', hid'⟩ := roomId_kept h hroom
    exact ⟨r', hroom', hid'.trans hid⟩

theorem waiting_enterRoom (cfg : Config) (s : Page) :
    (enterRoom cfg s).waitingConfirm = s.waitingConfirm ∨
      (enterRoom cfg s).waitingConfirm = none := by
  unfold enterRoom
  dsimp only
  split
  · exact .inr rfl
  · refine .inl ?_
    unfold openRoom
    split
    · split
      · rfl
      · rw [settled_eq]
    · rfl

theorem waiting_roomInput (cfg : Config) (s : Page) (key : List Char) :
    (roomInput cfg s key).waitingConfirm = s.waitingConfirm ∨
      (roomInput cfg s key).waitingConfirm = none := by
  unfold roomInput
  split
  · split_ifs
    · exact .inl rfl
    · exact .inl rfl
    · exact waiting_enterRoom cfg s
    · exact .inl rfl
  · exact .inl rfl

theorem Kept.roomInput {s : Page} (key : List Char) (hstage : s.stage = .room) (hs : Kept cfg s) :
    Kept cfg (roomInput cfg s key) := by
  refine hs.change hstage (change_roomInput cfg s key) fun w hw => .inl ?_
  rcases waiting_roomInput cfg s key with hsame | hnone
  · exact hsame.symm.trans hw
  · cases hnone.symm.trans hw

theorem kept_handleInput {s : Page} (key : List Char) (hs : Kept cfg s) :
    Kept cfg (handleInput cfg s key) :=
  invariant_handleInput (fun _ _ h hs => Kept.frame h hs)
    (fun _ key h hs => Kept.roomInput key h hs) key hs

theorem kept_initIVR (cfg : Config) (link : Link) : Kept cfg (initIVR cfg link) := by
  refine invariant_initIVR (fun _ _ h hs => Kept.frame h hs)
    (fun _ key h hs => Kept.roomInput key h hs) link ?_
  exact ⟨sound_nil rfl rfl, fun _ => rfl, fun w hw => absurd hw.symm (Option.some_ne_none w)⟩

theorem waiting_mapperReplied {s : Page} {i : ℕ} {r : Room} {reply : MapperReply} {w : Waiting}
    (h : (mapperReplied s i r reply).waitingConfirm = some w) :
    s.waitingConfirm = some w ∨ w = ⟨i, r.roomId⟩ := by
  unfold mapperReplied Page.setRoom at h
  cases reply with
  | failed reason => exact .inl h
  | unreadable => exact .inl h
  | data m =>
    by_cases hconference : m.conference = []
    · simp only [if_pos hconference] at h
      exact .inr (Option.some.inj h).symm
    · simp only [if_neg hconference] at h
      exact .inl h

theorem kept_keyEvent {s : Page} (key : List Char) (hs : Kept cfg s) :
    Kept cfg (keyEvent cfg s key) := by
  unfold keyEvent
  split
  · exact kept_handleInput key hs
  · exact hs

theorem kept_pageStep {s t : Page} {e : Event} (h : PageStep cfg s e t) (hs : Kept cfg s) :
    Kept cfg t := by
  have hroomStage {i : ℕ} {r : Room} (hfound : s.rooms[i]? = some r) : s.stage = .room := by
    cases hstage : s.stage with
    | room => rfl
    | domain =>
      rw [hs.domain hstage, List.getElem?_nil] at hfound
      cases hfound
  cases h with
  | key key => exact kept_keyEvent key hs
  | roomName name =>
    have hnamed : Kept cfg { s with inputRoomName := name } :=
      ⟨⟨hs.sound.rooms, hs.sound.room⟩, hs.domain, hs.waiting⟩
    exact kept_keyEvent ['#'] hnamed
  | @mapped i r hfound hphase reply =>
    refine hs.change (hroomStage hfound) (change_mapperReplied reply hfound hphase) fun w hw => ?_
    rcases waiting_mapperReplied hw with hsame | rfl
    · exact .inl hsame
    · exact .inr ⟨r, hfound, rfl⟩
  | @token i r hfound hphase reply =>
    refine hs.change (hroomStage hfound) (change_tokenReplied reply hfound hphase) fun w hw => ?_
    refine .inl ?_
    unfold tokenReplied at hw
    split at hw
    · exact hw
    · exact hw
  | @resumed i r _ hfound hstep =>
    refine hs.change (hroomStage hfound) (change_resumed hstep) fun w hw => .inl ?_
    unfold resumed at hstep
    simp only [hfound] at hstep
    split at hstep
    · obtain rfl := Option.some.inj hstep
      simp only [settled_eq] at hw
      exact hw
    · obtain rfl := Option.some.inj hstep
      exact hw
    · cases hstep

theorem kept_reachable {s : Session} (h : Reachable cfg link s) : Kept cfg s.page := by
  refine Execution.invariant (I := fun s => Kept cfg s.page) (fun u e v hu hstep => ?_) h
    (kept_initIVR cfg link)
  obtain ⟨-, ⟨-, rfl⟩ | ⟨page, hpage, rfl⟩⟩ := next_cases hstep
  · rw [polled_page]
    exact hu
  · exact kept_pageStep hpage hu

/-- The code that an event enters. -/
def entered (s : Page) : Event → Option (List Char)
  | .key key => if key = ['#'] then some s.entered else none
  | .roomName name => some { s with inputRoomName := name }.entered
  | _ => none

section Steps

variable {s t : Page} {i : ℕ} {r : Room}

theorem room_proceed {j : ℕ} (hij : j ≠ i) (hroom : s.rooms[i]? = some r) :
    (s.proceed j).rooms[i]? = some r := by
  unfold Page.proceed
  split
  · split
    · exact (List.getElem?_set_ne hij).trans hroom
    · exact hroom
  · exact hroom

theorem room_openRoom (hroom : s.rooms[i]? = some r) : (openRoom cfg s).rooms[i]? = some r := by
  obtain ⟨hlt, -⟩ := List.getElem?_eq_some_iff.mp hroom
  unfold openRoom
  split
  · split
    · exact hroom
    · rw [settled_eq]
      exact (List.getElem?_append_left hlt).trans hroom
  · exact hroom

/-- Only its own code changes a refused room, and nothing but `#` enters a code. -/
theorem room_enterRoom (hs : Kept cfg s) (hroom : s.rooms[i]? = some r)
    (hcode : s.entered ≠ r.roomId) : (enterRoom cfg s).rooms[i]? = some r := by
  have hentered : { s with inputDigits := s.entered }.entered = s.entered := by
    unfold Page.entered
    split
    · rfl
    · rfl
  unfold enterRoom
  dsimp only
  split
  · next j hconfirmed =>
    refine @room_proceed { s with inputDigits := s.entered } i r j ?_ hroom
    rintro rfl
    obtain ⟨w, hw, hif⟩ := Option.bind_eq_some_iff.mp hconfirmed
    by_cases heq : { s with inputDigits := s.entered }.entered = w.roomId
    · rw [if_pos heq] at hif
      obtain rfl := Option.some.inj hif
      obtain ⟨q, hq, hid⟩ := hs.waiting w hw
      obtain rfl := Option.some.inj (hroom.symm.trans hq)
      exact hcode (hentered.symm.trans (heq.trans hid.symm))
    · rw [if_neg heq] at hif
      cases hif
  · exact @room_openRoom cfg { s with inputDigits := s.entered } i r hroom

theorem room_keyEvent {key : List Char} (hs : Kept cfg s) (hroom : s.rooms[i]? = some r)
    (hcode : key = ['#'] → s.entered ≠ r.roomId) : (keyEvent cfg s key).rooms[i]? = some r := by
  have hstage : s.stage = .room := by
    cases hstage : s.stage with
    | room => rfl
    | domain =>
      rw [hs.domain hstage, List.getElem?_nil] at hroom
      cases hroom
  unfold keyEvent
  split
  · rw [handleInput_room hstage]
    unfold roomInput
    split
    · split_ifs with _ _ henter
      · exact hroom
      · exact hroom
      · exact room_enterRoom hs hroom (hcode (henter ▸ rfl))
      · exact hroom
    · exact hroom
  · exact hroom

theorem room_pageStep {e : Event} (h : PageStep cfg s e t) (hs : Kept cfg s)
    (hroom : s.rooms[i]? = some r) (hphase : r.phase = .refused)
    (hcode : entered s e ≠ some r.roomId) : t.rooms[i]? = some r := by
  -- a room that is answered or goes on is another one
  have hother {j : ℕ} {q q' : Room} (hfound : s.rooms[j]? = some q) (hq : q.phase ≠ .refused) :
      (s.rooms.set j q')[i]? = some r := by
    refine (List.getElem?_set_ne ?_).trans hroom
    rintro rfl
    obtain rfl := Option.some.inj (hfound.symm.trans hroom)
    exact hq hphase
  cases h with
  | key key =>
    refine room_keyEvent hs hroom fun hkey heq => hcode ?_
    rw [entered, if_pos hkey, heq]
  | roomName name =>
    have hnamed : Kept cfg { s with inputRoomName := name } :=
      ⟨⟨hs.sound.rooms, hs.sound.room⟩, hs.domain, hs.waiting⟩
    refine room_keyEvent hnamed hroom fun _ heq => hcode ?_
    rw [entered, heq]
  | @mapped j q hfound hmapping reply =>
    have hset := @hother j q (mappedRoom q reply) hfound (hmapping ▸ Phase.noConfusion)
    unfold mapperReplied
    split
    · exact hset
    · exact hset
    · split
      · exact hset
      · exact hset
  | @token j q hfound htoken reply =>
    have hset := @hother j q (tokenRoom q reply) hfound (htoken ▸ Phase.noConfusion)
    unfold tokenReplied
    split
    · exact hset
    · exact hset
  | resumed hfound hstep =>
    unfold resumed at hstep
    simp only [hfound] at hstep
    split at hstep
    · next hmapped =>
      obtain rfl := Option.some.inj hstep
      rw [settled_eq]
      exact hother hfound (hmapped ▸ Phase.noConfusion)
    · next hprepared =>
      obtain rfl := Option.some.inj hstep
      exact hother hfound (hprepared ▸ Phase.noConfusion)
    · cases hstep

end Steps

/-- A room whose mapping is refused stays so, and is not handed over, until its code is entered. -/
theorem refused_until_entered {s t : Session} {i : ℕ} {r : Room} (h : Reachable cfg link s)
    (hroom : s.page.rooms[i]? = some r) (hphase : r.phase = .refused)
    (hrun : Execution
      (Guarded (fun s e => entered s.page e ≠ some r.roomId) (StepOf (next cfg))) s t) :
    t.page.rooms[i]? = some r ∧ t.page.room ≠ some i := by
  have hkept := kept_reachable h
  have hinvariant : Kept cfg t.page ∧ t.page.rooms[i]? = some r := by
    refine Execution.guarded_invariant (I := fun s => Kept cfg s.page ∧ s.page.rooms[i]? = some r)
      (fun u e v hu hcode hstep => ?_) hrun ⟨hkept, hroom⟩
    obtain ⟨-, ⟨-, rfl⟩ | ⟨page, hpage, rfl⟩⟩ := next_cases hstep
    · rw [polled_page]
      exact hu
    · exact ⟨kept_pageStep hpage hu.1, room_pageStep hpage hu.1 hu.2 hphase hcode⟩
  refine ⟨hinvariant.2, fun hwindow => ?_⟩
  obtain ⟨q, hq, hready⟩ := hinvariant.1.sound.room i hwindow
  obtain rfl := Option.some.inj (hinvariant.2.symm.trans hq)
  cases hphase.symm.trans hready

/-- The two platforms, behind a mapper. -/
def mappedPlatforms : Config := { twoPlatforms with mapper := true }

def refusedRoom : Room :=
  ⟨"bbb.example.org", "1234".toList, "1234".toList, "", none, .refused⟩

theorem refused_until_entered_another :
    ∃ s t : Session, Reachable mappedPlatforms ⟨[], [], [], "2.1234".toList⟩ s ∧
      s.page.rooms[0]? = some refusedRoom ∧ t.page.rooms.length = 2 ∧
      t.page.rooms[0]? = some refusedRoom ∧ t.page.room ≠ some 0 := by
  let guard : Session → Event → Bool := fun s e => decide (entered s.page e ≠ some "1234".toList)
  have hrefused : ((runEvents (next mappedPlatforms)
      (loaded mappedPlatforms ⟨[], [], [], "2.1234".toList⟩)
      [.mapper 0 (.data ⟨[], [], [], "unknown".toList⟩)]).bind fun s =>
        (runEvents (guardedNext guard (next mappedPlatforms)) s [.key ['5'], .key ['#']]).map
          fun t => (s.page.rooms[0]?, t.page.rooms.length)) = some (some refusedRoom, 2) := by
    decide +kernel
  obtain ⟨s, hs, hmap⟩ := Option.bind_eq_some_iff.mp hrefused
  obtain ⟨t, ht, heq⟩ := Option.map_eq_some_iff.mp hmap
  obtain ⟨hroom, hlength⟩ := Prod.mk.inj heq
  have hreach : Reachable mappedPlatforms ⟨[], [], [], "2.1234".toList⟩ s := runEvents_execution hs
  have hrun : Execution (Guarded (fun s e => entered s.page e ≠ some refusedRoom.roomId)
      (StepOf (next mappedPlatforms))) s t :=
    (runEvents_guarded ht).mono fun _ _ _ hstep => ⟨of_decide_eq_true hstep.1, hstep.2⟩
  obtain ⟨hstays, hwindow⟩ := refused_until_entered hreach hroom rfl hrun
  exact ⟨s, t, hreach, hroom, hlength, hstays, hwindow⟩

end Refused

section Console

variable {cfg : Config} {link : Link} {name : List Char} {codes : List (List Char)}

/-- Anything but a name from the console. -/
def quiet : Event → Bool
  | .roomName _ => false
  | _ => true

/-- The rooms opened since have the name of the console for their code. -/
def Named (name : List Char) (codes : List (List Char)) (s : Page) : Prop :=
  s.inputRoomName = name ∧
    ∃ k, s.rooms.map Room.roomId = codes ++ List.replicate k name

theorem Named.frame {s t : Page} (h : SameRooms s t) (hs : Named name codes s) :
    Named name codes t := by
  rw [Named, h.inputRoomName, h.rooms]
  exact hs

/-- Rooms that go on keep their codes. -/
theorem codes_set {rooms : List Room} {i : ℕ} {r r' : Room} (hfound : rooms[i]? = some r)
    (hid : r'.roomId = r.roomId) : (rooms.set i r').map Room.roomId = rooms.map Room.roomId := by
  obtain ⟨hlt, hget⟩ := List.getElem?_eq_some_iff.mp hfound
  rw [List.map_set, hid, ← hget, ← List.map_set, List.set_getElem_self]

theorem codes_proceed (s : Page) (i : ℕ) :
    (s.proceed i).rooms.map Room.roomId = s.rooms.map Room.roomId ∧
      (s.proceed i).inputRoomName = s.inputRoomName := by
  unfold Page.proceed
  split
  · next r hfound =>
    split
    · exact ⟨codes_set hfound rfl, rfl⟩
    · exact ⟨rfl, rfl⟩
  · exact ⟨rfl, rfl⟩

theorem named_enterRoom {s : Page} (hname : name ≠ []) (hs : Named name codes s) :
    Named name codes (enterRoom cfg s) := by
  have hentered : s.entered = name := by
    rw [Page.entered, hs.1, if_neg hname]
  unfold enterRoom
  dsimp only
  split
  · next i _ =>
    obtain ⟨hcodes, hsame⟩ := codes_proceed { s with inputDigits := s.entered } i
    exact ⟨hsame.trans hs.1, hcodes ▸ hs.2⟩
  · rw [hentered]
    unfold openRoom
    split
    · split
      · exact hs
      · next d _ =>
        obtain ⟨hsame, k, hk⟩ := hs
        rw [settled_eq]
        refine ⟨hsame, k + 1, ?_⟩
        rw [List.map_append, hk, List.replicate_succ', List.append_assoc]
        rfl
    · exact hs

theorem named_keyEvent {s : Page} (hname : name ≠ []) (key : List Char)
    (hs : Named name codes s) : Named name codes (keyEvent cfg s key) := by
  unfold keyEvent
  split
  · refine invariant_handleInput (fun _ _ h hs => Named.frame h hs) (fun s key _ hs => ?_) key hs
    unfold roomInput
    split
    · split_ifs
      · exact hs
      · exact hs
      · exact named_enterRoom hname hs
      · exact hs
    · exact hs
  · exact hs

theorem named_pageStep {s t : Page} {e : Event} (hname : name ≠ []) (h : PageStep cfg s e t)
    (he : quiet e = true) (hs : Named name codes s) : Named name codes t := by
  have hset {i : ℕ} {r r' : Room} (hfound : s.rooms[i]? = some r) (hid : r'.roomId = r.roomId) :
      ∃ k, (s.rooms.set i r').map Room.roomId = codes ++ List.replicate k name :=
    codes_set hfound hid ▸ hs.2
  cases h with
  | key key => exact named_keyEvent hname key hs
  | roomName other => cases he
  | mapped hfound hphase reply =>
    have hcodes := hset hfound (later_mappedRoom cfg reply hphase).1.roomId
    unfold mapperReplied
    split
    · exact ⟨hs.1, hcodes⟩
    · exact ⟨hs.1, hcodes⟩
    · split
      · exact ⟨hs.1, hcodes⟩
      · exact ⟨hs.1, hcodes⟩
  | token hfound hphase reply =>
    have hcodes := hset hfound (later_tokenRoom cfg reply hphase).1.roomId
    unfold tokenReplied
    split
    · exact ⟨hs.1, hcodes⟩
    · exact ⟨hs.1, hcodes⟩
  | resumed hfound hstep =>
    unfold resumed at hstep
    simp only [hfound] at hstep
    split at hstep
    · obtain rfl := Option.some.inj hstep
      rw [settled_eq]
      exact ⟨hs.1, hset hfound rfl⟩
    · obtain rfl := Option.some.inj hstep
      exact ⟨hs.1, hset hfound rfl⟩
    · cases hstep

/-- Once the console has sent a name, every room is opened under it, whatever is typed, until it
sends another one. -/
theorem console_name_stands {s t : Session} (hsent : s.page.inputRoomName = name)
    (hname : name ≠ [])
    (hrun : Execution (Guarded (fun _ e => quiet e = true) (StepOf (next cfg))) s t) :
    ∃ k, t.page.rooms.map Room.roomId =
      s.page.rooms.map Room.roomId ++ List.replicate k name := by
  have hs : Named name (s.page.rooms.map Room.roomId) s.page :=
    ⟨hsent, 0, (List.append_nil _).symm⟩
  refine (Execution.guarded_invariant
    (I := fun u => Named name (s.page.rooms.map Room.roomId) u.page)
    (fun u e v hu he hstep => ?_) hrun hs).2
  obtain ⟨-, ⟨-, rfl⟩ | ⟨page, hpage, rfl⟩⟩ := next_cases hstep
  · rw [polled_page]
    exact hu
  · exact named_pageStep hname hpage he hu

theorem console_name_stands_typed :
    ∃ s t : Session, Reachable mappedPlatforms ⟨[], [], [], "2".toList⟩ s ∧
      s.page.inputRoomName = "abcd".toList ∧ t.page.inputDigits = "abcd".toList ∧
      ∃ k, t.page.rooms.map Room.roomId = ["abcd".toList] ++ List.replicate k "abcd".toList := by
  have hruns : ((runEvents (next mappedPlatforms)
      (loaded mappedPlatforms ⟨[], [], [], "2".toList⟩) [.roomName "abcd".toList]).bind fun s =>
        (runEvents (guardedNext (fun _ e => quiet e) (next mappedPlatforms)) s
          [.key ['5'], .key ['#']]).map fun t =>
            (s.page.inputRoomName, s.page.rooms.map Room.roomId, t.page.inputDigits)) =
      some ("abcd".toList, ["abcd".toList], "abcd".toList) := by
    decide +kernel
  obtain ⟨s, hs, hmap⟩ := Option.bind_eq_some_iff.mp hruns
  obtain ⟨t, ht, heq⟩ := Option.map_eq_some_iff.mp hmap
  obtain ⟨hsent, hrest⟩ := Prod.mk.inj heq
  obtain ⟨hcodes, hdigits⟩ := Prod.mk.inj hrest
  refine ⟨s, t, runEvents_execution hs, hsent, hdigits, ?_⟩
  rw [← hcodes]
  exact console_name_stands hsent (by decide) (runEvents_guarded ht)

end Console

section Typing

variable {cfg : Config} {link : Link} {d : Domain}

/-- The address that names nothing. -/
def noLink : Link := ⟨[], [], [], []⟩

/-- What a caller types for a platform and the code of an address. -/
def typedFor (d : Domain) (link : Link) : List Char :=
  idText d ++ '#' :: (pendingRoomId link).elim [] fun code => code ++ ['#']

theorem openRoom_pending (cfg : Config) (s : Page) (p : Option (List Char)) :
    openRoom cfg { s with pendingRoomId := p } = { openRoom cfg s with pendingRoomId := p } := by
  unfold openRoom
  dsimp only
  split
  · split
    · rfl
    · rw [settled_eq, settled_eq]
  · rfl

theorem proceed_pending (s : Page) (i : ℕ) (p : Option (List Char)) :
    Page.proceed { s with pendingRoomId := p } i = { s.proceed i with pendingRoomId := p } := by
  unfold Page.proceed
  dsimp only
  split
  · split
    · rfl
    · rfl
  · rfl

/-- The code of the address is read when a platform is chosen, and not after. -/
theorem roomInput_pending (cfg : Config) (s : Page) (key : List Char) (p : Option (List Char)) :
    roomInput cfg { s with pendingRoomId := p } key =
      { roomInput cfg s key with pendingRoomId := p } := by
  have henter : enterRoom cfg { s with pendingRoomId := p } =
      { enterRoom cfg s with pendingRoomId := p } := by
    have hconfirmed : Page.confirmed { s with inputDigits := s.entered, pendingRoomId := p } =
      Page.confirmed { s with inputDigits := s.entered } := rfl
    cases hroom : Page.confirmed { s with inputDigits := s.entered } with
    | none =>
      have hopen := openRoom_pending cfg { s with inputDigits := s.entered } p
      simp only [enterRoom, Page.entered] at hconfirmed hroom hopen ⊢
      rw [hconfirmed, hroom]
      exact hopen
    | some i =>
      have hproceed := proceed_pending { s with inputDigits := s.entered } i p
      simp only [enterRoom, Page.entered] at hconfirmed hroom hproceed ⊢
      rw [hconfirmed, hroom]
      simp only [hproceed]
  unfold roomInput
  split
  · split_ifs
    · rfl
    · rfl
    · exact henter
    · rfl
  · rfl

theorem roomKeys_pending (cfg : Config) (s : Page) (cs : List Char) (p : Option (List Char)) :
    roomKeys cfg { s with pendingRoomId := p } cs =
      { roomKeys cfg s cs with pendingRoomId := p } := by
  induction cs generalizing s with
  | nil => rfl
  | cons c rest ih =>
    have hstep := ih (roomInput cfg s [c])
    rw [← roomInput_pending] at hstep
    exact hstep

theorem handleKeys_room {s : Page} (cs : List Char) (h : s.stage = .room) :
    handleKeys cfg s cs = roomKeys cfg s cs := by
  induction cs generalizing s with
  | nil => rfl
  | cons c rest ih =>
    have hstep := ih ((change_roomInput cfg s [c]).stage.trans h)
    rw [handleKeys, List.foldl_cons, handleInput_room h]
    exact hstep

/-- The address names one platform, by one of its parameters. -/
def Names (cfg : Config) (link : Link) (d : Domain) : Prop :=
  (mixedDomain cfg link = some d ∧ linkDomain cfg link = none) ∨
    (mixedDomain cfg link = none ∧ linkDomain cfg link = some d)

theorem Names.mem (h : Names cfg link d) : d ∈ domains cfg := by
  rcases h with ⟨hmixed, -⟩ | ⟨-, hlink⟩
  · exact (mixedDomain_spec hmixed).1
  · exact linkDomain_mem hlink

theorem numbered_self (hmem : d ∈ domains cfg) (hid : d.id ≤ 9) :
    numbered cfg (d.id % 10 : ℕ) = some d := by
  rw [Nat.mod_eq_of_lt (Nat.lt_succ_of_le hid)]
  exact numbered_of_mem hmem

theorem initIVR_names (h : Names cfg link d) :
    initIVR cfg link = selected cfg (blank (pendingRoomId link)) d := by
  rcases h with ⟨hmixed, hlink⟩ | ⟨hmixed, hlink⟩
  · obtain ⟨hmem, hid⟩ := mixedDomain_spec hmixed
    obtain ⟨f, hf, -⟩ := (chosen_self (unchosen_blank (pendingRoomId link)) hmem hid).selected
    simp only [initIVR, hmixed, hlink, selectedIf, onlyDomain, hf]
  · exact initIVR_named hmixed hlink

theorem initIVR_noLink (h : (domains cfg).length ≠ 1) : initIVR cfg noLink = blank none := by
  have hkeyed : keyed cfg [] = none := by
    refine List.find?_eq_none.mpr fun d _ hd => ?_
    exact Nat.toDigits_ne_nil (of_decide_eq_true hd)
  have hmixed : mixedDomain cfg noLink = none := rfl
  have hlink : linkDomain cfg noLink = none := hkeyed
  have honly : onlyDomain cfg (blank none) = none := by
    unfold onlyDomain
    split
    · next heq => exact absurd (heq ▸ rfl) h
    · rfl
  have hpending : pendingRoomId noLink = none := rfl
  simp only [initIVR, hmixed, hlink, hpending, selectedIf, honly]

theorem initIVR_code (h : Names cfg link d) (hid : d.id ≤ 9) {code : List Char}
    (hpending : pendingRoomId link = some code) :
    initIVR cfg link = roomKeys cfg ((blank none).withDomain d) (code ++ ['#']) := by
  have hkeys := roomKeys_pending cfg ((blank none).withDomain d) (code ++ ['#'])
  have hnone := hkeys none
  rw [initIVR_names h, selected_eq rfl, numbered_self h.mem hid, hpending]
  calc chooseDomain cfg _ d
      = { roomKeys cfg { (blank none).withDomain d with pendingRoomId := some code }
          (code ++ ['#']) with pendingRoomId := none } := rfl
    _ = { roomKeys cfg ((blank none).withDomain d) (code ++ ['#']) with
          pendingRoomId := none } := by
      rw [hkeys (some code)]
    _ = roomKeys cfg ((blank none).withDomain d) (code ++ ['#']) := hnone.symm

/-- The page when a caller has typed some keys, one after the other. -/
def typed (cfg : Config) (s : Page) (cs : List Char) : Page :=
  cs.foldl (fun s c => keyEvent cfg s [c]) s

/-- Only `#` hands a room over. -/
theorem listening_handleInput {s : Page} {c : Char} (hc : c ≠ '#') :
    (handleInput cfg s [c]).listening = s.listening := by
  unfold handleInput
  split
  · unfold domainInput
    dsimp only
    split_ifs
    · rfl
    · rfl
    · rfl
  · unfold roomInput
    dsimp only
    split_ifs
    · rfl
    · rfl
    · rfl

/-- While the page listens, what is typed is what it reads, up to the first `#`. -/
theorem typed_entered {s : Page} {cs : List Char} (hlistening : s.listening = true)
    (hcs : '#' ∉ cs) : typed cfg s (cs ++ ['#']) = handleKeys cfg s (cs ++ ['#']) := by
  induction cs generalizing s with
  | nil => exact if_pos hlistening
  | cons c cs ih =>
    have hc : c ≠ '#' := (List.ne_of_not_mem_cons hcs).symm
    have hkey : keyEvent cfg s [c] = handleInput cfg s [c] := if_pos hlistening
    have hstill : (handleInput cfg s [c]).listening = true :=
      (listening_handleInput hc).trans hlistening
    rw [List.cons_append, typed, List.foldl_cons, hkey]
    exact ih hstill (List.not_mem_of_not_mem_cons hcs)

theorem typed_append (cfg : Config) (s : Page) (cs ds : List Char) :
    typed cfg s (cs ++ ds) = typed cfg (typed cfg s cs) ds := List.foldl_append

theorem hash_notMem_idText (d : Domain) : '#' ∉ idText d := fun h =>
  absurd (Nat.isDigit_of_mem_toDigits (by decide) (by decide) h) (by decide)

/-- The page that an address opens is the one where a caller has typed the platform and the code. -/
theorem link_types (h : Names cfg link d) (hid : d.id ≤ 9) (hmany : (domains cfg).length ≠ 1)
    (hcode : ∀ code, pendingRoomId link = some code → '#' ∉ code) :
    initIVR cfg link = typed cfg (initIVR cfg noLink) (typedFor d link) := by
  have hself := numbered_self h.mem hid
  have hsplit : typedFor d link =
      (idText d ++ ['#']) ++ (pendingRoomId link).elim [] fun code => code ++ ['#'] := by
    rw [typedFor, List.append_assoc]
    rfl
  have htyped : typed cfg (blank none) (idText d ++ ['#']) = (blank none).withDomain d := by
    rw [typed_entered rfl (hash_notMem_idText d), handleKeys_idText rfl, hself]
    rfl
  rw [initIVR_noLink hmany, hsplit, typed_append, htyped]
  cases hpending : pendingRoomId link with
  | none =>
    rw [initIVR_names h, selected_eq rfl, hself, hpending]
    rfl
  | some code =>
    rw [initIVR_code h hid hpending, Option.elim_some, typed_entered rfl (hcode code hpending),
      handleKeys_room _ rfl]

theorem link_types_dialled :
    initIVR twoPlatforms ⟨[], [], [], "2.1234".toList⟩ =
      typed twoPlatforms (initIVR twoPlatforms noLink) "2#1234#".toList := by
  have hnames : Names twoPlatforms ⟨[], [], [], "2.1234".toList⟩
      ⟨2, "bigbluebutton", "BBB", "bbb.example.org"⟩ := by
    refine .inl ⟨?_, ?_⟩
    · decide +kernel
    · decide +kernel
  have htyped : typedFor ⟨2, "bigbluebutton", "BBB", "bbb.example.org"⟩
      ⟨[], [], [], "2.1234".toList⟩ = "2#1234#".toList := by decide +kernel
  have hpending : pendingRoomId ⟨[], [], [], "2.1234".toList⟩ = some "1234".toList := by
    decide +kernel
  rw [← htyped]
  refine link_types hnames (by decide) (by decide) fun code hcode => ?_
  obtain rfl := Option.some.inj (hpending.symm.trans hcode)
  decide

end Typing

end IvrCodes
