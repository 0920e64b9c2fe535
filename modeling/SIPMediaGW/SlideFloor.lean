import SIPMediaGW.EventHandler
import SIPMediaGW.LabelledExecutions

/-! # Who shows slides

The peer may share slides, and the meeting too. The event handler tells the browse thread by keys in
the queue of the caller's inputs; that thread asks the control port for the floor while the meeting
shows slides, and gives it back when the peer shares its own. -/
namespace SlideFloor

open EventHandler
open LabelledExecutions
open PythonJson
open StatefulExceptions

/-- What the page says of its slides, if it can be asked. -/
inductive Reading where
  | streamed (slide : Bool)
  | windowClosed
  | failed
  deriving DecidableEq, Repr

/-- `Browsing`, as far as slides go; `window` says that there still is a driver. -/
structure Meeting where
  screenShared : Bool
  streamedSlide : Bool
  window : Bool
  deriving DecidableEq, Repr

def slideSource (slideRes : String) : String :=
  "/slidesrc avformat,http://0.0.0.0:8080," ++ slideRes ++ ",5,1000000"

def takeFloor (slideRes : String) : List String := [slideSource slideRes, "/floorreq"]

def giveFloor : List String := ["/floorrel", "/slidesrc fakevideo,nil,2x2,1,1000"]

section Loop

variable (slideRes : String)

/-- `checkStreamedSlide`, with what it sends to the control port. -/
def checkStreamedSlide (m : Meeting) (reading : Reading) : Meeting × List String :=
  if m.window then
    match reading with
    | .windowClosed => ({ m with window := false }, [])
    | .failed => (m, [])
    | .streamed slide =>
      if slide = true ∧ m.streamedSlide = false ∧ m.screenShared = false then
        ({ m with streamedSlide := true }, takeFloor slideRes)
      else if (slide = false ∨ m.screenShared = true) ∧ m.streamedSlide = true then
        ({ m with streamedSlide := false }, giveFloor)
      else (m, [])
  else (m, [])

/-- What a key of the queue does to the flag; the page gets the key as well. -/
def takeKey (shared : Bool) (key : String) : Bool :=
  if key = "s" then true else if key = "q" then false else shared

/-- The event handler, its queue, and the meeting once the browse thread attends one. -/
structure System where
  ivr : Ivr
  meeting : Option Meeting
  sent : List String

inductive Event where
  | sip (data : Dict)
  /-- `IVR.interact`, while the page of the IVR is up. -/
  | prompt
  | attend (connector : Connector)
  /-- `Browsing.interact`. -/
  | interact
  | check (reading : Reading)

def next (from_uri : FromUri) (s : System) : Event → Option System
  | .sip data => some { s with ivr := (exec (eventHandler from_uri data) s.ivr).2 }
  | .prompt =>
    match s.meeting, s.ivr.userInputs with
    | none, _ :: rest => some { s with ivr := (BrowseStep.consumed rest).apply s.ivr }
    | _, _ => none
  | .attend connector =>
    match s.meeting with
    | none =>
      some { s with
        ivr := (BrowseStep.attend connector).apply s.ivr
        meeting := some ⟨false, false, true⟩ }
    | some _ => none
  | .interact =>
    match s.meeting, s.ivr.userInputs with
    | some m, key :: rest =>
      some { s with
        ivr := (BrowseStep.consumed rest).apply s.ivr
        meeting := some { m with screenShared := takeKey m.screenShared key } }
    | _, _ => none
  | .check reading =>
    s.meeting.map fun m =>
      let checked := checkStreamedSlide slideRes m reading
      { s with meeting := some checked.1, sent := s.sent ++ checked.2 }

def started (ivr : Ivr) : System := ⟨ivr, none, []⟩

end Loop

/-- The gateway holds the floor. -/
def holds (s : System) : Bool := s.meeting.any Meeting.streamedSlide

/-- The peer shares slides. -/
def shares (ivr : Ivr) : Bool := decide (ivr.screenShared = some true)

/-- The keys that say so. -/
def isSlideKey (key : String) : Bool := decide (key ∈ ["s", "q"])

/-- The flag once the keys of a queue are taken. -/
def drained (shared : Bool) (keys : List String) : Bool := keys.foldl takeKey shared

/-- Commands that take the floor and give it back in turn, and whether it is held after them. -/
inductive InTurn (slideRes : String) : Bool → List String → Prop where
  | start : InTurn slideRes false []
  | take {log : List String} (h : InTurn slideRes false log) :
      InTurn slideRes true (log ++ takeFloor slideRes)
  | give {log : List String} (h : InTurn slideRes true log) :
      InTurn slideRes false (log ++ giveFloor)

section Checks

variable {slideRes : String} {from_uri : FromUri} {s t : System} {e : Event}

/-- One check keeps the turns. -/
theorem inTurn_check {m : Meeting} {log : List String} (reading : Reading)
    (h : InTurn slideRes m.streamedSlide log) :
    InTurn slideRes (checkStreamedSlide slideRes m reading).1.streamedSlide
      (log ++ (checkStreamedSlide slideRes m reading).2) := by
  have hsame : InTurn slideRes m.streamedSlide (log ++ []) := by
    rw [List.append_nil]
    exact h
  unfold checkStreamedSlide
  split
  · cases reading with
    | windowClosed => exact hsame
    | failed => exact hsame
    | streamed slide =>
      by_cases htake : slide = true ∧ m.streamedSlide = false ∧ m.screenShared = false
      · rw [htake.2.1] at h
        simp only [if_pos htake]
        exact h.take
      · by_cases hgive : (slide = false ∨ m.screenShared = true) ∧ m.streamedSlide = true
        · rw [hgive.2] at h
          simp only [if_neg htake, if_pos hgive]
          exact h.give
        · simp only [if_neg htake, if_neg hgive]
          exact hsame
  · exact hsame

/-- After a reading the floor is held where the meeting shows slides and the peer does not. -/
theorem streamedSlide_check {m : Meeting} {slide : Bool} (hwindow : m.window = true) :
    (checkStreamedSlide slideRes m (.streamed slide)).1.streamedSlide =
      (slide && !m.screenShared) := by
  unfold checkStreamedSlide
  rw [if_pos hwindow]
  cases hslide : slide
  · cases hheld : m.streamedSlide <;> simp [hheld]
  · cases hshared : m.screenShared <;> cases hheld : m.streamedSlide <;> simp [hheld]

/-- What each event does where it can happen. -/
inductive Step (slideRes : String) (from_uri : FromUri) (s : System) : Event → System → Prop where
  | sip (data : Dict) : Step slideRes from_uri s (.sip data)
      { s with ivr := (exec (eventHandler from_uri data) s.ivr).2 }
  | prompt {key : String} {rest : List String} (meeting : s.meeting = none)
      (userInputs : s.ivr.userInputs = key :: rest) : Step slideRes from_uri s .prompt
      { s with ivr := (BrowseStep.consumed rest).apply s.ivr }
  | attend (connector : Connector) (meeting : s.meeting = none) :
      Step slideRes from_uri s (.attend connector)
      { s with
        ivr := (BrowseStep.attend connector).apply s.ivr
        meeting := some ⟨false, false, true⟩ }
  | interact {m : Meeting} {key : String} {rest : List String} (meeting : s.meeting = some m)
      (userInputs : s.ivr.userInputs = key :: rest) : Step slideRes from_uri s .interact
      { s with
        ivr := (BrowseStep.consumed rest).apply s.ivr
        meeting := some { m with screenShared := takeKey m.screenShared key } }
  | check {m : Meeting} (reading : Reading) (meeting : s.meeting = some m) :
      Step slideRes from_uri s (.check reading)
      { s with
        meeting := some (checkStreamedSlide slideRes m reading).1
        sent := s.sent ++ (checkStreamedSlide slideRes m reading).2 }

theorem step_of_next (h : next slideRes from_uri s e = some t) : Step slideRes from_uri s e t := by
  cases e with
  | sip data =>
    obtain rfl := Option.some.inj h
    exact .sip data
  | prompt =>
    simp only [next] at h
    split at h
    · next hmeeting hinputs =>
      obtain rfl := Option.some.inj h
      exact .prompt hmeeting hinputs
    · cases h
  | attend connector =>
    simp only [next] at h
    split at h
    · next hmeeting =>
      obtain rfl := Option.some.inj h
      exact .attend connector hmeeting
    · cases h
  | interact =>
    simp only [next] at h
    split at h
    · next hmeeting hinputs =>
      obtain rfl := Option.some.inj h
      exact .interact hmeeting hinputs
    · cases h
  | check reading =>
    obtain ⟨m, hmeeting, rfl⟩ := Option.map_eq_some_iff.mp h
    exact .check reading hmeeting

theorem inTurn_step (h : InTurn slideRes (holds s) s.sent) (hstep : Step slideRes from_uri s e t) :
    InTurn slideRes (holds t) t.sent := by
  cases hstep with
  | sip data => exact h
  | prompt _ _ => exact h
  | attend connector hmeeting =>
    rw [holds, hmeeting] at h
    exact h
  | interact hmeeting _ =>
    rw [holds, hmeeting] at h
    exact h
  | check reading hmeeting =>
    rw [holds, hmeeting] at h
    exact inTurn_check reading h

/-- Whatever happens, the floor is taken and given back in turn. -/
theorem floor_in_turn {ivr : Ivr}
    (h : Execution (StepOf (next slideRes from_uri)) (started ivr) s) :
    InTurn slideRes (holds s) s.sent :=
  Execution.invariant (I := fun s => InTurn slideRes (holds s) s.sent)
    (fun _ _ _ hs hstep => inTurn_step hs (step_of_next hstep)) h .start

def freshIvr : Ivr := Ivr.init none none none false

/-- A meeting that shows slides, and then none. -/
theorem floor_in_turn_shown :
    InTurn "1280x720" false (takeFloor "1280x720" ++ giveFloor) := by
  have hrun : runEvents (next "1280x720" none) (started freshIvr)
      [.attend .jitsi, .check (.streamed true), .check (.streamed false)] =
        some ⟨(BrowseStep.attend .jitsi).apply freshIvr, some ⟨false, false, true⟩,
          takeFloor "1280x720" ++ giveFloor⟩ := rfl
  exact floor_in_turn (runEvents_execution hrun)

end Checks

section Told

variable {data : Dict} {s t : Ivr} {from_uri : FromUri}

/-- What an event tells the browse thread. -/
inductive Told (data : Dict) (s t : Ivr) : Prop where
  | silent (userInputs : t.userInputs = s.userInputs)
      (screenShared : t.screenShared = s.screenShared)
  | key {key : String}
      (typed : key = "c" ∨
        isType data "CALL_DTMF_START" = true ∧ data.lookup "param" = some (.str key))
      (userInputs : t.userInputs = s.userInputs ++ [key])
      (screenShared : t.screenShared = s.screenShared)
  | started (userInputs : t.userInputs = s.userInputs ++ ["s"])
      (screenShared : t.screenShared = some true)
  | stopped (was : s.screenShared = some true) (userInputs : t.userInputs = s.userInputs ++ ["q"])
      (screenShared : t.screenShared = some false)

/-- The queue and the flag as they were. -/
def Untold (s t : Ivr) : Prop := t.userInputs = s.userInputs ∧ t.screenShared = s.screenShared

theorem untold_refl (s : Ivr) : Untold s s := ⟨rfl, rfl⟩

theorem untold_noteDirection (data : Dict) (s : Ivr) :
    Untold s (exec (noteDirection data) s).2 := by
  refine exec_read_state (P := Untold s) (fun direction _ => ?_) (untold_refl s)
  split
  · exact ⟨rfl, rfl⟩
  · exact ⟨rfl, rfl⟩

theorem untold_noteRoom (data : Dict) (s : Ivr) : Untold s (exec (noteRoom data) s).2 := by
  unfold noteRoom
  split
  · exact ⟨rfl, rfl⟩
  · exact ⟨rfl, rfl⟩

theorem untold_noteName (data : Dict) (s : Ivr) : Untold s (exec (noteName data) s).2 := by
  unfold noteName
  split
  · split
    · exact ⟨rfl, rfl⟩
    · exact ⟨rfl, rfl⟩
  · refine exec_read_state (P := Untold s) (fun uri _ => ?_) (untold_refl s)
    split
    · unfold nameFromUri
      split
      · exact ⟨rfl, rfl⟩
      · exact ⟨rfl, rfl⟩
    · exact ⟨rfl, rfl⟩

theorem Untold.bind {α β : Type} {p : Handling α} {f : α → Handling β}
    (hp : Untold s (exec p s).2) (hf : ∀ a t, Untold t (exec (f a) t).2) :
    Untold s (exec (p >>= f) s).2 := by
  refine exec_bind_state (P := Untold s) (fun a t h => ?_) fun e t h => ?_
  · rw [h] at hp
    exact ⟨(hf a t).1.trans hp.1, (hf a t).2.trans hp.2⟩
  · rw [h] at hp
    exact hp

theorem untold_callEstablished (data : Dict) (s : Ivr) :
    Untold s (exec (callEstablished data) s).2 :=
  (untold_noteDirection data s).bind fun _ t =>
    (untold_noteRoom data t).bind fun _ u => untold_noteName data u

theorem untold_putChat (text : String) (s : Ivr) : Untold s (exec (putChat text) s).2 := by
  rw [putChat, exec_bind_ok (exec_get s)]
  cases hmeeting : s.browsingObj with
  | none => exact untold_refl s
  | some connector =>
    by_cases hqueue : "chatMsg" ∈ connector.attributes
    · simp only [if_pos hqueue]
      exact ⟨rfl, rfl⟩
    · simp only [if_neg hqueue]
      exact untold_refl s

theorem untold_chatText (data : Dict) (s : Ivr) : Untold s (exec (chatText data) s).2 := by
  unfold chatText
  split
  · exact exec_read_state (P := Untold s) (fun text _ => untold_putChat text s) (untold_refl s)
  · exact untold_refl s

theorem told_chatAction (data : Dict) (s : Ivr) : Told data s (exec (chatAction data) s).2 := by
  unfold chatAction
  split
  · refine exec_read_state (P := Told data s) (fun action _ => ?_) (.silent rfl rfl)
    split
    · exact .key (.inl rfl) rfl rfl
    · exact .silent rfl rfl
  · exact .silent rfl rfl

/-- What comes after a program that tells nothing. -/
theorem Untold.told {u : Ivr} (h : Untold s t) (k : Told data t u) : Told data s u := by
  cases k with
  | silent hinputs hshared => exact .silent (hinputs.trans h.1) (hshared.trans h.2)
  | key htyped hinputs hshared => exact .key htyped (h.1 ▸ hinputs) (hshared.trans h.2)
  | started hinputs hshared => exact .started (h.1 ▸ hinputs) hshared
  | stopped hwas hinputs hshared => exact .stopped (h.2.symm.trans hwas) (h.1 ▸ hinputs) hshared

theorem Untold.then {α β : Type} {p : Handling α} {f : α → Handling β}
    (hp : Untold s (exec p s).2) (hf : ∀ a t, Told data t (exec (f a) t).2) :
    Told data s (exec (p >>= f) s).2 := by
  refine exec_bind_state (P := Told data s) (fun a t h => ?_) fun e t h => ?_
  · rw [h] at hp
    exact hp.told (hf a t)
  · rw [h] at hp
    exact .silent hp.1 hp.2

theorem told_chatInput (data : Dict) (s : Ivr) : Told data s (exec (chatInput data) s).2 :=
  (untold_chatText data s).then fun _ t => told_chatAction data t

theorem told_slidesStop (param : Json) (s : Ivr) :
    Told data s (exec (slidesStop param) s).2 := by
  by_cases hstop : isText param "VIDEO_SLIDES_STOP" = true
  · rw [slidesStop, if_pos hstop, exec_bind_ok (exec_get s)]
    cases hwas : s.screenShared with
    | none => exact .silent rfl rfl
    | some shared =>
      cases shared with
      | true => exact .stopped hwas rfl rfl
      | false => exact .silent rfl rfl
  · rw [slidesStop, if_neg hstop]
    exact .silent rfl rfl

theorem told_videoDisp (data : Dict) (s : Ivr) : Told data s (exec (videoDisp data) s).2 := by
  unfold videoDisp
  refine exec_read_state (P := Told data s) (fun param _ => ?_) (.silent rfl rfl)
  by_cases hstart : isText param "VIDEO_SLIDES_START" = true
  · have hstop : isText param "VIDEO_SLIDES_STOP" = false := isText_ne hstart (by decide)
    rw [slidesStart, if_pos hstart, exec_bind_ok (exec_modify _ _), slidesStop, if_neg (by
      rw [hstop]; exact Bool.false_ne_true)]
    exact .started rfl rfl
  · rw [slidesStart, if_neg hstart, exec_bind_ok (exec_pure _ _)]
    exact told_slidesStop param s

theorem untold_matchesFrom (from_uri : FromUri) (data : Dict) (s : Ivr) :
    Untold s (exec (matchesFrom from_uri data) s).2 := by
  unfold matchesFrom
  split
  · exact exec_read_state (P := Untold s) (fun peeruri _ => untold_refl s) (untold_refl s)
  · exact untold_refl s

theorem lookup_of_getItem {key : String} {v : Json} (h : getItem data key = .ok v) :
    data.lookup key = some v := by
  unfold getItem at h
  split at h
  · next hlookup => rw [hlookup, Except.ok.inj h]
  · cases h

theorem lookup_of_getText {key text : String} (h : getText data key = .ok text) :
    data.lookup key = some (.str text) := by
  unfold getText at h
  cases hitem : getItem data key with
  | error e =>
    rw [hitem] at h
    cases h
  | ok v =>
    rw [hitem] at h
    cases v with
    | str s =>
      obtain rfl := Except.ok.inj h
      exact lookup_of_getItem hitem
    | _ => cases h

/-- A key of the caller. -/
theorem told_dtmf {type : Json} (htype : getItem data "type" = .ok type)
    (hdtmf : isText type "CALL_DTMF_START" = true) (s : Ivr) :
    Told data s (exec (liftM (getText data "param") >>= fun param =>
      (modify fun ivr => { ivr with userInputs := ivr.userInputs ++ [param] } :
        Handling PUnit)) s).2 := by
  refine exec_read_state (P := Told data s) (fun param hparam => ?_) (.silent rfl rfl)
  refine .key (.inr ⟨?_, ?_⟩) rfl rfl
  · rw [isType, field, lookup_of_getItem htype]
    exact hdtmf
  · exact lookup_of_getText hparam

theorem told_eventHandler (s : Ivr) : Told data s (exec (eventHandler from_uri data) s).2 := by
  unfold eventHandler
  refine exec_read_state (P := Told data s) (fun type htype => ?_) (.silent rfl rfl)
  split_ifs with hincoming hestablished hdtmf hclosed htimeout hvideo hchat
  · exact (untold_matchesFrom from_uri data s).then fun _ _ => .silent rfl rfl
  · rw [exec_then_pure]
    have h := untold_callEstablished data s
    exact .silent h.1 h.2
  · rw [← bind_assoc, exec_then_pure]
    exact told_dtmf htype hdtmf s
  · exact (untold_matchesFrom from_uri data s).then fun _ _ => .silent rfl rfl
  · rw [exec_bind_ok (exec_get s)]
    split
    · exact .silent rfl rfl
    · exact .silent rfl rfl
  · rw [exec_then_pure]
    exact told_videoDisp data s
  · rw [exec_then_pure]
    exact told_chatInput data s
  · exact .silent rfl rfl

end Told

section Floor

variable {slideRes : String} {from_uri : FromUri} {s t : System} {e : Event}

/-- What the browse thread knows of the slides of the peer. -/
def known (s : System) : Bool := s.meeting.any Meeting.screenShared

/-- The keys of the queue bring the browse thread up to date. -/
def UpToDate (s : System) : Prop := drained (known s) s.ivr.userInputs = shares s.ivr

/-- The page of the IVR takes no slide key, and the peer dials none. -/
def Intact (s : System) : Event → Prop
  | .sip data => isType data "CALL_DTMF_START" = true → ∀ key,
      data.lookup "param" = some (.str key) → isSlideKey key = false
  | .prompt => ∀ key rest, s.ivr.userInputs = key :: rest → isSlideKey key = false
  | _ => True

theorem drained_append (shared : Bool) (keys : List String) (key : String) :
    drained shared (keys ++ [key]) = takeKey (drained shared keys) key := by
  rw [drained, List.foldl_append]
  rfl

theorem takeKey_of_not_slideKey {shared : Bool} {key : String} (h : isSlideKey key = false) :
    takeKey shared key = shared := by
  have hkey : key ∉ ["s", "q"] := of_decide_eq_false h
  have hs : key ≠ "s" := fun heq => hkey (heq ▸ List.mem_cons_self)
  have hq : key ≠ "q" := fun heq => hkey (heq ▸ List.mem_cons_of_mem _ List.mem_cons_self)
  rw [takeKey, if_neg hs, if_neg hq]

theorem upToDate_told {data : Dict} {ivr : Ivr} (h : UpToDate s) (htold : Told data s.ivr ivr)
    (hintact : Intact s (.sip data)) : UpToDate { s with ivr := ivr } := by
  unfold UpToDate at h ⊢
  cases htold with
  | silent hinputs hshared =>
    rw [shares, hshared, hinputs]
    exact h
  | key htyped hinputs hshared =>
    rename_i key
    have hkey : isSlideKey key = false := by
      obtain rfl | ⟨htype, hparam⟩ := htyped
      · decide
      · exact hintact htype key hparam
    rw [shares, hshared, hinputs, drained_append, takeKey_of_not_slideKey hkey]
    exact h
  | started hinputs hshared =>
    rw [shares, hshared, hinputs, drained_append]
    rfl
  | stopped _ hinputs hshared =>
    rw [shares, hshared, hinputs, drained_append]
    rfl

theorem known_check {m : Meeting} (reading : Reading) :
    (checkStreamedSlide slideRes m reading).1.screenShared = m.screenShared := by
  unfold checkStreamedSlide
  split_ifs with hwindow
  · cases reading with
    | windowClosed => rfl
    | failed => rfl
    | streamed slide => dsimp only; split_ifs <;> rfl
  · rfl

theorem upToDate_step (h : UpToDate s) (hintact : Intact s e)
    (hstep : StepOf (next slideRes from_uri) s e t) : UpToDate t := by
  cases step_of_next hstep with
  | sip data => exact upToDate_told h (told_eventHandler s.ivr) hintact
  | prompt hmeeting hinputs =>
    have hkey := hintact _ _ hinputs
    rw [UpToDate, known, hmeeting, hinputs, drained, List.foldl_cons,
      takeKey_of_not_slideKey hkey] at h
    rw [UpToDate, known, hmeeting]
    exact h
  | attend connector hmeeting =>
    rw [UpToDate, known, hmeeting] at h
    exact h
  | interact hmeeting hinputs =>
    rw [UpToDate, known, hmeeting, hinputs, drained, List.foldl_cons] at h
    exact h
  | check reading hmeeting =>
    rw [UpToDate, known, hmeeting] at h
    rw [UpToDate, known, Option.any_some, known_check]
    exact h

theorem upToDate_run {ivr : Ivr} (hinputs : ivr.userInputs = []) (hshared : shares ivr = false)
    (h : Execution (Guarded Intact (StepOf (next slideRes from_uri))) (started ivr) s) :
    UpToDate s := by
  refine Execution.guarded_invariant (I := UpToDate)
    (fun _ _ _ hs hintact hstep => upToDate_step hs hintact hstep) h ?_
  rw [UpToDate, started, hinputs, hshared]
  rfl

/-- The meeting once the browse thread has taken the keys that wait. -/
def Meeting.caughtUp (m : Meeting) (keys : List String) : Meeting :=
  { m with screenShared := drained m.screenShared keys }

/-- The browse thread takes every key that waits, and then checks. -/
theorem check_after_keys {m : Meeting} (reading : Reading) (hmeeting : s.meeting = some m) :
    runEvents (next slideRes from_uri) s
        (List.replicate s.ivr.userInputs.length .interact ++ [.check reading]) =
      some
        { ivr := { s.ivr with userInputs := [] }
          meeting := some
            (checkStreamedSlide slideRes (m.caughtUp s.ivr.userInputs) reading).1
          sent :=
            s.sent ++ (checkStreamedSlide slideRes (m.caughtUp s.ivr.userInputs) reading).2 } := by
  generalize hkeys : s.ivr.userInputs = keys
  induction keys generalizing s m with
  | nil =>
    have hivr : { s.ivr with userInputs := [] } = s.ivr := by rw [← hkeys]
    rw [hivr, List.length_nil, List.replicate_zero, List.nil_append, runEvents, next, hmeeting]
    rfl
  | cons key rest ih =>
    rw [List.length_cons, List.replicate_succ, List.cons_append, runEvents, next, hmeeting, hkeys]
    exact ih (s := { s with
      ivr := (BrowseStep.consumed rest).apply s.ivr
      meeting := some { m with screenShared := takeKey m.screenShared key } }) rfl rfl

/-- Once the waiting keys are taken, a check leaves the floor with the gateway exactly where the
meeting shows slides and the peer does not. -/
theorem floor_settles {ivr : Ivr} {m : Meeting} (slide : Bool) (hinputs : ivr.userInputs = [])
    (hshared : shares ivr = false)
    (h : Execution (Guarded Intact (StepOf (next slideRes from_uri))) (started ivr) s)
    (hmeeting : s.meeting = some m) (hwindow : m.window = true) :
    ∃ t, runEvents (next slideRes from_uri) s
        (List.replicate s.ivr.userInputs.length .interact ++ [.check (.streamed slide)]) = some t ∧
      shares t.ivr = shares s.ivr ∧ holds t = (slide && !shares s.ivr) := by
  have hdate := upToDate_run hinputs hshared h
  rw [UpToDate, known, hmeeting, Option.any_some] at hdate
  have hcaught : (m.caughtUp s.ivr.userInputs).window = true := hwindow
  refine ⟨_, check_after_keys (.streamed slide) hmeeting, rfl, ?_⟩
  rw [holds, Option.any_some, streamedSlide_check hcaught, Meeting.caughtUp, hdate]

/-- The status the SIP client sends when the peer starts to share. -/
def slidesStarted : Dict := [("type", .str "VIDEO_DISP"), ("param", .str "VIDEO_SLIDES_START")]

theorem exec_slidesStarted (ivr : Ivr) :
    (exec (eventHandler from_uri slidesStarted) ivr).2 =
      { ivr with userInputs := ivr.userInputs ++ ["s"], screenShared := some true } := by
  rfl

/-- A meeting that shows slides, where the peer starts to share. -/
def sharing : System where
  ivr := (exec (eventHandler none slidesStarted) ((BrowseStep.attend .jitsi).apply freshIvr)).2
  meeting := some ⟨false, true, true⟩
  sent := takeFloor "1280x720"

theorem floor_settles_shared :
    ∃ t, runEvents (next "1280x720" none) sharing [.interact, .check (.streamed true)] = some t ∧
      shares t.ivr = true ∧ holds t = false := by
  have hattend : Execution (Guarded Intact (StepOf (next "1280x720" none))) (started freshIvr)
      ⟨(BrowseStep.attend .jitsi).apply freshIvr, some ⟨false, false, true⟩, []⟩ :=
    .tail (e := .attend .jitsi) (.refl _) ⟨trivial, rfl⟩
  have hshown : Execution (Guarded Intact (StepOf (next "1280x720" none))) (started freshIvr)
      ⟨(BrowseStep.attend .jitsi).apply freshIvr, some ⟨false, true, true⟩,
        takeFloor "1280x720"⟩ :=
    .tail (e := .check (.streamed true)) hattend ⟨trivial, rfl⟩
  have hdial : isType slidesStarted "CALL_DTMF_START" = false := by decide
  have hshared : Execution (Guarded Intact (StepOf (next "1280x720" none))) (started freshIvr)
      sharing := by
    refine .tail (e := .sip slidesStarted) hshown ⟨fun hdtmf => ?_, rfl⟩
    rw [hdial] at hdtmf
    exact absurd hdtmf Bool.false_ne_true
  exact floor_settles true rfl rfl hshared rfl rfl

/-- A peer who starts while the page of the IVR is up goes unnoticed: the page takes the key. -/
theorem start_goes_unnoticed (slideRes : String) (connector : Connector)
    (hmeeting : s.meeting = none) (hinputs : s.ivr.userInputs = []) :
    ∃ t, runEvents (next slideRes from_uri) s
        [.sip slidesStarted, .prompt, .attend connector, .check (.streamed true)] = some t ∧
      shares t.ivr = true ∧ holds t = true := by
  rw [runEvents, next, Option.bind_some, exec_slidesStarted, hinputs, runEvents, next, hmeeting]
  exact ⟨_, rfl, rfl, rfl⟩

end Floor

end SlideFloor
