import Mathlib.Data.List.Find
import SIPMediaGW.CallUrlQuery
import SIPMediaGW.DisplayNameCodec
import SIPMediaGW.IvrCodes

/-! # From the dialled address to the room that is attended

Kamailio writes the user part of the called address before the name of the caller, the event handler
cuts it off again, the URL of the page carries it, and the page opens the room. -/
namespace DialledRooms

open CallUrl
open CallUrlQuery
open DisplayNameCodec
open EventHandler
open FormTexts
open IvrCodes
open IvrPage
open LabelledExecutions
open PercentTexts
open PythonJson
open QueryReaders
open StatefulExceptions

/-- What `setUrl` reads of the object, on a gateway that has a platform of its own or none. -/
def pageIvr (ivr : Ivr) (browsingName : String) : IVR :=
  ⟨IVRPath, ivr.name, ivr.roomName, "", browsingName, ivr.mixedId⟩

/-- `urlParams.get`, where nothing is read as an empty text. -/
def linkOf (params : List (String × String)) : Link where
  domainId := ((params.lookup "domainId").getD "").toList
  domainKey := ((params.lookup "domainKey").getD "").toList
  roomId := ((params.lookup "roomId").getD "").toList
  mixedId := ((params.lookup "mixedId").getD "").toList

/-- The address of the page of a call. -/
def callLink (m : Replacing) (browsingName : String) (data : Dict) (ivr : Ivr) : Link :=
  linkOf (urlSearchParams m
    (callUrl (pageIvr (exec (callEstablished data) ivr).2 browsingName)).toList)

/-- A call whose event says where the video goes, with the display name of the INVITE. -/
structure Announces (data : Dict) (r : Invite) : Prop where
  direction : (data.lookup "remotevideodir").isSome
  name : data.lookup "peerdisplayname" = some (.str (String.ofList (prefixed r.room r.name)))
  named : r.name ≠ []

/-- The number of a platform, a separator, and a code. -/
structure Dials (cfg : Config) (r : Invite) (d : Domain) (code : List Char) : Prop where
  mem : d ∈ domains cfg
  id : d.id ≤ 9
  room : r.room = idText d ++ '#' :: code ∨ r.room = idText d ++ '.' :: code
  plain : ∀ c ∈ code, accepted c = true ∧ c ≠ '.'
  several : code ≠ [] ∧ isDigitText code = false
  long : LongEnough cfg code

section Handler

variable {data : Dict} {r : Invite} {m : Replacing} {ivr : Ivr}

theorem exec_direction (h : (data.lookup "remotevideodir").isSome) (ivr : Ivr) :
    ∃ audioOnly, exec (noteDirection data) ivr = (.ok (), { ivr with audioOnly := audioOnly }) := by
  rw [noteDirection, exec_bind_ok (by rw [getItem_ok h, exec_liftM])]
  split
  · exact ⟨true, rfl⟩
  · exact ⟨ivr.audioOnly, rfl⟩

/-- What the event handler keeps of the display name. -/
theorem established (h : Announces data r) (ivr : Ivr) :
    (exec (callEstablished data) ivr).2.mixedId = String.ofList r.room ∧
      (exec (callEstablished data) ivr).2.name = String.ofList r.name ∧
      (exec (callEstablished data) ivr).2.roomName = ivr.roomName := by
  obtain ⟨audioOnly, hdirection⟩ := exec_direction h.direction ivr
  have hread := roomAndName_prefixed r.room_size r.name_plain.1
  have hroom : noteRoom data = modify fun ivr => { ivr with mixedId := String.ofList r.room } := by
    rw [noteRoom, h.name, Option.bind_some, hread]
  have hshown : shownName data = .str (String.ofList r.name) := by
    rw [shownName, h.name]
    dsimp only
    rw [hread]
  have htruthy : truthy (.str (String.ofList r.name)) = true := by
    have hne : String.ofList r.name ≠ "" := fun heq =>
      h.named (String.ofList_injective (heq.trans String.ofList_nil.symm))
    simpa [truthy] using hne
  have hname : noteName data = modify fun ivr => { ivr with name := String.ofList r.name } := by
    rw [noteName, hshown, if_pos htruthy]
  rw [callEstablished, exec_bind_ok hdirection, hroom, exec_bind_ok (exec_modify _ _), hname,
    exec_modify]
  exact ⟨rfl, rfl, rfl⟩

/-- The page reads what the handler has kept. -/
theorem given_page {page : IVR} (hmixed : page.mixedId ≠ "")
    (hplain : ∀ s ∈ [page.name, page.roomName, page.browsingId, page.browsingName],
      Verbatim s.toList) : Given page (urlSearchParams m (callUrl page).toList) := by
  rw [callUrl_toList, urlSearchParams_eq, given_iff (unquotes_page m),
    intact_iff (unquotes_page m)]
  exact ⟨hplain, fun h => absurd h hmixed⟩

theorem get_lookup {params : List (String × String)} {key value : String}
    (h : params.lookup key = if value = "" then none else some value) :
    (params.lookup key).getD "" = value := by
  rw [h]
  split
  · next hempty => exact hempty.symm
  · rfl

theorem callLink_eq (h : Announces data r) (hroom : r.room ≠ [])
    (hplain : Verbatim r.name ∧ Verbatim ivr.roomName.toList) :
    callLink m "" data ivr = ⟨[], [], ivr.roomName.toList, r.room⟩ := by
  obtain ⟨hmixed, hname, hstatic⟩ := established h ivr
  have hmixedId : (pageIvr (exec (callEstablished data) ivr).2 "").mixedId ≠ "" := by
    change (exec (callEstablished data) ivr).2.mixedId ≠ ""
    rw [hmixed]
    exact fun heq => hroom (String.ofList_injective (heq.trans String.ofList_nil.symm))
  have hverbatim : ∀ s ∈ [(exec (callEstablished data) ivr).2.name,
      (exec (callEstablished data) ivr).2.roomName, "", ""], Verbatim s.toList := by
    rw [hname, hstatic]
    simp only [List.forall_mem_cons, List.not_mem_nil, false_imp_iff, implies_true, and_true,
      String.toList_ofList]
    exact ⟨hplain.1, hplain.2, verbatim_nil, verbatim_nil⟩
  obtain ⟨-, hgiven⟩ := @given_page m _ hmixedId hverbatim
  have hid := get_lookup (hgiven ("domainId", "") (by simp [pageIvr]))
  have hkey := get_lookup (hgiven ("domainKey", "") (by simp [pageIvr]))
  have hroomId := get_lookup (hgiven ("roomId", ivr.roomName) (by simp [pageIvr, hstatic]))
  have hdialled := get_lookup (hgiven ("mixedId", String.ofList r.room) (by simp [pageIvr, hmixed]))
  rw [callLink, linkOf, hid, hkey, hroomId, hdialled]
  exact congrArg (Link.mk [] [] ivr.roomName.toList) String.toList_ofList

end Handler

section Dialling

variable {cfg : Config} {r : Invite} {d : Domain} {code : List Char} {static : List Char}

/-- The page cuts the dialled text where the caller has put the separator. -/
theorem mixedParts_eq (h : Dials cfg r d code) : mixedParts r.room = (idText d, code) := by
  have hlt : d.id < 10 := by
    have hid := h.id
    omega
  have hdigit : ∀ n : Fin 10, (decide (Nat.digitChar n = '#') || decide (Nat.digitChar n = '.')) =
      false := by decide
  have hnumber : ∀ x ∈ idText d, (decide (x = '#') || decide (x = '.')) = false := by
    rw [idText, Nat.toDigits_of_lt_base hlt, List.forall_mem_singleton]
    exact hdigit ⟨d.id, hlt⟩
  have hcode : ∀ x ∈ code, (decide (x = '#') || decide (x = '.')) = false := by
    intro x hx
    obtain ⟨haccepted, hpoint⟩ := h.plain x hx
    have hhash : x ≠ '#' := by
      rintro rfl
      exact absurd haccepted (by decide)
    rw [decide_eq_false hhash, decide_eq_false hpoint, Bool.or_self]
  obtain ⟨c, rest, rfl⟩ := List.exists_cons_of_ne_nil h.several.1
  have hchoice (sep : Char) : isChoice (idText d ++ sep :: c :: rest) = false := by
    rw [idText, Nat.toDigits_of_lt_base hlt]
    rfl
  have hcut (sep : Char) (hsep : (decide (sep = '#') || decide (sep = '.')) = true) :
      (idText d ++ sep :: c :: rest).splitOnP (fun x => decide (x = '#') || decide (x = '.')) =
        [idText d, c :: rest] := by
    rw [List.splitOnP_append_cons_of_forall_mem hnumber sep hsep, List.splitOnP_eq_singleton hcode]
  rcases h.room with hroom | hroom
  · rw [mixedParts, hroom, hchoice, hcut '#' (by decide)]
    rfl
  · rw [mixedParts, hroom, hchoice, hcut '.' (by decide)]
    rfl

theorem keyed_idText (hmem : d ∈ domains cfg) : keyed cfg (idText d) = some d := by
  rw [← numbered_of_mem hmem, keyed, numbered]
  refine List.find?_congr fun e _ => ?_
  rw [decide_eq_decide]
  constructor
  · intro heq
    have hvalue := congrArg (fun cs => Nat.ofDigitChars 10 cs 0) heq
    simp only [idText, Nat.ofDigitChars_toDigits (b := 10) (by decide) (by decide)] at hvalue
    exact_mod_cast hvalue
  · intro heq
    rw [idText, idText, Int.ofNat.inj heq]

theorem names_dialled (h : Dials cfg r d code) : Names cfg ⟨[], [], static, r.room⟩ d := by
  have hid := h.id
  have hpos := one_le_id h.mem
  have hall : ∀ n : Fin 10, 1 ≤ n.val → isChoice [Nat.digitChar n] = true := by decide
  have hchoice : isChoice (idText d) = true := by
    rw [idText, Nat.toDigits_of_lt_base (by omega)]
    exact hall ⟨d.id, by omega⟩ hpos
  have hnone : keyed cfg [] = none := by
    refine List.find?_eq_none.mpr fun e _ he => ?_
    exact Nat.toDigits_ne_nil (of_decide_eq_true he)
  refine .inl ⟨?_, hnone⟩
  simp only [mixedDomain, mixedParts_eq h]
  rw [if_pos hchoice]
  exact keyed_idText h.mem

theorem pendingRoomId_dialled (h : Dials cfg r d code) :
    pendingRoomId ⟨[], [], static, r.room⟩ = some code := by
  simp only [pendingRoomId, mixedParts_eq h]
  rw [if_pos ⟨h.several.1, h.several.2⟩]

theorem roomKeys_typed {s : Page} (cs : List Char) (hcs : ∀ c ∈ cs, accepted c = true)
    (hstatus : s.status = .clear) :
    roomKeys cfg s cs = { s with inputDigits := s.inputDigits ++ cs } := by
  induction cs generalizing s with
  | nil => rw [List.append_nil]; rfl
  | cons c rest ih =>
    obtain ⟨hc, hrest⟩ := List.forall_mem_cons.mp hcs
    have hone : roomInput cfg s [c] = { s with inputDigits := s.inputDigits ++ [c] } := by
      simp only [roomInput, hc, if_true, ← hstatus]
    have hlater := @ih { s with inputDigits := s.inputDigits ++ [c] } hrest hstatus
    rw [List.append_assoc] at hlater
    rw [roomKeys, List.foldl_cons, hone]
    exact hlater

/-- The page on which the dialled room is open. -/
theorem initIVR_dialled (h : Dials cfg r d code) :
    initIVR cfg ⟨[], [], static, r.room⟩ =
      { (blank none).withDomain d with
        inputDigits := code
        rooms := [initRoom cfg d code] }.settled 0 (initRoom cfg d code) := by
  have htyped := @roomKeys_typed cfg ((blank none).withDomain d) code (fun c hc => (h.plain c hc).1)
    rfl
  have hsplit : ∀ s cs ds, roomKeys cfg s (cs ++ ds) = roomKeys cfg (roomKeys cfg s cs) ds :=
    fun s cs ds => List.foldl_append
  rw [initIVR_code (names_dialled h) h.id (pendingRoomId_dialled h), hsplit, htyped, roomKeys,
    List.foldl_cons, List.foldl_nil]
  have hhash : accepted '#' = false := by decide
  have hstar : ¬ '#' = '*' := by decide
  simp only [roomInput, hhash, Bool.false_eq_true, if_false, hstar, if_true]
  change openRoom cfg { (blank none).withDomain d with inputDigits := code } = _
  unfold openRoom
  rw [if_pos h.long]
  rfl

end Dialling

section Runs

variable {cfg : Config} {r : Invite} {d : Domain} {code : List Char} {data : Dict} {ivr : Ivr}
  {room : Room}

/-- The one room is ready, and the page has stopped listening. -/
structure HandedOver (d : Domain) (room : Room) (s : Session) : Prop where
  rooms : s.page.rooms = [room]
  window : s.page.room = some 0
  listening : s.page.listening = false
  browsing : s.page.browsing = some d.key
  browsingName : s.browsingName = "" ∨ s.browsingName = d.key
  result : ∀ name other, s.result = some (name, other) → name = d.key ∧ other = room

theorem HandedOver.next {s t : Session} {e : Event} (hready : room.phase = .ready)
    (h : HandedOver d room s) (hstep : next cfg s e = some t) : HandedOver d room t := by
  have hfound {i : ℕ} {q : Room} (hq : s.page.rooms[i]? = some q) : q = room := by
    rw [h.rooms] at hq
    exact List.mem_singleton.mp (List.mem_of_getElem? hq)
  obtain ⟨hnone, ⟨-, rfl⟩ | ⟨page, hpage, rfl⟩⟩ := next_cases hstep
  · unfold polled
    by_cases hname : s.browsingName = ""
    · rw [if_pos hname]
      exact ⟨h.rooms, h.window, h.listening, h.browsing, .inr (by rw [h.browsing]; rfl), h.result⟩
    · rw [if_neg hname]
      split
      · next q hq =>
        obtain ⟨i, -, hq⟩ := Option.bind_eq_some_iff.mp hq
        refine ⟨h.rooms, h.window, h.listening, h.browsing, h.browsingName, ?_⟩
        intro name other hresult
        obtain ⟨rfl, rfl⟩ := Prod.mk.inj (Option.some.inj hresult)
        exact ⟨h.browsingName.resolve_left hname, hfound hq⟩
      · exact h
  · have hdeaf (page : Page) (key : List Char) (hpage : page.listening = false) :
        keyEvent cfg page key = page := by
      rw [keyEvent, hpage, if_neg Bool.false_ne_true]
    cases hpage with
    | key key =>
      rw [hdeaf s.page key h.listening]
      exact h
    | roomName name =>
      rw [sendRoomName, hdeaf { s.page with inputRoomName := name } ['#'] h.listening]
      exact ⟨h.rooms, h.window, h.listening, h.browsing, h.browsingName, h.result⟩
    | mapped hq hphase _ =>
      rw [hfound hq, hready] at hphase
      cases hphase
    | token hq hphase _ =>
      rw [hfound hq, hready] at hphase
      cases hphase
    | resumed hq hresumed =>
      unfold resumed at hresumed
      rw [hq, hfound hq] at hresumed
      simp only [hready, reduceCtorEq] at hresumed

/-- Two polls are enough for a room that is handed over. -/
theorem polled_twice {s : Session} {i : ℕ} {key : String} (hname : s.browsingName = "")
    (hbrowsing : s.page.browsing = some key) (hkey : key ≠ "") (hwindow : s.page.room = some i)
    (hroom : s.page.rooms[i]? = some room) (hresult : s.result = none) :
    runEvents (next cfg) s [.poll, .poll] =
      some { s with browsingName := key, result := some (key, room) } := by
  have hfirst : next cfg s .poll = some { s with browsingName := key } := by
    rw [next, hresult, Option.isSome_none, if_neg Bool.false_ne_true]
    simp only [polled, if_pos hname, hbrowsing, Option.getD_some, hresult]
  have hsecond : next cfg { s with browsingName := key } .poll =
      some { s with browsingName := key, result := some (key, room) } := by
    rw [next, hresult, Option.isSome_none, if_neg Bool.false_ne_true]
    simp only [polled, if_neg hkey, hwindow, Option.bind_some, hroom]
  rw [runEvents, hfirst, Option.bind_some, runEvents, hsecond]
  rfl

/-- The caller who dials a platform and a code gets that room, on that platform. -/
theorem dialled_room_attended (m : Replacing) (h : Announces data r) (hd : Dials cfg r d code)
    (hplain : Verbatim r.name ∧ Verbatim ivr.roomName.toList) :
    (initIVR cfg (callLink m "" data ivr)).rooms = [initRoom cfg d code] ∧
    (cfg.mapper = false → cfg.authUrl = false → d.key ≠ "" →
      (∀ s, Reachable cfg (callLink m "" data ivr) s →
        ∀ name room, s.result = some (name, room) → name = d.key ∧ room = initRoom cfg d code) ∧
      ∃ s, polledTwice cfg (callLink m "" data ivr) = some s ∧
        s.result = some (d.key, initRoom cfg d code)) := by
  have hne : r.room ≠ [] := by
    rcases hd.room with hroom | hroom
    · rw [hroom]
      exact List.append_ne_nil_of_right_ne_nil _ (List.cons_ne_nil _ _)
    · rw [hroom]
      exact List.append_ne_nil_of_right_ne_nil _ (List.cons_ne_nil _ _)
  rw [callLink_eq h hne hplain, initIVR_dialled hd, settled_eq]
  refine ⟨rfl, fun hmapper hauth hkey => ?_⟩
  have hready : (initRoom cfg d code).phase = .ready := by
    simp [initRoom, tokenPhase, hmapper, hauth]
  have hloaded : loaded cfg ⟨[], [], ivr.roomName.toList, r.room⟩ =
      ⟨{ (blank none).withDomain d with
          inputDigits := code
          rooms := [initRoom cfg d code]
          room := some 0
          listening := false }, "", none⟩ := by
    rw [loaded, initIVR_dialled hd, settled_eq, if_pos hready, if_pos hready]
  constructor
  · intro s hs name room hresult
    have hfirst : HandedOver d (initRoom cfg d code)
        (loaded cfg ⟨[], [], ivr.roomName.toList, r.room⟩) := by
      rw [hloaded]
      exact ⟨rfl, rfl, rfl, rfl, .inl rfl,
        fun _ _ hnone => absurd hnone.symm (Option.some_ne_none _)⟩
    have hover : HandedOver d (initRoom cfg d code) s :=
      Execution.invariant (I := HandedOver d (initRoom cfg d code))
        (fun _ _ _ hu hstep => HandedOver.next hready hu hstep) hs hfirst
    exact hover.result name room hresult
  · rw [polledTwice, hloaded]
    exact ⟨_, polled_twice rfl rfl hkey rfl rfl rfl, rfl⟩

theorem annRoom_plain : '@' ∉ "2.1234".toList := by decide

theorem annRoom_size : "2.1234".toList.length < 2 ^ 63 := by decide

/-- The room 1234 of the second platform, dialled by Ann. -/
def annInvite : Invite :=
  { hyphenInvite with
    room := "2.1234".toList, room_plain := annRoom_plain, room_size := annRoom_size }

def annData : Dict :=
  [("remotevideodir", .str "sendrecv"), ("peerdisplayname", .str "6-2.1234Ann")]

def secondPlatform : Domain := ⟨2, "bigbluebutton", "BBB", "bbb.example.org"⟩

theorem dialled_room_attended_ann :
    ∃ s, polledTwice twoPlatforms
        (callLink plainReplacing "" annData (Ivr.init none none none false)) = some s ∧
      s.result = some ("bigbluebutton", initRoom twoPlatforms secondPlatform "1234".toList) := by
  have hprefixed : prefixed annInvite.room annInvite.name = "6-2.1234Ann".toList := by
    decide +kernel
  have hannounces : Announces annData annInvite := by
    refine ⟨rfl, ?_, List.cons_ne_nil _ _⟩
    rw [hprefixed, String.ofList_toList]
    rfl
  have hdials : Dials twoPlatforms annInvite secondPlatform "1234".toList := by
    have hplain : "1234".toList.all (fun c => decide (accepted c = true ∧ c ≠ '.')) = true := by
      decide
    refine ⟨List.mem_cons_of_mem _ List.mem_cons_self, by decide, .inr ?_, ?_, ?_, .inr ?_⟩
    · decide +kernel
    · exact fun c hc => of_decide_eq_true (List.all_eq_true.mp hplain c hc)
    · decide
    · decide
  have hclean : Clean annInvite.name := by
    intro c hc
    have hall : "Ann".toList.all (fun c => decide (c ≠ '&' ∧ c ≠ '#' ∧ isBreak c = false)) =
      true := by decide
    exact of_decide_eq_true (List.all_eq_true.mp hall c hc)
  have hann : Verbatim annInvite.name := ⟨hclean, rfl, by decide⟩
  have hstatic : Verbatim (Ivr.init none none none false).roomName.toList := verbatim_nil
  exact ((dialled_room_attended plainReplacing hannounces hdials ⟨hann, hstatic⟩).2 rfl rfl
    (by decide)).2

end Runs

end DialledRooms
