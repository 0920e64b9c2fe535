import SIPMediaGW.HistoryReaders
import SIPMediaGW.PoolView

/-! # From the history of a gateway to its row

The launcher reads the history file for the status of its gateway, the proxy stores what the
status tells, and the console shows the entry. -/
namespace ConsoleRows

open CallAges
open FieldMap
open HistoryAcceptance
open HistoryPayload (orElse)
open HistoryReaders
open JsonDumps
open PoolView
open ProxyRegistry
open PythonJson

/-- What the launcher reads in the container. -/
structure Container where
  recording_duration : String
  transcript_progress : Option String
  physical_room : String

def optional (key value : String) : Dict := if value = "" then [] else [(key, .str value)]

/-- What comes before the history. -/
def ofContainer (gwId : String) (c : Container) : Dict :=
  [("gw_state", .str "up"), ("gw_id", .str gwId)] ++
    optional "recording_duration" c.recording_duration ++
    (c.transcript_progress.map fun percent => ("transcript_progress", Json.str percent)).toList ++
    optional "physical_room" c.physical_room

def ofHistory (s : Status) : Dict :=
  [("browsing", s.browsing), ("room", s.room), ("peer_uri", s.peerUri),
   ("peer_name", .str s.peerName), ("call_started", s.callStarted)]

/-- A gateway as docker knows it; the text of its history file where there is one. -/
inductive Docker where
  | unknown
  | exited
  | gone
  | up (container : Container) (history : Option (List Char))

/-- The data of `/gateway/status`; none where it is an error. -/
def statusData (f : FloatTexts) (gwId : String) : Docker → Option Dict
  | .unknown => none
  | .exited => some [("gw_state", .str "down"), ("detail", .str "exited")]
  | .gone => some [("gw_state", .str "down")]
  | .up _ none => none
  | .up c (some file) =>
    match getStatus (parseHistoryFile f.floatOf file) with
    | .ok s => some (ofContainer gwId c ++ ofHistory s)
    | .error _ => none

def statusAnswer (data : Option Dict) : Json :=
  match data with
  | some data => .obj [("status", .str "success"), ("error", .null), ("data", .obj data)]
  | none => .obj [("status", .str "error"), ("data", .null)]

/-- The registry after the monitor has asked for the status of a gateway, whose entry it had read
before. -/
def monitored (repr : Json → String) (f : FloatTexts) (r : Redis) (gwId : String) (gw : Dict)
    (d : Docker) : Redis :=
  fetchAndStoreGatewayStatus repr r gwId gw (some (statusAnswer (statusData f gwId d)))

/-- A value as the console shows it: an absence, or its text. -/
def shownValue (repr : Json → String) (v : Json) : Json := cleanPart (textOrNull repr v)

/-- A field of the last record of a type. -/
def lastField (rs : List Entry) (recordType key : String) : Json :=
  ((lastOf recordType rs).map fun d => field d key).getD .null

/-- In a conference, on the voice menu, or in neither. -/
def stateOf (room callStarted peerUri : Json) : String :=
  if truthy room then "call" else if truthy callStarted || truthy peerUri then "ivr" else "idle"

/-- A row that says what the records say last. -/
structure Shows (repr : Json → String) (rs : List Entry) (g : GatewayStatus) : Prop where
  room : g.room = shownValue repr (lastField rs "room" "value")
  browsing : g.browsing = shownValue repr (lastField rs "browsing" "value")
  peer_uri : g.peer_uri = shownValue repr (lastField rs "call_start" "sourceURI")
  call_started : g.call_started = shownValue repr (lastField rs "call_start" "timestamp")
  state : g.state = .str (stateOf g.room g.call_started g.peer_uri)

section Monitored

variable {repr : Json → String} {f : FloatTexts} {r : Redis} {gwId key : String} {d : Docker}
  {data : Dict}

theorem monitored_eq (repr : Json → String) (f : FloatTexts) (r : Redis) (gwId : String)
    (gw : Dict) (d : Docker) : monitored repr f r gwId gw d =
      match statusData f gwId d with
      | some data => updateProgressInfo repr r gwId gw data
      | none => del r gwId := by
  unfold monitored
  cases statusData f gwId d <;> rfl

theorem entry_updated (gw data : Dict) (key : String) :
    (entry (updateProgressInfo repr r gwId gw data) gwId).lookup key =
      ((reportedFields repr data).reverse.lookup key).or (gw.lookup key) := by
  rw [entry, updateProgressInfo, lookup_put_self, lookup_gwLoad_gwDump, lookup_putAll]

/-- The fields that every report sets. -/
theorem field_updated (gw data : Dict)
    (hkey : key ∈ ["room", "physical_room", "browsing", "peer_uri", "peer_name", "call_started"]) :
    field (entry (updateProgressInfo repr r gwId gw data) gwId) key =
      textOrNull repr (field data key) := by
  have hlast : ((["room", "physical_room", "browsing", "peer_uri", "peer_name", "call_started"].map
      fun key => (key, textOrNull repr (field data key))).reverse).lookup key =
        some (textOrNull repr (field data key)) := by
    simp only [List.mem_cons, List.not_mem_nil, or_false] at hkey
    rcases hkey with rfl | rfl | rfl | rfl | rfl | rfl <;> rfl
  rw [field, entry_updated, reportedFields, List.reverse_append, lookup_append, hlast]
  rfl

theorem gw_state_updated (gw data : Dict) :
    (isText (field data "gw_state") "up" = true →
      field (entry (updateProgressInfo repr r gwId gw data) gwId) "gw_state" = .str "started") ∧
    (isText (field data "gw_state") "down" = true →
      field (entry (updateProgressInfo repr r gwId gw data) gwId) "gw_state" = .str "stopped") := by
  have hlast : ((["room", "physical_room", "browsing", "peer_uri", "peer_name", "call_started"].map
      fun key => (key, textOrNull repr (field data key))).reverse).lookup "gw_state" = none := rfl
  constructor
  · intro hup
    rw [field, entry_updated, reportedFields, List.reverse_append, lookup_append, hlast,
      Option.none_or, List.reverse_append, lookup_append, if_pos hup]
    rfl
  · intro hdown
    have hup : ¬ isText (field data "gw_state") "up" = true := by
      intro hup
      cases hstate : field data "gw_state" with
      | str s =>
        rw [hstate] at hup hdown
        rw [eq_of_beq hup] at hdown
        revert hdown
        decide
      | _ =>
        rw [hstate] at hup
        cases hup
    rw [field, entry_updated, reportedFields, List.reverse_append, lookup_append, hlast,
      Option.none_or, List.reverse_append, lookup_append, if_neg hup, if_pos hdown]
    rfl

end Monitored

section Records

variable {repr : Json → String} {f : FloatTexts} {app : Option MainApp} {as : List Append}
  {status : Status}
  {history : List (String × List Json)} {rs : List Entry} {key : String} {v : Json}

theorem shownValue_falsy (repr : Json → String) (h : truthy v = false) :
    shownValue repr v = .null := by
  rw [shownValue, textOrNull, if_neg (by rw [h]; exact Bool.false_ne_true)]
  rfl

theorem shownValue_orElse (repr : Json → String) (v : Json) :
    shownValue repr (orElse v (.str "")) = shownValue repr v := by
  cases h : truthy v with
  | true => rw [orElse, if_pos h]
  | false =>
    rw [orElse, if_neg (by rw [h]; exact Bool.false_ne_true), shownValue_falsy repr h]
    rfl

theorem shownValue_lastValue
    (hlast : (history.lookup key).bind List.getLast? = (lastOf key rs).map Json.obj)
    (h : lastValue history key = .ok v) :
    shownValue repr v = shownValue repr (lastField rs key "value") := by
  rw [lastValue, hlast] at h
  rw [lastField]
  cases hd : lastOf key rs with
  | none =>
    rw [hd] at h
    obtain rfl := Except.ok.inj h
    rfl
  | some d =>
    rw [hd] at h
    simp only [Option.map_some] at h
    cases hv : d.lookup "value" with
    | none =>
      rw [hv] at h
      cases h
    | some w =>
      rw [hv] at h
      obtain rfl := Except.ok.inj h
      simp only [Option.map_some, Option.getD_some, field, hv]

theorem field_lastCall (hlast : (history.lookup "call_start").bind List.getLast? =
      (lastOf "call_start" rs).map Json.obj) (key : String) :
    field (lastCall history) key = lastField rs "call_start" key := by
  rw [lastCall, hlast, lastField]
  cases lastOf "call_start" rs with
  | none => rfl
  | some d => rfl

/-- The status shows what the last records say. -/
theorem status_shows (hkept : ∀ a ∈ as, a.Kept) (hstart : ∃ a ∈ as, a.recordType = "gw_start")
    (h : getStatus (parseHistoryFile f.floatOf (written f app as)) = .ok status) :
    shownValue repr status.room = shownValue repr (lastField (entries as) "room" "value") ∧
    shownValue repr status.browsing =
      shownValue repr (lastField (entries as) "browsing" "value") ∧
    shownValue repr status.peerUri =
      shownValue repr (lastField (entries as) "call_start" "sourceURI") ∧
    shownValue repr status.callStarted =
      shownValue repr (lastField (entries as) "call_start" "timestamp") := by
  have hshown (key : String) : shown (parseHistoryFile f.floatOf (written f app as)) key =
      lastValue (parseHistoryFile f.floatOf (written f app as)) key :=
    if_pos (isSome_history hkept (by decide) hstart)
  have hcall := field_lastCall (@last_history f app as "call_start" hkept (by decide))
  obtain ⟨name, -, h⟩ := bind_eq_ok h
  obtain ⟨room, hroom, h⟩ := bind_eq_ok h
  obtain ⟨browsing, hbrowsing, h⟩ := bind_eq_ok h
  obtain rfl := Except.ok.inj h
  rw [hshown] at hroom hbrowsing
  refine ⟨shownValue_lastValue (last_history hkept (by decide)) hroom,
    shownValue_lastValue (last_history hkept (by decide)) hbrowsing, ?_, ?_⟩
  · rw [shownValue_orElse, hcall]
  · rw [shownValue_orElse, hcall]

end Records

section Report

variable {repr : Json → String} {r : Redis} {gwId key : String} {c : Container} {s : Status}

theorem lookup_optional_ne {k value : String} (h : key ≠ k) :
    (optional k value).lookup key = none := by
  unfold optional
  split
  · rfl
  · simp [List.lookup_cons, beq_eq_false_iff_ne.mpr h]

/-- What the history says comes through. -/
theorem field_report (hkey : key ∈ ["browsing", "room", "peer_uri", "peer_name", "call_started"]) :
    field (ofContainer gwId c ++ ofHistory s) key = field (ofHistory s) key := by
  have hnone : (ofContainer gwId c).lookup key = none := by
    have hpercent : ((c.transcript_progress.map fun percent =>
        ("transcript_progress", Json.str percent)).toList).lookup key = none := by
      cases c.transcript_progress with
      | none => rfl
      | some percent =>
        simp only [List.mem_cons, List.not_mem_nil, or_false] at hkey
        rcases hkey with rfl | rfl | rfl | rfl | rfl <;> rfl
    simp only [List.mem_cons, List.not_mem_nil, or_false] at hkey
    rw [ofContainer, lookup_append, lookup_append, lookup_append, hpercent,
      lookup_optional_ne (by rcases hkey with rfl | rfl | rfl | rfl | rfl <;> decide),
      lookup_optional_ne (by rcases hkey with rfl | rfl | rfl | rfl | rfl <;> decide)]
    rcases hkey with rfl | rfl | rfl | rfl | rfl <;> rfl
  rw [field, lookup_append, hnone, Option.none_or, ← field]

/-- The state of a gateway that is up. -/
theorem deriveState_up {gw : Dict} (h : field gw "gw_state" = .str "started") :
    deriveState gw = stateOf (cleanPart (field gw "room")) (cleanPart (field gw "call_started"))
      (cleanPart (field gw "peer_uri")) := by
  have hclean : cleanPart (.str "started") = .str "started" := by decide
  simp only [deriveState, h, hclean, stateOf]
  rfl

end Report

/-- The rows of a gateway after the monitor has asked for its status. -/
structure Follows (repr : Json → String) (f : FloatTexts) (gwId : String) (d : Docker)
    (gateways : List GatewayStatus) : Prop where
  /-- Up, with a history of records: what they say last, or no row when it cannot be read. -/
  up : ∀ (c : Container) (app : Option MainApp) (as : List Append),
    d = .up c (some (written f app as)) → (∀ a ∈ as, a.Kept) →
    (∃ a ∈ as, a.recordType = "gw_start") →
    ((∃ s, getStatus (parseHistoryFile f.floatOf (written f app as)) = .ok s) →
      ∃ g ∈ gateways, g.gw_id = gwIdOf gwId ∧ Shows repr (entries as) g) ∧
    ((∃ e, getStatus (parseHistoryFile f.floatOf (written f app as)) = .error e) →
      ∀ g ∈ gateways, g.gw_id ≠ gwIdOf gwId)
  /-- Down: free, in no call. -/
  down : d = .exited ∨ d = .gone → ∃ g ∈ gateways, g.gw_id = gwIdOf gwId ∧
    g.state = .str "free" ∧ g.room = .null ∧ g.browsing = .null ∧ g.peer_uri = .null ∧
    g.call_started = .null
  unknown : (d = .unknown ∨ ∃ c, d = .up c none) → ∀ g ∈ gateways, g.gw_id ≠ gwIdOf gwId

section Console

variable {repr : Json → String} {f : FloatTexts} {r : Redis} {gwId : String} {gw data : Dict}
  {d : Docker} {zone : SystemZone} {pairings : List (String × String)} {scan : List String}
  {n : ℤ} {gateways : List GatewayStatus}

theorem shown_updated : gwId ∈ shownKeys (updateProgressInfo repr r gwId gw data) := by
  refine List.mem_filter.mpr ⟨mem_keys_put.mpr (.inl rfl), ?_⟩
  rw [present, updateProgressInfo, lookup_put_self]
  rfl

theorem ids_updated (hids : ((keys r).map gwIdOf).Nodup) (hmem : gwId ∈ keys r) :
    ((keys (updateProgressInfo repr r gwId gw data)).map gwIdOf).Nodup := by
  rwa [updateProgressInfo, keys_put_of_mem hmem]

theorem ids_deleted (hids : ((keys r).map gwIdOf).Nodup) :
    ((keys (del r gwId)).map gwIdOf).Nodup :=
  ((List.filter_sublist.map Prod.fst).map gwIdOf).nodup hids

theorem no_row (hids : ((keys r).map gwIdOf).Nodup) (hmem : gwId ∈ keys r)
    (htells : Tells zone pairings (del r gwId) n gateways) :
    ∀ g ∈ gateways, g.gw_id ≠ gwIdOf gwId := by
  intro g hg hid
  obtain ⟨key, hkey, seconds, -, rfl⟩ := htells.rows g hg
  have hleft : key ∈ keys (del r gwId) := List.mem_of_mem_filter hkey
  have hkeyR : key ∈ keys r := (List.filter_sublist.map Prod.fst).mem hleft
  obtain rfl := List.inj_on_of_nodup_map hids hkeyR hmem hid
  have hsome := (mem_keys_iff _ _).mp hleft
  rw [lookup_del_self] at hsome
  cases hsome

/-- The row of a gateway whose status was told. -/
theorem row_updated (hids : ((keys r).map gwIdOf).Nodup) (hmem : gwId ∈ keys r)
    (htells : Tells zone pairings (updateProgressInfo repr r gwId gw data) n gateways) :
    ∃ g ∈ gateways, g.gw_id = gwIdOf gwId ∧
      g.state = .str (deriveState (entry (updateProgressInfo repr r gwId gw data) gwId)) ∧
      g.room = shownValue repr (field data "room") ∧
      g.browsing = shownValue repr (field data "browsing") ∧
      g.peer_uri = shownValue repr (field data "peer_uri") ∧
      g.call_started = shownValue repr (field data "call_started") := by
  obtain ⟨g, hg, seconds, rfl⟩ := htells.row_of_key (ids_updated hids hmem) shown_updated
  refine ⟨_, hg, rfl, rfl, ?_, ?_, ?_, ?_⟩
  · exact congrArg cleanPart (field_updated gw data (by decide))
  · exact congrArg cleanPart (field_updated gw data (by decide))
  · exact congrArg cleanPart (field_updated gw data (by decide))
  · exact congrArg cleanPart (field_updated gw data (by decide))

theorem shows_updated {c : Container} {s : Status} {app : Option MainApp} {as : List Append}
    (hkept : ∀ a ∈ as, a.Kept)
    (hstart : ∃ a ∈ as, a.recordType = "gw_start")
    (hstatus : getStatus (parseHistoryFile f.floatOf (written f app as)) = .ok s)
    (hids : ((keys r).map gwIdOf).Nodup) (hmem : gwId ∈ keys r)
    (htells : Tells zone pairings
      (updateProgressInfo repr r gwId gw (ofContainer gwId c ++ ofHistory s)) n gateways) :
    ∃ g ∈ gateways, g.gw_id = gwIdOf gwId ∧ Shows repr (entries as) g := by
  obtain ⟨g, hg, hid, hstate, hroom, hbrowsing, hpeer, hcall⟩ := row_updated hids hmem htells
  obtain ⟨hsroom, hsbrowsing, hspeer, hscall⟩ := @status_shows repr f app as s hkept hstart hstatus
  have hup := deriveState_up ((@gw_state_updated repr r gwId gw
    (ofContainer gwId c ++ ofHistory s)).1 rfl)
  rw [field_updated gw _ (by decide), field_updated gw _ (by decide),
    field_updated gw _ (by decide)] at hup
  have hsame : g.state = .str (stateOf g.room g.call_started g.peer_uri) := by
    rw [hstate, hup, hroom, hcall, hpeer]
    rfl
  rw [field_report (by decide)] at hroom hbrowsing hpeer hcall
  exact ⟨g, hg, hid, hroom.trans hsroom, hbrowsing.trans hsbrowsing, hpeer.trans hspeer,
    hcall.trans hscall, hsame⟩

/-- From the records that a gateway appends to its file to its row on the console. -/
theorem console_shows_history (hids : ((keys r).map gwIdOf).Nodup) (hmem : gwId ∈ keys r)
    (hscan : ScanOrder (monitored repr f r gwId gw d) scan) {statuses : Statuses}
    (h : pool zone pairings (monitored repr f r gwId gw d) scan n = .ok statuses) :
    Follows repr f gwId d statuses.gateways := by
  rw [monitored_eq] at hscan h
  have hupdated : ∀ data, statusData f gwId d = some data →
      Tells zone pairings (updateProgressInfo repr r gwId gw data) n statuses.gateways := by
    intro data hdata
    rw [hdata] at hscan h
    exact (console_tells_registry hscan (ids_updated hids hmem)).2 statuses h
  have habsent : statusData f gwId d = none → ∀ g ∈ statuses.gateways, g.gw_id ≠ gwIdOf gwId := by
    intro hdata
    rw [hdata] at hscan h
    exact no_row hids hmem ((console_tells_registry hscan (ids_deleted hids)).2 statuses h)
  refine ⟨?_, ?_, ?_⟩
  · rintro c app as rfl hkept hstart
    constructor
    · rintro ⟨s, hs⟩
      have hdata : statusData f gwId (.up c (some (written f app as))) =
          some (ofContainer gwId c ++ ofHistory s) := by
        simp only [statusData, hs]
      exact shows_updated hkept hstart hs hids hmem (hupdated _ hdata)
    · rintro ⟨e, he⟩
      refine habsent ?_
      simp only [statusData, he]
  · intro hdown
    obtain ⟨data, hdata, hstate, hnone⟩ : ∃ data, statusData f gwId d = some data ∧
        isText (field data "gw_state") "down" = true ∧
        ∀ key ∈ ["room", "browsing", "peer_uri", "call_started"], field data key = .null := by
      rcases hdown with rfl | rfl
      · exact ⟨_, rfl, rfl, by decide⟩
      · exact ⟨_, rfl, rfl, by decide⟩
    obtain ⟨g, hg, hid, hgstate, hroom, hbrowsing, hpeer, hcall⟩ :=
      row_updated hids hmem (hupdated data hdata)
    have hstopped := (@gw_state_updated repr r gwId gw data).2 hstate
    have hfree : deriveState (entry (updateProgressInfo repr r gwId gw data) gwId) = "free" := by
      rw [deriveState_free, isFree, hstopped]
      rfl
    rw [hnone _ (by decide)] at hroom hbrowsing hpeer hcall
    refine ⟨g, hg, hid, ?_, hroom, hbrowsing, hpeer, hcall⟩
    rw [hgstate, hfree]
  · rintro (rfl | ⟨c, rfl⟩)
    · exact habsent rfl
    · exact habsent rfl

end Console

/-- Up since its start, with a room. -/
def inLobby : Docker := .up ⟨"", none, ""⟩ (some (written plainFloats none [gwStart, spacedRoom]))

def afterLobby : Redis := monitored (fun _ => "") plainFloats threeGateways "gw1" [] inLobby

theorem console_shows_lobby : ∃ statuses,
    pool parisAutumn [] afterLobby ["gw1", "gw2", "gw3"] 1792892700000000 = .ok statuses ∧
      ∃ g ∈ statuses.gateways, g.gw_id = gwIdOf "gw1" ∧ g.room = .str "lobby " ∧
        g.state = .str "call" := by
  have hkeys : keys afterLobby = ["gw2", "gw1", "gw3"] := by decide +kernel
  have hscan : ScanOrder afterLobby ["gw1", "gw2", "gw3"] := by
    rw [ScanOrder, hkeys]
    decide
  have hids : ((keys afterLobby).map gwIdOf).Nodup := by
    rw [hkeys]
    decide
  have hreadable : (shownKeys afterLobby).all (fun key =>
      readable parisAutumn (field (entry afterLobby key) "call_started")) = true := by
    decide +kernel
  obtain ⟨statuses, hstatuses⟩ := (@console_tells_registry parisAutumn [] afterLobby _
    1792892700000000 hscan hids).1.mpr (List.all_eq_true.mp hreadable)
  have hkept : ∀ a ∈ [gwStart, spacedRoom], a.Kept := by
    intro a ha
    rcases List.mem_pair.mp ha with rfl | rfl
    · exact ⟨by decide, by decide, rfl⟩
    · exact ⟨by decide, by decide, rfl⟩
  have hread : (getStatus (parseHistoryFile plainFloats.floatOf
      (written plainFloats none [gwStart, spacedRoom]))).toOption.isSome = true := by decide +kernel
  have hok : ∃ s, getStatus (parseHistoryFile plainFloats.floatOf
      (written plainFloats none [gwStart, spacedRoom])) = .ok s := by
    cases hs : getStatus (parseHistoryFile plainFloats.floatOf
        (written plainFloats none [gwStart, spacedRoom])) with
    | ok s => exact ⟨s, rfl⟩
    | error e =>
      rw [hs] at hread
      cases hread
  have hfollows :=
    console_shows_history (r := threeGateways) (by decide) (by decide) hscan hstatuses
  obtain ⟨g, hg, hid, hshows⟩ := (hfollows.up _ _ _ rfl hkept
    ⟨gwStart, List.mem_cons_self, rfl⟩).1 hok
  have hroom : g.room = .str "lobby " := hshows.room
  refine ⟨statuses, hstatuses, g, hg, hid, hroom, ?_⟩
  rw [hshows.state, hroom]
  rfl

end ConsoleRows
