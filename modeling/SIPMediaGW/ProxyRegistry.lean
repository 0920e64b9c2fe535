import SIPMediaGW.FieldMap
import SIPMediaGW.PythonJson
import Mathlib.Data.List.Infix

/-! # The gateway registry

The `gateway:<gw_id>` entries of Redis and what `proxy.py` and `ScalerMedia.py` read and
write in them. A key is what follows `gateway:`. A stored text is represented by what
`json.loads` makes of it. `repr` gives the text of a float, a list or an object. -/
namespace ProxyRegistry

open FieldMap
open PythonJson

inductive RedisText where
  | empty
  | garbage
  | json (v : Json)

/-- `if rawValue:` -/
def RedisText.present : RedisText → Bool
  | .empty => false
  | _ => true

abbrev Redis := List (String × RedisText)

def gwFields : List String :=
  ["gw_ip", "gw_state", "gw_type", "room", "physical_room", "start_time", "media_duration",
   "transcript_progress", "browsing", "peer_uri", "peer_name", "call_started"]

def gwLoad : Option RedisText → Dict
  | some (.json (.obj d)) => d
  | _ => []

/-- Declared fields first, in their declared order, then the others. -/
def gwDump (gw : Dict) : RedisText :=
  let ordered := gwFields.filterMap fun k => (gw.lookup k).map fun v => (k, v)
  .json (.obj (ordered ++ gw.filter fun e => decide (e.1 ∉ keys ordered)))

/-- The scaler's own writer keeps the order it read. -/
def gwDumpMedia (gw : Dict) : RedisText := .json (.obj gw)

/-- `key.split(":")[-1]`. -/
def gwIdOf (key : String) : String :=
  String.ofList (key.toList.reverse.takeWhile (· ≠ ':')).reverse

/-- A field of a stored entry, absent when the entry is. -/
def entryField (r : Redis) (gw_id key : String) : Option Json :=
  (gwLoad (r.lookup gw_id)).lookup key

/-- `gw.get("gw_state") in ("created", "stopped")`. -/
def isFree (gw : Dict) : Bool :=
  isText (field gw "gw_state") "created" || isText (field gw "gw_state") "stopped"

/-- The keys are visited in the order the scan returns them. The error is the KeyError
of an entry without `gw_ip`. -/
def findAvailableGateway (r : Redis) : List String → Except String (Option (String × Json))
  | [] => .ok none
  | key :: rest =>
    let gw := gwLoad (r.lookup key)
    match gw.lookup "gw_ip" with
    | none => .error "gw_ip"
    | some gwIp =>
      if isFree gw then .ok (some (key, gwIp)) else findAvailableGateway r rest

/-- A scan returns every key present throughout at least once, in any order. -/
def ScanOrder (r : Redis) (scan : List String) : Prop := scan ⊆ keys r ∧ keys r ⊆ scan

instance (r : Redis) (scan : List String) : Decidable (ScanOrder r scan) :=
  inferInstanceAs (Decidable (_ ∧ _))

def textOrNull (repr : Json → String) (v : Json) : Json :=
  if truthy v then .str (pyStr repr v) else .null

/-- `if value: gw[name] = f"{value}"`. -/
def toldField (repr : Json → String) (data : Dict) (key name : String) :
    List (String × Json) :=
  if truthy (field data key) then [(name, .str (pyStr repr (field data key)))] else []

/-- What `updateProgressInfo` assigns from a gateway's report, in its order. -/
def reportedFields (repr : Json → String) (data : Dict) : List (String × Json) :=
  toldField repr data "recording_duration" "media_duration" ++
  toldField repr data "streaming_duration" "media_duration" ++
  toldField repr data "transcript_progress" "transcript_progress" ++
  (if isText (field data "gw_state") "up" then [("gw_state", .str "started")]
   else if isText (field data "gw_state") "down" then [("gw_state", .str "stopped")] else []) ++
  ["room", "physical_room", "browsing", "peer_uri", "peer_name", "call_started"].map
    fun key => (key, textOrNull repr (field data key))

/-- What `startGateway` assigns once the gateway answered success. -/
def startedFields (room browsing : Json) : List (String × Json) :=
  [("gw_state", .str "started"), ("room", if truthy room then room else .null),
   ("browsing", if truthy browsing then browsing else .null)]

/-- What `stopGateway` assigns once the gateway is stopping. -/
def stoppedFields : List (String × Json) :=
  [("room", .str ""), ("browsing", .str ""), ("peer_uri", .str ""), ("peer_name", .str ""),
   ("call_started", .str ""), ("gw_state", .str "deleted")]

/-- What `downScale` assigns to an idle gateway. -/
def stoppingFields (now : Json) : List (String × Json) :=
  [("gw_state", .str "stopping"), ("start_time", now)]

def registeredFields (gwIp gwType : Json) : List (String × Json) :=
  [("gw_ip", gwIp), ("gw_type", gwType)]

/-- The entry `registerGateway` starts from when there is none to keep. -/
def newEntry (startTime : Json) : Dict :=
  [("gw_state", .str "created"), ("start_time", startTime), ("room", .null),
   ("media_duration", .str "0"), ("transcript_progress", .str "0"), ("browsing", .null),
   ("peer_uri", .null), ("peer_name", .null), ("call_started", .null)]

def updateProgressInfo (repr : Json → String) (r : Redis) (gw_id : String) (gw data : Dict) :
    Redis :=
  put r gw_id (gwDump (putAll gw (reportedFields repr data)))

/-- The report a status answer carries; `none` where the entry is deleted instead. -/
def reportOf (response : Option Json) : Option Dict :=
  match response with
  | some (.obj answer) =>
    if isText (field answer "status") "success" then
      match field answer "data" with
      | .obj data => some data
      | _ => none
    else none
  | _ => none

/-- After the answer: `none` is a gateway that could not be reached or sent no JSON. -/
def fetchAndStoreGatewayStatus (repr : Json → String) (r : Redis) (gw_id : String) (gw : Dict)
    (response : Option Json) : Redis :=
  match reportOf response with
  | some data => updateProgressInfo repr r gw_id gw data
  | none => del r gw_id

def startSucceeded (response : Option Json) : Bool :=
  match response with
  | some (.obj answer) => isText (field answer "status") "success"
  | _ => false

/-- `gwLoad(rawValue) or {"gw_ip": gwIp}`. -/
def loadOrNew (raw : Option RedisText) (fresh : Dict) : Dict :=
  if (gwLoad raw).isEmpty then fresh else gwLoad raw

/-- The write of `startGateway` after a success, from the entry as it is then. -/
def markStarted (r : Redis) (gw_id : String) (gwIp room browsing : Json) : Redis :=
  put r gw_id (gwDump (putAll (loadOrNew (r.lookup gw_id) [("gw_ip", gwIp)])
    (startedFields room browsing)))

/-- `"stopping" in details or "stopped" in details`. -/
def mentionsStop (details : Json) : Bool :=
  let has (word : String) : Bool := match details with
    | .str s => decide (word.toList <:+: s.toList)
    | .arr xs => xs.any (isText · word)
    | .obj d => decide (word ∈ keys d)
    | _ => false
  has "stopping" || has "stopped"

def stopAccepted (response : Option Json) : Bool :=
  match response with
  | some (.obj answer) =>
    match (answer.lookup "data").getD (.obj []) with
    | .obj data => mentionsStop ((data.lookup "processing_state").getD (.str ""))
    | _ => false
  | _ => false

/-- The write of `stopGateway`, from the entry it read before the request. -/
def markDeleted (r : Redis) (gw_id : String) (gw : Dict) : Redis :=
  put r gw_id (gwDump (putAll gw stoppedFields))

/-- The entry part of `registerGateway`, once it knows the gateway. -/
def registerEntry (r : Redis) (gw_id : String) (gwIp gwType startTime : Json) : Redis :=
  put r gw_id (gwDump (putAll (loadOrNew (r.lookup gw_id) (newEntry startTime))
    (registeredFields gwIp gwType)))

/-- The write of `downScale` for one key, from the entry it read. -/
def markStopping (r : Redis) (key : String) (gw : Dict) (now : Json) : Redis :=
  put r key (gwDumpMedia (putAll gw (stoppingFields now)))

private theorem lookup_ordered (gw : Dict) (fields : List String) (key : String) :
    (fields.filterMap fun k => (gw.lookup k).map fun v => (k, v)).lookup key =
      if key ∈ fields then gw.lookup key else none := by
  induction fields with
  | nil => rfl
  | cons k fields ih =>
    by_cases hk : key = k
    · subst hk
      cases hv : gw.lookup key with
      | none => simp [hv, ih]
      | some v => simp [hv]
    · have hkb : (key == k) = false := beq_eq_false_iff_ne.mpr hk
      cases hv : gw.lookup k with
      | none => simp [hv, ih, hk]
      | some v => simp [hv, List.lookup_cons, hkb, ih, hk]

private theorem lookup_rest (gw : Dict) (taken : List String) {key : String}
    (h : key ∉ taken) :
    (gw.filter fun e => decide (e.1 ∉ taken)).lookup key = gw.lookup key := by
  induction gw with
  | nil => rfl
  | cons e gw ih =>
    obtain ⟨k, v⟩ := e
    by_cases hk : key = k
    · subst hk
      simp [h]
    · have hkb : (key == k) = false := beq_eq_false_iff_ne.mpr hk
      by_cases ht : k ∈ taken
      · simpa [ht, List.lookup_cons, hkb] using ih
      · simpa [ht, List.lookup_cons, hkb] using ih

/-- Reordering the fields loses none and adds none. -/
theorem lookup_gwLoad_gwDump (gw : Dict) (key : String) :
    (gwLoad (some (gwDump gw))).lookup key = gw.lookup key := by
  simp only [gwLoad, gwDump, lookup_append, lookup_ordered]
  set ordered := gwFields.filterMap fun k => (gw.lookup k).map fun v => (k, v)
  have ho : ordered.lookup key = if key ∈ gwFields then gw.lookup key else none :=
    lookup_ordered gw gwFields key
  by_cases hk : key ∈ keys ordered
  · have hs := (mem_keys_iff ordered key).mp hk
    rw [ho] at hs
    by_cases hf : key ∈ gwFields
    · simp only [hf, if_true] at hs ⊢
      obtain ⟨v, hv⟩ := Option.isSome_iff_exists.mp hs
      simp [hv]
    · simp [hf] at hs
  · rw [lookup_rest gw (keys ordered) hk]
    split <;> simp

theorem lookup_toldField_ne (repr : Json → String) (data : Dict) (key : String)
    {name other : String} (h : other ≠ name) :
    (toldField repr data key name).reverse.lookup other = none := by
  have hb : (other == name) = false := beq_eq_false_iff_ne.mpr h
  rw [toldField]
  split
  · simp [List.lookup_cons, hb]
  · rfl

theorem entryField_put_self (r : Redis) (gw_id key : String) (t : RedisText) :
    entryField (put r gw_id t) gw_id key = (gwLoad (some t)).lookup key := by
  rw [entryField, lookup_put_self]

theorem entryField_del_self (r : Redis) (gw_id key : String) :
    entryField (del r gw_id) gw_id key = none := by
  rw [entryField, lookup_del_self]
  rfl

/-- An entry `findAvailableGateway` returns when it meets it. -/
def Pickable (r : Redis) (key : String) : Prop :=
  isFree (gwLoad (r.lookup key)) = true ∧ ((gwLoad (r.lookup key)).lookup "gw_ip").isSome

theorem findAvailableGateway_pickable {r : Redis} {scan : List String} {key : String}
    {gwIp : Json} (h : findAvailableGateway r scan = .ok (some (key, gwIp))) :
    Pickable r key := by
  induction scan with
  | nil => cases h
  | cons k scan ih =>
    simp only [findAvailableGateway] at h
    split at h
    · cases h
    · rename_i ip hip
      split at h
      · rename_i hfree
        obtain ⟨rfl, rfl⟩ := Prod.mk.inj (Option.some.inj (Except.ok.inj h))
        exact ⟨hfree, by rw [hip]; rfl⟩
      · exact ih h

theorem findAvailableGateway_first {r : Redis} {key : String} (h : Pickable r key)
    (scan : List String) :
    ∃ gwIp, findAvailableGateway r (key :: scan) = .ok (some (key, gwIp)) := by
  obtain ⟨hfree, hip⟩ := h
  obtain ⟨gwIp, hip⟩ := Option.isSome_iff_exists.mp hip
  exact ⟨gwIp, by simp only [findAvailableGateway, hip, hfree, if_true]⟩

theorem Pickable.mem_keys {r : Redis} {key : String} (h : Pickable r key) : key ∈ keys r := by
  rw [mem_keys_iff]
  cases hk : r.lookup key with
  | some raw => rfl
  | none =>
    have hip := h.2
    rw [hk] at hip
    cases hip

end ProxyRegistry
