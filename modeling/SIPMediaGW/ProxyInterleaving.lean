import SIPMediaGW.LabelledExecutions
import SIPMediaGW.ProxyRegistry

/-! # Coroutines of the proxy and the scaler over one registry

What a handler does between two awaits is one event; a request or a status fetch in
flight carries what it read before its await. The scaler is another process: its read
and its write of one key are two events. `wrote` and `gone` are ghost observations. -/
namespace ProxyInterleaving

open FieldMap
open LabelledExecutions
open PythonJson
open ProxyRegistry

/-- A `/start` forwarded to its gateway, not answered yet. -/
structure StartFlight where
  gw_id : String
  gwIp : Json
  room : Json
  browsing : Json

/-- A status request not answered yet, with the entry read before it was sent. `wrote`
holds the fields other steps assigned to the entry since, newest first. -/
structure FetchFlight where
  gw_id : String
  gwIp : Json
  copy : Dict
  wrote : List (String × Json)

structure StopFlight where
  gw_id : String
  gwIp : Json
  copy : Dict

/-- An idle entry `downScale` read and is about to mark. -/
structure ScaleFlight where
  key : String
  copy : Dict

/-- `gone` lists the gateways unregistered during a status fetch and not registered since. -/
structure System where
  redis : Redis
  starts : List StartFlight
  fetches : List FetchFlight
  stops : List StopFlight
  scales : List ScaleFlight
  gone : List String

def quiet (r : Redis) : System := ⟨r, [], [], [], [], []⟩

inductive Event where
  | startPick (scan : List String) (room browsing : Json)
  | startDone (i : ℕ) (response : Option Json)
  | monitorRead (key : String)
  | statusRead (gw_id : String)
  | fetchDone (i : ℕ) (response : Option Json)
  | stopRead (gw_id : String)
  | stopDone (i : ℕ) (response : Option Json)
  | register (gw_id : String) (gwIp gwType startTime : Json)
  | unregister (gw_id : String)
  | scaleRead (key : String)
  | scaleWrite (i : ℕ) (now : Json)

def FetchFlight.note (gw_id : String) (fs : List (String × Json)) (f : FetchFlight) :
    FetchFlight :=
  if f.gw_id = gw_id then { f with wrote := fs.reverse ++ f.wrote } else f

/-- A removal takes the values written so far with it. -/
def FetchFlight.forget (gw_id : String) (f : FetchFlight) : FetchFlight :=
  if f.gw_id = gw_id then { f with wrote := [] } else f

/-- A registry write that assigned the fields `fs` of `gw_id`. -/
def System.wrote (s : System) (gw_id : String) (fs : List (String × Json)) (r : Redis) :
    System :=
  { s with redis := r, fetches := s.fetches.map (FetchFlight.note gw_id fs) }

def System.removed (s : System) (gw_id : String) (r : Redis) : System :=
  { s with redis := r, fetches := s.fetches.map (FetchFlight.forget gw_id) }

/-- `findAvailableGateway` and the forwarding, with no await in between. A scan that finds
nothing, or stops at a KeyError, answers an error. -/
def pickStart (s : System) (scan : List String) (room browsing : Json) : System :=
  match findAvailableGateway s.redis scan with
  | .ok (some (key, gwIp)) =>
    { s with starts := s.starts ++ [⟨gwIdOf key, gwIp, room, browsing⟩] }
  | _ => s

def finishStart (s : System) (i : ℕ) (f : StartFlight) (response : Option Json) : System :=
  let s' := { s with starts := s.starts.eraseIdx i }
  if startSucceeded response then
    s'.wrote f.gw_id (startedFields f.room f.browsing)
      (markStarted s.redis f.gw_id f.gwIp f.room f.browsing)
  else s'

/-- `monitorGateways` on one key: an entry without an address is skipped. -/
def readMonitor (s : System) (key : String) : Option System :=
  (s.redis.lookup key).bind fun raw =>
    let gw := gwLoad (some raw)
    if raw.present && truthy (field gw "gw_ip") then
      some { s with fetches := s.fetches ++ [⟨gwIdOf key, field gw "gw_ip", gw, []⟩] }
    else none

/-- `statusGateway` on a baresip or browser gateway, then `monitorOneGateway`. -/
def readStatus (s : System) (gw_id : String) : Option System :=
  (s.redis.lookup gw_id).bind fun raw =>
    let gw := gwLoad (some raw)
    (gw.lookup "gw_ip").bind fun gwIp =>
      if raw.present &&
          (isText (field gw "gw_type") "baresip" || isText (field gw "gw_type") "browser") then
        some { s with fetches := s.fetches ++ [⟨gw_id, gwIp, gw, []⟩] }
      else none

def finishFetch (repr : Json → String) (s : System) (i : ℕ) (f : FetchFlight)
    (response : Option Json) : System :=
  let s' := { s with fetches := s.fetches.eraseIdx i }
  let r := fetchAndStoreGatewayStatus repr s.redis f.gw_id f.copy response
  match reportOf response with
  | some data => s'.wrote f.gw_id (reportedFields repr data) r
  | none => s'.removed f.gw_id r

def readStop (s : System) (gw_id : String) : Option System :=
  (s.redis.lookup gw_id).bind fun raw =>
    let gw := gwLoad (some raw)
    (gw.lookup "gw_ip").bind fun gwIp =>
      if raw.present then some { s with stops := s.stops ++ [⟨gw_id, gwIp, gw⟩] } else none

def finishStop (s : System) (i : ℕ) (f : StopFlight) (response : Option Json) : System :=
  let s' := { s with stops := s.stops.eraseIdx i }
  if stopAccepted response then
    s'.wrote f.gw_id stoppedFields (markDeleted s.redis f.gw_id f.copy)
  else s'

/-- The fields a registration assigns: all of them for an entry that did not exist. -/
def registerAssigns (r : Redis) (gw_id : String) (gwIp gwType startTime : Json) :
    List (String × Json) :=
  (if (gwLoad (r.lookup gw_id)).isEmpty then newEntry startTime else []) ++
    registeredFields gwIp gwType

def registerGateway (s : System) (gw_id : String) (gwIp gwType startTime : Json) : System :=
  let s' := { s with gone := s.gone.filter fun g => decide (g ≠ gw_id) }
  s'.wrote gw_id (registerAssigns s.redis gw_id gwIp gwType startTime)
    (registerEntry s.redis gw_id gwIp gwType startTime)

def unregisterGateway (s : System) (gw_id : String) : Option System :=
  if (s.redis.lookup gw_id).isSome then
    let gone := if s.fetches.any fun f => f.gw_id == gw_id then gw_id :: s.gone else s.gone
    some (({ s with gone := gone }).removed gw_id (del s.redis gw_id))
  else none

/-- `downScale` on one key: an idle entry with an address is about to be marked. -/
def readScale (s : System) (key : String) : Option System :=
  let gw := gwLoad (s.redis.lookup key)
  match gw.lookup "gw_ip" with
  | some (.str _) => if isFree gw then some { s with scales := s.scales ++ [⟨key, gw⟩] } else none
  | _ => none

def finishScale (s : System) (i : ℕ) (f : ScaleFlight) (now : Json) : System :=
  ({ s with scales := s.scales.eraseIdx i }).wrote f.key (stoppingFields now)
    (markStopping s.redis f.key f.copy now)

/-- `none` where the event is not enabled. -/
def next (repr : Json → String) (s : System) : Event → Option System
  | .startPick scan room browsing =>
    if ScanOrder s.redis scan then some (pickStart s scan room browsing) else none
  | .startDone i response => (s.starts[i]?).map fun f => finishStart s i f response
  | .monitorRead key => readMonitor s key
  | .statusRead gw_id => readStatus s gw_id
  | .fetchDone i response => (s.fetches[i]?).map fun f => finishFetch repr s i f response
  | .stopRead gw_id => readStop s gw_id
  | .stopDone i response => (s.stops[i]?).map fun f => finishStop s i f response
  | .register gw_id gwIp gwType startTime =>
    some (registerGateway s gw_id gwIp gwType startTime)
  | .unregister gw_id => unregisterGateway s gw_id
  | .scaleRead key => readScale s key
  | .scaleWrite i now => (s.scales[i]?).map fun f => finishScale s i f now

def Step (repr : Json → String) : System → Event → System → Prop := StepOf (next repr)

/-- What a reading step changes: one flight more, the registry as it was. -/
inductive OnlyReads (s : System) : System → Prop where
  | fetch (f : FetchFlight) (fresh : f.wrote = []) :
      OnlyReads s { s with fetches := s.fetches ++ [f] }
  | stop (f : StopFlight) : OnlyReads s { s with stops := s.stops ++ [f] }
  | scale (f : ScaleFlight) : OnlyReads s { s with scales := s.scales ++ [f] }

theorem readMonitor_reads {s t : System} {key : String} (h : readMonitor s key = some t) :
    OnlyReads s t := by
  obtain ⟨raw, _, h⟩ := Option.bind_eq_some_iff.mp h
  dsimp only at h
  split at h
  · obtain rfl := Option.some.inj h
    exact .fetch _ rfl
  · cases h

theorem readStatus_reads {s t : System} {gw_id : String} (h : readStatus s gw_id = some t) :
    OnlyReads s t := by
  obtain ⟨raw, _, h⟩ := Option.bind_eq_some_iff.mp h
  obtain ⟨gwIp, _, h⟩ := Option.bind_eq_some_iff.mp h
  split at h
  · obtain rfl := Option.some.inj h
    exact .fetch _ rfl
  · cases h

theorem readStop_reads {s t : System} {gw_id : String} (h : readStop s gw_id = some t) :
    OnlyReads s t := by
  obtain ⟨raw, _, h⟩ := Option.bind_eq_some_iff.mp h
  obtain ⟨gwIp, _, h⟩ := Option.bind_eq_some_iff.mp h
  split at h
  · obtain rfl := Option.some.inj h
    exact .stop _
  · cases h

theorem readScale_reads {s t : System} {key : String} (h : readScale s key = some t) :
    OnlyReads s t := by
  simp only [readScale] at h
  split at h
  · split at h
    · obtain rfl := Option.some.inj h
      exact .scale _
    · cases h
  · cases h

def Event.Reads : Event → Prop
  | .monitorRead _ | .statusRead _ | .stopRead _ | .scaleRead _ => True
  | _ => False

/-- What one step can do. -/
inductive Effect (repr : Json → String) (s : System) : Event → System → Prop where
  | reads {e t} (h : OnlyReads s t) (reading : e.Reads) : Effect repr s e t
  | picked (scan room browsing) (order : ScanOrder s.redis scan) :
      Effect repr s (.startPick scan room browsing) (pickStart s scan room browsing)
  | started (i f response) (inFlight : s.starts[i]? = some f) :
      Effect repr s (.startDone i response) (finishStart s i f response)
  | fetched (i f response) (inFlight : s.fetches[i]? = some f) :
      Effect repr s (.fetchDone i response) (finishFetch repr s i f response)
  | stopped (i f response) (inFlight : s.stops[i]? = some f) :
      Effect repr s (.stopDone i response) (finishStop s i f response)
  | registered (gw_id gwIp gwType startTime) :
      Effect repr s (.register gw_id gwIp gwType startTime)
        (registerGateway s gw_id gwIp gwType startTime)
  | unregistered (gw_id t) (known : unregisterGateway s gw_id = some t) :
      Effect repr s (.unregister gw_id) t
  | marked (i f now) (inFlight : s.scales[i]? = some f) :
      Effect repr s (.scaleWrite i now) (finishScale s i f now)

theorem step_effect {repr : Json → String} {s t : System} {e : Event} (h : Step repr s e t) :
    Effect repr s e t := by
  change next repr s e = some t at h
  cases e with
  | startPick scan room browsing =>
    simp only [next] at h
    split at h
    · rename_i order
      obtain rfl := Option.some.inj h
      exact .picked scan room browsing order
    · cases h
  | startDone i response =>
    obtain ⟨f, hf, rfl⟩ := Option.map_eq_some_iff.mp h
    exact .started i f response hf
  | monitorRead key => exact .reads (readMonitor_reads h) trivial
  | statusRead gw_id => exact .reads (readStatus_reads h) trivial
  | fetchDone i response =>
    obtain ⟨f, hf, rfl⟩ := Option.map_eq_some_iff.mp h
    exact .fetched i f response hf
  | stopRead gw_id => exact .reads (readStop_reads h) trivial
  | stopDone i response =>
    obtain ⟨f, hf, rfl⟩ := Option.map_eq_some_iff.mp h
    exact .stopped i f response hf
  | register gw_id gwIp gwType startTime =>
    obtain rfl := Option.some.inj h
    exact .registered gw_id gwIp gwType startTime
  | unregister gw_id => exact .unregistered gw_id t h
  | scaleRead key => exact .reads (readScale_reads h) trivial
  | scaleWrite i now =>
    obtain ⟨f, hf, rfl⟩ := Option.map_eq_some_iff.mp h
    exact .marked i f now hf

theorem OnlyReads.redis_eq {s t : System} (h : OnlyReads s t) : t.redis = s.redis := by
  cases h <;> rfl

theorem OnlyReads.starts_eq {s t : System} (h : OnlyReads s t) : t.starts = s.starts := by
  cases h <;> rfl

theorem OnlyReads.gone_eq {s t : System} (h : OnlyReads s t) : t.gone = s.gone := by
  cases h <;> rfl

theorem pickStart_redis (s : System) (scan : List String) (room browsing : Json) :
    (pickStart s scan room browsing).redis = s.redis := by
  rw [pickStart]
  split <;> rfl

theorem pickStart_gone (s : System) (scan : List String) (room browsing : Json) :
    (pickStart s scan room browsing).gone = s.gone := by
  rw [pickStart]
  split <;> rfl

/-- One gateway registered and never used. -/
def idleGateway : Redis :=
  [("gw01", .json (.obj [("gw_ip", .str "192.0.2.21:8100"), ("gw_state", .str "created")]))]

/-- The answer of a gateway to a status request. -/
def statusAnswer (state : String) : Option Json :=
  some (.obj [("status", .str "success"), ("data", .obj [("gw_state", .str state)])])

end ProxyInterleaving
