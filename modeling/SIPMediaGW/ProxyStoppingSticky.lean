import SIPMediaGW.ProxyInterleaving

/-! # A gateway marked stopping by the scaler

`stopping` is read back by the scaler alone. Every writer of the proxy but one keeps the
entry out of the pool; the exception is a status answer. -/
namespace ProxyStoppingSticky

open FieldMap
open LabelledExecutions
open PythonJson
open ProxyRegistry
open ProxyInterleaving

def Stopping (r : Redis) (key : String) : Prop :=
  entryField r key "gw_state" = some (.str "stopping")

/-- A readable entry that `findAvailableGateway` does not accept. -/
def OutOfPool (raw : RedisText) : Prop :=
  gwLoad (some raw) ≠ [] ∧ isFree (gwLoad (some raw)) = false

def KeptOut (r : Redis) (key : String) : Prop :=
  ∀ raw, r.lookup key = some raw → OutOfPool raw

/-- A report that leaves the entry out of the pool: the gateway is up, or it says neither
up nor down and the entry was already out of the pool when it was read. -/
def HarmlessReport (copy data : Dict) : Prop :=
  isText (field data "gw_state") "up" = true ∨
    isText (field data "gw_state") "down" = false ∧ isFree copy = false

/-- The condition on a step: only the status answers of this gateway are concerned. -/
def Harmless (key : String) (s : System) : Event → Prop
  | .fetchDone i response => ∀ f data, s.fetches[i]? = some f → f.gw_id = key →
      reportOf response = some data → HarmlessReport f.copy data
  | _ => True

def Listed (key : String) (s : System) : Prop := (s.redis.lookup key).isSome = true

theorem isFree_eq_false_of_state {gw : Dict} {v : Json} (h : gw.lookup "gw_state" = some v)
    (hc : isText v "created" = false) (hs : isText v "stopped" = false) : isFree gw = false := by
  simp [isFree, field, h, hc, hs]

theorem outOfPool_of_state {gw : Dict} {v : Json} (h : gw.lookup "gw_state" = some v)
    (hc : isText v "created" = false) (hs : isText v "stopped" = false) :
    OutOfPool (gwDump gw) := by
  have hl : (gwLoad (some (gwDump gw))).lookup "gw_state" = some v := by
    rw [lookup_gwLoad_gwDump, h]
  exact ⟨ne_nil_of_lookup hl, isFree_eq_false_of_state hl hc hs⟩

theorem isFree_gwDump (gw : Dict) : isFree (gwLoad (some (gwDump gw))) = isFree gw := by
  simp [isFree, field, lookup_gwLoad_gwDump]

/-- A write under one key, seen under another. -/
theorem keptOut_put {r : Redis} {key gw_id : String} {raw : RedisText} (h : KeptOut r key)
    (hraw : gw_id = key → OutOfPool raw) : KeptOut (put r gw_id raw) key := by
  intro found hfound
  rw [lookup_put] at hfound
  by_cases hk : key = gw_id
  · rw [if_pos hk] at hfound
    obtain rfl := Option.some.inj hfound
    exact hraw hk.symm
  · rw [if_neg hk] at hfound
    exact h found hfound

theorem keptOut_del {r : Redis} {key : String} (gw_id : String) (h : KeptOut r key) :
    KeptOut (del r gw_id) key := by
  intro found hfound
  rw [lookup_del] at hfound
  by_cases hk : key = gw_id
  · rw [if_pos hk] at hfound
    cases hfound
  · rw [if_neg hk] at hfound
    exact h found hfound

/-- The state a report leaves in the entry. -/
theorem lookup_reported_state (repr : Json → String) (copy data : Dict) :
    (putAll copy (reportedFields repr data)).lookup "gw_state" =
      if isText (field data "gw_state") "up" then some (.str "started")
      else if isText (field data "gw_state") "down" then some (.str "stopped")
      else copy.lookup "gw_state" := by
  have hm : "gw_state" ≠ "media_duration" := by decide
  have ht : "gw_state" ≠ "transcript_progress" := by decide
  rw [lookup_putAll]
  simp only [reportedFields, List.reverse_append, lookup_append, lookup_toldField_ne _ _ _ hm,
    lookup_toldField_ne _ _ _ ht]
  by_cases hu : isText (field data "gw_state") "up" = true
  · simp [hu, List.lookup_cons]
  · by_cases hd : isText (field data "gw_state") "down" = true
    · simp [hu, hd, List.lookup_cons]
    · simp [hu, hd, List.lookup_cons]

/-- A stored report frees the entry exactly when it is not harmless. -/
theorem reported_free_iff (repr : Json → String) (copy data : Dict) :
    isFree (putAll copy (reportedFields repr data)) = false ↔ HarmlessReport copy data := by
  have hl := lookup_reported_state repr copy data
  by_cases hu : isText (field data "gw_state") "up" = true
  · rw [if_pos hu] at hl
    exact ⟨fun _ => Or.inl hu, fun _ => isFree_eq_false_of_state hl rfl rfl⟩
  · rw [if_neg hu] at hl
    by_cases hd : isText (field data "gw_state") "down" = true
    · rw [if_pos hd] at hl
      have hfree : isFree (putAll copy (reportedFields repr data)) = true := by
        simp [isFree, field, hl, isText]
      simp [hfree, HarmlessReport, hu, hd]
    · rw [if_neg hd] at hl
      have hsame : isFree (putAll copy (reportedFields repr data)) = isFree copy := by
        simp [isFree, field, hl]
      simp [hsame, HarmlessReport, hu, hd]

theorem outOfPool_reported {repr : Json → String} {copy data : Dict}
    (h : HarmlessReport copy data) :
    OutOfPool (gwDump (putAll copy (reportedFields repr data))) := by
  constructor
  · have hroom : (gwLoad (some (gwDump (putAll copy (reportedFields repr data))))).lookup
        "room" = some (textOrNull repr (field data "room")) := by
      rw [lookup_gwLoad_gwDump, lookup_putAll]
      simp [reportedFields, List.lookup_cons]
    exact ne_nil_of_lookup hroom
  · rw [isFree_gwDump]
    exact (reported_free_iff repr copy data).mpr h

theorem outOfPool_registered {raw : RedisText} (h : OutOfPool raw)
    (gwIp gwType startTime : Json) :
    OutOfPool (gwDump (putAll (loadOrNew (some raw) (newEntry startTime))
      (registeredFields gwIp gwType))) := by
  have hload : loadOrNew (some raw) (newEntry startTime) = gwLoad (some raw) := by
    rw [loadOrNew, if_neg (by simpa using h.1)]
  rw [hload]
  constructor
  · have hip : (gwLoad (some (gwDump (putAll (gwLoad (some raw))
        (registeredFields gwIp gwType))))).lookup "gw_ip" = some gwIp := by
      rw [lookup_gwLoad_gwDump, lookup_putAll]
      simp [registeredFields, List.lookup_cons]
    exact ne_nil_of_lookup hip
  · have hstate : (putAll (gwLoad (some raw)) (registeredFields gwIp gwType)).lookup
        "gw_state" = (gwLoad (some raw)).lookup "gw_state" :=
      lookup_putAll_of_notMem _ _ (by simp [registeredFields, keys])
    rw [isFree_gwDump, ← h.2]
    simp [isFree, field, hstate]

theorem outOfPool_started (gw : Dict) (room browsing : Json) :
    OutOfPool (gwDump (putAll gw (startedFields room browsing))) := by
  refine outOfPool_of_state (v := .str "started") ?_ rfl rfl
  simp [lookup_putAll, startedFields, List.lookup_cons]

theorem outOfPool_deleted (gw : Dict) : OutOfPool (gwDump (putAll gw stoppedFields)) := by
  refine outOfPool_of_state (v := .str "deleted") ?_ rfl rfl
  simp [lookup_putAll, stoppedFields]

theorem outOfPool_stopping (gw : Dict) (now : Json) :
    OutOfPool (gwDumpMedia (putAll gw (stoppingFields now))) := by
  have hl : (gwLoad (some (gwDumpMedia (putAll gw (stoppingFields now))))).lookup
      "gw_state" = some (.str "stopping") := by
    simp [gwDumpMedia, gwLoad, lookup_putAll, stoppingFields, List.lookup_cons]
  exact ⟨ne_nil_of_lookup hl, isFree_eq_false_of_state hl rfl rfl⟩

/-- The only step that can put a listed gateway back into the pool is a status answer. -/
theorem keptOut_step {repr : Json → String} {key : String} {s t : System} {e : Event}
    (hs : KeptOut s.redis key) (hin : Listed key s) (hp : Harmless key s e)
    (h : Step repr s e t) : KeptOut t.redis key := by
  cases step_effect h with
  | reads h _ => rwa [h.redis_eq]
  | picked => rwa [pickStart_redis]
  | started i f response =>
    rw [finishStart]
    split
    · exact keptOut_put hs fun _ => outOfPool_started _ _ _
    · exact hs
  | fetched i f response inFlight =>
    rw [finishFetch]
    split
    · rename_i data hdata
      simp only [System.wrote, fetchAndStoreGatewayStatus, hdata, updateProgressInfo]
      exact keptOut_put hs fun hk => outOfPool_reported (hp f data inFlight hk hdata)
    · rename_i hdata
      simp only [System.removed, fetchAndStoreGatewayStatus, hdata]
      exact keptOut_del _ hs
  | stopped i f response =>
    rw [finishStop]
    split
    · exact keptOut_put hs fun _ => outOfPool_deleted _
    · exact hs
  | registered gw_id gwIp gwType startTime =>
    apply keptOut_put hs
    intro hk
    obtain ⟨raw, hraw⟩ := Option.isSome_iff_exists.mp hin
    rw [hk, hraw]
    exact outOfPool_registered (hs raw hraw) gwIp gwType startTime
  | unregistered gw_id t known =>
    rw [unregisterGateway] at known
    split at known
    · obtain rfl := Option.some.inj known
      exact keptOut_del _ hs
    · cases known
  | marked i f now => exact keptOut_put hs fun _ => outOfPool_stopping _ _

theorem keptOut_of_stopping {r : Redis} {key : String} (h : Stopping r key) :
    KeptOut r key := by
  intro raw hraw
  rw [Stopping, entryField, hraw] at h
  exact ⟨ne_nil_of_lookup h, isFree_eq_false_of_state h rfl rfl⟩

theorem KeptOut.isFree_eq {r : Redis} {key : String} (h : KeptOut r key) :
    isFree (gwLoad (r.lookup key)) = false := by
  cases hraw : r.lookup key with
  | none => rfl
  | some raw => exact (h raw hraw).2

/-- Once stopping, never accepted again while the entry is listed. -/
def StoppingSticky (repr : Json → String) : Prop :=
  ∀ r s key t, Execution (Step repr) (quiet r) s → Stopping s.redis key →
    Execution (Guarded (fun u _ => Listed key u) (Step repr)) s t →
    isFree (gwLoad (t.redis.lookup key)) = false

/-- In every run whose status answers are harmless to this gateway, up to its removal, it
is not accepted and no `/start` goes to it. -/
theorem stopping_sticky_when_harmless (repr : Json → String) {key : String} {s t : System}
    (hs : Stopping s.redis key)
    (h : Execution (Guarded (fun u e => Listed key u ∧ Harmless key u e) (Step repr)) s t) :
    isFree (gwLoad (t.redis.lookup key)) = false ∧
      ∀ scan gwIp, findAvailableGateway t.redis scan ≠ .ok (some (key, gwIp)) := by
  have hk : KeptOut t.redis key := h.guarded_invariant
    (I := fun u => KeptOut u.redis key)
    (fun _ _ _ hi hp st => keptOut_step hi hp.1 hp.2 st) (keptOut_of_stopping hs)
  refine ⟨hk.isFree_eq, ?_⟩
  intro scan gwIp hfind
  have hfree := (findAvailableGateway_pickable hfind).1
  rw [hk.isFree_eq] at hfree
  cases hfree

def markedRun : List Event := [.scaleRead "gw01", .scaleWrite 0 (.str "2026-09-24T08:20:48")]

/-- The scaler has marked an idle gateway. -/
def markedState : System :=
  (runEvents (next fun _ => "") (quiet idleGateway) markedRun).getD (quiet [])

/-- An answer that says up leaves the marked gateway out of the pool. -/
theorem stopping_sticky_after_up :
    ∃ t, Execution (Guarded (fun u e => Listed "gw01" u ∧ Harmless "gw01" u e)
        (Step fun _ => "")) markedState t ∧
      isFree (gwLoad (t.redis.lookup "gw01")) = false := by
  have h : Execution (Guarded (fun u e => Listed "gw01" u ∧ Harmless "gw01" u e)
      (Step fun _ => "")) markedState _ :=
    .tail (.tail (.refl markedState)
      (e := .monitorRead "gw01") ⟨⟨rfl, trivial⟩, rfl⟩)
      (e := .fetchDone 0 (statusAnswer "up")) ⟨⟨rfl, by
        rintro f data - - hdata
        obtain rfl := Option.some.inj hdata
        exact Or.inl rfl⟩, rfl⟩
  exact ⟨_, h, (stopping_sticky_when_harmless (fun _ => "") (by rfl) h).1⟩

/-- The monitor's next cycle finds the container down and writes `stopped`. -/
theorem monitor_frees_a_stopping_gateway : ¬ StoppingSticky fun _ => "" := by
  intro h
  have hmark : runEvents (next fun _ => "") (quiet idleGateway) markedRun =
      some markedState := rfl
  have hlater : Execution (Guarded (fun u _ => Listed "gw01" u) (Step fun _ => ""))
      markedState _ :=
    .tail (.tail (.refl markedState) (e := .monitorRead "gw01") ⟨rfl, rfl⟩)
      (e := .fetchDone 0 (statusAnswer "down")) ⟨rfl, rfl⟩
  have hfree := h _ markedState "gw01" _ (runEvents_execution hmark) rfl hlater
  exact absurd hfree (by decide)

end ProxyStoppingSticky
