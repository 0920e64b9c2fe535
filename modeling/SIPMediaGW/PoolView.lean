import Mathlib.Data.List.Forall2
import SIPMediaGW.CallAges
import SIPMediaGW.ProxyRegistry

/-! # The pool on the console

`/admin/statuses` reads the registry and the pairing codes; the Manager reads its answer, an entry
for each gateway, and counts their states. -/
namespace PoolView

open CallAges
open FieldMap
open IsoReading (fromisoformat)
open ProxyRegistry
open PythonJson

/-- Empty and the text `None` read as an absence. -/
def cleanPart (value : Json) : Json :=
  if truthy value && !isText value "" && !isText value "None" then value else .null

/-- What the stored value means. -/
def deriveState (gw : Dict) : String :=
  let state := cleanPart (field gw "gw_state")
  if isText state "created" || isText state "stopped" then "free"
  else if isText state "deleted" then "gone"
  else if !isText state "started" then "other"
  else if truthy (cleanPart (field gw "room")) then "call"
  else if truthy (cleanPart (field gw "call_started")) ||
      truthy (cleanPart (field gw "peer_uri")) then "ivr"
  else "idle"

/-- What is told of a gateway. -/
def told (pairingCode : Json) (gw : Dict) : Dict :=
  [("gateway", field gw "gw_ip"), ("type", cleanPart (field gw "gw_type")),
   ("status", field gw "gw_state"), ("state", .str (deriveState gw)),
   ("room", cleanPart (field gw "room")), ("media_duration", field gw "media_duration"),
   ("transcript_progress", field gw "transcript_progress"),
   ("browsing", cleanPart (field gw "browsing")), ("peer_uri", cleanPart (field gw "peer_uri")),
   ("peer_name", cleanPart (field gw "peer_name")),
   ("call_started", cleanPart (field gw "call_started")), ("pairing_code", pairingCode)]

/-- A stored text that is not empty. -/
def present (r : Redis) (key : String) : Bool := (r.lookup key).any RedisText.present

def entry (r : Redis) (key : String) : Dict := gwLoad (r.lookup key)

/-- Codes by the gateway they lead to, from the pairs of a code and a gateway that the scan
returns. -/
def pairingByGateway (pairings : List (String × String)) : List (String × String) :=
  putAll [] ((pairings.filter fun p => decide (p.2 ≠ "")).map fun p => (p.2, p.1))

def pairingCode (pairings : List (String × String)) (gwId : String) : Json :=
  match (pairingByGateway pairings).lookup gwId with
  | some code => .str code
  | none => .null

/-- The answer of an authorized request, in the order of the scan. -/
def adminStatus (pairings : List (String × String)) (r : Redis) (scan : List String) : Dict :=
  putAll [] ((scan.filter (present r)).map fun key =>
    (gwIdOf key, .obj (told (pairingCode pairings (gwIdOf key)) (entry r key))))

structure Summary where
  total : ℕ
  free : ℕ
  idle : ℕ
  ivr : ℕ
  in_call : ℕ
  deriving DecidableEq, Repr

def summary (gateways : List GatewayStatus) : Summary :=
  let states := gateways.map fun g => g.state
  { total := gateways.length
    free := states.count (.str "free")
    idle := states.count (.str "idle")
    ivr := states.count (.str "ivr")
    in_call := states.count (.str "call") }

/-- The pool as the Manager has it from the proxy. -/
def pool (zone : SystemZone) (pairings : List (String × String)) (r : Redis) (scan : List String)
    (n : ℤ) : Except Failure Statuses :=
  fetchStatuses zone (some ⟨200, some (adminStatus pairings r scan)⟩) n

section Rows

variable {zone : SystemZone} {value code : Json} {gw : Dict} {now : ℤ} {gwId : String}

theorem cleanPart_eq (value : Json) : cleanPart value = value ∧ truthy value = true ∧
    isText value "None" = false ∨ cleanPart value = .null := by
  unfold cleanPart
  split
  · rename_i h
    simp only [Bool.and_eq_true, Bool.not_eq_true'] at h
    exact .inl ⟨rfl, h.1.1, h.2⟩
  · exact .inr rfl

/-- The Manager leaves what the proxy cleaned as it is. -/
theorem clean_cleanPart (value : Json) : clean (cleanPart value) = cleanPart value := by
  rcases cleanPart_eq value with ⟨heq, htruthy, hnone⟩ | heq
  · rw [heq, clean, if_neg]
    intro hmem
    simp only [noneLiterals, List.mem_cons, List.not_mem_nil, or_false] at hmem
    rcases hmem with rfl | rfl | rfl
    · cases htruthy
    · cases htruthy
    · cases hnone
  · rw [heq]
    rfl

theorem isText_cleanPart {text : String} (hempty : text ≠ "") (hnone : text ≠ "None") :
    isText (cleanPart value) text = isText value text := by
  unfold cleanPart
  cases value with
  | str s =>
    by_cases hs : s = text
    · subst hs
      simp [truthy, isText, hempty, hnone]
    · split
      · rfl
      · simp [isText, hs]
  | _ =>
    split <;> rfl

/-- A gateway is shown free when the proxy would hand it out. -/
theorem deriveState_free : deriveState gw = "free" ↔ isFree gw = true := by
  have hcreated := @isText_cleanPart (field gw "gw_state") "created" (by decide) (by decide)
  have hstopped := @isText_cleanPart (field gw "gw_state") "stopped" (by decide) (by decide)
  simp only [deriveState, hcreated, hstopped, isFree]
  split
  · rename_i h
    exact iff_of_true rfl h
  · rename_i h
    refine iff_of_false ?_ h
    split_ifs <;> decide

theorem deriveState_cases (gw : Dict) :
    deriveState gw ∈ ["free", "gone", "other", "call", "ivr", "idle"] := by
  unfold deriveState
  dsimp only
  split_ifs <;> decide

/-- A row of the console. -/
def row (code : Json) (gw : Dict) (gwId : String) (seconds : Option ℤ) : GatewayStatus where
  state := .str (deriveState gw)
  gw_id := gwId
  ip := clean (field gw "gw_ip")
  type := cleanPart (field gw "gw_type")
  status := clean (field gw "gw_state")
  room := cleanPart (field gw "room")
  browsing := cleanPart (field gw "browsing")
  peer_uri := cleanPart (field gw "peer_uri")
  peer_name := cleanPart (field gw "peer_name")
  call_started := cleanPart (field gw "call_started")
  call_seconds := seconds
  transcript_progress := clean (field gw "transcript_progress")
  pairing_code := clean code

theorem gatewayStatus_told : gatewayStatus zone now gwId (.obj (told code gw)) =
    (callSeconds zone (cleanPart (field gw "call_started")) now).map (row code gw gwId) := by
  have hstate : truthy (.str (deriveState gw)) = true ∧
      clean (.str (deriveState gw)) = .str (deriveState gw) := by
    have hcases := deriveState_cases gw
    generalize deriveState gw = state at hcases ⊢
    simp only [List.mem_cons, List.not_mem_nil, or_false] at hcases
    rcases hcases with rfl | rfl | rfl | rfl | rfl | rfl <;> decide
  have htruthy : truthy (.obj (told code gw)) = true := rfl
  simp only [gatewayStatus, htruthy, if_true]
  simp only [field, told, List.lookup_cons, String.reduceBEq, Option.getD_some, hstate,
    if_true, clean_cleanPart]
  rfl

end Rows

/-- A start of a call that is not told, or a text that is no instant, or one of a year from 1 to
9999 in UTC and on the clock. -/
def readable (zone : SystemZone) (value : Json) : Bool :=
  match cleanPart value with
  | .null => true
  | .str text => (fromisoformat text).all fun d => d.utcoffset.all fun offset =>
      decide (InYears (d.wall - offset) ∧ InYears (zone.clock (d.wall - offset)))
  | _ => false

section Ages

variable {zone : SystemZone}

theorem started_ok_iff {d : IngestMapping.Datetime} : (∃ wall, started zone d = .ok wall) ↔
    d.utcoffset.all (fun offset =>
      decide (InYears (d.wall - offset) ∧ InYears (zone.clock (d.wall - offset)))) = true := by
  unfold started
  cases d.utcoffset with
  | none => exact iff_of_true ⟨_, rfl⟩ rfl
  | some offset =>
    by_cases hyears : InYears (d.wall - offset) ∧ InYears (zone.clock (d.wall - offset))
    · simp [astimezone, hyears]
    · simp only [astimezone, if_neg hyears, Option.all_some, decide_eq_true_eq]
      exact iff_of_false (by rintro ⟨_, ⟨⟩⟩) hyears

theorem callSeconds_ok_iff (value : Json) (now : ℤ) :
    (∃ seconds, callSeconds zone (cleanPart value) now = .ok seconds) ↔
      readable zone value = true := by
  have hcases := cleanPart_eq value
  rw [callSeconds, clean_cleanPart, readable]
  dsimp only
  rcases hcases with ⟨heq, htruthy, -⟩ | hnull
  · rw [heq, if_pos htruthy]
    cases value with
    | str text =>
      cases hread : fromisoformat text with
      | none =>
        simp only [hread]
        exact iff_of_true ⟨none, rfl⟩ rfl
      | some d =>
        simp only [hread, Option.all_some]
        rw [← started_ok_iff]
        cases started zone d with
        | ok wall => exact iff_of_true ⟨_, rfl⟩ ⟨wall, rfl⟩
        | error error => exact iff_of_false (by rintro ⟨_, ⟨⟩⟩) (by rintro ⟨_, ⟨⟩⟩)
    | null => cases htruthy
    | _ => simp
  · rw [hnull]
    exact iff_of_true ⟨none, rfl⟩ rfl

end Ages

section Listing

variable {κ ν : Type*} [DecidableEq κ]

theorem nodup_keys_putAll {m fs : List (κ × ν)} (h : (keys m).Nodup) :
    (keys (putAll m fs)).Nodup := by
  induction fs generalizing m with
  | nil => exact h
  | cons f fs ih => exact ih (nodup_keys_put h f.1 f.2)

theorem mem_keys_putAll {m fs : List (κ × ν)} {k : κ} :
    k ∈ keys (putAll m fs) ↔ k ∈ keys fs ∨ k ∈ keys m := by
  induction fs generalizing m with
  | nil => exact (or_iff_right List.not_mem_nil).symm
  | cons f fs ih =>
    have hstep : putAll m (f :: fs) = putAll (put m f.1 f.2) fs := rfl
    have hkeys : keys (f :: fs) = f.1 :: keys fs := rfl
    rw [hstep, ih, mem_keys_put, hkeys, List.mem_cons]
    exact or_left_comm.trans or_assoc.symm

/-- A key that is only ever given one value. -/
theorem lookup_of_forall {m : List (κ × ν)} {k : κ} {v : ν} (hmem : (k, v) ∈ m)
    (hall : ∀ w, (k, w) ∈ m → w = v) : m.lookup k = some v := by
  have hkey : k ∈ keys m := List.mem_map_of_mem hmem
  obtain ⟨w, hw⟩ := Option.isSome_iff_exists.mp ((mem_keys_iff m k).mp hkey)
  obtain ⟨l, r, rfl, -⟩ := List.lookup_eq_some_iff.mp hw
  rw [hw, hall w (by simp)]

theorem exists_related {α β : Type*} {R : α → β → Prop} {l : List α} {m : List β}
    (h : List.Forall₂ R l m) {a : α} (ha : a ∈ l) : ∃ b ∈ m, R a b := by
  induction h with
  | nil => cases ha
  | cons hab _ ih =>
    rcases List.mem_cons.mp ha with rfl | ha
    · exact ⟨_, List.mem_cons_self, hab⟩
    · obtain ⟨b, hb, hrel⟩ := ih ha
      exact ⟨b, List.mem_cons_of_mem _ hb, hrel⟩

/-- What holds of the related elements, one by one. -/
theorem map_eq_of_related {α β γ : Type*} {R : α → β → Prop} {l : List α} {m : List β} {f : α → γ}
    {g : β → γ} (h : List.Forall₂ R l m) (hfg : ∀ a ∈ l, ∀ b, R a b → f a = g b) :
    l.map f = m.map g := by
  induction h with
  | nil => rfl
  | cons hab _ ih =>
    rw [List.map_cons, List.map_cons, hfg _ List.mem_cons_self _ hab,
      ih fun a ha => hfg a (List.mem_cons_of_mem _ ha)]

end Listing

section Registry

variable {zone : SystemZone} {pairings : List (String × String)} {r : Redis} {scan : List String}
  {key gwId : String} {n : ℤ}

/-- The entries that are there. -/
def shownKeys (r : Redis) : List String := (keys r).filter (present r)

theorem mem_shown (hscan : ScanOrder r scan) :
    key ∈ scan.filter (present r) ↔ key ∈ shownKeys r := by
  rw [shownKeys, List.mem_filter, List.mem_filter]
  exact and_congr_left fun _ => ⟨fun h => hscan.1 h, fun h => hscan.2 h⟩

theorem gwIdOf_injective (hids : ((keys r).map gwIdOf).Nodup) {a b : String}
    (ha : a ∈ shownKeys r) (hb : b ∈ shownKeys r) (h : gwIdOf a = gwIdOf b) : a = b :=
  List.inj_on_of_nodup_map hids (List.mem_of_mem_filter ha) (List.mem_of_mem_filter hb) h

theorem lookup_adminStatus (hscan : ScanOrder r scan) (hids : ((keys r).map gwIdOf).Nodup)
    (hkey : key ∈ shownKeys r) : (adminStatus pairings r scan).lookup (gwIdOf key) =
      some (.obj (told (pairingCode pairings (gwIdOf key)) (entry r key))) := by
  rw [adminStatus, lookup_putAll]
  refine Option.or_eq_some_iff.mpr (.inl (lookup_of_forall ?_ ?_))
  · rw [List.mem_reverse]
    exact List.mem_map.mpr ⟨key, (mem_shown hscan).mpr hkey, rfl⟩
  · intro w hw
    rw [List.mem_reverse] at hw
    obtain ⟨other, hother, heq⟩ := List.mem_map.mp hw
    obtain ⟨hid, rfl⟩ := Prod.mk.inj heq
    rw [gwIdOf_injective hids ((mem_shown hscan).mp hother) hkey hid]

theorem keys_adminStatus (hscan : ScanOrder r scan) (hids : ((keys r).map gwIdOf).Nodup) :
    (keys (adminStatus pairings r scan)).Perm ((shownKeys r).map gwIdOf) := by
  have hshown : ((shownKeys r).map gwIdOf).Nodup := (List.filter_sublist.map gwIdOf).nodup hids
  have hnodup : (keys (adminStatus pairings r scan)).Nodup := nodup_keys_putAll List.nodup_nil
  refine (List.perm_ext_iff_of_nodup hnodup hshown).mpr fun gwId => ?_
  have hids : keys ((scan.filter (present r)).map fun key => (gwIdOf key, Json.obj
      (told (pairingCode pairings (gwIdOf key)) (entry r key)))) =
      (scan.filter (present r)).map gwIdOf := List.map_map
  rw [adminStatus, mem_keys_putAll, hids, List.mem_map, List.mem_map]
  simp only [mem_shown hscan]
  exact or_iff_left List.not_mem_nil

/-- In the order of the identifiers. -/
def gwIds (pairings : List (String × String)) (r : Redis) (scan : List String) : List String :=
  (keys (adminStatus pairings r scan)).mergeSort fun a b => decide (a ≤ b)

theorem gwIds_perm (hscan : ScanOrder r scan) (hids : ((keys r).map gwIdOf).Nodup) :
    (gwIds pairings r scan).Perm ((shownKeys r).map gwIdOf) :=
  (List.mergeSort_perm _ _).trans (keys_adminStatus hscan hids)

theorem gatewayStatuses_eq_ok {now : ℤ} {raw : Dict} {ids : List String}
    {statuses : List GatewayStatus} : gatewayStatuses zone now raw ids = .ok statuses ↔
      List.Forall₂ (fun id status => gatewayStatus zone now id (field raw id) = .ok status)
        ids statuses := by
  induction ids generalizing statuses with
  | nil =>
    rw [List.forall₂_nil_left_iff]
    exact ⟨fun h => (Except.ok.inj h).symm, fun h => congrArg Except.ok h.symm⟩
  | cons id ids ih =>
    rw [List.forall₂_cons_left_iff, gatewayStatuses]
    cases hfirst : gatewayStatus zone now id (field raw id) with
    | error error => exact iff_of_false (by rintro ⟨⟩) (by rintro ⟨_, _, ⟨⟩, -⟩)
    | ok first =>
      cases hrest : gatewayStatuses zone now raw ids with
      | error error =>
        refine iff_of_false (by rintro ⟨⟩) ?_
        rintro ⟨_, rest, -, hall, rfl⟩
        rw [ih.mpr hall] at hrest
        cases hrest
      | ok rest =>
        have hall := ih.mp hrest
        constructor
        · intro h
          obtain rfl := Except.ok.inj h
          exact ⟨first, rest, rfl, hall, rfl⟩
        · rintro ⟨_, rest', ⟨⟩, hall', rfl⟩
          have hsame := Except.ok.inj ((ih.mpr hall').symm.trans hrest)
          rw [hsame]
          rfl

theorem exists_gatewayStatuses {now : ℤ} {raw : Dict} {ids : List String} :
    (∃ statuses, gatewayStatuses zone now raw ids = .ok statuses) ↔
      ∀ id ∈ ids, ∃ status, gatewayStatus zone now id (field raw id) = .ok status := by
  simp only [gatewayStatuses_eq_ok]
  constructor
  · rintro ⟨statuses, hall⟩ id hid
    obtain ⟨status, -, hstatus⟩ := exists_related hall hid
    exact ⟨status, hstatus⟩
  · intro hall
    induction ids with
    | nil => exact ⟨[], .nil⟩
    | cons id ids ih =>
      rw [List.forall_mem_cons] at hall
      obtain ⟨status, hstatus⟩ := hall.1
      obtain ⟨statuses, hrest⟩ := ih hall.2
      exact ⟨status :: statuses, .cons hstatus hrest⟩

theorem pool_eq_ok {statuses : Statuses} : pool zone pairings r scan n = .ok statuses ↔
    ∃ gateways, gatewayStatuses zone (zone.clock n) (adminStatus pairings r scan)
      (gwIds pairings r scan) = .ok gateways ∧ statuses = ⟨isoformat (zone.clock n), gateways⟩ := by
  unfold pool fetchStatuses
  dsimp only
  rw [if_neg (by decide), if_neg (by decide)]
  cases hstatuses : gatewayStatuses zone (zone.clock n) (adminStatus pairings r scan)
    (gwIds pairings r scan) with
  | ok gateways =>
    rw [gwIds] at hstatuses
    rw [hstatuses]
    exact ⟨fun h => ⟨gateways, rfl, (Except.ok.inj h).symm⟩, by rintro ⟨_, ⟨⟩, rfl⟩; rfl⟩
  | error error =>
    rw [gwIds] at hstatuses
    rw [hstatuses]
    exact iff_of_false (by rintro ⟨⟩) (by rintro ⟨_, ⟨⟩, -⟩)

/-- Counted in the total only. -/
def uncounted (gw : Dict) : Bool := decide (deriveState gw ∈ ["gone", "other"])

/-- What the console shows of a registry. -/
structure Tells (zone : SystemZone) (pairings : List (String × String)) (r : Redis) (n : ℤ)
    (gateways : List GatewayStatus) : Prop where
  /-- Every entry once. -/
  ids : (gateways.map fun g => g.gw_id).Perm ((shownKeys r).map gwIdOf)
  sorted : (gateways.map fun g => g.gw_id).Pairwise (· ≤ ·)
  rows : ∀ g ∈ gateways, ∃ key ∈ shownKeys r, ∃ seconds,
    callSeconds zone (cleanPart (field (entry r key) "call_started")) (zone.clock n) =
      .ok seconds ∧
    g = row (pairingCode pairings (gwIdOf key)) (entry r key) (gwIdOf key) seconds
  /-- The gateways shown free are those that a start can be given. -/
  free : (summary gateways).free = (shownKeys r).countP fun key => isFree (entry r key)
  total : (summary gateways).total = (summary gateways).free + (summary gateways).idle +
    (summary gateways).ivr + (summary gateways).in_call +
    (shownKeys r).countP fun key => uncounted (entry r key)
  noneFree : (∀ key ∈ keys r, ((entry r key).lookup "gw_ip").isSome = true) →
    ∀ scan, ScanOrder r scan →
      ((summary gateways).free = 0 ↔ findAvailableGateway r scan = .ok none)

theorem gatewayStatus_shown (hscan : ScanOrder r scan) (hids : ((keys r).map gwIdOf).Nodup)
    (hkey : key ∈ shownKeys r) (now : ℤ) :
    gatewayStatus zone now (gwIdOf key) (field (adminStatus pairings r scan) (gwIdOf key)) =
      (callSeconds zone (cleanPart (field (entry r key) "call_started")) now).map
        (row (pairingCode pairings (gwIdOf key)) (entry r key) (gwIdOf key)) := by
  rw [field, lookup_adminStatus hscan hids hkey, Option.getD_some, gatewayStatus_told]

theorem findAvailableGateway_none
    (hip : ∀ key ∈ scan, ((entry r key).lookup "gw_ip").isSome = true) :
    findAvailableGateway r scan = .ok none ↔ ∀ key ∈ scan, isFree (entry r key) = false := by
  induction scan with
  | nil => exact iff_of_true rfl (by rintro key ⟨⟩)
  | cons key scan ih =>
    rw [List.forall_mem_cons] at hip ⊢
    obtain ⟨gwIp, hgwIp⟩ := Option.isSome_iff_exists.mp hip.1
    have hlookup : (gwLoad (r.lookup key)).lookup "gw_ip" = some gwIp := hgwIp
    simp only [findAvailableGateway, hlookup]
    cases hfree : isFree (entry r key) with
    | true =>
      have hfree' : isFree (gwLoad (r.lookup key)) = true := hfree
      simp [hfree']
    | false =>
      have hfree' : isFree (gwLoad (r.lookup key)) = false := hfree
      rw [if_neg (by rw [hfree']; exact Bool.false_ne_true), ih hip.2]
      exact (and_iff_right rfl).symm

/-- An entry with an address is there. -/
theorem present_of_gwIp (h : ((entry r key).lookup "gw_ip").isSome = true) :
    present r key = true := by
  unfold entry at h
  unfold present
  cases hraw : r.lookup key with
  | none =>
    rw [hraw] at h
    cases h
  | some raw =>
    rw [hraw] at h
    cases raw with
    | empty => cases h
    | garbage => rfl
    | json v => rfl

/-- Every entry is in one of the states. -/
theorem length_eq_states (l : List Dict) : l.length =
    l.countP (fun gw => decide (deriveState gw = "free")) +
    l.countP (fun gw => decide (deriveState gw = "idle")) +
    l.countP (fun gw => decide (deriveState gw = "ivr")) +
    l.countP (fun gw => decide (deriveState gw = "call")) +
    l.countP uncounted := by
  induction l with
  | nil => rfl
  | cons gw l ih =>
    have hcases := deriveState_cases gw
    have hother : uncounted gw = decide (deriveState gw ∈ ["gone", "other"]) := rfl
    simp only [List.countP_cons, hother]
    generalize deriveState gw = state at hcases ⊢
    simp only [List.mem_cons, List.not_mem_nil, or_false] at hcases
    rw [List.length_cons]
    rcases hcases with rfl | rfl | rfl | rfl | rfl | rfl <;> simp <;> omega

theorem tells_of_pool (hscan : ScanOrder r scan) (hids : ((keys r).map gwIdOf).Nodup)
    {gateways : List GatewayStatus}
    (h : gatewayStatuses zone (zone.clock n) (adminStatus pairings r scan)
      (gwIds pairings r scan) = .ok gateways) : Tells zone pairings r n gateways := by
  have hall := gatewayStatuses_eq_ok.mp h
  have hmem : ∀ id ∈ gwIds pairings r scan, ∃ key ∈ shownKeys r, gwIdOf key = id := fun id hid =>
    List.mem_map.mp ((gwIds_perm hscan hids).mem_iff.mp hid)
  have hrow : ∀ id ∈ gwIds pairings r scan, ∀ g, gatewayStatus zone (zone.clock n) id
      (field (adminStatus pairings r scan) id) = .ok g → ∃ key ∈ shownKeys r, gwIdOf key = id ∧
        ∃ seconds, callSeconds zone (cleanPart (field (entry r key) "call_started"))
          (zone.clock n) = .ok seconds ∧
        g = row (pairingCode pairings (gwIdOf key)) (entry r key) (gwIdOf key) seconds := by
    intro id hid g hg
    obtain ⟨key, hkey, rfl⟩ := hmem id hid
    rw [gatewayStatus_shown hscan hids hkey] at hg
    cases hage : callSeconds zone (cleanPart (field (entry r key) "call_started"))
      (zone.clock n) with
    | error error =>
      rw [hage] at hg
      cases hg
    | ok seconds =>
      rw [hage] at hg
      exact ⟨key, hkey, rfl, seconds, hage, (Except.ok.inj hg).symm⟩
  have hids' : gateways.map (fun g => g.gw_id) = gwIds pairings r scan := by
    rw [← List.map_id (gwIds pairings r scan)]
    refine (map_eq_of_related hall fun id hid g hg => ?_).symm
    obtain ⟨key, -, rfl, seconds, -, rfl⟩ := hrow id hid g hg
    rfl
  let stateOf (id : String) : Json :=
    field (gwLoad (some (.json (field (adminStatus pairings r scan) id)))) "state"
  have hstateOf : ∀ key ∈ shownKeys r, stateOf (gwIdOf key) = .str (deriveState (entry r key)) := by
    intro key hkey
    simp only [stateOf, field, lookup_adminStatus hscan hids hkey, Option.getD_some]
    rfl
  have hstates : (gateways.map fun g => g.state).Perm
      ((shownKeys r).map fun key => Json.str (deriveState (entry r key))) := by
    have hmap : gateways.map (fun g => g.state) = (gwIds pairings r scan).map stateOf := by
      refine (map_eq_of_related hall fun id hid g hg => ?_).symm
      obtain ⟨key, hkey, rfl, seconds, -, rfl⟩ := hrow id hid g hg
      exact hstateOf key hkey
    have hkeys : (shownKeys r).map (fun key => Json.str (deriveState (entry r key))) =
        ((shownKeys r).map gwIdOf).map stateOf := by
      rw [List.map_map]
      exact List.map_congr_left fun key hkey => (hstateOf key hkey).symm
    rw [hmap, hkeys]
    exact (gwIds_perm hscan hids).map stateOf
  have hcount (text : String) : (gateways.map fun g => g.state).count (.str text) =
      ((shownKeys r).map (entry r)).countP fun gw => decide (deriveState gw = text) := by
    rw [hstates.count_eq, List.count_eq_countP, List.countP_map, List.countP_map]
    refine List.countP_congr fun key _ => ?_
    simp
  have hfree : (summary gateways).free =
      (shownKeys r).countP fun key => isFree (entry r key) := by
    rw [summary, hcount, List.countP_map]
    refine List.countP_congr fun key _ => ?_
    simp [deriveState_free]
  refine ⟨?_, ?_, ?_, hfree, ?_, ?_⟩
  · rw [hids']
    exact gwIds_perm hscan hids
  · rw [hids']
    have hsorted := @List.pairwise_mergeSort String (fun a b => decide (a ≤ b))
      (fun a b c hab hbc => decide_eq_true ((of_decide_eq_true hab).trans (of_decide_eq_true hbc)))
      (fun a b => by simpa using le_total a b) (keys (adminStatus pairings r scan))
    exact hsorted.imp fun hle => of_decide_eq_true hle
  · intro g hg
    obtain ⟨id, hid, hg'⟩ := exists_related hall.flip hg
    obtain ⟨key, hkey, -, seconds, hage, rfl⟩ := hrow id hid g hg'
    exact ⟨key, hkey, seconds, hage, rfl⟩
  · have hlength : gateways.length = ((shownKeys r).map (entry r)).length := by
      rw [List.length_map, ← List.length_map (f := fun g : GatewayStatus => g.state),
        hstates.length_eq, List.length_map]
    have htotal := length_eq_states ((shownKeys r).map (entry r))
    rw [← hlength] at htotal
    simp only [summary, hcount]
    rw [htotal, List.countP_map (p := uncounted)]
    rfl
  · intro hip other hother
    rw [hfree, List.countP_eq_zero,
      findAvailableGateway_none fun key hkey => hip key (hother.1 hkey)]
    constructor
    · intro hnone key hkey
      have hthere : key ∈ shownKeys r := List.mem_filter.mpr
        ⟨hother.1 hkey, present_of_gwIp (hip key (hother.1 hkey))⟩
      exact Bool.eq_false_iff.mpr (hnone key hthere)
    · intro hnone key hkey
      exact Bool.eq_false_iff.mp (hnone key (hother.2 (List.mem_of_mem_filter hkey)))

theorem Tells.row_of_key {gateways : List GatewayStatus} (h : Tells zone pairings r n gateways)
    (hids : ((keys r).map gwIdOf).Nodup) (hkey : key ∈ shownKeys r) :
    ∃ g ∈ gateways, ∃ seconds,
      g = row (pairingCode pairings (gwIdOf key)) (entry r key) (gwIdOf key) seconds := by
  obtain ⟨g, hg, hid⟩ := List.mem_map.mp (h.ids.mem_iff.mpr (List.mem_map_of_mem hkey))
  obtain ⟨other, hother, seconds, -, rfl⟩ := h.rows g hg
  obtain rfl := gwIdOf_injective hids hother hkey hid
  exact ⟨_, hg, seconds, rfl⟩

/-- Where the identifiers are apart, the console answers exactly when the start of every call that
the registry holds is readable, and what it shows is the registry. -/
theorem console_tells_registry (hscan : ScanOrder r scan) (hids : ((keys r).map gwIdOf).Nodup) :
    ((∃ statuses, pool zone pairings r scan n = .ok statuses) ↔
      ∀ key ∈ shownKeys r, readable zone (field (entry r key) "call_started") = true) ∧
    ∀ statuses, pool zone pairings r scan n = .ok statuses →
      Tells zone pairings r n statuses.gateways := by
  constructor
  · have hexists : (∃ statuses, pool zone pairings r scan n = .ok statuses) ↔
        ∃ gateways, gatewayStatuses zone (zone.clock n) (adminStatus pairings r scan)
          (gwIds pairings r scan) = .ok gateways := by
      simp only [pool_eq_ok]
      exact ⟨fun ⟨_, gateways, hok, _⟩ => ⟨gateways, hok⟩, fun ⟨gateways, hok⟩ =>
        ⟨_, gateways, hok, rfl⟩⟩
    rw [hexists, exists_gatewayStatuses]
    have hone : ∀ key ∈ shownKeys r, ((∃ status, gatewayStatus zone (zone.clock n) (gwIdOf key)
        (field (adminStatus pairings r scan) (gwIdOf key)) = .ok status) ↔
          readable zone (field (entry r key) "call_started") = true) := by
      intro key hkey
      rw [gatewayStatus_shown hscan hids hkey, ← callSeconds_ok_iff _ (zone.clock n)]
      cases callSeconds zone (cleanPart (field (entry r key) "call_started")) (zone.clock n) with
      | ok seconds => exact iff_of_true ⟨_, rfl⟩ ⟨_, rfl⟩
      | error error => exact iff_of_false (by rintro ⟨_, ⟨⟩⟩) (by rintro ⟨_, ⟨⟩⟩)
    constructor
    · intro hall key hkey
      exact (hone key hkey).mp (hall _ ((gwIds_perm hscan hids).mem_iff.mpr
        (List.mem_map_of_mem hkey)))
    · intro hall id hid
      obtain ⟨key, hkey, rfl⟩ := List.mem_map.mp ((gwIds_perm hscan hids).mem_iff.mp hid)
      exact (hone key hkey).mpr (hall key hkey)
  · intro statuses h
    obtain ⟨gateways, hgateways, rfl⟩ := pool_eq_ok.mp h
    exact tells_of_pool hscan hids hgateways

end Registry

/-- A gateway in a call, one whose container has exited, and a text that is not an entry. -/
def threeGateways : Redis :=
  [("gw2", .json (.obj [("gw_ip", .str "10.0.0.2"), ("gw_state", .str "started"),
      ("room", .str "lobby"), ("call_started", .str "2026-10-25T00:30:00Z")])),
   ("gw1", .json (.obj [("gw_ip", .str "10.0.0.1"), ("gw_state", .str "stopped"),
      ("room", .null), ("call_started", .str "None")])),
   ("gw3", .garbage)]

theorem console_tells_threeGateways :
    (∃ statuses, pool parisAutumn [("4F7A", "gw2")] threeGateways ["gw1", "gw2", "gw3", "gw1"]
      1792892700000000 = .ok statuses) ∧
    ∀ statuses, pool parisAutumn [("4F7A", "gw2")] threeGateways ["gw1", "gw2", "gw3", "gw1"]
      1792892700000000 = .ok statuses → (summary statuses.gateways).free = 1 := by
  have hscan : ScanOrder threeGateways ["gw1", "gw2", "gw3", "gw1"] := by decide
  have hids : ((keys threeGateways).map gwIdOf).Nodup := by decide
  have htold := @console_tells_registry parisAutumn [("4F7A", "gw2")] threeGateways
    ["gw1", "gw2", "gw3", "gw1"] 1792892700000000 hscan hids
  refine ⟨htold.1.mpr ?_, fun statuses h => ((htold.2 statuses h).free).trans (by decide)⟩
  have hreadable : (shownKeys threeGateways).all (fun key =>
      readable parisAutumn (field (entry threeGateways key) "call_started")) = true := by
    decide +kernel
  exact List.all_eq_true.mp hreadable

end PoolView
