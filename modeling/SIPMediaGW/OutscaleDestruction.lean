import Mathlib.Data.List.Nodup
import SIPMediaGW.StatefulExceptions

/-! # The destruction of instances at the provider

`Outscale.destroyInstances` looks every address up and terminates what it finds. `instanceId` is
a variable of the whole call: an address without an instance leaves it as it was. -/
namespace OutscaleDestruction

open StatefulExceptions

inductive PyError where
  | typeError
  | unboundLocalError (name : String)
  deriving DecidableEq, Repr

/-- Identifiers and addresses are not empty, so that they are true as conditions. -/
abbrev Name := { s : String // s ≠ "" }

/-- The `reservationSet` of `DescribeInstances`; an empty element is read as `None`. -/
inductive Reservations where
  | empty
  | withoutItem
  | item (instanceId : Name) (ipAddress : Option Name)
  deriving DecidableEq

/-- The `addressesSet` of `DescribeAddresses`. -/
inductive Addresses where
  | empty
  | item (instanceId : Option Name)
  deriving DecidableEq

/-- An address of the list, and what the provider answers if it is looked up as an instance or
as a public address. -/
structure Lookup where
  ip : Name
  reservations : Reservations
  addresses : Addresses
  deriving DecidableEq

inductive Request where
  | describeInstances (ip : Name)
  | describeAddresses (publicIp : Name)
  | disassociateAddress (publicIp : Name)
  | terminateInstances (instanceId : Name)
  | releaseAddress (publicIp : Name)
  deriving DecidableEq

/-- The variable that outlives an iteration, unset at first, and the requests made. -/
structure Destroying where
  instanceId : Option Name
  requests : List Request

abbrev Program (α : Type) := Action Destroying PyError α

def makeRequest (request : Request) : Program Unit :=
  modify fun s => { s with requests := s.requests ++ [request] }

def requestFor (publicIp : Option Name) (request : Name → Request) : Program Unit :=
  match publicIp with
  | some ip => makeRequest (request ip)
  | none => pure ()

variable (isPrivate : Name → Bool)

/-- The instance and the public address an answer names. -/
def Lookup.answer (l : Lookup) : Except PyError (Option Name × Option Name) :=
  if isPrivate l.ip then
    match l.reservations with
    | .empty => .error .typeError
    | .withoutItem => .ok (none, none)
    | .item instanceId ipAddress => .ok (some instanceId, ipAddress)
  else
    match l.addresses with
    | .empty => .error .typeError
    | .item instanceId => .ok (instanceId, some l.ip)

/-- The body of the loop. -/
def destroyInstance (l : Lookup) : Program Unit := do
  makeRequest (if isPrivate l.ip then .describeInstances l.ip else .describeAddresses l.ip)
  let (found, pubIp) ← liftM (l.answer isPrivate)
  modify fun s => { s with instanceId := found.or s.instanceId }
  match (← get).instanceId with
  | none => throw (.unboundLocalError "instanceId")
  | some instanceId =>
    requestFor pubIp .disassociateAddress
    makeRequest (.terminateInstances instanceId)
    requestFor pubIp .releaseAddress

def destroyInstances (ipList : List Lookup) : Program Unit :=
  forM ipList (destroyInstance isPrivate)

/-- The instance an address denotes. -/
def Lookup.denotes (l : Lookup) : Option Name :=
  match l.answer isPrivate with
  | .ok (found, _) => found
  | .error _ => none

/-- The public address of what an address denotes, or of itself. -/
def Lookup.publicAddress (l : Lookup) : Option Name :=
  match l.answer isPrivate with
  | .ok (_, pubIp) => pubIp
  | .error _ => none

/-- The call returns, terminates the listed instances once each and no other, and releases
exactly their public addresses. -/
structure Destroys (ipList : List Lookup) : Prop where
  returns : (exec (destroyInstances isPrivate ipList) ⟨none, []⟩).1 = .ok ()
  terminates : ∀ id, (exec (destroyInstances isPrivate ipList) ⟨none, []⟩).2.requests.count
      (.terminateInstances id) = if ∃ l ∈ ipList, l.denotes isPrivate = some id then 1 else 0
  releases : ∀ ip, .releaseAddress ip ∈
      (exec (destroyInstances isPrivate ipList) ⟨none, []⟩).2.requests ↔
    ∃ l ∈ ipList, l.publicAddress isPrivate = some ip

section Iteration

variable {isPrivate : Name → Bool} {l : Lookup} {s : Destroying} {id : Name}

/-- The requests for an address and the instance that is terminated. -/
def requestsOf (isPrivate : Name → Bool) (l : Lookup) (id : Name) : List Request :=
  (if isPrivate l.ip then .describeInstances l.ip else .describeAddresses l.ip) ::
    ((l.publicAddress isPrivate).toList.map .disassociateAddress ++
      (.terminateInstances id :: (l.publicAddress isPrivate).toList.map .releaseAddress))

theorem exec_requestFor (publicIp : Option Name) (request : Name → Request) (s : Destroying) :
    exec (requestFor publicIp request) s =
      (.ok (), { s with requests := s.requests ++ publicIp.toList.map request }) := by
  cases publicIp with
  | some ip => rfl
  | none => rw [requestFor, exec_pure, Option.toList_none, List.map_nil, List.append_nil]

/-- An answer that can be read terminates what the variable then names. -/
theorem exec_destroyInstance {found pubIp : Option Name}
    (hanswer : l.answer isPrivate = .ok (found, pubIp)) (hid : found.or s.instanceId = some id) :
    exec (destroyInstance isPrivate l) s =
      (.ok (), ⟨some id, s.requests ++ requestsOf isPrivate l id⟩) := by
  have hpublic : l.publicAddress isPrivate = pubIp := by rw [Lookup.publicAddress, hanswer]
  rw [destroyInstance, makeRequest, exec_bind_ok (exec_modify _ _), hanswer,
    exec_bind_ok (exec_liftM _ _)]
  simp only [exec_bind_ok (exec_modify _ _), exec_bind_ok (exec_get _), hid,
    exec_bind_ok (exec_requestFor _ _ _), makeRequest, exec_requestFor, requestsOf, hpublic,
    List.append_assoc, List.cons_append, List.nil_append]

theorem exec_destroyInstance_denoted (hid : l.denotes isPrivate = some id) (s : Destroying) :
    exec (destroyInstance isPrivate l) s =
      (.ok (), ⟨some id, s.requests ++ requestsOf isPrivate l id⟩) := by
  rw [Lookup.denotes] at hid
  split at hid
  · next found pubIp hanswer => exact exec_destroyInstance hanswer (by rw [hid, Option.some_or])
  · cases hid

/-- An address that denotes nothing raises, or terminates the instance of an address before. -/
theorem exec_destroyInstance_unknown (hid : l.denotes isPrivate = none) (s : Destroying) :
    (∃ e, (exec (destroyInstance isPrivate l) s).1 = .error e) ∨
      ∃ id, s.instanceId = some id ∧ exec (destroyInstance isPrivate l) s =
        (.ok (), ⟨some id, s.requests ++ requestsOf isPrivate l id⟩) := by
  cases hanswer : l.answer isPrivate with
  | error e =>
    refine Or.inl ⟨e, ?_⟩
    rw [destroyInstance, makeRequest, exec_bind_ok (exec_modify _ _), hanswer,
      exec_bind_error (exec_liftM _ _)]
  | ok answer =>
    obtain ⟨found, pubIp⟩ := answer
    rw [Lookup.denotes, hanswer] at hid
    obtain rfl : found = none := hid
    cases hset : s.instanceId with
    | some id => exact Or.inr ⟨id, rfl, exec_destroyInstance hanswer hset⟩
    | none =>
      refine Or.inl ⟨.unboundLocalError "instanceId", ?_⟩
      rw [destroyInstance, makeRequest, exec_bind_ok (exec_modify _ _), hanswer,
        exec_bind_ok (exec_liftM _ _), exec_bind_ok (exec_modify _ _), exec_bind_ok (exec_get _)]
      simp only [hset, Option.or_none]
      rfl

/-- Requests are only added. -/
theorem keeps_requests (before : List Request) (l : Lookup) :
    Keeps (fun s : Destroying => before <+: s.requests) (destroyInstance isPrivate l) := by
  have hmake (request : Request) :
      Keeps (fun s : Destroying => before <+: s.requests) (makeRequest request) :=
    keeps_modify fun s hs => hs.trans (List.prefix_append _ _)
  have hfor (publicIp : Option Name) (request : Name → Request) :
      Keeps (fun s : Destroying => before <+: s.requests) (requestFor publicIp request) := by
    cases publicIp with
    | some ip => exact hmake _
    | none => exact keeps_pure _
  refine (hmake _).bind fun _ => (keeps_liftM _).bind fun answer => ?_
  refine Keeps.bind (keeps_modify fun s hs => hs) fun _ => keeps_get_bind fun s hs => ?_
  cases s.instanceId with
  | none => exact hs
  | some id => exact ((hfor _ _).bind fun _ => (hmake _).bind fun _ => hfor _ _) s hs

theorem keeps_destroyInstances (isPrivate : Name → Bool) (before : List Request)
    (ipList : List Lookup) :
    Keeps (fun s : Destroying => before <+: s.requests) (destroyInstances isPrivate ipList) :=
  keeps_forM fun l _ => keeps_requests before l

end Iteration

section List

variable {isPrivate : Name → Bool} {ipList : List Lookup} {s t : Destroying}

/-- Where every address denotes an instance, each is terminated in its turn. -/
theorem exec_destroyInstances {ids : List Name}
    (hids : ipList.map (Lookup.denotes isPrivate) = ids.map some) (s : Destroying) :
    exec (destroyInstances isPrivate ipList) s = (.ok (), ⟨ids.getLast?.or s.instanceId,
      s.requests ++ (ipList.zip ids).flatMap fun e => requestsOf isPrivate e.1 e.2⟩) := by
  induction ipList generalizing ids s with
  | nil =>
    obtain rfl : ids = [] := List.map_eq_nil_iff.mp hids.symm
    simp [destroyInstances]
  | cons l ipList ih =>
    obtain ⟨id, ids, rfl⟩ : ∃ id ids', ids = id :: ids' := by
      cases ids with
      | nil => cases hids
      | cons id ids => exact ⟨id, ids, rfl⟩
    obtain ⟨hid, hids⟩ := List.cons_eq_cons.mp hids
    rw [destroyInstances, List.forM_cons, exec_bind_ok (exec_destroyInstance_denoted hid s)]
    rw [← destroyInstances, ih hids]
    simp [List.getLast?_cons]

/-- A call that terminates no instance twice has found one for every address. -/
theorem denotes_of_returns (hrun : exec (destroyInstances isPrivate ipList) s = (.ok (), t))
    (honce : ∀ id, t.requests.count (.terminateInstances id) ≤ 1)
    (hset : ∀ id, s.instanceId = some id → .terminateInstances id ∈ s.requests) :
    ∀ l ∈ ipList, (l.denotes isPrivate).isSome := by
  induction ipList generalizing s with
  | nil => exact fun l hl => nomatch hl
  | cons l ipList ih =>
    have hmem (id : Name) : .terminateInstances id ∈ requestsOf isPrivate l id := by
      simp [requestsOf]
    rw [destroyInstances, List.forM_cons] at hrun
    cases hid : l.denotes isPrivate with
    | some id =>
      rw [exec_bind_ok (exec_destroyInstance_denoted hid s)] at hrun
      refine List.forall_mem_cons.mpr ⟨by rw [hid]; rfl, ih hrun fun other hother => ?_⟩
      obtain rfl := Option.some.inj hother
      exact List.mem_append_right _ (hmem id)
    | none =>
      rcases exec_destroyInstance_unknown hid s with ⟨e, herror⟩ | ⟨id, hold, hstep⟩
      · rw [exec_bind] at hrun
        cases hstep : exec (destroyInstance isPrivate l) s with
        | mk r u =>
          rw [hstep] at hrun herror
          obtain rfl : r = .error e := herror
          cases hrun
      · -- the instance of an address before is terminated again
        rw [exec_bind_ok hstep] at hrun
        have hkept : s.requests ++ requestsOf isPrivate l id <+: t.requests := by
          have hgrown := keeps_destroyInstances isPrivate (s.requests ++ requestsOf isPrivate l id)
            ipList ⟨some id, s.requests ++ requestsOf isPrivate l id⟩ (List.prefix_refl _)
          rw [destroyInstances, hrun] at hgrown
          exact hgrown
        have hcount := hkept.sublist.count_le (.terminateInstances id)
        have hbefore := List.count_pos_iff.mpr (hset id hold)
        have hagain := List.count_pos_iff.mpr (hmem id)
        have hle := honce id
        rw [List.count_append] at hcount
        omega

theorem count_requestsOf (l : Lookup) (id other : Name) :
    (requestsOf isPrivate l id).count (.terminateInstances other) = [id].count other := by
  have hdisassociate (publicIp : Option Name) :
      (publicIp.toList.map Request.disassociateAddress).count (.terminateInstances other) = 0 := by
    cases publicIp <;> rfl
  have hrelease (publicIp : Option Name) :
      (publicIp.toList.map Request.releaseAddress).count (.terminateInstances other) = 0 := by
    cases publicIp <;> rfl
  have hfirst : (if isPrivate l.ip then Request.describeInstances l.ip
      else .describeAddresses l.ip) ≠ .terminateInstances other := by
    split <;> exact fun h => nomatch h
  have hbeq : (Request.terminateInstances id == .terminateInstances other) = (id == other) := by
    by_cases hid : id = other
    · simp [hid]
    · rw [beq_eq_false_iff_ne.mpr hid,
        beq_eq_false_iff_ne.mpr fun h => hid (Request.terminateInstances.inj h)]
  rw [requestsOf, List.count_cons_of_ne hfirst, List.count_append, hdisassociate, Nat.zero_add,
    List.count_cons, hrelease, Nat.zero_add, hbeq, List.count_cons, List.count_nil, Nat.zero_add]

theorem release_mem_requestsOf (l : Lookup) (id ip : Name) :
    .releaseAddress ip ∈ requestsOf isPrivate l id ↔ l.publicAddress isPrivate = some ip := by
  have hfirst : (if isPrivate l.ip then Request.describeInstances l.ip
      else .describeAddresses l.ip) ≠ .releaseAddress ip := by
    split <;> exact fun h => nomatch h
  simp [requestsOf, Ne.symm hfirst]

theorem count_requests (ipList : List Lookup) {ids : List Name} (hlen : ipList.length = ids.length)
    (id : Name) :
    ((ipList.zip ids).flatMap fun e => requestsOf isPrivate e.1 e.2).count
      (.terminateInstances id) = ids.count id := by
  induction ipList generalizing ids with
  | nil =>
    obtain rfl : ids = [] := List.eq_nil_of_length_eq_zero hlen.symm
    rfl
  | cons l ipList ih =>
    cases ids with
    | nil => cases hlen
    | cons first ids =>
      rw [List.zip_cons_cons, List.flatMap_cons, List.count_append, count_requestsOf,
        ih (Nat.succ.inj hlen), ← List.count_append, List.singleton_append]

theorem release_mem_requests (ipList : List Lookup) {ids : List Name}
    (hlen : ipList.length = ids.length) (ip : Name) :
    .releaseAddress ip ∈ ((ipList.zip ids).flatMap fun e => requestsOf isPrivate e.1 e.2) ↔
      ∃ l ∈ ipList, l.publicAddress isPrivate = some ip := by
  induction ipList generalizing ids with
  | nil => simp
  | cons l ipList ih =>
    cases ids with
    | nil => cases hlen
    | cons first ids =>
      rw [List.zip_cons_cons, List.flatMap_cons, List.mem_append, release_mem_requestsOf,
        ih (Nat.succ.inj hlen), List.exists_mem_cons_iff]

theorem exists_ids (h : ∀ l ∈ ipList, (l.denotes isPrivate).isSome) :
    ∃ ids : List Name, ipList.map (Lookup.denotes isPrivate) = ids.map some := by
  induction ipList with
  | nil => exact ⟨[], rfl⟩
  | cons l ipList ih =>
    obtain ⟨hl, hrest⟩ := List.forall_mem_cons.mp h
    obtain ⟨id, hid⟩ := Option.isSome_iff_exists.mp hl
    obtain ⟨ids, hids⟩ := ih hrest
    exact ⟨id :: ids, by rw [List.map_cons, hid, hids, List.map_cons]⟩

/-- What the call leaves where every address denotes an instance. -/
theorem requests_of_ids {ids : List Name}
    (hids : ipList.map (Lookup.denotes isPrivate) = ids.map some) :
    (exec (destroyInstances isPrivate ipList) ⟨none, []⟩).1 = .ok () ∧
    (∀ id, (exec (destroyInstances isPrivate ipList) ⟨none, []⟩).2.requests.count
      (.terminateInstances id) = ids.count id) ∧
    ∀ ip, .releaseAddress ip ∈
        (exec (destroyInstances isPrivate ipList) ⟨none, []⟩).2.requests ↔
      ∃ l ∈ ipList, l.publicAddress isPrivate = some ip := by
  have hlen : ipList.length = ids.length := by simpa using congrArg List.length hids
  rw [exec_destroyInstances hids]
  exact ⟨rfl, count_requests ipList hlen, release_mem_requests ipList hlen⟩

/-- A call destroys exactly what it is given when every address denotes an instance, and no two
the same. -/
theorem destroys_iff (isPrivate : Name → Bool) (ipList : List Lookup) :
    Destroys isPrivate ipList ↔
      (∀ l ∈ ipList, (l.denotes isPrivate).isSome) ∧
        (ipList.map (Lookup.denotes isPrivate)).Nodup := by
  constructor
  · rintro ⟨hreturns, hterminates, -⟩
    have hdenotes : ∀ l ∈ ipList, (l.denotes isPrivate).isSome := by
      refine denotes_of_returns (Prod.ext hreturns rfl) (fun id => ?_) fun id hid =>
        nomatch hid
      rw [hterminates]
      split
      · exact Nat.le_refl 1
      · exact Nat.zero_le 1
    obtain ⟨ids, hids⟩ := exists_ids hdenotes
    obtain ⟨-, hcount, -⟩ := requests_of_ids hids
    refine ⟨hdenotes, ?_⟩
    rw [hids]
    refine List.Nodup.map (fun _ _ => Option.some.inj)
      (List.nodup_iff_count_le_one.mpr fun id => ?_)
    rw [← hcount, hterminates]
    split
    · exact Nat.le_refl 1
    · exact Nat.zero_le 1
  · rintro ⟨hdenotes, hnodup⟩
    obtain ⟨ids, hids⟩ := exists_ids hdenotes
    obtain ⟨hreturns, hcount, hreleases⟩ := requests_of_ids hids
    refine ⟨hreturns, fun id => ?_, hreleases⟩
    rw [hids] at hnodup
    have hmem : (∃ l ∈ ipList, l.denotes isPrivate = some id) ↔ id ∈ ids := by
      rw [← List.mem_map, hids, List.mem_map_of_injective (fun _ _ => Option.some.inj)]
    rw [hcount]
    by_cases hid : id ∈ ids
    · rw [if_pos (hmem.mpr hid)]
      exact List.count_eq_one_of_mem hnodup.of_map hid
    · rw [if_neg fun h => hid (hmem.mp h), List.count_eq_zero_of_not_mem hid]

/-- An instance that is gone, and a running one after it. -/
def goneFirst : List Lookup :=
  [⟨⟨"10.0.0.5", by decide⟩, .empty, .empty⟩,
   ⟨⟨"10.0.0.6", by decide⟩, .item ⟨"i-2", by decide⟩ none, .empty⟩]

theorem gone_first_raises : ¬ ∀ isPrivate ipList, Destroys isPrivate ipList := by
  intro h
  have hraises : (exec (destroyInstances (fun _ => true) goneFirst) ⟨none, []⟩).1 =
      .error .typeError := rfl
  rw [(h (fun _ => true) goneFirst).returns] at hraises
  cases hraises

end List

end OutscaleDestruction
