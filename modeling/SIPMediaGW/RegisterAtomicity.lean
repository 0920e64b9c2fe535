import SIPMediaGW.ProxyPairing

/-! # Registrations that fail

`POST /register` writes the pairing code before it checks what the gateway sent. Codes are kept
here with the instant they expire. -/
namespace RegisterAtomicity

open FieldMap
open ProxyPairing hiding Store Handling setex pair registerGateway
open ProxyRegistry
open PythonJson
open StatefulExceptions

/-- The registry, and the gateway and the expiry of each live code. -/
structure Store where
  redis : Redis
  codes : List (String × (String × ℤ))

abbrev Handling (α : Type) := Action Store Failure α

/-- The instant of a request, its text, and the seconds `SETEX` makes of a time; `none` where it
fails. -/
structure Clock where
  now : ℤ
  isoformat : Json
  lifetime : Json → Option ℤ

variable (env : Environment) (clock : Clock)

/-- `setex("pairing:<code>", timeout, gwId)`. -/
def setex (code : String) (timeout gwId : Json) : Handling Unit :=
  match encode env gwId, clock.lifetime timeout with
  | some gw, some seconds =>
    modify fun s => { s with codes := put s.codes code (gw, clock.now + seconds) }
  | _, _ => throw .raised

/-- The code a registration returns, and the gateway it goes on with. -/
def pair (generated : PairingCode) (pairingCode timeout gwId : Json) : Handling (Json × Json) := do
  let existingGwId := (← get).codes.lookup (pyStr env.repr pairingCode)
  match truthy pairingCode, existingGwId with
  | true, some (existing, _) => pure (pairingCode, .str existing)
  | _, _ =>
    setex env clock generated.text timeout gwId
    pure (.str generated.text, gwId)

def registerGateway (generated : PairingCode) (request : Request) : Handling Registered := do
  if authorize env request.authHeader = false then throw .unauthorized
  else
    match request.body with
    | some (.obj body) =>
      let gwIp := field body "gw_ip"
      let gwType := (body.lookup "gw_type").getD (.str "media")
      let (pairingCode, gwId) ← pair env clock generated (field body "pairing_code")
        (field body "pairing_timeout") (field body "gw_id")
      if (truthy gwIp && truthy gwId) = false then throw .missing
      else
        modify fun s =>
          { s with
            redis := registerEntry s.redis (pyStr env.repr gwId) gwIp gwType clock.isoformat }
        pure ⟨gwId, gwIp, pairingCode⟩
    | _ => throw .raised

def statusCode : Except Failure Registered → ℕ
  | .ok _ => 200
  | .error .unauthorized => 401
  | .error _ => 400

/-- An answer with a 4xx status leaves every key as it was. -/
def Atomic (generated : PairingCode) (request : Request) (s : Store) : Prop :=
  ∀ result s', exec (registerGateway env clock generated request) s = (result, s') →
    400 ≤ statusCode result → statusCode result < 500 →
    (∀ key, s'.redis.lookup key = s.redis.lookup key) ∧
      ∀ code, s'.codes.lookup code = s.codes.lookup code

section Forget

variable {env clock}

def Store.forget (s : Store) : ProxyPairing.Store := ⟨s.redis, s.codes.map fun e => (e.1, e.2.1)⟩

/-- A program over the codes with their expiry does what one over the codes does. -/
def Simulates {α : Type} (p : Handling α) (q : ProxyPairing.Handling α) : Prop :=
  ∀ s, exec q s.forget = ((exec p s).1, (exec p s).2.forget)

theorem Simulates.bind {α β : Type} {p : Handling α} {q : ProxyPairing.Handling α}
    {f : α → Handling β} {g : α → ProxyPairing.Handling β} (h : Simulates p q)
    (hfg : ∀ a, Simulates (f a) (g a)) : Simulates (p >>= f) (q >>= g) := by
  intro s
  rw [exec_bind, exec_bind, h s]
  cases exec p s with
  | mk r t =>
    cases r with
    | error e => rfl
    | ok a => exact hfg a t

theorem simulates_setex (hsetex : ∀ v, env.setexAccepts v = (clock.lifetime v).isSome)
    (code : String) (timeout gwId : Json) :
    Simulates (setex env clock code timeout gwId) (ProxyPairing.setex env code timeout gwId) := by
  intro s
  rw [setex, ProxyPairing.setex]
  cases encode env gwId with
  | none => rfl
  | some gw =>
    dsimp only
    rw [hsetex]
    cases clock.lifetime timeout with
    | none => rfl
    | some seconds =>
      have hput := put_map_snd Prod.fst s.codes code (gw, clock.now + seconds)
      exact congrArg (fun codes => (Except.ok (), (⟨s.redis, codes⟩ : ProxyPairing.Store))) hput

theorem simulates_pair (hsetex : ∀ v, env.setexAccepts v = (clock.lifetime v).isSome)
    (generated : PairingCode) (pairingCode timeout gwId : Json) :
    Simulates (pair env clock generated pairingCode timeout gwId)
      (ProxyPairing.pair env generated pairingCode timeout gwId) := by
  have hgenerate : Simulates
      (setex env clock generated.text timeout gwId >>= fun _ =>
        (pure (.str generated.text, gwId) : Handling (Json × Json)))
      (ProxyPairing.setex env generated.text timeout gwId >>= fun _ =>
        pure (.str generated.text, gwId)) :=
    (simulates_setex hsetex generated.text timeout gwId).bind fun _ s => rfl
  intro s
  have hlookup : s.forget.codes.lookup (pyStr env.repr pairingCode) =
      (s.codes.lookup (pyStr env.repr pairingCode)).map Prod.fst :=
    lookup_map_snd Prod.fst s.codes _
  rw [pair, ProxyPairing.pair, exec_bind_ok (exec_get _), exec_bind_ok (exec_get _), hlookup]
  cases truthy pairingCode with
  | false => exact hgenerate s
  | true =>
    cases s.codes.lookup (pyStr env.repr pairingCode) with
    | none => exact hgenerate s
    | some existing => rfl

/-- Without the expiry of the codes this is the registration of a gateway. -/
theorem simulates_registerGateway
    (hsetex : ∀ v, env.setexAccepts v = (clock.lifetime v).isSome) (generated : PairingCode)
    (request : Request) :
    Simulates (registerGateway env clock generated request)
      (ProxyPairing.registerGateway env generated clock.isoformat request) := by
  intro s
  rw [registerGateway, ProxyPairing.registerGateway]
  by_cases hauth : authorize env request.authHeader = false
  · rw [if_pos hauth, if_pos hauth]
    rfl
  · rw [if_neg hauth, if_neg hauth]
    cases request.body with
    | none => rfl
    | some v =>
      cases v with
      | obj body =>
        refine (simulates_pair hsetex generated _ _ _).bind (fun paired s => ?_) s
        dsimp only
        split
        · rfl
        · rfl
      | _ => rfl

end Forget

section Registration

variable {env clock} {generated : PairingCode} {request : Request} {body : Dict} {s : Store}

/-- The code that was sent lives. -/
def Live (env : Environment) (body : Dict) (s : Store) : Prop :=
  truthy (field body "pairing_code") = true ∧
    (s.codes.lookup (pyStr env.repr (field body "pairing_code"))).isSome = true

/-- What was sent names an address and a gateway. -/
def Complete (body : Dict) : Prop :=
  truthy (field body "gw_ip") = true ∧ truthy (field body "gw_id") = true

variable (clock generated) in
theorem exec_pair_live (h : Live env body s) (timeout gwId : Json) :
    ∃ existing, exec (pair env clock generated (field body "pairing_code") timeout gwId) s =
      (.ok (field body "pairing_code", .str existing), s) := by
  obtain ⟨htruthy, hlive⟩ := h
  obtain ⟨⟨existing, expiry⟩, hlookup⟩ := Option.isSome_iff_exists.mp hlive
  refine ⟨existing, ?_⟩
  rw [pair, exec_bind_ok (exec_get _), htruthy, hlookup]
  rfl

variable (clock generated) in
theorem exec_pair_new (h : ¬ Live env body s) (timeout gwId : Json) :
    exec (pair env clock generated (field body "pairing_code") timeout gwId) s =
      exec (do
        setex env clock generated.text timeout gwId
        pure (.str generated.text, gwId)) s := by
  rw [pair, exec_bind_ok (exec_get _)]
  cases htruthy : truthy (field body "pairing_code") with
  | false => rfl
  | true =>
    cases hlookup : s.codes.lookup (pyStr env.repr (field body "pairing_code")) with
    | none => rfl
    | some existing => exact absurd ⟨htruthy, by rw [hlookup]; rfl⟩ h

variable (clock generated s) in
theorem exec_registerGateway (hauth : authorize env request.authHeader = true)
    (hbody : request.body = some (.obj body)) :
    exec (registerGateway env clock generated request) s =
      match exec (pair env clock generated (field body "pairing_code")
        (field body "pairing_timeout") (field body "gw_id")) s with
      | (.ok (code, gwId), t) =>
        if truthy (field body "gw_ip") && truthy gwId then
          (.ok ⟨gwId, field body "gw_ip", code⟩,
            ⟨registerEntry t.redis (pyStr env.repr gwId) (field body "gw_ip")
              ((body.lookup "gw_type").getD (.str "media")) clock.isoformat, t.codes⟩)
        else (.error .missing, t)
      | (.error e, t) => (.error e, t) := by
  rw [registerGateway, if_neg (by rw [hauth]; decide), hbody]
  dsimp only
  rw [exec_bind]
  cases exec (pair env clock generated (field body "pairing_code")
      (field body "pairing_timeout") (field body "gw_id")) s with
  | mk r t =>
    cases r with
    | error e => rfl
    | ok paired =>
      obtain ⟨code, gwId⟩ := paired
      dsimp only
      cases truthy (field body "gw_ip") && truthy gwId <;> rfl

/-- A request that succeeds, or that has written nothing. -/
theorem atomic_of_eq {result : Except Failure Registered} {t : Store}
    (hrun : exec (registerGateway env clock generated request) s = (result, t))
    (h : statusCode result = 200 ∨ t = s) : Atomic env clock generated request s := by
  intro result' s' hrun' hfour _
  obtain ⟨rfl, rfl⟩ := Prod.mk.inj (hrun'.symm.trans hrun)
  rcases h with hstatus | rfl
  · omega
  · exact ⟨fun _ => rfl, fun _ => rfl⟩

theorem atomic_of_live (hauth : authorize env request.authHeader = true)
    (hbody : request.body = some (.obj body)) (h : Live env body s) :
    Atomic env clock generated request s := by
  obtain ⟨existing, hpair⟩ := exec_pair_live clock generated h (field body "pairing_timeout")
    (field body "gw_id")
  have hrun := exec_registerGateway clock generated s hauth hbody
  rw [hpair] at hrun
  dsimp only at hrun
  split at hrun
  · exact atomic_of_eq hrun (.inl rfl)
  · exact atomic_of_eq hrun (.inr rfl)

/-- `SETEX` fails. -/
theorem atomic_of_setex_fails (hauth : authorize env request.authHeader = true)
    (hbody : request.body = some (.obj body)) (hlive : ¬ Live env body s)
    (h : encode env (field body "gw_id") = none ∨
      clock.lifetime (field body "pairing_timeout") = none) :
    Atomic env clock generated request s := by
  have hsetex : exec (setex env clock generated.text (field body "pairing_timeout")
      (field body "gw_id")) s = (.error .raised, s) := by
    rw [setex]
    rcases h with h | h
    · rw [h]
      rfl
    · rw [h]
      cases encode env (field body "gw_id") <;> rfl
  have hrun := exec_registerGateway clock generated s hauth hbody
  rw [exec_pair_new clock generated hlive, exec_bind, hsetex] at hrun
  exact atomic_of_eq hrun (.inr rfl)

variable (generated) in
/-- `SETEX` writes, and the mandatory fields are checked after it. -/
theorem exec_registerGateway_new (hauth : authorize env request.authHeader = true)
    (hbody : request.body = some (.obj body)) (hlive : ¬ Live env body s) {gw : String}
    {seconds : ℤ} (hgw : encode env (field body "gw_id") = some gw)
    (hseconds : clock.lifetime (field body "pairing_timeout") = some seconds) :
    ∃ result redis, exec (registerGateway env clock generated request) s =
        (result, ⟨redis, put s.codes generated.text (gw, clock.now + seconds)⟩) ∧
      (Complete body → statusCode result = 200) ∧
      (¬ Complete body → statusCode result = 400 ∧ redis = s.redis) := by
  have hsetex : exec (setex env clock generated.text (field body "pairing_timeout")
      (field body "gw_id")) s =
        (.ok (), ⟨s.redis, put s.codes generated.text (gw, clock.now + seconds)⟩) := by
    rw [setex, hgw, hseconds]
    rfl
  have hrun := exec_registerGateway clock generated s hauth hbody
  rw [exec_pair_new clock generated hlive, exec_bind, hsetex] at hrun
  by_cases hcomplete : Complete body
  · refine ⟨_, _, hrun.trans (if_pos ?_), fun _ => rfl, fun h => absurd hcomplete h⟩
    rw [hcomplete.1, hcomplete.2]
    rfl
  · refine ⟨_, _, hrun.trans (if_neg ?_), fun h => absurd h hcomplete, fun _ => ⟨rfl, rfl⟩⟩
    rw [Bool.and_eq_true]
    exact hcomplete

end Registration

/-- A registration is atomic unless a code is generated for a request that is then refused. -/
theorem atomic_iff (env : Environment) (clock : Clock) (generated : PairingCode)
    (request : Request) (body : Dict) (s : Store)
    (hauth : authorize env request.authHeader = true)
    (hbody : request.body = some (.obj body)) :
    Atomic env clock generated request s ↔
      ∀ gw seconds, encode env (field body "gw_id") = some gw →
        clock.lifetime (field body "pairing_timeout") = some seconds →
        Live env body s ∨ Complete body ∨
          s.codes.lookup generated.text = some (gw, clock.now + seconds) := by
  by_cases hlive : Live env body s
  · exact iff_of_true (atomic_of_live hauth hbody hlive) fun _ _ _ _ => .inl hlive
  cases hgw : encode env (field body "gw_id") with
  | none =>
    refine iff_of_true (atomic_of_setex_fails hauth hbody hlive (.inl hgw)) ?_
    intro gw seconds hsome
    cases hsome
  | some gw =>
    cases hseconds : clock.lifetime (field body "pairing_timeout") with
    | none =>
      refine iff_of_true (atomic_of_setex_fails hauth hbody hlive (.inr hseconds)) ?_
      intro gw' seconds _ hsome
      cases hsome
    | some seconds =>
      obtain ⟨result, redis, hrun, hok, hrefused⟩ :=
        exec_registerGateway_new generated hauth hbody hlive hgw hseconds
      by_cases hcomplete : Complete body
      · exact iff_of_true (atomic_of_eq hrun (.inl (hok hcomplete)))
          fun _ _ _ _ => .inr (.inl hcomplete)
      obtain ⟨hstatus, rfl⟩ := hrefused hcomplete
      constructor
      · intro h gw' seconds' hgw' hseconds'
        obtain rfl := Option.some.inj hgw'
        obtain rfl := Option.some.inj hseconds'
        have hcodes := (h result _ hrun (by omega) (by omega)).2 generated.text
        rw [lookup_put_self] at hcodes
        exact .inr (.inr hcodes.symm)
      · intro h result' s' hrun' _ _
        obtain ⟨rfl, rfl⟩ := Prod.mk.inj (hrun'.symm.trans hrun)
        refine ⟨fun _ => rfl, fun code => ?_⟩
        have hsame := ((h gw seconds rfl rfl).resolve_left hlive).resolve_left hcomplete
        by_cases hcode : code = generated.text
        · rw [hcode, lookup_put_self, hsame]
        · exact lookup_put_ne _ _ hcode

/-- Midnight, with the time gateways send. -/
def midnight : Clock where
  now := 0
  isoformat := .null
  lifetime v := if isText v "296" then some 296 else none

/-- A registration without an address is refused, and its live code stays as it was. -/
theorem live_code_atomic :
    statusCode (exec (registerGateway plainEnvironment midnight freshCode
      (post (report "gw1" "" "Z9Y8X"))) ⟨[], [("Z9Y8X", ("gw1", 100))]⟩).1 = 400 ∧
    Atomic plainEnvironment midnight freshCode (post (report "gw1" "" "Z9Y8X"))
      ⟨[], [("Z9Y8X", ("gw1", 100))]⟩ := by
  refine ⟨by decide +kernel, ?_⟩
  refine (atomic_iff plainEnvironment midnight freshCode (post (report "gw1" "" "Z9Y8X"))
    (report "gw1" "" "Z9Y8X") ⟨[], [("Z9Y8X", ("gw1", 100))]⟩ (by decide +kernel) rfl).mpr ?_
  intro gw seconds _ _
  exact .inl ⟨by decide +kernel, by decide +kernel⟩

/-- A code is left for a gateway whose registration was refused. -/
theorem refused_registration_pairs :
    ¬ ∀ (env : Environment) (clock : Clock) (generated : PairingCode) (request : Request)
      (body : Dict) (s : Store), authorize env request.authHeader = true →
      request.body = some (.obj body) → Atomic env clock generated request s := by
  intro h
  have hcodes := (h plainEnvironment midnight freshCode (post (report "gw1" "" ""))
    (report "gw1" "" "") ⟨[], []⟩ (by decide +kernel) rfl (.error .missing)
    ⟨[], [("K7M2P", ("gw1", 296))]⟩ rfl (by decide) (by decide)).2 "K7M2P"
  cases hcodes

end RegisterAtomicity
