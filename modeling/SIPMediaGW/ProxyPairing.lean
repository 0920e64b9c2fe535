import SIPMediaGW.ProxyRegistry
import SIPMediaGW.StatefulExceptions

/-! # Registration and pairing codes

`POST /register` stores what a gateway reports of itself and returns a pairing code, which
designates a gateway for as long as its key lives. -/
namespace ProxyPairing

open FieldMap
open PythonJson
open ProxyRegistry
open StatefulExceptions

/-- The registry, and the gateway each live code designates. -/
structure Store where
  redis : Redis
  codes : List (String × String)

def pairingAlphabet : List Char := "ABCDEFGHIJKLMNOPQRSTUVWXYZ0123456789".toList

/-- What `generatePairingCode` can return. -/
structure PairingCode where
  text : String
  length_eq : text.toList.length = 5
  alphabet : ∀ c ∈ text.toList, c ∈ pairingAlphabet

/-- Texts of Python values, the times `SETEX` accepts, and the token of the gateways. -/
structure Environment where
  repr : Json → String
  setexAccepts : Json → Bool
  allowedToken : String

structure Request where
  authHeader : Option String
  /-- `none` where the body is not JSON. -/
  body : Option Json

inductive Failure where
  | unauthorized
  /-- A body without fields, or a value or a time the client or Redis refuses. -/
  | raised
  | missing
  deriving DecidableEq

structure Registered where
  gw_id : Json
  gw_ip : Json
  pairing_code : Json

abbrev Handling (α : Type) := Action Store Failure α

section Handler

variable (env : Environment)

def authorize (authHeader : Option String) : Bool :=
  match authHeader with
  | none => false
  | some header =>
    decide ("Bearer ".toList <+: header.toList) &&
      decide (String.ofList (header.toList.drop 7) = env.allowedToken)

/-- A value as the Redis client sends it: texts and numbers only. -/
def encode : Json → Option String
  | .str s => some s
  | .int n => some (pyStr env.repr (.int n))
  | .float x => some (pyStr env.repr (.float x))
  | _ => none

/-- `setex("pairing:<code>", timeout, gwId)`. -/
def setex (code : String) (timeout gwId : Json) : Handling Unit :=
  match encode env gwId with
  | some gw =>
    if env.setexAccepts timeout then modify fun s => { s with codes := put s.codes code gw }
    else throw .raised
  | none => throw .raised

/-- The code a registration returns, and the gateway it goes on with: those of the code it
was sent while this lives, else a generated one. -/
def pair (generated : PairingCode) (pairingCode timeout gwId : Json) : Handling (Json × Json) := do
  let existingGwId := (← get).codes.lookup (pyStr env.repr pairingCode)
  match truthy pairingCode, existingGwId with
  | true, some existing => pure (pairingCode, .str existing)
  | _, _ =>
    setex env generated.text timeout gwId
    pure (.str generated.text, gwId)

def registerGateway (generated : PairingCode) (now : Json) (request : Request) :
    Handling Registered := do
  if authorize env request.authHeader = false then throw .unauthorized
  else
    match request.body with
    | some (.obj body) =>
      let gwIp := field body "gw_ip"
      let gwType := (body.lookup "gw_type").getD (.str "media")
      let (pairingCode, gwId) ← pair env generated (field body "pairing_code")
        (field body "pairing_timeout") (field body "gw_id")
      if (truthy gwIp && truthy gwId) = false then throw .missing
      else
        modify fun s =>
          { s with redis := registerEntry s.redis (pyStr env.repr gwId) gwIp gwType now }
        pure ⟨gwId, gwIp, pairingCode⟩
    | _ => throw .raised

end Handler

section Property

variable (env : Environment)

/-- What a registration of `gw` that returned `code` does to the store, on the codes of `live`. -/
structure Touches (gw : String) (gwIp gwType : Json) (code : String) (live : String → Prop)
    (s s' : Store) : Prop where
  address : entryField s'.redis gw "gw_ip" = some gwIp
  type : entryField s'.redis gw "gw_type" = some gwType
  kept : ∀ key v, key ∉ keys (registeredFields gwIp gwType) →
    entryField s.redis gw key = some v → entryField s'.redis gw key = some v
  others : ∀ other, other ≠ gw → s'.redis.lookup other = s.redis.lookup other
  codes : ∀ c g, live c → s.codes.lookup c = some g → s'.codes.lookup c = some g
  designates : s'.codes.lookup code = some gw

/-- The gateway a request is about: the one its code designates while it lives, else the one
it names. -/
def designated (s : Store) (body : Dict) : String :=
  match truthy (field body "pairing_code"),
      s.codes.lookup (pyStr env.repr (field body "pairing_code")) with
  | true, some existing => existing
  | _, _ => pyStr env.repr (field body "gw_id")

/-- The gateway the request names keeps its codes: a live code it sends is its own, and one that is
generated is not a live one of another gateway. -/
def KeepsCodes (generated : PairingCode) (s : Store) (body : Dict) : Prop :=
  match truthy (field body "pairing_code"),
      s.codes.lookup (pyStr env.repr (field body "pairing_code")) with
  | true, some existing => existing = pyStr env.repr (field body "gw_id")
  | _, _ => ∀ g, s.codes.lookup generated.text = some g → g = pyStr env.repr (field body "gw_id")

end Property

section Pairing

variable {env : Environment} {s s' : Store}

theorem encode_eq_some {v : Json} {text : String} (h : encode env v = some text) :
    text = pyStr env.repr v := by
  cases v with
  | str t => exact (Option.some.inj h).symm
  | int n => exact (Option.some.inj h).symm
  | float x => exact (Option.some.inj h).symm
  | _ => cases h

theorem setex_ok {code : String} {timeout gwId : Json}
    (h : exec (setex env code timeout gwId) s = (.ok (), s')) :
    s' = { s with codes := put s.codes code (pyStr env.repr gwId) } := by
  unfold setex at h
  split at h
  · next gw hgw =>
    split at h
    · rw [encode_eq_some hgw] at h
      exact (Prod.mk.inj h).2.symm
    · cases h
  · cases h

/-- What pairing leaves for the rest of a registration. -/
structure Paired (env : Environment) (generated : PairingCode) (s : Store) (body : Dict)
    (code gwId : Json) (s' : Store) : Prop where
  redis : s'.redis = s.redis
  gateway : pyStr env.repr gwId = designated env s body
  designates : s'.codes.lookup (pyStr env.repr code) = some (pyStr env.repr gwId)
  others : ∀ c, c ≠ pyStr env.repr code → s'.codes.lookup c = s.codes.lookup c
  own : KeepsCodes env generated s body ↔
    pyStr env.repr gwId = pyStr env.repr (field body "gw_id") ∧
      ∀ g, s.codes.lookup (pyStr env.repr code) = some g →
        g = pyStr env.repr (field body "gw_id")

theorem pair_ok {generated : PairingCode} {body : Dict} {timeout code gwId : Json}
    (h : exec (pair env generated (field body "pairing_code") timeout (field body "gw_id")) s =
      (.ok (code, gwId), s')) : Paired env generated s body code gwId s' := by
  rw [pair, exec_bind_ok (exec_get s)] at h
  simp only at h
  split at h
  · next existing htruthy hlive =>
    obtain ⟨hresult, rfl⟩ := Prod.mk.inj h
    obtain ⟨rfl, rfl⟩ := Prod.mk.inj (Except.ok.inj hresult)
    refine ⟨rfl, ?_, hlive, fun _ _ => rfl, ?_⟩
    · rw [designated, htruthy, hlive]
      rfl
    · rw [KeepsCodes, htruthy, hlive]
      constructor
      · rintro rfl
        exact ⟨rfl, fun g hg => (Option.some.inj hg).symm⟩
      · exact And.left
  · next hnot =>
    have hown : designated env s body = pyStr env.repr (field body "gw_id") := by
      unfold designated
      split
      · next existing htruthy hlive => exact absurd hlive (hnot existing htruthy)
      · rfl
    rw [exec_bind] at h
    cases hset : exec (setex env generated.text timeout (field body "gw_id")) s with
    | mk r t =>
      rw [hset] at h
      cases r with
      | error e => cases h
      | ok u =>
        obtain ⟨hresult, rfl⟩ := Prod.mk.inj h
        obtain ⟨rfl, rfl⟩ := Prod.mk.inj (Except.ok.inj hresult)
        obtain rfl := setex_ok hset
        refine ⟨rfl, hown.symm, lookup_put_self _ _ _, fun c hc => lookup_put_ne _ _ hc, ?_⟩
        have hfresh : KeepsCodes env generated s body ↔
            ∀ g, s.codes.lookup generated.text = some g →
              g = pyStr env.repr (field body "gw_id") := by
          unfold KeepsCodes
          split
          · next existing htruthy hlive => exact absurd hlive (hnot existing htruthy)
          · rfl
        rw [hfresh]
        exact (and_iff_right rfl).symm

theorem registerGateway_ok {generated : PairingCode} {now : Json} {request : Request}
    {body : Dict} {answer : Registered} (hbody : request.body = some (.obj body))
    (h : exec (registerGateway env generated now request) s = (.ok answer, s')) :
    ∃ t, Paired env generated s body answer.pairing_code answer.gw_id t ∧
      s' = ⟨registerEntry t.redis (pyStr env.repr answer.gw_id) (field body "gw_ip")
        ((body.lookup "gw_type").getD (.str "media")) now, t.codes⟩ := by
  unfold registerGateway at h
  split at h
  · cases h
  · simp only [hbody] at h
    rw [exec_bind] at h
    cases hpair : exec (pair env generated (field body "pairing_code")
        (field body "pairing_timeout") (field body "gw_id")) s with
    | mk r t =>
      rw [hpair] at h
      cases r with
      | error e => cases h
      | ok paired =>
        obtain ⟨code, gwId⟩ := paired
        simp only at h
        split at h
        · cases h
        · obtain ⟨hresult, rfl⟩ := Prod.mk.inj h
          obtain rfl := Except.ok.inj hresult
          exact ⟨t, pair_ok hpair, rfl⟩

end Pairing

section Entry

variable {r : Redis} {gw : String} {gwIp gwType now : Json}

theorem entryField_registerEntry (key : String) :
    entryField (registerEntry r gw gwIp gwType now) gw key =
      ((registeredFields gwIp gwType).reverse.lookup key).or
        ((loadOrNew (r.lookup gw) (newEntry now)).lookup key) := by
  rw [registerEntry, entryField_put_self, lookup_gwLoad_gwDump, lookup_putAll]

theorem kept_registerEntry {key : String} {v : Json}
    (hkey : key ∉ keys (registeredFields gwIp gwType)) (h : entryField r gw key = some v) :
    entryField (registerEntry r gw gwIp gwType now) gw key = some v := by
  have hload : loadOrNew (r.lookup gw) (newEntry now) = gwLoad (r.lookup gw) := by
    have hne : gwLoad (r.lookup gw) ≠ [] := ne_nil_of_lookup h
    rw [loadOrNew, if_neg (by rwa [List.isEmpty_iff])]
  rw [registerEntry, entryField_put_self, lookup_gwLoad_gwDump, hload,
    lookup_putAll_of_notMem _ _ hkey]
  exact h

end Entry

/-- A registration keeps to the gateway it is about, and generates a code at most. -/
theorem register_touches_designated (env : Environment) (generated : PairingCode) (now : Json)
    (request : Request) (body : Dict) (answer : Registered) (s s' : Store)
    (hbody : request.body = some (.obj body))
    (h : exec (registerGateway env generated now request) s = (.ok answer, s')) :
    Touches (designated env s body) (field body "gw_ip")
      ((body.lookup "gw_type").getD (.str "media")) (pyStr env.repr answer.pairing_code)
      (· ≠ pyStr env.repr answer.pairing_code) s s' := by
  obtain ⟨t, hpaired, rfl⟩ := registerGateway_ok hbody h
  rw [← hpaired.gateway, hpaired.redis]
  constructor
  · rw [entryField_registerEntry]
    rfl
  · rw [entryField_registerEntry]
    rfl
  · exact fun key v hkey hv => kept_registerEntry hkey hv
  · exact fun other hother => lookup_put_ne _ _ hother
  · intro c g hc hg
    rw [← hg]
    exact hpaired.others c hc
  · exact hpaired.designates

/-- A registration touches only the gateway it names exactly when this keeps its codes. -/
theorem register_touches_own_iff (env : Environment) (generated : PairingCode) (now : Json)
    (request : Request) (body : Dict) (answer : Registered) (s s' : Store)
    (hbody : request.body = some (.obj body))
    (h : exec (registerGateway env generated now request) s = (.ok answer, s')) :
    Touches (pyStr env.repr (field body "gw_id")) (field body "gw_ip")
        ((body.lookup "gw_type").getD (.str "media")) (pyStr env.repr answer.pairing_code)
        (fun _ => True) s s' ↔
      KeepsCodes env generated s body := by
  have htouches := register_touches_designated env generated now request body answer s s' hbody h
  obtain ⟨t, hpaired, -⟩ := registerGateway_ok hbody h
  rw [hpaired.own, hpaired.gateway]
  constructor
  · intro hnamed
    refine ⟨Option.some.inj (htouches.designates.symm.trans hnamed.designates), fun g hg => ?_⟩
    exact Option.some.inj ((hnamed.codes _ g trivial hg).symm.trans hnamed.designates)
  · rintro ⟨hgateway, hcode⟩
    rw [hgateway] at htouches
    refine { htouches with codes := fun c g _ hg => ?_ }
    by_cases hc : c = pyStr env.repr answer.pairing_code
    · subst hc
      rw [htouches.designates, hcode g hg]
    · exact htouches.codes c g hc hg

def plainEnvironment : Environment where
  repr _ := ""
  setexAccepts v := isText v "296"
  allowedToken := "1234"

def freshCode : PairingCode where
  text := "K7M2P"
  length_eq := rfl
  alphabet := by
    have hall : "K7M2P".toList.all (fun c => pairingAlphabet.contains c) = true := by decide
    intro c hc
    exact List.contains_iff_mem.mp (List.all_eq_true.mp hall c hc)

/-- What a gateway sends, with the code it was given last. -/
def report (gw_id gw_ip code : String) : Dict :=
  [("gw_id", .str gw_id), ("gw_ip", .str gw_ip), ("gw_type", .str "baresip"),
   ("pairing_code", .str code), ("pairing_timeout", .str "296")]

def post (body : Dict) : Request := ⟨some "Bearer 1234", some (.obj body)⟩

/-- Two gateways, one in a call, and a live code of each. -/
def twoGateways : Store where
  redis :=
    [("gw1", gwDump [("gw_state", .str "started"), ("gw_ip", .str "10.0.0.9:8080"),
      ("room", .str "1234")]),
     ("gw2", gwDump [("gw_state", .str "created"), ("gw_ip", .str "10.0.0.2:8080")])]
  codes := [("A1B2C", "gw1"), ("D3E4F", "gw2")]

/-- The first gateway comes back from another address, with a code that has expired. -/
theorem expired_code_touches :
    Touches "gw1" (.str "10.0.0.1:8080") (.str "baresip") "K7M2P" (fun _ => True) twoGateways
      (exec (registerGateway plainEnvironment freshCode .null
        (post (report "gw1" "10.0.0.1:8080" "Z9Y8X"))) twoGateways).2 := by
  refine (register_touches_own_iff plainEnvironment freshCode .null
    (post (report "gw1" "10.0.0.1:8080" "Z9Y8X")) (report "gw1" "10.0.0.1:8080" "Z9Y8X")
    ⟨.str "gw1", .str "10.0.0.1:8080", .str "K7M2P"⟩ twoGateways _ rfl rfl).mpr ?_
  intro g hg
  cases hg

/-- The code that is generated is the live one of the second gateway. -/
theorem generated_code_taken :
    ¬ ∀ (env : Environment) (generated : PairingCode) (now : Json) (request : Request)
      (body : Dict) (answer : Registered) (s s' : Store), request.body = some (.obj body) →
      exec (registerGateway env generated now request) s = (.ok answer, s') →
      Touches (pyStr env.repr (field body "gw_id")) (field body "gw_ip")
        ((body.lookup "gw_type").getD (.str "media")) (pyStr env.repr answer.pairing_code)
        (fun _ => True) s s' := by
  intro h
  have hcodes := (h plainEnvironment freshCode .null (post (report "gw1" "10.0.0.1:8080" ""))
    (report "gw1" "10.0.0.1:8080" "") ⟨.str "gw1", .str "10.0.0.1:8080", .str "K7M2P"⟩
    ⟨[], [("K7M2P", "gw2")]⟩ _ rfl rfl).codes "K7M2P" "gw2" trivial (by decide)
  exact absurd hcodes (by decide)

end ProxyPairing
