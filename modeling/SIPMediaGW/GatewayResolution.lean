import SIPMediaGW.HistoryPayload
import SIPMediaGW.IsoInstants
import SIPMediaGW.OrgUnitRules
import SIPMediaGW.ProxyRegistry

/-! # The gateway of an endpoint

`GET /gateway_id` finds the gateway that serves a SIP endpoint by the URI its last call left in
the registry. Both URIs are normalised and compared in lower case. -/
namespace GatewayResolution

open FieldMap
open HistoryPayload (orElse sipPrefix)
open IsoInstants
open ProxyRegistry
open PythonJson

/-- The tokens, what `str.lower()` makes of a character outside ASCII between two texts, and
what `>` says of two values that are not both texts; `none` where it raises. -/
structure Settings where
  roomToken : String
  allowedToken : String
  lowerOther : List Char → Char → List Char → List Char
  greater : Json → Json → Option Bool

section Handler

variable (settings : Settings)

def isAscii (c : Char) : Bool := decide (c.toNat < 128)

def lowerFrom : List Char → List Char → List Char
  | _, [] => []
  | before, c :: after =>
    (if isAscii c then [c.toLower] else settings.lowerOther before c after) ++
      lowerFrom (before ++ [c]) after

/-- `str.lower()`. -/
def lower (s : String) : String := String.ofList (lowerFrom settings [] s.toList)

/-- The normaliser of `proxy.py`. -/
def normalizeSipUri (uri : String) : String :=
  let cleanUri := strip uri
  if cleanUri = "" then ""
  else if sipPrefix <+: cleanUri.toList then cleanUri
  else if '@' ∈ cleanUri.toList then String.ofList (sipPrefix ++ cleanUri.toList)
  else cleanUri

/-- Empty and `None` read as absent. -/
def cleanPart (value : Json) : Json :=
  if truthy value && !isText value "None" then value else .null

def authorizeRoom (authHeader : Option String) : Bool :=
  match authHeader with
  | none => false
  | some header =>
    let token := String.ofList (header.toList.drop 7)
    decide (settings.roomToken ≠ "") && decide ("Bearer ".toList <+: header.toList) &&
      (decide (token = settings.roomToken) || decide (token = settings.allowedToken))

inductive Failure where
  | unauthorized
  | missing
  | notFound (detail : String)
  /-- A value that is no text where one is needed. -/
  | raised
  deriving DecidableEq

structure Best where
  gw_id : String
  room : Json
  browsing : Json
  call_started : Json
  deriving DecidableEq

structure Found where
  gw_id : String
  room : Json
  browsing : Json
  deriving DecidableEq

def Best.found (b : Best) : Found := ⟨b.gw_id, b.room, b.browsing⟩

def bestOf (r : Redis) (key : String) : Best :=
  let gw := gwLoad (r.lookup key)
  { gw_id := gwIdOf key
    room := cleanPart (field gw "room")
    browsing := cleanPart (field gw "browsing")
    call_started := orElse (cleanPart (field gw "call_started")) (.str "") }

def later : Json → Json → Option Bool
  | .str a, .str b => some (decide (b < a))
  | a, b => settings.greater a b

/-- One key of the scan. -/
def visit (wanted : String) (r : Redis) (best : Option Best) (key : String) :
    Except Failure (Option Best) :=
  if (r.lookup key).any RedisText.present = false then .ok best
  else
    match cleanPart (field (gwLoad (r.lookup key)) "peer_uri") with
    | .null => .ok best
    | .str peerUri =>
      if lower settings (normalizeSipUri peerUri) ≠ wanted then .ok best
      else
        match best with
        | none => .ok (some (bestOf r key))
        | some b =>
          match later settings (bestOf r key).call_started b.call_started with
          | none => .error .raised
          | some true => .ok (some (bestOf r key))
          | some false => .ok best
    | _ => .error .raised

def gatewayIdFromPeerUri (r : Redis) (scan : List String) (authHeader peerUri : Option String) :
    Except Failure Found := do
  if authorizeRoom settings authHeader = false then throw .unauthorized
  match peerUri.filter fun uri => decide (uri ≠ "") with
  | none => throw .missing
  | some uri =>
    let best ← scan.foldlM (visit settings (lower settings (normalizeSipUri uri)) r) none
    match best with
    | none => throw (.notFound ("No gateway currently serving '" ++ uri ++ "'"))
    | some b => pure b.found

end Handler

def asciiLower (cs : List Char) : List Char := cs.map Char.toLower

/-- A `user@domain`, or a text that has none. -/
inductive Identity where
  | address (userAtDomain : List Char)
  | name (text : List Char)
  deriving DecidableEq

/-- The scheme of a URI is ignored, in any case. -/
def withoutScheme (cs : List Char) : List Char :=
  if asciiLower (cs.take 4) = sipPrefix then cs.drop 4 else cs

def identity (uri : String) : Identity :=
  let cleanUri := (strip uri).toList
  if '@' ∈ cleanUri then .address (asciiLower (withoutScheme cleanUri))
  else .name (asciiLower cleanUri)

section Property

variable (ms : Bool) (r : Redis)

def uriOf (key : String) : Option String :=
  match cleanPart (field (gwLoad (r.lookup key)) "peer_uri") with
  | .str uri => some uri
  | _ => none

def callStarted (key : String) : Json := cleanPart (field (gwLoad (r.lookup key)) "call_started")

/-- What gateways report: a URI their log reader has normalised, an instant of one resolution. -/
structure Stored : Prop where
  uri : ∀ key, cleanPart (field (gwLoad (r.lookup key)) "peer_uri") = .null ∨
    ∃ raw, field (gwLoad (r.lookup key)) "peer_uri" = .str (HistoryPayload.normalizeSipUri raw)
  started : ∀ key, callStarted r key = .null ∨ ∃ t, callStarted r key = .str (isoZ ms t)

/-- The entry of a key serves an endpoint. -/
def Serves (query key : String) : Prop :=
  ∃ uri, uriOf r key = some uri ∧ identity uri = identity query

/-- No call of the endpoint started later. -/
structure Latest (query key : String) : Prop where
  serves : Serves r query key
  latest : ∀ other t, Serves r query other → callStarted r other = .str (isoZ ms t) →
    ∃ t', callStarted r key = .str (isoZ ms t') ∧ t.instant ms ≤ t'.instant ms

/-- The answer is the latest entry that serves the endpoint, and 404 where there is none. -/
inductive Resolves (query : String) : Except Failure Found → Prop where
  | found {key : String} {answer : Found} (latest : Latest ms r query key)
      (answers : answer = (bestOf r key).found) : Resolves query (.ok answer)
  | notFound {detail : String} (none : ∀ key, ¬ Serves r query key) :
      Resolves query (.error (.notFound detail))

/-- `str.lower()` makes a stored URI equal to the query where ASCII case does. -/
def PlainCase (settings : Settings) (query : String) : Prop :=
  ∀ key uri, uriOf r key = some uri →
    (lower settings (normalizeSipUri uri) = lower settings (normalizeSipUri query) ↔
      asciiLower (normalizeSipUri uri).toList = asciiLower (normalizeSipUri query).toList)

/-- The scheme before a `user@domain` is in lower case. -/
def LowerScheme (query : String) : Prop :=
  '@' ∈ (strip query).toList → asciiLower ((strip query).toList.take 4) = sipPrefix →
    (strip query).toList.take 4 = sipPrefix

end Property

section Normalising

variable {settings : Settings} {cs : List Char} {uri : String}

theorem at_mem_asciiLower : '@' ∈ asciiLower cs ↔ '@' ∈ cs := by
  rw [asciiLower, List.mem_map]
  constructor
  · rintro ⟨c, hc, hat⟩
    rwa [← (OrgUnitRules.toLower_at c).mp hat]
  · exact fun hat => ⟨'@', hat, (OrgUnitRules.toLower_at '@').mpr rfl⟩

/-- The scheme is put before a `user@domain` that has none in lower case. -/
theorem normalizeSipUri_toList (uri : String) : (normalizeSipUri uri).toList =
    if '@' ∈ (strip uri).toList ∧ ¬ sipPrefix <+: (strip uri).toList then
      sipPrefix ++ (strip uri).toList
    else (strip uri).toList := by
  rw [normalizeSipUri]
  by_cases hempty : strip uri = ""
  · simp [hempty]
  · by_cases hscheme : sipPrefix <+: (strip uri).toList
    · simp [hempty, hscheme]
    · by_cases hat : '@' ∈ (strip uri).toList <;> simp [hempty, hscheme, hat]

theorem at_mem_normalizeSipUri :
    '@' ∈ (normalizeSipUri uri).toList ↔ '@' ∈ (strip uri).toList := by
  rw [normalizeSipUri_toList]
  split
  · next h => exact iff_of_true (List.mem_append_right _ h.1) h.1
  · rfl

theorem prefix_normalizeSipUri (hat : '@' ∈ (strip uri).toList) :
    sipPrefix <+: (normalizeSipUri uri).toList := by
  rw [normalizeSipUri_toList]
  split
  · exact List.prefix_append _ _
  · next h => exact not_not.mp fun hnot => h ⟨hat, hnot⟩

theorem strip_normalizeSipUri (uri : String) :
    strip (normalizeSipUri uri) = normalizeSipUri uri := by
  rw [← String.toList_inj, strip, String.toList_ofList]
  have hclean : stripChars isSpace (strip uri).toList = (strip uri).toList := by
    rw [strip, String.toList_ofList, stripChars_stripChars]
  rw [normalizeSipUri_toList]
  split
  · next h =>
    have hne : (strip uri).toList ≠ [] := List.ne_nil_of_mem h.1
    have hends : ∀ hne : (strip uri).toList ≠ [],
        isSpace ((strip uri).toList.getLast hne) = false := by
      rw [strip, String.toList_ofList]
      exact fun hne => (ends_stripChars hne).2
    refine stripChars_eq_self fun hall => ⟨rfl, ?_⟩
    rw [List.getLast_append_of_ne_nil _ hne]
    exact hends hne
  · exact hclean

theorem normalizeSipUri_normalizeSipUri (uri : String) :
    normalizeSipUri (normalizeSipUri uri) = normalizeSipUri uri := by
  rw [← String.toList_inj, normalizeSipUri_toList, strip_normalizeSipUri]
  refine if_neg fun h => h.2 ?_
  exact prefix_normalizeSipUri (at_mem_normalizeSipUri.mp h.1)

/-- What a normalised URI in lower case denotes. -/
def identityOf (cs : List Char) : Identity := if '@' ∈ cs then .address (cs.drop 4) else .name cs

theorem identityOf_inj {cs' : List Char} (h : '@' ∈ cs → sipPrefix <+: cs)
    (h' : '@' ∈ cs' → sipPrefix <+: cs') : identityOf cs = identityOf cs' ↔ cs = cs' := by
  constructor
  · intro heq
    rw [identityOf, identityOf] at heq
    split at heq
    · next hat =>
      split at heq
      · next hat' =>
        obtain ⟨rest, rfl⟩ := h hat
        obtain ⟨rest', rfl⟩ := h' hat'
        exact congrArg (sipPrefix ++ ·) (Identity.address.inj heq)
      · cases heq
    · split at heq
      · cases heq
      · exact Identity.name.inj heq
  · exact congrArg identityOf

theorem take_four (h : sipPrefix <+: cs) : cs.take 4 = sipPrefix :=
  (List.prefix_iff_eq_take.mp h).symm

theorem asciiLower_scheme (h : sipPrefix <+: cs) : sipPrefix <+: asciiLower cs :=
  h.map Char.toLower

theorem lowerScheme_normalizeSipUri (uri : String) : LowerScheme (normalizeSipUri uri) := by
  intro hat _
  rw [strip_normalizeSipUri] at hat ⊢
  exact take_four (prefix_normalizeSipUri (at_mem_normalizeSipUri.mp hat))

theorem identity_eq (h : LowerScheme uri) :
    identity uri = identityOf (asciiLower (normalizeSipUri uri).toList) := by
  have hmem : '@' ∈ asciiLower (normalizeSipUri uri).toList ↔ '@' ∈ (strip uri).toList :=
    at_mem_asciiLower.trans at_mem_normalizeSipUri
  rw [identityOf, identity]
  by_cases hat : '@' ∈ (strip uri).toList
  · rw [if_pos hat, if_pos (hmem.mpr hat), normalizeSipUri_toList]
    by_cases hscheme : sipPrefix <+: (strip uri).toList
    · have htake : asciiLower ((strip uri).toList.take 4) = sipPrefix := by
        rw [take_four hscheme]
        rfl
      rw [if_neg fun h => h.2 hscheme, withoutScheme, if_pos htake, asciiLower, asciiLower,
        List.map_drop]
    · have htake : ¬ asciiLower ((strip uri).toList.take 4) = sipPrefix := fun htake =>
        hscheme (List.prefix_iff_eq_take.mpr (h hat htake).symm)
      rw [if_pos ⟨hat, hscheme⟩, withoutScheme, if_neg htake]
      rfl
  · rw [if_neg hat, if_neg fun h => hat (hmem.mp h), normalizeSipUri_toList,
      if_neg fun h => hat h.1]

/-- The normalised URIs tell two identities apart. -/
theorem identity_eq_iff {uri' : String} (h : LowerScheme uri) (h' : LowerScheme uri') :
    identity uri = identity uri' ↔ asciiLower (normalizeSipUri uri).toList =
      asciiLower (normalizeSipUri uri').toList := by
  have hstart (u : String) : '@' ∈ asciiLower (normalizeSipUri u).toList →
      sipPrefix <+: asciiLower (normalizeSipUri u).toList := by
    rw [at_mem_asciiLower, at_mem_normalizeSipUri]
    exact fun hat => asciiLower_scheme (prefix_normalizeSipUri hat)
  rw [identity_eq h, identity_eq h', identityOf_inj (hstart uri) (hstart uri')]

/-- ASCII texts have their ASCII lower case. -/
theorem lowerFrom_of_ascii (before : List Char) (h : ∀ c ∈ cs, isAscii c = true) :
    lowerFrom settings before cs = asciiLower cs := by
  induction cs generalizing before with
  | nil => rfl
  | cons c cs ih =>
    have hc := h c List.mem_cons_self
    rw [lowerFrom, if_pos hc, ih _ fun d hd => h d (List.mem_cons_of_mem c hd)]
    rfl

theorem isAscii_normalizeSipUri (h : ∀ c ∈ uri.toList, isAscii c = true) :
    ∀ c ∈ (normalizeSipUri uri).toList, isAscii c = true := by
  have hclean : ∀ c ∈ (strip uri).toList, isAscii c = true := by
    intro c hc
    rw [strip, String.toList_ofList] at hc
    exact h c ((List.dropWhile_suffix _).subset ((List.rdropWhile_prefix _ _).subset hc))
  have hscheme : ∀ c ∈ sipPrefix, isAscii c = true := List.all_eq_true.mp (by decide)
  rw [normalizeSipUri_toList]
  split
  · intro c hc
    exact (List.mem_append.mp hc).elim (hscheme c) (hclean c)
  · exact hclean

/-- `str.lower()` knows no other case where every text is ASCII. -/
theorem plainCase_of_ascii {r : Redis} {query : String}
    (hquery : ∀ c ∈ query.toList, isAscii c = true)
    (hstored : ∀ key uri, uriOf r key = some uri → ∀ c ∈ uri.toList, isAscii c = true) :
    PlainCase r settings query := by
  intro key uri huri
  rw [lower, lower, lowerFrom_of_ascii _ (isAscii_normalizeSipUri hquery),
    lowerFrom_of_ascii _ (isAscii_normalizeSipUri (hstored key uri huri)), String.ofList_inj]

end Normalising

section Scan

variable {settings : Settings} {ms : Bool} {r : Redis} {wanted query : String} {key : String}

/-- The entry of a key carries the URI that is looked for. -/
def Matches (settings : Settings) (wanted : String) (r : Redis) (key : String) : Prop :=
  ∃ uri, uriOf r key = some uri ∧ lower settings (normalizeSipUri uri) = wanted

/-- The text by which calls are compared. -/
def startText (r : Redis) (key : String) : String :=
  match callStarted r key with
  | .str text => text
  | _ => ""

theorem call_started_bestOf (h : Stored ms r) (key : String) :
    (bestOf r key).call_started = .str (startText r key) := by
  have hbest : (bestOf r key).call_started = orElse (callStarted r key) (.str "") := rfl
  rw [hbest, startText]
  rcases h.started key with hnull | ⟨t, ht⟩
  · rw [hnull]
    rfl
  · rw [ht, orElse]
    split
    · rfl
    · next hfalsy =>
      have hempty : isoZ ms t = "" := by simpa [truthy] using hfalsy
      rw [hempty]

theorem visit_of_not_matches (h : Stored ms r) (hnot : ¬ Matches settings wanted r key)
    (best : Option Best) : visit settings wanted r best key = .ok best := by
  unfold visit
  split
  · rfl
  · split
    · rfl
    · next uri huri =>
      have huriOf : uriOf r key = some uri := by rw [uriOf, huri]
      exact if_pos fun hlower => hnot ⟨uri, huriOf, hlower⟩
    · next hnull htext =>
      rcases h.uri key with habsent | ⟨raw, hraw⟩
      · exact absurd habsent hnull
      · rw [hraw, cleanPart] at hnull htext
        split at htext
        · exact absurd rfl (htext _)
        · next hfalsy => exact absurd (if_neg hfalsy) hnull

theorem visit_of_matches (h : Stored ms r) (hmatch : Matches settings wanted r key)
    (best : Option Best) : visit settings wanted r best key =
      match best with
      | none => .ok (some (bestOf r key))
      | some b =>
        match later settings (.str (startText r key)) b.call_started with
        | none => .error .raised
        | some true => .ok (some (bestOf r key))
        | some false => .ok best := by
  obtain ⟨uri, huri, hlower⟩ := hmatch
  have hpart : cleanPart (field (gwLoad (r.lookup key)) "peer_uri") = .str uri := by
    rw [uriOf] at huri
    split at huri
    · next text htext => rw [htext, Option.some.inj huri]
    · cases huri
  have hpresent : ¬ (r.lookup key).any RedisText.present = false := by
    intro habsent
    have hempty : gwLoad (r.lookup key) = [] := by
      cases hraw : r.lookup key with
      | none => rfl
      | some raw =>
        rw [hraw] at habsent
        cases raw with
        | empty => rfl
        | garbage => cases habsent
        | json v => cases habsent
    rw [hempty] at hpart
    cases hpart
  unfold visit
  rw [if_neg hpresent, hpart]
  dsimp only
  rw [if_neg (not_not.mpr hlower), call_started_bestOf h]

/-- The first of the latest matching entries among the keys scanned. -/
def BestAmong (settings : Settings) (wanted : String) (r : Redis) (done : List String) :
    Option Best → Prop
  | none => ∀ key ∈ done, ¬ Matches settings wanted r key
  | some b => ∃ key ∈ done, Matches settings wanted r key ∧ b = bestOf r key ∧
      ∀ other ∈ done, Matches settings wanted r other → startText r other ≤ startText r key

theorem bestAmong_visit (h : Stored ms r) {done : List String} {best : Option Best}
    (hbest : BestAmong settings wanted r done best) (key : String) :
    ∃ best', visit settings wanted r best key = .ok best' ∧
      BestAmong settings wanted r (done ++ [key]) best' := by
  by_cases hmatch : Matches settings wanted r key
  · rw [visit_of_matches h hmatch]
    cases best with
    | none =>
      refine ⟨_, rfl, key, List.mem_append_right _ (List.mem_singleton_self key), hmatch, rfl, ?_⟩
      intro other hother hmatches
      rcases List.mem_append.mp hother with hold | hnew
      · exact absurd hmatches (hbest other hold)
      · rw [List.mem_singleton.mp hnew]
    | some b =>
      obtain ⟨first, hfirst, hfirstMatch, rfl, hgreatest⟩ := hbest
      dsimp only
      rw [call_started_bestOf h]
      by_cases hlater : startText r first < startText r key
      · refine ⟨some (bestOf r key), by simp [later, hlater], key,
          List.mem_append_right _ (List.mem_singleton_self key), hmatch, rfl, ?_⟩
        intro other hother hmatches
        rcases List.mem_append.mp hother with hold | hnew
        · exact (hgreatest other hold hmatches).trans hlater.le
        · rw [List.mem_singleton.mp hnew]
      · refine ⟨some (bestOf r first), by simp [later, hlater], first,
          List.mem_append_left _ hfirst, hfirstMatch, rfl, ?_⟩
        intro other hother hmatches
        rcases List.mem_append.mp hother with hold | hnew
        · exact hgreatest other hold hmatches
        · rw [List.mem_singleton.mp hnew]
          exact not_lt.mp hlater
  · refine ⟨best, visit_of_not_matches h hmatch best, ?_⟩
    cases best with
    | none =>
      intro other hother
      rcases List.mem_append.mp hother with hold | hnew
      · exact hbest other hold
      · rwa [List.mem_singleton.mp hnew]
    | some b =>
      obtain ⟨first, hfirst, hfirstMatch, hb, hgreatest⟩ := hbest
      refine ⟨first, List.mem_append_left _ hfirst, hfirstMatch, hb, ?_⟩
      intro other hother hmatches
      rcases List.mem_append.mp hother with hold | hnew
      · exact hgreatest other hold hmatches
      · rw [List.mem_singleton.mp hnew] at hmatches
        exact absurd hmatches hmatch

theorem bestAmong_scan (h : Stored ms r) (scan : List String) {done : List String}
    {best : Option Best} (hbest : BestAmong settings wanted r done best) :
    ∃ best', scan.foldlM (visit settings wanted r) best = .ok best' ∧
      BestAmong settings wanted r (done ++ scan) best' := by
  induction scan generalizing done best with
  | nil => exact ⟨best, rfl, by rwa [List.append_nil]⟩
  | cons key scan ih =>
    obtain ⟨next, hvisit, hnext⟩ := bestAmong_visit h hbest key
    obtain ⟨best', hrun, hbest'⟩ := ih hnext
    refine ⟨best', ?_, by rwa [List.append_assoc, List.singleton_append] at hbest'⟩
    rw [List.foldlM_cons, hvisit]
    exact hrun

/-- What the handler answers an authorised request. -/
theorem gatewayIdFromPeerUri_spec (h : Stored ms r) {authHeader : Option String}
    (hauth : authorizeRoom settings authHeader = true) (hquery : query ≠ "")
    (scan : List String) :
    ∃ best, BestAmong settings (lower settings (normalizeSipUri query)) r scan best ∧
      gatewayIdFromPeerUri settings r scan authHeader (some query) =
        match best with
        | none => .error (.notFound ("No gateway currently serving '" ++ query ++ "'"))
        | some b => .ok b.found := by
  have hstart : BestAmong settings (lower settings (normalizeSipUri query)) r [] none := by
    intro key hkey
    cases hkey
  obtain ⟨best, hrun, hbest⟩ := bestAmong_scan h scan hstart
  refine ⟨best, hbest, ?_⟩
  have hsome : (some query).filter (fun uri => decide (uri ≠ "")) = some query :=
    if_pos (decide_eq_true hquery)
  rw [gatewayIdFromPeerUri, if_neg (by rw [hauth]; decide), hsome]
  dsimp only [pure_bind]
  rw [hrun]
  cases best <;> rfl

theorem matches_iff_serves (h : Stored ms r) (hplain : PlainCase r settings query)
    (hscheme : LowerScheme query) :
    Matches settings (lower settings (normalizeSipUri query)) r key ↔ Serves r query key := by
  refine exists_congr fun uri => and_congr_right fun huri => ?_
  have hnormal : LowerScheme uri := by
    rcases h.uri key with habsent | ⟨raw, hraw⟩
    · rw [uriOf, habsent] at huri
      cases huri
    · rw [uriOf, hraw, cleanPart] at huri
      split at huri
      · next text htext =>
        split at htext
        · obtain rfl := Option.some.inj huri
          obtain rfl := Json.str.inj htext
          exact lowerScheme_normalizeSipUri raw
        · cases htext
      · cases huri
  rw [hplain key uri huri, identity_eq_iff hnormal hscheme]

theorem mem_keys_of_serves (h : Serves r query key) : key ∈ keys r := by
  obtain ⟨uri, huri, -⟩ := h
  rw [mem_keys_iff]
  cases hlookup : r.lookup key with
  | some raw => rfl
  | none =>
    rw [uriOf, hlookup] at huri
    cases huri

theorem empty_lt_isoZ (ms : Bool) (t : DateTime) : "" < isoZ ms t := by
  have hne : (isoZ ms t).toList ≠ [] := by
    rw [isoZ, String.toList_ofList]
    exact List.append_ne_nil_of_right_ne_nil _ (List.cons_ne_nil _ _)
  obtain ⟨c, cs, hcs⟩ := List.exists_cons_of_ne_nil hne
  rw [String.lt_iff, hcs]
  exact List.nil_lt_cons c cs

/-- The comparison of the texts is that of the instants. -/
theorem latest_of_startText (h : Stored ms r) (hserves : Serves r query key)
    (hgreatest : ∀ other, Serves r query other → startText r other ≤ startText r key) :
    Latest ms r query key := by
  refine ⟨hserves, fun other t hother hstart => ?_⟩
  have hle := hgreatest other hother
  rw [startText, hstart] at hle
  dsimp only at hle
  rcases h.started key with hnull | ⟨t', ht'⟩
  · rw [startText, hnull] at hle
    exact absurd (empty_lt_isoZ ms t) (not_lt.mpr hle)
  · refine ⟨t', ht', ?_⟩
    rw [startText, ht'] at hle
    exact not_lt.mp fun hlt => absurd ((isoZ_lt_iff ms t' t).mpr hlt) (not_lt.mpr hle)

end Scan

section Single

variable {settings : Settings} {ms : Bool} {uri key : String}

def single (uri : String) : Redis := [("gw1", .json (.obj [("peer_uri", .str uri)]))]

theorem gwLoad_single (uri key : String) : gwLoad ((single uri).lookup key) =
    if key = "gw1" then [("peer_uri", .str uri)] else [] := by
  by_cases hkey : key = "gw1"
  · rw [hkey, if_pos rfl]
    rfl
  · rw [if_neg hkey, single, List.lookup_cons, beq_false_of_ne hkey]
    rfl

theorem stored_single (ms : Bool) (raw : String) : Stored ms (single (normalizeSipUri raw)) := by
  constructor
  · intro key
    rw [gwLoad_single]
    split
    · exact .inr ⟨raw, rfl⟩
    · exact .inl rfl
  · intro key
    rw [callStarted, gwLoad_single]
    split
    · exact .inl rfl
    · exact .inl rfl

theorem uriOf_single (hne : uri ≠ "") (hnone : uri ≠ "None") :
    uriOf (single uri) key = if key = "gw1" then some uri else none := by
  rw [uriOf, gwLoad_single]
  by_cases hkey : key = "gw1"
  · have hclean : cleanPart (.str uri) = .str uri := by
      simp [cleanPart, truthy, isText, hne, hnone]
    have hfield : field [("peer_uri", .str uri)] "peer_uri" = .str uri := rfl
    rw [if_pos hkey, if_pos hkey, hfield, hclean]
  · rw [if_neg hkey, if_neg hkey]
    rfl

end Single

/-- The gateway of a URI without its scheme does not serve it. -/
theorem identity_ne {query : String} (hat : '@' ∈ (strip query).toList)
    (hfolded : asciiLower ((strip query).toList.take 4) = sipPrefix)
    (hscheme : ¬ (strip query).toList.take 4 = sipPrefix) :
    identity (normalizeSipUri query) ≠ identity query := by
  have hnot : ¬ sipPrefix <+: (strip query).toList := fun h => hscheme (take_four h)
  have hlong : 4 ≤ (strip query).toList.length := by
    have hlength := congrArg List.length hfolded
    rw [asciiLower, List.length_map, List.length_take] at hlength
    have hfour : sipPrefix.length = 4 := rfl
    omega
  rw [identity_eq (lowerScheme_normalizeSipUri query), normalizeSipUri_normalizeSipUri,
    normalizeSipUri_toList, if_pos ⟨hat, hnot⟩, identityOf, identity,
    if_pos (at_mem_asciiLower.mpr (List.mem_append_right _ hat)), if_pos hat, withoutScheme,
    if_pos hfolded]
  intro heq
  have hlength := congrArg List.length (Identity.address.inj heq)
  simp only [asciiLower, List.length_drop, List.length_map, List.length_append] at hlength
  have hfour : sipPrefix.length = 4 := rfl
  omega

theorem uriOf_single_normal {query : String} (hat : '@' ∈ (strip query).toList) (key : String) :
    uriOf (single (normalizeSipUri query)) key =
      if key = "gw1" then some (normalizeSipUri query) else none := by
  have hmem : '@' ∈ (normalizeSipUri query).toList := at_mem_normalizeSipUri.mpr hat
  refine uriOf_single (fun hempty => ?_) fun hnone => ?_
  · rw [hempty] at hmem
    cases hmem
  · rw [hnone] at hmem
    exact absurd hmem (by decide)

theorem plainCase_normal {settings : Settings} {query : String}
    (hat : '@' ∈ (strip query).toList) :
    PlainCase (single (normalizeSipUri query)) settings query := by
  intro key uri hkey
  rw [uriOf_single_normal hat] at hkey
  split at hkey
  · rw [← Option.some.inj hkey, normalizeSipUri_normalizeSipUri]
    exact iff_of_true rfl rfl
  · cases hkey

/-- The entry that carries the query as it is normalised is answered, and denotes another URI. -/
theorem not_resolves_single {settings : Settings} {ms : Bool} {authHeader : Option String}
    {query : String} (hauth : authorizeRoom settings authHeader = true) (hquery : query ≠ "")
    (hat : '@' ∈ (strip query).toList)
    (hfolded : asciiLower ((strip query).toList.take 4) = sipPrefix)
    (hscheme : ¬ (strip query).toList.take 4 = sipPrefix) :
    ¬ Resolves ms (single (normalizeSipUri query)) query
      (gatewayIdFromPeerUri settings (single (normalizeSipUri query)) ["gw1"] authHeader
        (some query)) := by
  intro hresolves
  obtain ⟨best, hbest, hrun⟩ :=
    gatewayIdFromPeerUri_spec (stored_single ms query) hauth hquery ["gw1"]
  rw [hrun] at hresolves
  cases best with
  | none =>
    refine hbest "gw1" (List.mem_singleton_self _) ⟨normalizeSipUri query, ?_, ?_⟩
    · rw [uriOf_single_normal hat, if_pos rfl]
    · rw [normalizeSipUri_normalizeSipUri]
  | some b =>
    cases hresolves with
    | found hlatest =>
      obtain ⟨uri, hkey, hsame⟩ := hlatest.serves
      rw [uriOf_single_normal hat] at hkey
      split at hkey
      · rw [← Option.some.inj hkey] at hsame
        exact identity_ne hat hfolded hscheme hsame
      · cases hkey

/-- A query is resolved in every registry, unless its scheme is not in lower case. -/
theorem gateway_id_resolves_iff (settings : Settings) (authHeader : Option String) (query : String)
    (ms : Bool) (hauth : authorizeRoom settings authHeader = true) (hquery : query ≠ "") :
    (∀ r scan, keys r ⊆ scan → Stored ms r → PlainCase r settings query →
      Resolves ms r query (gatewayIdFromPeerUri settings r scan authHeader (some query))) ↔
      LowerScheme query := by
  constructor
  · intro h hat hfolded
    by_contra hscheme
    exact not_resolves_single hauth hquery hat hfolded hscheme
      (h _ ["gw1"] (List.Subset.refl _) (stored_single ms query) (plainCase_normal hat))
  · intro hscheme r scan hscan hstored hplain
    obtain ⟨best, hbest, hrun⟩ := gatewayIdFromPeerUri_spec hstored hauth hquery scan
    rw [hrun]
    cases best with
    | none =>
      refine .notFound fun key hserves => ?_
      exact hbest key (hscan (mem_keys_of_serves hserves))
        ((matches_iff_serves hstored hplain hscheme).mpr hserves)
    | some b =>
      obtain ⟨key, -, hmatch, rfl, hgreatest⟩ := hbest
      refine .found (latest_of_startText hstored
        ((matches_iff_serves hstored hplain hscheme).mp hmatch) fun other hother => ?_) rfl
      exact hgreatest other (hscan (mem_keys_of_serves hother))
        ((matches_iff_serves hstored hplain hscheme).mpr hother)

def plainSettings : Settings where
  roomToken := "room"
  allowedToken := "1234"
  lowerOther _ c _ := [c]
  greater _ _ := none

theorem stored_room : Stored false (single "sip:room12@sip.sample.org") := by
  have hnormal : normalizeSipUri "sip:room12@sip.sample.org" = "sip:room12@sip.sample.org" := by
    decide +kernel
  have hstored := stored_single false "sip:room12@sip.sample.org"
  rwa [hnormal] at hstored

theorem plainCase_single {query : String} (h : ∀ c ∈ query.toList, isAscii c = true) :
    PlainCase (single "sip:room12@sip.sample.org") plainSettings query := by
  refine plainCase_of_ascii h fun key uri huri => ?_
  rw [uriOf_single (by decide) (by decide)] at huri
  split at huri
  · obtain rfl := Option.some.inj huri
    exact List.all_eq_true.mp (by decide +kernel)
  · cases huri

def onHour (hour : ℕ) (h : hour < 24) : DateTime where
  date := .first 2026 4 (by decide) (by decide)
  time := { ScalerTarget.midnight with hours := hour, hours_lt := h }
  microsecond := 0
  year_pos := by decide
  year_le := by decide
  microsecond_lt := Nat.succ_pos 999999

/-- A call of the room that starts on the hour. -/
def roomCall (hour : ℕ) (h : hour < 24) : Dict :=
  [("peer_uri", .str "sip:room12@sip.sample.org"),
   ("call_started", .str (isoZ false (onHour hour h)))]

/-- The second gateway has the later call. -/
def twoCalls : Redis :=
  [("gw1", .json (.obj (roomCall 9 (by decide)))), ("gw2", .json (.obj (roomCall 10 (by decide))))]

theorem gwLoad_twoCalls (key : String) : gwLoad (twoCalls.lookup key) = [] ∨
    gwLoad (twoCalls.lookup key) = roomCall 9 (by decide) ∨
    gwLoad (twoCalls.lookup key) = roomCall 10 (by decide) := by
  by_cases hfirst : key = "gw1"
  · rw [hfirst]
    exact .inr (.inl rfl)
  · by_cases hsecond : key = "gw2"
    · rw [hsecond]
      exact .inr (.inr rfl)
    · rw [twoCalls, List.lookup_cons, beq_false_of_ne hfirst, List.lookup_cons,
        beq_false_of_ne hsecond]
      exact .inl rfl

theorem stored_twoCalls : Stored false twoCalls := by
  have hnormal : HistoryPayload.normalizeSipUri "sip:room12@sip.sample.org" =
      "sip:room12@sip.sample.org" := by decide +kernel
  constructor
  · intro key
    rcases gwLoad_twoCalls key with hload | hload | hload
    · rw [hload]
      exact .inl rfl
    · rw [hload]
      exact .inr ⟨"sip:room12@sip.sample.org", congrArg Json.str hnormal.symm⟩
    · rw [hload]
      exact .inr ⟨"sip:room12@sip.sample.org", congrArg Json.str hnormal.symm⟩
  · intro key
    rw [callStarted]
    rcases gwLoad_twoCalls key with hload | hload | hload
    · rw [hload]
      exact .inl rfl
    · rw [hload]
      exact .inr ⟨onHour 9 (by decide), by decide +kernel⟩
    · rw [hload]
      exact .inr ⟨onHour 10 (by decide), by decide +kernel⟩

theorem plainCase_twoCalls {query : String} (h : ∀ c ∈ query.toList, isAscii c = true) :
    PlainCase twoCalls plainSettings query := by
  refine plainCase_of_ascii h fun key uri huri => ?_
  have hroom : uri = "sip:room12@sip.sample.org" := by
    rw [uriOf] at huri
    rcases gwLoad_twoCalls key with hload | hload | hload
    · rw [hload] at huri
      cases huri
    · rw [hload] at huri
      exact (Option.some.inj huri).symm
    · rw [hload] at huri
      exact (Option.some.inj huri).symm
  rw [hroom]
  exact List.all_eq_true.mp (by decide +kernel)

theorem latest_call_resolves :
    gatewayIdFromPeerUri plainSettings twoCalls ["gw1", "gw2"] (some "Bearer room")
      (some " Room12@sip.sample.org") = .ok ⟨"gw2", .null, .null⟩ ∧
    Resolves false twoCalls " Room12@sip.sample.org"
      (gatewayIdFromPeerUri plainSettings twoCalls ["gw1", "gw2"] (some "Bearer room")
        (some " Room12@sip.sample.org")) := by
  have hscheme : LowerScheme " Room12@sip.sample.org" := by
    intro _ hfolded
    exact absurd hfolded (by decide +kernel)
  refine ⟨by decide +kernel, ?_⟩
  exact (gateway_id_resolves_iff plainSettings (some "Bearer room") " Room12@sip.sample.org" false
    (by decide +kernel) (by decide)).mpr hscheme _ ["gw1", "gw2"] (List.Subset.refl _)
    stored_twoCalls (plainCase_twoCalls (List.all_eq_true.mp (by decide +kernel)))

theorem capital_scheme_unresolved :
    ¬ ∀ (settings : Settings) (authHeader : Option String) (query : String) (ms : Bool) (r : Redis)
      (scan : List String), authorizeRoom settings authHeader = true → query ≠ "" →
      keys r ⊆ scan → Stored ms r → PlainCase r settings query →
      Resolves ms r query (gatewayIdFromPeerUri settings r scan authHeader (some query)) := by
  intro h
  have hresolves := h plainSettings (some "Bearer room") "SIP:room12@sip.sample.org" false
    (single "sip:room12@sip.sample.org") ["gw1"] (by decide +kernel) (by decide)
    (List.Subset.refl _) stored_room (plainCase_single (List.all_eq_true.mp (by decide +kernel)))
  have hrun : gatewayIdFromPeerUri plainSettings (single "sip:room12@sip.sample.org") ["gw1"]
      (some "Bearer room") (some "SIP:room12@sip.sample.org") =
        .error (.notFound "No gateway currently serving 'SIP:room12@sip.sample.org'") := by
    decide +kernel
  rw [hrun] at hresolves
  cases hresolves with
  | notFound hnone =>
    refine hnone "gw1" ⟨"sip:room12@sip.sample.org", ?_, by decide +kernel⟩
    rw [uriOf_single (by decide) (by decide), if_pos rfl]

end GatewayResolution
