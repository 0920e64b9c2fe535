import SIPMediaGW.CallUrl
import SIPMediaGW.FieldMap
import SIPMediaGW.QueryReaders

/-! # What the call URL gives back

The values that `IVR.setUrl` writes into the query of its URL, read by the IVR page and by
`parseCallUrlDetails`. Only the last one is quoted. -/
namespace CallUrlQuery

open CallUrl
open FormTexts
open HistoryPayload
open LineTexts
open PercentTexts
open PythonJson
open QueryReaders

/-- The page as `ivr.py` finds it. -/
def IVRPath : String := "/var/src/../browsing/assets/IVR/index.html"

def callUrl (ivr : IVR) : String := setUrl { ivr with path := IVRPath }

/-- The pairs that `parseCallUrlDetails` looks its names up in. -/
def pythonParams (m : Replacing) (url : String) : List (String × String) :=
  parseQs (unquote m) (urlQuery (strip url).toList)

/-- The values themselves, and no parameter for an empty optional one. -/
def Given (ivr : IVR) (params : List (String × String)) : Prop :=
  params.lookup "displayName" = some ivr.name ∧
  ∀ e ∈ [("roomId", ivr.roomName), ("domainId", ivr.browsingId),
      ("domainKey", ivr.browsingName), ("mixedId", ivr.mixedId)],
    params.lookup e.1 = if e.2 = "" then none else some e.2

def RoundTrips (page python : Replacing) (ivr : IVR) : Prop :=
  Given ivr (urlSearchParams page (callUrl ivr).toList) ∧
    Given ivr (pythonParams python (callUrl ivr))

/-- The values that are not quoted need no quoting, and the URL does not end in blanks. -/
structure Legible (ivr : IVR) : Prop where
  verbatim : ∀ s ∈ [ivr.name, ivr.roomName, ivr.browsingId, ivr.browsingName], Verbatim s.toList
  last : ivr.mixedId = "" → ∀ c, (ivr.name ++ ivr.roomName ++ ivr.browsingId ++
    ivr.browsingName).toList.getLast? = some c → isPageBlank c = false ∧ isSpace c = false

inductive Key where
  | displayName
  | roomId
  | domainId
  | domainKey
  | mixedId
  deriving DecidableEq

def Key.text : Key → String
  | .displayName => "displayName"
  | .roomId => "roomId"
  | .domainId => "domainId"
  | .domainKey => "domainKey"
  | .mixedId => "mixedId"

theorem Key.text_ne_nil (k : Key) : k.text.toList ≠ [] := by
  cases k <;> decide

theorem Key.text_alpha (k : Key) : ∀ c ∈ k.text.toList, c.isAlpha = true := by
  refine List.all_eq_true.mp ?_
  cases k <;> decide

def param (k : Key) (raw : List Char) (value : String) : Param :=
  ⟨k.text.toList, raw, value, k.text_ne_nil, k.text_alpha⟩

@[simp] theorem param_key (k : Key) (raw : List Char) (value : String) :
    (param k raw value).key = k.text.toList := rfl

@[simp] theorem param_raw (k : Key) (raw : List Char) (value : String) :
    (param k raw value).raw = raw := rfl

@[simp] theorem param_value (k : Key) (raw : List Char) (value : String) :
    (param k raw value).value = value := rfl

def nameParam (ivr : IVR) : Param := param .displayName ivr.name.toList ivr.name

def optionalParams (ivr : IVR) : List Param :=
  [param .roomId ivr.roomName.toList ivr.roomName,
    param .domainId ivr.browsingId.toList ivr.browsingId,
    param .domainKey ivr.browsingName.toList ivr.browsingName,
    param .mixedId (quote ivr.mixedId).toList ivr.mixedId]

/-- The parameters that the URL has. -/
def present (ivr : IVR) : List Param :=
  nameParam ivr :: (optionalParams ivr).filter fun p => decide (p.raw ≠ [])

section Quoting

variable {text : String} {c : Char}

theorem quote_toList (text : String) : (quote text).toList =
    (Utf8Text.encode text.toList).flatMap fun b =>
      if isSafe b then [Char.ofNat b.toNat] else percentByte b := String.toList_ofList

theorem toNat_of_isSafe {b : UInt8} (h : isSafe b = true) :
    (Char.ofNat b.toNat).toNat = b.toNat ∧ b.toNat < 128 := by
  have hlt : b.toNat < 128 := by
    simp only [isSafe, Bool.and_eq_true, decide_eq_true_eq] at h
    exact h.1
  have hall : ∀ n : Fin 128, (Char.ofNat n).toNat = n.val := by decide
  exact ⟨hall ⟨b.toNat, hlt⟩, hlt⟩

/-- The characters of a quoted text. -/
def isQuoted (c : Char) : Bool :=
  c == '%' || c.isAlphanum || decide (c ∈ ['_', '.', '-', '~', '/'])

theorem isQuoted_of_mem (h : c ∈ (quote text).toList) : isQuoted c = true := by
  rw [quote_toList] at h
  obtain ⟨b, -, hc⟩ := List.mem_flatMap.mp h
  split at hc
  · next hsafe =>
    obtain rfl := List.mem_singleton.mp hc
    simp only [isSafe, Bool.and_eq_true] at hsafe
    rw [isQuoted, Bool.or_assoc, hsafe.2, Bool.or_true]
  · have hb : b.toNat < 256 := b.toNat_lt
    have hall : ∀ n : Fin 16, isQuoted (Nat.digitChar n).toUpper = true := by decide
    rcases List.mem_cons.mp hc with rfl | hc
    · rfl
    · rcases List.mem_cons.mp hc with rfl | hc
      · exact hall ⟨b.toNat / 16, by omega⟩
      · obtain rfl := List.mem_singleton.mp hc
        exact hall ⟨b.toNat % 16, by omega⟩

/-- A quoted text has nothing that a reader cuts or takes out. -/
theorem spec_of_isQuoted (h : isQuoted c = true) :
    c ≠ '&' ∧ c ≠ '#' ∧ c ≠ '+' ∧ isBreak c = false ∧ isPageBlank c = false ∧
      isSpace c = false ∧ isAscii c = true ∧ isEncoded c = false := by
  have hlt : c.toNat < 128 := by
    simp only [isQuoted, Bool.or_eq_true, decide_eq_true_eq, beq_iff_eq, List.mem_cons,
      List.not_mem_nil, or_false] at h
    rcases h with (rfl | h) | rfl | rfl | rfl | rfl | rfl
    · decide
    · exact (toNat_of_isAlphanum h).2.trans_lt (by decide)
    all_goals decide
  have hall : ∀ n : Fin 128, isQuoted (Char.ofNat n) = true →
      Char.ofNat n ≠ '&' ∧ Char.ofNat n ≠ '#' ∧ Char.ofNat n ≠ '+' ∧
        isBreak (Char.ofNat n) = false ∧ isPageBlank (Char.ofNat n) = false ∧
        isSpace (Char.ofNat n) = false ∧ isAscii (Char.ofNat n) = true ∧
        isEncoded (Char.ofNat n) = false := by decide
  have hc := hall ⟨c.toNat, hlt⟩
  rw [Char.ofNat_toNat] at hc
  exact hc h

/-- Quoting is undone by decoding. -/
theorem percentDecode_quote (text : String) :
    percentDecode (quote text).toList = Utf8Text.encode text.toList := by
  rw [quote_toList]
  induction Utf8Text.encode text.toList with
  | nil => rfl
  | cons b bs ih =>
    rw [List.flatMap_cons]
    split
    · next hsafe =>
      obtain ⟨hvalue, hlt⟩ := toNat_of_isSafe hsafe
      have hpercent : Char.ofNat b.toNat ≠ '%' := by
        intro h
        have hb : b = 37 := by
          rw [h] at hvalue
          exact UInt8.toNat_inj.mp hvalue.symm
        rw [hb] at hsafe
        exact absurd hsafe (by decide)
      have hsize : (Char.ofNat b.toNat).utf8Size = 1 := by
        rw [Char.utf8Size_eq_one_iff, UInt32.le_iff_toNat_le]
        change (Char.ofNat b.toNat).toNat ≤ 127
        omega
      have hbyte : (Char.ofNat b.toNat).val.toUInt8 = b := by
        refine UInt8.toNat_inj.mp ?_
        rw [UInt32.toNat_toUInt8]
        change (Char.ofNat b.toNat).toNat % 256 = b.toNat
        omega
      rw [List.singleton_append, percentDecode_none (if_neg hpercent), ih,
        String.utf8EncodeChar_eq_singleton hsize, hbyte]
      rfl
    · rw [percentDecode_percentByte, ih]

theorem map_plus_quote (text : String) : (quote text).toList.map plus = (quote text).toList :=
  map_plus_of_notMem fun h => (spec_of_isQuoted (isQuoted_of_mem h)).2.2.1 rfl

theorem quote_empty : quote "" = "" := rfl

theorem quote_eq_nil_iff : (quote text).toList = [] ↔ text = "" := by
  constructor
  · intro h
    have hdecode := percentDecode_quote text
    rw [h] at hdecode
    have hnil : text.toList = [] := Utf8Text.encode_eq_nil_iff.mp hdecode.symm
    exact String.toList_injective hnil
  · rintro rfl
    rfl

end Quoting

-- The terms below are compared by their parts.
attribute [local irreducible] quote

section Queries

variable {blank : Char → Bool} {query : List Char}

/-- What stands in front of the query. -/
def front : List Char := ("file://" ++ IVRPath).toList

theorem front_eq : ∃ rest, front = 'f' :: rest := ⟨_, rfl⟩

theorem mem_front {c : Char} (h : c ∈ front) : c ≠ '?' ∧ c ≠ '#' ∧ isBreak c = false := by
  have hall : front.all (fun c => c != '?' && c != '#' && !isBreak c) = true := by decide
  simpa [and_assoc] using List.all_eq_true.mp hall c h

/-- What both readers keep of a URL, after they have taken the blanks from its ends. -/
theorem query_of_url (hfirst : blank 'f' = false) (hmark : blank '?' = false) :
    (((((stripChars blank (front ++ '?' :: query)).filter fun c => !isBreak c).takeWhile
      (· ≠ '#')).dropWhile (· ≠ '?')).drop 1) = queryOf blank query := by
  obtain ⟨rest, hrest⟩ := front_eq
  have hstrip : stripChars blank (front ++ '?' :: query) =
      front ++ '?' :: query.rdropWhile blank := by
    rw [stripChars, hrest, List.cons_append, List.dropWhile_cons_of_neg (by simp [hfirst]),
      ← List.cons_append, ← hrest, rdropWhile_append_cons hmark]
  have hfilter : (front.filter fun c => !isBreak c) = front :=
    List.filter_eq_self.mpr fun c hc => by simp [(mem_front hc).2.2]
  have htake : ∀ c ∈ front, decide (c ≠ '#') = true := fun c hc => by simpa using (mem_front hc).2.1
  have hdrop : ∀ c ∈ front, decide (c ≠ '?') = true := fun c hc => by simpa using (mem_front hc).1
  rw [hstrip, List.filter_append, hfilter, List.filter_cons_of_pos (by decide),
    List.takeWhile_append_of_pos htake, List.takeWhile_cons_of_pos (by decide),
    List.dropWhile_append_of_pos hdrop, List.dropWhile_cons_of_neg (by decide)]
  rfl

theorem urlSearchParams_eq (m : Replacing) (query : List Char) :
    urlSearchParams m (front ++ '?' :: query) = (pageReader m).read query := by
  have hquery := @query_of_url isPageBlank query rfl rfl
  unfold urlSearchParams pageQuery
  dsimp only
  rw [hquery, formParse_encodeQuery]
  rfl

theorem pythonParams_eq (m : Replacing) {url : String} (hurl : url.toList = front ++ '?' :: query) :
    pythonParams m url = (pythonReader m).read query := by
  have hquery := @query_of_url isSpace query rfl rfl
  obtain ⟨rest, hrest⟩ := front_eq
  have hstrip : stripChars isSpace url.toList =
      'f' :: (rest ++ '?' :: query.rdropWhile isSpace) := by
    rw [hurl, stripChars, hrest, List.cons_append, List.dropWhile_cons_of_neg (by decide),
      ← List.cons_append, rdropWhile_append_cons rfl, List.cons_append]
  have hfilter (cs : List Char) : (cs.filter fun c => decide (c ∉ ['\t', '\r', '\n'])) =
      cs.filter fun c => !isBreak c := by
    refine List.filter_congr fun c _ => ?_
    rw [isBreak, decide_not]
  unfold pythonParams urlQuery
  dsimp only
  rw [strip, String.toList_ofList, hstrip, List.dropWhile_cons_of_neg (by decide), hfilter,
    ← hstrip, hurl, hquery]
  rfl

theorem parameter_toList (name value : String) : (parameter name value).toList =
    if value.toList = [] then [] else '&' :: (name.toList ++ '=' :: value.toList) := by
  unfold parameter
  by_cases h : value = ""
  · subst h
    rfl
  · have hne : value.toList ≠ [] := fun hnil => h (String.toList_injective hnil)
    rw [if_neg h, if_neg hne]
    simp

/-- The optional parameters that are there, each with its mark. -/
theorem following_filter (ps : List Param) :
    following (ps.filter fun p => decide (p.raw ≠ [])) =
      ps.flatMap fun p => if p.raw = [] then [] else '&' :: (p.key ++ '=' :: p.raw) := by
  induction ps with
  | nil => rfl
  | cons p ps ih =>
    rw [List.filter_cons, List.flatMap_cons]
    by_cases h : p.raw = []
    · rw [if_neg (by simp [h]), if_pos h, List.nil_append, ih]
    · rw [if_pos (by simp [h]), if_neg h, ← ih]
      unfold following
      rw [if_neg (List.cons_ne_nil _ _), joinParams]
      simp

theorem callUrl_toList (ivr : IVR) :
    (callUrl ivr).toList = front ++ '?' :: joinParams (present ivr) := by
  have hmixed : (if ivr.mixedId = "" then "" else quote ivr.mixedId) = quote ivr.mixedId := by
    split
    · next h => rw [h, quote_empty]
    · rfl
  have hname : "?displayName=".toList = '?' :: (Key.displayName.text.toList ++ ['=']) := rfl
  have hurl : callUrl ivr = ("file://" ++ IVRPath) ++ "?displayName=" ++ ivr.name ++
      parameter Key.roomId.text ivr.roomName ++ parameter Key.domainId.text ivr.browsingId ++
      parameter Key.domainKey.text ivr.browsingName ++
      parameter Key.mixedId.text (quote ivr.mixedId) := by
    rw [← hmixed]
    rfl
  have hoptional : (optionalParams ivr).flatMap (fun p =>
      if p.raw = [] then [] else '&' :: (p.key ++ '=' :: p.raw)) =
      (parameter Key.roomId.text ivr.roomName).toList ++
        ((parameter Key.domainId.text ivr.browsingId).toList ++
        ((parameter Key.domainKey.text ivr.browsingName).toList ++
        (parameter Key.mixedId.text (quote ivr.mixedId)).toList)) := by
    rw [parameter_toList, parameter_toList, parameter_toList, parameter_toList, optionalParams,
      List.flatMap_cons, List.flatMap_cons, List.flatMap_cons, List.flatMap_cons, List.flatMap_nil,
      List.append_nil]
    simp only [param_raw, param_key]
    congr 3
  rw [hurl, present, joinParams, ← following, following_filter, hoptional]
  rw [String.toList_append, String.toList_append, String.toList_append, String.toList_append,
    String.toList_append, String.toList_append, hname]
  change front ++ _ ++ _ ++ _ ++ _ ++ _ ++ _ = front ++ '?' :: (_ ++ '=' :: (_ ++ _))
  generalize front = url
  simp only [List.append_assoc, List.cons_append, List.nil_append]
  rfl

end Queries

/-- A reader that undoes quoting. -/
structure Unquotes (r : Reader) : Prop where
  decode_quote : ∀ text, r.decode (quote text).toList = text
  blank_quoted : ∀ c, isQuoted c = true → r.blank c = false

theorem unquotes_page (m : Replacing) : Unquotes (pageReader m) where
  decode_quote text := by
    change pageDecode m (quote text).toList = text
    rw [pageDecode, map_plus_quote, percentDecode_quote, m.read_encode, String.ofList_toList]
  blank_quoted _ hc := (spec_of_isQuoted hc).2.2.2.2.1

theorem unquotes_python (m : Replacing) : Unquotes (pythonReader m) where
  decode_quote text := by
    have hascii : ∀ c ∈ (quote text).toList, isAscii c = true :=
      fun c hc => (spec_of_isQuoted (isQuoted_of_mem hc)).2.2.2.2.2.2.1
    change unquote m ((quote text).toList.map plus) = text
    rw [map_plus_quote, unquote, unquoteRuns_ascii hascii, List.nil_append, percentDecode_quote,
      m.read_encode, String.ofList_toList]
  blank_quoted _ hc := (spec_of_isQuoted hc).2.2.2.2.2.1

section Reading

variable {r : Reader} {ivr : IVR} {p : Param} {raw : List Char}

theorem rdropWhile_eq_self_iff {blank : Char → Bool} :
    raw.rdropWhile blank = raw ↔ ∀ c, raw.getLast? = some c → blank c = false := by
  rw [List.rdropWhile_eq_self_iff]
  constructor
  · intro h c hc
    have hne : raw ≠ [] := by
      rintro rfl
      cases hc
    rw [List.getLast?_eq_some_getLast hne] at hc
    rw [← Option.some.inj hc]
    simpa using h hne
  · intro h hne
    simpa using h _ (List.getLast?_eq_some_getLast hne)

/-- The last value that is there ends as all values together do. -/
theorem last_present_iff {blank : Char → Bool} (first : Param) (others : List Param) :
    (∀ p, (first :: others.filter fun p => decide (p.raw ≠ [])).getLast? = some p →
      p.raw.rdropWhile blank = p.raw) ↔
    ∀ c, (first.raw ++ others.flatMap Param.raw).getLast? = some c → blank c = false := by
  induction others generalizing first with
  | nil =>
    simp only [List.filter_nil, List.getLast?_singleton, List.flatMap_nil, List.append_nil,
      Option.some.injEq, forall_eq', rdropWhile_eq_self_iff]
  | cons p others ih =>
    rw [List.filter_cons, List.flatMap_cons]
    by_cases h : p.raw = []
    · rw [if_neg (by simp [h]), h, List.nil_append]
      exact ih first
    · have hlast : (first.raw ++ (p.raw ++ others.flatMap Param.raw)).getLast? =
          (p.raw ++ others.flatMap Param.raw).getLast? := by
        rw [List.getLast?_append, Option.or_of_isSome]
        exact List.getLast?_isSome.mpr (List.append_ne_nil_of_left_ne_nil h _)
      rw [if_pos (by simp [h]), hlast, List.getLast?_cons_cons]
      exact ih p

def mixedParam (ivr : IVR) : Param := param .mixedId (quote ivr.mixedId).toList ivr.mixedId

theorem safe_of_quoted (hr : Unquotes r) {text : String} (hraw : p.raw = (quote text).toList)
    (hvalue : p.value = text) : Safe r p := by
  refine ⟨?_, ?_, ?_⟩
  · rw [hraw]
    intro c hc
    have hspec := spec_of_isQuoted (isQuoted_of_mem hc)
    exact ⟨hspec.1, hspec.2.1, hspec.2.2.2.1⟩
  · rw [hraw, hvalue]
    exact hr.decode_quote text
  · rw [hraw]
    exact rdropWhile_eq_self_iff.mpr fun c hc =>
      hr.blank_quoted c (isQuoted_of_mem (List.mem_of_getLast? hc))

theorem safe_mixed (hr : Unquotes r) (ivr : IVR) : Safe r (mixedParam ivr) := by
  unfold mixedParam
  exact safe_of_quoted hr (param_raw _ _ _) (param_value _ _ _)

theorem nodup_allKeys (ivr : IVR) :
    ((nameParam ivr :: optionalParams ivr).map Param.key).Nodup := by
  have hall : [Key.displayName.text.toList, Key.roomId.text.toList, Key.domainId.text.toList,
      Key.domainKey.text.toList, Key.mixedId.text.toList].Nodup := by decide
  unfold nameParam optionalParams
  simp only [List.map_cons, List.map_nil, param_key]
  exact hall

theorem present_sublist (ivr : IVR) :
    List.Sublist (present ivr) (nameParam ivr :: optionalParams ivr) :=
  List.filter_sublist.cons_cons _

theorem nodup_keys (ivr : IVR) : ((present ivr).map Param.key).Nodup :=
  (nodup_allKeys ivr).sublist ((present_sublist ivr).map Param.key)

/-- A parameter whose value is written as it is. -/
def valueParam (k : Key) (value : String) : Param := param k value.toList value

theorem valueParam_value (k : Key) (value : String) :
    (valueParam k value).value = String.ofList (valueParam k value).raw := String.ofList_toList.symm

/-- What holds of an empty value, and of the quoted one, holds of all parameters where it holds
of the values that are written as they are. -/
theorem forall_present_iff {P : Param → Prop} (hnil : ∀ k, P (valueParam k ""))
    (hmixed : P (mixedParam ivr)) : (∀ p ∈ present ivr, P p) ↔
      P (valueParam .displayName ivr.name) ∧ P (valueParam .roomId ivr.roomName) ∧
      P (valueParam .domainId ivr.browsingId) ∧ P (valueParam .domainKey ivr.browsingName) := by
  have hoptional (k : Key) (value : String)
      (h : valueParam k value ∈ present ivr → P (valueParam k value))
      (hmem : valueParam k value ∈ optionalParams ivr) : P (valueParam k value) := by
    by_cases hvalue : value = ""
    · rw [hvalue]
      exact hnil k
    · have hraw : (valueParam k value).raw ≠ [] := fun h => hvalue (String.toList_injective h)
      exact h (List.mem_cons_of_mem _ (List.mem_filter.mpr ⟨hmem, decide_eq_true hraw⟩))
  have hroom : valueParam .roomId ivr.roomName ∈ optionalParams ivr := List.mem_cons_self
  have hid : valueParam .domainId ivr.browsingId ∈ optionalParams ivr :=
    List.mem_cons_of_mem _ List.mem_cons_self
  have hkey : valueParam .domainKey ivr.browsingName ∈ optionalParams ivr :=
    List.mem_cons_of_mem _ (List.mem_cons_of_mem _ List.mem_cons_self)
  constructor
  · intro h
    exact ⟨h _ List.mem_cons_self, hoptional _ _ (h _) hroom, hoptional _ _ (h _) hid,
      hoptional _ _ (h _) hkey⟩
  · rintro ⟨hfirst, hsecond, hthird, hfourth⟩
    have hall : ∀ p ∈ optionalParams ivr, P p :=
      List.forall_mem_cons.mpr ⟨hsecond, List.forall_mem_cons.mpr ⟨hthird,
        List.forall_mem_cons.mpr ⟨hfourth, List.forall_mem_cons.mpr ⟨hmixed, nofun⟩⟩⟩⟩
    exact List.forall_mem_cons.mpr ⟨hfirst, fun p hp => hall p (List.mem_filter.mp hp).1⟩

/-- A value that is written as it is, is read as it is where it needs no quoting. -/
theorem verbatim_iff (k : Key) (value : String) : Clean (valueParam k value).raw ∧
    r.decode (valueParam k value).raw = (valueParam k value).value ↔ Verbatim value.toList := by
  rw [valueParam_value, decode_eq_ofList_iff]
  exact ⟨fun h => ⟨h.1, h.2.1, h.2.2⟩, fun h => ⟨h.clean, h.plain, h.plus⟩⟩

theorem verbatim_nil : Verbatim [] := ⟨nofun, rfl, List.not_mem_nil⟩

theorem getLast_values (ivr : IVR) :
    ((nameParam ivr).raw ++ (optionalParams ivr).flatMap Param.raw).getLast? =
      (quote ivr.mixedId).toList.getLast?.or
        (ivr.name ++ ivr.roomName ++ ivr.browsingId ++ ivr.browsingName).toList.getLast? := by
  have hvalues : (nameParam ivr).raw ++ (optionalParams ivr).flatMap Param.raw =
      (ivr.name ++ ivr.roomName ++ ivr.browsingId ++ ivr.browsingName).toList ++
        (quote ivr.mixedId).toList := by
    rw [String.toList_append, String.toList_append, String.toList_append, optionalParams,
      List.flatMap_cons, List.flatMap_cons, List.flatMap_cons, List.flatMap_cons, List.flatMap_nil,
      List.append_nil, List.append_assoc, List.append_assoc, List.append_assoc]
    simp only [nameParam, param_raw]
  rw [hvalues, List.getLast?_append]

/-- The parameters are intact where the values need no quoting and end in no blank. -/
theorem intact_iff (hr : Unquotes r) : Intact r (present ivr) ↔
    (∀ s ∈ [ivr.name, ivr.roomName, ivr.browsingId, ivr.browsingName], Verbatim s.toList) ∧
    (ivr.mixedId = "" → ∀ c, (ivr.name ++ ivr.roomName ++ ivr.browsingId ++
      ivr.browsingName).toList.getLast? = some c → r.blank c = false) := by
  have hsafe := safe_mixed hr ivr
  have hend : (∀ p, (present ivr).getLast? = some p → p.raw.rdropWhile r.blank = p.raw) ↔
      (ivr.mixedId = "" → ∀ c, (ivr.name ++ ivr.roomName ++ ivr.browsingId ++
        ivr.browsingName).toList.getLast? = some c → r.blank c = false) := by
    rw [present, last_present_iff, getLast_values]
    by_cases hmixed : ivr.mixedId = ""
    · have hnil : (quote ivr.mixedId).toList = [] := quote_eq_nil_iff.mpr hmixed
      rw [hnil, List.getLast?_nil, Option.none_or, forall_prop_of_true hmixed]
    · have hne : (quote ivr.mixedId).toList ≠ [] := quote_eq_nil_iff.not.mpr hmixed
      rw [Option.or_of_isSome (List.getLast?_isSome.mpr hne)]
      exact iff_of_true (rdropWhile_eq_self_iff.mp hsafe.last) fun h => absurd h hmixed
  have hvalues := @forall_present_iff ivr
    (fun p => Clean p.raw ∧ r.decode p.raw = p.value)
    (fun k => (verbatim_iff k "").mpr verbatim_nil) ⟨hsafe.clean, hsafe.decode⟩
  simp only [verbatim_iff] at hvalues
  simp only [List.forall_mem_cons, List.not_mem_nil, false_imp_iff, implies_true, and_true]
  rw [← hvalues, ← hend]
  exact ⟨fun h => ⟨fun p hp => ⟨h.clean p hp, h.decode p hp⟩, h.last⟩,
    fun h => ⟨fun p hp => (h.1 p hp).1, fun p hp => (h.1 p hp).2, h.2⟩⟩

theorem lookup_present (h : Intact r (present ivr)) (hp : p ∈ present ivr) :
    (r.read (joinParams (present ivr))).lookup (String.ofList p.key) = some p.value := by
  have hnodup :
      (FieldMap.keys ((present ivr).map fun p => (String.ofList p.key, p.value))).Nodup := by
    unfold FieldMap.keys
    rw [List.map_map]
    have hkeys := (nodup_keys ivr).map (f := String.ofList) fun _ _ h => String.ofList_injective h
    rwa [List.map_map] at hkeys
  rw [h.read]
  exact FieldMap.lookup_of_mem hnodup (List.mem_map_of_mem (f := fun p : Param =>
    (String.ofList p.key, p.value)) hp)

theorem key_of_param (k : Key) (raw : List Char) (value : String) :
    String.ofList (param k raw value).key = k.text := String.ofList_toList

/-- An optional parameter is found where its value is not empty, and only there. -/
theorem lookup_optional (h : Intact r (present ivr)) {k : Key} {raw : List Char} {value : String}
    (hp : param k raw value ∈ optionalParams ivr) (hraw : raw = [] ↔ value = "") :
    (r.read (joinParams (present ivr))).lookup k.text =
      if value = "" then none else some value := by
  split
  · next hvalue =>
    rw [h.read]
    refine List.lookup_eq_none_iff.mpr fun e he => bne_iff_ne.mpr fun hkey => ?_
    obtain ⟨q, hq, rfl⟩ := List.mem_map.mp he
    have hsame : q.key = (param k raw value).key :=
      String.ofList_injective (hkey.symm.trans (key_of_param k raw value).symm)
    obtain rfl := List.inj_on_of_nodup_map (nodup_allKeys ivr) ((present_sublist ivr).subset hq)
      (List.mem_cons_of_mem _ hp) hsame
    rcases List.mem_cons.mp hq with hname | hfilter
    · have hnotMem := (List.nodup_cons.mp (nodup_allKeys ivr)).1
      rw [← hname] at hnotMem
      exact hnotMem (List.mem_map_of_mem hp)
    · exact of_decide_eq_true (List.mem_filter.mp hfilter).2 (hraw.mpr hvalue)
  · next hvalue =>
    have hmem : param k raw value ∈ present ivr := by
      refine List.mem_cons_of_mem _ (List.mem_filter.mpr ⟨hp, decide_eq_true ?_⟩)
      exact fun hnil => hvalue (hraw.mp hnil)
    have hfound := lookup_present h hmem
    rwa [key_of_param] at hfound

theorem toList_eq_nil_iff {value : String} : value.toList = [] ↔ value = "" :=
  ⟨fun h => String.toList_injective h, fun h => by rw [h]; rfl⟩

/-- A parameter that is there is found as it is meant. -/
theorem lookup_of_given {params : List (String × String)} {k : Key} {raw : List Char}
    {value : String} (hempty : raw = [] ↔ value = "")
    (hne : decide ((param k raw value).raw ≠ []) = true)
    (h : params.lookup k.text = if value = "" then none else some value) :
    params.lookup (String.ofList (param k raw value).key) = some (param k raw value).value := by
  have hvalue : value ≠ "" := fun hvalue => of_decide_eq_true hne (hempty.mpr hvalue)
  rw [key_of_param, h, if_neg hvalue, param_value]

theorem given_keys {params : List (String × String)} : Given ivr params ↔
    params.lookup Key.displayName.text = some ivr.name ∧
    params.lookup Key.roomId.text = (if ivr.roomName = "" then none else some ivr.roomName) ∧
    params.lookup Key.domainId.text =
      (if ivr.browsingId = "" then none else some ivr.browsingId) ∧
    params.lookup Key.domainKey.text =
      (if ivr.browsingName = "" then none else some ivr.browsingName) ∧
    params.lookup Key.mixedId.text = (if ivr.mixedId = "" then none else some ivr.mixedId) := by
  unfold Given
  simp only [List.forall_mem_cons, List.not_mem_nil, false_imp_iff, implies_true, and_true,
    Key.text]

/-- The values are given back exactly where the parameters are intact. -/
theorem given_iff (hr : Unquotes r) :
    Given ivr (r.read (joinParams (present ivr))) ↔ Intact r (present ivr) := by
  rw [given_keys]
  constructor
  · rintro ⟨hname, hroom, hid, hkey, hmixed⟩
    have hfaithful (k : Key) (value : String) : Faithful r (valueParam k value) :=
      faithful_of_value (valueParam_value k value)
    have hall : ∀ p ∈ present ivr, (Faithful r p ∨ Safe r p) ∧
        (r.read (joinParams (present ivr))).lookup (String.ofList p.key) = some p.value := by
      intro p hp
      rcases List.mem_cons.mp hp with rfl | hp
      · refine ⟨.inl (hfaithful .displayName ivr.name), ?_⟩
        rw [nameParam, key_of_param, param_value]
        exact hname
      · obtain ⟨hp, hraw⟩ := List.mem_filter.mp hp
        unfold optionalParams at hp
        rcases List.mem_cons.mp hp with rfl | hp
        · exact ⟨.inl (hfaithful _ _), lookup_of_given toList_eq_nil_iff hraw hroom⟩
        · rcases List.mem_cons.mp hp with rfl | hp
          · exact ⟨.inl (hfaithful _ _), lookup_of_given toList_eq_nil_iff hraw hid⟩
          · rcases List.mem_cons.mp hp with rfl | hp
            · exact ⟨.inl (hfaithful _ _), lookup_of_given toList_eq_nil_iff hraw hkey⟩
            · obtain rfl := List.mem_singleton.mp hp
              exact ⟨.inr (safe_mixed hr ivr), lookup_of_given quote_eq_nil_iff hraw hmixed⟩
    exact intact_of_lookup (nodup_keys ivr) (fun p hp => (hall p hp).1) fun p hp => (hall p hp).2
  · intro h
    have hname := lookup_present h (List.mem_cons_self : nameParam ivr ∈ present ivr)
    rw [nameParam, key_of_param, param_value] at hname
    refine ⟨hname, lookup_optional h List.mem_cons_self toList_eq_nil_iff,
      lookup_optional h (List.mem_cons_of_mem _ List.mem_cons_self) toList_eq_nil_iff,
      lookup_optional h (List.mem_cons_of_mem _ (List.mem_cons_of_mem _ List.mem_cons_self))
        toList_eq_nil_iff,
      lookup_optional h (List.mem_cons_of_mem _ (List.mem_cons_of_mem _ (List.mem_cons_of_mem _
        List.mem_cons_self))) quote_eq_nil_iff⟩

end Reading

theorem RoundTrips.legible {page python : Replacing} {ivr : IVR} (h : RoundTrips page python ivr) :
    Legible ivr := by
  obtain ⟨hpage, hpython⟩ := h
  rw [callUrl_toList, urlSearchParams_eq, given_iff (unquotes_page page),
    intact_iff (unquotes_page page)] at hpage
  rw [pythonParams_eq python (callUrl_toList ivr), given_iff (unquotes_python python),
    intact_iff (unquotes_python python)] at hpython
  exact ⟨hpage.1, fun hmixed c hc => ⟨hpage.2 hmixed c hc, hpython.2 hmixed c hc⟩⟩

/-- Both readers give the values back exactly where those need no quoting. -/
theorem query_roundTrips_iff (page python : Replacing) (ivr : IVR) :
    RoundTrips page python ivr ↔ Legible ivr := by
  refine ⟨RoundTrips.legible, fun h => ⟨?_, ?_⟩⟩
  · rw [callUrl_toList, urlSearchParams_eq, given_iff (unquotes_page page),
      intact_iff (unquotes_page page)]
    exact ⟨h.verbatim, fun hmixed c hc => (h.last hmixed c hc).1⟩
  · rw [pythonParams_eq python (callUrl_toList ivr), given_iff (unquotes_python python),
      intact_iff (unquotes_python python)]
    exact ⟨h.verbatim, fun hmixed c hc => (h.last hmixed c hc).2⟩

/-- Strict decoding where that is possible, and else a mark for every byte that is not ASCII. -/
def replaceAll (bs : List UInt8) : List Char :=
  (Utf8Text.decode bs).getD (bs.map fun b =>
    if isAsciiByte b then Char.ofNat b.toNat else Char.ofNat 65533)

def plainReplacing : Replacing where
  read := replaceAll
  read_encode cs := by rw [replaceAll, Utf8Text.decode_encode, Option.getD_some]
  count_ascii bs := by
    unfold replaceAll
    cases h : Utf8Text.decode bs with
    | some cs => rw [Option.getD_some, ← countP_encode, Utf8Text.encode_of_decode h]
    | none =>
      rw [Option.getD_none, List.countP_map]
      refine List.countP_congr fun b _ => ?_
      have hall : ∀ n : Fin 128, isAscii (Char.ofNat n) = true := by decide
      dsimp only [Function.comp]
      split
      · next hb => exact iff_of_true (hall ⟨b.toNat, of_decide_eq_true hb⟩) hb
      · next hb => exact iff_of_false (by decide) hb

/-- A caller named `Tom & Jerry`. -/
def twoNames : IVR := ⟨"", "Tom & Jerry", "", "", "", ""⟩

theorem second_name_lost : ¬ RoundTrips plainReplacing plainReplacing twoNames := by
  intro h
  have hclean := (h.legible.verbatim "Tom & Jerry" List.mem_cons_self).clean
  exact (hclean '&' (by decide)).1 rfl

end CallUrlQuery
