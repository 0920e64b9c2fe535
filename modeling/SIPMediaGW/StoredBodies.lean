import Mathlib.Data.List.Infix
import SIPMediaGW.BodyDocuments
import SIPMediaGW.IngestReplay

/-! # What the ingest route hands to the database

The route looks for an escaped NUL character in the bytes of a body. What can be stored is decided
by its document: a column of text takes no NUL character, and neither that nor a number that is
not finite, nor a surrogate (a pair of them is one code point), has a place in `jsonb`. -/
namespace StoredBodies

open BodyDocuments
open BodyEscapes
open BodyJson
open CallsTable
open CodePoints
open IngestMapping
open IngestReplay (callRow_eq_ok mapPush_eq_ok)
open PythonJson

/-- `b"\\u0000"`. -/
def nulEscape : List UInt8 := [0x5C, 0x75, 0x30, 0x30, 0x30, 0x30]

structure Handed where
  row : CallRow
  media : List MediaRow
  payload : Doc

inductive Reply where
  | nulCharacter
  | invalidJson
  | refused (r : Refusal)
  | handed (h : Handed)

section Route

variable (py : PythonText) (floatOf : Text → PyFloat) (maxDepth : ℕ)

/-- `ingestCall` up to the insertion. -/
def ingestBody (body : List UInt8) : Reply :=
  if nulEscape <:+: body then .nulCharacter
  else match loads floatOf maxDepth body with
    | none => .invalidJson
    | some doc =>
      match mapPush py (toJson (collapse doc)) with
      | .error r => .refused r
      | .ok rows => .handed ⟨rows.1, rows.2, collapse doc⟩

end Route

def isFinite : PyFloat → Bool
  | .finite _ => true
  | _ => false

/-- The columns of text, in the order of `CALL_COLUMNS`; the state of the video is one of four
words. -/
def columns (row : CallRow) : List (Option String) :=
  [row.callId, row.gwAlias, row.gwId, row.gwHost, row.mainApp, row.platform, row.room,
    row.callUrl, row.sourceUri, row.sourceName, row.sourceNumber, row.sourceDomain,
    row.destinationUri, row.destinationRoom, row.destinationDomain, row.peerDisplayName,
    row.closeReason, row.lastEventType, row.peerUserAgent, row.audioCodec, row.videoCodec,
    row.videoEncoder, row.gwVersion, row.baresipVersion, row.baresipPatch, row.chromiumVersion]

/-- No surrogate. -/
def paired (s : Text) : Bool := s.all fun n => ! (isHigh n || isLow n)

def storableText (s : Text) : Bool := noNul s && paired s

/-- The database takes the texts and the JSON values of a call. -/
def Handed.storable (h : Handed) : Bool :=
  (columns h.row).all (fun column => column.all nulFree) &&
    (h.row.mediaDirection.getD []).all (fun m => nulFree m.1 && nulFree m.2) &&
    everyJson nulFree isFinite h.row.dtmfEvents && every storableText isFinite h.payload

section Columns

variable {py : PythonText} {float : PyFloat → Bool} {v : Json} {d : Dict}

theorem nulFree_repr (n : ℕ) : nulFree n.repr = true := by
  rw [nulFree_iff, Nat.toList_repr]
  intro hmem
  have hdigit := Nat.isDigit_of_mem_toDigits (by decide) (by decide) hmem
  exact absurd hdigit (by decide)

theorem nulFree_int (n : ℤ) : nulFree (toString n) = true := by
  rw [Int.toString_eq_repr, Int.repr_eq_if]
  split
  · exact nulFree_repr _
  · rw [nulFree_iff, String.toList_append, List.mem_append, not_or]
    exact ⟨by decide, nulFree_iff.mp (nulFree_repr _)⟩

theorem nulFree_pyStr (hrepr : ∀ v, nulFree (py.repr v) = true)
    (hv : everyJson nulFree float v = true) : nulFree (pyStr py.repr v) = true := by
  cases v with
  | null => exact (show nulFree "None" = true by decide)
  | bool b =>
    cases b with
    | false => exact (show nulFree "False" = true by decide)
    | true => exact (show nulFree "True" = true by decide)
  | int n => exact nulFree_int n
  | float x => exact hrepr _
  | str s => exact hv
  | arr xs => exact hrepr _
  | obj d => exact hrepr _

theorem nulFree_text (hrepr : ∀ v, nulFree (py.repr v) = true)
    (hv : everyJson nulFree float v = true) : (text py v).all nulFree = true := by
  have hstrip : nulFree (strip (pyStr py.repr v)) = true := by
    rw [nulFree_iff, strip, String.toList_ofList]
    exact fun hmem => nulFree_iff.mp (nulFree_pyStr hrepr hv) (mem_of_mem_stripChars hmem)
  rw [Option.all_eq_true]
  intro s hs
  unfold text at hs
  split at hs
  · cases hs
  · dsimp only at hs
    split at hs
    · cases hs
    · rw [← Option.some.inj hs]
      exact hstrip

theorem nulFree_codec (hrepr : ∀ v, nulFree (py.repr v) = true)
    (hv : everyJson nulFree float v = true) : (codec py v).all nulFree = true := by
  rw [codec, Option.all_map, Option.all_eq_true]
  intro s hs
  have hall := (Option.all_eq_true _ _).mp (nulFree_text hrepr hv) s hs
  rw [nulFree_iff, String.toList_ofList]
  exact fun hmem => nulFree_iff.mp hall ((List.takeWhile_sublist _).subset hmem)

/-- The members of an object, or of the empty one that stands for another value. -/
theorem every_obj (hv : everyJson nulFree float v = true) :
    everyJsonMember nulFree float (obj v) = true := by
  cases v with
  | obj d => exact hv
  | _ => rfl

theorem nulFree_direction (hrepr : ∀ v, nulFree (py.repr v) = true)
    (hv : everyJson nulFree float v = true) :
    ((direction py v).getD []).all (fun m => nulFree m.1 && nulFree m.2) = true := by
  cases v with
  | obj d =>
    rw [direction]
    split
    · rfl
    · rw [Option.getD_some, List.all_eq_true]
      intro m hm
      obtain ⟨e, he, hmap⟩ := List.mem_filterMap.mp hm
      obtain ⟨value, hvalue, rfl⟩ := Option.map_eq_some_iff.mp hmap
      obtain ⟨hkey, htext⟩ := everyJsonMember_iff.mp hv e he
      exact Bool.and_eq_true_iff.mpr
        ⟨hkey, (Option.all_eq_true _ _).mp (nulFree_text hrepr htext) value hvalue⟩
  | _ => rfl

theorem nulFree_firstLine (hd : everyJsonMember nulFree float d = true) :
    everyJson nulFree float (firstLine d) = true := by
  have hvideo := everyJson_field hd "video"
  unfold firstLine
  split
  · next line lines heq =>
    rw [heq] at hvideo
    exact everyJsonItem_iff.mp hvideo line List.mem_cons_self
  · rfl

theorem nulFree_platform (hrepr : ∀ v, nulFree (py.repr v) = true)
    (hv : everyJson nulFree float v = true) : (platform py v).all nulFree = true := by
  rw [Option.all_eq_true]
  intro s hs
  have htext := (Option.filter_eq_some_iff.mp hs).1
  exact (Option.all_eq_true _ _).mp (nulFree_text hrepr hv) s htext

variable {call : Dict} {summary : SampleSummary}

theorem nulFree_columns (hrepr : ∀ v, nulFree (py.repr v) = true)
    (hcall : everyJsonMember nulFree float call = true) :
    (columns (callColumns py call summary)).all (fun column => column.all nulFree) = true := by
  have htext {d : Dict} (hd : everyJsonMember nulFree float d = true) (key : String) :
      (text py (field d key)).all nulFree = true := nulFree_text hrepr (everyJson_field hd key)
  have hobj {d : Dict} (hd : everyJsonMember nulFree float d = true) (key : String) :
      everyJsonMember nulFree float (obj (field d key)) = true :=
    every_obj (everyJson_field hd key)
  have hdetails := hobj hcall "details"
  have hsource := hobj hdetails "source"
  have hdestination := hobj hdetails "destination"
  have hgateway := hobj hcall "gateway"
  have hencoders := hobj hdetails "encoders"
  have hline := nulFree_firstLine hencoders
  rw [List.all_eq_true]
  simp only [columns, callColumns, List.forall_mem_cons]
  exact ⟨htext hdetails _, htext hdestination _, htext hcall _, htext hdestination _,
    htext hcall _, nulFree_platform hrepr (everyJson_field hcall _), htext hcall _, htext hcall _,
    htext hsource _, htext hsource _, htext hsource _, htext hsource _, htext hdestination _,
    htext hdestination _, htext hdestination _, htext hdestination _, htext hdetails _,
    htext hdetails _, htext hdetails _, nulFree_codec hrepr (everyJson_field hencoders _),
    nulFree_codec hrepr hline, nulFree_text hrepr hline, htext hgateway _, htext hgateway _,
    htext hgateway _, htext hgateway _, List.forall_mem_nil _⟩

theorem every_dtmfEvents (hcall : everyJsonMember nulFree float call = true) :
    everyJson nulFree float (callColumns py call summary).dtmfEvents = true := by
  rw [callColumns]
  dsimp only
  split
  · exact everyJson_field hcall "dtmfEvents"
  · rfl

/-- The `call` object of a payload, and nothing but it, gives the columns. -/
theorem every_callOf {payload : Json} (h : callOf payload = .ok call)
    (hpayload : everyJson nulFree float payload = true) :
    everyJsonMember nulFree float call = true := by
  unfold callOf at h
  split at h
  · next members =>
    have hfield := everyJson_field hpayload "call"
    split at h
    · next d heq =>
      cases h
      rw [heq] at hfield
      exact hfield
    · cases h
  · cases h

end Columns

section Handing

variable (py : PythonText) (floatOf : Text → PyFloat) (maxDepth : ℕ) (body : List UInt8)

/-- Nothing that cannot be stored is handed, and a NUL character is refused where a string of the
body holds one. -/
def Guarded : Prop :=
  (∀ h, ingestBody py floatOf maxDepth body = .handed h → h.storable = true) ∧
    (ingestBody py floatOf maxDepth body = .nulCharacter ↔
      ∃ doc, loads floatOf maxDepth body = some doc ∧ anyNul (strings doc) = true)

/-- The body is a JSON text with the escape of a NUL character. -/
def EscapesNul : Prop :=
  ∃ text doc, decodeBody body = some text ∧ readText floatOf maxDepth text = some doc ∧
    hasEscape false text = true

variable {py floatOf maxDepth body}

theorem escapesNul_iff : EscapesNul floatOf maxDepth body ↔
    ∃ doc, loads floatOf maxDepth body = some doc ∧ anyNul (strings doc) = true := by
  constructor
  · rintro ⟨text, doc, htext, hdoc, hescape⟩
    rw [hasEscape_readText hdoc] at hescape
    exact ⟨doc, Option.bind_eq_some_iff.mpr ⟨text, htext, hdoc⟩, hescape⟩
  · rintro ⟨doc, hloads, hnul⟩
    obtain ⟨text, htext, hdoc⟩ := Option.bind_eq_some_iff.mp hloads
    rw [← hasEscape_readText hdoc] at hnul
    exact ⟨text, doc, htext, hdoc, hnul⟩

theorem ingestBody_eq_nulCharacter :
    ingestBody py floatOf maxDepth body = .nulCharacter ↔ nulEscape <:+: body := by
  unfold ingestBody
  split
  · next hin => exact iff_of_true rfl hin
  · next hin =>
    refine iff_of_false (fun h => ?_) hin
    split at h
    · cases h
    · split at h <;> cases h

theorem ingestBody_eq_handed {h : Handed} :
    ingestBody py floatOf maxDepth body = .handed h ↔ ¬ nulEscape <:+: body ∧
      ∃ doc, loads floatOf maxDepth body = some doc ∧ h.payload = collapse doc ∧
        mapPush py (toJson (collapse doc)) = .ok (h.row, h.media) := by
  unfold ingestBody
  split
  · next hin => exact iff_of_false (fun h => nomatch h) fun h => h.1 hin
  · next hin =>
    rw [and_iff_right hin]
    constructor
    · intro hreply
      split at hreply
      · cases hreply
      · next doc hloads =>
        split at hreply
        · cases hreply
        · next rows hrows =>
          cases hreply
          exact ⟨doc, hloads, rfl, hrows⟩
    · rintro ⟨doc, hloads, hpayload, hrows⟩
      rw [hloads]
      dsimp only
      rw [hrows, ← hpayload]

theorem every_storableText (v : Doc) : every storableText isFinite v =
    (! anyNul (strings v) && every paired isFinite v) := by
  rw [← every_noNul]
  exact @every_and noNul paired anyFloat isFinite v

/-- The columns hold what the payload holds. -/
theorem storable_iff (hrepr : ∀ v, nulFree (py.repr v) = true) {h : Handed}
    (hrows : mapPush py (toJson h.payload) = .ok (h.row, h.media)) :
    h.storable = true ↔ every storableText isFinite h.payload = true := by
  refine ⟨fun hstorable => (Bool.and_eq_true_iff.mp hstorable).2, fun hpayload => ?_⟩
  have hjson : everyJson nulFree isFinite (toJson h.payload) = true :=
    everyJson_toJson (fun s hs => nulFree_asString (Bool.and_eq_true_iff.mp hs).1) _ hpayload
  obtain ⟨call, summary, hcall, hrow⟩ := callRow_eq_ok (mapPush_eq_ok hrows).1
  have hmembers := every_callOf hcall hjson
  have hdirection : ((callColumns py call summary).mediaDirection.getD []).all
      (fun m => nulFree m.1 && nulFree m.2) = true :=
    nulFree_direction hrepr (everyJson_field (every_obj (everyJson_field hmembers "details")) _)
  rw [Handed.storable, hrow, nulFree_columns hrepr hmembers, hdirection, every_dtmfEvents hmembers,
    hpayload]
  rfl

/-- The bytes tell what the text says, and a payload that is mapped has neither a surrogate nor a
number that is not finite. -/
theorem guarded_iff (hrepr : ∀ v, nulFree (py.repr v) = true) (body : List UInt8) :
    Guarded py floatOf maxDepth body ↔
      (nulEscape <:+: body ↔ EscapesNul floatOf maxDepth body) ∧
        (¬ nulEscape <:+: body → ∀ doc rows, loads floatOf maxDepth body = some doc →
          mapPush py (toJson (collapse doc)) = .ok rows →
            every paired isFinite (collapse doc) = true) := by
  rw [Guarded, ingestBody_eq_nulCharacter, ← escapesNul_iff, and_comm]
  refine and_congr_right fun hbytes => ?_
  constructor
  · intro hstored hin doc rows hloads hrows
    have hhanded := hstored ⟨rows.1, rows.2, collapse doc⟩
      (ingestBody_eq_handed.mpr ⟨hin, doc, hloads, rfl, hrows⟩)
    rw [storable_iff hrepr hrows, every_storableText, Bool.and_eq_true] at hhanded
    exact hhanded.2
  · intro hplain h hreply
    obtain ⟨hin, doc, hloads, hpayload, hrows⟩ := ingestBody_eq_handed.mp hreply
    have hnul : every noNul anyFloat doc = true := by
      rw [every_noNul, Bool.not_eq_true', Bool.eq_false_iff]
      exact fun hnul => hin (hbytes.mpr (escapesNul_iff.mpr ⟨doc, hloads, hnul⟩))
    rw [← hpayload] at hrows
    rw [storable_iff hrepr hrows, every_storableText, hpayload, ← every_noNul,
      every_collapse doc hnul, Bool.true_and]
    exact hplain hin doc _ hloads (hpayload ▸ hrows)

end Handing

def bytes (s : String) : List UInt8 := s.toList.map fun c => c.toNat.toUInt8

def plainCall : String := "\x7b\"call\":\x7b\"details\":\x7b\"callId\":\"a\"\x7d\x7d\x7d"

theorem plainCall_guarded : Guarded oneDate (fun _ => .finite 0) 1000 (bytes plainCall) := by
  have hdoc : (loads (fun _ => .finite 0) 1000 (bytes plainCall)).all (fun doc =>
      ! anyNul (strings doc) && every paired isFinite (collapse doc)) = true := by decide +kernel
  have hall := (Option.all_eq_true _ _).mp hdoc
  refine (guarded_iff (fun _ => show nulFree "\x7b\x7d" = true by decide) _).mpr ⟨?_, ?_⟩
  · refine iff_of_false (by decide +kernel) fun hescapes => ?_
    obtain ⟨doc, hloads, hnul⟩ := escapesNul_iff.mp hescapes
    have hfree := (Bool.and_eq_true_iff.mp (hall doc hloads)).1
    rw [hnul] at hfree
    cases hfree
  · exact fun _ doc rows hloads _ => (Bool.and_eq_true_iff.mp (hall doc hloads)).2

/-- UTF-16, the least significant byte first, of characters below 256. -/
def utf16 (s : String) : List UInt8 := s.toList.flatMap fun c => [c.toNat.toUInt8, 0]

def nulCall : String :=
  "\x7b\"call\":\x7b\"details\":\x7b\"callId\":\"\\u0000\"\x7d\x7d\x7d"

/-- The six characters of the escape are twelve bytes, and the six are not among them. -/
theorem utf16_nulCall_unguarded :
    ¬ Guarded oneDate (fun _ => .finite 0) 1000 (utf16 nulCall) := by
  intro h
  have hdoc : (loads (fun _ => .finite 0) 1000 (utf16 nulCall)).any
      (fun doc => anyNul (strings doc)) = true := by decide +kernel
  obtain ⟨doc, hloads, hnul⟩ := (Option.any_eq_true _ _).mp hdoc
  have hbytes := ingestBody_eq_nulCharacter.mp (h.2.mpr ⟨doc, hloads, hnul⟩)
  exact absurd hbytes (by decide +kernel)

end StoredBodies
