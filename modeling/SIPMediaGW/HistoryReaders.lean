import SIPMediaGW.DisplayNameCodec
import SIPMediaGW.HistoryAcceptance
import SIPMediaGW.JsonDumps
import SIPMediaGW.LineTexts

/-! # Two readers of the history file

`appendHistory` writes a line for each record. The launcher reads them for the status of a
gateway, the log parser for the payload of a call. -/
namespace HistoryReaders

open DisplayNameCodec
open FieldMap
open HistoryAcceptance
open HistoryPayload
open IngestMapping hiding text direction
open JsonDumps
open JsonTexts
open LineTexts
open PythonJson

/-- A call of `appendHistory`. No object stands for one that is not written: a text with a lone
surrogate, which the file refuses, or an int that `json.dumps` refuses. -/
structure Append where
  recordType : String
  noColon : ':' ∉ recordType.toList
  recordObj : Option Dict
  writable : ∀ d ∈ recordObj, Writable (.obj d)

def recordText (f : FloatTexts) (r : Entry) : List Char :=
  r.1.toList ++ ':' :: dumps f (.obj r.2)

def appendHistory (f : FloatTexts) (file : List Char) (a : Append) : List Char :=
  match a.recordObj with
  | some d => file ++ (recordText f (a.recordType, d) ++ ['\n'])
  | none => file

/-- What the start script writes: one line that names the application. -/
structure MainApp where
  value : List Char
  line : '\n' ∉ value ∧ '\r' ∉ value

def openingLines (app : Option MainApp) : List (List Char) :=
  (app.map fun app => "main_app:".toList ++ app.value).toList

/-- The file after some calls, from an empty one or from that line. -/
def written (f : FloatTexts) (app : Option MainApp) (as : List Append) : List Char :=
  as.foldl (appendHistory f) (joined (openingLines app))

/-- `key, value = line.split(':', 1)`, both stripped; a value that is not JSON is its text. -/
def parseLine (floatOf : List Char → PyFloat) (line : List Char) : Option (String × Json) :=
  let line := stripChars isSpace line
  if ':' ∈ line then
    let key := stripChars isSpace (line.takeWhile (· ≠ ':'))
    let value := stripChars isSpace ((line.dropWhile (· ≠ ':')).drop 1)
    some (String.ofList key, (loads floatOf true value).getD (.str (String.ofList value)))
  else none

/-- `result.setdefault(key, []).append(parsed)`. -/
def collect (result : List (String × List Json)) (r : String × Json) :
    List (String × List Json) :=
  put result r.1 ((result.lookup r.1).getD [] ++ [r.2])

def parseHistoryFile (floatOf : List Char → PyFloat) (text : List Char) :
    List (String × List Json) :=
  ((textLines text).filterMap (parseLine floatOf)).foldl collect []

inductive StatusError where
  | keyError
  | typeError
  | attributeError

/-- The part of the status that the history gives. -/
structure Status where
  browsing : Json
  room : Json
  peerUri : Json
  peerName : String
  callStarted : Json

def peerName (raw : Json) : Except StatusError String :=
  if truthy raw then
    match raw with
    | .str s => .ok (String.ofList (parseDisplayName s.toList))
    | _ => .error .attributeError
  else .ok ""

/-- `history[key][-1]['value']` where the key is there. -/
def lastValue (history : List (String × List Json)) (key : String) : Except StatusError Json :=
  match (history.lookup key).bind List.getLast? with
  | none => .ok (.str "")
  | some (.obj d) =>
    match d.lookup "value" with
    | some v => .ok v
    | none => .error .keyError
  | some _ => .error .typeError

/-- `history['call_start'][-1]`, if it is an object. -/
def lastCall (history : List (String × List Json)) : Dict :=
  match (history.lookup "call_start").bind List.getLast? with
  | some (.obj call) => call
  | _ => []

/-- What is reported under a key: only a gateway that has started shows it. -/
def shown (history : List (String × List Json)) (key : String) : Except StatusError Json :=
  if (history.lookup "gw_start").isSome then lastValue history key else .ok (.str "")

def getStatus (history : List (String × List Json)) : Except StatusError Status := do
  let call := lastCall history
  let name ← peerName (field call "peerDisplayName")
  let room ← shown history "room"
  let browsing ← shown history "browsing"
  .ok
    { browsing := browsing
      room := room
      peerUri := orElse (field call "sourceURI") (.str "")
      peerName := name
      callStarted := orElse (field call "timestamp") (.str "") }

/-- What `buildPayloadFromLines` makes of a line. -/
def historyLine (floatOf : List Char → PyFloat) (line : List Char) : HistoryLine :=
  let line := stripChars isSpace line
  if ':' ∈ line then
    let recordType := String.ofList (stripChars isSpace (line.takeWhile (· ≠ ':')))
    let recordPayload := (line.dropWhile (· ≠ ':')).drop 1
    if recordType = "main_app" then .mainApp (String.ofList recordPayload)
    else
      match loads floatOf true recordPayload with
      | some v => .record recordType v
      | none => .unreadable
  else .unreadable

/-- The log parser and the launcher tell the same room and platform. -/
def Agree (f : FloatTexts) (env : Environment) (text : List Char) : Prop :=
  ∃ status payload, getStatus (parseHistoryFile f.floatOf text) = .ok status ∧
    buildPayloadFromLines env ((textLines text).map (historyLine f.floatOf)) = .ok payload ∧
    status.room = field payload "room" ∧ status.browsing = field payload "browsing"

/-- The values read under a key. -/
def valuesOf (key : String) (rs : List (String × Json)) : List Json :=
  (rs.filter fun r => decide (r.1 = key)).map Prod.snd

/-- What the launcher reads of the line of the start script. -/
def opened (floatOf : List Char → PyFloat) (app : Option MainApp) : List (String × Json) :=
  (openingLines app).filterMap (parseLine floatOf)

/-- The records come back under their types, in order and after the line of the start script, and
the two readers agree once the gateway has started. -/
structure RoundTrips (f : FloatTexts) (env : Environment) (app : Option MainApp)
    (as : List Append) : Prop where
  objects : ∀ recordType,
    (((parseHistoryFile f.floatOf (written f app as)).lookup recordType).getD []).map some =
      (valuesOf recordType (opened f.floatOf app)).map some ++
        (as.filter fun a => decide (a.recordType = recordType)).map fun a =>
          a.recordObj.map Json.obj
  agree : (∃ a ∈ as, a.recordType = "gw_start") → Agree f env (written f app as)

/-- A type that is a line without blanks at its ends, and an object that is written. -/
structure Append.Kept (a : Append) : Prop where
  trimmed : stripChars isSpace a.recordType.toList = a.recordType.toList
  line : '\n' ∉ a.recordType.toList ∧ '\r' ∉ a.recordType.toList
  written : a.recordObj.isSome = true

def entries (as : List Append) : List Entry :=
  as.filterMap fun a => a.recordObj.map fun d => (a.recordType, d)

/-- The last record of a type has a text without blanks at its ends as its value. -/
def Shown (recordType : String) (rs : List Entry) : Prop :=
  ∀ d, lastOf recordType rs = some d → ∃ s, field d "value" = .str s ∧ strip s = s

/-- No reader raises, and nothing is left to strip. -/
structure Consistent (env : Environment) (rs : List Entry) : Prop where
  builds : Builds env rs
  name : ∀ d, lastOf "call_start" rs = some d → Texted (field d "peerDisplayName")
  room : Shown "room" rs
  browsing : Shown "browsing" rs

section Lines

variable {f : FloatTexts} {app : Option MainApp} {a : Append} {as : List Append}

theorem written_eq (f : FloatTexts) (app : Option MainApp) (as : List Append) :
    written f app as = joined (openingLines app ++ (entries as).map (recordText f)) := by
  induction as using List.reverseRecOn with
  | nil =>
    rw [entries, List.filterMap_nil, List.map_nil, List.append_nil]
    rfl
  | append_singleton as a ih =>
    have hwritten : written f app (as ++ [a]) = appendHistory f (written f app as) a := by
      rw [written, List.foldl_append]
      rfl
    have hentries : entries (as ++ [a]) = entries as ++ entries [a] := List.filterMap_append
    rw [hwritten, hentries, List.map_append, ← List.append_assoc, joined, List.flatMap_append,
      ← joined, ← ih]
    unfold appendHistory
    cases h : a.recordObj <;> simp [entries, h]

/-- The entry of a record that is kept. -/
theorem mem_entries {r : Entry} (h : r ∈ entries as) :
    ∃ a ∈ as, a.recordType = r.1 ∧ a.recordObj = some r.2 := by
  obtain ⟨a, ha, hr⟩ := List.mem_filterMap.mp h
  obtain ⟨d, hd, rfl⟩ := Option.map_eq_some_iff.mp hr
  exact ⟨a, ha, rfl, hd⟩

/-- The text of a record that is kept, as a line. -/
structure Framed (f : FloatTexts) (r : Entry) : Prop where
  trimmed : stripChars isSpace r.1.toList = r.1.toList
  noColon : ':' ∉ r.1.toList
  line : '\n' ∉ recordText f r ∧ '\r' ∉ recordText f r
  writable : Writable (.obj r.2)

theorem framed_of_kept (f : FloatTexts) (hkept : ∀ a ∈ as, a.Kept) {r : Entry}
    (h : r ∈ entries as) : Framed f r := by
  obtain ⟨a, ha, htype, hobj⟩ := mem_entries h
  have hk := hkept a ha
  have hwritable := a.writable r.2 hobj
  have hvisible (c : Char) (hc : c.toNat < 32) (htypeLine : c ∉ r.1.toList) :
      c ∉ recordText f r := by
    intro hmem
    rcases List.mem_append.mp hmem with hmem | hmem
    · exact htypeLine hmem
    · rcases List.mem_cons.mp hmem with rfl | hmem
      · exact absurd hc (by decide)
      · exact absurd (visible_dumps _ c hmem) (not_le.mpr hc)
  refine ⟨htype ▸ hk.trimmed, htype ▸ a.noColon, ⟨?_, ?_⟩, hwritable⟩
  · exact hvisible '\n' (by decide) (htype ▸ hk.line.1)
  · exact hvisible '\r' (by decide) (htype ▸ hk.line.2)

theorem textLines_written (hkept : ∀ a ∈ as, a.Kept) : textLines (written f app as) =
    openingLines app ++ (entries as).map (recordText f) ++ [[]] := by
  rw [written_eq]
  refine textLines_joined fun l hl => ?_
  rcases List.mem_append.mp hl with hl | hl
  · rw [openingLines, Option.mem_toList, Option.map_eq_some_iff] at hl
    obtain ⟨app, -, rfl⟩ := hl
    have hmain : ∀ c ∈ "main_app:".toList, c ≠ '\n' ∧ c ≠ '\r' := by simp
    constructor
    · intro hmem
      exact (List.mem_append.mp hmem).elim (fun h => (hmain _ h).1 rfl) app.line.1
    · intro hmem
      exact (List.mem_append.mp hmem).elim (fun h => (hmain _ h).2 rfl) app.line.2
  · obtain ⟨r, hr, rfl⟩ := List.mem_map.mp hl
    exact (framed_of_kept f hkept hr).line

/-- Blanks go at the end of a value. -/
theorem strip_opening (value : List Char) : ∃ rest,
    stripChars isSpace ("main_app:".toList ++ value) = "main_app:".toList ++ rest := by
  have hfront : ("main_app:".toList ++ value).dropWhile isSpace = "main_app:".toList ++ value := by
    simp [isSpace]
  have hlast : "main_app:".toList.reverse.dropWhile isSpace = "main_app:".toList.reverse := by
    decide
  rw [stripChars, hfront, List.rdropWhile, List.reverse_append, List.dropWhile_append]
  split
  · exact ⟨[], by rw [hlast, List.reverse_reverse, List.append_nil]⟩
  · exact ⟨_, by rw [List.reverse_append, List.reverse_reverse]⟩

theorem takeWhile_opening (rest : List Char) :
    ("main_app:".toList ++ rest).takeWhile (· ≠ ':') = "main_app".toList := by
  simp

theorem strip_main_app : stripChars isSpace "main_app".toList = "main_app".toList := by decide

/-- The launcher reads the line of the start script under its key. -/
theorem key_opened {floatOf : List Char → PyFloat} {r : String × Json}
    (h : r ∈ opened floatOf app) : r.1 = "main_app" := by
  obtain ⟨line, hline, hparse⟩ := List.mem_filterMap.mp h
  rw [openingLines, Option.mem_toList, Option.map_eq_some_iff] at hline
  obtain ⟨app, -, rfl⟩ := hline
  obtain ⟨rest, hrest⟩ := strip_opening app.value
  rw [parseLine, hrest] at hparse
  dsimp only at hparse
  rw [if_pos (List.mem_append_left _ (by simp)), takeWhile_opening, strip_main_app] at hparse
  obtain rfl := Option.some.inj hparse
  rfl

theorem historyLine_opening (floatOf : List Char → PyFloat) (value : List Char) :
    ∃ text, historyLine floatOf ("main_app:".toList ++ value) = .mainApp text := by
  obtain ⟨rest, hrest⟩ := strip_opening value
  rw [historyLine, hrest]
  dsimp only
  rw [if_pos (List.mem_append_left _ (by simp)), takeWhile_opening, strip_main_app]
  exact ⟨_, if_pos rfl⟩

theorem colon_mem_recordText (f : FloatTexts) (r : Entry) : ':' ∈ recordText f r :=
  List.mem_append_right _ List.mem_cons_self

section Framed

variable {r : Entry} (h : Framed f r)

include h

/-- The line of a record has no blanks at its ends. -/
theorem Framed.strip_line : stripChars isSpace (recordText f r) = recordText f r := by
  refine stripChars_eq_self fun hne => ⟨?_, ?_⟩
  · cases htype : r.1.toList with
    | nil => simp [recordText, htype, isSpace]
    | cons c cs =>
      have htrimmed : stripChars isSpace (c :: cs) = c :: cs := htype ▸ h.trimmed
      have hends := ends_stripChars (htrimmed ▸ List.cons_ne_nil c cs)
      simp only [htrimmed, List.head_cons] at hends
      simpa [recordText, htype] using hends.1
  · obtain ⟨cs, hcs⟩ := dumps_obj f r.2
    have hlast : recordText f r = (r.1.toList ++ ':' :: '{' :: cs) ++ ['}'] := by
      simp [recordText, hcs]
    simp only [hlast, List.getLast_append_singleton]
    decide

theorem Framed.parts : (recordText f r).takeWhile (· ≠ ':') = r.1.toList ∧
    (recordText f r).dropWhile (· ≠ ':') = ':' :: dumps f (.obj r.2) := by
  have hall : ∀ c ∈ r.1.toList, decide (c ≠ ':') = true :=
    fun c hc => decide_eq_true fun heq => h.noColon (heq ▸ hc)
  constructor
  · rw [recordText, List.takeWhile_append_of_pos hall]
    simp
  · rw [recordText, List.dropWhile_append_of_pos hall]
    simp

theorem Framed.key_eq :
    String.ofList (stripChars isSpace ((recordText f r).takeWhile (· ≠ ':'))) = r.1 := by
  rw [h.parts.1, h.trimmed, String.ofList_toList]

theorem Framed.parseLine_eq :
    parseLine f.floatOf (recordText f r) = some (r.1, .obj r.2) := by
  have hvalue : stripChars isSpace (dumps f (.obj r.2)) = dumps f (.obj r.2) := by
    obtain ⟨cs, hcs⟩ := dumps_obj f r.2
    rw [hcs]
    refine stripChars_eq_self fun hne => ⟨by simp [isSpace], ?_⟩
    simp only [List.getLast_append_singleton]
    decide
  rw [parseLine]
  simp only [h.strip_line, if_pos (colon_mem_recordText f r), h.key_eq, h.parts.2,
    List.drop_succ_cons, List.drop_zero, hvalue, loads_dumps h.writable, Option.getD_some]

theorem Framed.historyLine_eq : Written (historyLine f.floatOf (recordText f r)) r := by
  rw [historyLine]
  simp only [h.strip_line, if_pos (colon_mem_recordText f r), h.key_eq, h.parts.2,
    List.drop_succ_cons, List.drop_zero, loads_dumps h.writable]
  split
  · next hmain =>
    obtain ⟨recordType, d⟩ := r
    obtain rfl : recordType = "main_app" := hmain
    exact .mainApp _ d
  · next hother => exact .record r hother

end Framed

/-- A key is a line without blanks at its ends, whatever was written. -/
theorem key_trimmed {floatOf : List Char → PyFloat} {text line : List Char} {r : String × Json}
    (hline : line ∈ textLines text) (h : parseLine floatOf line = some r) :
    stripChars isSpace r.1.toList = r.1.toList ∧ '\n' ∉ r.1.toList ∧ '\r' ∉ r.1.toList := by
  unfold parseLine at h
  dsimp only at h
  split at h
  · obtain rfl := Option.some.inj h
    have hmem {c : Char} (hc : c ∈ stripChars isSpace
        ((stripChars isSpace line).takeWhile (· ≠ ':'))) : c ∈ line :=
      mem_of_mem_stripChars ((List.takeWhile_sublist _).subset (mem_of_mem_stripChars hc))
    obtain ⟨hfeed, hreturn⟩ := mem_textLines hline
    rw [String.toList_ofList]
    exact ⟨stripChars_stripChars _ _, fun hc => hfeed (hmem hc), fun hc => hreturn (hmem hc)⟩
  · cases h

end Lines

theorem lookup_collect (rs : List (String × Json)) (key : String) :
    (rs.foldl collect []).lookup key =
      if valuesOf key rs = [] then none else some (valuesOf key rs) := by
  induction rs using List.reverseRecOn with
  | nil => rfl
  | append_singleton rs r ih =>
    have hvalues : valuesOf key (rs ++ [r]) =
        valuesOf key rs ++ if r.1 = key then [r.2] else [] := by
      rw [valuesOf, List.filter_append, List.map_append, ← valuesOf]
      by_cases h : r.1 = key <;> simp [h]
    rw [List.foldl_append, List.foldl_cons, List.foldl_nil, collect, lookup_put, hvalues]
    by_cases h : r.1 = key
    · subst h
      have hne : valuesOf r.1 rs ++ [r.2] ≠ [] := List.append_ne_nil_of_right_ne_nil _ (by simp)
      rw [if_pos rfl, if_pos rfl, if_neg hne, ih]
      split
      · next hnil => rw [hnil, Option.getD_none]
      · rw [Option.getD_some]
    · rw [if_neg (Ne.symm h), if_neg h, List.append_nil, ih]

section History

variable {f : FloatTexts} {app : Option MainApp} {as : List Append} {key : String}

/-- The values of a key are those read under it, of any text. -/
theorem history_values (floatOf : List Char → PyFloat) (text : List Char) (key : String) :
    ((parseHistoryFile floatOf text).lookup key).getD [] =
      valuesOf key ((textLines text).filterMap (parseLine floatOf)) := by
  rw [parseHistoryFile, lookup_collect]
  split
  · next hnil => rw [hnil, Option.getD_none]
  · rw [Option.getD_some]

theorem parsed_written (hkept : ∀ a ∈ as, a.Kept) :
    (textLines (written f app as)).filterMap (parseLine f.floatOf) =
      opened f.floatOf app ++ (entries as).map fun r => (r.1, Json.obj r.2) := by
  rw [textLines_written hkept, List.filterMap_append, List.filterMap_append, List.filterMap_map]
  have hempty : [([] : List Char)].filterMap (parseLine f.floatOf) = [] := rfl
  rw [hempty, List.append_nil, ← List.filterMap_eq_map]
  exact congrArg (opened f.floatOf app ++ ·)
    (List.filterMap_congr fun r hr => (framed_of_kept f hkept hr).parseLine_eq)

theorem valuesOf_append (key : String) (rs rs' : List (String × Json)) :
    valuesOf key (rs ++ rs') = valuesOf key rs ++ valuesOf key rs' := by
  rw [valuesOf, List.filter_append, List.map_append, ← valuesOf, ← valuesOf]

theorem valuesOf_opened (floatOf : List Char → PyFloat) (hkey : key ≠ "main_app") :
    valuesOf key (opened floatOf app) = [] := by
  rw [valuesOf, List.map_eq_nil_iff, List.filter_eq_nil_iff]
  intro r hr heq
  exact hkey ((of_decide_eq_true heq).symm.trans (key_opened hr))

theorem valuesOf_entries (key : String) (rs : List Entry) :
    valuesOf key (rs.map fun r => (r.1, Json.obj r.2)) =
      ((rs.filter fun r => decide (r.1 = key)).map Prod.snd).map Json.obj := by
  rw [valuesOf, List.filter_map, List.map_map, List.map_map]
  rfl

theorem lookup_history (hkept : ∀ a ∈ as, a.Kept) (hkey : key ≠ "main_app") :
    (parseHistoryFile f.floatOf (written f app as)).lookup key =
      if ((entries as).filter fun r => decide (r.1 = key)) = [] then none
      else some (((entries as).filter fun r => decide (r.1 = key)).map fun r => .obj r.2) := by
  rw [parseHistoryFile, lookup_collect, parsed_written hkept, valuesOf_append,
    valuesOf_opened _ hkey, List.nil_append, valuesOf_entries, List.map_map]
  simp only [List.map_eq_nil_iff]
  rfl

/-- The last value of a key is that of its last record. -/
theorem last_history (hkept : ∀ a ∈ as, a.Kept) (hkey : key ≠ "main_app") :
    ((parseHistoryFile f.floatOf (written f app as)).lookup key).bind List.getLast? =
      (lastOf key (entries as)).map Json.obj := by
  rw [lookup_history hkept hkey, lastOf, ← List.getLast?_map, List.map_map]
  split
  · next hnil =>
    rw [hnil]
    rfl
  · rfl

theorem isSome_history (hkept : ∀ a ∈ as, a.Kept) (hkey : key ≠ "main_app")
    (h : ∃ a ∈ as, a.recordType = key) :
    ((parseHistoryFile f.floatOf (written f app as)).lookup key).isSome = true := by
  obtain ⟨a, ha, rfl⟩ := h
  obtain ⟨d, hd⟩ := Option.isSome_iff_exists.mp (hkept a ha).written
  have hmem : (a.recordType, d) ∈
      (entries as).filter fun r => decide (r.1 = a.recordType) := by
    refine List.mem_filter.mpr ⟨List.mem_filterMap.mpr ⟨a, ha, ?_⟩, by simp⟩
    rw [hd]
    rfl
  rw [lookup_history hkept hkey, if_neg (List.ne_nil_of_mem hmem)]
  rfl

/-- The objects of the calls of a type are those of its entries. -/
theorem objects_entries (hkept : ∀ a ∈ as, a.Kept) (key : String) :
    (((entries as).filter fun r => decide (r.1 = key)).map fun r => some (Json.obj r.2)) =
      (as.filter fun a => decide (a.recordType = key)).map fun a => a.recordObj.map Json.obj := by
  induction as with
  | nil => rfl
  | cons a as ih =>
    obtain ⟨hk, hkept⟩ := List.forall_mem_cons.mp hkept
    obtain ⟨d, hd⟩ := Option.isSome_iff_exists.mp hk.written
    have hentries : entries (a :: as) = (a.recordType, d) :: entries as := by
      simp [entries, hd]
    rw [hentries, List.filter_cons, List.filter_cons]
    by_cases htype : a.recordType = key
    · simp only [htype, decide_true, if_true, List.map_cons, hd, Option.map_some]
      rw [ih hkept]
    · simp only [htype, decide_false, Bool.false_eq_true, if_false]
      exact ih hkept

theorem objects_of_kept (hkept : ∀ a ∈ as, a.Kept) (recordType : String) :
    (((parseHistoryFile f.floatOf (written f app as)).lookup recordType).getD []).map some =
      (valuesOf recordType (opened f.floatOf app)).map some ++
        (as.filter fun a => decide (a.recordType = recordType)).map fun a =>
          a.recordObj.map Json.obj := by
  rw [history_values, parsed_written hkept, valuesOf_append, List.map_append, valuesOf_entries,
    ← objects_entries hkept, List.map_map, List.map_map]
  rfl

/-- Where the records come back they are kept: no other key is read, and no other value. -/
theorem kept_of_objects (h : ∀ recordType,
    (((parseHistoryFile f.floatOf (written f app as)).lookup recordType).getD []).map some =
      (valuesOf recordType (opened f.floatOf app)).map some ++
        (as.filter fun a => decide (a.recordType = recordType)).map fun a =>
          a.recordObj.map Json.obj) : ∀ a ∈ as, a.Kept := by
  intro a ha
  have hmem : a.recordObj.map Json.obj ∈
      (valuesOf a.recordType (opened f.floatOf app)).map some ++
        (as.filter fun b => decide (b.recordType = a.recordType)).map fun b =>
          b.recordObj.map Json.obj :=
    List.mem_append_right _ (List.mem_map_of_mem (List.mem_filter.mpr ⟨ha, decide_eq_true rfl⟩))
  rw [← h, history_values] at hmem
  obtain ⟨v, hv, hobj⟩ := List.mem_map.mp hmem
  obtain ⟨r, hr, rfl⟩ := List.mem_map.mp hv
  obtain ⟨hparsed, htype⟩ := List.mem_filter.mp hr
  obtain ⟨line, hline, hparse⟩ := List.mem_filterMap.mp hparsed
  obtain ⟨htrimmed, hfeed, hreturn⟩ := key_trimmed hline hparse
  rw [of_decide_eq_true htype] at htrimmed hfeed hreturn
  refine ⟨htrimmed, ⟨hfeed, hreturn⟩, ?_⟩
  have hsome := congrArg Option.isSome hobj
  rw [Option.isSome_map] at hsome
  exact hsome.symm

end History

section Reports

variable {f : FloatTexts} {env : Environment} {app : Option MainApp} {as : List Append}
  {rs : List Entry} {history : List (String × List Json)} {key : String}

/-- The line of the start script as an entry. -/
def openingEntries (app : Option MainApp) : List Entry := (app.map fun _ => ("main_app", [])).toList

theorem builds_opening : Builds env (openingEntries app ++ rs) ↔ Builds env rs := by
  cases app with
  | none => rfl
  | some app => exact and_congr_left fun _ => and_iff_right nofun

theorem lastOf_opening (hkey : key ≠ "main_app") :
    lastOf key (openingEntries app ++ rs) = lastOf key rs := by
  cases app with
  | none => rfl
  | some app =>
    have hcons : openingEntries (some app) ++ rs = ("main_app", []) :: rs := rfl
    rw [hcons, lastOf_cons, if_neg (Ne.symm hkey), Option.or_none]

theorem written_lines (hkept : ∀ a ∈ as, a.Kept) :
    ∃ lines, List.Forall₂ Written lines (openingEntries app ++ entries as) ∧
      (textLines (written f app as)).map (historyLine f.floatOf) = lines ++ [.unreadable] := by
  refine ⟨(openingLines app ++ (entries as).map (recordText f)).map (historyLine f.floatOf),
    ?_, ?_⟩
  · rw [List.map_append, List.map_map]
    refine List.rel_append ?_ ?_
    · cases app with
      | none => exact .nil
      | some app =>
        obtain ⟨text, htext⟩ := historyLine_opening f.floatOf app.value
        refine .cons ?_ .nil
        rw [htext]
        exact .mainApp text []
    · rw [List.forall₂_map_left_iff, List.forall₂_same]
      exact fun r hr => (framed_of_kept f hkept hr).historyLine_eq
  · rw [textLines_written hkept, List.map_append]
    rfl

/-- A line that is not read at the end changes nothing. -/
theorem readLines_unreadable (b : Building) (lines : List HistoryLine) :
    readLines b (lines ++ [.unreadable]) = readLines b lines := by
  induction lines generalizing b with
  | nil => rfl
  | cons line lines ih =>
    rw [List.cons_append, readLines, readLines]
    exact congrArg _ (funext fun b' => ih b')

theorem buildPayload_unreadable (lines : List HistoryLine) :
    buildPayloadFromLines env (lines ++ [.unreadable]) = buildPayloadFromLines env lines := by
  rw [buildPayloadFromLines, readLines_unreadable, ← buildPayloadFromLines]

theorem textOf_of_str {d : Dict} {s : String} (h : field d "value" = .str s) :
    textOf d = strip s := by
  rw [textOf, h, stripped]
  by_cases hs : s = ""
  · subst hs
    rfl
  · have ht : truthy (.str s) = true := by simpa [truthy] using hs
    rw [if_pos ht]
    rfl

/-- The log parser strips the value that the launcher reports. -/
theorem value_eq_textOf_iff {d : Dict} :
    field d "value" = .str (textOf d) ↔ ∃ s, field d "value" = .str s ∧ strip s = s := by
  constructor
  · intro h
    exact ⟨_, h, (textOf_of_str h).symm⟩
  · rintro ⟨s, h, hs⟩
    rw [textOf_of_str h, hs, h]

theorem lastValue_eq_iff
    (hlast : (history.lookup key).bind List.getLast? = (lastOf key rs).map Json.obj) :
    lastValue history key = .ok (.str (((lastOf key rs).map textOf).getD "")) ↔
      Shown key rs := by
  rw [lastValue, hlast]
  cases hd : lastOf key rs with
  | none =>
    refine iff_of_true rfl fun d h => ?_
    rw [hd] at h
    cases h
  | some d =>
    have hshown : Shown key rs ↔ ∃ s, field d "value" = .str s ∧ strip s = s := by
      simp [Shown, hd]
    rw [hshown, ← value_eq_textOf_iff]
    simp only [Option.map_some, Option.getD_some]
    cases hv : d.lookup "value" with
    | none => simp [field, hv]
    | some v => simp [field, hv]

theorem peerName_eq_ok_iff {v : Json} : (∃ s, peerName v = .ok s) ↔ Texted v := by
  unfold peerName Texted
  by_cases ht : truthy v = true
  · rw [if_pos ht]
    cases v <;> simp [ht]
  · simp [ht]

/-- The status of a gateway that has started. -/
theorem getStatus_eq_ok_iff (hstart : (history.lookup "gw_start").isSome = true)
    (hlast : (history.lookup "call_start").bind List.getLast? =
      (lastOf "call_start" rs).map Json.obj) {room browsing : Json} :
    (∃ status, getStatus history = .ok status ∧ status.room = room ∧
        status.browsing = browsing) ↔
      (∀ d, lastOf "call_start" rs = some d → Texted (field d "peerDisplayName")) ∧
        lastValue history "room" = .ok room ∧ lastValue history "browsing" = .ok browsing := by
  have hname : (∀ d, lastOf "call_start" rs = some d → Texted (field d "peerDisplayName")) ↔
      ∃ name, peerName (field (lastCall history) "peerDisplayName") = .ok name := by
    rw [peerName_eq_ok_iff, lastCall, hlast]
    cases lastOf "call_start" rs with
    | none => exact iff_of_true nofun nofun
    | some d => simp
  have hshown (key : String) : shown history key = lastValue history key := if_pos hstart
  rw [hname, ← hshown, ← hshown]
  constructor
  · rintro ⟨status, hstatus, rfl, rfl⟩
    obtain ⟨name, hpeer, hstatus⟩ := bind_eq_ok hstatus
    obtain ⟨room, hroom, hstatus⟩ := bind_eq_ok hstatus
    obtain ⟨browsing, hbrowsing, hstatus⟩ := bind_eq_ok hstatus
    obtain rfl := Except.ok.inj hstatus
    exact ⟨⟨name, hpeer⟩, hroom, hbrowsing⟩
  · rintro ⟨⟨name, hpeer⟩, hroom, hbrowsing⟩
    have hstatus : getStatus history = .ok
        { browsing := browsing
          room := room
          peerUri := orElse (field (lastCall history) "sourceURI") (.str "")
          peerName := name
          callStarted := orElse (field (lastCall history) "timestamp") (.str "") } := by
      rw [getStatus]
      simp only [hpeer, hroom, hbrowsing]
      rfl
    exact ⟨_, hstatus, rfl, rfl⟩

theorem agree_iff (hkept : ∀ a ∈ as, a.Kept) (hstart : ∃ a ∈ as, a.recordType = "gw_start") :
    Agree f env (written f app as) ↔ Consistent env (entries as) := by
  obtain ⟨lines, hlines, htext⟩ := @written_lines f app as hkept
  have hbuilt : buildPayloadFromLines env
      ((textLines (written f app as)).map (historyLine f.floatOf)) =
      buildPayloadFromLines env lines := by
    rw [htext, buildPayload_unreadable]
  have hlast (key : String) (hkey : key ≠ "main_app") := @last_history f app as key hkept hkey
  have hgwStart := @isSome_history f app as "gw_start" hkept (by decide) hstart
  have hstatus := fun room browsing =>
    @getStatus_eq_ok_iff _ _ hgwStart (hlast _ (by decide)) room browsing
  have hroom := lastValue_eq_iff (hlast "room" (by decide))
  have hbrowsing := lastValue_eq_iff (hlast "browsing" (by decide))
  have hbuilds : (∃ payload, buildPayloadFromLines env lines = .ok payload) ↔
      Builds env (entries as) := (buildPayload_eq_ok_iff hlines).trans builds_opening
  rw [Agree, hbuilt]
  constructor
  · rintro ⟨status, payload, hs, hp, hsroom, hsbrowsing⟩
    obtain ⟨hproom, hpbrowsing⟩ := buildPayload_shows hlines hp
    rw [lastOf_opening (by decide)] at hproom hpbrowsing
    obtain ⟨hname, hlroom, hlbrowsing⟩ := (hstatus _ _).mp ⟨status, hs, hsroom, hsbrowsing⟩
    rw [hproom] at hlroom
    rw [hpbrowsing] at hlbrowsing
    exact ⟨hbuilds.mp ⟨payload, hp⟩, hname, hroom.mp hlroom, hbrowsing.mp hlbrowsing⟩
  · intro h
    obtain ⟨payload, hp⟩ := hbuilds.mpr h.builds
    obtain ⟨hproom, hpbrowsing⟩ := buildPayload_shows hlines hp
    rw [lastOf_opening (by decide)] at hproom hpbrowsing
    obtain ⟨status, hs, hsroom, hsbrowsing⟩ := (hstatus _ _).mpr
      ⟨h.name, hroom.mpr h.room, hbrowsing.mpr h.browsing⟩
    exact ⟨status, payload, hs, hp, hsroom.trans hproom.symm, hsbrowsing.trans hpbrowsing.symm⟩

end Reports

/-- The records come back and the readers agree exactly when the types are trimmed lines, the
objects are written and, for a gateway that has started, no reader raises and the last room and
the last platform are texts with nothing to strip. -/
theorem roundTrips_iff (f : FloatTexts) (env : Environment) (app : Option MainApp)
    (as : List Append) : RoundTrips f env app as ↔ (∀ a ∈ as, a.Kept) ∧
      ((∃ a ∈ as, a.recordType = "gw_start") → Consistent env (entries as)) := by
  constructor
  · intro h
    have hkept := kept_of_objects h.objects
    exact ⟨hkept, fun hstart => (agree_iff hkept hstart).mp (h.agree hstart)⟩
  · rintro ⟨hkept, hagree⟩
    exact ⟨objects_of_kept hkept, fun hstart => (agree_iff hkept hstart).mpr (hagree hstart)⟩

theorem noColon_gwStart : ':' ∉ "gw_start".toList := by decide

theorem writable_empty : ∀ d ∈ some ([] : Dict), Writable (.obj d) := by
  rintro d ⟨⟩
  exact .obj List.nodup_nil nofun

def gwStart : Append := ⟨"gw_start", noColon_gwStart, some [], writable_empty⟩

theorem noColon_room : ':' ∉ "room".toList := by decide

theorem writable_room : ∀ d ∈ some [("value", Json.str "lobby ")], Writable (.obj d) := by
  rintro d ⟨⟩
  exact .obj (by decide) (by simp [Writable.str])

/-- A room with a blank behind it. -/
def spacedRoom : Append := ⟨"room", noColon_room, some [("value", .str "lobby ")], writable_room⟩

/-- A URL without escapes. -/
def plainUrls : Environment where
  py := oneDate
  unquote := String.ofList
  bracketedHost _ := true
  composedHost _ := true
  gatewayVersions := []

/-- The launcher reports the room as it was recorded, the log parser without the blank. -/
theorem spaced_room_differs : ¬ ∀ (f : FloatTexts) (env : Environment) (as : List Append),
    RoundTrips f env none as := by
  intro h
  have hkept : ∀ a ∈ [gwStart, spacedRoom], a.Kept := by
    intro a ha
    rcases List.mem_pair.mp ha with rfl | rfl
    · exact ⟨by decide, by decide, rfl⟩
    · exact ⟨by decide, by decide, rfl⟩
  have hagree := (h plainFloats plainUrls [gwStart, spacedRoom]).agree
    ⟨gwStart, List.mem_cons_self, rfl⟩
  obtain ⟨s, hs, hstrip⟩ := ((agree_iff hkept ⟨gwStart, List.mem_cons_self, rfl⟩).mp hagree).room
    [("value", .str "lobby ")] rfl
  obtain rfl := Json.str.inj hs
  revert hstrip
  decide

end HistoryReaders
