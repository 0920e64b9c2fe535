import SIPMediaGW.Binary64
import SIPMediaGW.CallUrl
import SIPMediaGW.JsonDumps
import SIPMediaGW.LikePatterns
import SIPMediaGW.PercentTexts

/-! # Links into Homer

The URL of a search for a call, and what the query in it says to one who decodes it. Instants are
microseconds since the epoch. -/
namespace HomerLinks

open Binary64
open FieldMap
open IngestMapping
open JsonDumps
open JsonTexts
open LikePatterns (replace)
open PercentTexts
open PythonJson
open PythonLiterals (intText)
open Rounding (truncate truncate_eq)
open Utf8Text

inductive FilterValue where
  | scalar (s : String)
  | array (xs : List String)
  deriving DecidableEq

def FilterValue.json : FilterValue → Json
  | .scalar s => .str s
  | .array xs => .arr (xs.map Json.str)

/-- A `dict` of filters. -/
structure Filters where
  entries : List (String × FilterValue)
  nodup : (keys entries).Nodup

def Filters.json (filters : Filters) : Json :=
  .obj (filters.entries.map fun e => (e.1, e.2.json))

/-- `HOMER_BASE`, `HOMER_FLAVOR`, `HOMER_PROFILE` and `HOMER_RETENTION_DAYS`. -/
structure Settings where
  baseUrl : String
  flavor : String
  profile : String
  retentionDays : ℤ

def PRE_SECONDS : ℤ := 60

def POST_SECONDS : ℤ := 60

def FALLBACK_MS : ℤ := 300000

def LIMIT : ℤ := 200

def ESCAPES : List (Char × List Char) :=
  [('%', "%25".toList), ('#', "%23".toList), ('&', "%26".toList), (' ', "%20".toList),
    ('+', "%2B".toList)]

section Urls

variable (f : FloatTexts) (s : Settings) (filters : Filters) (startMs endMs : ℤ)

def query : Dict :=
  [("param", .obj [("search", .obj [(s.profile, filters.json)]), ("limit", .int LIMIT)]),
    ("timestamp", .obj [("from", .int (startMs - PRE_SECONDS * 1000)),
      ("to", .int (endMs + POST_SECONDS * 1000))])]

/-- The replacements of a text, one after the other. -/
def replaceAll (blob : List Char) : List Char :=
  ESCAPES.foldl (fun blob e => replace e.1 e.2 blob) blob

def urlV7 : List Char :=
  s.baseUrl.toList ++ "/search/result?".toList ++
    (replaceAll (compactDumps f (.obj (query s filters startMs endMs))) ++ ['='])

/-- `filters.get("callid") or []`; a text is a sequence of its characters. -/
def callIds : List String :=
  match filters.entries.lookup "callid" with
  | none => []
  | some (.array xs) => xs
  | some (.scalar text) => text.toList.map String.singleton

def urlV11 : Option (List Char) :=
  match callIds filters with
  | [] => none
  | callId :: _ =>
    some (s.baseUrl.toList ++ "/?call_id=".toList ++ (CallUrl.quote callId).toList ++
      "&from=".toList ++ intText (startMs - PRE_SECONDS * 1000) ++
      "&to=".toList ++ intText (endMs + POST_SECONDS * 1000) ++ "#dashboard".toList)

/-- `_BUILDERS.get(flavor)(filters, startMs, endMs)`. -/
def build : Option (List Char) :=
  if s.flavor = "v7" then some (urlV7 f s filters startMs endMs)
  else if s.flavor = "v11" then urlV11 s filters startMs endMs
  else none

end Urls

def secondUs : ℤ := 1000000

def dayUs : ℤ := 86400 * secondUs

/-- A `datetime`: a wall clock of the years 1 to 9999, less than a day from UTC. -/
structure Moment where
  value : Datetime
  fold : Bool
  wall : -62135596800 * secondUs ≤ value.wall ∧ value.wall < 253402300800 * secondUs
  offset : ∀ o, value.utcoffset = some o → |o| < dayUs

/-- The zone of the system, which naive datetimes are in. -/
structure LocalZone where
  offsetAt : ℤ → Bool → ℤ
  offset : ∀ wall fold, |offsetAt wall fold| < dayUs

/-- The instant of `_aware(value)`. -/
def aware (zone : LocalZone) (m : Moment) : ℤ :=
  m.value.wall - m.value.utcoffset.getD (zone.offsetAt m.value.wall m.fold)

/-- `int(value.timestamp() * 1000)`. -/
def epochMs (t : ℤ) : ℤ := truncate (nearest (nearest (t / 1000000) * 1000))

/-- `endMs or (startMs + FALLBACK_MS)`. -/
def orFallback (startMs : ℤ) : Option ℤ → ℤ
  | some endMs => if endMs = 0 then startMs + FALLBACK_MS else endMs
  | none => startMs + FALLBACK_MS

def endMsOf (startMs : ℤ) (callEnd : Option ℤ) : ℤ :=
  let endMs := orFallback startMs (callEnd.map epochMs)
  if endMs < startMs then startMs + FALLBACK_MS else endMs

/-- The capture of a call that has already rotated out. -/
def rotated (s : Settings) (now callStart : ℤ) : Bool :=
  decide (0 < s.retentionDays) && decide (callStart < now - s.retentionDays * dayUs)

section Search

variable (f : FloatTexts) (s : Settings) (zone : LocalZone) (now : ℤ) (filters : Filters)

/-- `none` is a value that is not a datetime. -/
def searchUrl (callStart callEnd : Option Moment) : Option (List Char) :=
  if s.baseUrl = "" ∨ filters.entries = [] then none
  else match callStart with
    | none => none
    | some m =>
      let start := aware zone m
      let startMs := epochMs start
      let endMs := endMsOf startMs (callEnd.map (aware zone))
      if rotated s now start then none else build f s filters startMs endMs

end Search

/-- The query of a link decodes to the filters under the profile, with a range that is
covered. -/
def DeepLink (f : FloatTexts) (s : Settings) (filters : Filters) (Covers : ℤ → ℤ → Prop)
    (url : List Char) : Prop :=
  ∃ query text first last, url = s.baseUrl.toList ++ "/search/result?".toList ++ query ∧
    (∀ c ∈ ['#', '&', '+', ' '], c ∉ query) ∧ query.getLast? = some '=' ∧
    percentDecode query.dropLast = encode text ∧
    loads f.floatOf true text = some (.obj
      [("param", .obj [("search", .obj [(s.profile, filters.json)]), ("limit", .int 200)]),
        ("timestamp", .obj [("from", .int first), ("to", .int last)])]) ∧
    Covers first last

/-- From a minute before the start to a minute after the end, or to six minutes after the start
where no end follows it. -/
def CoversExactly (start : ℤ) (callEnd : Option ℤ) (first last : ℤ) : Prop :=
  1000 * first ≤ start - 60 * secondUs ∧
    match callEnd with
    | some e => if start ≤ e then e + 60 * secondUs ≤ 1000 * last
        else start + 360 * secondUs ≤ 1000 * last
    | none => start + 360 * secondUs ≤ 1000 * last

/-- What the floats of an instant add to its millisecond: nothing up to the year 2242. -/
def excess (t : ℤ) : ℤ := if t < 2 ^ 33 * secondUs then 0 else 30

/-- The same range to the millisecond: an end is one that follows the start, or is in its
millisecond. -/
structure CoversMillis (start : ℤ) (callEnd : Option ℤ) (first last : ℤ) : Prop where
  begins : 1000 * first ≤ start - 60 * secondUs + excess start
  ends : ∀ e, callEnd = some e → start ≤ e ∨ epochMs e = epochMs start →
    e + 60 * secondUs ≤ 1000 * last + 1000 + excess e
  falls : (∀ e, callEnd = some e → epochMs e < epochMs start) →
    start + 360 * secondUs ≤ 1000 * last + 1000 + excess start

section Millis

variable {t u : ℤ}

theorem seconds_nonneg (h : 0 ≤ t) : 0 ≤ (t : ℚ) / 1000000 :=
  div_nonneg (by exact_mod_cast h) (by norm_num)

theorem timestamp_nonneg (h : 0 ≤ t) : 0 ≤ nearest (t / 1000000) * 1000 :=
  mul_nonneg (nearest_nonneg (seconds_nonneg h)) (by norm_num)

theorem epochMs_floor (h : 0 ≤ t) :
    epochMs t = (nearest (nearest (t / 1000000) * 1000)).floor :=
  if_pos (nearest_nonneg (timestamp_nonneg h))

theorem epochMs_nonneg (h : 0 ≤ t) : 0 ≤ epochMs t := by
  rw [epochMs_floor h]
  exact Int.floor_nonneg.mpr (nearest_nonneg (timestamp_nonneg h))

theorem epochMs_nonpos (h : t ≤ 0) : epochMs t ≤ 0 := by
  have hseconds : (t : ℚ) / 1000000 ≤ 0 :=
    div_nonpos_of_nonpos_of_nonneg (by exact_mod_cast h) (by norm_num)
  have hmillis : nearest (nearest (t / 1000000) * 1000) ≤ 0 :=
    nearest_nonpos (mul_nonpos_of_nonpos_of_nonneg (nearest_nonpos hseconds) (by norm_num))
  rw [epochMs, truncate]
  split
  · exact Int.floor_nonpos hmillis
  · apply Int.neg_nonpos_of_nonneg
    exact Int.floor_nonneg.mpr (neg_nonneg.mpr hmillis)

theorem epochMs_mono (ht : 0 ≤ t) (h : t ≤ u) : epochMs t ≤ epochMs u := by
  have hseconds : (t : ℚ) / 1000000 ≤ u / 1000000 :=
    div_le_div_of_nonneg_right (by exact_mod_cast h) (by norm_num)
  have hmillis : nearest (t / 1000000) * 1000 ≤ nearest (u / 1000000) * 1000 :=
    mul_le_mul_of_nonneg_right (nearest_mono hseconds) (by norm_num)
  rw [epochMs_floor ht, epochMs_floor (ht.trans h)]
  exact Int.floor_le_floor (nearest_mono hmillis)

/-- The error of two float operations on an instant below a power of two of seconds. -/
theorem abs_millis_le {k : ℤ} (h : 0 ≤ t) (hk : (t : ℚ) / 1000000 < 2 ^ k) :
    |nearest (nearest (t / 1000000) * 1000) - t / 1000| ≤ 2024 * 2 ^ (k - 54) := by
  have hseconds := seconds_nonneg h
  have hten : (2 : ℚ) ^ (k + 10) = 1024 * 2 ^ k := by
    rw [zpow_add₀ two_ne_zero, mul_comm]
    norm_num
  have hsmall : |nearest ((t : ℚ) / 1000000) * 1000| < 2 ^ (k + 10) := by
    have hle := nearest_le_zpow hseconds hk
    have hpos : (0 : ℚ) < 2 ^ k := zpow_pos two_pos k
    rw [abs_of_nonneg (timestamp_nonneg h), hten]
    linarith
  have hfirst : |nearest ((t : ℚ) / 1000000) - t / 1000000| ≤ 2 ^ (k - 54) := by
    apply abs_nearest_sub_le_zpow
    rw [abs_of_nonneg hseconds]
    exact hk
  have hsecond := abs_nearest_sub_le_zpow hsmall
  have hexponent : (2 : ℚ) ^ (k + 10 - 54) = 1024 * 2 ^ (k - 54) := by
    rw [show k + 10 - 54 = k - 54 + 10 by omega, zpow_add₀ two_ne_zero, mul_comm]
    norm_num
  rw [hexponent] at hsecond
  obtain ⟨hlow, hhigh⟩ := abs_le.mp hfirst
  obtain ⟨hlow', hhigh'⟩ := abs_le.mp hsecond
  apply abs_le.mpr
  constructor <;> linarith

/-- A millisecond lies less than one behind its instant, but for the error of the floats. -/
theorem epochMs_close (h : 0 ≤ t) (hyears : t < 2 ^ 38 * secondUs) :
    1000 * epochMs t ≤ t + excess t ∧ t ≤ 1000 * epochMs t + 1000 + excess t := by
  obtain ⟨k, hk, hexcess⟩ : ∃ k : ℤ, (t : ℚ) / 1000000 < 2 ^ k ∧
      2024000 * (2 : ℚ) ^ (k - 54) < excess t + 1 := by
    unfold excess
    split
    · next hearly =>
      refine ⟨33, ?_, by norm_num⟩
      have hcast : (t : ℚ) < 2 ^ 33 * 1000000 := by exact_mod_cast hearly
      rw [div_lt_iff₀ (by norm_num)]
      exact_mod_cast hcast
    · refine ⟨38, ?_, by norm_num⟩
      have hcast : (t : ℚ) < 2 ^ 38 * 1000000 := by exact_mod_cast hyears
      rw [div_lt_iff₀ (by norm_num)]
      exact_mod_cast hcast
  obtain ⟨hlow, hhigh⟩ := abs_le.mp (abs_millis_le h hk)
  have hfloor := Int.floor_le (nearest (nearest ((t : ℚ) / 1000000) * 1000))
  have hceil := Int.lt_floor_add_one (nearest (nearest ((t : ℚ) / 1000000) * 1000))
  have hmillis : ⌊nearest (nearest ((t : ℚ) / 1000000) * 1000)⌋ = epochMs t :=
    (epochMs_floor h).symm
  rw [hmillis] at hfloor hceil
  constructor
  · have hlt : (1000 * epochMs t : ℚ) < t + excess t + 1 := by linarith
    exact Int.lt_add_one_iff.mp (by exact_mod_cast hlt)
  · have hlt : (t : ℚ) < 1000 * epochMs t + 1000 + excess t + 1 := by linarith
    exact Int.lt_add_one_iff.mp (by exact_mod_cast hlt)

end Millis

def escaped : List Char := ['%', '#', '&', ' ', '+']

theorem ascii_escaped (c : Char) (h : decide (c ∈ escaped) = true) : isAscii c = true := by
  have hall : escaped.all isAscii = true := by decide
  exact List.all_eq_true.mp hall c (of_decide_eq_true h)

def marks : Marks where
  isMark c := decide (c ∈ escaped)
  percent := rfl
  ascii := ascii_escaped

/-- Replacements that are made one after the other are made character by character. -/
theorem foldl_replace (es : List (Char × List Char)) (cs : List Char) :
    es.foldl (fun blob e => replace e.1 e.2 blob) cs =
      cs.flatMap fun c => es.foldl (fun blob e => replace e.1 e.2 blob) [c] := by
  induction es generalizing cs with
  | nil => exact (List.flatMap_singleton' cs).symm
  | cons e es ih =>
    have hsteps (c : Char) : (e :: es).foldl (fun blob e => replace e.1 e.2 blob) [c] =
        (if c = e.1 then e.2 else [c]).flatMap fun d =>
          es.foldl (fun blob e => replace e.1 e.2 blob) [d] := by
      rw [← ih, List.foldl_cons, replace, List.flatMap_singleton]
    rw [List.foldl_cons, ih, replace, List.flatMap_assoc]
    exact List.flatMap_congr fun c _ => (hsteps c).symm

theorem foldl_replace_other {es : List (Char × List Char)} {c : Char}
    (h : ∀ e ∈ es, c ≠ e.1) : es.foldl (fun blob e => replace e.1 e.2 blob) [c] = [c] := by
  induction es with
  | nil => rfl
  | cons e es ih =>
    obtain ⟨he, hes⟩ := List.forall_mem_cons.mp h
    rw [List.foldl_cons, replace, List.flatMap_singleton, if_neg he]
    exact ih hes

/-- The percent sign first: those of the other sequences are not replaced again. -/
theorem replaceAll_eq (blob : List Char) : replaceAll blob = marks.escape blob := by
  have hmarked : (escaped.all fun c => decide (replaceAll [c] = marks.escapeChar c)) = true := by
    decide
  rw [replaceAll, foldl_replace]
  apply List.flatMap_congr
  intro c _
  by_cases hmark : c ∈ escaped
  · exact of_decide_eq_true (List.all_eq_true.mp hmarked c hmark)
  · have hplain : ¬ marks.isMark c = true := fun h => hmark (of_decide_eq_true h)
    rw [Marks.escapeChar, if_neg hplain]
    apply foldl_replace_other
    intro e he heq
    apply hmark
    rw [heq]
    exact List.mem_map_of_mem he

theorem percentDecode_replaceAll (blob : List Char) :
    percentDecode (replaceAll blob) = encode blob := by
  rw [replaceAll_eq, percentDecode_escape]

theorem notMem_replaceAll (blob : List Char) :
    ∀ c ∈ ['#', '&', '+', ' '], c ∉ replaceAll blob ++ ['='] := by
  have hmarks : (['#', '&', '+', ' '].all fun c => decide
      (marks.isMark c = true ∧ c ≠ '%' ∧ hexValue c = none ∧ c ∉ ['='])) = true := by decide
  intro c hc hmem
  obtain ⟨hmark, hpercent, hhex, hequals⟩ := of_decide_eq_true (List.all_eq_true.mp hmarks c hc)
  rw [replaceAll_eq] at hmem
  rcases List.mem_append.mp hmem with hblob | hend
  · exact notMem_escape hmark hpercent hhex blob hblob
  · exact hequals hend

/-- A number with no more digits than Python writes and reads. -/
def Written (n : ℤ) : Prop := (Nat.toDigits 10 n.natAbs).length ≤ maxStrDigits

theorem written_of_lt {n : ℤ} (h : n.natAbs < 10 ^ 18) : Written n := by
  have hlength : (Nat.toDigits 10 n.natAbs).length ≤ 18 :=
    (Nat.length_toDigits_le_iff (by decide) (by decide)).mpr h
  exact hlength.trans (by decide)

theorem writable_filter (v : FilterValue) : Writable v.json := by
  cases v with
  | scalar s => exact .str s
  | array xs =>
    apply Writable.arr
    intro v hv
    obtain ⟨s, -, rfl⟩ := List.mem_map.mp hv
    exact .str s

theorem writable_filters (filters : Filters) : Writable filters.json := by
  apply Writable.obj
  · rw [keys, List.map_map]
    exact filters.nodup
  · intro m hm
    obtain ⟨e, -, rfl⟩ := List.mem_map.mp hm
    exact writable_filter e.2

theorem writable_two {k k' : String} {v v' : Json} (hne : k ≠ k') (hv : Writable v)
    (hv' : Writable v') : Writable (.obj [(k, v), (k', v')]) := by
  apply Writable.obj
  · exact List.nodup_cons.mpr ⟨fun h => hne (List.mem_singleton.mp h), List.nodup_singleton _⟩
  · intro m hm
    rcases List.mem_pair.mp hm with rfl | rfl
    · exact hv
    · exact hv'

section Objects

variable {s : Settings} {filters : Filters} {startMs endMs : ℤ}

theorem writable_query (hfirst : Written (startMs - 60000)) (hlast : Written (endMs + 60000)) :
    Writable (.obj (query s filters startMs endMs)) := by
  have hsearch : Writable (.obj [(s.profile, filters.json)]) := by
    apply Writable.obj
    · exact List.nodup_singleton s.profile
    · intro m hm
      rw [List.mem_singleton.mp hm]
      exact writable_filters filters
  have hlimit : Writable (.int LIMIT) := .int (by decide)
  apply writable_two (by decide)
  · exact writable_two (by decide) hsearch hlimit
  · exact writable_two (by decide) (.int hfirst) (.int hlast)

/-- The link of a range says that range, and no other. -/
theorem deepLink_urlV7_iff {f : FloatTexts} {Covers : ℤ → ℤ → Prop}
    (hfirst : Written (startMs - 60000)) (hlast : Written (endMs + 60000)) :
    DeepLink f s filters Covers (urlV7 f s filters startMs endMs) ↔
      Covers (startMs - 60000) (endMs + 60000) := by
  have hdrop : (replaceAll (compactDumps f (.obj (query s filters startMs endMs))) ++
      ['=']).dropLast = replaceAll (compactDumps f (.obj (query s filters startMs endMs))) :=
    List.dropLast_concat
  have hloads : loads f.floatOf true (compactDumps f (.obj (query s filters startMs endMs))) =
      some (.obj (query s filters startMs endMs)) :=
    loads_compactDumps (writable_query hfirst hlast)
  constructor
  · rintro ⟨query', text, first, last, hurl, -, -, hdecoded, hread, hcovers⟩
    obtain rfl := List.append_cancel_left hurl
    rw [hdrop, percentDecode_replaceAll] at hdecoded
    obtain rfl := encode_injective hdecoded
    have hobject := Option.some.inj (hloads.symm.trans hread)
    simp only [query, Json.obj.injEq, List.cons.injEq, Prod.mk.injEq, Json.int.injEq, and_true,
      true_and] at hobject
    obtain ⟨-, rfl, rfl⟩ := hobject
    exact hcovers
  · intro hcovers
    refine ⟨_, _, startMs - 60000, endMs + 60000, rfl, notMem_replaceAll _, ?_, ?_, hloads, hcovers⟩
    · exact List.getLast?_concat
    · rw [hdrop, percentDecode_replaceAll]

end Objects

section Ranges

variable {startMs t : ℤ} {callEnd : Option ℤ}

theorem endMsOf_cases (startMs : ℤ) (callEnd : Option ℤ) :
    endMsOf startMs callEnd = startMs + FALLBACK_MS ∨
      ∃ e, callEnd = some e ∧ startMs ≤ epochMs e ∧ endMsOf startMs callEnd = epochMs e := by
  have hlater : ¬ startMs + FALLBACK_MS < startMs := by
    rw [FALLBACK_MS]
    omega
  cases callEnd with
  | none => exact .inl (if_neg hlater)
  | some e =>
    by_cases hzero : epochMs e = 0
    · have hgiven : orFallback startMs (some (epochMs e)) = startMs + FALLBACK_MS := if_pos hzero
      rw [endMsOf, Option.map_some, hgiven]
      exact .inl (if_neg hlater)
    · have hgiven : orFallback startMs (some (epochMs e)) = epochMs e := if_neg hzero
      rw [endMsOf, Option.map_some, hgiven]
      by_cases hbefore : epochMs e < startMs
      · exact .inl (if_pos hbefore)
      · exact .inr ⟨e, rfl, not_lt.mp hbefore, if_neg hbefore⟩

theorem le_endMsOf (startMs : ℤ) (callEnd : Option ℤ) : startMs ≤ endMsOf startMs callEnd := by
  rcases endMsOf_cases startMs callEnd with hfallback | ⟨e, -, hle, hend⟩
  · rw [hfallback, FALLBACK_MS]
    omega
  · rw [hend]
    exact hle

/-- The millisecond of an end is reached, unless it is before the start. -/
theorem epochMs_le_endMsOf {e : ℤ} (hnonneg : 0 ≤ startMs) (h : startMs ≤ epochMs e) :
    epochMs e ≤ endMsOf startMs (some e) := by
  by_cases hzero : epochMs e = 0
  · rw [hzero]
    exact hnonneg.trans (le_endMsOf startMs (some e))
  · have hgiven : orFallback startMs (some (epochMs e)) = epochMs e := if_neg hzero
    rw [endMsOf, Option.map_some, hgiven]
    exact (if_neg (not_lt.mpr h)).ge

theorem endMsOf_fallback (h : ∀ e, callEnd = some e → epochMs e < startMs) :
    endMsOf startMs callEnd = startMs + FALLBACK_MS := by
  rcases endMsOf_cases startMs callEnd with hfallback | ⟨e, he, hle, -⟩
  · exact hfallback
  · exact absurd (h e he) (not_lt.mpr hle)

theorem epochMs_le (hyears : t < 2 ^ 38 * secondUs) : epochMs t ≤ 2 ^ 38 * 1000 := by
  by_cases hnonneg : 0 ≤ t
  · have hclose := (epochMs_close hnonneg hyears).1
    have hexcess : excess t ≤ 30 := by
      unfold excess
      split <;> omega
    rw [secondUs] at hyears
    omega
  · have hle := epochMs_nonpos (not_le.mp hnonneg).le
    omega

/-- The range of a search from the milliseconds of its instants. -/
theorem coversMillis (hstart : 0 < t) (hyears : t < 2 ^ 38 * secondUs)
    (hend : ∀ e, callEnd = some e → e < 2 ^ 38 * secondUs) :
    CoversMillis t callEnd (epochMs t - 60000) (endMsOf (epochMs t) callEnd + 60000) := by
  have hnonneg := epochMs_nonneg hstart.le
  obtain ⟨habove, hbelow⟩ := epochMs_close hstart.le hyears
  have hsecond : secondUs = 1000000 := rfl
  constructor
  · omega
  · rintro e rfl hcase
    have hmillis : epochMs t ≤ epochMs e := by
      rcases hcase with hle | heq
      · exact epochMs_mono hstart.le hle
      · exact heq.ge
    have hreached := epochMs_le_endMsOf hnonneg hmillis
    have hexcess : 0 ≤ excess e := by
      unfold excess
      split <;> omega
    by_cases hpositive : 0 ≤ e
    · have hclose := (epochMs_close hpositive (hend e rfl)).2
      omega
    · omega
  · intro hbefore
    rw [endMsOf_fallback hbefore, FALLBACK_MS]
    omega

end Ranges

section Links

variable {f : FloatTexts} {s : Settings} {zone : LocalZone} {now : ℤ} {filters : Filters}

theorem aware_lt (zone : LocalZone) (m : Moment) : aware zone m < 2 ^ 38 * secondUs := by
  have hwall := m.wall.2
  have hoffset : |m.value.utcoffset.getD (zone.offsetAt m.value.wall m.fold)| < dayUs := by
    cases h : m.value.utcoffset with
    | none => exact zone.offset m.value.wall m.fold
    | some o => exact m.offset o h
  have hlow := (abs_lt.mp hoffset).1
  rw [dayUs, secondUs] at hlow
  rw [secondUs] at hwall
  rw [aware, secondUs]
  omega

theorem searchUrl_v7 (hflavor : s.flavor = "v7") (m : Moment) (callEnd : Option Moment) :
    searchUrl f s zone now filters (some m) callEnd =
      if s.baseUrl = "" ∨ filters.entries = [] ∨ rotated s now (aware zone m) = true then none
      else some (urlV7 f s filters (epochMs (aware zone m))
        (endMsOf (epochMs (aware zone m)) (callEnd.map (aware zone)))) := by
  have hbuild (startMs endMs : ℤ) :
      build f s filters startMs endMs = some (urlV7 f s filters startMs endMs) := if_pos hflavor
  rw [searchUrl]
  by_cases hnothing : s.baseUrl = "" ∨ filters.entries = []
  · rw [if_pos hnothing, if_pos (hnothing.imp_right Or.inl)]
  · obtain ⟨hbase, hentries⟩ := not_or.mp hnothing
    rw [if_neg hnothing]
    dsimp only
    by_cases hrotated : rotated s now (aware zone m) = true
    · rw [if_pos hrotated, if_pos (.inr (.inr hrotated))]
    · have hlinked : ¬ (s.baseUrl = "" ∨ filters.entries = [] ∨
          rotated s now (aware zone m) = true) := by
        rintro (h | h | h)
        · exact hbase h
        · exact hentries h
        · exact hrotated h
      rw [if_neg hrotated, if_neg hlinked, hbuild]

/-- A link is offered unless there is nowhere to link to, nothing to search for or no capture
left, and it decodes to the filters, with a range that covers the call to the millisecond. -/
theorem searchUrl_deepLink (hflavor : s.flavor = "v7") (m : Moment)
    (hstart : 0 < aware zone m) (callEnd : Option Moment) :
    (searchUrl f s zone now filters (some m) callEnd = none ↔
      s.baseUrl = "" ∨ filters.entries = [] ∨ rotated s now (aware zone m) = true) ∧
    ∀ url, searchUrl f s zone now filters (some m) callEnd = some url →
      DeepLink f s filters
        (CoversMillis (aware zone m) (callEnd.map (aware zone))) url := by
  have hyears := aware_lt zone m
  have hend : ∀ e, (callEnd.map (aware zone)) = some e →
      e < 2 ^ 38 * secondUs := by
    intro e he
    obtain ⟨last, -, rfl⟩ := Option.map_eq_some_iff.mp he
    exact aware_lt zone last
  rw [searchUrl_v7 hflavor]
  constructor
  · split
    · next h => exact iff_of_true rfl h
    · next h => exact iff_of_false (fun hnone => nomatch hnone) h
  · intro url hurl
    split at hurl
    · cases hurl
    · obtain rfl := Option.some.inj hurl
      have hnonneg := epochMs_nonneg hstart.le
      have hstartMs := epochMs_le hyears
      have hlast := le_endMsOf (epochMs (aware zone m)) (callEnd.map (aware zone))
      have hendMs : endMsOf (epochMs (aware zone m)) (callEnd.map (aware zone)) ≤
          2 ^ 38 * 1000 + FALLBACK_MS := by
        rcases endMsOf_cases (epochMs (aware zone m)) (callEnd.map (aware zone)) with
          hfallback | ⟨e, he, -, hmillis⟩
        · omega
        · have hle := epochMs_le (hend e he)
          rw [hmillis, FALLBACK_MS]
          omega
      rw [FALLBACK_MS] at hendMs
      apply (deepLink_urlV7_iff (written_of_lt (by omega)) (written_of_lt (by omega))).mpr
      exact coversMillis hstart hyears hend

end Links

theorem abs_zero_lt : |(0 : ℤ)| < dayUs := by decide

def utc : LocalZone where
  offsetAt _ _ := 0
  offset _ _ := abs_zero_lt

theorem offset_utc (o : ℤ) (h : some 0 = some o) : |o| < dayUs := by
  obtain rfl := Option.some.inj h
  exact abs_zero_lt

/-- An instant of these years, with its offset. -/
def utcMoment (t : ℤ) (h : -62135596800 * secondUs ≤ t ∧ t < 253402300800 * secondUs) : Moment where
  value := ⟨t, some 0⟩
  fold := false
  wall := h
  offset := offset_utc

theorem years_after {t : ℤ} (h : 1790238048000000 ≤ t ∧ t ≤ 1790238348062500) :
    -62135596800 * secondUs ≤ t ∧ t < 253402300800 * secondUs := by
  have hsecond : secondUs = 1000000 := rfl
  omega

/-- 24 September 2026 at 08:20:48 UTC. -/
def started : Moment := utcMoment 1790238048000000 (years_after (by decide))

/-- Five minutes and a sixteenth of a second later. -/
def ended : Moment := utcMoment 1790238348062500 (years_after (by decide))

def sampleSettings : Settings where
  baseUrl := "http://homer.example:8080"
  flavor := "v7"
  profile := "1_call"
  retentionDays := 0

def byCallId : Filters where
  entries := [("callid", .array ["call#with 100%"])]
  nodup := List.nodup_singleton "callid"

theorem started_linked : ∃ url,
    searchUrl plainFloats sampleSettings utc 0 byCallId (some started) none = some url ∧
    DeepLink plainFloats sampleSettings byCallId (CoversMillis (aware utc started) none) url := by
  obtain ⟨hnone, hlinked⟩ := @searchUrl_deepLink plainFloats sampleSettings utc 0 byCallId rfl
    started (by decide) none
  have hsome : searchUrl plainFloats sampleSettings utc 0 byCallId (some started) none ≠ none := by
    rw [ne_eq, hnone]
    decide
  obtain ⟨url, hurl⟩ := Option.ne_none_iff_exists'.mp hsome
  exact ⟨url, hurl, hlinked url hurl⟩

/-- Where neither float operation rounds. -/
theorem epochMs_of_exact {t m n k j : ℤ} (hm : |m| < 2 ^ 53)
    (hseconds : (t : ℚ) / 1000000 = m * 2 ^ k) (hn : |n| < 2 ^ 53)
    (hmillis : (t : ℚ) / 1000000 * 1000 = n * 2 ^ j) :
    epochMs t = truncate ((t : ℚ) / 1000000 * 1000) := by
  rw [epochMs, nearest_of_multiple hm hseconds, nearest_of_multiple hn hmillis]

theorem epochMs_started : epochMs 1790238048000000 = 1790238048000 := by
  rw [@epochMs_of_exact 1790238048000000 1790238048 1790238048000 0 0 (by decide) (by norm_num)
    (by decide) (by norm_num)]
  apply truncate_eq <;> norm_num

theorem epochMs_ended : epochMs 1790238348062500 = 1790238348062 := by
  rw [@epochMs_of_exact 1790238348062500 28643813569 3580476696125 (-4) (-1) (by decide)
    (by norm_num) (by decide) (by norm_num)]
  apply truncate_eq <;> norm_num

/-- The range stops half a millisecond before the minute after the end has passed. -/
theorem ended_uncovered : ¬ ∀ url,
    searchUrl plainFloats sampleSettings utc 0 byCallId (some started) (some ended) = some url →
    DeepLink plainFloats sampleSettings byCallId
      (CoversExactly (aware utc started) (some (aware utc ended))) url := by
  intro h
  have hstarted : aware utc started = 1790238048000000 := rfl
  have hended : aware utc ended = 1790238348062500 := rfl
  have hlink := @searchUrl_v7 plainFloats sampleSettings utc 0 byCallId rfl started (some ended)
  have hoffered : ¬ (sampleSettings.baseUrl = "" ∨ byCallId.entries = [] ∨
      rotated sampleSettings 0 (aware utc started) = true) := by decide
  have hendMs : endMsOf 1790238048000 (some 1790238348062500) = 1790238348062 := by
    rw [endMsOf, Option.map_some, epochMs_ended]
    rfl
  rw [if_neg hoffered, Option.map_some, hstarted, hended, epochMs_started, hendMs] at hlink
  have hcovers := (deepLink_urlV7_iff (written_of_lt (by decide)) (written_of_lt (by decide))).mp
    (h _ hlink)
  rw [hstarted, hended] at hcovers
  have hend := hcovers.2
  revert hend
  decide

end HomerLinks
