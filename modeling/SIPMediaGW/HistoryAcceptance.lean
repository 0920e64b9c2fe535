import SIPMediaGW.HistoryPayload

/-! # The histories that the builder accepts

Which records make it raise, and what it shows of the room and of the platform. -/
namespace HistoryAcceptance

open HistoryPayload
open IngestMapping hiding text direction
open PythonJson

/-- A record of an object. -/
abbrev Entry := String × Dict

def Entry.line (r : Entry) : HistoryLine := .record r.1 (.obj r.2)

/-- A text, or a value that counts as none. -/
def Texted (v : Json) : Prop := truthy v = true → ∃ s, v = .str s

/-- A URL that is a text, of a host that `urlsplit` takes, or one that counts as none. -/
def Splittable (env : Environment) (v : Json) : Prop := Texted v ∧ env.Splits v

/-- The record of the end of a call. -/
def closes (r : Entry) : Bool :=
  decide (r.1 = "call_closed") &&
    match stripped (field r.2 "lastEventType") with
    | .ok eventType => decide (eventType = "CALL_CLOSED")
    | .error _ => false

/-- The keys whose values are read as texts. After the end of a call its other states are not
read. -/
def readTexts (final : Bool) (r : Entry) : List String :=
  if r.1 = "encoder" then ["media", "value"]
  else if r.1 = "room" then ["value"]
  else if r.1 = "browsing" then ["value"]
  else if r.1 = "destination" then ["destinationURI", "destinationDomain"]
  else if r.1 = "call_closed" then
    "lastEventType" :: if final && !closes r then []
      else ["peerDisplayName", "sourceURI", "destinationURI"]
  else if r.1 = "dtmf" then ["input"]
  else if r.1 = "stats_value" then ["media", "field"]
  else []

def Acceptable (final : Bool) (r : Entry) : Prop :=
  ∀ key ∈ readTexts final r, Texted (field r.2 key)

/-- The URL after a record. -/
def urlAfter (url : Json) (r : Entry) : Json :=
  if r.1 = "call_start" then orElse (field r.2 "url") url else url

section Values

variable {v : Json}

theorem stripped_eq_ok_iff : (∃ s, stripped v = .ok s) ↔ Texted v := by
  unfold stripped Texted
  by_cases ht : truthy v = true
  · rw [if_pos ht]
    cases v <;> simp [ht]
  · simp [ht]

theorem uriField_eq_ok_iff {data : Dict} {key before : String} :
    (∃ s, uriField data key before = .ok s) ↔ Texted (field data key) := by
  rw [uriField, Texted]
  cases hv : field data key <;>
    · by_cases ht : truthy (field data key) = true <;> simp_all

/-- A text that is put in place of a missing one never raises. -/
theorem texted_orElse_str (v : Json) (s : String) : Texted (orElse v (.str s)) ↔ Texted v := by
  unfold orElse Texted
  by_cases ht : truthy v = true <;> simp [ht]

/-- What follows a value that is read, where it does not depend on it whether that raises. -/
theorem bind_eq_ok_iff {α β : Type} {x : Except PyError α} {f : α → Except PyError β} {P Q : Prop}
    (hx : (∃ a, x = .ok a) ↔ P) (hf : ∀ a, x = .ok a → ((∃ b, f a = .ok b) ↔ Q)) :
    (∃ b, (x >>= f) = .ok b) ↔ P ∧ Q := by
  cases x with
  | error e =>
    refine iff_of_false ?_ fun h => ?_
    · rintro ⟨b, hb⟩
      cases hb
    · obtain ⟨a, ha⟩ := hx.mpr h.1
      cases ha
  | ok a =>
    have hP : P := hx.mp ⟨a, rfl⟩
    exact (hf a rfl).trans (and_iff_right hP).symm

theorem urlDetails_eq_ok_iff {env : Environment} :
    (∃ names, urlDetails env v = .ok names) ↔ Splittable env v := by
  refine bind_eq_ok_iff stripped_eq_ok_iff fun url hurl => ?_
  have hsplit : env.Splits v ↔ env.refuses (netloc url.toList) = false := by
    by_cases ht : truthy v = true
    · obtain ⟨s, rfl⟩ := stripped_eq_ok_iff.mp ⟨url, hurl⟩ ht
      have hstrip : stripped (.str s) = .ok (strip s) := if_pos ht
      obtain rfl := Except.ok.inj (hstrip.symm.trans hurl)
      simp [Environment.Splits]
    · have hnone : stripped v = .ok "" := if_neg ht
      obtain rfl := Except.ok.inj (hnone.symm.trans hurl)
      refine iff_of_true ?_ rfl
      rintro s rfl
      have hempty : s = "" := by simpa [truthy] using ht
      subst hempty
      rfl
  rw [hsplit]
  split
  · next hrefused => exact iff_of_false (by simp) (by simp [hrefused])
  · next hread => exact iff_of_true ⟨_, rfl⟩ (Bool.eq_false_iff.mpr hread)

theorem isOk_ite {α : Type} {c : Prop} [Decidable c] {x y : α} :
    ∃ b : α, (if c then Except.ok x else .ok y : Except PyError α) = .ok b := by
  split
  · exact ⟨x, rfl⟩
  · exact ⟨y, rfl⟩

end Values

section Records

variable {b b' : Building} {data : Dict}

theorem onEncoder_eq_ok_iff : (∃ b', onEncoder b data = .ok b') ↔
    Texted (field data "media") ∧ Texted (field data "value") := by
  refine bind_eq_ok_iff stripped_eq_ok_iff fun encoderMedia _ => ?_
  refine (bind_eq_ok_iff (Q := True) stripped_eq_ok_iff fun encoderValue _ => ?_).trans
    (and_iff_left trivial)
  refine iff_of_true ?_ trivial
  split
  · exact ⟨_, rfl⟩
  · exact isOk_ite

theorem onRoom_eq_ok_iff : (∃ b', onRoom b data = .ok b') ↔ Texted (field data "value") :=
  (bind_eq_ok_iff (Q := True) stripped_eq_ok_iff fun _ _ => iff_of_true ⟨_, rfl⟩ trivial).trans
    (and_iff_left trivial)

theorem onBrowsing_eq_ok_iff : (∃ b', onBrowsing b data = .ok b') ↔
    Texted (field data "value") :=
  (bind_eq_ok_iff (Q := True) stripped_eq_ok_iff fun _ _ => iff_of_true ⟨_, rfl⟩ trivial).trans
    (and_iff_left trivial)

theorem onDestination_eq_ok_iff : (∃ b', onDestination b data = .ok b') ↔
    Texted (field data "destinationURI") ∧ Texted (field data "destinationDomain") := by
  refine bind_eq_ok_iff stripped_eq_ok_iff fun uri _ => ?_
  exact (bind_eq_ok_iff (Q := True) stripped_eq_ok_iff fun _ _ =>
    iff_of_true ⟨_, rfl⟩ trivial).trans (and_iff_left trivial)

theorem onDtmf_eq_ok_iff : (∃ b', onDtmf b data = .ok b') ↔ Texted (field data "input") :=
  (bind_eq_ok_iff (Q := True) stripped_eq_ok_iff fun _ _ => iff_of_true isOk_ite trivial).trans
    (and_iff_left trivial)

theorem onStatsValue_eq_ok_iff : (∃ b', onStatsValue b data = .ok b') ↔
    Texted (field data "media") ∧ Texted (field data "field") := by
  refine bind_eq_ok_iff stripped_eq_ok_iff fun media _ => ?_
  refine (bind_eq_ok_iff (Q := True) stripped_eq_ok_iff fun name _ => ?_).trans
    (and_iff_left trivial)
  refine iff_of_true ?_ trivial
  split
  · exact ⟨_, rfl⟩
  split
  · exact ⟨_, rfl⟩
  · exact isOk_ite

theorem closes_of_stripped {eventType : String}
    (h : stripped (field data "lastEventType") = .ok eventType) :
    closes ("call_closed", data) = decide (eventType = "CALL_CLOSED") := by
  rw [closes, h]
  rfl

theorem onCallClosed_eq_ok_iff : (∃ b', onCallClosed b data = .ok b') ↔
    Acceptable b.haveFinalCallClosed ("call_closed", data) := by
  have hkeys : readTexts b.haveFinalCallClosed ("call_closed", data) =
      "lastEventType" :: if b.haveFinalCallClosed && !closes ("call_closed", data) then []
        else ["peerDisplayName", "sourceURI", "destinationURI"] := rfl
  rw [Acceptable, hkeys, List.forall_mem_cons]
  refine bind_eq_ok_iff stripped_eq_ok_iff fun eventType heventType => ?_
  rw [closes_of_stripped heventType]
  dsimp only
  by_cases hlate : (b.haveFinalCallClosed && !decide (eventType = "CALL_CLOSED")) = true
  · rw [if_pos hlate, if_pos hlate]
    exact iff_of_true ⟨b, rfl⟩ nofun
  · rw [if_neg hlate, if_neg hlate]
    simp only [List.forall_mem_cons]
    refine bind_eq_ok_iff (stripped_eq_ok_iff.trans (texted_orElse_str _ _)) fun _ _ => ?_
    refine bind_eq_ok_iff uriField_eq_ok_iff fun _ _ => ?_
    exact bind_eq_ok_iff uriField_eq_ok_iff fun _ _ => iff_of_true ⟨_, rfl⟩ nofun

/-- A record is read exactly when its texts are texts. -/
theorem onRecord_eq_ok_iff {r : Entry} :
    (∃ b', onRecord b r.1 r.2 = .ok b') ↔ Acceptable b.haveFinalCallClosed r := by
  obtain ⟨recordType, data⟩ := r
  by_cases hclosed : recordType = "call_closed"
  · subst hclosed
    exact onCallClosed_eq_ok_iff
  have hone (key : String) : (∀ k ∈ [key], Texted (field data k)) ↔ Texted (field data key) := by
    simp
  have htwo (key key' : String) : (∀ k ∈ [key, key'], Texted (field data k)) ↔
      Texted (field data key) ∧ Texted (field data key') := by
    simp
  by_cases hencoder : recordType = "encoder"
  · subst hencoder
    exact onEncoder_eq_ok_iff.trans (htwo _ _).symm
  by_cases hroom : recordType = "room"
  · subst hroom
    exact onRoom_eq_ok_iff.trans (hone _).symm
  by_cases hbrowsing : recordType = "browsing"
  · subst hbrowsing
    exact onBrowsing_eq_ok_iff.trans (hone _).symm
  by_cases hdestination : recordType = "destination"
  · subst hdestination
    exact onDestination_eq_ok_iff.trans (htwo _ _).symm
  by_cases hdtmf : recordType = "dtmf"
  · subst hdtmf
    exact onDtmf_eq_ok_iff.trans (hone _).symm
  by_cases hstats : recordType = "stats_value"
  · subst hstats
    exact onStatsValue_eq_ok_iff.trans (htwo _ _).symm
  refine iff_of_true ?_ ?_
  · simp only [onRecord, if_neg hencoder, if_neg hroom, if_neg hbrowsing, if_neg hdestination,
      if_neg hclosed, if_neg hdtmf, if_neg hstats]
    split_ifs <;> exact ⟨_, rfl⟩
  · simp only [Acceptable, readTexts, if_neg hencoder, if_neg hroom, if_neg hbrowsing,
      if_neg hdestination, if_neg hclosed, if_neg hdtmf, if_neg hstats]
    exact nofun

/-- What the reports need of the variables of the builder. -/
structure Shows (b b' : Building) (r : Entry) : Prop where
  final : b'.haveFinalCallClosed = (b.haveFinalCallClosed || closes r)
  url : b'.callUrl = urlAfter b.callUrl r
  room : if r.1 = "room" then stripped (field r.2 "value") = .ok b'.roomLineValue
    else b'.roomLineValue = b.roomLineValue
  browsing : if r.1 = "browsing" then stripped (field r.2 "value") = .ok b'.browsingLineValue
    else b'.browsingLineValue = b.browsingLineValue

/-- A record that sets none of them. -/
structure Untouched (b b' : Building) : Prop where
  final : b'.haveFinalCallClosed = b.haveFinalCallClosed
  url : b'.callUrl = b.callUrl
  room : b'.roomLineValue = b.roomLineValue
  browsing : b'.browsingLineValue = b.browsingLineValue

theorem Untouched.shows {r : Entry} (h : Untouched b b') (hstart : r.1 ≠ "call_start")
    (hclosed : r.1 ≠ "call_closed") (hroom : r.1 ≠ "room") (hbrowsing : r.1 ≠ "browsing") :
    Shows b b' r where
  final := by rw [h.final, closes, decide_eq_false hclosed, Bool.false_and, Bool.or_false]
  url := by rw [h.url, urlAfter, if_neg hstart]
  room := by
    rw [if_neg hroom]
    exact h.room
  browsing := by
    rw [if_neg hbrowsing]
    exact h.browsing

theorem onEncoder_untouched (h : onEncoder b data = .ok b') : Untouched b b' := by
  obtain ⟨encoderMedia, -, h⟩ := bind_eq_ok h
  obtain ⟨encoderValue, -, h⟩ := bind_eq_ok h
  split at h
  · obtain rfl := Except.ok.inj h
    exact ⟨rfl, rfl, rfl, rfl⟩
  · split at h
    · obtain rfl := Except.ok.inj h
      exact ⟨rfl, rfl, rfl, rfl⟩
    · obtain rfl := Except.ok.inj h
      exact ⟨rfl, rfl, rfl, rfl⟩

theorem onDestination_untouched (h : onDestination b data = .ok b') : Untouched b b' := by
  obtain ⟨uri, -, h⟩ := bind_eq_ok h
  obtain ⟨domain, -, h⟩ := bind_eq_ok h
  obtain rfl := Except.ok.inj h
  exact ⟨rfl, rfl, rfl, rfl⟩

theorem onDtmf_untouched (h : onDtmf b data = .ok b') : Untouched b b' := by
  obtain ⟨input, -, h⟩ := bind_eq_ok h
  split at h
  · obtain rfl := Except.ok.inj h
    exact ⟨rfl, rfl, rfl, rfl⟩
  · obtain rfl := Except.ok.inj h
    exact ⟨rfl, rfl, rfl, rfl⟩

theorem onStatsValue_untouched (h : onStatsValue b data = .ok b') : Untouched b b' := by
  obtain ⟨media, -, h⟩ := bind_eq_ok h
  obtain ⟨name, -, h⟩ := bind_eq_ok h
  split at h
  · obtain rfl := Except.ok.inj h
    exact ⟨rfl, rfl, rfl, rfl⟩
  · split at h
    · obtain rfl := Except.ok.inj h
      exact ⟨rfl, rfl, rfl, rfl⟩
    · split at h
      · obtain rfl := Except.ok.inj h
        exact ⟨rfl, rfl, rfl, rfl⟩
      · obtain rfl := Except.ok.inj h
        exact ⟨rfl, rfl, rfl, rfl⟩

theorem onCallClosed_shows (h : onCallClosed b data = .ok b') :
    Shows b b' ("call_closed", data) := by
  obtain ⟨eventType, heventType, h⟩ := bind_eq_ok h
  have hcloses := closes_of_stripped heventType
  dsimp only at h
  by_cases hlate : (b.haveFinalCallClosed && !decide (eventType = "CALL_CLOSED")) = true
  · rw [if_pos hlate] at h
    obtain rfl := Except.ok.inj h
    rw [Bool.and_eq_true] at hlate
    exact ⟨by rw [hlate.1, Bool.true_or], rfl, rfl, rfl⟩
  · rw [if_neg hlate] at h
    obtain ⟨peerDisplay, -, h⟩ := bind_eq_ok h
    obtain ⟨sourceUri, -, h⟩ := bind_eq_ok h
    obtain ⟨destinationUriRaw, -, h⟩ := bind_eq_ok h
    obtain rfl := Except.ok.inj h
    exact ⟨by rw [hcloses], rfl, rfl, rfl⟩

theorem onRecord_shows {r : Entry} (h : onRecord b r.1 r.2 = .ok b') : Shows b b' r := by
  obtain ⟨recordType, data⟩ := r
  by_cases hstart : recordType = "call_start"
  · subst hstart
    obtain rfl := Except.ok.inj h
    exact ⟨(Bool.or_false _).symm, rfl, rfl, rfl⟩
  by_cases hclosed : recordType = "call_closed"
  · subst hclosed
    exact onCallClosed_shows h
  by_cases hroom : recordType = "room"
  · subst hroom
    obtain ⟨value, hvalue, h⟩ := bind_eq_ok h
    obtain rfl := Except.ok.inj h
    exact ⟨(Bool.or_false _).symm, rfl, hvalue, rfl⟩
  by_cases hbrowsing : recordType = "browsing"
  · subst hbrowsing
    obtain ⟨value, hvalue, h⟩ := bind_eq_ok h
    obtain rfl := Except.ok.inj h
    exact ⟨(Bool.or_false _).symm, rfl, rfl, hvalue⟩
  refine Untouched.shows ?_ hstart hclosed hroom hbrowsing
  simp only [onRecord, if_neg hstart, if_neg hclosed, if_neg hroom, if_neg hbrowsing] at h
  split_ifs at h
  · obtain rfl := Except.ok.inj h
    exact ⟨rfl, rfl, rfl, rfl⟩
  · exact onEncoder_untouched h
  · exact onDestination_untouched h
  · exact onDtmf_untouched h
  · obtain rfl := Except.ok.inj h
    exact ⟨rfl, rfl, rfl, rfl⟩
  · exact onStatsValue_untouched h
  · obtain rfl := Except.ok.inj h
    exact ⟨rfl, rfl, rfl, rfl⟩

end Records

/-- Every record is read, up to where the end of the call has been seen. -/
def AllAcceptable : Bool → List Entry → Prop
  | _, [] => True
  | final, r :: rs => Acceptable final r ∧ AllAcceptable (final || closes r) rs

/-- The last record of a type. -/
def lastOf (recordType : String) (rs : List Entry) : Option Dict :=
  ((rs.filter fun r => decide (r.1 = recordType)).map Prod.snd).getLast?

/-- The text of a value. -/
def textOf (data : Dict) : String := (stripped (field data "value")).toOption.getD ""

/-- A line of a record, or of one that names the application, whatever its text. -/
inductive Written : HistoryLine → Entry → Prop where
  | record (r : Entry) (h : r.1 ≠ "main_app") : Written r.line r
  | mainApp (value : String) (data : Dict) : Written (.mainApp value) ("main_app", data)

section Histories

variable {b b' : Building} {r : Entry} {rs : List Entry} {line : HistoryLine}
  {lines : List HistoryLine}

theorem onLine_eq_ok_iff (h : Written line r) :
    (∃ b', onLine b line = .ok b') ↔ Acceptable b.haveFinalCallClosed r := by
  cases h with
  | record r _ => exact onRecord_eq_ok_iff
  | mainApp value data => exact iff_of_true ⟨_, rfl⟩ nofun

theorem onLine_shows (h : Written line r) (hb : onLine b line = .ok b') : Shows b b' r := by
  cases h with
  | record r _ => exact onRecord_shows hb
  | mainApp value data =>
    obtain rfl := Except.ok.inj hb
    exact ⟨(Bool.or_false _).symm, rfl, rfl, rfl⟩

theorem readLines_eq_ok_iff (h : List.Forall₂ Written lines rs) :
    (∃ b', readLines b lines = .ok b') ↔ AllAcceptable b.haveFinalCallClosed rs := by
  induction h generalizing b with
  | nil => exact iff_of_true ⟨b, rfl⟩ trivial
  | cons hline _ ih =>
    refine bind_eq_ok_iff (onLine_eq_ok_iff hline) fun b₁ hb₁ => ?_
    rw [ih, (onLine_shows hline hb₁).final]

theorem lastOf_cons (recordType : String) (r : Entry) (rs : List Entry) :
    lastOf recordType (r :: rs) =
      (lastOf recordType rs).or (if r.1 = recordType then some r.2 else none) := by
  rw [lastOf, List.filter_cons]
  by_cases h : r.1 = recordType
  · rw [decide_eq_true h, if_pos rfl, if_pos h, List.map_cons, List.getLast?_cons, lastOf]
    cases ((rs.filter fun r => decide (r.1 = recordType)).map Prod.snd).getLast? <;> rfl
  · rw [decide_eq_false h, if_neg Bool.false_ne_true, if_neg h, Option.or_none, lastOf]

/-- The text of the last record of a type stays. -/
theorem textOf_step {recordType before after : String}
    (h : if r.1 = recordType then stripped (field r.2 "value") = .ok after else after = before) :
    ((lastOf recordType rs).map textOf).getD after =
      ((lastOf recordType (r :: rs)).map textOf).getD before := by
  rw [lastOf_cons]
  cases lastOf recordType rs with
  | some data => rfl
  | none =>
    by_cases htype : r.1 = recordType
    · rw [if_pos htype] at h
      rw [Option.none_or, if_pos htype]
      change after = textOf r.2
      rw [textOf, h]
      rfl
    · rw [if_neg htype] at h
      rw [Option.none_or, if_neg htype, h]

/-- The URL, the room and the platform after the lines of some records. -/
theorem readLines_shows (h : List.Forall₂ Written lines rs) (hb : readLines b lines = .ok b') :
    b'.callUrl = rs.foldl urlAfter b.callUrl ∧
      b'.roomLineValue = ((lastOf "room" rs).map textOf).getD b.roomLineValue ∧
      b'.browsingLineValue = ((lastOf "browsing" rs).map textOf).getD b.browsingLineValue := by
  induction h generalizing b with
  | nil =>
    obtain rfl := Except.ok.inj hb
    exact ⟨rfl, rfl, rfl⟩
  | cons hline _ ih =>
    obtain ⟨b₁, hb₁, hb⟩ := bind_eq_ok hb
    have hshows := onLine_shows hline hb₁
    obtain ⟨hurl, hroom, hbrowsing⟩ := ih hb
    refine ⟨?_, hroom.trans (textOf_step hshows.room),
      hbrowsing.trans (textOf_step hshows.browsing)⟩
    rw [hurl, List.foldl_cons, hshows.url]

/-- The builder raises on no record, nor on the URL. -/
def Builds (env : Environment) (rs : List Entry) : Prop :=
  AllAcceptable false rs ∧ Splittable env (rs.foldl urlAfter (.str ""))

theorem buildPayload_eq_ok_iff {env : Environment} (h : List.Forall₂ Written lines rs) :
    (∃ payload, buildPayloadFromLines env lines = .ok payload) ↔ Builds env rs := by
  refine bind_eq_ok_iff (readLines_eq_ok_iff h) fun b hb => ?_
  have hurl : b.callUrl = rs.foldl urlAfter (.str "") := (readLines_shows h hb).1
  rw [← hurl]
  exact (bind_eq_ok_iff (Q := True) urlDetails_eq_ok_iff fun _ _ =>
    iff_of_true ⟨_, rfl⟩ trivial).trans (and_iff_left trivial)

theorem buildPayload_shows {env : Environment} {payload : Dict}
    (h : List.Forall₂ Written lines rs) (hp : buildPayloadFromLines env lines = .ok payload) :
    field payload "room" = .str (((lastOf "room" rs).map textOf).getD "") ∧
      field payload "browsing" = .str (((lastOf "browsing" rs).map textOf).getD "") := by
  obtain ⟨b, hb, hp⟩ := bind_eq_ok hp
  obtain ⟨names, -, hp⟩ := bind_eq_ok hp
  obtain rfl := Except.ok.inj hp
  obtain ⟨-, hroom, hbrowsing⟩ := readLines_shows h hb
  exact ⟨congrArg Json.str hroom, congrArg Json.str hbrowsing⟩

end Histories

end HistoryAcceptance
