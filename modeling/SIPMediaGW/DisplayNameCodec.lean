import SIPMediaGW.EventHandler
import Mathlib.Algebra.GroupWithZero.Nat

/-! # The room in the display name

Kamailio's handler writes the dialled room in front of the caller's name, with its length. The
event handler reads both back; the launcher reads the name back for the gateway's status. -/
namespace DisplayNameCodec

open EventHandler
open PythonJson
open StatefulExceptions

/-- `(uri.split(":", 1)[1]).split('@')[0]`; `none` where it raises. -/
def roomOf (uri : List Char) : Option (List Char) :=
  match uri.dropWhile (· ≠ ':') with
  | _ :: rest => some (rest.takeWhile (· ≠ '@'))
  | [] => none

def callerName (fromHeader : List Char) : List Char :=
  if '<' ∈ fromHeader then fromHeader.takeWhile (· ≠ '<') else []

/-- `str(len(room))`, a hyphen, the room and the name without its quotes. -/
def prefixed (room displayName : List Char) : List Char :=
  Nat.toDigits 10 room.length ++ '-' :: (room ++ displayName.filter (· ≠ '"'))

/-- `'"%s-%s%s"'`, as the handler of an INVITE makes it; `none` where it raises. -/
def displayNameWRoom (uri fromHeader : List Char) : Option (List Char) :=
  (roomOf uri).map fun room => '"' :: prefixed room (callerName fromHeader) ++ ['"']

/-- An INVITE: a room without an at sign, a name without quotes and angle brackets. No text of
Python is longer than `sys.maxsize`. -/
structure Invite where
  scheme : List Char
  room : List Char
  host : List Char
  name : List Char
  address : List Char
  scheme_plain : ':' ∉ scheme
  room_plain : '@' ∉ room
  name_plain : '"' ∉ name ∧ '<' ∉ name
  room_size : room.length < 2 ^ 63

def Invite.uri (r : Invite) : List Char := r.scheme ++ ':' :: (r.room ++ '@' :: r.host)

def Invite.fromHeader (r : Invite) : List Char := r.name ++ '<' :: r.address

/-- `value.split("-", 1)`, then `remainder[int(prefix):].strip()`; `none` where it raises. -/
def withoutPrefix (value : List Char) : Option (List Char) :=
  match value.dropWhile (· ≠ '-') with
  | _ :: remainder =>
    (intOfText (String.ofList (value.takeWhile (· ≠ '-')))).map fun n =>
      stripChars isSpace (sliceFrom remainder n)
  | [] => none

def parseDisplayName (raw : List Char) : List Char :=
  let value := stripChars isSpace raw
  if value = [] then [] else (withoutPrefix value).getD value

/-- `displayName` of the event handler before its fallback to the URI. -/
def branchName (raw : List Char) : List Char :=
  match roomAndName (.str (String.ofList raw)) with
  | some (_, name) => name.toList
  | none => raw

/-- A blank for `strip()` that `int()` does not skip. -/
def isSeparator (c : Char) : Bool := isSpace c && !isNumberBlank c

/-- A prefix that `int()` reads only once the blanks before it are gone. -/
structure HiddenPrefix (raw : List Char) : Prop where
  separator : ∃ c ∈ raw.takeWhile isSpace, isSeparator c = true
  hyphen : '-' ∈ raw
  number : (intOfText
    (String.ofList ((raw.dropWhile isSpace).takeWhile (· ≠ '-')))).isSome = true

section Blanks

variable {blank : Char → Bool} {ws cs : List Char}

theorem stripChars_blank_append (h : ∀ c ∈ ws, blank c = true) (cs : List Char) :
    stripChars blank (ws ++ cs) = stripChars blank cs := by
  rw [stripChars, List.dropWhile_append_of_pos h, stripChars]

theorem rdropWhile_append_blank (h : ∀ c ∈ ws, blank c = true) (cs : List Char) :
    (cs ++ ws).rdropWhile blank = cs.rdropWhile blank := by
  have hreverse : ∀ c ∈ ws.reverse, blank c = true := fun c hc => h c (List.mem_reverse.mp hc)
  rw [List.rdropWhile, List.reverse_append, List.dropWhile_append_of_pos hreverse, List.rdropWhile]

theorem stripChars_append_blank (h : ∀ c ∈ ws, blank c = true) (cs : List Char) :
    stripChars blank (cs ++ ws) = stripChars blank cs := by
  rw [stripChars, stripChars, List.dropWhile_append]
  split
  · next hempty =>
    have hws : ws.dropWhile blank = [] := List.dropWhile_eq_nil_iff.mpr h
    rw [List.isEmpty_iff.mp hempty, hws]
  · exact rdropWhile_append_blank h _

/-- The blanks before and after what is stripped. -/
theorem exists_strip (blank : Char → Bool) (cs : List Char) :
    ∃ after, (∀ c ∈ after, blank c = true) ∧
      cs.dropWhile blank = stripChars blank cs ++ after ∧
      cs = cs.takeWhile blank ++ (stripChars blank cs ++ after) := by
  have hback : (cs.dropWhile blank).rdropWhile blank ++ (cs.dropWhile blank).rtakeWhile blank =
      cs.dropWhile blank := List.rdropWhile_append_rtakeWhile
  refine ⟨(cs.dropWhile blank).rtakeWhile blank, fun c hc => ?_, hback.symm, ?_⟩
  · exact List.mem_rtakeWhile_imp hc
  · rw [stripChars, hback, List.takeWhile_append_dropWhile]

theorem length_stripChars_le (blank : Char → Bool) (cs : List Char) :
    (stripChars blank cs).length ≤ cs.length :=
  ((List.rdropWhile_prefix blank _).length_le).trans (List.dropWhile_suffix blank).length_le

end Blanks

section Numbers

variable {ws cs : List Char} {c : Char}

theorem isNumberBlank_of_not_separator (hspace : isSpace c = true) (h : isSeparator c = false) :
    isNumberBlank c = true := by
  simpa [isSeparator, hspace] using h

theorem intOfText_blank_append (h : ∀ c ∈ ws, isNumberBlank c = true) (cs : List Char) :
    intOfText (String.ofList (ws ++ cs)) = intOfText (String.ofList cs) := by
  rw [intOfText, intOfText, String.toList_ofList, String.toList_ofList, stripChars_blank_append h]

theorem separator_toNat (h : isSeparator c = true) : 28 ≤ c.toNat ∧ c.toNat ≤ 31 := by
  simp only [isSeparator, isNumberBlank, Bool.and_eq_true, Bool.not_eq_true'] at h
  obtain ⟨hspace, hblank⟩ := h
  split at hblank
  · next hascii =>
    simp [isSpace] at hspace hblank
    omega
  · rw [hspace] at hblank
    cases hblank

theorem decimalDigit_separator (h : isSeparator c = true) : decimalDigit c = none := by
  obtain ⟨-, hhigh⟩ := separator_toNat h
  have hlow : ∀ z ∈ decimalZeros, 48 ≤ z := by decide
  rw [decimalDigit, Option.map_eq_none_iff, List.find?_eq_none]
  intro z hz
  have hz := hlow z hz
  simp only [Bool.and_eq_true, decide_eq_true_eq, not_and]
  omega

theorem digitsOf_mem {ds : List ℕ} (h : digitsOf cs = some ds) (hmem : c ∈ cs) :
    (decimalDigit c).isSome = true ∨ c = '_' := by
  fun_induction digitsOf cs generalizing ds with
  | case1 => cases h
  | case2 d =>
    obtain rfl := List.mem_singleton.mp hmem
    obtain ⟨n, hn, -⟩ := Option.map_eq_some_iff.mp h
    exact Or.inl (by rw [hn]; rfl)
  | case3 d cs ih =>
    obtain ⟨n, hn, h⟩ := Option.bind_eq_some_iff.mp h
    obtain ⟨ms, hms, -⟩ := Option.map_eq_some_iff.mp h
    rcases List.mem_cons.mp hmem with rfl | hmem
    · exact Or.inl (by rw [hn]; rfl)
    rcases List.mem_cons.mp hmem with rfl | hmem
    · exact Or.inr rfl
    · exact ih hms hmem
  | case4 d cs hcs hunderscore ih =>
    obtain ⟨n, hn, h⟩ := Option.bind_eq_some_iff.mp h
    obtain ⟨ms, hms, -⟩ := Option.map_eq_some_iff.mp h
    rcases List.mem_cons.mp hmem with rfl | hmem
    · exact Or.inl (by rw [hn]; rfl)
    · exact ih hms hmem

theorem naturalOfText_separator (h : isSeparator c = true) (hmem : c ∈ cs) :
    naturalOfText cs = none := by
  cases hdigits : digitsOf cs with
  | none => rw [naturalOfText, hdigits, Option.bind_none]
  | some ds =>
    rcases digitsOf_mem hdigits hmem with hsome | rfl
    · rw [decimalDigit_separator h] at hsome
      cases hsome
    · cases h

/-- `int()` does not read a text with a separator. -/
theorem intOfText_separator (h : isSeparator c = true) (hmem : c ∈ cs) :
    intOfText (String.ofList cs) = none := by
  have hnot : ¬ isNumberBlank c = true := by
    simp only [isSeparator, Bool.and_eq_true, Bool.not_eq_true'] at h
    simp [h.2]
  obtain ⟨after, hafter, -, hcs⟩ := exists_strip isNumberBlank cs
  have hstripped : c ∈ stripChars isNumberBlank cs := by
    rw [hcs, List.mem_append, List.mem_append] at hmem
    rcases hmem with hmem | hmem | hmem
    · exact absurd (List.mem_takeWhile_imp hmem) hnot
    · exact hmem
    · exact absurd (hafter c hmem) hnot
  rw [intOfText, String.toList_ofList]
  split
  · next ds heq =>
    rw [heq] at hstripped
    have hds := (List.mem_cons.mp hstripped).resolve_left (by rintro rfl; cases h)
    rw [naturalOfText_separator h hds]
    rfl
  · next ds heq =>
    rw [heq] at hstripped
    have hds := (List.mem_cons.mp hstripped).resolve_left (by rintro rfl; cases h)
    rw [naturalOfText_separator h hds]
    rfl
  · rw [naturalOfText_separator h hstripped]
    rfl

theorem intOfText_nonneg {n : ℤ} (hmem : '-' ∉ cs) (h : intOfText (String.ofList cs) = some n) :
    0 ≤ n := by
  have hnatural (o : Option ℕ) (ho : (o.map fun k => (k : ℤ)) = some n) : 0 ≤ n := by
    cases o with
    | none => cases ho
    | some k =>
      obtain rfl := Option.some.inj ho
      exact Int.natCast_nonneg k
  rw [intOfText, String.toList_ofList] at h
  split at h
  · next ds heq =>
    obtain ⟨after, -, -, hcs⟩ := exists_strip isNumberBlank cs
    rw [heq] at hcs
    exact absurd (by rw [hcs]; simp) hmem
  · exact hnatural _ h
  · exact hnatural _ h

end Numbers

section Decoders

variable {raw ws cs rest : List Char}

theorem split_hyphen (h : '-' ∉ cs) (rest : List Char) :
    (cs ++ '-' :: rest).takeWhile (fun c => decide (c ≠ '-')) = cs ∧
      (cs ++ '-' :: rest).dropWhile (fun c => decide (c ≠ '-')) = '-' :: rest := by
  have hcs : ∀ c ∈ cs, decide (c ≠ '-') = true :=
    fun c hc => decide_eq_true fun heq => h (heq ▸ hc)
  constructor
  · rw [List.takeWhile_append_of_pos hcs]
    simp
  · rw [List.dropWhile_append_of_pos hcs]
    simp

theorem branchName_prefixed (h : '-' ∉ cs) (rest : List Char) :
    branchName (cs ++ '-' :: rest) = match intOfText (String.ofList cs) with
      | some n => sliceFrom rest n
      | none => cs ++ '-' :: rest := by
  obtain ⟨htake, hdrop⟩ := split_hyphen h rest
  rw [branchName, roomAndName]
  simp only [String.toList_ofList, htake, hdrop]
  cases intOfText (String.ofList cs) <;> simp

theorem branchName_of_notMem (h : '-' ∉ raw) : branchName raw = raw := by
  have hdrop : raw.dropWhile (fun c => decide (c ≠ '-')) = [] :=
    List.dropWhile_eq_nil_iff.mpr fun c hc => decide_eq_true fun heq => h (heq ▸ hc)
  rw [branchName, roomAndName]
  simp only [String.toList_ofList, hdrop]

theorem withoutPrefix_prefixed (h : '-' ∉ cs) (rest : List Char) :
    withoutPrefix (cs ++ '-' :: rest) = (intOfText (String.ofList cs)).map fun n =>
      stripChars isSpace (sliceFrom rest n) := by
  obtain ⟨htake, hdrop⟩ := split_hyphen h rest
  rw [withoutPrefix, hdrop, htake]

theorem withoutPrefix_of_notMem (h : '-' ∉ raw) : withoutPrefix raw = none := by
  have hdrop : raw.dropWhile (fun c => decide (c ≠ '-')) = [] :=
    List.dropWhile_eq_nil_iff.mpr fun c hc => decide_eq_true fun heq => h (heq ▸ hc)
  rw [withoutPrefix, hdrop]

/-- Stripping before the cut and after it. -/
theorem stripChars_sliceFrom {n : ℤ} (hn : 0 ≤ n) (h : ∀ c ∈ ws, isSpace c = true) :
    stripChars isSpace (sliceFrom (rest ++ ws) n) = stripChars isSpace (sliceFrom rest n) := by
  have hdropped : ∀ c ∈ ws.drop (n.toNat - rest.length), isSpace c = true :=
    fun c hc => h c (List.mem_of_mem_drop hc)
  rw [sliceFrom, sliceFrom, if_neg (by omega), if_neg (by omega), List.drop_append,
    stripChars_append_blank hdropped]

theorem hyphen_notMem_blanks (h : ∀ c ∈ ws, isSpace c = true) : '-' ∉ ws :=
  fun hmem => absurd (h '-' hmem) (by decide)

theorem hyphen_mem_strip_iff (raw : List Char) : '-' ∈ stripChars isSpace raw ↔ '-' ∈ raw := by
  obtain ⟨after, hafter, -, hraw⟩ := exists_strip isSpace raw
  constructor
  · intro hmem
    rw [hraw]
    exact List.mem_append_right _ (List.mem_append_left _ hmem)
  · intro hmem
    rw [hraw, List.mem_append, List.mem_append] at hmem
    have hbefore := hyphen_notMem_blanks fun c (hc : c ∈ raw.takeWhile isSpace) =>
      List.mem_takeWhile_imp hc
    exact (hmem.resolve_left hbefore).resolve_right (hyphen_notMem_blanks hafter)

/-- A text with a hyphen, without the blanks before it: a prefix, the rest and blanks. -/
structure Parts (raw p rest after : List Char) : Prop where
  plain : '-' ∉ p
  blank : ∀ c ∈ after, isSpace c = true
  body : raw.dropWhile isSpace = p ++ '-' :: (rest ++ after)
  value : stripChars isSpace raw = p ++ '-' :: rest

theorem exists_parts (h : '-' ∈ raw) : ∃ p rest after, Parts raw p rest after := by
  obtain ⟨after, hafter, hbody, -⟩ := exists_strip isSpace raw
  obtain ⟨p, rest, hvalue, hp⟩ := List.eq_append_cons_of_mem ((hyphen_mem_strip_iff raw).mpr h)
  refine ⟨p, rest, after, hp, hafter, ?_, hvalue⟩
  rw [hbody, hvalue, List.append_assoc, List.cons_append]

namespace Parts

variable {p after : List Char}

theorem whole (h : Parts raw p rest after) :
    (raw.takeWhile isSpace ++ p) ++ '-' :: (rest ++ after) = raw := by
  rw [List.append_assoc, ← h.body, List.takeWhile_append_dropWhile]

theorem hyphen (h : Parts raw p rest after) : '-' ∈ raw := by
  rw [← h.whole]
  exact List.mem_append_right _ List.mem_cons_self

theorem number (h : Parts raw p rest after) :
    (raw.dropWhile isSpace).takeWhile (fun c => decide (c ≠ '-')) = p := by
  rw [h.body]
  exact (split_hyphen h.plain _).1

theorem branchName_eq (h : Parts raw p rest after) :
    branchName raw = match intOfText (String.ofList (raw.takeWhile isSpace ++ p)) with
      | some n => sliceFrom (rest ++ after) n
      | none => raw := by
  have hplain : '-' ∉ raw.takeWhile isSpace ++ p := by
    rw [List.mem_append, not_or]
    exact ⟨hyphen_notMem_blanks fun c hc => List.mem_takeWhile_imp hc, h.plain⟩
  have hbranch := branchName_prefixed hplain (rest ++ after)
  rwa [h.whole] at hbranch

theorem parseDisplayName_eq (h : Parts raw p rest after) :
    parseDisplayName raw = match intOfText (String.ofList p) with
      | some n => stripChars isSpace (sliceFrom rest n)
      | none => stripChars isSpace raw := by
  have hne : stripChars isSpace raw ≠ [] := by simp [h.value]
  rw [parseDisplayName, if_neg hne]
  nth_rewrite 1 [h.value]
  rw [withoutPrefix_prefixed h.plain]
  cases intOfText (String.ofList p) <;> rfl

/-- The number is read in both, or in none. -/
theorem agree (h : Parts raw p rest after)
    (hnumber : intOfText (String.ofList (raw.takeWhile isSpace ++ p)) =
      intOfText (String.ofList p)) :
    parseDisplayName raw = stripChars isSpace (branchName raw) := by
  rw [h.parseDisplayName_eq, h.branchName_eq, hnumber]
  cases hint : intOfText (String.ofList p) with
  | none => rfl
  | some n => exact (stripChars_sliceFrom (intOfText_nonneg h.plain hint) h.blank).symm

/-- Only the launcher reads the number, and what it leaves of the text is shorter. -/
theorem disagree (h : Parts raw p rest after)
    (hnone : intOfText (String.ofList (raw.takeWhile isSpace ++ p)) = none)
    (hsome : (intOfText (String.ofList p)).isSome = true) :
    parseDisplayName raw ≠ stripChars isSpace (branchName raw) := by
  obtain ⟨n, hn⟩ := Option.isSome_iff_exists.mp hsome
  have hbranch : branchName raw = raw := by
    rw [h.branchName_eq, hnone]
  intro heq
  rw [hbranch, h.parseDisplayName_eq, hn, h.value] at heq
  have hslice : (sliceFrom rest n).length ≤ rest.length := by
    rw [sliceFrom]
    split <;> simp
  have hle := length_stripChars_le isSpace (sliceFrom rest n)
  have hlength := congrArg List.length heq
  simp only [List.length_append, List.length_cons] at hlength
  omega

end Parts

/-- The launcher reads the name of the event handler, but for a number behind a separator. -/
theorem parseDisplayName_eq_iff (raw : List Char) :
    parseDisplayName raw = stripChars isSpace (branchName raw) ↔ ¬ HiddenPrefix raw := by
  by_cases hmem : '-' ∈ raw
  · obtain ⟨p, rest, after, h⟩ := exists_parts hmem
    by_cases hsep : ∃ c ∈ raw.takeWhile isSpace, isSeparator c = true
    · obtain ⟨c, hc, hcsep⟩ := hsep
      have hnone := intOfText_separator hcsep (List.mem_append_left p hc)
      cases hint : intOfText (String.ofList p) with
      | none =>
        refine ⟨fun _ hidden => ?_, fun _ => h.agree (hnone.trans hint.symm)⟩
        have hsome := hidden.number
        rw [h.number, hint] at hsome
        cases hsome
      | some n =>
        have hsome : (intOfText (String.ofList p)).isSome = true := by
          rw [hint]
          rfl
        refine ⟨fun heq => absurd heq (h.disagree hnone hsome), fun hidden => ?_⟩
        exact absurd ⟨⟨c, hc, hcsep⟩, hmem, by rw [h.number, hsome]⟩ hidden
    · have hblank : ∀ c ∈ raw.takeWhile isSpace, isNumberBlank c = true := by
        intro c hc
        refine isNumberBlank_of_not_separator (List.mem_takeWhile_imp hc) ?_
        exact Bool.eq_false_iff.mpr fun hc' => hsep ⟨c, hc, hc'⟩
      exact ⟨fun _ hidden => hsep hidden.separator,
        fun _ => h.agree (intOfText_blank_append hblank p)⟩
  · refine ⟨fun _ hidden => hmem hidden.hyphen, fun _ => ?_⟩
    rw [branchName_of_notMem hmem, parseDisplayName,
      withoutPrefix_of_notMem (mt (hyphen_mem_strip_iff raw).mp hmem)]
    split
    · next hempty => exact hempty.symm
    · rfl

end Decoders

section Encoder

variable {room name : List Char}

theorem hyphen_notMem_digits (n : ℕ) : '-' ∉ Nat.toDigits 10 n := by
  intro hmem
  have hdigit : ('-' : Char).isDigit = true :=
    Nat.isDigit_of_mem_toDigits (by decide) (by decide) hmem
  exact absurd hdigit (by decide)

theorem prefixed_plain (room : List Char) (h : '"' ∉ name) :
    prefixed room name = Nat.toDigits 10 room.length ++ '-' :: (room ++ name) := by
  have hfilter : name.filter (fun c => decide (c ≠ '"')) = name :=
    List.filter_eq_self.mpr fun c hc => decide_eq_true fun heq => h (heq ▸ hc)
  rw [prefixed, hfilter]

theorem digits_le (h : room.length < 2 ^ 63) :
    (Nat.toDigits 10 room.length).length ≤ maxStrDigits := by
  have hsmall : room.length < 10 ^ 19 := h.trans (by decide)
  have hle : (Nat.toDigits 10 room.length).length ≤ 19 :=
    (Nat.length_toDigits_le_iff (by decide) (by decide)).mpr hsmall
  exact hle.trans (by decide)

/-- The prefix is cut off where the room ends, whatever the room looks like. -/
theorem roomAndName_prefixed (h : room.length < 2 ^ 63) (hname : '"' ∉ name) :
    roomAndName (.str (String.ofList (prefixed room name))) =
      some (String.ofList room, String.ofList name) := by
  obtain ⟨htake, hdrop⟩ := split_hyphen (hyphen_notMem_digits room.length) (room ++ name)
  rw [prefixed_plain room hname, roomAndName]
  simp only [String.toList_ofList, htake, hdrop, intOfText_toDigits (digits_le h),
    Option.map_some]
  have hnot : ¬ (room.length : ℤ) < 0 := by omega
  rw [sliceTo, sliceFrom, if_neg hnot, if_neg hnot, Int.toNat_natCast, List.take_left,
    List.drop_left]

theorem Invite.displayNameWRoom_eq (r : Invite) :
    displayNameWRoom r.uri r.fromHeader = some ('"' :: prefixed r.room r.name ++ ['"']) := by
  have hscheme : ∀ c ∈ r.scheme, decide (c ≠ ':') = true :=
    fun c hc => decide_eq_true fun heq => r.scheme_plain (heq ▸ hc)
  have hroom : ∀ c ∈ r.room, decide (c ≠ '@') = true :=
    fun c hc => decide_eq_true fun heq => r.room_plain (heq ▸ hc)
  have hname : ∀ c ∈ r.name, decide (c ≠ '<') = true :=
    fun c hc => decide_eq_true fun heq => r.name_plain.2 (heq ▸ hc)
  have huri : roomOf r.uri = some r.room := by
    rw [roomOf, Invite.uri, List.dropWhile_append_of_pos hscheme,
      List.dropWhile_cons_of_neg (by simp)]
    dsimp only
    rw [List.takeWhile_append_of_pos hroom]
    simp
  have hcaller : callerName r.fromHeader = r.name := by
    rw [callerName, Invite.fromHeader, if_pos (by simp), List.takeWhile_append_of_pos hname]
    simp
  rw [displayNameWRoom, huri, hcaller, Option.map_some]

end Encoder

theorem shownName_eq {data : Dict} {raw : List Char}
    (h : data.lookup "peerdisplayname" = some (.str (String.ofList raw))) :
    shownName data = .str (String.ofList (branchName raw)) := by
  rw [shownName, h, branchName]
  dsimp only
  cases roomAndName (.str (String.ofList raw)) with
  | none => rfl
  | some p => rw [String.ofList_toList]

theorem mixedId_noteRoom {data : Dict} {raw : List Char} {room name : String}
    (h : data.lookup "peerdisplayname" = some (.str (String.ofList raw)))
    (hroom : roomAndName (.str (String.ofList raw)) = some (room, name)) (ivr : Ivr) :
    (exec (noteRoom data) ivr).2.mixedId = room := by
  rw [noteRoom, h, Option.bind_some, hroom, exec_modify]

/-- What the handler writes is read back; the launcher strips what the event handler reads, but
for a number behind a separator. -/
theorem displayName_codec (r : Invite) (raw : List Char) :
    (displayNameWRoom r.uri r.fromHeader =
        some ('"' :: (Nat.toDigits 10 r.room.length ++ '-' :: (r.room ++ r.name)) ++ ['"']) ∧
      ∀ data ivr, data.lookup "peerdisplayname" = some (.str (String.ofList
          (Nat.toDigits 10 r.room.length ++ '-' :: (r.room ++ r.name)))) →
        (exec (noteRoom data) ivr).2.mixedId = String.ofList r.room ∧
          shownName data = .str (String.ofList r.name)) ∧
      ∀ data, data.lookup "peerdisplayname" = some (.str (String.ofList raw)) →
        ∃ name, shownName data = .str (String.ofList name) ∧
          (parseDisplayName raw = stripChars isSpace name ↔ ¬ HiddenPrefix raw) := by
  constructor
  · have hprefixed := prefixed_plain r.room r.name_plain.1
    have hread := roomAndName_prefixed r.room_size r.name_plain.1
    rw [hprefixed] at hread
    refine ⟨by rw [r.displayNameWRoom_eq, hprefixed], fun data ivr hdata => ?_⟩
    refine ⟨mixedId_noteRoom hdata hread ivr, ?_⟩
    rw [shownName_eq hdata, branchName, hread]
    dsimp only
    rw [String.toList_ofList]
  · intro data hdata
    exact ⟨branchName raw, shownName_eq hdata, parseDisplayName_eq_iff raw⟩

/-- A room that looks like a prefix. -/
def hyphenInvite : Invite where
  scheme := ['s', 'i', 'p']
  room := ['4', '-', '7']
  host := ['a', '.', 'b']
  name := ['A', 'n', 'n']
  address := ['s', 'i', 'p', ':', 'a', '>']
  scheme_plain := by decide
  room_plain := by decide
  name_plain := by decide
  room_size := by decide

theorem codec_hyphenInvite :
    shownName [("peerdisplayname", .str "3-4-7Ann")] = .str "Ann" ∧
      parseDisplayName ['3', '-', '4', '-', '7', 'A', 'n', 'n'] = ['A', 'n', 'n'] := by
  have hdata : [("peerdisplayname", Json.str "3-4-7Ann")].lookup "peerdisplayname" =
    some (.str (String.ofList ['3', '-', '4', '-', '7', 'A', 'n', 'n'])) := rfl
  have hshown := ((displayName_codec hyphenInvite []).1.2 _
    (Ivr.init none none none false) hdata).2
  obtain ⟨name, hname, hiff⟩ := (displayName_codec hyphenInvite _).2 _ hdata
  have hnot : ¬ HiddenPrefix ['3', '-', '4', '-', '7', 'A', 'n', 'n'] := fun h => by
    obtain ⟨c, hc, -⟩ := h.separator
    have hfront : ['3', '-', '4', '-', '7', 'A', 'n', 'n'].takeWhile isSpace = [] := by decide
    rw [hfront] at hc
    cases hc
  have hlist : name = ['A', 'n', 'n'] := by
    rw [hshown] at hname
    exact (String.ofList_injective (Json.str.inj hname)).symm
  refine ⟨hshown, ?_⟩
  rw [hiff.mpr hnot, hlist]
  decide

/-- A file separator, then a prefix: only the launcher reads it. -/
theorem separator_hides_prefix :
    parseDisplayName (Char.ofNat 28 :: ['1', '-', '0', 'B', 'o', 'b']) = ['B', 'o', 'b'] ∧
      stripChars isSpace (branchName (Char.ofNat 28 :: ['1', '-', '0', 'B', 'o', 'b'])) =
        ['1', '-', '0', 'B', 'o', 'b'] := by
  decide

end DisplayNameCodec
