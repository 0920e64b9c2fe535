import SIPMediaGW.JsonDumps
import SIPMediaGW.ScriptTexts

/-! # The script that starts a meeting

`Browsing.__init__` puts eight values between single quotes, as they are, and `Browsing.join`
executes what comes of it. -/
namespace MeetingScript

open JsonDumps
open PythonJson
open ScriptTexts

/-- What the IVR page hands over. Its numbers are those of a browser, so `json.dumps` writes any
of them. -/
structure Room where
  webrtcDomain : String
  roomName : String
  displayName : String
  lang : String
  ivrPrompts : Json
  roomToken : String

/-- Environment variables of the gateway. -/
structure Environment where
  audioOnly : Option String
  dualScreenLayout : Option String
  dualScreenByDefault : Option String

/-- `'{}'.format(value)` of a text or of `None`. -/
def formatted : Option String → String
  | none => "None"
  | some s => s

def dualScreen (env : Environment) : Bool :=
  decide (env.dualScreenLayout = some "true") && decide (env.dualScreenByDefault = some "true")

/-- The values for the eight pairs of braces. -/
def values (f : FloatTexts) (env : Environment) (room : Room) : List (List Char) :=
  [room.webrtcDomain.toList, room.roomName.toList, room.displayName.toList, room.lang.toList,
    asciiDumps f room.ivrPrompts, room.roomToken.toList, (formatted env.audioOnly).toList,
    (if dualScreen env then "True" else "False").toList]

def initScript (f : FloatTexts) (env : Environment) (room : Room) : List Char :=
  "window.meeting = new window.Browsing(".toList ++
    [',', ' '].intercalate ((values f env room).map fun v => '\'' :: v ++ ['\'']) ++ [')']

/-- The tokens before the arguments. -/
def constructorTokens : List Token :=
  [.name "window".toList, .mark '.', .name "meeting".toList, .mark '=', .name "new".toList,
    .name "window".toList, .mark '.', .name "Browsing".toList, .mark '(']

/-- One call of the constructor, with string literals for arguments. -/
def callTokens (vs : List (List Char)) : List Token :=
  constructorTokens ++ (vs.map fun v => Token.text (units v)).intersperse (.mark ',') ++ [.mark ')']

/-- The script is the call with the values for arguments, and nothing else. -/
def StartsMeeting (f : FloatTexts) (env : Environment) (room : Room) : Prop :=
  tokens (initScript f env room) = some (callTokens (values f env room))

/-- A character of a prompt that is written and read as it is. -/
def isPlain (c : Char) : Bool :=
  decide (32 ≤ c.toNat) && decide (c.toNat < 127) && decide (c ∉ ['\'', '"', '\\'])

/-- No value needs an escape. -/
structure Verbatim (env : Environment) (room : Room) : Prop where
  strings : ∀ s ∈ [room.webrtcDomain, room.roomName, room.displayName, room.lang, room.roomToken],
    Inert '\'' s.toList
  prompts : ∀ s ∈ texts room.ivrPrompts, ∀ c ∈ s.toList, isPlain c = true
  audioOnly : ∀ s, env.audioOnly = some s → Inert '\'' s.toList

section Prompts

variable {c : Char}

theorem inert_flatMap_iff {escaped : Char → List Char} (cs : List Char) :
    Inert '\'' (cs.flatMap escaped) ↔ ∀ c ∈ cs, Inert '\'' (escaped c) := by
  constructor
  · intro h c hc d hd
    exact h d (List.mem_flatMap.mpr ⟨c, hc, hd⟩)
  · intro h d hd
    obtain ⟨c, hc, hd⟩ := List.mem_flatMap.mp hd
    exact h c hc d hd

theorem not_inert_escape (cs : List Char) : ¬ Inert '\'' ('\\' :: cs) :=
  fun h => (h '\\' List.mem_cons_self).2.1 rfl

/-- A character of JSON that stands in the script as it is. -/
def isWritten (c : Char) : Bool :=
  decide (32 ≤ c.toNat) && decide (c.toNat < 127) && decide (c ∉ ['\'', '\\'])

theorem inert_asciiChar_iff (c : Char) : Inert '\'' (asciiChar c) ↔ isWritten c = true := by
  unfold asciiChar
  split
  · next hvisible =>
    rw [isWritten, decide_eq_true hvisible.1, decide_eq_true hvisible.2, Bool.true_and,
      Bool.true_and, decide_eq_true_eq]
    constructor
    · intro h hc
      obtain ⟨hquote, hbackslash, -⟩ := h c List.mem_cons_self
      rcases List.mem_pair.mp hc with hc | hc
      · exact hquote hc
      · exact hbackslash hc
    · intro h d hd
      obtain rfl := List.mem_singleton.mp hd
      have hlow : ¬ 32 ≤ '\n'.toNat ∧ ¬ 32 ≤ '\r'.toNat := ⟨by decide, by decide⟩
      refine ⟨fun heq => h (heq ▸ List.mem_cons_self), fun heq => ?_, ?_, ?_⟩
      · exact h (heq ▸ List.mem_cons_of_mem _ List.mem_cons_self)
      · rintro rfl
        exact hlow.1 hvisible.1
      · rintro rfl
        exact hlow.2 hvisible.1
  · next hhidden =>
    have hfalse : isWritten c = false := by
      rw [isWritten, ← Bool.decide_and, decide_eq_false hhidden, Bool.false_and]
    rw [hfalse]
    split
    · exact iff_of_false (not_inert_escape _) Bool.false_ne_true
    · exact iff_of_false (not_inert_escape _) Bool.false_ne_true

theorem isWritten_escapeChar_iff (c : Char) :
    (∀ d ∈ escapeChar c, isWritten d = true) ↔ isPlain c = true := by
  have hbackslash (cs : List Char) : ¬ ∀ d ∈ '\\' :: cs, isWritten d = true :=
    fun h => absurd (h '\\' List.mem_cons_self) (by decide)
  have hplain (n : Char) (hn : isPlain n = false) (hc : c = n) : ¬ isPlain c = true := by
    rw [hc, hn]
    exact Bool.false_ne_true
  unfold escapeChar
  split
  · next h =>
    refine iff_of_false (hbackslash _) ?_
    rcases h with rfl | rfl
    · decide
    · decide
  · next h =>
    split_ifs with hfeed hreturn htab hform hback hlow
    · exact iff_of_false (hbackslash _) (hplain _ (by decide) hfeed)
    · exact iff_of_false (hbackslash _) (hplain _ (by decide) hreturn)
    · exact iff_of_false (hbackslash _) (hplain _ (by decide) htab)
    · exact iff_of_false (hbackslash _) (hplain _ (by decide) hform)
    · exact iff_of_false (hbackslash _) (hplain _ (by decide) hback)
    · refine iff_of_false (hbackslash _) ?_
      rw [isPlain, decide_eq_false (not_le.mpr hlow), Bool.false_and, Bool.false_and]
      exact Bool.false_ne_true
    · have hquote : c ≠ '"' := fun heq => h (.inl heq)
      have hmem : c ∉ ['\'', '\\'] ↔ c ∉ ['\'', '"', '\\'] := by
        simp only [List.mem_cons, List.not_mem_nil, or_false, hquote, false_or]
      rw [List.forall_mem_singleton, isWritten, isPlain, decide_eq_decide.mpr hmem]

theorem inert_asciiDumps_iff (f : FloatTexts) (v : Json) :
    Inert '\'' (asciiDumps f v) ↔ ∀ s ∈ texts v, ∀ c ∈ s.toList, isPlain c = true := by
  have hbare : (bareChars.all isWritten) = true := by decide
  have hwritten := @forall_mem_dumps_iff f (fun d => isWritten d = true)
    (List.all_eq_true.mp hbare) v
  rw [asciiDumps, inert_flatMap_iff]
  simp only [inert_asciiChar_iff, hwritten, isWritten_escapeChar_iff]

end Prompts

section Script

variable {f : FloatTexts} {env : Environment} {room : Room}

theorem initScript_eq (f : FloatTexts) (env : Environment) (room : Room) :
    initScript f env room =
      "window.meeting = new window.Browsing(".toList ++ arguments (values f env room) :=
  List.append_assoc _ _ _

theorem tokens_constructor (cs : List Char) :
    tokens ("window.meeting = new window.Browsing(".toList ++ cs) =
      (tokens cs).map (constructorTokens ++ ·) := by
  have hsteps : nextN 12 ("window.meeting = new window.Browsing(".toList ++ cs) =
      some (constructorTokens, cs) := rfl
  exact tokens_of_nextN hsteps

/-- The environment is inert, whatever the flag. -/
theorem inert_formatted_iff (v : Option String) :
    Inert '\'' (formatted v).toList ↔ ∀ s, v = some s → Inert '\'' s.toList := by
  cases v with
  | none =>
    refine iff_of_true ?_ fun s hs => nomatch hs
    have hnone : "None".toList.all (fun c => decide (c ≠ '\'' ∧ c ≠ '\\' ∧ c ≠ '\n' ∧ c ≠ '\r')) =
        true := by decide
    exact fun c hc => of_decide_eq_true (List.all_eq_true.mp hnone c hc)
  | some s => exact ⟨fun h t ht => Option.some.inj ht ▸ h, fun h => h s rfl⟩

theorem inert_flag (b : Bool) : Inert '\'' (if b then "True" else "False").toList := by
  have hwords : ["True", "False"].all (fun word => word.toList.all fun c =>
      decide (c ≠ '\'' ∧ c ≠ '\\' ∧ c ≠ '\n' ∧ c ≠ '\r')) = true := by decide
  have hword (word : String) (hmem : word ∈ ["True", "False"]) : Inert '\'' word.toList :=
    fun c hc => of_decide_eq_true (List.all_eq_true.mp (List.all_eq_true.mp hwords word hmem) c hc)
  split
  · exact hword "True" List.mem_cons_self
  · exact hword "False" (List.mem_cons_of_mem _ List.mem_cons_self)

theorem inert_values_iff :
    (∀ v ∈ values f env room, Inert '\'' v) ↔ Verbatim env room := by
  simp only [values, List.forall_mem_cons, List.not_mem_nil, false_imp_iff, implies_true, and_true,
    inert_asciiDumps_iff, inert_formatted_iff, inert_flag]
  constructor
  · rintro ⟨hdomain, hroom, hname, hlang, hprompts, htoken, haudio⟩
    refine ⟨?_, hprompts, haudio⟩
    simp only [List.forall_mem_cons, List.not_mem_nil, false_imp_iff, implies_true, and_true]
    exact ⟨hdomain, hroom, hname, hlang, htoken⟩
  · rintro ⟨hstrings, hprompts, haudio⟩
    simp only [List.forall_mem_cons, List.not_mem_nil, false_imp_iff, implies_true,
      and_true] at hstrings
    obtain ⟨hdomain, hroom, hname, hlang, htoken⟩ := hstrings
    exact ⟨hdomain, hroom, hname, hlang, hprompts, htoken, haudio⟩

theorem startsMeeting_iff_inert :
    StartsMeeting f env room ↔ ∀ v ∈ values f env room, Inert '\'' v := by
  have hne : values f env room ≠ [] := List.cons_ne_nil _ _
  rw [StartsMeeting, initScript_eq, tokens_constructor, ← tokens_arguments_iff hne]
  constructor
  · intro h
    obtain ⟨us, hus, heq⟩ := Option.map_eq_some_iff.mp h
    rw [callTokens, List.append_assoc] at heq
    rw [hus, List.append_cancel_left heq]
    rfl
  · intro h
    rw [h, Option.map_some, callTokens, List.append_assoc]
    rfl

end Script

/-- The script is the one call exactly where no value needs an escape. -/
theorem startsMeeting_iff (f : FloatTexts) (env : Environment) (room : Room) :
    StartsMeeting f env room ↔ Verbatim env room :=
  startsMeeting_iff_inert.trans inert_values_iff

/-- A caller with an apostrophe in the name. -/
def guest : Room :=
  ⟨"meet.example", "room", "Jeanne d'Arc", "fr", .obj [], ""⟩

theorem apostrophe_breaks_script : ¬ StartsMeeting plainFloats ⟨none, none, none⟩ guest := by
  intro h
  have hname := startsMeeting_iff_inert.mp h "Jeanne d'Arc".toList
    (List.mem_cons_of_mem _ (List.mem_cons_of_mem _ List.mem_cons_self))
  exact (hname '\'' (by decide)).1 rfl

end MeetingScript
