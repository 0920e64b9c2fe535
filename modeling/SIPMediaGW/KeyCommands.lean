import SIPMediaGW.LogParser
import SIPMediaGW.ShellWords

/-! # Key commands

`sendCommand` formats the key of a `sendKey`, and each character of a `sendString`, into a command
line for the shell of the gateway. -/
namespace KeyCommands

open PythonJson
open ShellWords

/-- The payloads of the two key commands. -/
inductive Command where
  | sendKey (param1 : String)
  | sendString (param1 : String)

/-- The name of a key that `sendKey` is asked for. -/
def keyName (k : String) : String :=
  let k := if k = "#" ∨ k = "Enter" then "numbersign" else k
  let k := if k = "*" ∨ k = "Backspace" then "asterisk" else k
  if k = "-" then "minus" else k

def charName (c : Char) : String :=
  if c = '#' then "numbersign"
  else if c = '*' then "asterisk"
  else if c = '-' then "minus"
  else String.singleton c

/-- The first line of what the gateway prints of its variables. -/
def displayWeb (out : String) : String :=
  strip (String.ofList (out.toList.takeWhile fun c => !LogParser.isLineEnd c))

def commandLine (display k : String) : String := "DISPLAY=" ++ display ++ " xdotool key " ++ k

/-- The command lines for `sh -c`, in the order in which they are executed. -/
def sendCommand (out : String) : Command → List String
  | .sendKey k => [commandLine (displayWeb out) (keyName k)]
  | .sendString s => s.toList.map fun c => commandLine (displayWeb out) (charName c)

/-- One command, the one that presses a key. -/
def Presses (display name line : String) : Prop :=
  command line.toList = some
    ⟨[("DISPLAY".toList, display.toList)], ["xdotool".toList, "key".toList, name.toList]⟩

/-- The keys that a command is to press. -/
def keyNames : Command → List String
  | .sendKey k => [keyName k]
  | .sendString s => s.toList.map charName

/-- One such command for each key, in their order. -/
def PressesKeys (out : String) (c : Command) : Prop :=
  List.Forall₂ (Presses (displayWeb out)) (keyNames c) (sendCommand out c)

/-- A display that is assigned as it is. -/
def PlainDisplay (display : String) : Prop :=
  bare display.toList = true ∧ valueTilde true (unquoted display.toList) = false

/-- Characters that no word consists of alone. -/
def hazards : List Char :=
  [Char.ofNat 0, ' ', '\t', '\n', ';', '&', '|', '<', '>', '(', ')', '\'', '"', '`', '?', '~']

/-- Parameters that the shell does not interpret. -/
def Harmless (display : String) : Command → Prop
  | .sendKey k => PlainDisplay display ∧ (k = "#" ∨ k = "*" ∨ PlainWord k.toList)
  | .sendString s => s ≠ "" → PlainDisplay display ∧ ∀ c ∈ s.toList, c ∉ hazards

section Line

variable {d k : List Char}

def lineChars (d k : List Char) : List Char :=
  "DISPLAY=".toList ++ d ++ ' ' :: ("xdotool".toList ++ ' ' :: ("key".toList ++ ' ' :: k))

theorem middle_toList :
    " xdotool key ".toList = ' ' :: ("xdotool".toList ++ ' ' :: ("key".toList ++ [' '])) := by
  decide

theorem commandLine_toList (display name : String) :
    (commandLine display name).toList = lineChars display.toList name.toList := by
  unfold commandLine lineChars
  rw [String.toList_append, String.toList_append, String.toList_append, middle_toList,
    List.append_assoc ("DISPLAY=".toList ++ display.toList)]
  simp only [List.cons_append, List.append_assoc, List.nil_append]

/-- The tokens of a line whose display is plain. -/
theorem lex_lineChars (hd : bare ("DISPLAY=".toList ++ d) = true) :
    lex .blank (lineChars d k) = (lex .blank k).map fun ts =>
      .word (unquoted ("DISPLAY=".toList ++ d)) :: .word (unquoted "xdotool".toList) ::
        .word (unquoted "key".toList) :: ts := by
  have hxdotool := @lex_blank_bare 'x' "dotool".toList (by decide) (by decide)
    ("key".toList ++ ' ' :: k)
  have hkey := @lex_blank_bare 'k' "ey".toList (by decide) (by decide) k
  have hdisplay := @lex_blank_bare 'D' ("ISPLAY=".toList ++ d) hd (by decide)
    ("xdotool".toList ++ ' ' :: ("key".toList ++ ' ' :: k))
  refine hdisplay.trans ?_
  rw [show "xdotool".toList ++ ' ' :: ("key".toList ++ ' ' :: k) =
    'x' :: "dotool".toList ++ ' ' :: ("key".toList ++ ' ' :: k) from rfl, hxdotool,
    show "key".toList ++ ' ' :: k = 'k' :: "ey".toList ++ ' ' :: k from rfl, hkey,
    Option.map_map, Option.map_map]
  rfl

theorem simpleCommand_tokens (d : List Char) (ts : List Token) :
    simpleCommand (.word (unquoted ("DISPLAY=".toList ++ d)) :: .word (unquoted "xdotool".toList) ::
        .word (unquoted "key".toList) :: ts) =
      (fixedValue (unquoted d)).bind fun v => (ts.mapM argumentText).map fun words =>
        ⟨[("DISPLAY".toList, v)], "xdotool".toList :: "key".toList :: words⟩ := by
  have hassign : assignment (unquoted ("DISPLAY=".toList ++ d)) =
      some ("DISPLAY".toList, unquoted d) := rfl
  have hword : assignment (unquoted "xdotool".toList) = none := rfl
  have hxdotool : argumentText (.word (unquoted "xdotool".toList)) = some "xdotool".toList := rfl
  have hkey : argumentText (.word (unquoted "key".toList)) = some "key".toList := rfl
  rw [simpleCommand_of_assignment _ hassign, simpleCommand_of_word _ hword, List.mapM_cons,
    List.mapM_cons, hxdotool, hkey]
  refine Option.bind_congr fun v _ => ?_
  cases ts.mapM argumentText with
  | none => rfl
  | some words => rfl

theorem bare_display (d : List Char) : bare ("DISPLAY=".toList ++ d) = bare d := rfl

/-- The command of a line whose display is plain. -/
theorem command_lineChars (hd : bare d = true) :
    command (lineChars d k) = (fixedValue (unquoted d)).bind fun v =>
      ((lex .blank k).bind (·.mapM argumentText)).map fun words =>
        ⟨[("DISPLAY".toList, v)], "xdotool".toList :: "key".toList :: words⟩ := by
  rw [command, lex_lineChars ((bare_display d).trans hd)]
  cases lex .blank k with
  | none =>
    rw [Option.map_none, Option.bind_none]
    cases fixedValue (unquoted d) with
    | none => rfl
    | some v => rfl
  | some ts =>
    rw [Option.map_some, Option.bind_some, simpleCommand_tokens]
    rfl

theorem fixedValue_unquoted_iff :
    fixedValue (unquoted d) = some d ↔ valueTilde true (unquoted d) = false := by
  unfold fixedValue
  split
  · next h => exact iff_of_false (fun heq => nomatch heq) (by rw [h]; exact Bool.noConfusion)
  · next h => exact iff_of_true (by rw [text_unquoted]) (Bool.eq_false_iff.mpr h)

theorem assigned_toList : "DISPLAY=".toList = "DISPLAY".toList ++ ['='] := by
  decide

theorem countP_lineChars {p : Char → Bool} (hp : p ' ' = false) (d k : List Char) :
    (lineChars d k).countP p = ("DISPLAY".toList ++ '=' :: d).countP p +
      ("xdotool".toList.countP p + ("key".toList.countP p + k.countP p)) := by
  have hblank (cs : List Char) : (' ' :: cs).countP p = cs.countP p :=
    List.countP_cons_of_neg (by rw [hp]; exact Bool.false_ne_true)
  unfold lineChars
  rw [assigned_toList, List.append_assoc _ ['='], List.singleton_append,
    @List.countP_append _ p _ (' ' :: _), hblank]
  refine congrArg (("DISPLAY".toList ++ '=' :: d).countP p + ·) ?_
  rw [List.countP_append, hblank, List.countP_append, hblank]

/-- Where the command has all characters of the line but three blanks, the display is plain. -/
theorem bare_of_command (h : command (lineChars d k) = some
    ⟨[("DISPLAY".toList, d)], ["xdotool".toList, "key".toList, k]⟩) : bare d = true := by
  obtain ⟨ts, hts, hcommand⟩ := Option.bind_eq_some_iff.mp h
  have hp : ∀ c, c ≠ ' ' → decide (c ≠ ' ') = true := fun c hc => decide_eq_true hc
  have hchars := chars_simpleCommand hcommand
  have hline := countP_lineChars (p := fun c => decide (c ≠ ' ')) (by decide) d k
  have heq : tokensWeight (fun c => decide (c ≠ ' ')) ts =
      Mode.blank.weight (fun c => decide (c ≠ ' ')) +
        (lineChars d k).countP fun c => decide (c ≠ ' ') := by
    rw [tokensWeight, hchars, hline, Mode.weight, Nat.zero_add, SimpleCommand.chars,
      List.flatMap_singleton, List.flatten_cons, List.flatten_cons, List.flatten_singleton,
      List.countP_append, List.countP_append, List.countP_append, List.countP_append]
  have hplain := plainLine_of_weight hp (.inl rfl) hts heq
  obtain ⟨front, more, heq, hprefix, hbare⟩ := split_plainLine hplain
  cases front with
  | nil => cases heq
  | cons c front =>
    have hc : c = 'D' := (List.cons.inj heq).1.symm
    have hline : lineChars d k = c :: front ++ ' ' :: more := heq
    rw [hline, lex_blank_bare hbare (by rw [hc]; decide)] at hts
    obtain ⟨us, -, rfl⟩ := Option.map_eq_some_iff.mp hts
    have htext := text_of_simpleCommand hcommand rfl
    rw [text_unquoted] at htext
    have hall : bare ("DISPLAY=".toList ++ d) = true := htext ▸ hbare
    exact hall

end Line

section Presses

variable {display name : String}

/-- A line presses its key exactly if the shell interprets neither display nor key. -/
theorem presses_iff :
    Presses display name (commandLine display name) ↔
      PlainDisplay display ∧ PlainWord name.toList := by
  rw [Presses, commandLine_toList]
  constructor
  · intro h
    have hbare := bare_of_command h
    rw [command_lineChars hbare] at h
    obtain ⟨v, hv, h⟩ := Option.bind_eq_some_iff.mp h
    obtain ⟨words, hwords, heq⟩ := Option.map_eq_some_iff.mp h
    obtain ⟨hassign, hlist⟩ := SimpleCommand.mk.inj heq
    obtain ⟨-, rfl⟩ := Prod.mk.inj (List.cons.inj hassign).1
    obtain rfl := (List.cons.inj (List.cons.inj hlist).2).2
    exact ⟨⟨hbare, fixedValue_unquoted_iff.mp hv⟩, lastWord_iff.mp hwords⟩
  · rintro ⟨⟨hbare, htilde⟩, hword⟩
    rw [command_lineChars hbare, fixedValue_unquoted_iff.mpr htilde, lastWord_iff.mpr hword]
    rfl

/-- A word of one character. -/
theorem plainWord_singleton_iff (c : Char) : PlainWord [c] ↔ c ∉ '#' :: '*' :: hazards := by
  constructor
  · intro h hc
    have hall : ('#' :: '*' :: hazards).all (fun d => !decide (PlainWord [d])) = true := by decide
    have hnot := List.all_eq_true.mp hall c hc
    rw [decide_eq_true h] at hnot
    cases hnot
  · intro hc
    simp only [hazards, List.mem_cons, List.not_mem_nil, or_false, not_or] at hc
    by_cases hbackslash : c = '\\'
    · rw [hbackslash]
      decide
    · have hnul : isNul c = false := by
        refine decide_eq_false fun hzero => ?_
        obtain ⟨-, -, hne, -⟩ := hc
        exact hne (by rw [← hzero, Char.ofNat_toNat])
      have hword : endWord [c] = [(c, false)] := by
        rw [endWord, List.map_singleton, decide_eq_false hbackslash]
      have hkeeps : keeps c [] = true := by
        refine keeps_iff.mpr ⟨hnul, ?_, ?_, ?_, fun h => absurd h.2 (by decide)⟩
        · simp only [isBlank, List.mem_cons, List.not_mem_nil, or_false, decide_eq_false_iff_not]
          tauto
        · simp only [isOperator, List.mem_cons, List.not_mem_nil, or_false,
            decide_eq_false_iff_not]
          tauto
        · simp only [List.mem_cons, List.not_mem_nil, or_false]
          tauto
      refine ⟨List.cons_ne_nil _ _, ?_, ?_, ?_, ?_⟩
      · exact fun h => hc.1 (Option.some.inj h)
      · rw [bareEnd, hkeeps]
        rfl
      · rw [hword, hasTilde, Bool.and_eq_false_imp]
        intro h
        have heq := Option.some.inj (of_decide_eq_true h)
        exact absurd (Prod.mk.inj heq).1 (by tauto)
      · have hmem : (c, false) ∉ [('*', false), ('?', false)] := by
          simp only [List.mem_cons, List.not_mem_nil, or_false, Prod.mk.injEq, and_true]
          tauto
        have hbracket : isBracket [] = false := rfl
        rw [hword, hasPattern, decide_eq_false hmem, hbracket, Bool.and_false]
        rfl

theorem keyName_cases (k : String) :
    (k = "#" ∨ k = "Enter") ∧ keyName k = "numbersign" ∨
      (k = "*" ∨ k = "Backspace") ∧ keyName k = "asterisk" ∨
      k = "-" ∧ keyName k = "minus" ∨
      (k ≠ "#" ∧ k ≠ "*") ∧ keyName k = k := by
  by_cases hsharp : k = "#" ∨ k = "Enter"
  · refine .inl ⟨hsharp, ?_⟩
    rcases hsharp with rfl | rfl <;> decide
  · by_cases hstar : k = "*" ∨ k = "Backspace"
    · refine .inr (.inl ⟨hstar, ?_⟩)
      rcases hstar with rfl | rfl <;> decide
    · by_cases hminus : k = "-"
      · exact .inr (.inr (.inl ⟨hminus, by rw [hminus]; decide⟩))
      · refine .inr (.inr (.inr ⟨⟨(not_or.mp hsharp).1, (not_or.mp hstar).1⟩, ?_⟩))
        simp only [keyName, if_neg hsharp, if_neg hstar, if_neg hminus]

/-- The names of the mapped keys are plain, and `Enter`, `Backspace` and `-` are as they are. -/
theorem plainWord_keyName_iff (k : String) :
    PlainWord (keyName k).toList ↔ k = "#" ∨ k = "*" ∨ PlainWord k.toList := by
  rcases keyName_cases k with ⟨hk, hname⟩ | ⟨hk, hname⟩ | ⟨hk, hname⟩ | ⟨⟨hsharp, hstar⟩, hname⟩
  · rw [hname]
    refine iff_of_true (by decide) (hk.imp_right fun hk => .inr ?_)
    rw [hk]
    decide
  · rw [hname]
    refine iff_of_true (by decide) (.inr (hk.imp_right fun hk => ?_))
    rw [hk]
    decide
  · rw [hname, hk]
    exact iff_of_true (by decide) (.inr (.inr (by decide)))
  · rw [hname]
    exact ⟨fun h => .inr (.inr h), fun h => (h.resolve_left hsharp).resolve_left hstar⟩

theorem plainWord_charName_iff (c : Char) : PlainWord (charName c).toList ↔ c ∉ hazards := by
  unfold charName
  split_ifs with hsharp hstar hminus
  · rw [hsharp]
    exact iff_of_true (by decide) (by decide)
  · rw [hstar]
    exact iff_of_true (by decide) (by decide)
  · rw [hminus]
    exact iff_of_true (by decide) (by decide)
  · rw [String.toList_singleton, plainWord_singleton_iff, List.mem_cons, List.mem_cons]
    simp only [hsharp, hstar, false_or]

end Presses

theorem forall₂_map_iff {α : Type} {R : String → String → Prop} {f g : α → String}
    (xs : List α) : List.Forall₂ R (xs.map f) (xs.map g) ↔ ∀ x ∈ xs, R (f x) (g x) := by
  rw [List.forall₂_map_left_iff, List.forall₂_map_right_iff, List.forall₂_same]

theorem pressesKeys_iff_keys (out : String) (c : Command) :
    PressesKeys out c ↔ ∀ name ∈ keyNames c,
      PlainDisplay (displayWeb out) ∧ PlainWord name.toList := by
  cases c with
  | sendKey k =>
    have hsingle : PressesKeys out (.sendKey k) ↔ Presses (displayWeb out) (keyName k)
        (commandLine (displayWeb out) (keyName k)) := by
      rw [PressesKeys, keyNames, sendCommand, List.forall₂_cons]
      exact and_iff_left .nil
    rw [hsingle, presses_iff, keyNames, List.forall_mem_singleton]
  | sendString s =>
    rw [PressesKeys, keyNames, sendCommand, forall₂_map_iff]
    simp only [presses_iff, List.forall_mem_map]

theorem PressesKeys.harmless {out : String} {c : Command} (h : PressesKeys out c) :
    Harmless (displayWeb out) c := by
  rw [pressesKeys_iff_keys] at h
  cases c with
  | sendKey k =>
    obtain ⟨hdisplay, hword⟩ := h (keyName k) List.mem_cons_self
    exact ⟨hdisplay, (plainWord_keyName_iff k).mp hword⟩
  | sendString s =>
    intro hne
    have hall (c : Char) (hc : c ∈ s.toList) := h (charName c) (List.mem_map_of_mem hc)
    have hnil : s.toList ≠ [] := fun heq => hne (String.toList_eq_nil_iff.mp heq)
    obtain ⟨c, hc⟩ := List.exists_mem_of_ne_nil _ hnil
    exact ⟨(hall c hc).1, fun c hc => (plainWord_charName_iff c).mp (hall c hc).2⟩

/-- Every line presses its key exactly if the shell interprets neither display nor keys. -/
theorem pressesKeys_iff (out : String) (c : Command) :
    PressesKeys out c ↔ Harmless (displayWeb out) c := by
  refine ⟨PressesKeys.harmless, fun h => ?_⟩
  rw [pressesKeys_iff_keys]
  cases c with
  | sendKey k =>
    exact List.forall_mem_singleton.mpr ⟨h.1, (plainWord_keyName_iff k).mpr h.2⟩
  | sendString s =>
    refine List.forall_mem_map.mpr fun c hc => ?_
    have hne : s ≠ "" := by
      rintro rfl
      cases hc
    obtain ⟨hdisplay, hchars⟩ := h hne
    exact ⟨hdisplay, (plainWord_charName_iff c).mpr (hchars c hc)⟩

/-- A blank is no key for the shell. -/
theorem blank_not_pressed : ¬ PressesKeys ":99\n1" (.sendString "a b") := by
  intro h
  have hne : "a b" ≠ "" := by decide
  exact (h.harmless hne).2 ' ' (by decide) (by decide)

end KeyCommands
