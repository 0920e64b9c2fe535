import SIPMediaGW.JsonStrings
import SIPMediaGW.LogParser
import SIPMediaGW.NetstringReader

/-! # Decoding a netstring

`decodeNetString` takes the text between the first two occurrences of the length and its colon,
leaves out the last character, and loads what is left without its backslashes. -/
namespace NetstringDecode

open BracketTexts hiding Mode State
open JsonTexts
open LogParser (after contains)
open NetstringReader (frame)
open PythonJson

inductive PyError where
  | indexError
  deriving DecidableEq, Repr

/-- `inStr[0:inStr.find(':')]`; without a colon, all but the last character. -/
def lengthText (inStr : List Char) : List Char :=
  if ':' ∈ inStr then inStr.takeWhile (· ≠ ':') else inStr.dropLast

/-- What comes before a text; all, where it does not occur. -/
def upTo (sep : List Char) : List Char → List Char
  | [] => []
  | c :: cs => if sep <+: c :: cs then [] else c :: upTo sep cs

/-- `inStr.split(sep)[1]`. -/
def secondPiece (sep inStr : List Char) : Option (List Char) := (after sep inStr).map (upTo sep)

def payload (inStr : List Char) : Option (List Char) :=
  secondPiece (lengthText inStr ++ [':']) inStr

/-- `text.replace('\\"', "'")`. -/
def replaceQuotes : List Char → List Char
  | '\\' :: '"' :: cs => '\'' :: replaceQuotes cs
  | c :: cs => c :: replaceQuotes cs
  | [] => []

def unescape (text : List Char) : List Char := bare (replaceQuotes text)

def nullEvent : Json := .obj [("event", .str "null"), ("type", .str "null")]

section Decode

variable (floatOf : List Char → PyFloat)

def decodeNetString (inStr : List Char) : Except PyError Json :=
  if inStr = [] then .ok (.obj [])
  else match payload inStr with
    | none => .error .indexError
    | some resp => .ok ((loads floatOf false (unescape resp.dropLast)).getD nullEvent)

/-- The text of a JSON object. -/
structure Event where
  text : List Char
  dict : Dict
  loads : loads floatOf true text = some (.obj dict)

variable {floatOf}

/-- The frame is decoded to the object. -/
def Event.Decodes (e : Event floatOf) : Prop :=
  ∃ v, decodeNetString floatOf (frame e.text) = .ok v ∧ Equal v (.obj e.dict)

def Event.UniqueNames (e : Event floatOf) : Prop :=
  ∀ r, parse lexicon e.text = some r → r.UniqueKeys (reading floatOf true)

/-- `<len>:` as the frame of a text begins. -/
def head (text : List Char) : List Char :=
  Nat.toDigits 10 (Utf8Text.encode text).length ++ [':']

/-- Only slashes are escaped, and the head of the frame does not come again. -/
structure Kept (text : List Char) : Prop where
  slashes : ∀ c, ['\\', c] <:+: text → c = '/'
  once : ¬ head text <:+: text

/-- What stands after `len` and its colon, up to where they come again. -/
inductive Piece (len : List Char) : List Char → List Char → Prop where
  | last {piece : List Char} (once : ¬ len ++ [':'] <:+: piece) :
      Piece len (len ++ ':' :: piece) piece
  | again {piece : List Char} (rest : List Char) (first : ¬ len ++ [':'] <:+: piece ++ len) :
      Piece len (len ++ ':' :: (piece ++ (len ++ ':' :: rest))) piece

variable (floatOf)

/-- There is a colon, and the piece begins with a brace or is no JSON. -/
structure ReadsObject (inStr : List Char) : Prop where
  colon : ':' ∈ inStr
  brace : ∀ len piece, ':' ∉ len → Piece len inStr piece →
    loads floatOf false (unescape piece.dropLast) ≠ none →
      ((unescape piece.dropLast).dropWhile lexicon.blank).head? = some '{'

end Decode

/-- `"event" in status`; `none` where it raises. -/
def hasEvent : Json → Option Bool
  | .str s => some (contains "event" s.toList)
  | .arr xs => some (xs.any fun v => isText v "event")
  | .obj d => some (decide ("event" ∈ FieldMap.keys d))
  | _ => none

/-- What a turn of the loop in `getEvents` comes to. -/
inductive Turn where
  | ends
  | ignores
  | calls (status : Json)

def turn : Except PyError Json → Turn
  | .error _ => .ends
  | .ok status =>
    if truthy status then match hasEvent status with
      | none => .ends
      | some true => .calls status
      | some false => .ignores
    else .ends

section Pieces

variable {sep cs : List Char}

theorem after_append (hsep : sep ≠ []) (cs : List Char) : after sep (sep ++ cs) = some cs := by
  obtain ⟨c, rest, rfl⟩ := List.exists_cons_of_ne_nil hsep
  rw [List.cons_append, after, ← List.cons_append, if_pos (List.prefix_append _ _),
    List.drop_left]

theorem upTo_of_notInfix (h : ¬ sep <:+: cs) : upTo sep cs = cs := by
  induction cs with
  | nil => rfl
  | cons c cs ih =>
    obtain ⟨hpre, htail⟩ := not_or.mp (mt List.infix_cons_iff.mpr h)
    rw [upTo, if_neg hpre, ih htail]

theorem prefix_before {piece : List Char} {c : Char} (rest : List Char) :
    piece ++ sep <+: piece ++ (sep ++ c :: rest) :=
  (List.prefix_append_right_inj piece).mpr (List.prefix_append sep (c :: rest))

theorem prefix_before_iff {piece : List Char} {c d : Char} (rest : List Char) :
    sep ++ [c] <+: d :: (piece ++ (sep ++ c :: rest)) ↔ sep ++ [c] <+: d :: (piece ++ sep) := by
  have hwhole : d :: (piece ++ sep) <+: d :: (piece ++ (sep ++ c :: rest)) :=
    List.cons_prefix_cons.mpr ⟨rfl, prefix_before rest⟩
  refine ⟨fun h => List.prefix_of_prefix_length_le h hwhole ?_, fun h => h.trans hwhole⟩
  simp only [List.length_append, List.length_cons, List.length_nil]
  omega

/-- The piece before the first occurrence. -/
theorem upTo_of_first {piece : List Char} {c : Char} (h : ¬ sep ++ [c] <:+: piece ++ sep)
    (rest : List Char) : upTo (sep ++ [c]) (piece ++ (sep ++ c :: rest)) = piece := by
  induction piece with
  | nil =>
    have hpre : sep ++ [c] <+: sep ++ c :: rest := ⟨rest, by simp⟩
    cases hsep : sep ++ c :: rest with
    | nil => simp at hsep
    | cons d ds =>
      rw [hsep] at hpre
      rw [List.nil_append, upTo, if_pos hpre]
  | cons d piece ih =>
    obtain ⟨hpre, htail⟩ := not_or.mp (mt List.infix_cons_iff.mpr h)
    rw [List.cons_append, upTo, if_neg (mt (prefix_before_iff rest).mp hpre), ih htail]

theorem exists_first {c : Char} (h : sep ++ [c] <:+: cs) :
    ∃ piece rest, cs = piece ++ (sep ++ c :: rest) ∧ ¬ sep ++ [c] <:+: piece ++ sep := by
  induction cs with
  | nil => exact absurd (List.infix_nil.mp h) (by simp)
  | cons d cs ih =>
    by_cases hpre : sep ++ [c] <+: d :: cs
    · obtain ⟨rest, hrest⟩ := hpre
      refine ⟨[], rest, by simp [← hrest], fun hinfix => ?_⟩
      have hlength := hinfix.length_le
      simp only [List.nil_append, List.length_append, List.length_singleton] at hlength
      omega
    · obtain ⟨piece, rest, rfl, hfirst⟩ := ih ((List.infix_cons_iff.mp h).resolve_left hpre)
      refine ⟨d :: piece, rest, rfl, fun hinfix => ?_⟩
      rcases List.infix_cons_iff.mp hinfix with hp | hinfix
      · exact hpre ((prefix_before_iff rest).mpr hp)
      · exact hfirst hinfix

theorem replaceQuotes_of_notInfix (h : ¬ ['\\', '"'] <:+: cs) : replaceQuotes cs = cs := by
  induction cs using replaceQuotes.induct with
  | case1 cs ih => exact absurd (List.prefix_append ['\\', '"'] cs).isInfix h
  | case2 c cs hc ih =>
    rw [replaceQuotes, ih fun hp => h (hp.trans (List.suffix_cons c cs).isInfix)]
    exact hc
  | case3 => rfl

theorem unescape_eq (h : ¬ ['\\', '"'] <:+: cs) : unescape cs = bare cs := by
  rw [unescape, replaceQuotes_of_notInfix h]

/-- A separator that ends with a colon stops before the comma of the frame. -/
theorem infix_of_infix_comma (h : sep ++ [':'] <:+: cs ++ [',']) : sep ++ [':'] <:+: cs := by
  rcases List.infix_concat_iff.mp h with hsuffix | hinfix
  · obtain ⟨front, hfront⟩ := hsuffix
    rw [← List.append_assoc] at hfront
    cases (List.append_inj' hfront rfl).2
  · exact hinfix

end Pieces

section Payload

variable {len inStr piece text : List Char}

theorem Piece.payload_eq (h : Piece len inStr piece) (hlen : ':' ∉ len) :
    payload inStr = some piece := by
  have hlength (cs : List Char) : lengthText (len ++ ':' :: cs) = len := by
    have hnot : ∀ c ∈ len, decide (c ≠ ':') = true :=
      fun c hc => decide_eq_true fun heq => hlen (heq ▸ hc)
    rw [lengthText, if_pos (by simp), List.takeWhile_append_of_pos hnot]
    simp
  have hafter (cs : List Char) : after (len ++ [':']) (len ++ ':' :: cs) = some cs := by
    have hne : len ++ [':'] ≠ [] := by simp
    rw [List.append_cons len ':' cs, after_append hne]
  cases h with
  | last once =>
    rw [payload, hlength, secondPiece, hafter, Option.map_some, upTo_of_notInfix once]
  | again rest first =>
    rw [payload, hlength, secondPiece, hafter, Option.map_some, upTo_of_first first]

theorem exists_piece (hcolon : ':' ∈ inStr) : ∃ len piece, ':' ∉ len ∧ Piece len inStr piece := by
  obtain ⟨len, cs, rfl, hlen⟩ := List.eq_append_cons_of_mem hcolon
  by_cases h : len ++ [':'] <:+: cs
  · obtain ⟨piece, rest, rfl, hfirst⟩ := exists_first h
    exact ⟨len, piece, hlen, .again rest hfirst⟩
  · exact ⟨len, cs, hlen, .last h⟩

theorem decode_of_piece (floatOf : List Char → PyFloat) (h : Piece len inStr piece)
    (hlen : ':' ∉ len) : decodeNetString floatOf inStr =
      .ok ((loads floatOf false (unescape piece.dropLast)).getD nullEvent) := by
  have hne : inStr ≠ [] := by
    cases h <;> simp
  rw [decodeNetString, if_neg hne, h.payload_eq hlen]

theorem colon_notMem_digits (n : ℕ) : ':' ∉ Nat.toDigits 10 n := by
  intro hmem
  have hdigit : (':' : Char).isDigit = true :=
    Nat.isDigit_of_mem_toDigits (by decide) (by decide) hmem
  exact absurd hdigit (by decide)

theorem decode_frame_of_notInfix (floatOf : List Char → PyFloat) (h : ¬ head text <:+: text) :
    decodeNetString floatOf (frame text) =
      .ok ((loads floatOf false (unescape text)).getD nullEvent) := by
  have hnot : ¬ head text <:+: text ++ [','] := fun hinfix => h (infix_of_infix_comma hinfix)
  rw [frame, decode_of_piece _ (.last hnot) (colon_notMem_digits _), List.dropLast_concat]

/-- Where the head comes again, the payload ends before it. -/
theorem decode_frame_of_infix (floatOf : List Char → PyFloat) (h : head text <:+: text) :
    ∃ cut rest, text = cut ++ rest ∧ head text <:+: rest ∧
      decodeNetString floatOf (frame text) =
        .ok ((loads floatOf false (unescape cut)).getD nullEvent) := by
  obtain ⟨piece, rest, htext, hfirst⟩ := exists_first h
  have hframe : frame text = Nat.toDigits 10 (Utf8Text.encode text).length ++ ':' ::
      (piece ++ (Nat.toDigits 10 (Utf8Text.encode text).length ++ ':' :: (rest ++ [',']))) := by
    rw [frame]
    nth_rewrite 2 [htext]
    simp
  have hpiece : piece.dropLast ++ piece.drop (piece.length - 1) = piece := by
    rw [List.dropLast_eq_take, List.take_append_drop]
  refine ⟨piece.dropLast, piece.drop (piece.length - 1) ++ (head text ++ rest), ?_, ?_, ?_⟩
  · rw [← List.append_assoc, hpiece, head, ← List.append_cons]
    exact htext
  · rw [← List.append_assoc]
    exact ⟨_, _, rfl⟩
  · rw [hframe]
    exact decode_of_piece _ (.again _ hfirst) (colon_notMem_digits _)

end Payload

section Decoded

variable {floatOf : List Char → PyFloat} {inStr text : List Char} {v : Json}

/-- No string decoded has a backslash or a quote. -/
theorem decoded_plain (h : decodeNetString floatOf inStr = .ok v) {s : String}
    (hs : s ∈ strings v) : '\\' ∉ s.toList ∧ '"' ∉ s.toList := by
  unfold decodeNetString at h
  split at h
  · cases h
    cases hs
  split at h
  · cases h
  · next resp hresp =>
    obtain rfl := Except.ok.inj h
    cases hloads : loads floatOf false (unescape resp.dropLast) with
    | some w =>
      rw [hloads] at hs
      exact strings_of_notMem (notMem_bare _) hloads hs
    | none =>
      rw [hloads] at hs
      have hnull : ∀ s ∈ strings nullEvent, '\\' ∉ s.toList ∧ '"' ∉ s.toList := by decide
      exact hnull s hs

theorem atomChar_of_isDigit {c : Char} (h : c.isDigit = true) : lexicon.atomChar c = true := by
  have hne (d : Char) (hd : d.isDigit = false) : c ≠ d := by
    rintro rfl
    rw [h] at hd
    cases hd
  simp [Lexicon.atomChar, lexicon, isMark, hne]

/-- A digit, then the colon. -/
theorem digit_colon_infix (text : List Char) :
    ∃ d, d.isDigit = true ∧ [d, ':'] <:+: head text := by
  obtain ⟨front, d, hdigits⟩ :=
    (List.eq_nil_or_concat' (Nat.toDigits 10 (Utf8Text.encode text).length)).resolve_left
      Nat.toDigits_ne_nil
  have hmem : d ∈ Nat.toDigits 10 (Utf8Text.encode text).length := by
    rw [hdigits]
    exact List.mem_append_right _ (List.mem_singleton_self d)
  refine ⟨d, Nat.isDigit_of_mem_toDigits (by decide) (by decide) hmem, ?_⟩
  rw [head, hdigits]
  exact ⟨front, [], by simp⟩

/-- What comes before a digit of the text is no whole value. -/
theorem loads_cut {d : Dict} {st : BracketTexts.State} {r : Raw}
    (hloaded : Loaded floatOf true text (.obj d) st r) (hquotes : ¬ ['\\', '"'] <:+: text)
    {cut rest : List Char} (htext : text = cut ++ rest) {c : Char} (hc : c.isDigit = true)
    (hmem : c ∈ rest) : loads floatOf false (bare cut) = none := by
  have hrun := hloaded.run
  rw [htext] at hrun
  obtain ⟨st₁, hcut, hrest⟩ := run_append_some hrun
  have hnone : st₁.result = none := by
    cases hresult : st₁.result with
    | none => rfl
    | some r₁ =>
      rcases blank_of_result hresult hrest hloaded.result with hblank | ⟨token, rfl⟩
      · have hatom := atomChar_of_isDigit hc
        rw [Lexicon.atomChar, hblank c hmem] at hatom
        simp at hatom
      · exact absurd rfl ((readAtom_cases hloaded.read).2.2 d)
  rw [loads, parse, hloaded.run_bare hquotes htext hcut, Option.bind_some, result_bare, hnone]
  rfl

theorem decode_of_kept (e : Event floatOf) (h : Kept e.text) :
    decodeNetString floatOf (frame e.text) = .ok (.obj e.dict) := by
  have hquotes : ¬ ['\\', '"'] <:+: e.text := fun hpair => by cases h.slashes '"' hpair
  rw [decode_frame_of_notInfix floatOf h.once, unescape_eq hquotes, loads_bare h.slashes e.loads]
  rfl

theorem kept_of_decodes (e : Event floatOf) (hunique : e.UniqueNames) (h : e.Decodes) :
    Kept e.text := by
  obtain ⟨v, hdecode, hequal⟩ := h
  have hperm := hequal.strings_perm
  obtain ⟨st, r, hloaded⟩ := exists_loaded e.loads
  have hr := hunique r hloaded.parse
  have hpairs (c : Char) (hc : c = '\\' ∨ c = '"') : ¬ ['\\', c] <:+: e.text := by
    intro hpair
    obtain ⟨s, hs, hmem⟩ := exists_string_of_pair hloaded hr hc hpair
    obtain ⟨hbackslash, hquote⟩ := decoded_plain hdecode (hperm.mem_iff.mpr hs)
    exact hmem.elim hbackslash hquote
  have hquotes := hpairs '"' (Or.inr rfl)
  by_cases hagain : head e.text <:+: e.text
  · -- What is cut off has a digit and a colon, the null event has none.
    exfalso
    obtain ⟨d, hd, hcolon⟩ := digit_colon_infix e.text
    obtain ⟨cut, rest, htext, hhead, hcut⟩ := decode_frame_of_infix floatOf hagain
    have hnopair : ¬ ['\\', '"'] <:+: cut :=
      fun hp => hquotes (htext ▸ hp.trans (List.prefix_append cut rest).isInfix)
    have hnone := loads_cut hloaded hquotes htext hd ((hcolon.trans hhead).subset (by simp))
    rw [unescape_eq hnopair, hnone] at hcut
    obtain rfl : nullEvent = v := Except.ok.inj (hcut.symm.trans hdecode)
    obtain ⟨s, hs, hmem⟩ :=
      exists_string_of_colon hloaded hr (atomChar_of_isDigit hd) (hcolon.trans hagain)
    have hnull : ∀ s ∈ strings nullEvent, ':' ∉ s.toList := by decide
    exact hnull s (hperm.mem_iff.mpr hs) hmem
  · refine ⟨fun c hpair => ?_, hagain⟩
    obtain ⟨w, hw⟩ := exists_loads_bare hloaded hquotes
    have hbare := decode_frame_of_notInfix floatOf hagain
    rw [unescape_eq hquotes, hw] at hbare
    obtain rfl : w = v := Except.ok.inj (hbare.symm.trans hdecode)
    exact slashes_of_perm hloaded hr hpairs hw hperm hpair

end Decoded

section Total

variable {floatOf : List Char → PyFloat} {inStr : List Char}

theorem decode_of_notMem (hne : inStr ≠ []) (h : ':' ∉ inStr) :
    decodeNetString floatOf inStr = .error .indexError := by
  have hnone : payload inStr = none := by
    rw [payload, secondPiece, Option.map_eq_none_iff, ← Option.not_isSome_iff_eq_none,
      LogParser.isSome_after_iff]
    exact fun hfound => h (hfound.subset (by simp))
  rw [decodeNetString, if_neg hne, hnone]

/-- An object comes out of exactly these texts. -/
theorem decode_object_iff (hne : inStr ≠ []) :
    (∃ d, decodeNetString floatOf inStr = .ok (.obj d)) ↔ ReadsObject floatOf inStr := by
  constructor
  · rintro ⟨d, hdecode⟩
    refine ⟨?_, fun len piece hlen hpiece hsome => ?_⟩
    · by_contra hcolon
      rw [decode_of_notMem hne hcolon] at hdecode
      cases hdecode
    · obtain ⟨v, hv⟩ := Option.ne_none_iff_exists'.mp hsome
      rw [decode_of_piece floatOf hpiece hlen, hv] at hdecode
      exact (isObject_iff hv).mp ⟨d, Except.ok.inj hdecode⟩
  · rintro ⟨hcolon, hbrace⟩
    obtain ⟨len, piece, hlen, hpiece⟩ := exists_piece hcolon
    have hdecode := decode_of_piece floatOf hpiece hlen
    cases hv : loads floatOf false (unescape piece.dropLast) with
    | none =>
      rw [hv] at hdecode
      exact ⟨_, hdecode⟩
    | some v =>
      have hsome : loads floatOf false (unescape piece.dropLast) ≠ none := by simp [hv]
      obtain ⟨d, rfl⟩ := (isObject_iff hv).mpr (hbrace len piece hlen hpiece hsome)
      rw [hv] at hdecode
      exact ⟨d, hdecode⟩

/-- Of these texts, only the empty object ends the loop. -/
theorem turn_ends_iff (hne : inStr ≠ []) (h : ReadsObject floatOf inStr) :
    turn (decodeNetString floatOf inStr) = .ends ↔
      decodeNetString floatOf inStr = .ok (.obj []) := by
  obtain ⟨d, hd⟩ := (decode_object_iff hne).mpr h
  rw [hd]
  cases d with
  | nil => exact ⟨fun _ => rfl, fun _ => rfl⟩
  | cons m d =>
    by_cases hevent : "event" ∈ FieldMap.keys (m :: d)
    · simp [turn, truthy, hasEvent, hevent]
    · simp [turn, truthy, hasEvent, hevent]

end Total

/-- A frame is decoded to its object where only slashes are escaped and its head does not come
again; an object comes out of a text with a colon whose piece begins with a brace or is no JSON,
and then only the empty object ends the loop. -/
theorem decode_iff (floatOf : List Char → PyFloat) :
    (∀ e : Event floatOf,
      (Kept e.text → decodeNetString floatOf (frame e.text) = .ok (.obj e.dict)) ∧
        (e.UniqueNames → (e.Decodes ↔ Kept e.text))) ∧
      ∀ inStr ≠ [],
        ((∃ d, decodeNetString floatOf inStr = .ok (.obj d)) ↔ ReadsObject floatOf inStr) ∧
          (ReadsObject floatOf inStr → (turn (decodeNetString floatOf inStr) = .ends ↔
            decodeNetString floatOf inStr = .ok (.obj []))) := by
  refine ⟨fun e => ⟨decode_of_kept e, fun hunique => ⟨kept_of_decodes e hunique, fun h => ?_⟩⟩,
    fun inStr hne => ⟨decode_object_iff hne, turn_ends_iff hne⟩⟩
  exact ⟨_, decode_of_kept e h, .refl _⟩

def noFloat (_ : List Char) : PyFloat := .nan

def closedText : List Char := "\x7b\"event\":true,\"type\":\"CALL_CLOSED\"\x7d".toList

theorem loads_closedText : loads noFloat true closedText =
    some (.obj [("event", .bool true), ("type", .str "CALL_CLOSED")]) := by
  decide +kernel

def closedEvent : Event noFloat where
  text := closedText
  dict := [("event", .bool true), ("type", .str "CALL_CLOSED")]
  loads := loads_closedText

theorem kept_closedText : Kept closedText where
  slashes c h := absurd (h.subset List.mem_cons_self) (by decide +kernel)
  once := by decide +kernel

theorem parse_closedText : parse lexicon closedText = some (.dict
    [(⟨'"', "event".toList⟩, .atom "true".toList),
      (⟨'"', "type".toList⟩, .text ⟨'"', "CALL_CLOSED".toList⟩)]) := rfl

theorem uniqueNames_closedEvent : closedEvent.UniqueNames := by
  intro r hr
  obtain rfl := Option.some.inj (parse_closedText.symm.trans hr)
  refine .dict (by decide +kernel) fun m hm => ?_
  simp only [List.mem_cons, List.not_mem_nil, or_false] at hm
  rcases hm with rfl | rfl
  · exact .atom _
  · exact .text _

theorem decode_closedEvent : closedEvent.Decodes ∧ ¬ ReadsObject noFloat ['5'] := by
  refine ⟨(((decode_iff noFloat).1 closedEvent).2 uniqueNames_closedEvent).mpr kept_closedText,
    fun h => ?_⟩
  obtain ⟨d, hd⟩ := ((decode_iff noFloat).2 ['5'] (by decide)).1.mpr h
  have herror : decodeNetString noFloat ['5'] = .error .indexError := rfl
  rw [herror] at hd
  cases hd

/-- Two lines in one string. -/
def linesText : List Char := "\x7b\"event\":true,\"param\":\"a\\nb\"\x7d".toList

theorem loads_linesText : loads noFloat true linesText =
    some (.obj [("event", .bool true), ("param", .str "a\nb")]) := by
  decide +kernel

def linesEvent : Event noFloat where
  text := linesText
  dict := [("event", .bool true), ("param", .str "a\nb")]
  loads := loads_linesText

theorem decode_linesText : decodeNetString noFloat (frame linesText) =
    .ok (.obj [("event", .bool true), ("param", .str "anb")]) := by
  decide +kernel

/-- The line break is read as a letter, and a text without a colon raises. -/
theorem decoder_breaks :
    ¬ linesEvent.Decodes ∧ ¬ ∃ d, decodeNetString noFloat ['5'] = .ok (.obj d) := by
  constructor
  · rintro ⟨v, hv, hequal⟩
    obtain rfl := Except.ok.inj (decode_linesText.symm.trans hv)
    exact absurd hequal.strings_perm (by decide +kernel)
  · rintro ⟨d, hd⟩
    rw [decode_of_notMem (by decide) (by decide)] at hd
    cases hd

end NetstringDecode
