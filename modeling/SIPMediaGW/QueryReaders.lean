import SIPMediaGW.FormTexts

/-! # Two readers of a query

`URLSearchParams` of a page's URL, and `parse_qs` of `urllib`. A browser parses the URL first and
writes what is not plain in its query as percent sequences. -/
namespace QueryReaders

open FormTexts
open LineTexts
open PercentTexts
open PythonJson
open Utf8Text

/-- Controls and blanks, which a browser takes from the ends of a URL. -/
def isPageBlank (c : Char) : Bool := c.toNat ≤ 32

/-- Characters that the query of a parsed URL has as percent sequences. -/
def isEncoded (c : Char) : Bool :=
  decide (c.toNat ≤ 32) || decide (126 < c.toNat) || decide (c ∈ ['"', '#', '<', '>', '\''])

def encodeChar (c : Char) : List Char :=
  if isEncoded c then (String.utf8EncodeChar c).flatMap percentByte else [c]

def encodeQuery (cs : List Char) : List Char := cs.flatMap encodeChar

/-- The query of a URL, `location.search` without its question mark. -/
def pageQuery (url : List Char) : List Char :=
  let url := (stripChars isPageBlank url).filter fun c => !isBreak c
  encodeQuery (((url.takeWhile (· ≠ '#')).dropWhile (· ≠ '?')).drop 1)

def pageDecode (m : Replacing) (cs : List Char) : String :=
  String.ofList (m.read (percentDecode (cs.map plus)))

/-- The pairs of `new URLSearchParams(location.search)`. -/
def urlSearchParams (m : Replacing) (url : List Char) : List (String × String) :=
  formParse (pageDecode m) (pageQuery url)

/-- `unquote(text)`: the bytes of each run of ASCII characters are decoded, replacing errors. -/
def unquoteRuns (m : Replacing) : List Char → List Char → List Char
  | run, [] => m.read (percentDecode run)
  | run, c :: cs =>
    if isAscii c then unquoteRuns m (run ++ [c]) cs
    else m.read (percentDecode run) ++ c :: unquoteRuns m [] cs

def unquote (m : Replacing) (cs : List Char) : String := String.ofList (unquoteRuns m [] cs)

section Plus

variable {c : Char} {cs : List Char}

theorem plus_eq_of_hex (h : (hexValue (plus c)).isSome = true) : plus c = c := by
  unfold plus at h ⊢
  split
  · next hc =>
    rw [if_pos hc] at h
    exact absurd h (by decide)
  · rfl

theorem plus_eq_percent_iff : plus c = '%' ↔ c = '%' := by
  unfold plus
  split
  · next hc =>
    subst hc
    decide
  · rfl

theorem isAscii_plus (c : Char) : isAscii (plus c) = isAscii c := by
  unfold plus
  split
  · next hc =>
    subst hc
    rfl
  · rfl

theorem countP_map_plus (cs : List Char) : (cs.map plus).countP isAscii = cs.countP isAscii := by
  rw [List.countP_map]
  exact List.countP_congr fun c _ => by simp [isAscii_plus]

theorem hexValue_plus (c : Char) : hexValue (plus c) = hexValue c := by
  unfold plus
  split
  · next hc =>
    subst hc
    rfl
  · rfl

theorem sequence_plus (c : Char) (cs : List Char) :
    sequenceByte (plus c) (cs.map plus) = sequenceByte c cs := by
  have hhex : hexByte (cs.map plus) = hexByte cs := by
    match cs with
    | [] => rfl
    | [x] => rfl
    | x :: y :: rest =>
      simp only [List.map_cons, hexByte, hexValue_plus]
  unfold sequenceByte
  rw [hhex]
  simp only [plus_eq_percent_iff]

theorem hasSequence_map_plus (cs : List Char) : hasSequence (cs.map plus) = hasSequence cs := by
  induction cs with
  | nil => rfl
  | cons c cs ih => rw [List.map_cons, hasSequence, hasSequence, sequence_plus, ih]

end Plus

section Page

variable {m : Replacing}

theorem map_plus_percentByte (b : UInt8) : (percentByte b).map plus = percentByte b := by
  have hb : b.toNat < 256 := b.toNat_lt
  have hdigit {n : ℕ} (h : n < 16) :
      plus (Nat.digitChar n).toUpper = (Nat.digitChar n).toUpper := by
    have hall : ∀ n : Fin 16, plus (Nat.digitChar n).toUpper = (Nat.digitChar n).toUpper := by
      decide
    exact hall ⟨n, h⟩
  unfold percentByte
  rw [List.map_cons, List.map_cons, List.map_cons, hdigit (by omega), hdigit (by omega)]
  rfl

theorem map_plus_encodeChar (c : Char) : (encodeChar c).map plus =
    if isEncoded c then (String.utf8EncodeChar c).flatMap percentByte else [plus c] := by
  unfold encodeChar
  split
  · rw [List.map_flatMap]
    exact List.flatMap_congr fun b _ => map_plus_percentByte b
  · rfl

theorem not_isEncoded_of_hex {c : Char} (h : (hexValue c).isSome = true) : isEncoded c = false := by
  have hrange : 48 ≤ c.toNat ∧ c.toNat ≤ 57 ∨ 65 ≤ c.toNat ∧ c.toNat ≤ 70 ∨
      97 ≤ c.toNat ∧ c.toNat ≤ 102 := by
    unfold hexValue at h
    dsimp only at h
    split_ifs at h <;> first | omega | cases h
  have hnot : c ∉ ['"', '#', '<', '>', '\''] := by
    have hmarks : ['"', '#', '<', '>', '\''].all (fun d => (hexValue d).isNone) = true := by decide
    have hall (d : Char) (hd : d ∈ ['"', '#', '<', '>', '\'']) : hexValue d = none :=
      Option.isNone_iff_eq_none.mp (List.all_eq_true.mp hmarks d hd)
    intro hmem
    rw [hall c hmem] at h
    cases h
  simp only [isEncoded, Bool.or_eq_false_iff, decide_eq_false_iff_not]
  exact ⟨⟨by omega, by omega⟩, hnot⟩

/-- What an encoded character begins with is no digit. -/
theorem encodeChar_of_encoded {c : Char} (h : isEncoded c = true) :
    ∃ rest, (encodeChar c).map plus = '%' :: rest := by
  rw [map_plus_encodeChar, if_pos h]
  have hne : String.utf8EncodeChar c ≠ [] := by
    intro hnil
    have hlength := String.length_utf8EncodeChar c
    rw [hnil] at hlength
    exact absurd hlength.symm c.utf8Size_pos.ne'
  obtain ⟨b, bs, hbs⟩ := List.exists_cons_of_ne_nil hne
  rw [hbs]
  exact ⟨_, rfl⟩

/-- Encoding the rest makes no percent sequence. -/
theorem sequence_encodeQuery {c : Char} {cs : List Char} (h : sequenceByte c cs = none) :
    sequenceByte (plus c) ((encodeQuery cs).map plus) = none := by
  have hpercent : hexValue '%' = none := rfl
  unfold sequenceByte at h ⊢
  split
  · next hc =>
    rw [if_pos (plus_eq_percent_iff.mp hc)] at h
    cases cs with
    | nil => rfl
    | cons x cs =>
      rw [encodeQuery, List.flatMap_cons, List.map_append]
      by_cases hx : isEncoded x = true
      · obtain ⟨rest, hrest⟩ := encodeChar_of_encoded hx
        rw [hrest, List.cons_append]
        cases rest ++ _ <;> rfl
      · rw [map_plus_encodeChar, if_neg hx, List.singleton_append]
        cases cs with
        | nil => rfl
        | cons y cs =>
          rw [List.flatMap_cons, List.map_append]
          by_cases hy : isEncoded y = true
          · obtain ⟨rest, hrest⟩ := encodeChar_of_encoded hy
            rw [hrest, List.cons_append, hexByte, hpercent]
            cases hexValue (plus x) <;> rfl
          · rw [map_plus_encodeChar, if_neg hy, List.singleton_append, hexByte, hexValue_plus,
              hexValue_plus]
            exact h
  · rfl

/-- What the browser encodes is decoded again. -/
theorem percentDecode_encodeQuery (cs : List Char) :
    percentDecode ((encodeQuery cs).map plus) = percentDecode (cs.map plus) := by
  induction hn : cs.length using Nat.strongRecOn generalizing cs with
  | ind n ih =>
    subst hn
    cases cs with
    | nil => rfl
    | cons c cs =>
      have hcons : (encodeQuery (c :: cs)).map plus =
          (encodeChar c).map plus ++ (encodeQuery cs).map plus := by
        rw [encodeQuery, List.flatMap_cons, List.map_append, encodeQuery]
      cases h : sequenceByte c cs with
      | none =>
        have hrest := ih cs.length (Nat.lt_succ_self _) cs rfl
        have hplain : sequenceByte (plus c) (cs.map plus) = none := (sequence_plus c cs).trans h
        rw [hcons, map_plus_encodeChar, List.map_cons, percentDecode_none hplain]
        split
        · next hc =>
          have hplus : plus c = c := by
            refine if_neg ?_
            rintro rfl
            exact absurd hc (by decide)
          rw [percentDecode_flatMap, hrest, hplus]
        · rw [List.singleton_append, percentDecode_none (sequence_encodeQuery h), hrest]
      | some b =>
        obtain ⟨x, y, rest, rfl, rfl, hx, hy⟩ := exists_of_sequence h
        have hrest := ih rest.length (by simp only [List.length_cons]; omega) rest rfl
        have hdigit {d : Char} (hd : (hexValue d).isSome = true) :
            (encodeChar d).map plus = [d] := by
          rw [map_plus_encodeChar, if_neg (by simp [not_isEncoded_of_hex hd]),
            plus_eq_of_hex (by rwa [hexValue_plus])]
        have hsequence : sequenceByte '%' (x :: y :: (encodeQuery rest).map plus) = some b := h
        have hwhole : (encodeQuery ('%' :: x :: y :: rest)).map plus =
            '%' :: x :: y :: (encodeQuery rest).map plus := by
          rw [encodeQuery, List.flatMap_cons, List.flatMap_cons, List.flatMap_cons, List.map_append,
            List.map_append, List.map_append, hdigit hx, hdigit hy]
          rfl
        have hplus : sequenceByte (plus '%') ((x :: y :: rest).map plus) = some b :=
          (sequence_plus '%' _).trans h
        rw [hwhole, percentDecode_some hsequence, List.map_cons, percentDecode_some hplus]
        simp only [List.map_cons, List.drop_succ_cons, List.drop_zero]
        rw [hrest]

theorem pageDecode_encodeQuery (m : Replacing) (cs : List Char) :
    pageDecode m (encodeQuery cs) = pageDecode m cs := by
  unfold pageDecode
  rw [percentDecode_encodeQuery]

/-- The reader that the page is. -/
def pageReader (m : Replacing) : Reader where
  blank := isPageBlank
  blank_alpha c hc := by
    have hrange := (toNat_of_isAlpha hc).1
    exact decide_eq_false (by omega)
  blank_marks := ⟨rfl, rfl⟩
  decode := pageDecode m
  count_le cs := by
    rw [pageDecode, String.toList_ofList, m.count_ascii, ← countP_map_plus]
    exact (countP_percentDecode _).1
  plain_of_count cs h := by
    rw [pageDecode, String.toList_ofList, m.count_ascii, ← countP_map_plus] at h
    rw [← hasSequence_map_plus]
    exact (countP_percentDecode _).2 h
  decode_plain cs h := by
    rw [← hasSequence_map_plus] at h
    rw [pageDecode, percentDecode_of_plain h, m.read_encode]

end Page

section Encoding

variable {sep : Char}

/-- What is made of the characters between the marks. -/
theorem split_flatMap {f : Char → List Char} (hsep : f sep = [sep])
    (hothers : ∀ c, c ≠ sep → sep ∉ f c) (cs : List Char) :
    split sep (cs.flatMap f) = (split sep cs).map fun piece => piece.flatMap f := by
  have hfront (l rest : List Char) (h : sep ∉ l) {first : List Char} {words : List (List Char)}
      (hsplit : split sep rest = first :: words) :
      split sep (l ++ rest) = (l ++ first) :: words := by
    induction l with
    | nil => exact hsplit
    | cons c l ih =>
      have hc : c ≠ sep := (List.ne_of_not_mem_cons h).symm
      rw [List.cons_append, split, if_neg hc, ih (List.not_mem_of_not_mem_cons h)]
      rfl
  induction cs with
  | nil => rfl
  | cons c cs ih =>
    rw [List.flatMap_cons]
    by_cases hc : c = sep
    · subst hc
      rw [hsep, List.singleton_append, split, if_pos rfl, ih, split, if_pos rfl]
      rfl
    · obtain ⟨first, words, hsplit⟩ := List.exists_cons_of_ne_nil (split_ne_nil sep cs)
      rw [hsplit, List.map_cons] at ih
      rw [hfront _ _ (hothers c hc) ih, split, if_neg hc, hsplit]
      rfl

theorem takeWhile_flatMap {f : Char → List Char} (hsep : f sep = [sep])
    (hothers : ∀ c, c ≠ sep → sep ∉ f c) (cs : List Char) :
    (cs.flatMap f).takeWhile (· ≠ sep) = (cs.takeWhile (· ≠ sep)).flatMap f ∧
    (cs.flatMap f).dropWhile (· ≠ sep) = (cs.dropWhile (· ≠ sep)).flatMap f := by
  induction cs with
  | nil => exact ⟨rfl, rfl⟩
  | cons c cs ih =>
    rw [List.flatMap_cons]
    by_cases hc : c = sep
    · subst hc
      simp [hsep]
    · have hall : ∀ d ∈ f c, decide (d ≠ sep) = true := by
        intro d hd
        refine decide_eq_true ?_
        rintro rfl
        exact hothers c hc hd
      rw [List.takeWhile_append_of_pos hall, List.dropWhile_append_of_pos hall,
        List.takeWhile_cons_of_pos (by simpa using hc),
        List.dropWhile_cons_of_pos (by simpa using hc), List.flatMap_cons, ih.1, ih.2]
      exact ⟨rfl, rfl⟩

theorem isAscii_digit (n : ℕ) (h : n < 16) :
    (Nat.digitChar n).toUpper ≠ '&' ∧ (Nat.digitChar n).toUpper ≠ '=' := by
  have hall : ∀ n : Fin 16, (Nat.digitChar n).toUpper ≠ '&' ∧ (Nat.digitChar n).toUpper ≠ '=' := by
    decide
  exact hall ⟨n, h⟩

theorem marks_notMem_encodeChar (c : Char) :
    (c ≠ '&' → '&' ∉ encodeChar c) ∧ (c ≠ '=' → '=' ∉ encodeChar c) := by
  unfold encodeChar
  split
  · have hbyte (b : UInt8) : '&' ∉ percentByte b ∧ '=' ∉ percentByte b := by
      have hb : b.toNat < 256 := b.toNat_lt
      have hhigh := isAscii_digit (b.toNat / 16) (by omega)
      have hlow := isAscii_digit (b.toNat % 16) (by omega)
      simp [percentByte, hhigh.1.symm, hhigh.2.symm, hlow.1.symm, hlow.2.symm]
    constructor
    · intro _ h
      obtain ⟨b, -, hb⟩ := List.mem_flatMap.mp h
      exact (hbyte b).1 hb
    · intro _ h
      obtain ⟨b, -, hb⟩ := List.mem_flatMap.mp h
      exact (hbyte b).2 hb
  · constructor
    · intro hc h
      exact hc (List.mem_singleton.mp h).symm
    · intro hc h
      exact hc (List.mem_singleton.mp h).symm

theorem encodeQuery_ne_nil_iff {cs : List Char} : encodeQuery cs ≠ [] ↔ cs ≠ [] := by
  have hchar (c : Char) : encodeChar c ≠ [] := by
    intro h
    by_cases hc : isEncoded c = true
    · obtain ⟨rest, hrest⟩ := encodeChar_of_encoded hc
      rw [h] at hrest
      cases hrest
    · rw [encodeChar, if_neg hc] at h
      cases h
  cases cs with
  | nil => exact Iff.rfl
  | cons c cs =>
    rw [encodeQuery, List.flatMap_cons]
    exact iff_of_true (List.append_ne_nil_of_left_ne_nil (hchar c) _) (List.cons_ne_nil c cs)

/-- The pairs of an encoded query are those of the query. -/
theorem formParse_encodeQuery (m : Replacing) (query : List Char) :
    formParse (pageDecode m) (encodeQuery query) = formParse (pageDecode m) query := by
  have hand := @split_flatMap '&' encodeChar rfl (fun c => (marks_notMem_encodeChar c).1) query
  have hequal := @takeWhile_flatMap '=' encodeChar rfl fun c => (marks_notMem_encodeChar c).2
  unfold formParse encodeQuery
  rw [hand, List.filter_map, List.map_map]
  have hfilter : (split '&' query).filter ((fun piece : List Char => decide (piece ≠ [])) ∘
      fun piece => piece.flatMap encodeChar) = (split '&' query).filter (· ≠ []) :=
    List.filter_congr fun piece _ => decide_eq_decide.mpr encodeQuery_ne_nil_iff
  rw [hfilter]
  refine List.map_congr_left fun piece _ => ?_
  have hdrop : ((piece.dropWhile (· ≠ '=')).flatMap encodeChar).drop 1 =
      ((piece.dropWhile (· ≠ '=')).drop 1).flatMap encodeChar := by
    rcases hpiece : piece.dropWhile (· ≠ '=') with - | ⟨c, cs⟩
    · rfl
    · have hhead := List.head?_dropWhile_not (· ≠ '=') piece
      rw [hpiece] at hhead
      obtain rfl : c = '=' := by simpa using hhead
      rfl
  dsimp only [Function.comp]
  rw [(hequal piece).1, (hequal piece).2, hdrop]
  exact Prod.ext (pageDecode_encodeQuery m _) (pageDecode_encodeQuery m _)

end Encoding

section Python

variable {m : Replacing} {c : Char} {run cs : List Char}

theorem sequence_append_break (hc : isAscii c = false) (d : Char) (run cs : List Char) :
    sequenceByte d (run ++ c :: cs) = sequenceByte d run := by
  have hhex : hexValue c = none := by
    cases h : hexValue c with
    | none => rfl
    | some n =>
      have hascii := isAscii_of_hexValue (Option.isSome_of_eq_some h)
      exact absurd (hc.symm.trans hascii) (by decide)
  unfold sequenceByte
  match run with
  | [] => cases cs <;> simp [hexByte, hhex]
  | [x] => simp [hexByte, hhex]
  | x :: y :: run => rfl

/-- No sequence goes across a character that is not ASCII. -/
theorem hasSequence_append_break (hc : isAscii c = false) (run cs : List Char) :
    hasSequence (run ++ c :: cs) = (hasSequence run || hasSequence cs) := by
  induction run with
  | nil =>
    have hpercent : c ≠ '%' := by
      rintro rfl
      exact absurd hc (by decide)
    have hnone : sequenceByte c cs = none := if_neg hpercent
    rw [List.nil_append, hasSequence, hasSequence, hnone]
    rfl
  | cons d run ih =>
    rw [List.cons_append, hasSequence, hasSequence, sequence_append_break hc, ih, Bool.or_assoc]

theorem countP_unquoteRuns (run cs : List Char) :
    (unquoteRuns m run cs).countP isAscii ≤ (run ++ cs).countP isAscii ∧
    ((unquoteRuns m run cs).countP isAscii = (run ++ cs).countP isAscii →
      hasSequence (run ++ cs) = false) := by
  induction cs generalizing run with
  | nil =>
    rw [unquoteRuns, m.count_ascii, List.append_nil]
    exact countP_percentDecode run
  | cons c cs ih =>
    rw [unquoteRuns]
    split
    · have hrun := ih (run ++ [c])
      rwa [List.append_assoc, List.singleton_append] at hrun
    · next hc =>
      obtain ⟨hle, heq⟩ := countP_percentDecode run
      obtain ⟨hle', heq'⟩ := ih []
      rw [List.nil_append] at hle' heq'
      rw [List.countP_append, m.count_ascii, List.countP_append, List.countP_cons_of_neg hc,
        List.countP_cons_of_neg hc, hasSequence_append_break (by simpa using hc)]
      refine ⟨by omega, fun hcount => ?_⟩
      rw [heq (by omega), heq' (by omega)]
      rfl

theorem unquoteRuns_plain (h : hasSequence (run ++ cs) = false) :
    unquoteRuns m run cs = run ++ cs := by
  induction cs generalizing run with
  | nil =>
    rw [List.append_nil] at h
    rw [unquoteRuns, percentDecode_of_plain h, m.read_encode, List.append_nil]
  | cons c cs ih =>
    rw [unquoteRuns]
    split
    · rw [ih (by rwa [List.append_assoc, List.singleton_append]), List.append_assoc,
        List.singleton_append]
    · next hc =>
      rw [hasSequence_append_break (by simpa using hc), Bool.or_eq_false_iff] at h
      rw [percentDecode_of_plain h.1, m.read_encode, ih (by exact h.2), List.nil_append]

/-- A text of ASCII characters is one run. -/
theorem unquoteRuns_ascii (h : ∀ c ∈ cs, isAscii c = true) :
    unquoteRuns m run cs = m.read (percentDecode (run ++ cs)) := by
  induction cs generalizing run with
  | nil => rw [unquoteRuns, List.append_nil]
  | cons c cs ih =>
    obtain ⟨hc, hcs⟩ := List.forall_mem_cons.mp h
    rw [unquoteRuns, if_pos hc, ih hcs, List.append_assoc, List.singleton_append]

theorem isSpace_of_isAlpha {c : Char} (hc : c.isAlpha) : isSpace c = false := by
  have hrange := toNat_of_isAlpha hc
  simp only [isSpace, Bool.or_eq_false_iff, Bool.and_eq_false_iff, decide_eq_false_iff_not,
    beq_eq_false_iff_ne]
  omega

/-- The reader that `parse_qs` is. -/
def pythonReader (m : Replacing) : Reader where
  blank := isSpace
  blank_alpha _ hc := isSpace_of_isAlpha hc
  blank_marks := ⟨rfl, rfl⟩
  decode cs := unquote m (cs.map plus)
  count_le cs := by
    rw [unquote, String.toList_ofList, ← countP_map_plus cs]
    exact (countP_unquoteRuns [] _).1
  plain_of_count cs h := by
    rw [unquote, String.toList_ofList, ← countP_map_plus cs] at h
    rw [← hasSequence_map_plus]
    exact (countP_unquoteRuns [] _).2 h
  decode_plain cs h := by
    rw [← hasSequence_map_plus] at h
    rw [unquote, unquoteRuns_plain h, List.nil_append]

end Python

end QueryReaders
