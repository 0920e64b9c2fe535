import SIPMediaGW.PythonJson

/-! # Lines of a text file

What a file opened as text yields: every line end is read as a line feed. -/
namespace LineTexts

open PythonJson

/-- Universal newlines. -/
def universal : List Char → List Char
  | [] => []
  | ['\r'] => ['\n']
  | '\r' :: d :: cs => if d = '\n' then '\n' :: universal cs else '\n' :: universal (d :: cs)
  | c :: cs => c :: universal cs

/-- The lines of a text without their ends; the last one has none. -/
def textLines (text : List Char) : List (List Char) := split '\n' (universal text)

/-- Lines that are each written with their end. -/
def joined (lines : List (List Char)) : List Char := lines.flatMap fun l => l ++ ['\n']

section Lines

variable {l cs : List Char} {lines : List (List Char)}

theorem universal_of_notMem (h : '\r' ∉ cs) : universal cs = cs := by
  induction cs with
  | nil => rfl
  | cons c cs ih =>
    have hcr : c ≠ '\r' := (List.ne_of_not_mem_cons h).symm
    have hcs : '\r' ∉ cs := List.not_mem_of_not_mem_cons h
    rw [universal, ih hcs]
    · exact fun heq => absurd heq hcr
    · exact fun d ds heq => absurd heq hcr

theorem notMem_universal (cs : List Char) : '\r' ∉ universal cs := by
  fun_induction universal cs with
  | case1 => exact List.not_mem_nil
  | case2 => decide
  | case3 cs ih => exact List.not_mem_cons_of_ne_of_not_mem (by decide) ih
  | case4 d cs hd ih => exact List.not_mem_cons_of_ne_of_not_mem (by decide) ih
  | case5 c cs hlast hreturn ih =>
    refine List.not_mem_cons_of_ne_of_not_mem ?_ ih
    rintro rfl
    cases cs with
    | nil => exact hlast rfl rfl
    | cons d cs => exact hreturn d cs rfl rfl

theorem split_ne_nil (sep : Char) (cs : List Char) : split sep cs ≠ [] := by
  cases cs with
  | nil => exact List.cons_ne_nil _ _
  | cons c cs =>
    rw [split]
    split
    · exact List.cons_ne_nil _ _
    · split <;> exact List.cons_ne_nil _ _

/-- The words of a split text have only its characters, and not the separator. -/
theorem mem_split {sep : Char} {word : List Char} (h : word ∈ split sep cs) :
    sep ∉ word ∧ ∀ c ∈ word, c ∈ cs := by
  induction cs generalizing word with
  | nil =>
    obtain rfl := List.mem_singleton.mp h
    exact ⟨List.not_mem_nil, nofun⟩
  | cons c cs ih =>
    rw [split] at h
    split at h
    · rcases List.mem_cons.mp h with rfl | h
      · exact ⟨List.not_mem_nil, nofun⟩
      · exact ⟨(ih h).1, fun d hd => List.mem_cons_of_mem c ((ih h).2 d hd)⟩
    · next hc =>
      split at h
      · next hnil => exact absurd hnil (split_ne_nil sep cs)
      · next first words hwords =>
        rw [hwords] at ih
        rcases List.mem_cons.mp h with rfl | h
        · obtain ⟨hsep, hall⟩ := ih List.mem_cons_self
          refine ⟨List.not_mem_cons_of_ne_of_not_mem (Ne.symm hc) hsep, ?_⟩
          exact List.forall_mem_cons.mpr
            ⟨List.mem_cons_self, fun d hd => List.mem_cons_of_mem c (hall d hd)⟩
        · obtain ⟨hsep, hall⟩ := ih (List.mem_cons_of_mem first h)
          exact ⟨hsep, fun d hd => List.mem_cons_of_mem c (hall d hd)⟩

theorem split_append {sep : Char} (h : sep ∉ l) (rest : List Char) :
    split sep (l ++ sep :: rest) = l :: split sep rest := by
  induction l with
  | nil => rw [List.nil_append, split, if_pos rfl]
  | cons c l ih =>
    have hc : c ≠ sep := (List.ne_of_not_mem_cons h).symm
    rw [List.cons_append, split, if_neg hc, ih (List.not_mem_of_not_mem_cons h)]

/-- Any line end parts the words. -/
theorem split_append_sep (sep : Char) (l rest : List Char) :
    split sep (l ++ sep :: rest) = split sep l ++ split sep rest := by
  induction l with
  | nil => simp [split]
  | cons c l ih =>
    by_cases hc : c = sep
    · rw [List.cons_append, split, if_pos hc, ih, split, if_pos hc, List.cons_append]
    · rw [List.cons_append, split, if_neg hc, ih, split, if_neg hc]
      cases hl : split sep l with
      | nil => exact absurd hl (split_ne_nil sep l)
      | cons first words => rfl

/-- A text without line ends goes in front of the first line. -/
theorem textLines_append (hfeed : '\n' ∉ l) (hreturn : '\r' ∉ l) (cs : List Char) :
    ∃ first rest, textLines cs = first :: rest ∧ textLines (l ++ cs) = (l ++ first) :: rest := by
  obtain ⟨first, rest, hlines⟩ := List.exists_cons_of_ne_nil (split_ne_nil '\n' (universal cs))
  refine ⟨first, rest, hlines, ?_⟩
  induction l with
  | nil => exact hlines
  | cons c l ih =>
    have hc : c ≠ '\n' ∧ c ≠ '\r' :=
      ⟨(List.ne_of_not_mem_cons hfeed).symm, (List.ne_of_not_mem_cons hreturn).symm⟩
    have htail := ih (List.not_mem_of_not_mem_cons hfeed) (List.not_mem_of_not_mem_cons hreturn)
    have huniversal : universal (c :: (l ++ cs)) = c :: universal (l ++ cs) := by
      rw [universal]
      · exact fun heq => absurd heq hc.2
      · exact fun d ds heq => absurd heq hc.2
    unfold textLines at htail ⊢
    rw [List.cons_append, huniversal, split, if_neg hc.1, htail]
    rfl

/-- What a line feed ends is read alike, whatever follows. -/
theorem exists_universal_append (l : List Char) :
    ∃ u, ∀ rest, universal (l ++ '\n' :: rest) = u ++ '\n' :: universal rest := by
  fun_induction universal l with
  | case1 => exact ⟨[], fun rest => by rw [List.nil_append, universal] <;> simp⟩
  | case2 => exact ⟨[], fun rest => by simp [universal]⟩
  | case3 cs ih =>
    obtain ⟨u, hu⟩ := ih
    exact ⟨'\n' :: u, fun rest => by simp [universal, hu]⟩
  | case4 d cs hd ih =>
    obtain ⟨u, hu⟩ := ih
    refine ⟨'\n' :: u, fun rest => ?_⟩
    have hrest := hu rest
    rw [List.cons_append] at hrest
    simp [universal, hd, hrest]
  | case5 c cs hlast hreturn ih =>
    obtain ⟨u, hu⟩ := ih
    refine ⟨c :: u, fun rest => ?_⟩
    rw [List.cons_append, universal, hu, List.cons_append]
    · intro hc
      cases cs with
      | nil => exact fun _ => hlast hc rfl
      | cons d cs => exact fun _ => hreturn d cs hc rfl
    · intro d ds hc
      cases cs with
      | nil => exact fun _ => hlast hc rfl
      | cons d cs => exact fun _ => hreturn d cs hc rfl

/-- The lines that a text makes where it stands with a line feed after it. -/
def pieces (l : List Char) : List (List Char) := (textLines (l ++ ['\n'])).dropLast

theorem textLines_append_feed (l rest : List Char) :
    textLines (l ++ '\n' :: rest) = pieces l ++ textLines rest := by
  obtain ⟨u, hu⟩ := exists_universal_append l
  have hpieces : pieces l = split '\n' u := by
    unfold pieces textLines
    rw [hu [], split_append_sep]
    exact List.dropLast_concat
  rw [hpieces]
  unfold textLines
  rw [hu, split_append_sep]

theorem pieces_ne_nil (l : List Char) : pieces l ≠ [] := by
  obtain ⟨u, hu⟩ := exists_universal_append l
  unfold pieces textLines
  rw [hu [], split_append_sep]
  exact List.dropLast_concat ▸ split_ne_nil '\n' u

/-- No line of a file has a line end. -/
theorem mem_textLines (h : l ∈ textLines cs) : '\n' ∉ l ∧ '\r' ∉ l := by
  obtain ⟨hfeed, hall⟩ := mem_split h
  exact ⟨hfeed, fun hreturn => notMem_universal cs (hall _ hreturn)⟩

theorem split_joined (h : ∀ l ∈ lines, '\n' ∉ l) :
    split '\n' (joined lines) = lines ++ [[]] := by
  induction lines with
  | nil => rfl
  | cons l lines ih =>
    obtain ⟨hl, hlines⟩ := List.forall_mem_cons.mp h
    have hjoined : joined (l :: lines) = l ++ '\n' :: joined lines := by
      simp [joined]
    rw [hjoined, split_append hl, ih hlines, List.cons_append]

/-- Lines without line ends come back, with an empty one after the last end. -/
theorem textLines_joined (h : ∀ l ∈ lines, '\n' ∉ l ∧ '\r' ∉ l) :
    textLines (joined lines) = lines ++ [[]] := by
  have hreturn : '\r' ∉ joined lines := by
    intro hmem
    obtain ⟨l, hl, hmem⟩ := List.mem_flatMap.mp hmem
    rcases List.mem_append.mp hmem with hmem | hmem
    · exact (h l hl).2 hmem
    · exact absurd hmem (by decide)
  rw [textLines, universal_of_notMem hreturn, split_joined fun l hl => (h l hl).1]

end Lines

end LineTexts
