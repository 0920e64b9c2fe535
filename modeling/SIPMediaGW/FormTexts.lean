import Mathlib.Data.List.DropRight
import SIPMediaGW.LineTexts
import SIPMediaGW.PercentTexts

/-! # Queries of form parameters

A query joined of names and values as they are, what a reader of the URL keeps of it, and when
it gives the values back. -/
namespace FormTexts

open LineTexts
open PercentTexts
open PythonJson

/-- A plus sign stands for a blank. -/
def plus (c : Char) : Char := if c = '+' then ' ' else c

/-- The names and values of a query in their order. -/
def formParse (decode : List Char → String) (query : List Char) : List (String × String) :=
  ((split '&' query).filter (· ≠ [])).map fun nameValue =>
    (decode (nameValue.takeWhile (· ≠ '=')), decode ((nameValue.dropWhile (· ≠ '=')).drop 1))

/-- Characters that are taken out of a URL. -/
def isBreak (c : Char) : Bool := c ∈ ['\t', '\r', '\n']

/-- What is kept of a query at the end of a URL: not the blanks at the end, and no fragment. -/
def queryOf (blank : Char → Bool) (cs : List Char) : List Char :=
  ((cs.rdropWhile blank).filter fun c => !isBreak c).takeWhile (· ≠ '#')

/-- A way to read queries. -/
structure Reader where
  blank : Char → Bool
  blank_alpha : ∀ c, c.isAlpha = true → blank c = false
  blank_marks : blank '=' = false ∧ blank '&' = false
  decode : List Char → String
  count_le : ∀ cs, (decode cs).toList.countP isAscii ≤ cs.countP isAscii
  plain_of_count : ∀ cs, (decode cs).toList.countP isAscii = cs.countP isAscii →
    hasSequence cs = false
  decode_plain : ∀ cs, hasSequence cs = false → decode cs = String.ofList (cs.map plus)

def Reader.read (r : Reader) (query : List Char) : List (String × String) :=
  formParse r.decode (queryOf r.blank query)

/-- A parameter: its name, the text that is written for it and the value that is meant. -/
structure Param where
  key : List Char
  raw : List Char
  value : String
  key_ne_nil : key ≠ []
  key_alpha : ∀ c ∈ key, c.isAlpha = true

def joinParams : List Param → List Char
  | [] => []
  | p :: ps => p.key ++ '=' :: (p.raw ++ if ps = [] then [] else '&' :: joinParams ps)

/-- Nothing in a text is cut or taken out. -/
def Clean (cs : List Char) : Prop := ∀ c ∈ cs, c ≠ '&' ∧ c ≠ '#' ∧ isBreak c = false

/-- A text that is read as it is written. -/
structure Verbatim (cs : List Char) : Prop where
  clean : Clean cs
  plain : hasSequence cs = false
  plus : '+' ∉ cs

section Texts

variable {blank : Char → Bool} {raw rest pre : List Char}

theorem split_of_notMem {sep : Char} {l : List Char} (h : sep ∉ l) : split sep l = [l] := by
  induction l with
  | nil => rfl
  | cons c l ih =>
    have hc : c ≠ sep := (List.ne_of_not_mem_cons h).symm
    rw [split, if_neg hc, ih (List.not_mem_of_not_mem_cons h)]

/-- A character that is no blank ends the blanks. -/
theorem rdropWhile_append_cons {c : Char} (h : blank c = false) (l l' : List Char) :
    (l ++ c :: l').rdropWhile blank = l ++ c :: l'.rdropWhile blank := by
  induction l' using List.reverseRecOn with
  | nil =>
    rw [List.rdropWhile_concat_neg _ _ _ (by simp [h])]
    rfl
  | append_singleton l' d ih =>
    have hsplit : l ++ c :: (l' ++ [d]) = (l ++ c :: l') ++ [d] := by simp
    by_cases hd : blank d = true
    · rw [hsplit, List.rdropWhile_concat_pos _ _ _ hd, List.rdropWhile_concat_pos _ _ _ hd, ih]
    · rw [hsplit, List.rdropWhile_concat_neg _ _ _ hd, List.rdropWhile_concat_neg _ _ _ hd]
      simp

theorem Clean.filter_eq (h : Clean raw) : (raw.filter fun c => !isBreak c) = raw :=
  List.filter_eq_self.mpr fun c hc => by simp [(h c hc).2.2]

theorem Clean.takeWhile_append (h : Clean raw) (rest : List Char) :
    (raw ++ rest).takeWhile (· ≠ '#') = raw ++ rest.takeWhile (· ≠ '#') :=
  List.takeWhile_append_of_pos fun c hc => by simpa using (h c hc).2.1

theorem queryOf_clean (h : Clean raw) (hend : raw.rdropWhile blank = raw) :
    queryOf blank raw = raw := by
  have htake := h.takeWhile_append []
  rw [queryOf, hend, h.filter_eq]
  simpa using htake

/-- What comes before a character that is no blank is kept where it is clean. -/
theorem queryOf_append_cons {c : Char} (h : Clean raw) (hblank : blank c = false)
    (hbreak : isBreak c = false) (hmark : c ≠ '#') (rest : List Char) :
    queryOf blank (raw ++ c :: rest) = raw ++ c :: queryOf blank rest := by
  rw [queryOf, rdropWhile_append_cons hblank, List.filter_append, h.filter_eq,
    List.filter_cons_of_pos (by simp [hbreak]), h.takeWhile_append,
    List.takeWhile_cons_of_pos (by simpa using hmark), queryOf]

/-- The first piece of what is kept is made of characters of the text before the mark. -/
theorem takeWhile_kept_sublist (hrest : rest = [] ∨ ∃ others, rest = '&' :: others)
    (hpre : pre <+: raw ++ rest) :
    List.Sublist ((((pre.filter fun c => !isBreak c).takeWhile (· ≠ '#')).takeWhile (· ≠ '&')))
      raw := by
  induction raw generalizing pre with
  | nil =>
    cases pre with
    | nil => exact List.Sublist.refl _
    | cons c pre =>
      have hc : c = '&' := by
        rcases hrest with rfl | ⟨others, rfl⟩
        · exact absurd hpre.length_le (by simp)
        · exact (List.cons_prefix_cons.mp hpre).1
      subst hc
      rw [List.filter_cons_of_pos (by decide), List.takeWhile_cons_of_pos (by decide),
        List.takeWhile_cons_of_neg (by decide)]
  | cons d raw ih =>
    cases pre with
    | nil => exact List.nil_sublist _
    | cons c pre =>
      obtain ⟨rfl, htail⟩ := List.cons_prefix_cons.mp hpre
      have hsub := ih htail
      rw [List.filter_cons]
      split
      · rw [List.takeWhile_cons]
        split
        · rw [List.takeWhile_cons]
          split
          · exact hsub.cons_cons c
          · exact List.nil_sublist _
        · exact List.nil_sublist _
      · exact hsub.cons c

theorem mem_kept {c : Char} (h : c ∈ (queryOf blank raw).takeWhile (· ≠ '&')) :
    c ≠ '&' ∧ c ≠ '#' ∧ isBreak c = false := by
  have hmark := List.mem_takeWhile_imp h
  have hquery := (List.takeWhile_prefix _).subset h
  have hhash := List.mem_takeWhile_imp hquery
  have hfilter := (List.mem_filter.mp ((List.takeWhile_prefix _).subset hquery)).2
  exact ⟨by simpa using hmark, by simpa using hhash, by simpa using hfilter⟩

/-- The first piece is the whole text only where that is clean and does not end in blanks. -/
theorem clean_of_kept (hrest : rest = [] ∨ ∃ others, rest = '&' :: others)
    (h : (queryOf blank (raw ++ rest)).takeWhile (· ≠ '&') = raw) :
    Clean raw ∧ (rest = [] → raw.rdropWhile blank = raw) := by
  refine ⟨fun c hc => mem_kept (h ▸ hc), ?_⟩
  rintro rfl
  rw [List.append_nil] at h
  have hsub : List.Sublist raw (raw.rdropWhile blank) := by
    conv_lhs => rw [← h]
    exact takeWhile_kept_sublist (.inl rfl) (by simp)
  exact (List.rdropWhile_prefix blank raw).eq_of_length_le hsub.length_le

end Texts

section Params

variable {r : Reader} {p : Param} {ps : List Param}

/-- Every value is written as it is read, and the query does not end in blanks. -/
structure Intact (r : Reader) (ps : List Param) : Prop where
  clean : ∀ p ∈ ps, Clean p.raw
  decode : ∀ p ∈ ps, r.decode p.raw = p.value
  last : ∀ p, ps.getLast? = some p → p.raw.rdropWhile r.blank = p.raw

theorem clean_key (p : Param) : Clean (p.key ++ ['=']) := by
  intro c hc
  rcases List.mem_append.mp hc with hc | hc
  · have hmarks : ['&', '#', '\t', '\r', '\n'].all (fun d => !d.isAlpha) = true := by decide
    have hall (d : Char) (hd : d ∈ ['&', '#', '\t', '\r', '\n']) : d.isAlpha = false :=
      Bool.not_eq_true' _ |>.mp (List.all_eq_true.mp hmarks d hd)
    have hne {d : Char} (hd : d ∈ ['&', '#', '\t', '\r', '\n']) : c ≠ d := by
      rintro rfl
      exact absurd ((hall c hd).symm.trans (p.key_alpha c hc)) (by decide)
    refine ⟨hne (by decide), hne (by decide), ?_⟩
    have htab : c ≠ '\t' := hne (by decide)
    have hreturn : c ≠ '\r' := hne (by decide)
    have hfeed : c ≠ '\n' := hne (by decide)
    simp [isBreak, htab, hreturn, hfeed]
  · obtain rfl := List.mem_singleton.mp hc
    decide

theorem equals_notMem_key (p : Param) : '=' ∉ p.key :=
  fun h => absurd (p.key_alpha _ h) (by decide)

theorem hasSequence_of_alpha {cs : List Char} (h : ∀ c ∈ cs, c.isAlpha = true) :
    hasSequence cs = false := by
  induction cs with
  | nil => rfl
  | cons c cs ih =>
    obtain ⟨hc, hcs⟩ := List.forall_mem_cons.mp h
    have hpercent : c ≠ '%' := by
      rintro rfl
      exact absurd hc (by decide)
    rw [hasSequence, sequenceByte, if_neg hpercent, ih hcs]
    rfl

theorem map_plus_of_notMem {cs : List Char} (h : '+' ∉ cs) : cs.map plus = cs := by
  refine (List.map_congr_left fun c hc => ?_).trans (List.map_id cs)
  rw [plus, if_neg (ne_of_mem_of_not_mem hc h), id]

theorem decode_key (r : Reader) (p : Param) : r.decode p.key = String.ofList p.key := by
  rw [r.decode_plain _ (hasSequence_of_alpha p.key_alpha), map_plus_of_notMem]
  exact fun h => absurd (p.key_alpha _ h) (by decide)

/-- The pieces of a query whose first one is a parameter. -/
theorem formParse_param (r : Reader) (p : Param) {value rest : List Char} (hvalue : '&' ∉ value)
    (hrest : rest = [] ∨ ∃ others, rest = '&' :: others) :
    formParse r.decode (p.key ++ '=' :: (value ++ rest)) =
      (String.ofList p.key, r.decode value) :: formParse r.decode (rest.drop 1) := by
  have hmark : '&' ∉ p.key ++ '=' :: value := by
    intro h
    rcases List.mem_append.mp h with h | h
    · exact (clean_key p '&' (List.mem_append_left _ h)).1 rfl
    · rcases List.mem_cons.mp h with h | h
      · exact absurd h (by decide)
      · exact hvalue h
  have hpiece : (r.decode ((p.key ++ '=' :: value).takeWhile (· ≠ '=')),
      r.decode (((p.key ++ '=' :: value).dropWhile (· ≠ '=')).drop 1)) =
      (String.ofList p.key, r.decode value) := by
    have hkey : ∀ c ∈ p.key, decide (c ≠ '=') = true := by
      intro c hc
      refine decide_eq_true ?_
      rintro rfl
      exact equals_notMem_key p hc
    rw [List.takeWhile_append_of_pos hkey, List.dropWhile_append_of_pos hkey,
      List.takeWhile_cons_of_neg (by decide), List.dropWhile_cons_of_neg (by decide),
      List.append_nil, decode_key]
    rfl
  have hwhole : p.key ++ '=' :: (value ++ rest) = (p.key ++ '=' :: value) ++ rest := by simp
  rw [hwhole, ← hpiece]
  unfold formParse
  rcases hrest with rfl | ⟨others, rfl⟩
  · rw [List.append_nil, split_of_notMem hmark, List.filter_cons_of_pos (by simp)]
    rfl
  · rw [split_append hmark, List.filter_cons_of_pos (by simp)]
    rfl

theorem queryOf_key (r : Reader) (p : Param) (rest : List Char) :
    queryOf r.blank (p.key ++ '=' :: rest) = p.key ++ '=' :: queryOf r.blank rest := by
  refine queryOf_append_cons ?_ r.blank_marks.1 (by decide) (by decide) rest
  exact fun c hc => clean_key p c (List.mem_append_left _ hc)

/-- What follows a value. -/
def following (ps : List Param) : List Char := if ps = [] then [] else '&' :: joinParams ps

theorem following_cases (ps : List Param) :
    following ps = [] ∧ ps = [] ∨ following ps = '&' :: joinParams ps ∧ ps ≠ [] := by
  unfold following
  split
  · next h => exact .inl ⟨rfl, h⟩
  · next h => exact .inr ⟨rfl, h⟩

theorem following_marked (ps : List Param) :
    following ps = [] ∨ ∃ others, following ps = '&' :: others := by
  rcases following_cases ps with ⟨h, -⟩ | ⟨h, -⟩
  · exact .inl h
  · exact .inr ⟨_, h⟩

/-- The first value is read from characters of its text, and from all of them only where it is
clean. -/
theorem read_cons (r : Reader) (p : Param) (ps : List Param) :
    ∃ value others,
      r.read (joinParams (p :: ps)) = (String.ofList p.key, r.decode value) :: others ∧
      List.Sublist value p.raw ∧
      (value = p.raw → Clean p.raw ∧ (ps = [] → p.raw.rdropWhile r.blank = p.raw)) := by
  set kept := queryOf r.blank (p.raw ++ following ps) with hkept
  have hquery : queryOf r.blank (joinParams (p :: ps)) = p.key ++ '=' :: kept :=
    queryOf_key r p _
  have hrest : kept.dropWhile (· ≠ '&') = [] ∨
      ∃ others, kept.dropWhile (· ≠ '&') = '&' :: others := by
    rcases hdrop : kept.dropWhile (· ≠ '&') with - | ⟨c, others⟩
    · exact .inl rfl
    · have hhead := List.head?_dropWhile_not (· ≠ '&') kept
      rw [hdrop] at hhead
      have hc : c = '&' := by simpa using hhead
      exact .inr ⟨others, by rw [hc]⟩
  have hmark : '&' ∉ kept.takeWhile (· ≠ '&') :=
    fun h => by simpa using List.mem_takeWhile_imp h
  refine ⟨kept.takeWhile (· ≠ '&'), formParse r.decode ((kept.dropWhile (· ≠ '&')).drop 1), ?_,
    ?_, ?_⟩
  · rw [Reader.read, hquery, ← formParse_param r p hmark hrest, List.takeWhile_append_dropWhile]
  · exact takeWhile_kept_sublist (following_marked ps) (List.rdropWhile_prefix _ _)
  · intro h
    obtain ⟨hclean, hend⟩ := clean_of_kept (following_marked ps) h
    refine ⟨hclean, fun hps => hend ?_⟩
    rw [hps]
    rfl

/-- A clean value is read whole, and then the others. -/
theorem read_cons_clean (hclean : Clean p.raw)
    (hend : ps = [] → p.raw.rdropWhile r.blank = p.raw) :
    r.read (joinParams (p :: ps)) =
      (String.ofList p.key, r.decode p.raw) :: r.read (joinParams ps) := by
  have hmark : '&' ∉ p.raw := fun h => (hclean _ h).1 rfl
  have hquery : queryOf r.blank (joinParams (p :: ps)) =
      p.key ++ '=' :: queryOf r.blank (p.raw ++ following ps) := queryOf_key r p _
  rw [Reader.read, hquery]
  rcases following_cases ps with ⟨hnone, rfl⟩ | ⟨hsome, -⟩
  · rw [hnone, List.append_nil, queryOf_clean hclean (hend rfl)]
    have hparse := formParse_param r p hmark (.inl rfl)
    rw [List.append_nil] at hparse
    rw [hparse]
    rfl
  · rw [hsome, queryOf_append_cons hclean r.blank_marks.2 (by decide) (by decide),
      formParse_param r p hmark (.inr ⟨_, rfl⟩)]
    rfl

/-- Parameters that are intact are read as they are meant. -/
theorem Intact.read (h : Intact r ps) :
    r.read (joinParams ps) = ps.map fun p => (String.ofList p.key, p.value) := by
  induction ps with
  | nil => rfl
  | cons p ps ih =>
    have hend : ps = [] → p.raw.rdropWhile r.blank = p.raw := by
      rintro rfl
      exact h.last p rfl
    have htail : Intact r ps := by
      refine ⟨fun q hq => h.clean q (List.mem_cons_of_mem p hq),
        fun q hq => h.decode q (List.mem_cons_of_mem p hq), fun q hq => h.last q ?_⟩
      rw [List.getLast?_cons, hq]
      rfl
    rw [read_cons_clean (h.clean p List.mem_cons_self) hend, h.decode p List.mem_cons_self,
      ih htail, List.map_cons]

/-- A value that is read from some characters of its text is read from all of them. -/
def Faithful (r : Reader) (p : Param) : Prop :=
  ∀ value : List Char, List.Sublist value p.raw → r.decode value = p.value → value = p.raw

/-- A value that needs no care. -/
structure Safe (r : Reader) (p : Param) : Prop where
  clean : Clean p.raw
  decode : r.decode p.raw = p.value
  last : p.raw.rdropWhile r.blank = p.raw

/-- Parameters that are found as they are meant are intact. -/
theorem intact_of_lookup (hkeys : (ps.map Param.key).Nodup)
    (hvalues : ∀ p ∈ ps, Faithful r p ∨ Safe r p)
    (h : ∀ p ∈ ps, (r.read (joinParams ps)).lookup (String.ofList p.key) = some p.value) :
    Intact r ps := by
  induction ps with
  | nil => exact ⟨nofun, nofun, nofun⟩
  | cons p ps ih =>
    obtain ⟨hkey, hkeys⟩ := List.nodup_cons.mp hkeys
    obtain ⟨hvalue, hvalues⟩ := List.forall_mem_cons.mp hvalues
    obtain ⟨hp, hps⟩ := List.forall_mem_cons.mp h
    have hfirst : Clean p.raw ∧ r.decode p.raw = p.value ∧
        (ps = [] → p.raw.rdropWhile r.blank = p.raw) := by
      rcases hvalue with hfaithful | hsafe
      · obtain ⟨value, others, hread, hsub, hwhole⟩ := read_cons r p ps
        rw [hread, List.lookup_cons_self] at hp
        have hdecode := Option.some.inj hp
        obtain rfl := hfaithful value hsub hdecode
        exact ⟨(hwhole rfl).1, hdecode, (hwhole rfl).2⟩
      · exact ⟨hsafe.clean, hsafe.decode, fun _ => hsafe.last⟩
    obtain ⟨hclean, hdecode, hend⟩ := hfirst
    have htail : Intact r ps := by
      refine ih hkeys hvalues fun q hq => ?_
      have hne : ¬ String.ofList q.key = String.ofList p.key := by
        intro heq
        exact hkey (String.ofList_injective heq ▸ List.mem_map_of_mem hq)
      have hlookup := hps q hq
      rwa [read_cons_clean hclean hend, List.lookup_cons, beq_eq_false_iff_ne.mpr hne] at hlookup
    refine ⟨List.forall_mem_cons.mpr ⟨hclean, htail.clean⟩,
      List.forall_mem_cons.mpr ⟨hdecode, htail.decode⟩, fun q hq => ?_⟩
    cases ps with
    | nil =>
      obtain rfl := Option.some.inj hq
      exact hend rfl
    | cons q' ps => exact htail.last q hq

/-- A text that is its own value is read from nothing less. -/
theorem faithful_of_value (hvalue : p.value = String.ofList p.raw) : Faithful r p := by
  intro value hsub hdecode
  rw [hvalue] at hdecode
  have hcount : (r.decode value).toList.countP isAscii = p.raw.countP isAscii := by
    rw [hdecode, String.toList_ofList]
  have hle := r.count_le value
  have hsubcount : value.countP isAscii ≤ p.raw.countP isAscii := hsub.countP_le
  have hplain := r.plain_of_count value (by omega)
  have hmap : value.map plus = p.raw := by
    rw [r.decode_plain value hplain] at hdecode
    exact String.ofList_injective hdecode
  exact hsub.eq_of_length (by rw [← hmap, List.length_map])

/-- Such a text is read as it is written exactly without sequences and plus signs. -/
theorem decode_eq_ofList_iff {cs : List Char} :
    r.decode cs = String.ofList cs ↔ hasSequence cs = false ∧ '+' ∉ cs := by
  constructor
  · intro h
    have hplain := r.plain_of_count cs (by rw [h, String.toList_ofList])
    rw [r.decode_plain cs hplain] at h
    have hmap : cs.map plus = cs := String.ofList_injective h
    refine ⟨hplain, fun hplus => ?_⟩
    have hmem : '+' ∈ cs.map plus := hmap.symm ▸ hplus
    obtain ⟨c, -, hc⟩ := List.mem_map.mp hmem
    unfold plus at hc
    split at hc
    · exact absurd hc (by decide)
    · next hne => exact hne hc
  · rintro ⟨hplain, hplus⟩
    rw [r.decode_plain cs hplain, map_plus_of_notMem hplus]

end Params

end FormTexts
