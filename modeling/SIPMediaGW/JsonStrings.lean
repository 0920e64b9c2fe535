import SIPMediaGW.BracketEnds
import SIPMediaGW.BracketStrings
import SIPMediaGW.JsonTexts
import Mathlib.Algebra.Order.BigOperators.Group.List
import Mathlib.Algebra.GroupWithZero.Nat
import Mathlib.Algebra.Order.Group.Nat

/-! # The strings of a JSON text

What `json.loads` reads in a string, beside the string without its backslashes. A slash may be
escaped and stays itself; any other escape yields fewer visible characters than it is written
with. -/
namespace JsonTexts

open BracketTexts hiding Mode
open EscapedTexts
open PythonJson

theorem lexicon_lawful : lexicon.Lawful where
  space := rfl
  quote_blank c h := by
    obtain rfl := of_decide_eq_true h
    rfl
  mark_blank c h := by
    simp only [isMark, List.mem_cons, List.not_mem_nil, or_false, decide_eq_true_eq] at h
    rcases h with rfl | rfl | rfl | rfl | rfl | rfl <;> rfl
  mark_quote c h := by
    simp only [isMark, List.mem_cons, List.not_mem_nil, or_false, decide_eq_true_eq] at h
    rcases h with rfl | rfl | rfl | rfl | rfl | rfl <;> rfl
  backslash := rfl

theorem blank_backslash : lexicon.blank '\\' = false := by decide

def visible (ns : List ℕ) : ℕ := ns.countP fun n => decide (32 ≤ n)

section Visible

variable {m : Mode} {cs : List Char} {ns : List ℕ}

theorem visible_append (ns ms : List ℕ) : visible (ns ++ ms) = visible ns + visible ms :=
  List.countP_append

theorem visible_singleton_le (n : ℕ) : visible [n] ≤ 1 := List.countP_le_length

theorem letter_cases {c d : Char} (h : escapes.letter c = some d) :
    (d = c ∧ (c = '"' ∨ c = '\\' ∨ c = '/')) ∨ d.toNat < 32 := by
  simp only [escapes] at h
  split at h
  · next hc =>
    obtain rfl := Option.some.inj h
    exact Or.inl ⟨rfl, hc⟩
  · right
    repeat' split at h
    all_goals first | cases h; done | (obtain rfl := Option.some.inj h; decide)

/-- No escape yields more than it is written with, a double backslash apart. -/
theorem visible_decode_le (hpairs : ¬ ['\\', '\\'] <:+: cs)
    (hopen : m = .escape → cs.head? ≠ some '\\') (h : decode escapes m cs = some ns) :
    visible ns ≤ (bare cs).length := by
  induction cs generalizing m ns with
  | nil =>
    cases m with
    | plain =>
      obtain rfl := Option.some.inj h
      exact le_rfl
    | escape => cases h
    | hex left value => cases h
  | cons c cs ih =>
    obtain ⟨m', front, ms, hstep, hrest, rfl⟩ := decode_cons h
    clear h
    have hpairs' : ¬ ['\\', '\\'] <:+: cs :=
      fun hpair => hpairs (hpair.trans (List.suffix_cons c cs).isInfix)
    have hone (hc : c ≠ '\\') (hfront : visible front ≤ 1) (hm' : m' ≠ .escape) :
        visible (front ++ ms) ≤ (bare (c :: cs)).length := by
      have hms := ih hpairs' (fun heq => absurd heq hm') hrest
      rw [visible_append, bare_cons hc, List.length_cons]
      omega
    cases hstep with
    | plain hc => exact hone hc (visible_singleton_le _) (by simp)
    | opens =>
      refine ih hpairs' (fun _ hhead => hpairs ?_) hrest
      obtain ⟨rest, rfl⟩ : ∃ rest, cs = '\\' :: rest := List.head?_eq_some_iff.mp hhead
      exact (List.prefix_append ['\\', '\\'] rest).isInfix
    | letter hd =>
      exact hone (fun heq => hopen rfl (by rw [heq]; rfl)) (visible_singleton_le _) (by simp)
    | width hl hw => exact hone (fun heq => hopen rfl (by rw [heq]; rfl)) (Nat.zero_le _) (by simp)
    | last hx =>
      refine hone (fun heq => ?_) (visible_singleton_le _) (by simp)
      rw [heq] at hx
      cases hx
    | digit hx hleft =>
      refine hone (fun heq => ?_) (Nat.zero_le _) (by simp)
      rw [heq] at hx
      cases hx

/-- An escape that is not a slash yields less. -/
theorem visible_decode_lt (hpairs : ¬ ['\\', '\\'] <:+: cs) (hquotes : ¬ ['\\', '"'] <:+: cs)
    {c : Char} (hc : c ≠ '/') (hpair : ['\\', c] <:+: cs)
    (h : decode escapes .plain cs = some ns) : visible ns < (bare cs).length := by
  induction hn : cs.length using Nat.strong_induction_on generalizing cs ns with
  | _ n ih =>
    cases cs with
    | nil => simp at hpair
    | cons d cs =>
      have hpairs' : ¬ ['\\', '\\'] <:+: cs :=
        fun hp => hpairs (hp.trans (List.suffix_cons d cs).isInfix)
      have hquotes' : ¬ ['\\', '"'] <:+: cs :=
        fun hp => hquotes (hp.trans (List.suffix_cons d cs).isInfix)
      obtain ⟨m', front, ms, hstep, hrest, rfl⟩ := decode_cons h
      clear h
      cases hstep with
      | plain hd =>
        have htail : ['\\', c] <:+: cs := by
          rcases List.infix_cons_iff.mp hpair with hpre | htail
          · exact absurd (List.cons_prefix_cons.mp hpre).1.symm hd
          · exact htail
        have hlt := ih cs.length (by simp [← hn]) hpairs' hquotes' htail hrest rfl
        have hle := visible_singleton_le d.toNat
        rw [visible_append, bare_cons hd, List.length_cons]
        omega
      | opens =>
        cases cs with
        | nil => cases hrest
        | cons d cs =>
          have hd : d ≠ '\\' := by
            rintro rfl
            exact hpairs (List.prefix_append ['\\', '\\'] cs).isInfix
          have htail' : ¬ ['\\', '\\'] <:+: cs :=
            fun hp => hpairs' (hp.trans (List.suffix_cons d cs).isInfix)
          obtain ⟨m', front, ms, hstep, hlast, rfl⟩ := decode_cons hrest
          clear hrest
          rw [List.nil_append, visible_append, bare_backslash, bare_cons hd, List.length_cons]
          cases hstep with
          | letter hletter =>
            rcases letter_cases hletter with ⟨rfl, rfl | rfl | rfl⟩ | hlow
            · exact absurd (List.prefix_append ['\\', '"'] cs).isInfix hquotes
            · exact absurd rfl hd
            · have htail : ['\\', c] <:+: cs := by
                rcases List.infix_cons_iff.mp hpair with hpre | hpair
                · obtain ⟨-, hpre⟩ := List.cons_prefix_cons.mp hpre
                  exact absurd (List.cons_prefix_cons.mp hpre).1 hc
                · rcases List.infix_cons_iff.mp hpair with hpre | htail
                  · cases (List.cons_prefix_cons.mp hpre).1
                  · exact htail
              have hlength : cs.length < n := by
                simp only [List.length_cons] at hn
                omega
              have hlt := ih cs.length hlength htail'
                (fun hp => hquotes' (hp.trans (List.suffix_cons '/' cs).isInfix)) htail hlast rfl
              have hle := visible_singleton_le '/'.toNat
              omega
            · have hle := visible_decode_le htail' (fun heq => by cases heq) hlast
              have hzero : visible [Char.toNat _] = 0 := List.countP_eq_zero.mpr fun n hn => by
                rw [List.mem_singleton.mp hn]
                simpa using hlow
              omega
          | width hl hw =>
            have hle := visible_decode_le htail' (fun heq => by cases heq) hlast
            have hzero : visible [] = 0 := rfl
            omega

end Visible

section Surrogates

variable {n : ℕ} {ns : List ℕ}

theorem mem_joinSurrogates (hn : n < 0xD800) (h : n ∈ ns) : n ∈ joinSurrogates ns := by
  induction ns using joinSurrogates.induct with
  | case1 => cases h
  | case2 m => exact h
  | case3 k m ns hpair ih =>
    obtain ⟨hhigh, hlow⟩ : isHigh k = true ∧ isLow m = true := by simpa using hpair
    simp only [isHigh, isLow, Bool.and_eq_true, decide_eq_true_eq] at hhigh hlow
    rw [joinSurrogates, if_pos hpair]
    rcases List.mem_cons.mp h with rfl | h
    · omega
    rcases List.mem_cons.mp h with rfl | h
    · omega
    · exact List.mem_cons_of_mem _ (ih h)
  | case4 k m ns hpair ih =>
    rw [joinSurrogates, if_neg hpair]
    rcases List.mem_cons.mp h with rfl | h
    · exact List.mem_cons_self
    · exact List.mem_cons_of_mem _ (ih h)

theorem visible_cons (n : ℕ) (ns : List ℕ) : visible (n :: ns) = visible [n] + visible ns :=
  visible_append [n] ns

theorem visible_joinSurrogates_le (ns : List ℕ) : visible (joinSurrogates ns) ≤ visible ns := by
  induction ns using joinSurrogates.induct with
  | case1 => exact le_rfl
  | case2 m => exact le_rfl
  | case3 k m ns hpair ih =>
    obtain ⟨hhigh, -⟩ : isHigh k = true ∧ isLow m = true := by simpa using hpair
    simp only [isHigh, Bool.and_eq_true, decide_eq_true_eq] at hhigh
    have hk : visible [k] = 1 := List.countP_eq_length.mpr fun n hn => by
      rw [List.mem_singleton.mp hn, decide_eq_true_eq]
      omega
    have hone := visible_singleton_le (0x10000 + (k - 0xD800) * 1024 + (m - 0xDC00))
    rw [joinSurrogates, if_pos hpair, visible_cons, visible_cons k, visible_cons m]
    omega
  | case4 k m ns hpair ih =>
    rw [joinSurrogates, if_neg hpair, visible_cons k (joinSurrogates (m :: ns)),
      visible_cons k (m :: ns)]
    omega

/-- No character is a surrogate. -/
theorem isHigh_toNat (c : Char) : isHigh c.toNat = false := by
  have hvalid : c.toNat.isValidChar := c.valid
  rw [isHigh, Bool.and_eq_false_iff, decide_eq_false_iff_not, decide_eq_false_iff_not]
  rcases hvalid with hlow | ⟨hhigh, -⟩ <;> omega

theorem joinSurrogates_toNat (cs : List Char) :
    joinSurrogates (cs.map Char.toNat) = cs.map Char.toNat := by
  induction cs with
  | nil => rfl
  | cons c cs ih =>
    cases cs with
    | nil => rfl
    | cons d cs =>
      rw [List.map_cons, List.map_cons, joinSurrogates, isHigh_toNat, Bool.false_and,
        if_neg Bool.false_ne_true]
      exact congrArg _ ih

theorem toNat_of_scalars {cs : List Char} (h : scalars ns = some cs) : cs.map Char.toNat = ns := by
  induction ns generalizing cs with
  | nil =>
    obtain rfl := Option.some.inj h
    rfl
  | cons n ns ih =>
    obtain ⟨c, hc, h⟩ := Option.bind_eq_some_iff.mp h
    obtain ⟨cs, hcs, rfl⟩ := Option.map_eq_some_iff.mp h
    unfold scalar at hc
    split at hc
    · next hvalid =>
      obtain rfl := Option.some.inj hc
      have hchar : (Char.ofNat n).toNat = n := by
        rw [Char.ofNat, dif_pos hvalid]
        rfl
      rw [List.map_cons, ih hcs, hchar]
    · cases hc

end Surrogates

section Strings

variable {strict : Bool} {body : List Char} {s : String}

theorem readString_some (h : readString strict body = some s) :
    (strict = true → ∀ c ∈ body, 32 ≤ c.toNat) ∧
      ∃ ns, decode escapes .plain body = some ns ∧ s.toList.map Char.toNat = joinSurrogates ns := by
  unfold readString at h
  split at h
  · cases h
  · next hcontrol =>
    obtain ⟨cs, hcs, rfl⟩ := Option.map_eq_some_iff.mp h
    obtain ⟨ns, hns, hcs⟩ := Option.bind_eq_some_iff.mp hcs
    refine ⟨fun hstrict c hc => ?_, ns, hns, ?_⟩
    · have hnone : body.any (fun c => decide (c.toNat < 32)) = false := by
        simpa [hstrict] using hcontrol
      have hlow := List.any_eq_false.mp hnone c hc
      simpa using hlow
    · rw [String.toList_ofList]
      exact toNat_of_scalars hcs

theorem readString_of_notMem (h : '\\' ∉ body) :
    readString false body = some (String.ofList body) := by
  rw [readString, Bool.false_and, if_neg Bool.false_ne_true, decode_of_notMem h, Option.bind_some,
    joinSurrogates_toNat, scalars_map_toNat, Option.map_some]

theorem mem_of_toNat {c : Char} (h : c.toNat ∈ s.toList.map Char.toNat) : c ∈ s.toList := by
  obtain ⟨d, hd, heq⟩ := List.mem_map.mp h
  exact Char.toNat_inj.mp heq ▸ hd

/-- An escaped backslash or quote is in the string. -/
theorem mem_of_pair {c : Char} (hc : c = '\\' ∨ c = '"') (hpair : ['\\', c] <:+: body)
    (h : readString strict body = some s) : '\\' ∈ s.toList ∨ '"' ∈ s.toList := by
  obtain ⟨-, ns, hns, hs⟩ := readString_some h
  have hself : escapes.letter c = some c := by
    rcases hc with rfl | rfl <;> rfl
  have hmem (d : Char) (hd : d.toNat < 0xD800) (hdn : d.toNat ∈ ns) : d ∈ s.toList :=
    mem_of_toNat (hs ▸ mem_joinSurrogates hd hdn)
  rcases mem_decode_of_pair rfl hself hpair hns with hbackslash | hcn
  · exact Or.inl (hmem '\\' (by decide) hbackslash)
  · rcases hc with rfl | rfl
    · exact Or.inl (hmem '\\' (by decide) hcn)
    · exact Or.inr (hmem '"' (by decide) hcn)

theorem colon_mem (hmem : ':' ∈ body) (h : readString strict body = some s) : ':' ∈ s.toList := by
  obtain ⟨-, ns, hns, hs⟩ := readString_some h
  have hdecoded := mem_decode (by decide) (by decide) (by decide) (by decide) hmem hns
  exact mem_of_toNat (hs ▸ mem_joinSurrogates (by decide) hdecoded)

/-- A string whose only escapes are slashes is what is left of it. -/
theorem readString_slashes (hpairs : ∀ c, ['\\', c] <:+: body → c = '/')
    (h : readString strict body = some s) : readString false (bare body) = some s := by
  obtain ⟨-, ns, hns, hs⟩ := readString_some h
  have hbare : ns = (bare body).map Char.toNat := decode_slashes rfl hpairs hns
  rw [hbare, joinSurrogates_toNat] at hs
  have hlist : s.toList = bare body := List.map_injective_iff.mpr (fun _ _ => Char.toNat_inj.mp) hs
  rw [readString_of_notMem (notMem_bare body), ← hlist, String.ofList_toList]

def visibleIn (s : String) : ℕ := visible (s.toList.map Char.toNat)

theorem visibleIn_bare (h : ∀ c ∈ body, 32 ≤ c.toNat) :
    visibleIn (String.ofList (bare body)) = (bare body).length := by
  rw [visibleIn, String.toList_ofList, ← List.length_map (f := Char.toNat)]
  refine List.countP_eq_length.mpr fun n hn => decide_eq_true ?_
  obtain ⟨c, hc, rfl⟩ := List.mem_map.mp hn
  exact h c (List.mem_filter.mp hc).1

/-- Whatever its escapes, a string has at most as many visible characters as it is written with. -/
theorem visibleIn_le (hpairs : ¬ ['\\', '\\'] <:+: body) (h : readString true body = some s) :
    visibleIn s ≤ visibleIn (String.ofList (bare body)) := by
  obtain ⟨hcontrol, ns, hns, hs⟩ := readString_some h
  rw [visibleIn_bare (hcontrol rfl), visibleIn, hs]
  exact (visible_joinSurrogates_le ns).trans
    (visible_decode_le hpairs (fun heq => by cases heq) hns)

theorem visibleIn_lt (hpairs : ¬ ['\\', '\\'] <:+: body) (hquotes : ¬ ['\\', '"'] <:+: body)
    {c : Char} (hc : c ≠ '/') (hpair : ['\\', c] <:+: body) (h : readString true body = some s) :
    visibleIn s < visibleIn (String.ofList (bare body)) := by
  obtain ⟨hcontrol, ns, hns, hs⟩ := readString_some h
  rw [visibleIn_bare (hcontrol rfl), visibleIn, hs]
  exact (visible_joinSurrogates_le ns).trans_lt (visible_decode_lt hpairs hquotes hc hpair hns)

end Strings

section Words

variable {floatOf : List Char → PyFloat} {token : List Char} {v : Json}

/-- A backslash is not taken for a digit. -/
theorem mem_dropWhile_digits {cs : List Char} (h : '\\' ∈ cs) :
    '\\' ∈ cs.dropWhile Char.isDigit := by
  rw [← List.takeWhile_append_dropWhile (p := Char.isDigit) (l := cs)] at h
  rcases List.mem_append.mp h with h | h
  · exact absurd (List.mem_takeWhile_imp h) (by decide)
  · exact h

theorem notMem_digits {cs : List Char} (h : cs.all Char.isDigit = true) : '\\' ∉ cs :=
  fun hmem => absurd (List.all_eq_true.mp h _ hmem) (by decide)

theorem notMem_isExponent {cs : List Char} (h : isExponent cs = true) : '\\' ∉ cs := by
  unfold isExponent at h
  split at h
  · exact List.not_mem_nil
  · next e cs =>
    dsimp only at h
    obtain ⟨⟨hletter, -⟩, hdigits⟩ := by simpa only [Bool.and_eq_true] using h
    have he : '\\' ≠ e := by
      rintro rfl
      exact absurd hletter (by decide)
    have hcs : '\\' ∉ cs := by
      split at hdigits
      · exact fun hmem => notMem_digits hdigits (List.mem_of_ne_of_mem (by decide) hmem)
      · exact fun hmem => notMem_digits hdigits (List.mem_of_ne_of_mem (by decide) hmem)
      · exact notMem_digits hdigits
    exact List.not_mem_cons_of_ne_of_not_mem he hcs

theorem notMem_afterFraction {cs : List Char} (h : (afterFraction cs).any isExponent = true) :
    '\\' ∉ cs := by
  unfold afterFraction at h
  split at h
  · split at h
    · cases h
    · intro hmem
      exact notMem_isExponent h (mem_dropWhile_digits (List.mem_of_ne_of_mem (by decide) hmem))
  · exact notMem_isExponent h

theorem notMem_readNumber (h : readNumber floatOf token = some v) : '\\' ∉ token := by
  intro hmem
  have hunsigned : '\\' ∈ if token.head? = some '-' then token.drop 1 else token := by
    split
    · next hminus =>
      obtain ⟨rest, rfl⟩ := List.head?_eq_some_iff.mp hminus
      exact List.mem_of_ne_of_mem (by decide) hmem
    · exact hmem
  unfold readNumber at h
  extract_lets unsigned digits rest at h
  have hrest : '\\' ∈ rest := mem_dropWhile_digits hunsigned
  split at h
  · cases h
  split at h
  · next hempty =>
    rw [List.isEmpty_iff.mp hempty] at hrest
    cases hrest
  split at h
  · next hfraction => exact notMem_afterFraction hfraction hrest
  · cases h

/-- A value without strings, that is no object. -/
def Simple (v : Json) : Prop := strings v = [] ∧ ∀ d, v ≠ .obj d

theorem simple_readNumber (h : readNumber floatOf token = some v) : Simple v := by
  unfold readNumber at h
  extract_lets unsigned digits rest at h
  split at h
  · cases h
  split at h
  · obtain ⟨n, -, rfl⟩ := Option.map_eq_some_iff.mp h
    exact ⟨rfl, fun d hd => by cases hd⟩
  split at h
  · obtain rfl := Option.some.inj h
    exact ⟨rfl, fun d hd => by cases hd⟩
  · cases h

/-- A word is a constant or a number. -/
theorem readAtom_cases (h : readAtom floatOf token = some v) : '\\' ∉ token ∧ Simple v := by
  have hword {word : List Char} {w : Json} (hplain : '\\' ∉ word) (hsimple : Simple w)
      (htoken : token = word) (hw : some w = some v) : '\\' ∉ token ∧ Simple v := by
    obtain rfl := Option.some.inj hw
    exact ⟨htoken ▸ hplain, hsimple⟩
  unfold readAtom at h
  split at h
  · next htoken => exact hword (by decide) ⟨rfl, fun d hd => by cases hd⟩ htoken h
  split at h
  · next htoken => exact hword (by decide) ⟨rfl, fun d hd => by cases hd⟩ htoken h
  split at h
  · next htoken => exact hword (by decide) ⟨rfl, fun d hd => by cases hd⟩ htoken h
  split at h
  · next htoken => exact hword (by decide) ⟨rfl, fun d hd => by cases hd⟩ htoken h
  split at h
  · next htoken => exact hword (by decide) ⟨rfl, fun d hd => by cases hd⟩ htoken h
  split at h
  · next htoken => exact hword (by decide) ⟨rfl, fun d hd => by cases hd⟩ htoken h
  · exact ⟨notMem_readNumber h, simple_readNumber h⟩

end Words

/-- The run over a text that is read, and the value as it is written. -/
structure Loaded (floatOf : List Char → PyFloat) (strict : Bool) (text : List Char) (v : Json)
    (st : State) (r : Raw) : Prop where
  run : run lexicon .start text = some st
  result : st.result = some r
  read : r.read (reading floatOf strict) = some v

section Texts

variable {floatOf : List Char → PyFloat} {strict : Bool} {text : List Char} {v : Json}
  {st : State} {r : Raw}

theorem exists_loaded (h : loads floatOf strict text = some v) :
    ∃ st r, Loaded floatOf strict text v st r := by
  obtain ⟨r, hparse, hread⟩ := Option.bind_eq_some_iff.mp h
  obtain ⟨st, hrun, hresult⟩ := Option.bind_eq_some_iff.mp hparse
  exact ⟨st, r, hrun, hresult, hread⟩

namespace Loaded

theorem parse (h : Loaded floatOf strict text v st r) : parse lexicon text = some r :=
  Option.bind_eq_some_iff.mpr ⟨st, h.run, h.result⟩

theorem reads (h : Loaded floatOf strict text v st r) :
    r.leaves.all (reading floatOf strict).reads = true := by
  rw [← isSome_read, h.read]
  rfl

theorem word (h : Loaded floatOf strict text v st r) {b : List Char}
    (hb : (false, b) ∈ st.leaves) : '\\' ∉ b := by
  rw [leaves_of_result h.result] at hb
  have hsome := List.all_eq_true.mp h.reads (false, b) hb
  obtain ⟨w, hw⟩ := Option.isSome_iff_exists.mp hsome
  exact (readAtom_cases hw).1

theorem string (h : Loaded floatOf strict text v st r) {b : List Char}
    (hb : (true, b) ∈ r.leaves) : ∃ s, readString strict b = some s :=
  Option.isSome_iff_exists.mp (List.all_eq_true.mp h.reads (true, b) hb)

theorem piece (h : Loaded floatOf strict text v st r) {leaf : Leaf} (hleaf : leaf ∈ r.leaves) :
    leaf.2 <:+: text := by
  rw [← leaves_of_result h.result] at hleaf
  exact (run_pieces lexicon_lawful (start_valid _) start_pieces h.run).leaves leaf hleaf

theorem strings_subperm (h : Loaded floatOf strict text v st r) :
    (strings v).Subperm (r.leaves.filterMap (said (reading floatOf strict))) :=
  (strings_read (fun _ _ hw => (readAtom_cases hw).2.1) r v h.read).1

theorem strings_eq (h : Loaded floatOf strict text v st r)
    (hunique : r.UniqueKeys (reading floatOf strict)) :
    strings v = r.leaves.filterMap (said (reading floatOf strict)) :=
  (strings_read (fun _ _ hw => (readAtom_cases hw).2.1) r v h.read).2 hunique

/-- A string of the text is one of the value, where no name comes again. -/
theorem mem_strings (h : Loaded floatOf strict text v st r)
    (hunique : r.UniqueKeys (reading floatOf strict)) {b : List Char} {s : String}
    (hb : (true, b) ∈ r.leaves) (hs : readString strict b = some s) : s ∈ strings v := by
  rw [h.strings_eq hunique]
  exact List.mem_filterMap.mpr ⟨(true, b), hb, hs⟩

/-- What is read from the text without its backslashes, where no quote is escaped. -/
theorem run_bare (h : Loaded floatOf strict text v st r) (hquotes : ¬ ['\\', '"'] <:+: text)
    {cs ds : List Char} (htext : text = cs ++ ds) {st' : State}
    (hrun : BracketTexts.run lexicon .start cs = some st') :
    BracketTexts.run lexicon .start (bare cs) = some st'.bare := by
  subst htext
  have hrest : BracketTexts.run lexicon st' ds = some st := by
    obtain ⟨st₁, hst₁, hds⟩ := run_append_some h.run
    obtain rfl := Option.some.inj (hrun.symm.trans hst₁)
    exact hds
  refine BracketTexts.run_bare lexicon_lawful blank_backslash (start_valid _) ?_ ?_ hrun ?_
  · intro isKey q hmode
    cases hmode
  · intro d hd
    refine decide_eq_false fun heq => hquotes ?_
    exact heq ▸ hd.trans (List.prefix_append cs ds).isInfix
  · intro b hb hmem
    obtain ⟨b', hb', hpre⟩ :=
      run_persists lexicon_lawful (run_valid (start_valid _) hrun) hrest hb
    exact h.word hb' (hpre.subset hmem)

theorem whole_bare (h : Loaded floatOf strict text v st r) (hquotes : ¬ ['\\', '"'] <:+: text) :
    BracketTexts.run lexicon .start (bare text) = some st.bare ∧
      st.bare.result = some r.bare := by
  refine ⟨h.run_bare hquotes (List.append_nil text).symm h.run, ?_⟩
  rw [result_bare, h.result]
  rfl

end Loaded

/-- An object is what begins with a brace. -/
theorem isObject_iff (h : loads floatOf strict text = some v) :
    (∃ d, v = .obj d) ↔ (text.dropWhile lexicon.blank).head? = some '{' := by
  obtain ⟨st, r, hloaded⟩ := exists_loaded h
  rw [← parse_isDict lexicon_lawful hloaded.parse]
  have hread := hloaded.read
  cases r with
  | atom token =>
    refine ⟨fun ⟨d, hd⟩ => absurd hd ((readAtom_cases hread).2.2 d), fun hfalse => ?_⟩
    cases hfalse
  | text q =>
    obtain ⟨s, -, rfl⟩ := Option.map_eq_some_iff.mp hread
    exact ⟨fun ⟨d, hd⟩ => (nomatch hd), fun hfalse => (nomatch hfalse)⟩
  | list items =>
    obtain ⟨vs, -, rfl⟩ := Option.map_eq_some_iff.mp hread
    exact ⟨fun ⟨d, hd⟩ => (nomatch hd), fun hfalse => (nomatch hfalse)⟩
  | dict members =>
    obtain ⟨ms, -, rfl⟩ := Option.map_eq_some_iff.mp hread
    exact ⟨fun _ => rfl, fun _ => ⟨_, rfl⟩⟩

theorem loads_of_run {st : State} {r : Raw} (hrun : run lexicon .start text = some st)
    (hresult : st.result = some r) :
    loads floatOf strict text = r.read (reading floatOf strict) := by
  rw [loads, BracketTexts.parse, hrun, Option.bind_some, hresult, Option.bind_some]

/-- The value of a text whose only escapes are slashes. -/
theorem loads_bare (hslashes : ∀ c, ['\\', c] <:+: text → c = '/')
    (h : loads floatOf true text = some v) : loads floatOf false (bare text) = some v := by
  obtain ⟨st, r, hloaded⟩ := exists_loaded h
  have hquotes : ¬ ['\\', '"'] <:+: text := fun hpair => by cases hslashes '"' hpair
  obtain ⟨hrun, hresult⟩ := hloaded.whole_bare hquotes
  have hstrings : ∀ b, (true, b) ∈ r.leaves → readString false (bare b) = readString true b := by
    intro b hb
    obtain ⟨s, hs⟩ := hloaded.string hb
    rw [hs]
    exact readString_slashes (fun c hc => hslashes c (hc.trans (hloaded.piece hb))) hs
  have hatom : (reading floatOf false).atom = (reading floatOf true).atom := rfl
  rw [loads_of_run hrun hresult, read_bare hatom r hstrings, hloaded.read]

theorem exists_loads_bare (hloaded : Loaded floatOf strict text v st r)
    (hquotes : ¬ ['\\', '"'] <:+: text) : ∃ w, loads floatOf false (bare text) = some w := by
  obtain ⟨hrun, hresult⟩ := hloaded.whole_bare hquotes
  rw [loads_of_run hrun hresult]
  refine Option.isSome_iff_exists.mp ?_
  rw [isSome_read, leaves_bare, List.all_map]
  refine List.all_eq_true.mpr ?_
  rintro ⟨isText, b⟩ hb
  cases isText with
  | false => exact List.all_eq_true.mp hloaded.reads (false, b) hb
  | true => exact Option.isSome_iff_exists.mpr ⟨_, readString_of_notMem (notMem_bare b)⟩

/-- A text without backslashes has no quotes in its strings. -/
theorem strings_of_notMem (hplain : '\\' ∉ text) (h : loads floatOf false text = some v)
    {s : String} (hs : s ∈ strings v) : '\\' ∉ s.toList ∧ '"' ∉ s.toList := by
  obtain ⟨st, r, hloaded⟩ := exists_loaded h
  obtain ⟨⟨isText, b⟩, hb, hsaid⟩ := List.mem_filterMap.mp (hloaded.strings_subperm.subset hs)
  cases isText with
  | false => cases hsaid
  | true =>
    have hfree : '\\' ∉ b := fun hmem => hplain ((hloaded.piece hb).subset hmem)
    have hread : readString false b = some s := hsaid
    rw [readString_of_notMem hfree] at hread
    obtain rfl := Option.some.inj hread
    rw [String.toList_ofList]
    refine ⟨hfree, ?_⟩
    rw [← leaves_of_result hloaded.result] at hb
    exact run_unquoted lexicon_lawful (fun d hd => of_decide_eq_true hd) (start_valid _)
      start_pieces hplain hloaded.run (fun b hb => by cases hb) b hb

/-- An escaped backslash or quote of the text is in one of its strings. -/
theorem exists_string_of_pair (hloaded : Loaded floatOf strict text v st r)
    (hunique : r.UniqueKeys (reading floatOf strict)) {c : Char} (hc : c = '\\' ∨ c = '"')
    (hpair : ['\\', c] <:+: text) : ∃ s ∈ strings v, '\\' ∈ s.toList ∨ '"' ∈ s.toList := by
  rcases run_pair lexicon_lawful blank_backslash hpair (start_valid _) hloaded.run with
    ⟨b, hb, hmem⟩ | ⟨b, hb, hpair⟩
  · exact absurd hmem (hloaded.word hb)
  · rw [leaves_of_result hloaded.result] at hb
    obtain ⟨s, hs⟩ := hloaded.string hb
    refine ⟨s, hloaded.mem_strings hunique hb hs, ?_⟩
    rcases hpair with hpair | hpair
    · exact mem_of_pair hc hpair hs
    · exact mem_of_pair (Or.inl rfl) hpair hs

/-- A colon right after a character of a word is in one of the strings. -/
theorem exists_string_of_colon (hloaded : Loaded floatOf strict text v st r)
    (hunique : r.UniqueKeys (reading floatOf strict)) {d : Char} (hd : lexicon.atomChar d = true)
    (hpair : [d, ':'] <:+: text) : ∃ s ∈ strings v, ':' ∈ s.toList := by
  obtain ⟨b, hb, hmem⟩ := run_mark lexicon_lawful hd hpair (start_valid _) hloaded.run
  rw [leaves_of_result hloaded.result] at hb
  obtain ⟨s, hs⟩ := hloaded.string hb
  exact ⟨s, hloaded.mem_strings hunique hb hs, colon_mem hmem hs⟩

theorem sum_filterMap {α β : Type*} (f : α → Option β) (w : β → ℕ) (l : List α) :
    ((l.filterMap f).map w).sum = (l.map fun a => (f a).elim 0 w).sum := by
  induction l with
  | nil => rfl
  | cons a l ih =>
    rw [List.map_cons, List.sum_cons, ← ih]
    cases h : f a with
    | none =>
      rw [List.filterMap_cons_none h]
      exact (Nat.zero_add _).symm
    | some b =>
      rw [List.filterMap_cons_some h]
      rfl

/-- Where the strings stay without the backslashes, only slashes were escaped: any other escape
would yield fewer visible characters than are left of it. -/
theorem slashes_of_perm {w : Json} (hloaded : Loaded floatOf true text v st r)
    (hunique : r.UniqueKeys (reading floatOf true))
    (hpairs : ∀ c, c = '\\' ∨ c = '"' → ¬ ['\\', c] <:+: text)
    (hw : loads floatOf false (bare text) = some w) (hperm : (strings w).Perm (strings v))
    {c : Char} (hpair : ['\\', c] <:+: text) : c = '/' := by
  obtain ⟨hrun, hresult⟩ := hloaded.whole_bare (hpairs '"' (Or.inr rfl))
  have hread : r.bare.read (reading floatOf false) = some w := by
    rw [← loads_of_run hrun hresult, hw]
  have hbare : Loaded floatOf false (bare text) w st.bare r.bare := ⟨hrun, hresult, hread⟩
  have hlength : (r.bare.leaves.filterMap (said (reading floatOf false))).length =
      (strings w).length := by
    rw [length_filterMap_said hbare.reads, hperm.length_eq, hloaded.strings_eq hunique,
      length_filterMap_said hloaded.reads, leaves_bare, List.countP_map]
    rfl
  have hsame := (hbare.strings_subperm.perm_of_length_le hlength.le).symm.trans hperm
  rw [hloaded.strings_eq hunique, leaves_bare, List.filterMap_map] at hsame
  have hsum := (hsame.map visibleIn).sum_eq
  rw [sum_filterMap, sum_filterMap] at hsum
  have hsaid (b : List Char) : said (reading floatOf false) (bareLeaf (true, b)) =
      some (String.ofList (bare b)) := readString_of_notMem (notMem_bare b)
  have hfree {b : List Char} (hb : (true, b) ∈ r.leaves) (d : Char) (hd : d = '\\' ∨ d = '"') :
      ¬ ['\\', d] <:+: b := fun hp => hpairs d hd (hp.trans (hloaded.piece hb))
  by_contra hc
  refine absurd hsum (List.sum_lt_sum _ _ ?_ ?_).ne'
  · rintro ⟨isText, b⟩ hb
    cases isText with
    | false => exact le_rfl
    | true =>
      obtain ⟨s, hs⟩ := hloaded.string hb
      have hs' : said (reading floatOf true) (true, b) = some s := hs
      rw [Function.comp_apply, hsaid, hs']
      exact visibleIn_le (hfree hb '\\' (Or.inl rfl)) hs
  · rcases run_pair lexicon_lawful blank_backslash hpair (start_valid _) hloaded.run with
      ⟨b, hb, hmem⟩ | ⟨b, hb, hpair⟩
    · exact absurd hmem (hloaded.word hb)
    · rw [leaves_of_result hloaded.result] at hb
      obtain ⟨s, hs⟩ := hloaded.string hb
      have hinside : ['\\', c] <:+: b := hpair.resolve_right (hfree hb '\\' (Or.inl rfl))
      have hs' : said (reading floatOf true) (true, b) = some s := hs
      refine ⟨(true, b), hb, ?_⟩
      rw [Function.comp_apply, hsaid, hs']
      exact visibleIn_lt (hfree hb '\\' (Or.inl rfl)) (hfree hb '"' (Or.inr rfl)) hc hinside hs

end Texts

end JsonTexts
