import SIPMediaGW.BracketTexts

/-! # The words and the strings of a bracket text

What the reader keeps of a text, in the order of the text: words between brackets, and bodies of
strings. One character opens one of them, extends the last, or leaves them as they are. -/
namespace BracketTexts

/-- A word, or the body of a string. -/
abbrev Leaf := Bool × List Char

mutual

def Raw.leaves : Raw → List Leaf
  | .atom token => [(false, token)]
  | .text q => [(true, q.body)]
  | .list items => itemLeaves items
  | .dict members => memberLeaves members

def itemLeaves : List Raw → List Leaf
  | [] => []
  | r :: items => r.leaves ++ itemLeaves items

def memberLeaves : List (Quoted × Raw) → List Leaf
  | [] => []
  | (key, r) :: members => (true, key.body) :: (r.leaves ++ memberLeaves members)

end

def Frame.leaves : Frame → List Leaf
  | .list items => itemLeaves items
  | .members done => memberLeaves done
  | .member done key => memberLeaves done ++ [(true, key.body)]

def stackLeaves : List Frame → List Leaf
  | [] => []
  | f :: stack => stackLeaves stack ++ f.leaves

def Mode.leaves : Mode → List Leaf
  | .value => []
  | .key => []
  | .text _ _ q => [(true, q.body)]
  | .atom token => [(false, token)]
  | .colon name => [(true, name.body)]
  | .done r => r.leaves

def State.leaves (st : State) : List Leaf := stackLeaves st.stack ++ st.mode.leaves

/-- The leaf that the next character may extend. -/
def Mode.current : Mode → Option (List Char)
  | .text _ _ q => some q.body
  | .atom token => some token
  | _ => none

theorem itemLeaves_concat (items : List Raw) (r : Raw) :
    itemLeaves (items ++ [r]) = itemLeaves items ++ r.leaves := by
  induction items with
  | nil => simp [itemLeaves]
  | cons r' items ih => simp [itemLeaves, ih]

theorem memberLeaves_concat (members : List (Quoted × Raw)) (key : Quoted) (r : Raw) :
    memberLeaves (members ++ [(key, r)]) =
      memberLeaves members ++ (true, key.body) :: r.leaves := by
  induction members with
  | nil => simp [memberLeaves]
  | cons m members ih => simp [memberLeaves, ih]

/-- In a string, the quote is one of the lexicon, and an open escape ends the body so far. -/
def State.Valid (lex : Lexicon) (st : State) : Prop :=
  ∀ isKey escaped q, st.mode = .text isKey escaped q → lex.quote q.quote = true ∧
    (escaped = true → ∃ body, q.body = body ++ ['\\'])

/-- What one character does to the leaves. -/
inductive Grows (lex : Lexicon) (c : Char) (st st' : State) : Prop where
  | same (leaves : st'.leaves = st.leaves) (current : st'.mode.current = none)
  | opens (leaves : st'.leaves = st.leaves ++ [(true, [])]) (current : st'.mode.current = some [])
  | word (leaves : st'.leaves = st.leaves ++ [(false, [c])])
      (current : st'.mode.current = some [c])
  | longer (before : List Leaf) (isText : Bool) (b : List Char)
      (leaves : st.leaves = before ++ [(isText, b)]) (current : st.mode.current = some b)
      (leaves' : st'.leaves = before ++ [(isText, b ++ [c])])
      (current' : st'.mode.current = some (b ++ [c]))
      (inside : isText = true → (∃ body, b = body ++ ['\\']) ∨ ∃ d, lex.quote d = true ∧ c ≠ d)

section Step

variable {lex : Lexicon} {st st' : State} {c : Char}

theorem afterValue_leaves {r : Raw} {stack : List Frame} (h : afterValue r stack c = some st') :
    st'.leaves = stackLeaves stack ++ r.leaves ∧ st'.mode.current = none := by
  unfold afterValue at h
  split at h
  · split at h
    · obtain rfl := Option.some.inj h
      simp [State.leaves, stackLeaves, Frame.leaves, Mode.leaves, itemLeaves_concat, Mode.current]
    split at h
    · obtain rfl := Option.some.inj h
      simp [State.leaves, stackLeaves, Frame.leaves, Mode.leaves, Raw.leaves, itemLeaves_concat,
        Mode.current]
    · cases h
  · split at h
    · obtain rfl := Option.some.inj h
      simp [State.leaves, stackLeaves, Frame.leaves, Mode.leaves, memberLeaves_concat,
        Mode.current]
    split at h
    · obtain rfl := Option.some.inj h
      simp [State.leaves, stackLeaves, Frame.leaves, Mode.leaves, Raw.leaves, memberLeaves_concat,
        Mode.current]
    · cases h
  · cases h

theorem emptyList_leaves {stack : List Frame} (h : emptyList stack = some st') :
    st'.leaves = stackLeaves stack ∧ st'.mode.current = none := by
  unfold emptyList at h
  split at h
  · obtain rfl := Option.some.inj h
    simp [State.leaves, stackLeaves, Frame.leaves, Mode.leaves, Raw.leaves, itemLeaves,
      Mode.current]
  · cases h

theorem emptyDict_leaves {stack : List Frame} (h : emptyDict stack = some st') :
    st'.leaves = stackLeaves stack ∧ st'.mode.current = none := by
  unfold emptyDict at h
  split at h
  · obtain rfl := Option.some.inj h
    simp [State.leaves, stackLeaves, Frame.leaves, Mode.leaves, Raw.leaves, memberLeaves,
      Mode.current]
  · cases h

theorem afterKey_leaves {key : Quoted} {stack : List Frame} (h : afterKey key stack = some st') :
    st'.leaves = stackLeaves stack ++ [(true, key.body)] ∧ st'.mode.current = none := by
  unfold afterKey at h
  split at h
  · obtain rfl := Option.some.inj h
    simp [State.leaves, stackLeaves, Frame.leaves, Mode.leaves, Mode.current]
  · cases h

theorem step_leaves (hlex : lex.Lawful) (hvalid : st.Valid lex) (h : step lex st c = some st') :
    Grows lex c st st' := by
  obtain ⟨mode, stack⟩ := st
  cases mode with
  | value =>
    dsimp only [step] at h
    split at h
    · obtain rfl := Option.some.inj h
      exact .same rfl rfl
    split at h
    · obtain rfl := Option.some.inj h
      exact .opens (by simp [State.leaves, Mode.leaves]) rfl
    split at h
    · obtain rfl := Option.some.inj h
      exact .same (by simp [State.leaves, stackLeaves, Frame.leaves, itemLeaves]) rfl
    split at h
    · obtain rfl := Option.some.inj h
      exact .same (by simp [State.leaves, stackLeaves, Frame.leaves, memberLeaves, Mode.leaves]) rfl
    split at h
    · obtain ⟨hleaves, hcurrent⟩ := emptyList_leaves h
      exact .same (hleaves.trans (List.append_nil _).symm) hcurrent
    split at h
    · cases h
    · obtain rfl := Option.some.inj h
      exact .word (by simp [State.leaves, Mode.leaves]) rfl
  | key =>
    dsimp only [step] at h
    split at h
    · obtain rfl := Option.some.inj h
      exact .same rfl rfl
    split at h
    · obtain rfl := Option.some.inj h
      exact .opens (by simp [State.leaves, Mode.leaves]) rfl
    split at h
    · obtain ⟨hleaves, hcurrent⟩ := emptyDict_leaves h
      exact .same (hleaves.trans (List.append_nil _).symm) hcurrent
    · cases h
  | text isKey escaped q =>
    obtain ⟨hquote, hopen⟩ := hvalid isKey escaped q rfl
    dsimp only [step] at h
    split at h
    · next hescaped =>
      obtain rfl := Option.some.inj h
      exact .longer (stackLeaves stack) true q.body rfl rfl rfl rfl
        fun _ => Or.inl (hopen hescaped)
    split at h
    · next hbackslash =>
      have hc : c ≠ q.quote := by
        rintro rfl
        rw [hbackslash, hlex.backslash] at hquote
        cases hquote
      obtain rfl := Option.some.inj h
      exact .longer (stackLeaves stack) true q.body rfl rfl rfl rfl
        fun _ => Or.inr ⟨q.quote, hquote, hc⟩
    split at h
    · obtain rfl := Option.some.inj h
      cases isKey <;> exact .same rfl rfl
    · next hc =>
      obtain rfl := Option.some.inj h
      exact .longer (stackLeaves stack) true q.body rfl rfl rfl rfl
        fun _ => Or.inr ⟨q.quote, hquote, hc⟩
  | atom token =>
    dsimp only [step] at h
    split at h
    · obtain rfl := Option.some.inj h
      exact .longer (stackLeaves stack) false token rfl rfl rfl rfl fun hfalse => by cases hfalse
    split at h
    · obtain rfl := Option.some.inj h
      exact .same rfl rfl
    · obtain ⟨hleaves, hcurrent⟩ := afterValue_leaves h
      exact .same hleaves hcurrent
  | colon key =>
    dsimp only [step] at h
    split at h
    · obtain rfl := Option.some.inj h
      exact .same rfl rfl
    split at h
    · obtain ⟨hleaves, hcurrent⟩ := afterKey_leaves h
      exact .same hleaves hcurrent
    · cases h
  | done r =>
    dsimp only [step] at h
    split at h
    · obtain rfl := Option.some.inj h
      exact .same rfl rfl
    · obtain ⟨hleaves, hcurrent⟩ := afterValue_leaves h
      exact .same hleaves hcurrent

theorem Grows.persists (h : Grows lex c st st') {isText : Bool} {b : List Char}
    (hb : (isText, b) ∈ st.leaves) : ∃ b', (isText, b') ∈ st'.leaves ∧ b <+: b' := by
  cases h with
  | same leaves => exact ⟨b, leaves ▸ hb, List.prefix_rfl⟩
  | opens leaves => exact ⟨b, leaves ▸ List.mem_append_left _ hb, List.prefix_rfl⟩
  | word leaves => exact ⟨b, leaves ▸ List.mem_append_left _ hb, List.prefix_rfl⟩
  | longer before isText' b' leaves current leaves' =>
    rw [leaves] at hb
    rw [leaves']
    rcases List.mem_append.mp hb with hb | hb
    · exact ⟨b, List.mem_append_left _ hb, List.prefix_rfl⟩
    · obtain ⟨rfl, rfl⟩ := Prod.mk.inj (List.mem_singleton.mp hb)
      exact ⟨b ++ [c], by simp, List.prefix_append _ _⟩

theorem valid_of_current (h : st.mode.current = none) : st.Valid lex := by
  intro isKey escaped q hmode
  rw [hmode] at h
  cases h

theorem step_valid (hvalid : st.Valid lex) (h : step lex st c = some st') : st'.Valid lex := by
  obtain ⟨mode, stack⟩ := st
  have hopens (isKey : Bool) (hquote : lex.quote c = true) :
      State.Valid lex ⟨.text isKey false ⟨c, []⟩, stack⟩ := by
    rintro _ _ _ ⟨⟩
    exact ⟨hquote, fun hescaped => by cases hescaped⟩
  cases mode with
  | value =>
    dsimp only [step] at h
    split at h
    · obtain rfl := Option.some.inj h
      exact valid_of_current rfl
    split at h
    · next hquote =>
      obtain rfl := Option.some.inj h
      exact hopens false hquote
    split at h
    · obtain rfl := Option.some.inj h
      exact valid_of_current rfl
    split at h
    · obtain rfl := Option.some.inj h
      exact valid_of_current rfl
    split at h
    · exact valid_of_current (emptyList_leaves h).2
    split at h
    · cases h
    · obtain rfl := Option.some.inj h
      rintro _ _ _ ⟨⟩
  | key =>
    dsimp only [step] at h
    split at h
    · obtain rfl := Option.some.inj h
      exact valid_of_current rfl
    split at h
    · next hquote =>
      obtain rfl := Option.some.inj h
      exact hopens true hquote
    split at h
    · exact valid_of_current (emptyDict_leaves h).2
    · cases h
  | text isKey escaped q =>
    obtain ⟨hquote, -⟩ := hvalid isKey escaped q rfl
    dsimp only [step] at h
    split at h
    · obtain rfl := Option.some.inj h
      rintro _ _ _ ⟨⟩
      exact ⟨hquote, fun hescaped => by cases hescaped⟩
    split at h
    · next hbackslash =>
      obtain rfl := Option.some.inj h
      rintro _ _ _ ⟨⟩
      exact ⟨hquote, fun _ => ⟨q.body, by rw [hbackslash]⟩⟩
    split at h
    · obtain rfl := Option.some.inj h
      cases isKey <;> exact valid_of_current rfl
    · obtain rfl := Option.some.inj h
      rintro _ _ _ ⟨⟩
      exact ⟨hquote, fun hescaped => by cases hescaped⟩
  | atom token =>
    dsimp only [step] at h
    split at h
    · obtain rfl := Option.some.inj h
      rintro _ _ _ ⟨⟩
    split at h
    · obtain rfl := Option.some.inj h
      exact valid_of_current rfl
    · exact valid_of_current (afterValue_leaves h).2
  | colon key =>
    dsimp only [step] at h
    split at h
    · obtain rfl := Option.some.inj h
      exact valid_of_current rfl
    split at h
    · exact valid_of_current (afterKey_leaves h).2
    · cases h
  | done r =>
    dsimp only [step] at h
    split at h
    · obtain rfl := Option.some.inj h
      exact valid_of_current rfl
    · exact valid_of_current (afterValue_leaves h).2

/-- Only a backslash opens an escape. -/
theorem step_escaped (hlex : lex.Lawful) (hvalid : st.Valid lex) (h : step lex st c = some st')
    {isKey : Bool} {q : Quoted} (hmode : st'.mode = .text isKey true q) : c = '\\' := by
  obtain ⟨body, hbody⟩ := (step_valid hvalid h isKey true q hmode).2 rfl
  have hcurrent : st'.mode.current = some (body ++ ['\\']) := by
    rw [hmode, ← hbody]
    rfl
  cases step_leaves hlex hvalid h with
  | same leaves current =>
    rw [current] at hcurrent
    cases hcurrent
  | opens leaves current =>
    rw [current] at hcurrent
    simp at hcurrent
  | word leaves current =>
    have heq : [] ++ [c] = body ++ ['\\'] := Option.some.inj (current.symm.trans hcurrent)
    exact List.singleton_inj.mp (List.append_inj' heq rfl).2
  | longer before isText b leaves current leaves' current' =>
    have heq : b ++ [c] = body ++ ['\\'] := Option.some.inj (current'.symm.trans hcurrent)
    exact List.singleton_inj.mp (List.append_inj' heq rfl).2

end Step

section Run

variable {lex : Lexicon} {st st' : State} {cs : List Char}

theorem start_valid (lex : Lexicon) : State.start.Valid lex := valid_of_current rfl

theorem run_valid (hvalid : st.Valid lex) (h : run lex st cs = some st') : st'.Valid lex := by
  induction cs generalizing st with
  | nil =>
    obtain rfl := Option.some.inj h
    exact hvalid
  | cons c cs ih =>
    obtain ⟨st₁, hstep, hrun⟩ := run_cons h
    exact ih (step_valid hvalid hstep) hrun

/-- A leaf that is begun is there at the end, perhaps longer. -/
theorem run_persists (hlex : lex.Lawful) (hvalid : st.Valid lex) (h : run lex st cs = some st')
    {isText : Bool} {b : List Char} (hb : (isText, b) ∈ st.leaves) :
    ∃ b', (isText, b') ∈ st'.leaves ∧ b <+: b' := by
  induction cs generalizing st b with
  | nil =>
    obtain rfl := Option.some.inj h
    exact ⟨b, hb, List.prefix_rfl⟩
  | cons c cs ih =>
    obtain ⟨st₁, hstep, hrun⟩ := run_cons h
    obtain ⟨b₁, hb₁, hpre⟩ := (step_leaves hlex hvalid hstep).persists hb
    obtain ⟨b', hb', hpre'⟩ := ih (step_valid hvalid hstep) hrun hb₁
    exact ⟨b', hb', hpre.trans hpre'⟩

/-- The leaves are pieces of the text read so far, and the current one ends it. -/
structure Pieces (st : State) (text : List Char) : Prop where
  leaves : ∀ leaf ∈ st.leaves, leaf.2 <:+: text
  current : ∀ b, st.mode.current = some b → b <:+ text

theorem Pieces.step {text : List Char} {c : Char} (h : Pieces st text)
    (hgrows : Grows lex c st st') : Pieces st' (text ++ [c]) := by
  have hkept : ∀ leaf ∈ st.leaves, leaf.2 <:+: text ++ [c] := fun leaf hleaf =>
    (h.leaves leaf hleaf).trans (List.prefix_append _ _).isInfix
  have hcurrent {b : List Char} (hb : b <:+ text ++ [c]) (hmode : st'.mode.current = some b)
      (b' : List Char) (hb' : st'.mode.current = some b') : b' <:+ text ++ [c] := by
    rw [hmode] at hb'
    exact Option.some.inj hb' ▸ hb
  have hnew {isText : Bool} {b : List Char} (ls : List Leaf)
      (hls : ∀ leaf ∈ ls, leaf.2 <:+: text ++ [c]) (hb : b <:+ text ++ [c]) :
      ∀ leaf ∈ ls ++ [(isText, b)], leaf.2 <:+: text ++ [c] := by
    intro leaf hleaf
    rcases List.mem_append.mp hleaf with hleaf | hleaf
    · exact hls leaf hleaf
    · rw [List.mem_singleton.mp hleaf]
      exact hb.isInfix
  cases hgrows with
  | same leaves current =>
    exact ⟨leaves ▸ hkept, fun b hb => by rw [current] at hb; cases hb⟩
  | opens leaves current =>
    exact ⟨leaves ▸ hnew _ hkept List.nil_suffix, hcurrent List.nil_suffix current⟩
  | word leaves current =>
    exact ⟨leaves ▸ hnew _ hkept (List.suffix_append _ _),
      hcurrent (List.suffix_append _ _) current⟩
  | longer before isText b leaves current leaves' current' =>
    obtain ⟨front, hfront⟩ := h.current b current
    have hb : b ++ [c] <:+ text ++ [c] := ⟨front, by rw [← List.append_assoc, hfront]⟩
    rw [leaves] at hkept
    exact ⟨leaves' ▸ hnew _ (fun leaf hleaf => hkept leaf (List.mem_append_left _ hleaf)) hb,
      hcurrent hb current'⟩

theorem run_pieces (hlex : lex.Lawful) {text : List Char} (hvalid : st.Valid lex)
    (hpieces : Pieces st text) (h : run lex st cs = some st') : Pieces st' (text ++ cs) := by
  induction cs generalizing st text with
  | nil =>
    obtain rfl := Option.some.inj h
    rwa [List.append_nil]
  | cons c cs ih =>
    obtain ⟨st₁, hstep, hrun⟩ := run_cons h
    have hnext := ih (step_valid hvalid hstep) (hpieces.step (step_leaves hlex hvalid hstep)) hrun
    rwa [List.append_assoc, List.singleton_append] at hnext

theorem start_pieces : Pieces .start [] where
  leaves leaf hleaf := by cases hleaf
  current b hb := by cases hb

end Run

section Backslash

variable {lex : Lexicon} {st st' : State} {cs : List Char}

/-- A backslash is part of a word, or of a string. -/
theorem step_backslash (hlex : lex.Lawful) (hblank : lex.blank '\\' = false)
    (h : step lex st '\\' = some st') :
    (∃ token, (false, token ++ ['\\']) ∈ st'.leaves) ∨
      ∃ isKey escaped q, st.mode = .text isKey escaped q ∧
        st' = ⟨.text isKey (!escaped) ⟨q.quote, q.body ++ ['\\']⟩, st.stack⟩ := by
  have hword : lex.atomChar '\\' = true := by
    rw [Lexicon.atomChar, hlex.backslash, hblank]
    rfl
  obtain ⟨mode, stack⟩ := st
  cases mode with
  | value =>
    simp only [step, hblank, hlex.backslash, Bool.false_eq_true, if_false, Char.reduceEq,
      isMark, List.mem_cons, List.not_mem_nil, or_false, decide_false] at h
    obtain rfl := Option.some.inj h
    exact Or.inl ⟨[], by simp [State.leaves, Mode.leaves]⟩
  | key => simp [step, hblank, hlex.backslash] at h
  | text isKey escaped q =>
    refine Or.inr ⟨isKey, escaped, q, rfl, ?_⟩
    cases escaped with
    | true =>
      simp only [step, if_true] at h
      exact (Option.some.inj h).symm
    | false =>
      simp only [step, Bool.false_eq_true, if_false, if_true] at h
      exact (Option.some.inj h).symm
  | atom token =>
    simp only [step, hword, if_true] at h
    obtain rfl := Option.some.inj h
    exact Or.inl ⟨token, by simp [State.leaves, Mode.leaves]⟩
  | colon key => simp [step, hblank] at h
  | done r =>
    simp only [step, hblank, Bool.false_eq_true, if_false] at h
    unfold afterValue at h
    split at h <;> simp at h

/-- A pair of a backslash and what follows it is in a word or in a string, or the backslash is
itself escaped. -/
theorem run_pair (hlex : lex.Lawful) (hblank : lex.blank '\\' = false) {c : Char}
    (hpair : ['\\', c] <:+: cs) (hvalid : st.Valid lex) (h : run lex st cs = some st') :
    (∃ b, (false, b) ∈ st'.leaves ∧ '\\' ∈ b) ∨
      ∃ b, (true, b) ∈ st'.leaves ∧ (['\\', c] <:+: b ∨ ['\\', '\\'] <:+: b) := by
  obtain ⟨front, back, rfl⟩ := hpair
  rw [List.append_assoc, List.cons_append, List.singleton_append] at h
  obtain ⟨st₁, hfront, h⟩ := run_append_some h
  obtain ⟨st₂, hbackslash, h⟩ := run_cons h
  have hvalid₁ := run_valid hvalid hfront
  have hvalid₂ := step_valid hvalid₁ hbackslash
  rcases step_backslash hlex hblank hbackslash with
    ⟨token, htoken⟩ | ⟨isKey, escaped, q, hmode, rfl⟩
  · obtain ⟨b, hb, hpre⟩ := run_persists hlex hvalid₂ h htoken
    exact Or.inl ⟨b, hb, hpre.subset (by simp)⟩
  · refine Or.inr ?_
    cases escaped with
    | true =>
      -- The backslash ends an escape that the one before it began.
      obtain ⟨body, hbody⟩ := (hvalid₁ isKey true q hmode).2 rfl
      have hleaf : (true, body ++ ['\\', '\\']) ∈
          (⟨.text isKey (!true) ⟨q.quote, q.body ++ ['\\']⟩, st₁.stack⟩ : State).leaves := by
        simp [State.leaves, Mode.leaves, hbody]
      obtain ⟨b, hb, hpre⟩ := run_persists hlex hvalid₂ h hleaf
      exact ⟨b, hb, Or.inr ((List.suffix_append _ _).isInfix.trans hpre.isInfix)⟩
    | false =>
      obtain ⟨st₃, hstep, h⟩ := run_cons h
      have hnext : some ⟨.text isKey false ⟨q.quote, q.body ++ ['\\'] ++ [c]⟩, st₁.stack⟩ =
          some st₃ := hstep
      obtain rfl := Option.some.inj hnext
      have hleaf : (true, q.body ++ ['\\', c]) ∈
          (⟨.text isKey false ⟨q.quote, q.body ++ ['\\'] ++ [c]⟩, st₁.stack⟩ : State).leaves := by
        simp [State.leaves, Mode.leaves]
      obtain ⟨b, hb, hpre⟩ := run_persists hlex (step_valid hvalid₂ hstep) h hleaf
      exact ⟨b, hb, Or.inl ((List.suffix_append _ _).isInfix.trans hpre.isInfix)⟩

end Backslash

section Strings

variable {lex : Lexicon} {st st' : State} {cs : List Char}

theorem leaves_of_result {r : Raw} (h : st.result = some r) : st.leaves = r.leaves := by
  unfold State.result at h
  split at h
  · next hmode hstack =>
    obtain rfl := Option.some.inj h
    simp [State.leaves, hmode, hstack, stackLeaves, Mode.leaves]
  · next hmode hstack =>
    obtain rfl := Option.some.inj h
    simp [State.leaves, hmode, hstack, stackLeaves, Mode.leaves, Raw.leaves]
  · cases h

theorem afterValue_of_notMark {r : Raw} {stack : List Frame} {c : Char} (h : isMark c = false) :
    afterValue r stack c = none := by
  have hne (d : Char) (hd : isMark d = true) : c ≠ d := by
    rintro rfl
    rw [h] at hd
    cases hd
  unfold afterValue
  split
  · rw [if_neg (hne ',' rfl), if_neg (hne ']' rfl)]
  · rw [if_neg (hne ',' rfl), if_neg (hne '}' rfl)]
  · rfl

/-- A character of a word is in a word or in a string. -/
theorem step_atomChar {c : Char} (hvalid : st.Valid lex) (hc : lex.atomChar c = true)
    (h : step lex st c = some st') : st'.mode.current.isSome = true := by
  obtain ⟨⟨hquote, hblank⟩, hmark⟩ :
      (lex.quote c = false ∧ lex.blank c = false) ∧ isMark c = false := by
    simpa [Lexicon.atomChar] using hc
  have hne (d : Char) (hd : isMark d = true) : c ≠ d := by
    rintro rfl
    rw [hmark] at hd
    cases hd
  obtain ⟨mode, stack⟩ := st
  cases mode with
  | value =>
    simp only [step, hblank, hquote, hmark, Bool.false_eq_true, if_false, hne '[' rfl,
      hne '{' rfl, hne ']' rfl] at h
    obtain rfl := Option.some.inj h
    rfl
  | key => simp [step, hblank, hquote, hne '}' rfl] at h
  | text isKey escaped q =>
    have hq : c ≠ q.quote := by
      rintro rfl
      rw [(hvalid isKey escaped q rfl).1] at hquote
      cases hquote
    simp only [step, hq, if_false] at h
    split at h
    · obtain rfl := Option.some.inj h
      rfl
    split at h
    · obtain rfl := Option.some.inj h
      rfl
    · obtain rfl := Option.some.inj h
      rfl
  | atom token =>
    simp only [step, hc, if_true] at h
    obtain rfl := Option.some.inj h
    rfl
  | colon name => simp [step, hblank, hne ':' rfl] at h
  | done r => simp [step, hblank, afterValue_of_notMark hmark] at h

/-- A mark right after a character of a word can only be in a string. -/
theorem run_mark (hlex : lex.Lawful) {d : Char} (hd : lex.atomChar d = true)
    (hpair : [d, ':'] <:+: cs) (hvalid : st.Valid lex) (h : run lex st cs = some st') :
    ∃ b, (true, b) ∈ st'.leaves ∧ ':' ∈ b := by
  have hquote : lex.quote ':' = false := hlex.mark_quote ':' rfl
  have hblank : lex.blank ':' = false := hlex.mark_blank ':' rfl
  obtain ⟨front, back, rfl⟩ := hpair
  rw [List.append_assoc, List.cons_append, List.singleton_append] at h
  obtain ⟨st₁, hfront, h⟩ := run_append_some h
  obtain ⟨st₂, hword, h⟩ := run_cons h
  obtain ⟨st₃, hcolon, h⟩ := run_cons h
  have hvalid₁ := run_valid hvalid hfront
  have hvalid₂ := step_valid hvalid₁ hword
  have hcurrent := step_atomChar hvalid₁ hd hword
  have hleaf : ∃ b, (true, b ++ [':']) ∈ st₃.leaves := by
    obtain ⟨mode, stack⟩ := st₂
    cases mode with
    | text isKey escaped q =>
      have hq : ':' ≠ q.quote := by
        intro heq
        rw [heq, (hvalid₂ isKey escaped q rfl).1] at hquote
        cases hquote
      have hnext : st₃ = ⟨.text isKey false ⟨q.quote, q.body ++ [':']⟩, stack⟩ := by
        simp only [step, hq, if_false, Char.reduceEq, ite_self] at hcolon
        exact (Option.some.inj hcolon).symm
      exact ⟨q.body, by simp [hnext, State.leaves, Mode.leaves]⟩
    | atom token =>
      have hatom : lex.atomChar ':' = false := by simp [Lexicon.atomChar, isMark]
      simp only [step, hatom, hblank, Bool.false_eq_true, if_false] at hcolon
      unfold afterValue at hcolon
      split at hcolon <;> simp at hcolon
    | value => cases hcurrent
    | key => cases hcurrent
    | colon name => cases hcurrent
    | done r => cases hcurrent
  obtain ⟨b, hb⟩ := hleaf
  obtain ⟨b', hb', hpre⟩ := run_persists hlex (step_valid hvalid₂ hcolon) h hb
  exact ⟨b', hb', hpre.subset (by simp)⟩

/-- Without backslashes, no string has the only quote of the lexicon. -/
theorem run_unquoted (hlex : lex.Lawful) {quote : Char}
    (honly : ∀ d, lex.quote d = true → d = quote) {text : List Char} (hvalid : st.Valid lex)
    (hpieces : Pieces st text) (hplain : '\\' ∉ text ++ cs) (h : run lex st cs = some st')
    (hb : ∀ b, (true, b) ∈ st.leaves → quote ∉ b) : ∀ b, (true, b) ∈ st'.leaves → quote ∉ b := by
  induction cs generalizing st text with
  | nil =>
    obtain rfl := Option.some.inj h
    exact hb
  | cons c cs ih =>
    obtain ⟨st₁, hstep, hrun⟩ := run_cons h
    have hgrows := step_leaves hlex hvalid hstep
    refine ih (step_valid hvalid hstep) (hpieces.step hgrows) ?_ hrun ?_
    · rwa [List.append_assoc, List.singleton_append]
    · intro b hleaf
      cases hgrows with
      | same leaves => exact hb b (leaves ▸ hleaf)
      | opens leaves =>
        rw [leaves] at hleaf
        rcases List.mem_append.mp hleaf with hleaf | hleaf
        · exact hb b hleaf
        · obtain ⟨-, rfl⟩ := Prod.mk.inj (List.mem_singleton.mp hleaf)
          exact List.not_mem_nil
      | word leaves =>
        rw [leaves] at hleaf
        rcases List.mem_append.mp hleaf with hleaf | hleaf
        · exact hb b hleaf
        · cases (Prod.mk.inj (List.mem_singleton.mp hleaf)).1
      | longer before isText b₀ leaves current leaves' current' inside =>
        rw [leaves'] at hleaf
        rw [leaves] at hb
        rcases List.mem_append.mp hleaf with hleaf | hleaf
        · exact hb b (List.mem_append_left _ hleaf)
        · obtain ⟨htext, rfl⟩ := Prod.mk.inj (List.mem_singleton.mp hleaf)
          have hfree : quote ∉ b₀ := hb b₀ (by simp [← htext])
          have hne : c ≠ quote := by
            rcases inside htext.symm with ⟨body, hbody⟩ | ⟨d, hd, hcd⟩
            · have hmem : '\\' ∈ text :=
                (hpieces.current b₀ current).subset (by simp [hbody])
              exact absurd (List.mem_append_left _ hmem) hplain
            · exact honly d hd ▸ hcd
          intro hmem
          rcases List.mem_append.mp hmem with hmem | hmem
          · exact hfree hmem
          · exact hne (List.mem_singleton.mp hmem).symm

end Strings

end BracketTexts
