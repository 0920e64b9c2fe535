import SIPMediaGW.BracketLeaves

/-! # Bracket texts without their backslashes

Where no quote is escaped and no word has a backslash, the text without its backslashes has the
same brackets, and its strings are the ones without theirs. -/
namespace BracketTexts

def bare (cs : List Char) : List Char := cs.filter (· ≠ '\\')

def Quoted.bare (q : Quoted) : Quoted := ⟨q.quote, BracketTexts.bare q.body⟩

mutual

/-- The strings lose their backslashes, the words stay. -/
def Raw.bare : Raw → Raw
  | .atom token => .atom token
  | .text q => .text q.bare
  | .list items => .list (bareItems items)
  | .dict members => .dict (bareMembers members)

def bareItems : List Raw → List Raw
  | [] => []
  | r :: items => r.bare :: bareItems items

def bareMembers : List (Quoted × Raw) → List (Quoted × Raw)
  | [] => []
  | (key, r) :: members => (key.bare, r.bare) :: bareMembers members

end

def Frame.bare : Frame → Frame
  | .list items => .list (bareItems items)
  | .members done => .members (bareMembers done)
  | .member done key => .member (bareMembers done) key.bare

def Mode.bare : Mode → Mode
  | .value => .value
  | .key => .key
  | .text isKey _ q => .text isKey false q.bare
  | .atom token => .atom token
  | .colon name => .colon name.bare
  | .done r => .done r.bare

def State.bare (st : State) : State := ⟨st.mode.bare, st.stack.map Frame.bare⟩

theorem bareItems_concat (items : List Raw) (r : Raw) :
    bareItems (items ++ [r]) = bareItems items ++ [r.bare] := by
  induction items with
  | nil => rfl
  | cons r' items ih => rw [List.cons_append, bareItems, ih, bareItems, List.cons_append]

theorem bareMembers_concat (members : List (Quoted × Raw)) (key : Quoted) (r : Raw) :
    bareMembers (members ++ [(key, r)]) = bareMembers members ++ [(key.bare, r.bare)] := by
  induction members with
  | nil => rfl
  | cons m members ih => rw [List.cons_append, bareMembers, ih, bareMembers, List.cons_append]

theorem bare_append (cs ds : List Char) : bare (cs ++ ds) = bare cs ++ bare ds :=
  List.filter_append cs ds

theorem bare_cons {c : Char} (h : c ≠ '\\') (cs : List Char) : bare (c :: cs) = c :: bare cs := by
  rw [bare, List.filter_cons, if_pos (decide_eq_true h), bare]

theorem bare_backslash (cs : List Char) : bare ('\\' :: cs) = bare cs := rfl

theorem notMem_bare (cs : List Char) : '\\' ∉ bare cs := by simp [bare]

section Bare

variable {lex : Lexicon} {st st' : State} {c : Char} {cs : List Char}

theorem afterValue_bare {r : Raw} {stack : List Frame} (h : afterValue r stack c = some st') :
    afterValue r.bare (stack.map Frame.bare) c = some st'.bare := by
  unfold afterValue at h
  split at h
  · split at h
    · next hc =>
      obtain rfl := Option.some.inj h
      rw [List.map_cons, Frame.bare, afterValue, if_pos hc, State.bare, List.map_cons, Frame.bare,
        bareItems_concat]
      rfl
    split at h
    · next hcomma hc =>
      obtain rfl := Option.some.inj h
      rw [List.map_cons, Frame.bare, afterValue, if_neg hcomma, if_pos hc, State.bare, Mode.bare,
        Raw.bare, bareItems_concat]
    · cases h
  · split at h
    · next hc =>
      obtain rfl := Option.some.inj h
      rw [List.map_cons, Frame.bare, afterValue, if_pos hc, State.bare, List.map_cons, Frame.bare,
        bareMembers_concat]
      rfl
    split at h
    · next hcomma hc =>
      obtain rfl := Option.some.inj h
      rw [List.map_cons, Frame.bare, afterValue, if_neg hcomma, if_pos hc, State.bare, Mode.bare,
        Raw.bare, bareMembers_concat]
    · cases h
  · cases h

theorem emptyList_bare {stack : List Frame} (h : emptyList stack = some st') :
    emptyList (stack.map Frame.bare) = some st'.bare := by
  unfold emptyList at h
  split at h
  · obtain rfl := Option.some.inj h
    rfl
  · cases h

theorem emptyDict_bare {stack : List Frame} (h : emptyDict stack = some st') :
    emptyDict (stack.map Frame.bare) = some st'.bare := by
  unfold emptyDict at h
  split at h
  · obtain rfl := Option.some.inj h
    rfl
  · cases h

theorem afterKey_bare {key : Quoted} {stack : List Frame} (h : afterKey key stack = some st') :
    afterKey key.bare (stack.map Frame.bare) = some st'.bare := by
  unfold afterKey at h
  split at h
  · obtain rfl := Option.some.inj h
    rfl
  · cases h

theorem step_value_bare {stack : List Frame} (h : step lex ⟨.value, stack⟩ c = some st') :
    step lex (State.bare ⟨.value, stack⟩) c = some st'.bare := by
  dsimp only [step] at h
  dsimp only [step, State.bare, Mode.bare]
  split at h
  · next hb =>
    obtain rfl := Option.some.inj h
    rw [if_pos hb]
  next hb =>
  split at h
  · next hq =>
    obtain rfl := Option.some.inj h
    rw [if_neg hb, if_pos hq]
    rfl
  next hq =>
  split at h
  · next hl =>
    obtain rfl := Option.some.inj h
    rw [if_neg hb, if_neg hq, if_pos hl]
    rfl
  next hl =>
  split at h
  · next hd =>
    obtain rfl := Option.some.inj h
    rw [if_neg hb, if_neg hq, if_neg hl, if_pos hd]
    rfl
  next hd =>
  split at h
  · next he =>
    rw [if_neg hb, if_neg hq, if_neg hl, if_neg hd, if_pos he]
    exact emptyList_bare h
  next he =>
  split at h
  · cases h
  next hm =>
  obtain rfl := Option.some.inj h
  rw [if_neg hb, if_neg hq, if_neg hl, if_neg hd, if_neg he, if_neg hm]

theorem step_key_bare {stack : List Frame} (h : step lex ⟨.key, stack⟩ c = some st') :
    step lex (State.bare ⟨.key, stack⟩) c = some st'.bare := by
  dsimp only [step] at h
  dsimp only [step, State.bare, Mode.bare]
  split at h
  · next hb =>
    obtain rfl := Option.some.inj h
    rw [if_pos hb]
  next hb =>
  split at h
  · next hq =>
    obtain rfl := Option.some.inj h
    rw [if_neg hb, if_pos hq]
    rfl
  next hq =>
  split at h
  · next he =>
    rw [if_neg hb, if_neg hq, if_pos he]
    exact emptyDict_bare h
  · cases h

/-- A character of a text, where it is no backslash and ends no text that it should not. -/
theorem step_text_bare {stack : List Frame} {isKey escaped : Bool} {q : Quoted} (hc : c ≠ '\\')
    (hopen : escaped = true → c ≠ q.quote)
    (h : step lex ⟨.text isKey escaped q, stack⟩ c = some st') :
    step lex (State.bare ⟨.text isKey escaped q, stack⟩) c = some st'.bare := by
  have hlonger : c ≠ q.quote → step lex (State.bare ⟨.text isKey escaped q, stack⟩) c =
      some (State.bare ⟨.text isKey false ⟨q.quote, q.body ++ [c]⟩, stack⟩) := by
    intro hq
    have hbody : bare (q.body ++ [c]) = bare q.body ++ [c] := by
      rw [bare_append, bare_cons hc]
      rfl
    dsimp only [step, State.bare, Mode.bare, Quoted.bare]
    rw [if_neg Bool.false_ne_true, if_neg hc, if_neg hq, hbody]
  dsimp only [step] at h
  split at h
  · next hescaped =>
    obtain rfl := Option.some.inj h
    exact hlonger (hopen hescaped)
  split at h
  · next hq =>
    obtain rfl := Option.some.inj h
    dsimp only [step, State.bare, Mode.bare, Quoted.bare]
    rw [if_neg Bool.false_ne_true, if_neg hc, if_pos hq]
    cases isKey <;> rfl
  · next hq =>
    obtain rfl := Option.some.inj h
    exact hlonger hq

/-- No escaped quote: the same step over the text without its backslashes. -/
theorem step_bare (hc : c ≠ '\\')
    (hopen : ∀ isKey q, st.mode = .text isKey true q → c ≠ q.quote)
    (h : step lex st c = some st') : step lex st.bare c = some st'.bare := by
  obtain ⟨mode, stack⟩ := st
  cases mode with
  | value => exact step_value_bare h
  | key => exact step_key_bare h
  | text isKey escaped q =>
    refine step_text_bare hc (fun hescaped => hopen isKey q ?_) h
    rw [hescaped]
  | atom token =>
    dsimp only [step] at h
    dsimp only [step, State.bare, Mode.bare]
    split at h
    · next hw =>
      obtain rfl := Option.some.inj h
      rw [if_pos hw]
    next hw =>
    split at h
    · next hb =>
      obtain rfl := Option.some.inj h
      rw [if_neg hw, if_pos hb]
      rfl
    next hb =>
    rw [if_neg hw, if_neg hb]
    exact afterValue_bare h
  | colon key =>
    dsimp only [step] at h
    dsimp only [step, State.bare, Mode.bare]
    split at h
    · next hb =>
      obtain rfl := Option.some.inj h
      rw [if_pos hb]
    next hb =>
    split at h
    · next hk =>
      rw [if_neg hb, if_pos hk]
      exact afterKey_bare h
    · cases h
  | done r =>
    dsimp only [step] at h
    dsimp only [step, State.bare, Mode.bare]
    split at h
    · next hb =>
      obtain rfl := Option.some.inj h
      rw [if_pos hb]
    next hb =>
    rw [if_neg hb]
    exact afterValue_bare h

/-- A run that puts no backslash into a word and escapes no quote. -/
theorem run_bare (hlex : lex.Lawful) (hblank : lex.blank '\\' = false) (hvalid : st.Valid lex)
    (hopen : ∀ isKey q, st.mode = .text isKey true q → ∀ d, cs.head? = some d → d ≠ q.quote)
    (hpairs : ∀ d, ['\\', d] <:+: cs → lex.quote d = false) (h : run lex st cs = some st')
    (hwords : ∀ b, (false, b) ∈ st'.leaves → '\\' ∉ b) :
    run lex st.bare (bare cs) = some st'.bare := by
  induction cs generalizing st with
  | nil =>
    obtain rfl := Option.some.inj h
    rfl
  | cons c cs ih =>
    obtain ⟨st₁, hstep, hrun⟩ := run_cons h
    have hvalid₁ := step_valid hvalid hstep
    have hpairs₁ : ∀ d, ['\\', d] <:+: cs → lex.quote d = false :=
      fun d hd => hpairs d (hd.trans (List.suffix_cons c cs).isInfix)
    by_cases hc : c = '\\'
    · subst hc
      have hopen₁ : ∀ isKey q, st₁.mode = .text isKey true q → ∀ d, cs.head? = some d →
          d ≠ q.quote := by
        intro isKey q hmode d hd heq
        have hpre : ['\\', d] <+: '\\' :: cs := by
          obtain ⟨rest, rfl⟩ : ∃ rest, cs = d :: rest := by
            cases cs with
            | nil => cases hd
            | cons d' rest => exact ⟨rest, by rw [Option.some.inj hd]⟩
          exact ⟨rest, rfl⟩
        have hquote := hpairs d hpre.isInfix
        rw [heq, (hvalid₁ isKey true q hmode).1] at hquote
        cases hquote
      rcases step_backslash hlex hblank hstep with
        ⟨token, htoken⟩ | ⟨isKey, escaped, q, hmode, rfl⟩
      · obtain ⟨b, hb, hpre⟩ := run_persists hlex hvalid₁ hrun htoken
        exact absurd (hpre.subset (by simp)) (hwords b hb)
      · have hsame : State.bare ⟨.text isKey (!escaped) ⟨q.quote, q.body ++ ['\\']⟩, st.stack⟩ =
            st.bare := by
          have hbody : bare (q.body ++ ['\\']) = bare q.body := by
            rw [bare_append, bare_backslash]
            exact List.append_nil _
          simp only [State.bare, hmode, Mode.bare, Quoted.bare, hbody]
        rw [bare_backslash, ← hsame]
        exact ih hvalid₁ hopen₁ hpairs₁ hrun
    · have hopen₁ : ∀ isKey q, st₁.mode = .text isKey true q → ∀ d, cs.head? = some d →
          d ≠ q.quote := by
        intro isKey q hmode
        exact absurd (step_escaped hlex hvalid hstep hmode) hc
      rw [bare_cons hc, run_of_step lex (step_bare hc
        (fun isKey q hmode => hopen isKey q hmode c rfl) hstep)]
      exact ih hvalid₁ hopen₁ hpairs₁ hrun

theorem result_bare (st : State) : st.bare.result = st.result.map Raw.bare := by
  obtain ⟨mode, stack⟩ := st
  cases mode with
  | done r => cases stack <;> rfl
  | atom token => cases stack <;> rfl
  | _ => cases stack <;> rfl

def bareLeaf (leaf : Leaf) : Leaf := (leaf.1, if leaf.1 then bare leaf.2 else leaf.2)

theorem leaves_bareItems {items : List Raw}
    (h : ∀ r ∈ items, r.bare.leaves = r.leaves.map bareLeaf) :
    itemLeaves (bareItems items) = (itemLeaves items).map bareLeaf := by
  induction items with
  | nil => rfl
  | cons r items ih =>
    obtain ⟨hr, hitems⟩ := List.forall_mem_cons.mp h
    rw [bareItems, itemLeaves, itemLeaves, hr, ih hitems, List.map_append]

theorem leaves_bareMembers {members : List (Quoted × Raw)}
    (h : ∀ m ∈ members, m.2.bare.leaves = m.2.leaves.map bareLeaf) :
    memberLeaves (bareMembers members) = (memberLeaves members).map bareLeaf := by
  induction members with
  | nil => rfl
  | cons m members ih =>
    obtain ⟨hm, hmembers⟩ := List.forall_mem_cons.mp h
    rw [bareMembers, memberLeaves, memberLeaves, hm, ih hmembers, List.map_cons, List.map_append]
    rfl

theorem leaves_bare (r : Raw) : r.bare.leaves = r.leaves.map bareLeaf := by
  induction r using Raw.induct with
  | atom token => rfl
  | text q => rfl
  | list items ih => exact leaves_bareItems ih
  | dict members ih => exact leaves_bareMembers ih

end Bare

end BracketTexts
