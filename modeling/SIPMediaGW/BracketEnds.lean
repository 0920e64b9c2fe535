import SIPMediaGW.BracketTexts

/-! # The ends of a bracket text

What a text begins with says whether its value is a dictionary; nothing but blanks follows a
value that is whole. -/
namespace BracketTexts

def Frame.isDict : Frame → Bool
  | .list _ => false
  | _ => true

def Raw.isDict : Raw → Bool
  | .dict _ => true
  | _ => false

def Mode.root : Mode → Option Bool
  | .value => none
  | .key => none
  | .done r => some r.isDict
  | _ => some false

/-- Whether the outermost value is a dictionary, once it has begun. -/
def State.root (st : State) : Option Bool := st.stack.getLast?.elim st.mode.root (some ·.isDict)

section Ends

variable {lex : Lexicon} {st st' : State} {c : Char} {cs : List Char} {b : Bool}

theorem afterValue_root {r : Raw} {stack : List Frame} (h : afterValue r stack c = some st')
    (hroot : State.root ⟨.done r, stack⟩ = some b) : st'.root = some b := by
  unfold afterValue at h
  split at h
  · next items rest =>
    split at h
    · obtain rfl := Option.some.inj h
      cases rest <;> exact hroot
    split at h
    · obtain rfl := Option.some.inj h
      cases rest <;> exact hroot
    · cases h
  · next members key rest =>
    split at h
    · obtain rfl := Option.some.inj h
      cases rest <;> exact hroot
    split at h
    · obtain rfl := Option.some.inj h
      cases rest <;> exact hroot
    · cases h
  · cases h

theorem emptyList_root {stack : List Frame} (h : emptyList stack = some st')
    (hroot : State.root ⟨.value, stack⟩ = some b) : st'.root = some b := by
  unfold emptyList at h
  split at h
  · next rest =>
    obtain rfl := Option.some.inj h
    cases rest <;> exact hroot
  · cases h

theorem emptyDict_root {stack : List Frame} (h : emptyDict stack = some st')
    (hroot : State.root ⟨.key, stack⟩ = some b) : st'.root = some b := by
  unfold emptyDict at h
  split at h
  · next rest =>
    obtain rfl := Option.some.inj h
    cases rest <;> exact hroot
  · cases h

theorem afterKey_root {key : Quoted} {stack : List Frame} (h : afterKey key stack = some st')
    (hroot : State.root ⟨.colon key, stack⟩ = some b) : st'.root = some b := by
  unfold afterKey at h
  split at h
  · next members rest =>
    obtain rfl := Option.some.inj h
    cases rest <;> exact hroot
  · cases h

theorem step_root (h : step lex st c = some st') (hroot : st.root = some b) :
    st'.root = some b := by
  obtain ⟨mode, stack⟩ := st
  cases mode with
  | value =>
    cases stack with
    | nil => cases hroot
    | cons f stack =>
      dsimp only [step] at h
      split at h
      · obtain rfl := Option.some.inj h
        exact hroot
      split at h
      · obtain rfl := Option.some.inj h
        exact hroot
      split at h
      · obtain rfl := Option.some.inj h
        exact hroot
      split at h
      · obtain rfl := Option.some.inj h
        exact hroot
      split at h
      · exact emptyList_root h hroot
      split at h
      · cases h
      · obtain rfl := Option.some.inj h
        exact hroot
  | key =>
    cases stack with
    | nil => cases hroot
    | cons f stack =>
      dsimp only [step] at h
      split at h
      · obtain rfl := Option.some.inj h
        exact hroot
      split at h
      · obtain rfl := Option.some.inj h
        exact hroot
      split at h
      · exact emptyDict_root h hroot
      · cases h
  | text isKey escaped q =>
    dsimp only [step] at h
    split at h
    · obtain rfl := Option.some.inj h
      exact hroot
    split at h
    · obtain rfl := Option.some.inj h
      exact hroot
    split at h
    · obtain rfl := Option.some.inj h
      cases isKey <;> cases stack <;> exact hroot
    · obtain rfl := Option.some.inj h
      exact hroot
  | atom token =>
    have hdone : State.root ⟨.done (.atom token), stack⟩ = some b := by
      cases stack <;> exact hroot
    dsimp only [step] at h
    split at h
    · obtain rfl := Option.some.inj h
      exact hroot
    split at h
    · obtain rfl := Option.some.inj h
      exact hdone
    · exact afterValue_root h hdone
  | colon key =>
    dsimp only [step] at h
    split at h
    · obtain rfl := Option.some.inj h
      exact hroot
    split at h
    · exact afterKey_root h hroot
    · cases h
  | done r =>
    dsimp only [step] at h
    split at h
    · obtain rfl := Option.some.inj h
      exact hroot
    · exact afterValue_root h hroot

theorem run_root (h : run lex st cs = some st') (hroot : st.root = some b) :
    st'.root = some b := by
  induction cs generalizing st with
  | nil =>
    obtain rfl := Option.some.inj h
    exact hroot
  | cons c cs ih =>
    obtain ⟨st₁, hstep, hrun⟩ := run_cons h
    exact ih hrun (step_root hstep hroot)

theorem root_of_result {r : Raw} (h : st.result = some r) : st.root = some r.isDict := by
  unfold State.result at h
  split at h
  · next hmode hstack =>
    obtain rfl := Option.some.inj h
    rw [State.root, hmode, hstack]
    rfl
  · next hmode hstack =>
    obtain rfl := Option.some.inj h
    rw [State.root, hmode, hstack]
    rfl
  · cases h

theorem run_start_dropWhile (lex : Lexicon) (cs : List Char) :
    run lex .start (cs.dropWhile lex.blank) = run lex .start cs := by
  induction cs with
  | nil => rfl
  | cons c cs ih =>
    by_cases hc : lex.blank c = true
    · have hstep : step lex .start c = some .start := if_pos hc
      rw [List.dropWhile_cons_of_pos hc, ih, run_of_step lex hstep]
    · rw [List.dropWhile_cons_of_neg hc]

theorem step_start (hlex : lex.Lawful) (hc : lex.blank c = false)
    (h : step lex .start c = some st) : st.root = some (decide (c = '{')) := by
  have hblank : ¬ lex.blank c = true := by simp [hc]
  dsimp only [step, State.start] at h
  rw [if_neg hblank] at h
  split at h
  · next hquote =>
    obtain rfl := Option.some.inj h
    have hne : c ≠ '{' := by
      rintro rfl
      rw [hlex.mark_quote '{' rfl] at hquote
      cases hquote
    rw [decide_eq_false hne]
    rfl
  split at h
  · next hlist =>
    obtain rfl := Option.some.inj h
    rw [hlist]
    rfl
  split at h
  · next hdict =>
    obtain rfl := Option.some.inj h
    rw [decide_eq_true hdict]
    rfl
  next hdict =>
  split at h
  · cases h
  split at h
  · cases h
  · obtain rfl := Option.some.inj h
    rw [decide_eq_false hdict]
    rfl

/-- A dictionary is what begins with its bracket. -/
theorem parse_isDict (hlex : lex.Lawful) {r : Raw} (h : parse lex cs = some r) :
    r.isDict = true ↔ (cs.dropWhile lex.blank).head? = some '{' := by
  obtain ⟨st, hrun, hresult⟩ := Option.bind_eq_some_iff.mp h
  rw [← run_start_dropWhile] at hrun
  have hhead := List.head?_dropWhile_not lex.blank cs
  cases hcs : cs.dropWhile lex.blank with
  | nil =>
    rw [hcs] at hrun
    obtain rfl := Option.some.inj hrun
    cases hresult
  | cons c rest =>
    rw [hcs] at hrun hhead
    obtain ⟨st₁, hstep, hrest⟩ := run_cons hrun
    have hroot := run_root hrest (step_start hlex (by simpa using hhead) hstep)
    rw [root_of_result hresult] at hroot
    rw [Option.some.inj hroot, decide_eq_true_iff, List.head?_cons, Option.some_inj]

theorem run_done {r r' : Raw} (h : run lex ⟨.done r, []⟩ cs = some st')
    (hresult : st'.result = some r') : r' = r ∧ ∀ c ∈ cs, lex.blank c = true := by
  induction cs with
  | nil =>
    obtain rfl := Option.some.inj h
    exact ⟨(Option.some.inj hresult).symm, fun c hc => by cases hc⟩
  | cons c cs ih =>
    obtain ⟨st₁, hstep, hrun⟩ := run_cons h
    dsimp only [step] at hstep
    split at hstep
    · next hblank =>
      obtain rfl := Option.some.inj hstep
      obtain ⟨hr, hcs⟩ := ih hrun
      exact ⟨hr, List.forall_mem_cons.mpr ⟨hblank, hcs⟩⟩
    · cases hstep

theorem run_atom_alone {token : List Char} {r : Raw} (h : run lex ⟨.atom token, []⟩ cs = some st')
    (hresult : st'.result = some r) : ∃ token', r = .atom token' := by
  induction cs generalizing token with
  | nil =>
    obtain rfl := Option.some.inj h
    exact ⟨token, (Option.some.inj hresult).symm⟩
  | cons c cs ih =>
    obtain ⟨st₁, hstep, hrun⟩ := run_cons h
    dsimp only [step] at hstep
    split at hstep
    · obtain rfl := Option.some.inj hstep
      exact ih hrun
    split at hstep
    · obtain rfl := Option.some.inj hstep
      exact ⟨token, (run_done hrun hresult).1⟩
    · cases hstep

/-- What can follow a whole value is blank, or makes a word longer. -/
theorem blank_of_result {r r' : Raw} (hwhole : st.result = some r) (h : run lex st cs = some st')
    (hresult : st'.result = some r') :
    (∀ c ∈ cs, lex.blank c = true) ∨ ∃ token, r' = .atom token := by
  obtain ⟨mode, stack⟩ := st
  unfold State.result at hwhole
  split at hwhole
  · next hmode hstack =>
    dsimp only at hmode hstack
    subst hmode hstack
    exact Or.inl (run_done h hresult).2
  · next hmode hstack =>
    dsimp only at hmode hstack
    subst hmode hstack
    exact Or.inr (run_atom_alone h hresult)
  · cases hwhole

end Ends

end BracketTexts
