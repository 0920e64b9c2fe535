import Mathlib.Algebra.Order.BigOperators.Group.List
import Mathlib.Data.List.TakeWhile
import Mathlib.Tactic.SplitIfs

/-! # Command lines of a POSIX shell

A line cut into words and operators, with the quoting of each character. A word that an expansion
could change, whatever the variables, homes and files of the shell, has no text of its own. -/
namespace ShellWords

/-- Characters, and whether they are quoted. -/
abbrev Word := List (Char × Bool)

def text (w : Word) : List Char := w.map Prod.fst

inductive Token where
  | word (w : Word)
  | operator (c : Char)
  deriving DecidableEq

inductive Mode where
  | blank
  | comment
  | word (w : Word)
  | single (w : Word)
  | double (w : Word)
  /-- After a backslash outside of quotes, in a word or before one. -/
  | escape (begun : Bool) (w : Word)
  | doubleEscape (w : Word)

def isBlank (c : Char) : Bool := c ∈ [' ', '\t']

def isOperator (c : Char) : Bool := c ∈ ['\n', ';', '&', '|', '<', '>', '(', ')']

/-- No argument of a process holds this character. -/
def isNul (c : Char) : Bool := c.toNat = 0

/-- After a dollar sign: a name, a special parameter, a brace or a parenthesis. -/
def startsExpansion (cs : List Char) : Bool :=
  cs.head?.any fun c =>
    c.isAlphanum || decide (c ∈ ['_', '@', '*', '#', '?', '-', '$', '!', '{', '('])

/-- A character of a word outside of quotes, and the characters after it. -/
def wordStep (begun : Bool) (w : Word) (c : Char) (cs : List Char) : Option Mode :=
  if c = '\'' then some (.single w)
  else if c = '"' then some (.double w)
  else if c = '\\' then some (.escape begun w)
  else if c = '`' ∨ (c = '$' ∧ startsExpansion cs = true) then none
  else some (.word (w ++ [(c, false)]))

def doubleStep (w : Word) (c : Char) (cs : List Char) : Option Mode :=
  if c = '"' then some (.word w)
  else if c = '\\' then some (.doubleEscape w)
  else if c = '`' ∨ (c = '$' ∧ startsExpansion cs = true) then none
  else some (.double (w ++ [(c, true)]))

/-- The tokens that a character completes. -/
def step (m : Mode) (c : Char) (cs : List Char) : Option (List Token × Mode) :=
  if isNul c then none
  else match m with
    | .blank =>
      if isBlank c then some ([], .blank)
      else if isOperator c then some ([.operator c], .blank)
      else if c = '#' then some ([], .comment)
      else (wordStep false [] c cs).map fun m => ([], m)
    | .comment => if c = '\n' then some ([.operator c], .blank) else some ([], .comment)
    | .word w =>
      if isBlank c then some ([.word w], .blank)
      else if isOperator c then some ([.word w, .operator c], .blank)
      else (wordStep true w c cs).map fun m => ([], m)
    | .single w => some ([], if c = '\'' then .word w else .single (w ++ [(c, true)]))
    | .double w => (doubleStep w c cs).map fun m => ([], m)
    | .escape begun w =>
      if c = '\n' then some ([], if begun then .word w else .blank)
      else some ([], .word (w ++ [(c, true)]))
    | .doubleEscape w =>
      if c = '\n' then some ([], .double w)
      else if c ∈ ['$', '`', '"', '\\'] then some ([], .double (w ++ [(c, true)]))
      else some ([], .double (w ++ [('\\', true), (c, true)]))

/-- What is left at the end of the line: a backslash there stands for itself. -/
def finish : Mode → Option (List Token)
  | .blank => some []
  | .comment => some []
  | .word w => some [.word w]
  | .escape _ w => some [.word (w ++ [('\\', true)])]
  | .single _ => none
  | .double _ => none
  | .doubleEscape _ => none

/-- The tokens of a line; `none` for an open quote and for what is expanded at a dollar sign or a
backquote. -/
def lex : Mode → List Char → Option (List Token)
  | m, [] => finish m
  | m, c :: cs => (step m c cs).bind fun r => (lex r.2 cs).map (r.1 ++ ·)

/-- After an opening bracket: a closing one, but not at once. -/
def closesBracket : Word → Bool
  | [] => false
  | p :: w => decide (p.1 ≠ '/') && (decide (w.head? = some (']', false)) || closesBracket w)

/-- A bracket expression, perhaps a negated one. -/
def isBracket (w : Word) : Bool :=
  closesBracket (if w.head? = some ('!', false) then w.drop 1 else w)

/-- A pattern of file names. -/
def hasPattern : Word → Bool
  | [] => false
  | p :: w => decide (p ∈ [('*', false), ('?', false)]) ||
      (decide (p = ('[', false)) && isBracket w) || hasPattern w

/-- A home directory. -/
def hasTilde (w : Word) : Bool :=
  decide (w.head? = some ('~', false)) &&
    (w.takeWhile (· ≠ ('/', false))).all fun p => !p.2

/-- A home directory in one of the parts of a value between colons. -/
def valueTilde : Bool → Word → Bool
  | _, [] => false
  | start, p :: w => (start && hasTilde (p :: w.takeWhile (· ≠ (':', false)))) ||
      valueTilde (decide (p = (':', false))) w

def fixedWord (w : Word) : Option (List Char) :=
  if hasTilde w || hasPattern w then none else some (text w)

def fixedValue (w : Word) : Option (List Char) :=
  if valueTilde true w then none else some (text w)

structure SimpleCommand where
  assignments : List (List Char × List Char)
  words : List (List Char)
  deriving DecidableEq

def isNamePart (p : Char × Bool) : Bool := !p.2 && (p.1.isAlphanum || decide (p.1 = '_'))

/-- The name and the value of an assignment. -/
def assignment (w : Word) : Option (List Char × Word) :=
  let name := w.takeWhile isNamePart
  let rest := w.drop name.length
  if name ≠ [] ∧ (text name).head?.all (fun c => !c.isDigit) ∧ rest.head? = some ('=', false) then
    some (text name, rest.drop 1)
  else none

def argumentText : Token → Option (List Char)
  | .word w => fixedWord w
  | .operator _ => none

/-- One command: assignments, then words, and no operator. -/
def simpleCommand : List Token → Option SimpleCommand
  | [] => some ⟨[], []⟩
  | .operator _ :: _ => none
  | .word w :: ts =>
    match assignment w with
    | some (name, value) => (fixedValue value).bind fun v => (simpleCommand ts).map fun command =>
        { command with assignments := (name, v) :: command.assignments }
    | none => ((Token.word w :: ts).mapM argumentText).map fun words => ⟨[], words⟩

def command (line : List Char) : Option SimpleCommand := (lex .blank line).bind simpleCommand

/-- A character that a word keeps outside of quotes. -/
def keeps (c : Char) (cs : List Char) : Bool :=
  !isNul c && !isBlank c && !isOperator c && decide (c ∉ ['\'', '"', '\\', '`']) &&
    !(decide (c = '$') && startsExpansion cs)

/-- Characters inside of a word. -/
def bare : List Char → Bool
  | [] => true
  | c :: cs => keeps c cs && bare cs

/-- Characters up to the end of the line, where a backslash is kept. -/
def bareEnd : List Char → Bool
  | [] => true
  | c :: cs => (keeps c cs || (decide (c = '\\') && cs.isEmpty)) && bareEnd cs

def unquoted (cs : List Char) : Word := cs.map fun c => (c, false)

/-- The backslash at the end is quoted. -/
def endWord (cs : List Char) : Word := cs.map fun c => (c, decide (c = '\\'))

section Weights

variable {p : Char → Bool} {m m' : Mode} {w : Word} {c : Char} {cs : List Char} {ts : List Token}

/-- The number of characters in which `p` holds. -/
def weight (p : Char → Bool) (w : Word) : ℕ := (text w).countP p

/-- The characters of a word; an operator has none to keep. -/
def Token.chars : Token → List Char
  | .word w => text w
  | .operator _ => []

def tokensWeight (p : Char → Bool) (ts : List Token) : ℕ := (ts.flatMap Token.chars).countP p

/-- A backslash that is not decided yet counts. -/
def Mode.weight (p : Char → Bool) : Mode → ℕ
  | .blank => 0
  | .comment => 0
  | .word w => ShellWords.weight p w
  | .single w => ShellWords.weight p w
  | .double w => ShellWords.weight p w
  | .escape _ w => ShellWords.weight p w + [('\\')].countP p
  | .doubleEscape w => ShellWords.weight p w + [('\\')].countP p

theorem weight_concat (p : Char → Bool) (w : Word) (c : Char) (quoted : Bool) :
    weight p (w ++ [(c, quoted)]) = weight p w + [c].countP p := by
  rw [weight, text, List.map_append, List.countP_append]
  rfl

theorem countP_cons_add (p : Char → Bool) (c : Char) (cs : List Char) :
    (c :: cs).countP p = [c].countP p + cs.countP p := by
  rw [← List.countP_append, List.singleton_append]

theorem tokensWeight_append (ts us : List Token) :
    tokensWeight p (ts ++ us) = tokensWeight p ts + tokensWeight p us := by
  rw [tokensWeight, List.flatMap_append, List.countP_append]
  rfl

theorem tokensWeight_word (p : Char → Bool) (w : Word) :
    tokensWeight p [.word w] = weight p w := by
  rw [tokensWeight, List.flatMap_singleton]
  rfl

theorem tokensWeight_word_operator (p : Char → Bool) (w : Word) (c : Char) :
    tokensWeight p [.word w, .operator c] = weight p w := by
  have hchars : [Token.word w, .operator c].flatMap Token.chars = text w := by
    rw [List.flatMap_cons, List.flatMap_singleton]
    exact List.append_nil _
  rw [tokensWeight, hchars]
  rfl

@[simp] theorem tokensWeight_nil_add (n : ℕ) : tokensWeight p [] + n = n := Nat.zero_add n

theorem weight_wordStep {begun : Bool} (h : wordStep begun w c cs = some m') :
    m'.weight p ≤ weight p w + [c].countP p := by
  unfold wordStep at h
  split_ifs at h with hsingle hdouble hbackslash hexpansion
  · obtain rfl := Option.some.inj h
    exact Nat.le_add_right _ _
  · obtain rfl := Option.some.inj h
    exact Nat.le_add_right _ _
  · obtain rfl := Option.some.inj h
    rw [hbackslash]
    exact le_refl _
  · obtain rfl := Option.some.inj h
    exact (weight_concat p w c false).le

theorem weight_doubleStep (h : doubleStep w c cs = some m') :
    m'.weight p ≤ weight p w + [c].countP p := by
  unfold doubleStep at h
  split_ifs at h with hdouble hbackslash hexpansion
  · obtain rfl := Option.some.inj h
    exact Nat.le_add_right _ _
  · obtain rfl := Option.some.inj h
    rw [hbackslash]
    exact le_refl _
  · obtain rfl := Option.some.inj h
    exact (weight_concat p w c true).le

/-- No character is in a token more often than on the line. -/
theorem weight_step (h : step m c cs = some (ts, m')) :
    tokensWeight p ts + m'.weight p ≤ m.weight p + [c].countP p := by
  unfold step at h
  split at h
  · cases h
  · cases m with
    | blank =>
      dsimp only at h
      split_ifs at h
      · obtain ⟨rfl, rfl⟩ := Prod.mk.inj (Option.some.inj h)
        exact Nat.zero_le _
      · obtain ⟨rfl, rfl⟩ := Prod.mk.inj (Option.some.inj h)
        exact Nat.zero_le _
      · obtain ⟨rfl, rfl⟩ := Prod.mk.inj (Option.some.inj h)
        exact Nat.zero_le _
      · obtain ⟨m₁, hm₁, hpair⟩ := Option.map_eq_some_iff.mp h
        obtain ⟨rfl, rfl⟩ := Prod.mk.inj hpair
        have hle := weight_wordStep (p := p) hm₁
        rw [tokensWeight_nil_add]
        exact hle
    | comment =>
      dsimp only at h
      split_ifs at h
      · obtain ⟨rfl, rfl⟩ := Prod.mk.inj (Option.some.inj h)
        exact Nat.zero_le _
      · obtain ⟨rfl, rfl⟩ := Prod.mk.inj (Option.some.inj h)
        exact Nat.zero_le _
    | word w =>
      dsimp only at h
      split_ifs at h
      · obtain ⟨rfl, rfl⟩ := Prod.mk.inj (Option.some.inj h)
        rw [tokensWeight_word]
        exact Nat.le_add_right _ _
      · obtain ⟨rfl, rfl⟩ := Prod.mk.inj (Option.some.inj h)
        rw [tokensWeight_word_operator]
        exact Nat.le_add_right _ _
      · obtain ⟨m₁, hm₁, hpair⟩ := Option.map_eq_some_iff.mp h
        obtain ⟨rfl, rfl⟩ := Prod.mk.inj hpair
        have hle := weight_wordStep (p := p) hm₁
        rw [tokensWeight_nil_add]
        exact hle
    | single w =>
      obtain ⟨rfl, rfl⟩ := Prod.mk.inj (Option.some.inj h)
      rw [tokensWeight_nil_add]
      split
      · exact Nat.le_add_right _ _
      · exact (weight_concat p w c true).le
    | double w =>
      obtain ⟨m₁, hm₁, hpair⟩ := Option.map_eq_some_iff.mp h
      obtain ⟨rfl, rfl⟩ := Prod.mk.inj hpair
      have hle := weight_doubleStep (p := p) hm₁
      rw [tokensWeight_nil_add]
      exact hle
    | escape begun w =>
      dsimp only at h
      split_ifs at h
      · obtain ⟨rfl, rfl⟩ := Prod.mk.inj (Option.some.inj h)
        rw [tokensWeight_nil_add]
        exact (Nat.le_add_right _ _).trans (Nat.le_add_right _ _)
      · obtain ⟨rfl, rfl⟩ := Prod.mk.inj (Option.some.inj h)
        exact Nat.zero_le _
      · obtain ⟨rfl, rfl⟩ := Prod.mk.inj (Option.some.inj h)
        rw [tokensWeight_nil_add, Mode.weight, weight_concat,
          Mode.weight]
        omega
    | doubleEscape w =>
      dsimp only at h
      split_ifs at h
      · obtain ⟨rfl, rfl⟩ := Prod.mk.inj (Option.some.inj h)
        rw [tokensWeight_nil_add]
        exact (Nat.le_add_right _ _).trans (Nat.le_add_right _ _)
      · obtain ⟨rfl, rfl⟩ := Prod.mk.inj (Option.some.inj h)
        rw [tokensWeight_nil_add, Mode.weight, weight_concat,
          Mode.weight]
        omega
      · obtain ⟨rfl, rfl⟩ := Prod.mk.inj (Option.some.inj h)
        have hpair : w ++ [('\\', true), (c, true)] = w ++ [('\\', true)] ++ [(c, true)] := by
          rw [List.append_assoc]
          rfl
        rw [tokensWeight_nil_add, Mode.weight, hpair,
          weight_concat, weight_concat, Mode.weight]

theorem weight_finish (h : finish m = some ts) : tokensWeight p ts = m.weight p := by
  cases m with
  | blank =>
    obtain rfl := Option.some.inj h
    rfl
  | comment =>
    obtain rfl := Option.some.inj h
    rfl
  | word w =>
    obtain rfl := Option.some.inj h
    exact tokensWeight_word p w
  | escape begun w =>
    obtain rfl := Option.some.inj h
    exact (tokensWeight_word p _).trans (weight_concat p w '\\' true)
  | single w => cases h
  | double w => cases h
  | doubleEscape w => cases h

theorem weight_lex (h : lex m cs = some ts) : tokensWeight p ts ≤ m.weight p + cs.countP p := by
  induction cs generalizing m ts with
  | nil => exact (weight_finish h).le
  | cons c cs ih =>
    obtain ⟨⟨us, m'⟩, hstep, h⟩ := Option.bind_eq_some_iff.mp h
    obtain ⟨vs, hvs, rfl⟩ := Option.map_eq_some_iff.mp h
    have hle := weight_step (p := p) hstep
    have hrest := ih hvs
    dsimp only at hrest ⊢
    have hcons := countP_cons_add p c cs
    rw [tokensWeight_append, hcons]
    omega

end Weights

/-- Plain characters, and blanks unless `p` holds of them. -/
def plainLine (p : Char → Bool) : List Char → Bool
  | [] => true
  | c :: cs => ((decide (c = ' ') && !p ' ') || keeps c cs ||
      (decide (c = '\\') && cs.isEmpty)) && plainLine p cs

section Tight

variable {p : Char → Bool} {m m' : Mode} {w : Word} {c : Char} {cs : List Char} {ts : List Token}

/-- Between words, or in one outside of quotes. -/
def Mode.Outside (m : Mode) : Prop := m = .blank ∨ ∃ w, m = .word w

theorem weight_singleton (h : p c = true) : [c].countP p = 1 := by
  rw [List.countP_singleton, if_pos h]

theorem wordStep_cases {begun : Bool} (h : wordStep begun w c cs = some m') :
    (m' = .word (w ++ [(c, false)]) ∧ c ∉ ['\'', '"', '\\', '`'] ∧
        ¬ (c = '$' ∧ startsExpansion cs = true)) ∨
      (c = '\\' ∧ m' = .escape begun w) ∨
      ((c = '\'' ∨ c = '"') ∧ m'.weight p = weight p w) := by
  unfold wordStep at h
  split_ifs at h with hsingle hdouble hbackslash hexpansion
  · obtain rfl := Option.some.inj h
    exact .inr (.inr ⟨.inl hsingle, rfl⟩)
  · obtain rfl := Option.some.inj h
    exact .inr (.inr ⟨.inr hdouble, rfl⟩)
  · obtain rfl := Option.some.inj h
    exact .inr (.inl ⟨hbackslash, rfl⟩)
  · obtain rfl := Option.some.inj h
    obtain ⟨hbackquote, hdollar⟩ := not_or.mp hexpansion
    refine .inl ⟨rfl, ?_, hdollar⟩
    simp only [List.mem_cons, List.not_mem_nil, or_false, not_or]
    exact ⟨hsingle, hdouble, hbackslash, hbackquote⟩

/-- A step of a word that loses nothing. -/
theorem wordStep_tight {begun : Bool} (hp : ∀ c, c ≠ ' ' → p c = true)
    (hnul : isNul c = false) (hblank : isBlank c = false) (hoperator : isOperator c = false)
    (h : wordStep begun w c cs = some m') (heq : m'.weight p = weight p w + [c].countP p) :
    (m'.Outside ∧ keeps c cs = true) ∨ (c = '\\' ∧ m' = .escape begun w) := by
  rcases wordStep_cases (p := p) h with ⟨rfl, hmem, hdollar⟩ | hescape | ⟨hquote, hweight⟩
  · refine .inl ⟨.inr ⟨_, rfl⟩, ?_⟩
    rw [keeps, hnul, hblank, hoperator, decide_eq_true hmem, ← Bool.decide_coe (startsExpansion cs),
      ← Bool.decide_and, decide_eq_false hdollar]
    rfl
  · exact .inr hescape
  · have hone : [c].countP p = 1 := by
      refine weight_singleton (hp c ?_)
      rcases hquote with rfl | rfl
      · decide
      · decide
    omega

theorem step_tight (hp : ∀ c, c ≠ ' ' → p c = true) (hm : m.Outside)
    (h : step m c cs = some (ts, m'))
    (heq : tokensWeight p ts + m'.weight p = m.weight p + [c].countP p) :
    (m'.Outside ∧ (c = ' ' ∧ p ' ' = false ∨ keeps c cs = true)) ∨
      (c = '\\' ∧ ∃ begun w, m' = .escape begun w) := by
  have hspace (hzero : [c].countP p = 0) : c = ' ' ∧ p ' ' = false := by
    have hfalse : p c = false := by
      rw [List.countP_singleton] at hzero
      exact Bool.eq_false_iff.mpr fun htrue => by simp [htrue] at hzero
    have hc : c = ' ' := by
      by_contra hne
      rw [hp c hne] at hfalse
      cases hfalse
    exact ⟨hc, hc ▸ hfalse⟩
  have hone (hne : c ≠ ' ') : [c].countP p = 1 := weight_singleton (hp c hne)
  unfold step at h
  split at h
  · cases h
  · next hnul =>
    rw [Bool.not_eq_true] at hnul
    rcases hm with rfl | ⟨w, rfl⟩
    · dsimp only at h
      split_ifs at h with hblank hoperator hsharp
      · obtain ⟨rfl, rfl⟩ := Prod.mk.inj (Option.some.inj h)
        refine .inl ⟨.inl rfl, .inl (hspace ?_)⟩
        rw [tokensWeight_nil_add, Mode.weight, Nat.zero_add] at heq
        exact heq.symm
      · obtain ⟨rfl, rfl⟩ := Prod.mk.inj (Option.some.inj h)
        have hne : c ≠ ' ' := by
          rintro rfl
          exact absurd hoperator (by decide)
        have hzero : 0 = 0 + [c].countP p := heq
        rw [hone hne] at hzero
        cases hzero
      · obtain ⟨rfl, rfl⟩ := Prod.mk.inj (Option.some.inj h)
        have hzero : 0 = 0 + [c].countP p := heq
        rw [hone (by rw [hsharp]; decide)] at hzero
        cases hzero
      · obtain ⟨m₁, hm₁, hpair⟩ := Option.map_eq_some_iff.mp h
        obtain ⟨rfl, rfl⟩ := Prod.mk.inj hpair
        rw [tokensWeight_nil_add] at heq
        rcases wordStep_tight hp hnul (Bool.eq_false_iff.mpr hblank)
          (Bool.eq_false_iff.mpr hoperator) hm₁ heq with ⟨hout, hkeeps⟩ | ⟨hc, hm'⟩
        · exact .inl ⟨hout, .inr hkeeps⟩
        · exact .inr ⟨hc, _, _, hm'⟩
    · dsimp only at h
      split_ifs at h with hblank hoperator
      · obtain ⟨rfl, rfl⟩ := Prod.mk.inj (Option.some.inj h)
        refine .inl ⟨.inl rfl, .inl (hspace ?_)⟩
        rw [tokensWeight_word] at heq
        have hsum : weight p w + 0 = weight p w + [c].countP p := heq
        omega
      · obtain ⟨rfl, rfl⟩ := Prod.mk.inj (Option.some.inj h)
        have hne : c ≠ ' ' := by
          rintro rfl
          exact absurd hoperator (by decide)
        rw [tokensWeight_word_operator] at heq
        have hsum : weight p w + 0 = weight p w + [c].countP p := heq
        rw [hone hne] at hsum
        omega
      · obtain ⟨m₁, hm₁, hpair⟩ := Option.map_eq_some_iff.mp h
        obtain ⟨rfl, rfl⟩ := Prod.mk.inj hpair
        rw [tokensWeight_nil_add] at heq
        rcases wordStep_tight hp hnul (Bool.eq_false_iff.mpr hblank)
          (Bool.eq_false_iff.mpr hoperator) hm₁ heq with ⟨hout, hkeeps⟩ | ⟨hc, hm'⟩
        · exact .inl ⟨hout, .inr hkeeps⟩
        · exact .inr ⟨hc, _, _, hm'⟩

/-- A backslash before another character is lost. -/
theorem weight_escape_lt {begun : Bool} (h : lex (.escape begun w) (c :: cs) = some ts) :
    tokensWeight p ts < weight p w + 1 + (c :: cs).countP p := by
  obtain ⟨⟨us, m'⟩, hstep, h⟩ := Option.bind_eq_some_iff.mp h
  obtain ⟨vs, hvs, rfl⟩ := Option.map_eq_some_iff.mp h
  have hrest := weight_lex (p := p) hvs
  have hcons := countP_cons_add p c cs
  have hstep : tokensWeight p us + m'.weight p ≤ weight p w + [c].countP p := by
    unfold step at hstep
    split at hstep
    · cases hstep
    · dsimp only at hstep
      split_ifs at hstep
      · obtain ⟨rfl, rfl⟩ := Prod.mk.inj (Option.some.inj hstep)
        rw [tokensWeight_nil_add]
        exact Nat.le_add_right _ _
      · obtain ⟨rfl, rfl⟩ := Prod.mk.inj (Option.some.inj hstep)
        exact Nat.zero_le _
      · obtain ⟨rfl, rfl⟩ := Prod.mk.inj (Option.some.inj hstep)
        rw [tokensWeight_nil_add]
        exact (weight_concat p w c true).le
  dsimp only at hrest ⊢
  rw [tokensWeight_append, hcons]
  omega

/-- A line of which nothing is lost is plain. -/
theorem plainLine_of_weight (hp : ∀ c, c ≠ ' ' → p c = true) (hm : m.Outside)
    (h : lex m cs = some ts) (heq : tokensWeight p ts = m.weight p + cs.countP p) :
    plainLine p cs = true := by
  induction cs generalizing m ts with
  | nil => rfl
  | cons c cs ih =>
    obtain ⟨⟨us, m'⟩, hstep, h⟩ := Option.bind_eq_some_iff.mp h
    obtain ⟨vs, hvs, rfl⟩ := Option.map_eq_some_iff.mp h
    have hle := weight_step (p := p) hstep
    have hrest := weight_lex (p := p) hvs
    have hcons := countP_cons_add p c cs
    dsimp only at hvs hrest heq
    rw [tokensWeight_append, hcons] at heq
    rw [plainLine]
    rcases step_tight hp hm hstep (by omega) with ⟨hout, hc⟩ | ⟨rfl, begun, w, rfl⟩
    · rw [ih hout hvs (by omega), Bool.and_true]
      rcases hc with ⟨rfl, hspace⟩ | hkeeps
      · rw [hspace]
        rfl
      · rw [hkeeps, Bool.or_true, Bool.true_or]
    · cases cs with
      | nil => exact Bool.and_true _ ▸ Bool.or_true _
      | cons d cs =>
        have hone : ['\\'].countP p = 1 := weight_singleton (hp '\\' (by decide))
        have hescape : (Mode.escape begun w).weight p = weight p w + 1 := by
          rw [Mode.weight, hone]
        have hlt := weight_escape_lt (p := p) hvs
        omega

end Tight

section Plain

variable {p : Char → Bool} {w : Word} {c : Char} {cs more : List Char}

theorem keeps_append_blank (c : Char) (cs more : List Char) :
    keeps c (cs ++ ' ' :: more) = keeps c cs := by
  have hnext : startsExpansion (cs ++ ' ' :: more) = startsExpansion cs := by
    cases cs with
    | nil => rfl
    | cons d cs => rfl
  rw [keeps, keeps, hnext]

/-- What it takes to be kept. -/
theorem keeps_iff : keeps c cs = true ↔ isNul c = false ∧ isBlank c = false ∧
    isOperator c = false ∧ c ∉ ['\'', '"', '\\', '`'] ∧
      ¬ (c = '$' ∧ startsExpansion cs = true) := by
  simp only [keeps, Bool.and_eq_true, Bool.not_eq_true', decide_eq_true_eq, Bool.and_eq_false_imp,
    and_assoc, not_and, Bool.not_eq_true]

theorem wordStep_keeps (h : keeps c cs = true) (begun : Bool) (w : Word) :
    wordStep begun w c cs = some (.word (w ++ [(c, false)])) := by
  obtain ⟨-, -, -, hmem, hdollar⟩ := keeps_iff.mp h
  simp only [List.mem_cons, List.not_mem_nil, or_false, not_or] at hmem
  obtain ⟨hsingle, hdouble, hbackslash, hbackquote⟩ := hmem
  rw [wordStep, if_neg hsingle, if_neg hdouble, if_neg hbackslash,
    if_neg (not_or.mpr ⟨hbackquote, hdollar⟩)]

theorem lex_word_keeps (h : keeps c cs = true) (w : Word) :
    lex (.word w) (c :: cs) = lex (.word (w ++ [(c, false)])) cs := by
  obtain ⟨hnul, hblank, hoperator, -⟩ := keeps_iff.mp h
  have hstep : step (.word w) c cs = some ([], .word (w ++ [(c, false)])) := by
    rw [step, hnul, hblank, hoperator, wordStep_keeps h]
    rfl
  rw [lex, hstep, Option.bind_some]
  exact Option.map_id'

theorem lex_blank_keeps (h : keeps c cs = true) (hc : c ≠ '#') :
    lex .blank (c :: cs) = lex (.word []) (c :: cs) := by
  obtain ⟨hnul, hblank, hoperator, -⟩ := keeps_iff.mp h
  have hstep : step .blank c cs = some ([], .word [(c, false)]) := by
    rw [step, hnul, hblank, hoperator, wordStep_keeps h, if_neg Bool.false_ne_true, if_neg hc]
    rfl
  rw [lex_word_keeps h, lex, hstep, Option.bind_some]
  exact Option.map_id'

theorem lex_bare (h : bare cs = true) (w : Word) (more : List Char) :
    lex (.word w) (cs ++ ' ' :: more) =
      (lex .blank more).map (.word (w ++ unquoted cs) :: ·) := by
  induction cs generalizing w with
  | nil =>
    rw [unquoted, List.map_nil, List.append_nil]
    rfl
  | cons c cs ih =>
    obtain ⟨hc, hcs⟩ := Bool.and_eq_true_iff.mp h
    rw [List.cons_append, lex_word_keeps ((keeps_append_blank c cs more).trans hc), ih hcs,
      List.append_assoc]
    rfl

/-- A plain word at the front of a line. -/
theorem lex_blank_bare (h : bare (c :: cs) = true) (hc : c ≠ '#') (more : List Char) :
    lex .blank (c :: cs ++ ' ' :: more) =
      (lex .blank more).map (.word (unquoted (c :: cs)) :: ·) := by
  have hkeeps := (Bool.and_eq_true_iff.mp h).1
  rw [List.cons_append, lex_blank_keeps ((keeps_append_blank c cs more).trans hkeeps) hc,
    ← List.cons_append, lex_bare h, List.nil_append]

theorem lex_bareEnd (h : bareEnd cs = true) (w : Word) :
    lex (.word w) cs = some [.word (w ++ endWord cs)] := by
  induction cs generalizing w with
  | nil =>
    rw [endWord, List.map_nil, List.append_nil]
    rfl
  | cons c cs ih =>
    obtain ⟨hc, hcs⟩ := Bool.and_eq_true_iff.mp h
    rcases Bool.or_eq_true_iff.mp hc with hkeeps | hend
    · have hplain : c ≠ '\\' := by
        rintro rfl
        exact (keeps_iff.mp hkeeps).2.2.2.1 (by decide)
      have hword : endWord (c :: cs) = (c, false) :: endWord cs := by
        rw [endWord, List.map_cons, decide_eq_false hplain]
        rfl
      rw [lex_word_keeps hkeeps, ih hcs, hword, List.append_assoc, List.singleton_append]
    · obtain ⟨hbackslash, hempty⟩ := Bool.and_eq_true_iff.mp hend
      obtain rfl := of_decide_eq_true hbackslash
      obtain rfl := List.isEmpty_iff.mp hempty
      rfl

/-- A word at the end of a line. -/
theorem lex_blank_bareEnd (h : bareEnd (c :: cs) = true) (hc : c ≠ '#') :
    lex .blank (c :: cs) = some [.word (endWord (c :: cs))] := by
  obtain ⟨hfront, -⟩ := Bool.and_eq_true_iff.mp h
  rcases Bool.or_eq_true_iff.mp hfront with hkeeps | hend
  · rw [lex_blank_keeps hkeeps hc, lex_bareEnd h, List.nil_append]
  · obtain ⟨hbackslash, hempty⟩ := Bool.and_eq_true_iff.mp hend
    obtain rfl := of_decide_eq_true hbackslash
    obtain rfl := List.isEmpty_iff.mp hempty
    rfl

/-- A plain line up to its first blank. -/
theorem split_plainLine (h : plainLine p (cs ++ ' ' :: more) = true) :
    ∃ front more', cs ++ ' ' :: more = front ++ ' ' :: more' ∧ front <+: cs ∧
      bare front = true := by
  induction cs with
  | nil => exact ⟨[], more, rfl, List.prefix_rfl, rfl⟩
  | cons c cs ih =>
    obtain ⟨hc, hcs⟩ := Bool.and_eq_true_iff.mp h
    by_cases hspace : c = ' '
    · exact ⟨[], cs ++ ' ' :: more, by rw [hspace]; rfl, List.nil_prefix, rfl⟩
    · obtain ⟨front, more', heq, hprefix, hbare⟩ := ih hcs
      have hkeeps : keeps c front = true := by
        rw [← keeps_append_blank c front more', ← heq]
        rw [decide_eq_false hspace, Bool.false_and, Bool.false_or] at hc
        rcases Bool.or_eq_true_iff.mp hc with hkeeps | hend
        · exact hkeeps
        · have hempty := (Bool.and_eq_true_iff.mp hend).2
          rw [List.isEmpty_iff] at hempty
          exact absurd hempty (List.append_ne_nil_of_right_ne_nil _ (List.cons_ne_nil _ _))
      refine ⟨c :: front, more', ?_, List.cons_prefix_cons.mpr ⟨rfl, hprefix⟩, ?_⟩
      · rw [List.cons_append, heq, List.cons_append]
      · rw [bare, hkeeps, hbare]
        rfl

/-- Without blanks. -/
theorem bareEnd_of_plainLine (h : plainLine (fun _ => true) cs = true) : bareEnd cs = true := by
  induction cs with
  | nil => rfl
  | cons c cs ih =>
    obtain ⟨hc, hcs⟩ := Bool.and_eq_true_iff.mp h
    rw [Bool.not_true, Bool.and_false, Bool.false_or] at hc
    rw [bareEnd, hc, ih hcs]
    rfl

end Plain

section Commands

variable {w value : Word} {name : List Char} {ts : List Token}
  {command : SimpleCommand}

theorem text_unquoted (cs : List Char) : text (unquoted cs) = cs := by
  rw [text, unquoted, List.map_map]
  exact List.map_id' cs

theorem text_endWord (cs : List Char) : text (endWord cs) = cs := by
  rw [text, endWord, List.map_map]
  exact List.map_id' cs

theorem text_of_assignment (h : assignment w = some (name, value)) :
    text w = name ++ '=' :: text value := by
  unfold assignment at h
  dsimp only at h
  split at h
  · next hname =>
    obtain ⟨rfl, rfl⟩ := Prod.mk.inj (Option.some.inj h)
    have htake : (w.takeWhile isNamePart) ++ w.drop (w.takeWhile isNamePart).length = w :=
      List.prefix_iff_eq_append.mp (List.takeWhile_prefix _)
    obtain ⟨rest, hrest⟩ := List.head?_eq_some_iff.mp hname.2.2
    rw [hrest] at htake ⊢
    calc text w = text (w.takeWhile isNamePart ++ ('=', false) :: rest) := by rw [htake]
      _ = _ := List.map_append
  · cases h

theorem text_of_fixedWord {cs : List Char} (h : fixedWord w = some cs) : text w = cs := by
  unfold fixedWord at h
  split at h
  · cases h
  · exact Option.some.inj h

theorem text_of_fixedValue {cs : List Char} (h : fixedValue w = some cs) : text w = cs := by
  unfold fixedValue at h
  split at h
  · cases h
  · exact Option.some.inj h

/-- The characters of a command. -/
def SimpleCommand.chars (command : SimpleCommand) : List Char :=
  (command.assignments.flatMap fun a => a.1 ++ '=' :: a.2) ++ command.words.flatten

theorem chars_of_mapM {words : List (List Char)} (h : ts.mapM argumentText = some words) :
    ts.flatMap Token.chars = words.flatten := by
  induction ts generalizing words with
  | nil =>
    obtain rfl := Option.some.inj h
    rfl
  | cons t ts ih =>
    rw [List.mapM_cons] at h
    obtain ⟨word, hword, h⟩ := Option.bind_eq_some_iff.mp h
    obtain ⟨words', hwords, h⟩ := Option.bind_eq_some_iff.mp h
    obtain rfl := Option.some.inj h
    cases t with
    | operator c => cases hword
    | word w =>
      rw [List.flatMap_cons, List.flatten_cons, ih hwords, ← text_of_fixedWord hword]
      rfl

theorem simpleCommand_of_assignment (ts : List Token) (h : assignment w = some (name, value)) :
    simpleCommand (.word w :: ts) = (fixedValue value).bind fun v =>
      (simpleCommand ts).map fun command =>
        { command with assignments := (name, v) :: command.assignments } := by
  rw [simpleCommand, h]

theorem simpleCommand_of_word (ts : List Token) (h : assignment w = none) :
    simpleCommand (.word w :: ts) =
      ((Token.word w :: ts).mapM argumentText).map fun words => ⟨[], words⟩ := by
  rw [simpleCommand, h]

/-- A command has the characters of its words. -/
theorem chars_simpleCommand (h : simpleCommand ts = some command) :
    ts.flatMap Token.chars = command.chars := by
  induction ts generalizing command with
  | nil =>
    obtain rfl := Option.some.inj h
    rfl
  | cons t ts ih =>
    cases t with
    | operator c => cases h
    | word w =>
      cases hassign : assignment w with
      | none =>
        rw [simpleCommand_of_word ts hassign] at h
        obtain ⟨words, hwords, rfl⟩ := Option.map_eq_some_iff.mp h
        rw [chars_of_mapM hwords, SimpleCommand.chars, List.flatMap_nil, List.nil_append]
      | some a =>
        rw [simpleCommand_of_assignment ts hassign] at h
        obtain ⟨v, hv, h⟩ := Option.bind_eq_some_iff.mp h
        obtain ⟨rest, hrest, rfl⟩ := Option.map_eq_some_iff.mp h
        have htext : text w = a.1 ++ '=' :: v := by
          rw [text_of_assignment hassign, text_of_fixedValue hv]
        rw [List.flatMap_cons, ih hrest, SimpleCommand.chars, SimpleCommand.chars,
          List.flatMap_cons, List.append_assoc (a.1 ++ '=' :: v), ← htext]
        rfl

/-- The first word of a command with an assignment. -/
theorem text_of_simpleCommand {a : List Char × List Char} {as : List (List Char × List Char)}
    (h : simpleCommand (.word w :: ts) = some command) (ha : command.assignments = a :: as) :
    text w = a.1 ++ '=' :: a.2 := by
  cases hassign : assignment w with
  | none =>
    rw [simpleCommand_of_word ts hassign] at h
    obtain ⟨words, -, rfl⟩ := Option.map_eq_some_iff.mp h
    cases ha
  | some b =>
    rw [simpleCommand_of_assignment ts hassign] at h
    obtain ⟨v, hv, h⟩ := Option.bind_eq_some_iff.mp h
    obtain ⟨rest, -, rfl⟩ := Option.map_eq_some_iff.mp h
    obtain ⟨rfl, -⟩ := List.cons.inj ha
    rw [text_of_assignment hassign, text_of_fixedValue hv]

end Commands

/-- A word that nothing changes, at the end of a line. -/
structure PlainWord (cs : List Char) : Prop where
  nonempty : cs ≠ []
  uncommented : cs.head? ≠ some '#'
  bare : bareEnd cs = true
  tilde : hasTilde (endWord cs) = false
  pattern : hasPattern (endWord cs) = false

theorem plainWord_iff (cs : List Char) : PlainWord cs ↔
    cs ≠ [] ∧ cs.head? ≠ some '#' ∧ bareEnd cs = true ∧ hasTilde (endWord cs) = false ∧
      hasPattern (endWord cs) = false :=
  ⟨fun h => ⟨h.nonempty, h.uncommented, h.bare, h.tilde, h.pattern⟩,
    fun ⟨hne, hsharp, hbare, htilde, hpattern⟩ => ⟨hne, hsharp, hbare, htilde, hpattern⟩⟩

instance (cs : List Char) : Decidable (PlainWord cs) := decidable_of_iff' _ (plainWord_iff cs)

section LastWord

variable {cs : List Char} {ts us : List Token}

theorem fixedWord_eq_some_iff {w : Word} : fixedWord w = some cs ↔
    hasTilde w = false ∧ hasPattern w = false ∧ text w = cs := by
  unfold fixedWord
  split
  · next h =>
    refine iff_of_false (fun heq => nomatch heq) ?_
    rintro ⟨htilde, hpattern, -⟩
    rw [htilde, hpattern] at h
    cases h
  · next h =>
    rw [Bool.not_eq_true, Bool.or_eq_false_iff] at h
    rw [Option.some.injEq]
    exact ⟨fun heq => ⟨h.1, h.2, heq⟩, fun heq => heq.2.2⟩

/-- The tokens of one argument. -/
theorem mapM_eq_singleton_iff :
    ts.mapM argumentText = some [cs] ↔ ∃ w, ts = [.word w] ∧ fixedWord w = some cs := by
  constructor
  · intro h
    cases ts with
    | nil => cases h
    | cons t ts =>
      rw [List.mapM_cons] at h
      obtain ⟨word, hword, h⟩ := Option.bind_eq_some_iff.mp h
      obtain ⟨words, hwords, h⟩ := Option.bind_eq_some_iff.mp h
      obtain ⟨rfl, rfl⟩ := List.cons.inj (Option.some.inj h)
      cases t with
      | operator c => cases hword
      | word w =>
        cases ts with
        | nil => exact ⟨w, rfl, hword⟩
        | cons t ts =>
          rw [List.mapM_cons] at hwords
          obtain ⟨word, -, hwords⟩ := Option.bind_eq_some_iff.mp hwords
          obtain ⟨words, -, hwords⟩ := Option.bind_eq_some_iff.mp hwords
          cases hwords
  · rintro ⟨w, rfl, hw⟩
    have hword : argumentText (.word w) = some cs := hw
    rw [List.mapM_cons, hword]
    rfl

/-- A line is one word, the line itself, exactly if it is plain. -/
theorem lastWord_iff :
    (lex .blank cs).bind (·.mapM argumentText) = some [cs] ↔ PlainWord cs := by
  constructor
  · intro h
    obtain ⟨ts, hts, h⟩ := Option.bind_eq_some_iff.mp h
    obtain ⟨w, rfl, hw⟩ := mapM_eq_singleton_iff.mp h
    obtain ⟨htilde, hpattern, htext⟩ := fixedWord_eq_some_iff.mp hw
    have hweight : tokensWeight (fun _ => true) [.word w] = cs.countP fun _ => true := by
      rw [tokensWeight_word, weight, htext]
    have hplain := plainLine_of_weight (fun _ _ => rfl) (.inl rfl) hts
      (hweight.trans (Nat.zero_add _).symm)
    have hbare := bareEnd_of_plainLine hplain
    cases cs with
    | nil => cases hts
    | cons c cs =>
      have hsharp : c ≠ '#' := by
        rintro rfl
        obtain ⟨us, hus, heq⟩ := Option.map_eq_some_iff.mp hts
        have hle := weight_lex (p := fun _ => true) hus
        have htokens : us = [.word w] := heq
        rw [htokens, hweight, List.countP_cons_of_pos rfl] at hle
        change _ ≤ 0 + _ at hle
        omega
      rw [lex_blank_bareEnd hbare hsharp] at hts
      obtain ⟨hword, -⟩ := List.cons.inj (Option.some.inj hts)
      obtain rfl := Token.word.inj hword
      exact ⟨List.cons_ne_nil _ _, fun heq => hsharp (Option.some.inj heq), hbare, htilde, hpattern⟩
  · intro h
    obtain ⟨c, cs, rfl⟩ := List.exists_cons_of_ne_nil h.nonempty
    have hsharp : c ≠ '#' := fun heq => h.uncommented (congrArg some heq)
    rw [lex_blank_bareEnd h.bare hsharp, Option.bind_some, mapM_eq_singleton_iff]
    exact ⟨_, rfl, fixedWord_eq_some_iff.mpr ⟨h.tilde, h.pattern, text_endWord _⟩⟩

end LastWord

end ShellWords
