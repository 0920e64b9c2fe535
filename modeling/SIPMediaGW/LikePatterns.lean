import Mathlib.Data.List.Infix

/-! # Patterns of LIKE

`%` stands for any run of characters, `_` for any one, and a backslash takes the character after it
as it is. A text whose wildcards and backslashes are escaped matches itself only. -/
namespace LikePatterns

/-- `text.replace(c, new)` for one character. -/
def replace (c : Char) (new text : List Char) : List Char :=
  text.flatMap fun x => if x = c then new else [x]

inductive Token where
  | run
  | one
  | lit (c : Char)

def tokenOf (c : Char) : Token :=
  if c = '%' then .run else if c = '_' then .one else .lit c

/-- The tokens of a pattern; none when it ends with a lone backslash, which is an error. -/
def tokens : List Char → Option (List Token)
  | [] => some []
  | c :: cs =>
    if c = '\\' then
      match cs with
      | [] => none
      | x :: rest => (tokens rest).map (.lit x :: ·)
    else (tokens cs).map (tokenOf c :: ·)

def matchTokens : List Token → List Char → Bool
  | [], s => s.isEmpty
  | .run :: ts, s => s.tails.any fun t => matchTokens ts t
  | .one :: _, [] => false
  | .one :: ts, _ :: s => matchTokens ts s
  | .lit _ :: _, [] => false
  | .lit c :: ts, x :: s => x == c && matchTokens ts s

/-- `s LIKE pattern`. -/
def like (pattern s : List Char) : Option Bool := (tokens pattern).map fun ts => matchTokens ts s

def isMark (c : Char) : Bool := c == '\\' || c == '%' || c == '_'

def escapeChar (c : Char) : List Char := if isMark c then ['\\', c] else [c]

/-- Every mark after a backslash. -/
def escape (text : List Char) : List Char := text.flatMap escapeChar

/-- The pattern of the texts that contain a text. -/
def around (text : List Char) : List Char := '%' :: (escape text ++ ['%'])

section Patterns

variable {cs s : List Char}

/-- Backslashes first: those of the other marks are not escaped again. -/
theorem replace_marks (text : List Char) :
    replace '_' ['\\', '_'] (replace '%' ['\\', '%'] (replace '\\' ['\\', '\\'] text)) =
      escape text := by
  simp only [replace, escape, List.flatMap_assoc]
  congr 1
  funext c
  by_cases hbackslash : c = '\\'
  · subst hbackslash
    rfl
  · by_cases hpercent : c = '%'
    · subst hpercent
      rfl
    · by_cases hunderscore : c = '_'
      · subst hunderscore
        rfl
      · simp [escapeChar, isMark, hbackslash, hpercent, hunderscore]

theorem tokens_cons {c : Char} (h : c ≠ '\\') (cs : List Char) :
    tokens (c :: cs) = (tokens cs).map (tokenOf c :: ·) := by
  rw [tokens.eq_def]
  exact if_neg h

theorem tokens_escapeChar (c : Char) (rest : List Char) :
    tokens (escapeChar c ++ rest) = (tokens rest).map (.lit c :: ·) := by
  by_cases hc : isMark c = true
  · rw [escapeChar, if_pos hc]
    rfl
  · have hmarks : c ≠ '\\' ∧ c ≠ '%' ∧ c ≠ '_' := by
      rw [isMark, Bool.or_eq_true, Bool.or_eq_true, beq_iff_eq, beq_iff_eq, beq_iff_eq] at hc
      exact ⟨fun h => hc (.inl (.inl h)), fun h => hc (.inl (.inr h)), fun h => hc (.inr h)⟩
    have htoken : tokenOf c = .lit c := by
      rw [tokenOf, if_neg hmarks.2.1, if_neg hmarks.2.2]
    rw [escapeChar, if_neg hc, List.singleton_append, tokens_cons hmarks.1, htoken]

theorem tokens_escape (cs rest : List Char) :
    tokens (escape cs ++ rest) = (tokens rest).map (cs.map Token.lit ++ ·) := by
  induction cs with
  | nil =>
    change tokens rest = (tokens rest).map id
    rw [Option.map_id, id]
  | cons c cs ih =>
    rw [escape, List.flatMap_cons, List.append_assoc, ← escape, tokens_escapeChar, ih,
      Option.map_map]
    rfl

theorem matchTokens_run (s : List Char) : matchTokens [.run] s = true := by
  rw [matchTokens, List.any_eq_true]
  exact ⟨[], (List.mem_tails _ _).mpr s.nil_suffix, rfl⟩

theorem matchTokens_literals : matchTokens (cs.map Token.lit ++ [.run]) s = true ↔ cs <+: s := by
  induction cs generalizing s with
  | nil => exact iff_of_true (matchTokens_run s) s.nil_prefix
  | cons c cs ih =>
    cases s with
    | nil =>
      rw [List.prefix_nil]
      exact iff_of_false Bool.false_ne_true (List.cons_ne_nil c cs)
    | cons x s =>
      rw [List.map_cons, List.cons_append, matchTokens, Bool.and_eq_true, ih, beq_iff_eq,
        List.cons_prefix_cons]
      exact and_congr_left' eq_comm

/-- An escaped text with a run on both sides matches the texts that contain it. -/
theorem like_around (cs s : List Char) : like (around cs) s = some (decide (cs <:+: s)) := by
  have htokens : tokens (around cs) = some (.run :: (cs.map Token.lit ++ [.run])) := by
    rw [around, tokens_cons (by decide), tokens_escape]
    rfl
  rw [like, htokens, Option.map_some, Option.some_inj, Bool.eq_iff_iff, decide_eq_true_eq,
    matchTokens, List.any_eq_true, List.infix_iff_prefix_suffix]
  constructor
  · rintro ⟨t, ht, hmatch⟩
    exact ⟨t, matchTokens_literals.mp hmatch, (List.mem_tails _ _).mp ht⟩
  · rintro ⟨t, hprefix, hsuffix⟩
    exact ⟨t, (List.mem_tails _ _).mpr hsuffix, matchTokens_literals.mpr hprefix⟩

/-- A change of characters that keeps the marks, and makes none, goes through the escapes. -/
theorem map_around {f : Char → Char} (hkept : ∀ c, isMark c = true → f c = c)
    (hmade : ∀ c, isMark (f c) = isMark c) (text : List Char) :
    (around text).map f = around (text.map f) := by
  have hchar (c : Char) : (escapeChar c).map f = escapeChar (f c) := by
    rw [escapeChar, escapeChar, hmade]
    by_cases hc : isMark c = true
    · rw [if_pos hc, if_pos hc, List.map_cons, List.map_singleton, hkept '\\' rfl]
    · rw [if_neg hc, if_neg hc, List.map_singleton]
  rw [around, around, List.map_cons, List.map_append, List.map_singleton, hkept '%' rfl, escape,
    escape, List.map_flatMap, List.flatMap_map]
  simp only [hchar]

end Patterns

end LikePatterns
