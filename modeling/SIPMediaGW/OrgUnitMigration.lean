import SIPMediaGW.OrgUnitRules

/-! # From rules v1 to rules v2

Rules v1 have three fields and no position: the first match in the order of priority, length
and id decides. The statements of the migration run one after the other, so the positions are
numbered over rules already rewritten. -/
namespace OrgUnitMigration

open OrgUnitRules
open OrderedQuery

/-- One `UPDATE` that touches neither the ids nor the entities. -/
def Rulebook.update (book : Rulebook) (f : Rule → Rule) (hid : ∀ r, (f r).id = r.id) :
    Rulebook where
  units := book.units
  rules := book.rules.map f
  codes := book.codes
  ids := by
    have hmap : (book.rules.map f).map Rule.id = book.rules.map Rule.id := by
      rw [List.map_map]
      exact List.map_congr_left fun r _ => hid r
    rw [hmap]
    exact book.ids

def renameField (old new : Field) (r : Rule) : Rule :=
  if r.field = old then { r with field := new } else r

/-- A domain prefix meant that domain: a suffix of the URI behind its `@`. -/
def rewriteDomain (r : Rule) : Rule :=
  if r.field = .domain ∧ r.matchType = .prefixMatch then
    { r with field := .uri, matchType := .suffixMatch, pattern := "@" ++ r.pattern }
  else r

/-- The four updates of the fields, on one rule. -/
def rewrite (r : Rule) : Rule :=
  renameField .domain .uri (rewriteDomain (renameField .name .callerAlias
    (renameField .number .uri r)))

/-- `CASE match_type WHEN 'prefix' THEN 0 ELSE 1 END`. -/
def typeRank : MatchType → ℕ
  | .prefixMatch => 0
  | _ => 1

/-- `priority DESC, CASE .. END DESC, length(pattern), id DESC`. -/
def numbering (r : Rule) : ℤᵒᵈ ×ₗ ℕᵒᵈ ×ₗ ℕ ×ₗ ℤᵒᵈ :=
  toLex (OrderDual.toDual r.priority, toLex (OrderDual.toDual (typeRank r.matchType),
    toLex (r.pattern.length, OrderDual.toDual r.id)))

/-- Positions are given once: not when a rule of the table has one. -/
def numberPosition (rules : List Rule) (r : Rule) : Rule :=
  if r.position = none ∧ ∀ s ∈ rules, s.position = none then
    { r with position := some (rowNumber numbering rules r : ℤ) }
  else r

theorem renameField_id (old new : Field) (r : Rule) : (renameField old new r).id = r.id := by
  unfold renameField
  split <;> rfl

theorem rewriteDomain_id (r : Rule) : (rewriteDomain r).id = r.id := by
  unfold rewriteDomain
  split <;> rfl

theorem numberPosition_id (rules : List Rule) (r : Rule) :
    (numberPosition rules r).id = r.id := by
  unfold numberPosition
  split <;> rfl

/-- The statements of the migration, in their order. -/
def migrate (book : Rulebook) : Rulebook :=
  let book := Rulebook.update book (renameField .number .uri) (renameField_id _ _)
  let book := Rulebook.update book (renameField .name .callerAlias) (renameField_id _ _)
  let book := Rulebook.update book rewriteDomain rewriteDomain_id
  let book := Rulebook.update book (renameField .domain .uri) (renameField_id _ _)
  Rulebook.update book (numberPosition book.rules) (numberPosition_id _)

/-- A caller `user@domain` with the alias it shows, if any. -/
structure Caller where
  user : String
  domain : String
  callerAlias : Option String
  user_no_at : '@' ∉ user.toList
  domain_no_at : '@' ∉ domain.toList

def Caller.uri (c : Caller) : String := c.user ++ "@" ++ c.domain

/-- Rules v1 as the migration finds them. -/
structure V1Rulebook extends Rulebook where
  fields : ∀ r ∈ rules, r.field = .number ∨ r.field = .name ∨ r.field = .domain
  prefixes : ∀ r ∈ rules, r.matchType = .prefixMatch
  unplaced : ∀ r ∈ rules, r.position = none
  numbers_no_at : ∀ r ∈ rules, r.field = .number → '@' ∉ r.pattern.toList

section V1

variable (pg : Postgres) (book : V1Rulebook) (c : Caller)

/-- A number begins the user part, a name the alias, and a domain is the domain. -/
def v1Matches (r : Rule) : Bool :=
  match r.field with
  | .number => (pg.lowered r.pattern).isPrefixOf (pg.lowered c.user)
  | .name => c.callerAlias.any fun name => (pg.lowered r.pattern).isPrefixOf (pg.lowered name)
  | .domain => decide (pg.lowered c.domain = pg.lowered r.pattern)
  | _ => false

/-- The rules in force for a caller: active, of an active entity, and matching. -/
def v1Candidates : List Rule :=
  book.rules.filter fun r =>
    decide (book.unitActive r = some true ∧ r.active = true) && v1Matches pg c r

/-- Lowest priority, longest pattern, lowest id. -/
def v1Order (r : Rule) : ℤ ×ₗ ℕᵒᵈ ×ₗ ℤ :=
  toLex (r.priority, toLex (OrderDual.toDual r.pattern.length, r.id))

def v1Decides : Option String :=
  (orderBy v1Order (v1Candidates pg book c)).head?.map Rule.orgUnitCode

def migratedResolve : Option (Option String) :=
  resolveOrgUnit pg (migrate book.toRulebook) (some c.uri) c.callerAlias

/-- The order the numbered positions follow, on the rules they come from: at one priority a
number or a name stands before every domain. -/
def v2Order (r : Rule) : ℤ ×ₗ ℕ ×ₗ ℕᵒᵈ ×ₗ ℤ :=
  toLex (r.priority, toLex (if r.field = .domain then 1 else 0,
    toLex (OrderDual.toDual r.pattern.length, r.id)))

/-- The rule `rewrite` leaves, with its place. -/
def placed (r : Rule) : Rule := numberPosition (book.rules.map rewrite) (rewrite r)

end V1

section Text

variable {pg : Postgres}

theorem right_eq_iff {s t : List Char} {n : ℕ} (hn : t.length = n) :
    right s n = t ↔ t <:+ s := by
  constructor
  · intro h
    rw [← h]
    exact List.drop_suffix _ _
  · rintro ⟨u, rfl⟩
    have hlen : (u ++ t).length - n = u.length := by
      rw [List.length_append]
      omega
    rw [right, hlen]
    simp

@[simp] theorem length_lowered (pg : Postgres) (s : String) :
    (pg.lowered s).length = s.length := by
  simp [Postgres.lowered, String.length_toList]

theorem lowered_append (pg : Postgres) (s t : String) :
    pg.lowered (s ++ t) = pg.lowered s ++ pg.lowered t := by
  simp [Postgres.lowered]

theorem lowered_at (pg : Postgres) : pg.lowered "@" = ['@'] := by
  have hat : pg.lower '@' = '@' := (pg.lower_at _).mpr rfl
  simp [Postgres.lowered, hat]

theorem at_not_mem_lowered {s : String} (h : '@' ∉ s.toList) : '@' ∉ pg.lowered s := by
  intro hmem
  obtain ⟨c, hc, hlow⟩ := List.mem_map.mp hmem
  rw [pg.lower_at] at hlow
  exact h (hlow ▸ hc)

theorem lowered_uri (pg : Postgres) (c : Caller) :
    pg.lowered c.uri = pg.lowered c.user ++ '@' :: pg.lowered c.domain := by
  simp [Caller.uri, lowered_append, lowered_at]

/-- Without an `@` of its own, a pattern begins the URI where it begins the user part. -/
theorem isPrefixOf_uri {c : Caller} {pattern : String} (h : '@' ∉ pattern.toList) :
    (pg.lowered pattern).isPrefixOf (pg.lowered c.uri) =
      (pg.lowered pattern).isPrefixOf (pg.lowered c.user) := by
  rw [Bool.eq_iff_iff, List.isPrefixOf_iff_prefix, List.isPrefixOf_iff_prefix, lowered_uri]
  constructor
  · rintro ⟨rest, hrest⟩
    rcases List.append_eq_append_iff.mp hrest with ⟨u, hu, -⟩ | ⟨u, hu, hrest⟩
    · exact ⟨u, hu.symm⟩
    · cases u with
      | nil => exact ⟨[], by simpa using hu⟩
      | cons a u =>
        obtain ⟨rfl, -⟩ := List.cons.inj hrest
        have hmem : '@' ∈ pg.lowered pattern := by
          rw [hu]
          simp
        exact absurd hmem (at_not_mem_lowered h)
  · rintro ⟨rest, hrest⟩
    exact ⟨rest ++ '@' :: pg.lowered c.domain, by rw [← hrest]; simp⟩

/-- A suffix of the URI behind its only `@` is the domain. -/
theorem suffix_uri {c : Caller} {pattern : String} :
    pg.lowered ("@" ++ pattern) <:+ pg.lowered c.uri ↔
      pg.lowered c.domain = pg.lowered pattern := by
  have huser : '@' ∉ pg.lowered c.user := at_not_mem_lowered c.user_no_at
  have hdomain : '@' ∉ pg.lowered c.domain := at_not_mem_lowered c.domain_no_at
  rw [lowered_append, lowered_at, lowered_uri]
  constructor
  · rintro ⟨rest, hrest⟩
    exact ((List.append_cons_inj_of_notMem huser hdomain).mp hrest.symm).2.2
  · intro h
    exact ⟨pg.lowered c.user, by rw [h]; rfl⟩

end Text

section Rewriting

variable {pg : Postgres} {book : V1Rulebook} {c : Caller} {r s : Rule}

theorem migrate_rules (book : V1Rulebook) :
    (migrate book.toRulebook).rules = book.rules.map (placed book) := by
  simp only [migrate, Rulebook.update, List.map_map]
  rfl

theorem rewrite_id (r : Rule) : (rewrite r).id = r.id := by
  simp only [rewrite, renameField_id, rewriteDomain_id]

theorem rewrite_number (h : r.field = .number) : rewrite r = { r with field := .uri } := by
  simp [rewrite, renameField, rewriteDomain, h]

theorem rewrite_name (h : r.field = .name) : rewrite r = { r with field := .callerAlias } := by
  simp [rewrite, renameField, rewriteDomain, h]

theorem rewrite_domain (h : r.field = .domain) (ht : r.matchType = .prefixMatch) :
    rewrite r =
      { r with field := .uri, matchType := .suffixMatch, pattern := "@" ++ r.pattern } := by
  simp [rewrite, renameField, rewriteDomain, h, ht]

theorem rewrite_position (r : Rule) : (rewrite r).position = r.position := by
  simp only [rewrite, renameField, rewriteDomain]
  split_ifs <;> rfl

theorem placed_eq (hr : r ∈ book.rules) :
    placed book r =
      { rewrite r with
        position := some (rowNumber numbering (book.rules.map rewrite) (rewrite r) : ℤ) } := by
  have hnone : ∀ s ∈ book.rules.map rewrite, s.position = none := by
    intro s hs
    obtain ⟨t, ht, rfl⟩ := List.mem_map.mp hs
    rw [rewrite_position]
    exact book.unplaced t ht
  have hown := hnone _ (List.mem_map_of_mem hr)
  simp only [placed, numberPosition]
  rw [if_pos ⟨hown, hnone⟩]

theorem rewrite_kept (r : Rule) :
    (rewrite r).orgUnitCode = r.orgUnitCode ∧ (rewrite r).active = r.active ∧
      (rewrite r).priority = r.priority := by
  simp only [rewrite, renameField, rewriteDomain]
  split_ifs <;> exact ⟨rfl, rfl, rfl⟩

theorem placed_kept (hr : r ∈ book.rules) :
    (placed book r).orgUnitCode = r.orgUnitCode ∧ (placed book r).active = r.active := by
  rw [placed_eq hr]
  exact ⟨(rewrite_kept r).1, (rewrite_kept r).2.1⟩

/-- The migration changes what a rule reads, not which callers it matches. -/
theorem matched_placed (hr : r ∈ book.rules) :
    matched pg (some c.uri) c.callerAlias (placed book r) = v1Matches pg c r := by
  have htype := book.prefixes r hr
  rw [placed_eq hr]
  rcases book.fields r hr with h | h | h
  · rw [rewrite_number h]
    simp only [matched, ruleMatches, orgUnitValue, orgUnitRuleMatches, htype, Option.getD_some,
      v1Matches, h]
    exact isPrefixOf_uri (book.numbers_no_at r hr h)
  · rw [rewrite_name h]
    simp only [matched, ruleMatches, orgUnitValue, orgUnitRuleMatches, htype, v1Matches, h]
    cases c.callerAlias <;> rfl
  · rw [rewrite_domain h htype]
    simp only [matched, ruleMatches, orgUnitValue, orgUnitRuleMatches, Option.getD_some,
      v1Matches, h]
    rw [decide_eq_decide, right_eq_iff (length_lowered _ _)]
    exact suffix_uri

theorem deciding_migrate :
    (migrate book.toRulebook).deciding pg (some c.uri) c.callerAlias =
      (v1Candidates pg book c).map (placed book) := by
  simp only [Rulebook.deciding, v1Candidates, migrate_rules, List.filter_map]
  congr 1
  apply List.filter_congr
  intro r hr
  have hkept := placed_kept hr
  have hunit : (migrate book.toRulebook).unitActive (placed book r) = book.unitActive r := by
    simp only [Rulebook.unitActive, hkept.1]
    rfl
  simp only [Function.comp_apply, hunit, hkept.2, matched_placed hr]

theorem numbering_unique (book : V1Rulebook) :
    KeyUnique numbering (book.rules.map rewrite) := by
  apply KeyUnique.of_nodup
  · rw [List.map_map, show Rule.id ∘ rewrite = Rule.id from funext rewrite_id]
    exact book.ids
  · intro a b h
    exact OrderDual.toDual_inj.mp (congrArg (fun k => (ofLex (ofLex (ofLex k).2).2).2) h)

theorem rewrite_inj (hr : r ∈ book.rules) (hs : s ∈ book.rules) (h : rewrite r = rewrite s) :
    r = s := by
  have hid := congrArg Rule.id h
  rw [rewrite_id, rewrite_id] at hid
  exact List.inj_on_of_nodup_map book.ids hr hs hid

/-- Places follow the numbering. -/
theorem evaluation_placed (hr : r ∈ book.rules) (hs : s ∈ book.rules) :
    evaluation (placed book r) ≤ evaluation (placed book s) ↔
      numbering (rewrite r) ≤ numbering (rewrite s) := by
  have hr' := List.mem_map_of_mem (f := rewrite) hr
  have hs' := List.mem_map_of_mem (f := rewrite) hs
  have hlt := rowNumber_lt_iff (numbering_unique book) hr' hs'
  have hgt := rowNumber_lt_iff (numbering_unique book) hs' hr'
  have hpos : ∀ m n : ℕ, ((m : ℤ) : WithBot ℤ) < ((n : ℤ) : WithBot ℤ) ↔ m < n :=
    fun m n => WithBot.coe_lt_coe.trans Int.ofNat_lt
  rw [placed_eq hr, placed_eq hs]
  simp only [evaluation, Prod.Lex.toLex_le_toLex]
  constructor
  · rintro (h | ⟨h, -⟩)
    · exact le_of_lt (hlt.mp ((hpos _ _).mp h))
    · apply le_of_not_gt
      intro hnot
      have hsame := Int.ofNat_inj.mp (Option.some.inj h)
      have hrow := hgt.mpr hnot
      omega
  · intro h
    rcases lt_or_eq_of_le h with h | h
    · exact Or.inl ((hpos _ _).mpr (hlt.mpr h))
    · obtain rfl := rewrite_inj hr hs (numbering_unique book _ hr' _ hs' h)
      exact Or.inr ⟨rfl, le_refl _⟩

/-- The numbering read on the rules before the migration. -/
theorem numbering_le (hr : r ∈ book.rules) (hs : s ∈ book.rules) :
    numbering (rewrite s) ≤ numbering (rewrite r) ↔ v2Order r ≤ v2Order s := by
  have hcol : ∀ t ∈ book.rules,
      typeRank (rewrite t).matchType = (if t.field = .domain then 1 else 0) ∧
      (rewrite t).pattern.length = t.pattern.length + (if t.field = .domain then 1 else 0) := by
    intro t ht
    rcases book.fields t ht with h | h | h
    · rw [rewrite_number h]
      simp [book.prefixes t ht, typeRank, h]
    · rw [rewrite_name h]
      simp [book.prefixes t ht, typeRank, h]
    · rw [rewrite_domain h (book.prefixes t ht)]
      simp [typeRank, h, Nat.add_comm, show "@".length = 1 from rfl]
  obtain ⟨hrank, hlen⟩ := hcol r hr
  obtain ⟨hrank', hlen'⟩ := hcol s hs
  simp only [numbering, v2Order, Prod.Lex.toLex_le_toLex, OrderDual.toDual_le_toDual,
    OrderDual.toDual_lt_toDual, OrderDual.toDual_inj, hrank, hrank', hlen, hlen',
    (rewrite_kept r).2.2, (rewrite_kept s).2.2, rewrite_id]
  generalize (if r.field = .domain then 1 else 0) = x
  generalize (if s.field = .domain then 1 else 0) = y
  omega

end Rewriting

/-- A domain decided, and a number or a name of its priority, the first of those, gives
another entity. -/
def Displaced (pg : Postgres) (book : V1Rulebook) (c : Caller) : Prop :=
  ∃ d n, First v1Order (v1Candidates pg book c) d ∧ d.field = .domain ∧
    First v1Order ((v1Candidates pg book c).filter fun r =>
      decide (r.field ≠ .domain ∧ r.priority = d.priority)) n ∧
    n.orgUnitCode ≠ d.orgUnitCode

section Deciding

variable {pg : Postgres} {book : V1Rulebook} {c : Caller} {d n r s w t : Rule}

theorem v1Order_inj (hr : r ∈ book.rules) (hs : s ∈ book.rules) (h : v1Order r = v1Order s) :
    r = s :=
  List.inj_on_of_nodup_map book.ids hr hs (congrArg (fun k => (ofLex (ofLex k).2).2) h)

theorem mem_rules (h : r ∈ v1Candidates pg book c) : r ∈ book.rules := List.mem_of_mem_filter h

theorem v1Decides_eq (h : First v1Order (v1Candidates pg book c) w) :
    v1Decides pg book c = some w.orgUnitCode := by
  have hunique : KeyUnique v1Order (v1Candidates pg book c) :=
    fun a ha b hb hk => v1Order_inj (mem_rules ha) (mem_rules hb) hk
  rw [v1Decides, (head?_orderBy_eq_some hunique).mpr h]
  rfl

theorem noRunTimeError_migrate (pg : Postgres) (book : V1Rulebook) :
    NoRunTimeError pg (migrate book.toRulebook) := by
  intro s hs htype
  rw [migrate_rules] at hs
  obtain ⟨r, hr, rfl⟩ := List.mem_map.mp hs
  have hliteral := book.prefixes r hr
  rw [placed_eq hr] at htype
  rcases book.fields r hr with h | h | h
  · rw [rewrite_number h] at htype
    exact absurd (hliteral.symm.trans htype) (by decide)
  · rw [rewrite_name h] at htype
    exact absurd (hliteral.symm.trans htype) (by decide)
  · rw [rewrite_domain h hliteral] at htype
    cases htype

/-- After the migration the first rule of `v2Order` decides. -/
theorem migratedResolve_eq (h : First v2Order (v1Candidates pg book c) t) :
    migratedResolve pg book c = some (some t.orgUnitCode) := by
  have htop : Top evaluation
      ((migrate book.toRulebook).deciding pg (some c.uri) c.callerAlias) (placed book t) := by
    rw [deciding_migrate]
    constructor
    · exact List.mem_map_of_mem h.mem
    · intro s hs
      obtain ⟨r, hr, rfl⟩ := List.mem_map.mp hs
      rw [evaluation_placed (mem_rules hr) (mem_rules h.mem),
        numbering_le (mem_rules h.mem) (mem_rules hr)]
      exact h.le r hr
  rw [migratedResolve, resolveOrgUnit_some (noRunTimeError_migrate pg book) htop,
    (placed_kept (mem_rules h.mem)).1]

theorem migratedResolve_none (h : v1Candidates pg book c = []) :
    migratedResolve pg book c = some none := by
  apply resolveOrgUnit_none (noRunTimeError_migrate pg book)
  rw [deciding_migrate, h]
  rfl

theorem v1Order_le : v1Order r ≤ v1Order s ↔
    r.priority < s.priority ∨ r.priority = s.priority ∧
      (s.pattern.length < r.pattern.length ∨
        r.pattern.length = s.pattern.length ∧ r.id ≤ s.id) := by
  simp only [v1Order, Prod.Lex.toLex_le_toLex, OrderDual.toDual_lt_toDual, OrderDual.toDual_inj]

theorem v2Order_le : v2Order r ≤ v2Order s ↔
    r.priority < s.priority ∨ r.priority = s.priority ∧
      (r.field ≠ .domain ∧ s.field = .domain ∨
        (r.field = .domain ↔ s.field = .domain) ∧ v1Order r ≤ v1Order s) := by
  rw [v1Order_le]
  simp only [v2Order, Prod.Lex.toLex_le_toLex, OrderDual.toDual_lt_toDual, OrderDual.toDual_inj]
  by_cases hr : r.field = .domain <;> by_cases hs : s.field = .domain <;> simp [hr, hs] <;> omega

/-- A displaced domain: the number or the name decides after the migration. -/
theorem first_v2_of_displaced (hd : First v1Order (v1Candidates pg book c) d)
    (hn : First v1Order ((v1Candidates pg book c).filter fun r =>
      decide (r.field ≠ .domain ∧ r.priority = d.priority)) n) :
    First v2Order (v1Candidates pg book c) n := by
  obtain ⟨hmem, hfield⟩ := List.mem_filter.mp hn.mem
  obtain ⟨hfield, hpriority⟩ := of_decide_eq_true hfield
  constructor
  · exact hmem
  · intro m hm
    rw [v2Order_le]
    rcases v1Order_le.mp (hd.le m hm) with hlt | ⟨heq, -⟩
    · exact Or.inl (by omega)
    · right
      refine ⟨hpriority.trans heq, ?_⟩
      by_cases hdm : m.field = .domain
      · exact Or.inl ⟨hfield, hdm⟩
      · have hkept : m ∈ (v1Candidates pg book c).filter fun r =>
            decide (r.field ≠ .domain ∧ r.priority = d.priority) :=
          List.mem_filter.mpr ⟨hm, decide_eq_true ⟨hdm, heq.symm⟩⟩
        exact Or.inr ⟨iff_of_false hfield hdm, hn.le m hkept⟩

/-- When the two orders begin with different rules, a domain stands behind a prefix. -/
theorem displaced_of_ne (hw : First v1Order (v1Candidates pg book c) w)
    (ht : First v2Order (v1Candidates pg book c) t) (hne : t.orgUnitCode ≠ w.orgUnitCode) :
    Displaced pg book c := by
  have hback := hw.le t ht.mem
  have hnot : ¬ v1Order t ≤ v1Order w := by
    intro hle
    have hsame := v1Order_inj (mem_rules hw.mem) (mem_rules ht.mem) (le_antisymm hback hle)
    exact hne (by rw [hsame])
  have hpriority : t.priority = w.priority := by
    have h1 := v2Order_le.mp (ht.le w hw.mem)
    have h2 := v1Order_le.mp hback
    omega
  obtain ⟨htf, hwf⟩ : t.field ≠ .domain ∧ w.field = .domain := by
    rcases v2Order_le.mp (ht.le w hw.mem) with hlt | ⟨-, hcase | ⟨-, hle⟩⟩
    · omega
    · exact hcase
    · exact absurd hle hnot
  refine ⟨w, t, hw, hwf, ⟨?_, ?_⟩, hne⟩
  · exact List.mem_filter.mpr ⟨ht.mem, decide_eq_true ⟨htf, hpriority⟩⟩
  · intro m hm
    obtain ⟨hmem, hm⟩ := List.mem_filter.mp hm
    obtain ⟨hmf, hmp⟩ := of_decide_eq_true hm
    rcases v2Order_le.mp (ht.le m hmem) with hlt | ⟨-, ⟨-, hmd⟩ | ⟨-, hle⟩⟩
    · omega
    · exact absurd hmd hmf
    · exact hle

/-- The migration keeps what rules v1 decided for a caller exactly when no domain is
displaced. -/
theorem migration_preserves_iff (pg : Postgres) (book : V1Rulebook) (c : Caller) :
    migratedResolve pg book c = some (v1Decides pg book c) ↔ ¬ Displaced pg book c := by
  by_cases hnil : v1Candidates pg book c = []
  · have hnone : v1Decides pg book c = none := by
      rw [v1Decides, hnil]
      rfl
    rw [migratedResolve_none hnil, hnone]
    refine iff_of_true rfl ?_
    rintro ⟨d, n, hd, -⟩
    have hmem := hd.mem
    rw [hnil] at hmem
    cases hmem
  · obtain ⟨w, hw⟩ := exists_first v1Order hnil
    obtain ⟨t, ht⟩ := exists_first v2Order hnil
    rw [migratedResolve_eq ht, v1Decides_eq hw]
    constructor
    · rintro hsame ⟨d, n, hd, -, hn, hne⟩
      have hunique : KeyUnique v1Order (v1Candidates pg book c) :=
        fun a ha b hb hk => v1Order_inj (mem_rules ha) (mem_rules hb) hk
      obtain rfl := hd.unique hunique hw
      have hmigrated := migratedResolve_eq (first_v2_of_displaced hd hn)
      rw [migratedResolve_eq ht, hsame] at hmigrated
      exact hne (Option.some.inj (Option.some.inj hmigrated)).symm
    · intro hkept
      by_contra hne
      exact hkept (displaced_of_ne hw ht fun hsame => hne (by rw [hsame]))

end Deciding

/-- At the default priority, a number and a domain, the longer. -/
def defaultRules : V1Rulebook where
  units := [⟨"HALL", true⟩, ⟨"LAB", true⟩]
  rules :=
    [⟨1, "HALL", .number, .prefixMatch, "21", 100, true, none⟩,
      ⟨2, "LAB", .domain, .prefixMatch, "sample.org", 100, true, none⟩]
  codes := by decide
  ids := by decide
  fields := by decide
  prefixes := by decide
  unplaced := by decide
  numbers_no_at := by decide

def room2134 : Caller := ⟨"2134", "sample.org", none, by decide, by decide⟩

theorem migration_moves_domain :
    ¬ ∀ (pg : Postgres) (book : V1Rulebook) (c : Caller),
      migratedResolve pg book c = some (v1Decides pg book c) := by
  intro h
  have hv1 : v1Decides plainPostgres defaultRules room2134 = some "LAB" := by decide +kernel
  have hv2 : migratedResolve plainPostgres defaultRules room2134 = some (some "HALL") := by
    decide +kernel
  have hsame := h plainPostgres defaultRules room2134
  rw [hv1, hv2] at hsame
  exact absurd hsame (by decide)

end OrgUnitMigration
