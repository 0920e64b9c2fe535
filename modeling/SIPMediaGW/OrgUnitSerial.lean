import SIPMediaGW.OrgUnitResolution

/-! # Requests that do not overlap

What a request checks is only as good as what happens before its write. One request after the
other, the checks hold: no two rules are the same up to case, places are distinct, and a posted
order is the order of evaluation. -/
namespace OrgUnitSerial

open InterleavedStatements
open OrderedQuery
open OrgUnitAudit hiding knownUnit
open OrgUnitConsole
open OrgUnitResolution
open OrgUnitRules

/-- What two rules share that are the same up to case. -/
def twinKey (pg : Postgres) (r : RuleRow) : Field × MatchType × List Char :=
  (r.field, r.matchType, pg.lowered r.pattern)

structure Tidy (pg : Postgres) (t : Tables) : Prop where
  twins : (t.rules.map (twinKey pg)).Nodup
  placed : ∀ r ∈ t.rules, r.position ≠ none
  places : (t.rules.map fun r => r.position).Nodup

section Lists

variable {α κ : Type} {key : α → κ} {l : List α} {f : α → α} {p : α → Prop} [DecidablePred p]

theorem nodup_append_row {a : α} (h : (l.map key).Nodup) (ha : ∀ b ∈ l, key b ≠ key a) :
    ((l ++ [a]).map key).Nodup := by
  rw [List.map_append, List.map_singleton, List.nodup_append]
  refine ⟨h, List.nodup_singleton _, ?_⟩
  intro x hx y hy
  obtain ⟨b, hb, rfl⟩ := List.mem_map.mp hx
  rw [List.mem_singleton.mp hy]
  exact ha b hb

/-- One row gets a key that no other row has. -/
theorem nodup_map_ite (h : (l.map key).Nodup)
    (hone : ∀ a ∈ l, ∀ b ∈ l, p a → p b → key a = key b)
    (hfresh : ∀ a ∈ l, ∀ b ∈ l, p a → ¬ p b → key b ≠ key (f a)) :
    ((l.map fun a => if p a then f a else a).map key).Nodup := by
  rw [List.map_map]
  refine List.Nodup.map_on ?_ h.of_map
  intro a ha b hb hab
  have hinj : ∀ a ∈ l, ∀ b ∈ l, key a = key b → a = b := fun a ha b hb =>
    List.inj_on_of_nodup_map h ha hb
  simp only [Function.comp_apply] at hab
  by_cases hpa : p a
  · by_cases hpb : p b
    · exact hinj a ha b hb (hone a ha b hb hpa hpb)
    · rw [if_pos hpa, if_neg hpb] at hab
      exact absurd hab.symm (hfresh a ha b hb hpa hpb)
  · by_cases hpb : p b
    · rw [if_neg hpa, if_pos hpb] at hab
      exact absurd hab (hfresh b hb a ha hpb hpa)
    · rw [if_neg hpa, if_neg hpb] at hab
      exact hinj a ha b hb hab

end Lists

section Orders

variable {ids : List ℤ} {user : String} {r : RuleRow}

theorem position_placed (h : r.id ∈ ids) :
    (placed ids user r).position = some (ids.idxOf r.id + 1 : ℤ) := by
  have hplace : ordinality ids r.id = some (ids.idxOf r.id + 1 : ℤ) := if_pos h
  unfold placed
  rw [hplace]
  simp only
  split
  · rename_i hsame
    exact hsame
  · rfl

@[simp] theorem id_placed : (placed ids user r).id = r.id := by
  unfold placed
  split
  · rfl
  · split <;> rfl

theorem twinKey_placed (pg : Postgres) : twinKey pg (placed ids user r) = twinKey pg r := by
  unfold placed
  split
  · rfl
  · split <;> rfl

/-- The two sorted lists say that the posted list is the whole list. -/
theorem perm_of_sorted {current : List ℤ}
    (h : ids.insertionSort (· ≤ ·) = current.insertionSort (· ≤ ·)) : ids.Perm current := by
  have hids := List.perm_insertionSort (· ≤ ·) ids
  rw [h] at hids
  exact hids.symm.trans (List.perm_insertionSort (· ≤ ·) current)

theorem currentOrder_perm (rules : List RuleRow) :
    (currentOrder rules).Perm (rules.map fun r => r.id) := by
  exact (orderBy_perm _ rules).map _

/-- Rules at the places of a list are evaluated in the order of the list. -/
theorem currentOrder_placed {rules : List RuleRow} (hids : (rules.map fun r => r.id).Nodup)
    (hperm : ids.Perm (rules.map fun r => r.id)) :
    currentOrder (rules.map (placed ids user)) = ids := by
  have hnodup : ids.Nodup := hperm.nodup_iff.mpr hids
  have hmap : (rules.map (placed ids user)).map (fun r => r.id) = rules.map fun r => r.id := by
    rw [List.map_map]
    exact List.map_congr_left fun r _ => id_placed
  have hsorted := pairwise_orderBy (fun r : RuleRow => evaluation r.toRule)
    (rules.map (placed ids user))
  have hidx : ((orderBy (fun r : RuleRow => evaluation r.toRule)
      (rules.map (placed ids user))).map fun r => r.id).Pairwise
        fun a b => ids.idxOf a ≤ ids.idxOf b := by
    rw [List.pairwise_map]
    refine hsorted.imp_of_mem ?_
    intro a b ha hb hab
    obtain ⟨r, hr, rfl⟩ := List.mem_map.mp (mem_orderBy.mp ha)
    obtain ⟨q, hq, rfl⟩ := List.mem_map.mp (mem_orderBy.mp hb)
    have hrid : r.id ∈ ids := hperm.mem_iff.mpr (List.mem_map_of_mem hr)
    have hqid : q.id ∈ ids := hperm.mem_iff.mpr (List.mem_map_of_mem hq)
    rw [evaluation, evaluation, position_placed hrid, position_placed hqid,
      Prod.Lex.toLex_le_toLex] at hab
    simp only [id_placed] at hab ⊢
    rcases hab with hlt | ⟨heq, -⟩
    · have := WithBot.coe_lt_coe.mp hlt
      omega
    · have := Option.some.inj heq
      omega
  refine List.Perm.eq_of_pairwise ?_ hidx ?_ (((currentOrder_perm _).trans ?_).trans hperm.symm)
  · intro a b _ hb hab hba
    have hmem : b ∈ ids := hb
    have hidxeq : ids.idxOf a = ids.idxOf b := le_antisymm hab hba
    exact (List.idxOf_inj (by
      by_contra hnot
      rw [List.idxOf_eq_length hnot] at hidxeq
      have := List.idxOf_lt_length_iff.mpr hmem
      omega)).mp hidxeq
  · rw [List.pairwise_iff_getElem]
    intro i j hi hj hij
    rw [hnodup.idxOf_getElem, hnodup.idxOf_getElem]
    omega
  · rw [hmap]

end Orders

section Requests

variable {pg : Postgres} {py : Python} {α : Type} {db : Database} {w : Written α}

theorem tidy_commit (h : Tidy pg db.toTables) (hw : Tidy pg w.tables) :
    Tidy pg (db.commit w).toTables := by
  rcases commit_cases db w with ⟨-, htables⟩ | ⟨-, htables⟩
  · rwa [htables]
  · rwa [htables]

/-- A request that leaves the rules as they are. -/
theorem tidy_of_rules {t t' : Tables} (h : Tidy pg t) (hrules : t'.rules = t.rules) :
    Tidy pg t' := by
  obtain ⟨twins, placed, places⟩ := h
  exact ⟨by rwa [hrules], by rwa [hrules], by rwa [hrules]⟩

theorem twinKey_ne_of_sameRule {rule : CheckedRule} {exceptId : Option ℤ} {r : RuleRow}
    (new : RuleRow)
    (hnew : new.field = rule.field ∧ new.matchType = rule.matchType ∧ new.pattern = rule.pattern)
    (hexcept : some r.id ≠ exceptId) (h : sameRule pg rule exceptId r = false) :
    twinKey pg r ≠ twinKey pg new := by
  intro heq
  obtain ⟨hfield, hmatch, hpattern⟩ := hnew
  simp only [twinKey, Prod.mk.injEq, hfield, hmatch, hpattern] at heq
  exact of_decide_eq_false h ⟨heq.1, heq.2.1, heq.2.2, hexcept⟩

theorem insertRule_tidy {unit user : String} {rule : CheckedRule} {active : Bool}
    (h : Tidy pg db.toTables) (halone : ∀ r ∈ db.rules, sameRule pg rule none r = false) :
    Tidy pg (insertRule unit rule active user db).tables where
  twins := by
    rw [insertRule_rules]
    exact nodup_append_row h.twins fun r hr =>
      twinKey_ne_of_sameRule (newRow unit rule active user db) ⟨rfl, rfl, rfl⟩
        (Option.some_ne_none _) (halone r hr)
  placed := by
    intro r hr
    rcases List.mem_append.mp hr with hr | hr
    · exact h.placed r hr
    · rw [List.mem_singleton.mp hr]
      exact fun h => nomatch h
  places := by
    rw [insertRule_rules]
    refine nodup_append_row h.places fun r hr heq => ?_
    have hle := le_lastPosition hr (show r.position = some (lastPosition db.rules + 1) from heq)
    omega

theorem updateRuleRow_tidy {id : ℤ} {unit user : String} {rule : CheckedRule} {active : Bool}
    (h : Tidy pg db.toTables) (halone : ∀ r ∈ db.rules, sameRule pg rule (some id) r = false) :
    Tidy pg (updateRuleRow id unit rule active user db).tables where
  twins := by
    refine nodup_map_ite h.twins ?_ ?_
    · intro a ha b hb hpa hpb
      have hab : a = b :=
        List.inj_on_of_nodup_map (f := fun r : RuleRow => r.id) db.valid.ids ha hb
          (hpa.trans hpb.symm)
      rw [hab]
    · intro a _ b hb _ hpb
      exact twinKey_ne_of_sameRule (rewritten unit rule active user a) ⟨rfl, rfl, rfl⟩
        (fun hsome => hpb (Option.some.inj hsome)) (halone b hb)
  placed := forall_map_ite h.placed fun _ _ hr => hr
  places := by
    have hsame : (updateRuleRow id unit rule active user db).tables.rules.map
        (fun r => r.position) = db.rules.map fun r => r.position := by
      simp only [updateRuleRow, List.map_map]
      apply List.map_congr_left
      intro r _
      simp only [Function.comp_apply]
      split <;> rfl
    rw [hsame]
    exact h.places

theorem deleteRuleRow_tidy {id : ℤ} {user : String} (h : Tidy pg db.toTables) :
    Tidy pg (deleteRuleRow id user db).tables where
  twins := (List.filter_sublist.map _).nodup h.twins
  placed r hr := h.placed r (List.mem_of_mem_filter hr)
  places := (List.filter_sublist.map _).nodup h.places

theorem placeRules_tidy {ids : List ℤ} {user : String} (h : Tidy pg db.toTables)
    (hperm : ids.Perm (db.rules.map fun r => r.id)) :
    Tidy pg (placeRules ids user db).tables where
  twins := by
    have hsame : (placeRules ids user db).tables.rules.map (twinKey pg) =
        db.rules.map (twinKey pg) := by
      simp only [placeRules, List.map_map]
      exact List.map_congr_left fun r _ => twinKey_placed pg
    rw [hsame]
    exact h.twins
  placed := by
    intro r hr
    obtain ⟨q, hq, rfl⟩ := List.mem_map.mp hr
    rw [position_placed (hperm.mem_iff.mpr (List.mem_map_of_mem hq))]
    exact Option.some_ne_none _
  places := by
    have hids : (db.rules.map fun r => r.id).Nodup := db.valid.ids
    simp only [placeRules, List.map_map]
    refine List.Nodup.map_on ?_ hids.of_map
    intro a ha b hb hab
    have hamem : a.id ∈ ids := hperm.mem_iff.mpr (List.mem_map_of_mem ha)
    have hbmem : b.id ∈ ids := hperm.mem_iff.mpr (List.mem_map_of_mem hb)
    simp only [Function.comp_apply, position_placed hamem, position_placed hbmem] at hab
    have hidx : ids.idxOf a.id = ids.idxOf b.id := by
      have := Option.some.inj hab
      omega
    exact List.inj_on_of_nodup_map (f := fun r : RuleRow => r.id) hids ha hb
      ((List.idxOf_inj hamem).mp hidx)

theorem run_execute (write : Database → Written α) (answered : List α → Answer) (db : Database) :
    ((execute write answered).run db).2 = db.commit (write db) := rfl

theorem tidy_checked {x : Except Refusal α} {rest : α → Program Database Answer}
    (h : Tidy pg db.toTables)
    (hrest : ∀ a, x = .ok a → Tidy pg ((rest a).run db).2.toTables) :
    Tidy pg ((checked x rest).run db).2.toTables := by
  cases hx : x with
  | error r => exact h
  | ok a => exact hrest a hx

theorem tidy_knownUnit {code : String} {rest : Program Database Answer}
    (h : Tidy pg db.toTables) (hrest : Tidy pg (rest.run db).2.toTables) :
    Tidy pg ((OrgUnitConsole.knownUnit code rest).run db).2.toTables := by
  simp only [OrgUnitConsole.knownUnit, Program.select, Program.run, id_eq]
  split
  · exact hrest
  · exact h

theorem tidy_duplicate {rule : CheckedRule} {exceptId : Option ℤ}
    {rest : Program Database Answer} (h : Tidy pg db.toTables)
    (hrest : (∀ r ∈ db.rules, sameRule pg rule exceptId r = false) →
      Tidy pg (rest.run db).2.toTables) :
    Tidy pg ((duplicate pg rule exceptId rest).run db).2.toTables := by
  simp only [duplicate, Program.select, Program.run, id_eq]
  split
  · exact h
  · rename_i hfind
    exact hrest fun r hr => by simpa using List.find?_eq_none.mp hfind r hr

/-- One request, from its first check to its write. -/
theorem run_tidy (request : Request) (db : Database) (h : Tidy pg db.toTables) :
    Tidy pg ((request.program pg py).run db).2.toTables := by
  cases request with
  | createUnit body user =>
    simp only [Request.program, createUnit]
    split
    · refine tidy_checked h fun label _ => ?_
      simp only [Program.select, Program.run, id_eq]
      split
      · exact h
      · rw [run_execute]
        exact tidy_commit h (tidy_of_rules h rfl)
    · exact h
  | updateUnit code body user =>
    refine tidy_checked h fun label _ => ?_
    rw [run_execute]
    exact tidy_commit h (tidy_of_rules h rfl)
  | createRule body user =>
    refine tidy_checked h fun rule _ => tidy_knownUnit h (tidy_duplicate h fun halone => ?_)
    rw [run_execute]
    exact tidy_commit h (insertRule_tidy h halone)
  | updateRule id body user =>
    refine tidy_checked h fun rule _ => tidy_knownUnit h (tidy_duplicate h fun halone => ?_)
    rw [run_execute]
    exact tidy_commit h (updateRuleRow_tidy h halone)
  | deleteRule id user =>
    simp only [Request.program, deleteRule]
    rw [run_execute]
    exact tidy_commit h (deleteRuleRow_tidy h)
  | orderRules ids user =>
    simp only [Request.program, orderRules, Program.select, Program.run, id_eq]
    split
    · rename_i haccepted
      rw [run_execute]
      exact tidy_commit h (placeRules_tidy h
        ((perm_of_sorted haccepted.1).trans (currentOrder_perm db.rules)))
    · exact h
  | recompute user =>
    simp only [Request.program, recompute, Program.run]
    cases hrun : recomputeCalls pg user db with
    | none => exact h
    | some w =>
      obtain ⟨run, -, rfl⟩ := Option.map_eq_some_iff.mp hrun
      exact tidy_commit h (tidy_of_rules h rfl)
  | ingest new =>
    simp only [Request.program]
    rw [run_execute]
    exact tidy_commit h (tidy_of_rules h rfl)

end Requests

section Runs

variable {pg : Postgres} {py : Python}

theorem tidy_installed (pg : Postgres) : Tidy pg installed.toTables where
  twins := List.nodup_nil
  placed _ h := absurd h List.not_mem_nil
  places := List.nodup_nil

theorem orderRules_answer {ids : List ℤ} {user : String} {db db' : Database}
    (h : (orderRules ids user).run db = (.order ids, db')) :
    currentOrder db'.rules = ids := by
  simp only [orderRules, Program.select, Program.run, id_eq] at h
  split at h
  · rename_i haccepted
    have hperm := (perm_of_sorted haccepted.1).trans (currentOrder_perm db.rules)
    by_cases hvalid : (placeRules ids user db).tables.Valid
    · simp only [execute, Program.run, Database.commit, dif_pos hvalid] at h
      obtain ⟨-, hdb⟩ := Prod.mk.inj h
      rw [← hdb]
      exact currentOrder_placed db.valid.ids hperm
    · simp only [execute, Program.run, if_neg hvalid] at h
      cases (Prod.mk.inj h).1
  · cases (Prod.mk.inj h).1

/-- One request after the other, whatever they are: no two rules are the same up to case, each
has a place of its own, and an order that was answered is the order of evaluation. -/
theorem serial_requests_tidy (requests : List Request) :
    let db := runSerial (Request.program pg py) requests installed
    (∀ a ∈ db.rules, ∀ b ∈ db.rules, twinKey pg a = twinKey pg b → a = b) ∧
    (∀ a ∈ db.rules, ∀ b ∈ db.rules, a.position = b.position → a = b) ∧
    ∀ ids user db', (orderRules ids user).run db = (.order ids, db') →
      currentOrder db'.rules = ids := by
  have step : ∀ (request : Request) (db : Database), Tidy pg db.toTables →
      Tidy pg ((request.program pg py).run db).2.toTables := run_tidy
  have tidy := runSerial_invariant (I := fun db : Database => Tidy pg db.toTables) step requests
    (tidy_installed pg)
  refine ⟨fun a ha b hb h => ?_, fun a ha b hb h => ?_, fun ids user db' => orderRules_answer⟩
  · exact List.inj_on_of_nodup_map tidy.twins ha hb h
  · exact List.inj_on_of_nodup_map tidy.places ha hb h

/-- Two creations that overlap: each looks for the other rule before it is there. -/
example : (runOf (start installed)
    [.arrive (.createUnit ⟨"OPS", "Operations"⟩ "ana"), .advance 0, .advance 0,
      .arrive (.createRule ⟨"OPS", "uri", "prefix", "lab", "labs", true⟩ "ana"),
      .arrive (.createRule ⟨"OPS", "uri", "prefix", "LAB", "labs", true⟩ "ben"),
      .advance 1, .advance 1, .advance 2, .advance 2, .advance 1, .advance 2]).any
    (fun s => decide (¬ (s.shared.rules.map (twinKey plainPostgres)).Nodup)) = true := by
  decide +kernel

end Runs

end OrgUnitSerial
