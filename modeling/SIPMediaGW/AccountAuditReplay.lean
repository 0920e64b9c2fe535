import Mathlib.Data.List.Forall2
import SIPMediaGW.AccountTransactions

/-! # Replaying the audit lines

Read from the empty table on, the audit lines say what every account now is: each commit either
changes nothing the lines speak of, or makes the one change that its line records. -/
namespace AccountAuditReplay

open AccountTable hiding createUser setPassword updateAccount bumpEpoch deleteUser write
open AccountConsole hiding ensureBootstrap changePassword lastAdmin roleChange enabledChange
open AccountTransactions
open PythonJson
open StatefulExceptions

section Replay

/-- What the lines tell of an account, in their own words. -/
structure Known where
  role : String
  enabled : Bool
  fullName : Option String

def fullNameOf (firstName lastName : Option String) : Option String :=
  match firstName, lastName with
  | some first, some last => some (first ++ " " ++ last)
  | _, _ => none

def fullName (a : Account) : Option String := fullNameOf a.firstName a.lastName

def known (a : Account) : Known := ⟨a.role.text, a.enabled, fullName a⟩

def textAt (detail : Dict) (key : String) : Option String :=
  match field detail key with
  | .str text => some text
  | _ => none

def flagAt (detail : Dict) (key : String) : Option Bool :=
  match field detail key with
  | .bool flag => some flag
  | _ => none

/-- A new account is enabled: its line does not say so. -/
def readCreation (detail : Dict) : Known :=
  ⟨(textAt detail "role").getD "", true, textAt detail "name"⟩

def readUpdate (detail : Dict) (k : Known) : Known :=
  ⟨(textAt detail "role").getD k.role, (flagAt detail "enabled").getD k.enabled,
    (textAt detail "name").or k.fullName⟩

def replayLine (username : String) (k : Option Known) (line : AuditLine) : Option Known :=
  if line.target ≠ username then k
  else if line.action = "create" then some (readCreation line.detail)
  else if line.action = "update" then k.map (readUpdate line.detail)
  else if line.action = "delete" then none
  else k

def replay (audit : List AuditLine) (username : String) : Option Known :=
  audit.foldl (replayLine username) none

theorem replay_append (audit : List AuditLine) (line : AuditLine) (username : String) :
    replay (audit ++ [line]) username = replayLine username (replay audit username) line := by
  simp [replay, List.foldl_append]

end Replay

section Changes

/-- The change of one row that an action and its detail stand for. -/
inductive Change : String → Dict → Option Account → Option Account → Prop where
  | created (a : Account) (detail : Dict) (enabled : a.enabled = true)
      (spelled : detail = [("role", .str a.role.text), ("source", .str a.source.text)] ++
        ((fullName a).map fun text => ("name", Json.str text)).toList) :
      Change "create" detail none (some a)
  | updated (a : Account) (f : Fields) (given : f.isEmpty = false) :
      Change "update" (changesOf f) (some a) (some (withFields f a))
  | passwordChanged (a : Account) (newHash ip : String) :
      Change "password.change" [("ip", .str ip)] (some a) (some (withPassword newHash false a))
  | passwordReset (a : Account) (newHash : String) :
      Change "password.reset" [] (some a) (some (withPassword newHash true a))
  | deleted (a : Account) :
      Change "delete" [("role", .str a.role.text), ("source", .str a.source.text)] (some a) none

/-- The line's change is the one between two tables. -/
structure Records (line : AuditLine) (t t' : UserTable) : Prop where
  change : Change line.action line.detail (t.getUser line.target) (t'.getUser line.target)
  others : ∀ name, name ≠ line.target → t'.getUser name = t.getUser name

/-- Nothing the lines speak of differs between two tables. -/
def Silent (t t' : UserTable) : Prop :=
  ∀ name, (t'.getUser name).map known = (t.getUser name).map known

variable {t t' : UserTable} {line : AuditLine} {name username : String}

theorem silent_refl (t : UserTable) : Silent t t := fun _ => rfl

/-- One row is looked at, the others are the same. -/
theorem silent_of_row (row : (t'.getUser username).map known = (t.getUser username).map known)
    (others : ∀ name, name ≠ username → t'.getUser name = t.getUser name) : Silent t t' := by
  intro name
  by_cases hname : name = username
  · rw [hname, row]
  · rw [others name hname]

theorem readCreation_created (a : Account) (enabled : a.enabled = true) :
    readCreation ([("role", .str a.role.text), ("source", .str a.source.text)] ++
      ((fullName a).map fun text => ("name", Json.str text)).toList) = known a := by
  cases hname : fullName a <;>
    simp [readCreation, known, textAt, field, List.lookup_cons, hname, enabled]

theorem readUpdate_changesOf (f : Fields) (a : Account) :
    readUpdate (changesOf f) (known a) = known (withFields f a) := by
  obtain ⟨newName, role, enabled⟩ := f
  cases newName <;> cases role <;> cases enabled <;>
    simp [readUpdate, known, fullName, fullNameOf, changesOf, withFields, textAt, flagAt, field,
      List.lookup_cons]

/-- Reading a line does to what is known what its change did to the row. -/
theorem replayLine_of_change {before after : Option Account}
    (h : Change line.action line.detail before after) :
    replayLine line.target (before.map known) line = after.map known := by
  obtain ⟨actor, action, target, detail⟩ := line
  rw [replayLine, if_neg (not_not_intro rfl)]
  cases h with
  | created a detail enabled spelled =>
    subst spelled
    exact congrArg some (readCreation_created a enabled)
  | updated a f given => exact congrArg some (readUpdate_changesOf f a)
  | passwordChanged a newHash ip => rfl
  | passwordReset a newHash => rfl
  | deleted a => rfl

theorem replayLine_of_records (h : Records line t t') :
    replayLine name ((t.getUser name).map known) line = (t'.getUser name).map known := by
  by_cases hname : name = line.target
  · subst hname
    exact replayLine_of_change h.change
  · rw [h.others name hname, replayLine, if_pos fun he => hname he.symm]

end Changes

section Trails

/-- Every commit since the table was empty is silent or has its line. -/
inductive Trail : List AuditLine → List UserTable → UserTable → Prop where
  | start : Trail [] [emptyTable] emptyTable
  | silent {audit history t t'} (trail : Trail audit history t) (same : Silent t t') :
      Trail audit (history ++ [t']) t'
  | recorded {audit history t t' line} (trail : Trail audit history t)
      (change : Records line t t') : Trail (audit ++ [line]) (history ++ [t']) t'

variable {t : UserTable} {line : AuditLine} {audit : List AuditLine} {history : List UserTable}

theorem Trail.replayed (trail : Trail audit history t) (name : String) :
    replay audit name = (t.getUser name).map known := by
  induction trail with
  | start => rfl
  | silent trail same ih => rw [ih, same name]
  | recorded trail change ih => rw [replay_append, ih, replayLine_of_records change]

theorem Trail.current (trail : Trail audit history t) : history.getLast? = some t := by
  cases trail with
  | start => rfl
  | silent trail same => simp
  | recorded trail change => simp

/-- The line is about the commit after table number `i`. -/
def RecordedAt (history : List UserTable) (line : AuditLine) (i : ℕ) : Prop :=
  ∃ t t', history[i]? = some t ∧ history[i + 1]? = some t' ∧ Records line t t'

theorem RecordedAt.extended {i : ℕ} (h : RecordedAt history line i) (more : List UserTable) :
    RecordedAt (history ++ more) line i := by
  obtain ⟨t, t', before, after, change⟩ := h
  obtain ⟨hi, _⟩ := List.getElem?_eq_some_iff.mp before
  obtain ⟨hi', _⟩ := List.getElem?_eq_some_iff.mp after
  exact ⟨t, t', by rw [List.getElem?_append_left hi, before],
    by rw [List.getElem?_append_left hi', after], change⟩

/-- Later lines are about later commits. -/
theorem Trail.positions (trail : Trail audit history t) :
    ∃ positions : List ℕ, positions.Pairwise (· < ·) ∧
      List.Forall₂ (RecordedAt history) audit positions := by
  induction trail with
  | start => exact ⟨[], List.Pairwise.nil, List.Forall₂.nil⟩
  | silent trail same ih =>
    obtain ⟨positions, increasing, recorded⟩ := ih
    exact ⟨positions, increasing, recorded.imp fun _ _ h => h.extended _⟩
  | @recorded audit history t t' line trail change ih =>
    obtain ⟨positions, increasing, recorded⟩ := ih
    have hlast := trail.current
    rw [List.getLast?_eq_getElem?] at hlast
    obtain ⟨hpos, _⟩ := List.getElem?_eq_some_iff.mp hlast
    have here : RecordedAt (history ++ [t']) line (history.length - 1) := by
      refine ⟨t, t', ?_, ?_, change⟩
      · rw [List.getElem?_append_left hpos, hlast]
      · rw [Nat.sub_add_cancel (by omega), List.getElem?_concat_length]
    refine ⟨positions ++ [history.length - 1], ?_, ?_⟩
    · refine List.pairwise_append.mpr ⟨increasing, List.pairwise_singleton _ _, ?_⟩
      intro i hi j hj
      obtain rfl := List.mem_singleton.mp hj
      -- an earlier position has a table after it that is already in the history
      obtain ⟨k, hk, rfl⟩ := List.getElem_of_mem hi
      have hrec := recorded.get (by rw [recorded.length_eq]; exact hk) hk
      obtain ⟨_, _, _, after, _⟩ := hrec
      obtain ⟨hlt, _⟩ := List.getElem?_eq_some_iff.mp after
      simp only [List.get_eq_getElem] at hlt
      omega
    · exact List.rel_append (recorded.imp fun _ _ h => h.extended _)
        (List.Forall₂.cons here List.Forall₂.nil)

end Trails

section Transactions

variable {α : Type} {db w : Database} {history : List UserTable}

/-- The tables as they were last committed. -/
def Committed (db : Database) (history : List UserTable) (s : Store) : Prop :=
  s.committed = db ∧ s.history = history

/-- What a transaction has made of them so far. -/
def Within (db : Database) (history : List UserTable) (W : Database → Prop) (s : Store) : Prop :=
  Committed db history s ∧ W s.working

theorem exec_statement (s : Store) :
    exec statement s =
      (if s.fails s.statements then .error .databaseUnavailable else .ok (),
        { s with statements := s.statements + 1 }) := by
  rw [statement, exec_bind_ok (exec_get s), exec_bind_ok (exec_set s _)]
  split <;> rfl

/-- A statement only counts itself. -/
theorem meets_statement {P : Store → Prop} {R : Failure → Store → Prop}
    (hP : ∀ s n, P s → P { s with statements := n }) (hR : ∀ e s, P s → R e s) :
    Meets P statement (fun _ => P) R := by
  intro s hs
  have after := hP s (s.statements + 1) hs
  rw [exec_statement]
  cases s.fails s.statements with
  | true => exact hR _ _ after
  | false => exact after

theorem statement_committed :
    Meets (Committed db history) statement (fun _ => Committed db history)
      (fun _ => Committed db history) :=
  meets_statement (fun _ _ h => h) fun _ _ h => h

theorem statement_within {W : Database → Prop} :
    Meets (Within db history W) statement (fun _ => Within db history W)
      (fun _ => Committed db history) :=
  meets_statement (fun _ _ h => h) fun _ _ h => h.1

/-- A transaction puts what its body made of the tables in their place, or leaves them. -/
theorem meets_connection {body : Console α} {W : α → Database → Prop}
    (hbody : Meets (Within db history (· = db)) body (fun a => Within db history (W a))
      (fun _ => Committed db history)) :
    Meets (Committed db history) (connection body)
      (fun a s => ∃ w, W a w ∧ Committed w (history ++ [w.users]) s)
      (fun _ => Committed db history) := by
  have opened : Meets (Committed db history) (modify Store.opened : Console PUnit)
      (fun _ => Within db history (· = db)) (fun _ => Committed db history) :=
    meets_modify fun s h => ⟨h, h.1⟩
  have rolledBack (e : Failure) : Meets (Committed db history)
      (do modify Store.opened; throw e : Console α) (fun a => Within db history (W a))
      (fun _ => Committed db history) :=
    opened.bind fun _ => meets_throw fun _ h => h.1
  have done : Meets (Within db history (· = db)) (do let result ← body; statement; pure result)
      (fun a => Within db history (W a)) (fun _ => Committed db history) :=
    hbody.bind fun a => statement_within.bind fun _ => meets_pure fun _ h => h
  refine statement_committed.bind fun _ => opened.bind fun _ =>
    (done.tryCatch rolledBack).bind fun a => Meets.bind ?_ fun _ => meets_pure fun _ h => h
  refine meets_modify fun s h => ⟨s.working, h.2, rfl, ?_⟩
  rw [Store.commit, h.1.2]

theorem executeQuery_within (query : Query) :
    Meets (Within db history (· = w)) (executeQuery query)
      (fun rows => Within db history fun w' =>
        ∃ t, query w.users = some (t, rows) ∧ w' = { w with users := t })
      (fun _ => Committed db history) := by
  refine statement_within.bind fun _ => meets_get_bind fun s hs => ?_
  obtain ⟨committed, rfl⟩ := hs
  split
  · exact meets_throw fun _ h => h ▸ committed
  · rename_i t rows hquery
    refine Meets.bind (meets_modify fun s' h => ?_) fun _ => meets_pure fun _ h => h
    subst h
    exact ⟨committed, t, hquery, rfl⟩

theorem executeAudit_within (line : AuditLine) :
    Meets (Within db history (· = w)) (executeAudit line)
      (fun _ => Within db history (· = { w with audit := w.audit ++ [line] }))
      (fun _ => Committed db history) :=
  statement_within.bind fun _ => meets_modify fun s h => ⟨h.1, by rw [h.2]⟩

theorem executeWrite_within (query : Query) (audit : Option AuditLine) :
    Meets (Within db history (· = db)) (executeWrite query audit)
      (fun rows => Within db history fun w => ∃ t, query db.users = some (t, rows) ∧
        w = ⟨t, if rows ≠ [] then db.audit ++ audit.toList else db.audit⟩)
      (fun _ => Committed db history) := by
  refine (executeQuery_within query).bind fun rows => ?_
  rintro s ⟨committed, t, hquery, hw⟩
  refine (?_ : Meets (Within db history (· = { db with users := t })) _ _ _) s ⟨committed, hw⟩
  cases audit with
  | none => exact meets_pure fun _ h => ⟨h.1, t, hquery, by simpa using h.2⟩
  | some line =>
    by_cases hrows : rows = []
    · simp only [hrows, ne_eq, not_true_eq_false, if_false]
      exact meets_pure fun _ h => ⟨h.1, t, hrows ▸ hquery, h.2⟩
    · simp only [hrows, ne_eq, not_false_eq_true, if_true]
      exact (executeAudit_within line).bind fun _ =>
        meets_pure fun _ h => ⟨h.1, t, hquery, by simpa [hrows] using h.2⟩

/-- A write commits its query's table, with the line if a row was touched. -/
theorem write_committed (query : Query) (audit : Option AuditLine) :
    Meets (Committed db history) (write query audit)
      (fun rows s => ∃ t, query db.users = some (t, rows) ∧
        Committed ⟨t, if rows ≠ [] then db.audit ++ audit.toList else db.audit⟩
          (history ++ [t]) s)
      (fun _ => Committed db history) := by
  refine (meets_connection (executeWrite_within query audit)).weaken (fun _ h => h) ?_
    fun _ _ h => h
  rintro rows s ⟨w, ⟨t, hquery, rfl⟩, h⟩
  exact ⟨t, hquery, h⟩

theorem fetch_committed (query : UserTable → α) :
    Meets (Committed db history) (fetch query)
      (fun a s => a = query db.users ∧ Committed db (history ++ [db.users]) s)
      (fun _ => Committed db history) := by
  have body : Meets (Within db history (· = db))
      (do statement; let s ← get; pure (query s.working.users))
      (fun a => Within db history fun w' => a = query db.users ∧ w' = db)
      (fun _ => Committed db history) := by
    refine statement_within.bind fun _ => meets_get_bind fun s hs => meets_pure fun s' h => ?_
    subst h
    exact ⟨hs.1, by rw [hs.2], hs.2⟩
  refine (meets_connection body).weaken (fun _ h => h) ?_ fun _ _ h => h
  rintro a s ⟨w, ⟨ha, rfl⟩, h⟩
  exact ⟨ha, h⟩

end Transactions

section Accounts

variable {α β : Type} {db : Database} {a : Account} {line : AuditLine} {username : String}

/-- Every commit so far is accounted for. -/
def Trailed (s : Store) : Prop := Trail s.committed.audit s.history s.committed.users

def At (db : Database) (s : Store) : Prop := s.committed = db ∧ Trailed s

/-- An operation that returns has accounted for its changes; one that raises made none. -/
def Accounted (db : Database) (p : Console α) : Prop :=
  Meets (At db) p (fun _ => Trailed) (fun _ => At db)

theorem accounted_pure (a : α) : Accounted db (pure a : Console α) := meets_pure fun _ h => h.2

theorem accounted_throw (e : Failure) : Accounted db (throw e : Console α) :=
  meets_throw fun _ h => h

theorem at_committed {s : Store} : At db s ↔
    ∃ history, Trail db.audit history db.users ∧ Committed db history s := by
  constructor
  · rintro ⟨rfl, trail⟩
    exact ⟨s.history, trail, rfl, rfl⟩
  · rintro ⟨history, trail, rfl, rfl⟩
    exact ⟨rfl, trail⟩

theorem fetch_at (query : UserTable → α) :
    Meets (At db) (fetch query) (fun a s => a = query db.users ∧ At db s) (fun _ => At db) := by
  intro s hs
  obtain ⟨history, trail, hs⟩ := at_committed.mp hs
  refine (fetch_committed query).weaken (fun _ h => h) ?_ ?_ s hs
  · rintro a s ⟨rfl, h⟩
    exact ⟨rfl, at_committed.mpr ⟨_, trail.silent (silent_refl _), h⟩⟩
  · exact fun _ s h => at_committed.mpr ⟨history, trail, h⟩

theorem keeps_fetch (query : UserTable → α) : Keeps (At db) (fetch query) :=
  keeps_iff_meets.mpr ((fetch_at query).weaken (fun _ h => h) (fun _ _ h => h.2) fun _ _ h => h)

/-- A program that writes nothing. -/
theorem accounted_of_keeps {p : Console α} (h : Keeps (At db) p) : Accounted db p :=
  (keeps_iff_meets.mp h).weaken (fun _ h => h) (fun _ _ h => h.2) fun _ _ h => h

theorem accounted_reads {p : Console α} {f : α → Console β} (hp : Keeps (At db) p)
    (hf : ∀ a, Accounted db (f a)) : Accounted db (p >>= f) :=
  (keeps_iff_meets.mp hp).bind hf

/-- What a program goes on with is read from the tables as they are. -/
theorem accounted_fetch {query : UserTable → α} {f : α → Console β}
    (h : Accounted db (f (query db.users))) : Accounted db (fetch query >>= f) := by
  refine (fetch_at query).bind fun a => ?_
  rintro s ⟨rfl, hs⟩
  exact h s hs

theorem accounted_allow {x : Except Refusal α} {f : α → Console β}
    (h : ∀ a, x = .ok a → Accounted db (f a)) : Accounted db (allow x >>= f) := by
  cases x with
  | error r =>
    exact Meets.bind (Q := fun _ _ => False) (meets_throw fun _ h => h) fun _ _ h => h.elim
  | ok a => exact h a rfl

/-- The query's change is the one the line records, or there is none to record. -/
def Explained (query : Query) (audit : Option AuditLine) (t : UserTable) : Prop :=
  ∀ t' rows, query t = some (t', rows) →
    (∃ line, audit = some line ∧ rows ≠ [] ∧ Records line t t') ∨
      (audit = none ∨ rows = []) ∧ Silent t t'

theorem write_at {query : Query} {audit : Option AuditLine} (h : Explained query audit db.users) :
    Meets (At db) (write query audit)
      (fun rows s => (∃ t, query db.users = some (t, rows)) ∧ Trailed s) (fun _ => At db) := by
  intro s hs
  obtain ⟨history, trail, hs⟩ := at_committed.mp hs
  refine (write_committed query audit).weaken (fun _ h => h) ?_ ?_ s hs
  · rintro rows s ⟨t, hquery, after⟩
    refine ⟨⟨t, hquery⟩, ?_⟩
    rcases h t rows hquery with ⟨line, rfl, touched, records⟩ | ⟨none, silent⟩
    · rw [if_pos touched] at after
      have kept : At ⟨t, db.audit ++ [line]⟩ s :=
        at_committed.mpr ⟨_, trail.recorded records, after⟩
      exact kept.2
    · have unwritten : (if rows ≠ [] then db.audit ++ audit.toList else db.audit) = db.audit := by
        rcases none with rfl | rfl <;> simp
      rw [unwritten] at after
      have kept : At ⟨t, db.audit⟩ s := at_committed.mpr ⟨_, trail.silent silent, after⟩
      exact kept.2
  · exact fun _ s h => at_committed.mpr ⟨history, trail, h⟩

theorem explained_insertRow (target : line.target = a.username)
    (change : Change line.action line.detail none (some a)) :
    Explained (insertRow a) (some line) db.users := by
  intro t' rows hquery
  obtain ⟨t'', inserted, heq⟩ := Option.map_eq_some_iff.mp hquery
  obtain ⟨rfl, rfl⟩ := Prod.mk.inj heq
  refine .inl ⟨line, rfl, List.cons_ne_nil _ _, ?_, ?_⟩
  · rwa [target, (insert_eq_some inserted).1, getUser_insert inserted, if_pos rfl]
  · intro name hname
    rw [getUser_insert inserted, if_neg (target ▸ hname)]

/-- An update says what it set, or sets nothing that the lines speak of. -/
theorem explained_updateRows {set : Account → Account}
    {keepsName : ∀ a, (set a).username = a.username} {audit : Option AuditLine}
    (recorded : ∀ line, audit = some line → line.target = username ∧
      ∀ a, db.users.getUser username = some a →
        Change line.action line.detail (some a) (some (set a)))
    (unrecorded : audit = none → ∀ a, known (set a) = known a) :
    Explained (updateRows username set keepsName) audit db.users := by
  rintro t' rows hquery
  obtain ⟨rfl, rfl⟩ := Prod.mk.inj (Option.some.inj hquery)
  have others : ∀ name, name ≠ username →
      (db.users.updateWhere username set keepsName).getUser name = db.users.getUser name :=
    fun name hname => by rw [getUser_updateWhere, if_neg hname]
  cases hfound : db.users.getUser username with
  | none =>
    have missing : (db.users.updateWhere username set keepsName).getUser username = none := by
      rw [getUser_updateWhere, if_pos rfl, hfound, Option.map_none]
    exact .inr ⟨.inr (by rw [missing]; rfl), silent_of_row (by rw [missing, hfound]) others⟩
  | some a =>
    have written : (db.users.updateWhere username set keepsName).getUser username =
        some (set a) := by
      rw [getUser_updateWhere, if_pos rfl, hfound, Option.map_some]
    cases audit with
    | none =>
      have same := congrArg some (unrecorded rfl a)
      exact .inr ⟨.inl rfl, silent_of_row (by rw [written, hfound]; exact same) others⟩
    | some line =>
      obtain ⟨rfl, change⟩ := recorded line rfl
      refine .inl ⟨line, rfl, ?_, ?_, others⟩
      · rw [written]
        exact List.cons_ne_nil _ _
      · rw [written, hfound]
        exact change a hfound

theorem explained_deleteRows (target : line.target = username)
    (change : ∀ a, db.users.getUser username = some a →
      Change line.action line.detail (some a) none) :
    Explained (deleteRows username) (some line) db.users := by
  rintro t' rows hquery
  obtain ⟨rfl, rfl⟩ := Prod.mk.inj (Option.some.inj hquery)
  subst target
  have others : ∀ name, name ≠ line.target →
      (db.users.deleteWhere line.target).getUser name = db.users.getUser name :=
    fun name hname => by rw [getUser_deleteWhere, if_neg hname]
  have gone : (db.users.deleteWhere line.target).getUser line.target = none := by
    rw [getUser_deleteWhere, if_pos rfl]
  cases hfound : db.users.getUser line.target with
  | none => exact .inr ⟨.inr rfl, silent_of_row (by rw [gone, hfound]) others⟩
  | some a =>
    refine .inl ⟨line, rfl, List.cons_ne_nil _ _, ?_, others⟩
    rw [gone, hfound]
    exact change a hfound

end Accounts

section Operations

variable {cfg : AccountConsole.Config} {db : Database} {line : AuditLine} {username : String}

theorem createUser_accounted {role : Role} {source : Source} {passwordHash : Option String}
    {createdBy : String} {mustChange : Bool} {externalId firstName lastName : Option String}
    (target : line.target = username) (action : line.action = "create")
    (detail : line.detail = [("role", .str role.text), ("source", .str source.text)] ++
      ((fullNameOf firstName lastName).map fun text => ("name", Json.str text)).toList) :
    Accounted db (createUser username role source passwordHash createdBy mustChange externalId
      firstName lastName (some line)) := by
  have change (a : Account) (enabled : a.enabled = true) (hrole : a.role = role)
      (hsource : a.source = source) (hname : fullName a = fullNameOf firstName lastName) :
      Change line.action line.detail none (some a) := by
    rw [action]
    exact .created a _ enabled (by rw [detail, hrole, hsource, hname])
  exact (write_at (explained_insertRow target (change _ rfl rfl rfl rfl))).bind fun _ =>
    meets_pure fun _ h => h.2

theorem setPassword_accounted {newHash : String} {mustChange : Bool}
    (target : line.target = username)
    (change : ∀ a, Change line.action line.detail (some a)
      (some (withPassword newHash mustChange a))) :
    Accounted db (do let _ ← setPassword username newHash mustChange (some line)) := by
  have explained : Explained (updateRows username (withPassword newHash mustChange)
      (withPassword_username newHash mustChange)) (some line) db.users := by
    refine explained_updateRows ?_ fun h => nomatch h
    rintro _ ⟨⟩
    exact ⟨target, fun a _ => change a⟩
  have written : Meets (At db) (setPassword username newHash mustChange (some line))
      (fun _ => Trailed) (fun _ => At db) :=
    (write_at explained).bind fun rows => meets_pure fun _ h => h.2
  exact written.bind fun _ => meets_pure fun _ h => h

/-- The row that an update with a line gives back. -/
theorem updateAccount_at {f : Fields} (given : f.isEmpty = false) (actor : String) :
    Meets (At db)
      (updateAccount username f (some ⟨actor, "update", username, changesOf f⟩))
      (fun updated s => updated = (db.users.getUser username).map (withFields f) ∧ Trailed s)
      (fun _ => At db) := by
  have explained : Explained (updateRows username (withFields f) (withFields_username f))
      (some ⟨actor, "update", username, changesOf f⟩) db.users := by
    refine explained_updateRows ?_ fun h => nomatch h
    rintro _ ⟨⟩
    exact ⟨rfl, fun a _ => .updated a f given⟩
  rw [updateAccount, if_neg (by simp [given])]
  refine (write_at explained).bind fun rows => meets_pure ?_
  rintro s ⟨⟨t, hquery⟩, trailed⟩
  obtain ⟨rfl, rfl⟩ := Prod.mk.inj (Option.some.inj hquery)
  rw [getUser_updateWhere, if_pos rfl]
  exact ⟨by cases db.users.getUser username <;> rfl, trailed⟩

/-- The line says what the row was, as read before it went. -/
theorem deleteUser_accounted {a : Account} (hrow : db.users.getUser a.username = some a)
    (actor : String) :
    Accounted db (deleteUser a.username (some ⟨actor, "delete", a.username,
      [("role", .str a.role.text), ("source", .str a.source.text)]⟩)) := by
  have explained : Explained (deleteRows a.username) (some ⟨actor, "delete", a.username,
      [("role", .str a.role.text), ("source", .str a.source.text)]⟩) db.users := by
    refine explained_deleteRows rfl fun b hb => ?_
    obtain rfl := Option.some.inj (hrow.symm.trans hb)
    exact .deleted a
  exact (write_at explained).bind fun rows => meets_pure fun _ h => h.2

theorem bumpEpoch_accounted : Accounted db (bumpEpoch username) := by
  have explained : Explained (updateRows username withBumpedEpoch withBumpedEpoch_username)
      none db.users :=
    explained_updateRows (fun _ h => nomatch h) fun _ _ => rfl
  exact (write_at explained).bind fun _ => meets_pure fun _ h => h.2

theorem ensureBootstrap_accounted (defaultHash : String) :
    Accounted db (ensureBootstrap defaultHash) := by
  refine accounted_fetch ?_
  split
  · exact accounted_pure _
  · exact createUser_accounted rfl rfl rfl

theorem changeOwnPassword_accounted (throttled : Bool) (caller : Account)
    (ip current newHash : String) :
    Accounted db (changeOwnPassword cfg throttled caller ip current newHash) := by
  rw [changeOwnPassword]
  split
  · exact accounted_throw _
  · split
    · exact accounted_throw _
    · split
      · exact accounted_throw _
      · exact setPassword_accounted rfl fun a => .passwordChanged a newHash ip

theorem createUserRoute_accounted (user : String) (new : NewUser) :
    Accounted db (createUserRoute user new) := by
  refine accounted_allow fun _ _ => accounted_fetch (accounted_allow fun checked _ => ?_)
  exact createUser_accounted rfl rfl rfl

theorem keeps_lastAdmin (a : Account) : Keeps (At db) (lastAdmin a) := by
  rw [lastAdmin]
  split
  · exact keeps_fetch _
  · exact keeps_pure _

theorem keeps_unlessLast {α : Type} (a : Account) (e : Failure) (x : α) :
    Keeps (At db) (do
      let last ← lastAdmin a
      if last then throw e
      else pure x : Console α) := by
  refine (keeps_lastAdmin a).bind fun last => ?_
  cases last with
  | true => exact keeps_throw e
  | false => exact keeps_pure x

theorem keeps_roleChange (user : String) (a : Account) (patch : UserPatch) :
    Keeps (At db) (roleChange user a patch) := by
  rw [roleChange]
  split
  · exact keeps_pure _
  · split
    · exact keeps_pure _
    · split
      · exact keeps_throw _
      · split
        · exact keeps_throw _
        · exact keeps_unlessLast a _ _

theorem keeps_enabledChange (user : String) (a : Account) (patch : UserPatch) :
    Keeps (At db) (enabledChange user a patch) := by
  rw [enabledChange]
  split
  · exact keeps_pure _
  · split
    · exact keeps_pure _
    · split
      · exact keeps_pure _
      · split
        · exact keeps_throw _
        · exact keeps_unlessLast a _ _

theorem updateUserRoute_accounted (user name : String) (patch : UserPatch) :
    Accounted db (updateUserRoute user name patch) := by
  refine accounted_fetch (accounted_allow fun a found => accounted_allow fun newName _ =>
    accounted_reads (keeps_roleChange user a patch) fun role =>
      accounted_reads (keeps_enabledChange user a patch) fun enabled => ?_)
  have hrow : db.users.getUser a.username = some a :=
    getUser_of_mem (mem_of_getUser (target_eq_ok found))
  simp only
  split
  · exact accounted_pure _
  · rename_i given
    refine (updateAccount_at (by simpa using given) user).bind fun updated => ?_
    -- the row read first is still there
    rintro s ⟨rfl, trailed⟩
    rw [hrow]
    exact trailed

theorem resetPassword_accounted (user name newHash : String) :
    Accounted db (resetPassword user name newHash) := by
  refine accounted_fetch (accounted_allow fun a _ => ?_)
  split
  · exact accounted_throw _
  · exact setPassword_accounted rfl fun a => .passwordReset a newHash

theorem deleteUserRoute_accounted (user name : String) :
    Accounted db (deleteUserRoute user name) := by
  refine accounted_fetch (accounted_allow fun a found => ?_)
  have hrow : db.users.getUser a.username = some a :=
    getUser_of_mem (mem_of_getUser (target_eq_ok found))
  split
  · exact accounted_throw _
  · refine accounted_reads (keeps_lastAdmin a) fun last => ?_
    split
    · exact accounted_throw _
    · exact (deleteUser_accounted hrow user).bind fun _ => meets_pure fun _ h => h

theorem keeps_callerOf (now : ℚ) (cookie : Cookie) (guard : UserTable → Except Refusal Account) :
    Keeps (At db) (callerOf cfg now cookie guard) := by
  rw [callerOf]
  split
  · exact keeps_throw _
  · refine (keeps_fetch guard).bind fun caller => ?_
    cases caller with
    | error r => exact keeps_throw _
    | ok caller => exact keeps_pure _

theorem route_accounted (now : ℚ) (cookie : Cookie) (throttled : Bool) (request : Request) :
    Accounted db (route cfg now cookie throttled request) := by
  cases request with
  | changePassword ip current newHash =>
    exact accounted_reads (keeps_callerOf now cookie _) fun caller =>
      changeOwnPassword_accounted throttled caller ip current newHash
  | createUser new =>
    exact accounted_reads (keeps_callerOf now cookie _) fun caller =>
      createUserRoute_accounted caller.username new
  | updateUser name patch =>
    exact accounted_reads (keeps_callerOf now cookie _) fun caller =>
      updateUserRoute_accounted caller.username name patch
  | resetPassword name newHash =>
    exact accounted_reads (keeps_callerOf now cookie _) fun caller =>
      resetPassword_accounted caller.username name newHash
  | deleteUser name =>
    exact accounted_reads (keeps_callerOf now cookie _) fun caller =>
      deleteUserRoute_accounted caller.username name

theorem onAccount_accounted {action : Account → Console Unit}
    (h : ∀ a, Accounted db (action a)) : Accounted db (onAccount username action) := by
  refine accounted_fetch ?_
  split
  · exact accounted_throw _
  · rename_i a _
    exact h a

theorem update_accounted {f : Fields} (given : f.isEmpty = false) (actor : String) :
    Accounted db (do
      let _ ← updateAccount username f (some ⟨actor, "update", username, changesOf f⟩)) :=
  (updateAccount_at given actor).bind fun _ => meets_pure fun _ h => h.2

theorem command_accounted (command : Command) : Accounted db command.run := by
  cases command with
  | list =>
    rw [Command.run]
    exact accounted_of_keeps (keeps_fetch _)
  | reset username newHash =>
    refine onAccount_accounted fun a => ?_
    split
    · exact accounted_throw _
    · exact setPassword_accounted rfl fun a => .passwordReset a newHash
  | enable username =>
    exact onAccount_accounted fun a => update_accounted (f := ⟨none, none, some true⟩) rfl "cli"
  | promote username =>
    exact onAccount_accounted fun a => update_accounted (f := ⟨none, some .admin, none⟩) rfl "cli"

end Operations

section Runs

variable {cfg : AccountConsole.Config} {s s' : Store} {e : Failure}

/-- A command of the tool may raise after it has made the first administrator. -/
def AfterItsBootstrap (operation : Operation) (s s' : Store) : Prop :=
  ∃ defaultHash command made, operation = .commandLine defaultHash command ∧
    exec (ensureBootstrap defaultHash) s = (.ok (), made) ∧ s'.committed = made.committed

theorem trailed_of_accounted {p : Console Unit} (h : ∀ db, Accounted db p) (hs : Trailed s) :
    Trailed (exec p s).2 := by
  have h := h s.committed s ⟨rfl, hs⟩
  generalize exec p s = r at h
  obtain ⟨r, t⟩ := r
  cases r with
  | ok a => exact h
  | error e => exact h.2

theorem unchanged_of_accounted {p : Console Unit} (h : ∀ db, Accounted db p) (hs : Trailed s)
    (raised : exec p s = (.error e, s')) : s'.committed = s.committed :=
  ((h s.committed).of_error ⟨rfl, hs⟩ raised).1

theorem keeps_trailed (operation : Operation) : Keeps Trailed (operation.run cfg) := by
  intro s hs
  cases operation with
  | route now cookie throttled request =>
    exact trailed_of_accounted (fun _ => route_accounted now cookie throttled request) hs
  | commandLine defaultHash command =>
    refine Keeps.bind ?_ (fun _ => ?_) s hs
    · exact fun _ => trailed_of_accounted fun _ => ensureBootstrap_accounted defaultHash
    · exact fun _ => trailed_of_accounted fun _ => command_accounted command
  | bootstrap defaultHash =>
    exact trailed_of_accounted (fun _ => ensureBootstrap_accounted defaultHash) hs
  | signOut username => exact trailed_of_accounted (fun _ => bumpEpoch_accounted) hs

/-- An operation that raises leaves the tables as they were, or as its own bootstrap. -/
theorem raised_leaves (operation : Operation) (hs : Trailed s)
    (raised : exec (operation.run cfg) s = (.error e, s')) :
    s'.committed = s.committed ∨ AfterItsBootstrap operation s s' := by
  cases operation with
  | route now cookie throttled request =>
    exact .inl (unchanged_of_accounted
      (fun _ => route_accounted now cookie throttled request) hs raised)
  | commandLine defaultHash command =>
    change exec (ensureBootstrap defaultHash >>= fun _ => command.run) s = _ at raised
    cases hboot : exec (ensureBootstrap defaultHash) s with
    | mk result made =>
      cases result with
      | error e' =>
        rw [exec_bind_error hboot] at raised
        obtain ⟨_, rfl⟩ := Prod.mk.inj raised
        exact .inl (unchanged_of_accounted (fun _ => ensureBootstrap_accounted defaultHash) hs
          hboot)
      | ok _ =>
        rw [exec_bind_ok hboot] at raised
        have hmade : Trailed made :=
          (ensureBootstrap_accounted defaultHash).of_ok ⟨rfl, hs⟩ hboot
        exact .inr ⟨defaultHash, command, made, rfl, hboot, unchanged_of_accounted
          (fun _ => command_accounted command) hmade raised⟩
  | bootstrap defaultHash =>
    exact .inl (unchanged_of_accounted (fun _ => ensureBootstrap_accounted defaultHash) hs raised)
  | signOut username =>
    exact .inl (unchanged_of_accounted (fun _ => bumpEpoch_accounted) hs raised)

theorem runAll_trailed (cfg : AccountConsole.Config) (operations : List Operation)
    (hs : Trailed s) : Trailed (runAll cfg operations s) := by
  induction operations generalizing s with
  | nil => exact hs
  | cons operation operations ih => exact ih (keeps_trailed operation s hs)

/-- The lines in order give every account its role, state and name; each stands for a commit of
its own, in the same order; and what raises leaves no change and no line. -/
theorem audit_tells_accounts (cfg : AccountConsole.Config) (fails : ℕ → Bool)
    (operations : List Operation) :
    let s := runAll cfg operations (installed fails)
    (∀ a ∈ s.committed.users.rows, replay s.committed.audit a.username = some (known a)) ∧
    (∀ name, s.committed.users.getUser name = none → replay s.committed.audit name = none) ∧
    s.history.getLast? = some s.committed.users ∧
    (∃ positions : List ℕ, positions.Pairwise (· < ·) ∧
      List.Forall₂ (RecordedAt s.history) s.committed.audit positions) ∧
    ∀ operation e s', exec (operation.run cfg) s = (.error e, s') →
      s'.committed = s.committed ∨ AfterItsBootstrap operation s s' := by
  have empty : Trailed (installed fails) := Trail.start
  have trail := runAll_trailed cfg operations empty
  generalize runAll cfg operations (installed fails) = s at trail
  refine ⟨fun a ha => ?_, fun name hname => ?_, trail.current, trail.positions,
    fun operation e s' raised => raised_leaves operation trail raised⟩
  · rw [trail.replayed, getUser_of_mem ha]
    rfl
  · rw [trail.replayed, hname]
    rfl

/-- The line of the first administrator cannot be written: there is no administrator either. -/
example : (runAll plainConsole [.bootstrap "hash"]
    (installed fun statement => statement == 5)).committed.users.rows = [] := rfl

end Runs

end AccountAuditReplay
