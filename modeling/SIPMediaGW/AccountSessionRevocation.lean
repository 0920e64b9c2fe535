import Mathlib.Algebra.Order.Field.Rat
import Mathlib.Tactic.Linarith
import SIPMediaGW.AccountConsole

/-! # Revocation of signed sessions

A cookie is compared with the epoch of the row that bears its name. The epoch of a row only
grows, but a name that comes back after a deletion starts again from zero. -/
namespace AccountSessionRevocation

open AccountTable
open AccountConsole
open LabelledExecutions

/-- Rows may go, none comes, and no epoch goes back. -/
def EpochsKept (t t' : UserTable) : Prop :=
  ∀ name b, t'.getUser name = some b →
    ∃ a, t.getUser name = some a ∧ a.sessionEpoch ≤ b.sessionEpoch

/-- What is left of `name` is past every epoch it had. -/
def Passed (name : String) (t t' : UserTable) : Prop :=
  ∀ b, t'.getUser name = some b →
    ∃ a, t.getUser name = some a ∧ a.sessionEpoch < b.sessionEpoch

/-- A cookie is too old, or its epoch is the row's at most, and behind it once revoked. -/
def Bounded (cfg : Config) (now : ℚ) (t : UserTable) (k : IssuedCookie) : Prop :=
  expired cfg now k.cookie ∨ ∀ a, t.getUser k.cookie.user = some a →
    k.cookie.epoch ≤ a.sessionEpoch ∧ (k.revoked = true → k.cookie.epoch < a.sessionEpoch)

def PendingBounded (t : UserTable) (p : Account) : Prop :=
  ∀ a, t.getUser p.username = some a → p.sessionEpoch ≤ a.sessionEpoch

structure Invariant (cfg : Config) (s : System) : Prop where
  issued : ∀ k ∈ s.issued, Bounded cfg s.now s.db.users k
  pending : ∀ p ∈ s.pending, PendingBounded s.db.users p

theorem EpochsKept.refl (t : UserTable) : EpochsKept t t := fun _ b hb => ⟨b, hb, le_refl _⟩

theorem Bounded.kept {cfg : Config} {now later : ℚ} {t t' : UserTable} {k : IssuedCookie}
    (h : Bounded cfg now t k) (htime : now ≤ later) (hk : EpochsKept t t') :
    Bounded cfg later t' k := by
  rcases h with hold | hrow
  · left
    have hage : now - k.cookie.openedAt ≤ later - k.cookie.openedAt := by linarith
    exact lt_of_lt_of_le hold hage
  · right
    intro b hb
    obtain ⟨a, ha, hle⟩ := hk _ b hb
    obtain ⟨hepoch, hrevoked⟩ := hrow a ha
    exact ⟨hepoch.trans hle, fun hr => lt_of_lt_of_le (hrevoked hr) hle⟩

theorem Bounded.revoked {cfg : Config} {now : ℚ} {t t' : UserTable} {name : String}
    {k : IssuedCookie} (h : Bounded cfg now t k) (hk : EpochsKept t t')
    (hp : Passed name t t') : Bounded cfg now t' (revoke name k) := by
  rw [revoke]
  split
  · rename_i hname
    rcases h with hold | hrow
    · exact .inl hold
    · right
      intro b hb
      obtain ⟨a, ha, hlt⟩ := hp b (hname ▸ hb)
      have hbehind := lt_of_le_of_lt (hrow a (hname ▸ ha)).1 hlt
      exact ⟨hbehind.le, fun _ => hbehind⟩
  · exact h.kept (le_refl _) hk

theorem PendingBounded.kept {t t' : UserTable} {p : Account} (h : PendingBounded t p)
    (hk : EpochsKept t t') : PendingBounded t' p := by
  intro b hb
  obtain ⟨a, ha, hle⟩ := hk _ b hb
  exact (h a ha).trans hle

theorem pendingBounded_of_getUser {t : UserTable} {p : Account}
    (h : t.getUser p.username = some p) : PendingBounded t p := by
  intro a ha
  rw [h] at ha
  rw [Option.some.inj ha]

theorem epochsKept_updateWhere {t : UserTable} {name : String} {set : Account → Account}
    (keepsName : ∀ a, (set a).username = a.username)
    (h : ∀ a, a.sessionEpoch ≤ (set a).sessionEpoch) :
    EpochsKept t (t.updateWhere name set keepsName) := by
  intro other b hb
  rw [getUser_updateWhere] at hb
  split at hb
  · obtain ⟨a, ha, rfl⟩ := Option.map_eq_some_iff.mp hb
    exact ⟨a, ha, h a⟩
  · exact ⟨b, hb, le_refl _⟩

theorem passed_updateWhere {t : UserTable} {name : String} {set : Account → Account}
    (keepsName : ∀ a, (set a).username = a.username)
    (h : ∀ a, a.sessionEpoch < (set a).sessionEpoch) :
    Passed name t (t.updateWhere name set keepsName) := by
  intro b hb
  rw [getUser_updateWhere, if_pos rfl] at hb
  obtain ⟨a, ha, rfl⟩ := Option.map_eq_some_iff.mp hb
  exact ⟨a, ha, h a⟩

theorem epochsKept_deleteWhere (t : UserTable) (name : String) :
    EpochsKept t (t.deleteWhere name) := by
  intro other b hb
  rw [getUser_deleteWhere] at hb
  split at hb
  · cases hb
  · exact ⟨b, hb, le_refl _⟩

theorem passed_deleteWhere (t : UserTable) (name : String) :
    Passed name t (t.deleteWhere name) := by
  intro b hb
  rw [getUser_deleteWhere, if_pos rfl] at hb
  cases hb

/-- A write that ends the sessions of the account it names. -/
structure Ends (name : String) (t t' : UserTable) : Prop where
  kept : EpochsKept t t'
  passed : Passed name t t'

theorem ends_setPassword (db : Database) (name hash : String) (mustChange : Bool)
    (line : Option AuditLine) :
    Ends name db.users (setPassword db name hash mustChange line).1.users where
  kept := epochsKept_updateWhere (withPassword_username hash mustChange)
    fun a => Nat.le_succ a.sessionEpoch
  passed := passed_updateWhere (withPassword_username hash mustChange)
    fun a => Nat.lt_succ_self a.sessionEpoch

theorem ends_bumpEpoch (db : Database) (name : String) :
    Ends name db.users (bumpEpoch db name).users where
  kept := epochsKept_updateWhere withBumpedEpoch_username fun a => Nat.le_succ a.sessionEpoch
  passed := passed_updateWhere withBumpedEpoch_username
    fun a => Nat.lt_succ_self a.sessionEpoch

theorem ends_deleteUser (db : Database) (name : String) (line : Option AuditLine) :
    Ends name db.users (deleteUser db name line).1.users :=
  ⟨epochsKept_deleteWhere _ _, passed_deleteWhere _ _⟩

theorem epochsKept_updateAccount (db : Database) (name : String) (fields : Fields)
    (line : Option AuditLine) :
    EpochsKept db.users (updateAccount db name fields line).1.users := by
  rw [updateAccount]
  split
  · exact .refl _
  · apply epochsKept_updateWhere (withFields_username fields)
    intro a
    simp only [withFields]
    split
    · exact Nat.le_succ _
    · exact le_refl _

/-- A role or a state given moves the epoch; a name alone does not. -/
theorem ends_updateAccount (db : Database) (name : String) {fields : Fields}
    (line : Option AuditLine) (h : fields.bumps = true) :
    Ends name db.users (updateAccount db name fields line).1.users := by
  refine ⟨epochsKept_updateAccount _ _ _ _, ?_⟩
  have hgives : fields.isEmpty = false := by
    simp only [Fields.bumps, Bool.or_eq_true] at h
    rcases h with h | h <;> simp [Fields.isEmpty, ← Option.not_isSome, h]
  simp only [updateAccount, hgives]
  apply passed_updateWhere (withFields_username fields)
  intro a
  simp [withFields, h]

/-- What a statement does to the epochs, an insertion apart. -/
structure StatementEpochs (db : Database) (f : Flight) (done : Advance) : Prop where
  kept : EpochsKept db.users done.db.users
  ends : ∀ name, f.revokes = some name → Passed name db.users done.db.users
  opened : ∀ a, done.opened = some a → done.db.users.getUser a.username = some a

def Flight.createsUser : Flight → Option String
  | .createChecked _ new => some new.username
  | _ => none

theorem opened_setPassword {db : Database} {name hash : String} {mustChange : Bool}
    {line : Option AuditLine} {a : Account}
    (h : (setPassword db name hash mustChange line).2 = some a) :
    (setPassword db name hash mustChange line).1.users.getUser a.username = some a := by
  have hname : a.username = name := username_of_getUser h
  rw [hname]
  exact h

theorem statement_epochs {db : Database} {f : Flight} {done : Advance}
    (st : Statement db f done) (h : Flight.createsUser f = none) : StatementEpochs db f done := by
  cases st with
  | passwordChanged caller ip current newHash line =>
    have hends := ends_setPassword db caller.username newHash false line
    refine ⟨hends.kept, ?_, fun a ha => opened_setPassword ha⟩
    intro name hname
    obtain rfl := Option.some.inj hname
    exact hends.passed
  | created => cases h
  | updated user a fields =>
    refine ⟨epochsKept_updateAccount _ _ _ _, ?_, fun b hb => nomatch hb⟩
    intro name hname
    simp only [Flight.revokes] at hname
    split at hname
    · rename_i hbumps
      obtain rfl := Option.some.inj hname
      exact (ends_updateAccount db _ _ hbumps).passed
    · cases hname
  | passwordReset user newHash a line own =>
    have hends := ends_setPassword db a.username newHash true line
    refine ⟨hends.kept, ?_, ?_⟩
    · intro name hname
      obtain rfl := Option.some.inj hname
      exact hends.passed
    · intro b hb
      dsimp only at hb
      split at hb
      · exact opened_setPassword hb
      · cases hb
  | deleted user a =>
    have hends := ends_deleteUser db a.username
      (some ⟨user, "delete", a.username,
        [("role", .str a.role.text), ("source", .str a.source.text)]⟩)
    refine ⟨hends.kept, ?_, fun b hb => nomatch hb⟩
    intro name hname
    obtain rfl := Option.some.inj hname
    exact hends.passed
  | _ => exact ⟨.refl _, fun _ hname => (nomatch hname), fun _ ha => (nomatch ha)⟩

/-- Nothing of an earlier account of that name can still be presented: its cookies are too
old, or were issued since at the epoch a new row starts from. -/
def unusedName (cfg : Config) (s : System) (name : String) : Bool :=
  (s.issued.all fun k => decide (k.cookie.user ≠ name) || decide (expired cfg s.now k.cookie) ||
      (! k.revoked && decide (k.cookie.epoch = 0))) &&
    s.pending.all fun p => decide (p.username ≠ name) || decide (p.sessionEpoch = 0)

/-- The condition on a step: it does not create an account under a name still in use. -/
def createsUnused (cfg : Config) (s : System) : Event → Bool
  | .bootstrap _ => decide (s.db.users.countUsers ≠ 0) || unusedName cfg s adminUser
  | .advance i => (s.flights[i]?).all fun f =>
      (Flight.createsUser f.flight).all fun name =>
        (s.db.users.getUser name).isSome || unusedName cfg s name
  | _ => true

/-- Rows but the one of `name` are as they were, and that one starts at epoch zero. -/
structure Creates (name : String) (t t' : UserTable) : Prop where
  fresh : ∀ a, t'.getUser name = some a → a.sessionEpoch = 0
  others : ∀ other, other ≠ name → t'.getUser other = t.getUser other

theorem creates_createUser {db db' : Database} {username createdBy : String} {role : Role}
    {source : Source} {hash externalId firstName lastName : Option String} {mustChange : Bool}
    {line : Option AuditLine} (h : createUser db username role source hash createdBy mustChange
      externalId firstName lastName line = some db') :
    db.users.getUser username = none ∧ Creates username db.users db'.users := by
  obtain ⟨t, inserted, rfl⟩ := Option.map_eq_some_iff.mp h
  refine ⟨(insert_eq_some inserted).1, ?_, ?_⟩
  · intro a ha
    simp only [write, getUser_insert inserted, if_true, Option.some.injEq] at ha
    rw [← ha]
  · intro other hne
    simp only [write, getUser_insert inserted]
    rw [if_neg hne]

theorem Bounded.created {cfg : Config} {s : System} {t' : UserTable} {name : String}
    (hk : ∀ k ∈ s.issued, Bounded cfg s.now s.db.users k)
    (hu : unusedName cfg s name = true) (hc : Creates name s.db.users t') :
    ∀ k ∈ s.issued, Bounded cfg s.now t' k := by
  intro k hmem
  by_cases hname : k.cookie.user = name
  · have hold := List.all_eq_true.mp (Bool.and_eq_true_iff.mp hu).1 k hmem
    simp only [hname, Bool.or_eq_true, Bool.and_eq_true, Bool.not_eq_true',
      decide_eq_true_eq] at hold
    rcases hold with (hne | hexpired) | ⟨hrevoked, hzero⟩
    · exact absurd rfl hne
    · exact .inl hexpired
    · right
      intro a ha
      rw [hrevoked, hzero]
      exact ⟨Nat.zero_le _, fun hr => nomatch hr⟩
  · rcases hk k hmem with hexpired | hrow
    · exact .inl hexpired
    · right
      rwa [hc.others _ hname]

theorem PendingBounded.created {cfg : Config} {s : System} {t' : UserTable} {name : String}
    (hp : ∀ p ∈ s.pending, PendingBounded s.db.users p)
    (hu : unusedName cfg s name = true) (hc : Creates name s.db.users t') :
    ∀ p ∈ s.pending, PendingBounded t' p := by
  intro p hmem
  by_cases hname : p.username = name
  · have hold := List.all_eq_true.mp (Bool.and_eq_true_iff.mp hu).2 p hmem
    simp only [hname, Bool.or_eq_true, decide_eq_true_eq] at hold
    rcases hold with hne | hzero
    · exact absurd rfl hne
    · intro a _
      rw [hzero]
      exact Nat.zero_le _
  · intro a ha
    rw [hc.others _ hname] at ha
    exact hp p hmem a ha

theorem invariant_bootstrapped {cfg : Config} {s : System} {defaultHash : String}
    (hs : Invariant cfg s) (hp : createsUnused cfg s (.bootstrap defaultHash) = true) :
    Invariant cfg { s with db := ensureBootstrap s.db defaultHash } := by
  simp only [createsUnused, Bool.or_eq_true, decide_eq_true_eq] at hp
  rw [ensureBootstrap]
  split
  · exact ⟨hs.issued, hs.pending⟩
  · rename_i hempty
    have hu := hp.resolve_left hempty
    cases hcreate : createUser s.db adminUser .admin .localAccount (some defaultHash)
        "bootstrap" true none none none (some ⟨"bootstrap", "create", adminUser,
          [("role", .str Role.admin.text), ("source", .str Source.localAccount.text)]⟩) with
    | none => exact ⟨hs.issued, hs.pending⟩
    | some db' =>
      obtain ⟨-, hc⟩ := creates_createUser hcreate
      have hissued := Bounded.created hs.issued hu hc
      have hpending := PendingBounded.created hs.pending hu hc
      exact ⟨hissued, hpending⟩

theorem invariant_inserted {cfg : Config} {s : System} {i : ℕ} {f : InFlight} {done : Advance}
    {name : String} (hs : Invariant cfg s) (hp : createsUnused cfg s (.advance i) = true)
    (inFlight : s.flights[i]? = some f) (st : Statement s.db f.flight done)
    (hname : Flight.createsUser f.flight = some name) : Invariant cfg (completed s i f done) := by
  obtain ⟨flight, stale⟩ := f
  cases st with
  | created user new db' line inserted =>
    obtain ⟨hnone, hc⟩ := creates_createUser inserted
    have hu : unusedName cfg s new.username = true := by
      simpa [createsUnused, inFlight, Flight.createsUser, hnone] using hp
    have hissued := Bounded.created hs.issued hu hc
    have hpending := PendingBounded.created hs.pending hu hc
    exact ⟨hissued, by simpa [completed] using hpending⟩
  | _ => cases hname

theorem invariant_written {cfg : Config} {s : System} {i : ℕ} {f : InFlight} {done : Advance}
    (hs : Invariant cfg s) (hw : StatementEpochs s.db f.flight done) :
    Invariant cfg (completed s i f done) := by
  constructor
  · intro k hk
    simp only [completed] at hk ⊢
    split at hk
    · rename_i name hname
      obtain ⟨j, hj, rfl⟩ := List.mem_map.mp hk
      exact (hs.issued j hj).revoked hw.kept (hw.ends name hname)
    · exact (hs.issued k hk).kept le_rfl hw.kept
  · intro p hmem
    rcases List.mem_append.mp hmem with hold | hnew
    · exact (hs.pending p hold).kept hw.kept
    · rw [Option.mem_toList] at hnew
      exact pendingBounded_of_getUser (hw.opened p hnew)

theorem invariant_step {cfg : Config} {s t : System} {e : Event} (hs : Invariant cfg s)
    (hp : createsUnused cfg s e = true) (h : Step cfg s e t) : Invariant cfg t := by
  cases step_effect h with
  | ticked d later =>
    exact ⟨fun k hk => (hs.issued k hk).kept (by simpa using later) (.refl _), hs.pending⟩
  | bootstrapped defaultHash => exact invariant_bootstrapped hs hp
  | signedIn username password a found =>
    refine ⟨hs.issued, ?_⟩
    intro p hmem
    rcases List.mem_append.mp hmem with hold | hnew
    · exact hs.pending p hold
    · obtain rfl := List.mem_singleton.mp hnew
      rw [← username_of_getUser found] at found
      exact pendingBounded_of_getUser found
  | opened i a waiting =>
    have ha := hs.pending a (List.mem_of_getElem? waiting)
    refine ⟨?_, fun p hmem => hs.pending p (List.mem_of_mem_eraseIdx hmem)⟩
    intro k hk
    rcases List.mem_append.mp hk with hold | hnew
    · exact hs.issued k hold
    · obtain rfl := List.mem_singleton.mp hnew
      exact .inr fun b hb => ⟨ha b hb, fun hr => nomatch hr⟩
  | signedOut k c known =>
    have hends := ends_bumpEpoch s.db c.cookie.user
    refine ⟨?_, fun p hmem => (hs.pending p hmem).kept hends.kept⟩
    intro k hk
    obtain ⟨j, hj, rfl⟩ := List.mem_map.mp hk
    exact (hs.issued j hj).revoked hends.kept hends.passed
  | admitted k r f unread => exact ⟨hs.issued, hs.pending⟩
  | refused i => exact ⟨hs.issued, hs.pending⟩
  | advanced i f done inFlight st =>
    cases hname : Flight.createsUser f.flight with
    | none => exact invariant_written hs (statement_epochs st hname)
    | some name => exact invariant_inserted hs hp inFlight st hname

theorem Bounded.refused {cfg : Config} {now : ℚ} {t : UserTable} {k : IssuedCookie}
    (h : Bounded cfg now t k) (haccepted : (sessionAccount cfg t now k.cookie).isSome) :
    k.revoked = false := by
  rw [sessionAccount] at haccepted
  split at haccepted
  · cases haccepted
  · rename_i hyoung
    obtain ⟨a, ha⟩ := Option.isSome_iff_exists.mp haccepted
    obtain ⟨b, hb, hrow⟩ := Option.bind_eq_some_iff.mp ha
    split at hrow
    · rename_i hmatch
      have hepoch : b.sessionEpoch = k.cookie.epoch := by
        simpa using (Bool.and_eq_true_iff.mp hmatch).2
      have hbehind := ((h.resolve_left hyoung) b hb).2
      by_contra hrevoked
      have := hbehind (by simpa using hrevoked)
      omega
    · cases hrow

/-- Every cookie `sessionAccount` accepts was issued after the last revoking event. -/
def RevokedRefused (cfg : Config) (s : System) : Prop :=
  ∀ k ∈ s.issued, (sessionAccount cfg s.db.users s.now k.cookie).isSome → k.revoked = false

def SessionsRevoked (cfg : Config) : Prop :=
  ∀ db s, Execution (Step cfg) (quiet db) s → RevokedRefused cfg s

/-- In every run that gives no account a name still in use. -/
theorem revoked_cookies_refused (cfg : Config) {db : Database} {s : System}
    (h : Execution (Guarded (fun u e => createsUnused cfg u e = true) (Step cfg)) (quiet db) s) :
    RevokedRefused cfg s := by
  have hs : Invariant cfg s := h.guarded_invariant
    (fun _ _ _ hi hp st => invariant_step hi hp st) ⟨by simp [quiet], by simp [quiet]⟩
  exact fun k hk haccepted => (hs.issued k hk).refused haccepted

def oneAdmin : Database := ⟨⟨[someAccount "ada@sample.org" .admin], by decide⟩, []⟩

def creation : List Event :=
  [.request 0 (.createUser ⟨"bob@sample.org", "Bob", "B", "operator", "local", "bob@sample.org"⟩),
    .advance 0, .advance 0]

/-- An account is created, signs in, and is deleted. -/
def deletionRun : List Event :=
  signedIn "ada@sample.org" ++ creation ++ signedIn "bob@sample.org" ++
    .request 0 (.deleteUser "bob@sample.org") :: List.replicate 3 (.advance 0)

theorem deleted_account_is_refused :
    ∃ s, runEvents (guardedNext (createsUnused plainConsole) (next plainConsole))
        (quiet oneAdmin) deletionRun = some s ∧ s.issued.length = 2 ∧
      RevokedRefused plainConsole s := by
  have hrun : (runEvents (guardedNext (createsUnused plainConsole) (next plainConsole))
      (quiet oneAdmin) deletionRun).map (fun s => s.issued.length) = some 2 := by
    decide +kernel
  obtain ⟨s, hs, hlength⟩ := Option.map_eq_some_iff.mp hrun
  exact ⟨s, hs, hlength, revoked_cookies_refused plainConsole (runEvents_guarded hs)⟩

/-- The same name is created again: the cookie of the deleted account is accepted. -/
theorem recreated_account_accepts_an_old_cookie : ¬ SessionsRevoked plainConsole := by
  intro h
  have hrun : (runEvents (next plainConsole) (quiet oneAdmin) (deletionRun ++ creation)).map
      (fun s => s.issued.any fun k =>
        (sessionAccount plainConsole s.db.users s.now k.cookie).isSome && k.revoked) =
      some true := by decide +kernel
  obtain ⟨s, hs, hany⟩ := Option.map_eq_some_iff.mp hrun
  obtain ⟨k, hk, hboth⟩ := List.any_eq_true.mp hany
  obtain ⟨haccepted, hrevoked⟩ := Bool.and_eq_true_iff.mp hboth
  rw [h oneAdmin s (runEvents_execution hs) k hk haccepted] at hrevoked
  cases hrevoked

end AccountSessionRevocation
