import Mathlib.Data.Rat.Defs
import SIPMediaGW.AccountTable
import SIPMediaGW.LabelledExecutions

/-! # The account routes over one user table

A request is a list of statements: between two of them any other request may run, and each
reads what is committed when it starts. `stale` and `revoked` are ghost observations. -/
namespace AccountConsole

open AccountTable
open LabelledExecutions
open PythonJson

/-- The session cookie: signed, kept by the browser alone. -/
structure Cookie where
  user : String
  epoch : ℕ
  openedAt : ℤ

structure Config where
  sessionHours : ℕ
  /-- scrypt of a password against a stored hash. -/
  verify : String → String → Bool

structure Refusal where
  status : ℕ
  detail : String

def checkPassword (cfg : Config) (password : String) : Option String → Bool
  | none => false
  | some stored => decide (stored ≠ "") && cfg.verify password stored

def adminUser : String := "admin"

/-- The count and the insert of the bootstrap are one step here. -/
def ensureBootstrap (db : Database) (defaultHash : String) : Database :=
  if db.users.countUsers ≠ 0 then db
  else (createUser db adminUser .admin .localAccount (some defaultHash) "bootstrap" true none
    none none (some ⟨"bootstrap", "create", adminUser,
      [("role", .str Role.admin.text), ("source", .str Source.localAccount.text)]⟩)).getD db

/-- `authenticate`, once the table is not empty. -/
def authenticate (cfg : Config) (t : UserTable) (username password : String) :
    Option Account :=
  (t.getUser username).bind fun a =>
    if a.enabled && a.source == .localAccount && checkPassword cfg password a.passwordHash then
      some a
    else none

def expired (cfg : Config) (now : ℚ) (c : Cookie) : Prop :=
  (cfg.sessionHours * 3600 : ℚ) < now - c.openedAt

instance (cfg : Config) (now : ℚ) (c : Cookie) : Decidable (expired cfg now c) :=
  inferInstanceAs (Decidable (_ < _))

def sessionAccount (cfg : Config) (t : UserTable) (now : ℚ) (c : Cookie) : Option Account :=
  if expired cfg now c then none
  else (t.getUser c.user).bind fun a =>
    if a.enabled && a.sessionEpoch == c.epoch then some a else none

def requireSession (cfg : Config) (t : UserTable) (now : ℚ) (c : Cookie) :
    Except Refusal Account :=
  match sessionAccount cfg t now c with
  | some a => .ok a
  | none => .error ⟨401, "Authentication required"⟩

def requireUser (cfg : Config) (t : UserTable) (now : ℚ) (c : Cookie) :
    Except Refusal Account := do
  let a ← requireSession cfg t now c
  if a.mustChangePassword then .error ⟨403, "password change required"⟩ else .ok a

def requireAdmin (cfg : Config) (t : UserTable) (now : ℚ) (c : Cookie) :
    Except Refusal Account := do
  let a ← requireUser cfg t now c
  if a.role ≠ .admin then .error ⟨403, "Administrator role required"⟩ else .ok a

/-- `UserPatch`. -/
structure UserPatch where
  role : Option String
  enabled : Option Bool
  firstName : Option String
  lastName : Option String

/-- `NewUser`, the password replaced by the hash of one the rule accepts. -/
structure NewUser where
  username : String
  firstName : String
  lastName : String
  role : String
  source : String
  passwordHash : String

/-- The routes that write. A password the rule refuses ends a request with no write, so
only hashes of accepted ones stand here. -/
inductive Request where
  | changePassword (ip current newHash : String)
  | createUser (new : NewUser)
  | updateUser (name : String) (patch : UserPatch)
  | resetPassword (name newHash : String)
  | deleteUser (name : String)

def cleanName (value : Option String) (what : String) : Except Refusal String :=
  let text := strip (value.getD "")
  if text = "" ∨ 80 < text.length then
    .error ⟨400, what ++ " is required (80 characters at most)"⟩
  else .ok text

def lastAdmin (t : UserTable) (a : Account) : Bool :=
  a.activeAdmin && decide (t.countActiveAdmins ≤ 1)

def target (t : UserTable) (name : String) : Except Refusal Account :=
  match t.getUser name with
  | some a => .ok a
  | none => .error ⟨404, "no such user"⟩

def nameChange (a : Account) (patch : UserPatch) :
    Except Refusal (Option (String × String)) := do
  if patch.firstName.isSome || patch.lastName.isSome then
    let first ← cleanName (patch.firstName.or a.firstName) "first name"
    let last ← cleanName (patch.lastName.or a.lastName) "last name"
    if some first = a.firstName ∧ some last = a.lastName then .ok none
    else .ok (some (first, last))
  else .ok none

def rolesText : String := "role must be one of admin, operator"

def roleChange (t : UserTable) (user : String) (a : Account) (patch : UserPatch) :
    Except Refusal (Option Role) :=
  match patch.role with
  | none => .ok none
  | some text =>
    if text = a.role.text then .ok none
    else match roleOfText text with
      | none => .error ⟨400, rolesText⟩
      | some role =>
        if a.username = user then .error ⟨409, "an account cannot change its own role"⟩
        else if lastAdmin t a then .error ⟨409, "the last administrator cannot be demoted"⟩
        else .ok (some role)

def enabledChange (t : UserTable) (user : String) (a : Account) (patch : UserPatch) :
    Except Refusal (Option Bool) :=
  match patch.enabled with
  | none => .ok none
  | some enabled =>
    if enabled = a.enabled then .ok none
    else if enabled then .ok (some true)
    else if a.username = user then .error ⟨409, "an account cannot disable itself"⟩
    else if lastAdmin t a then .error ⟨409, "the last administrator cannot be disabled"⟩
    else .ok (some false)

/-- What the audit line of an update says. -/
def changesOf (f : Fields) : Dict :=
  (f.name.map fun n => ("name", Json.str (n.1 ++ " " ++ n.2))).toList ++
    (f.role.map fun r => ("role", Json.str r.text)).toList ++
    (f.enabled.map fun b => ("enabled", Json.bool b)).toList

/-- The address rule: a local part, one @, a domain of at least two labels. -/
def isEmail (name : String) : Bool :=
  let plain (c : Char) : Bool := ('a' ≤ c && c ≤ 'z') || ('0' ≤ c && c ≤ '9')
  match split '@' name.toList with
  | [first :: more, domain] =>
    plain first && decide (more.length ≤ 62) &&
      more.all (fun c => plain c || c == '.' || c == '_' || c == '+' || c == '-') &&
      decide (2 ≤ (split '.' domain).length) &&
      (split '.' domain).all fun label =>
        !label.isEmpty && label.all fun c => plain c || c == '-'
  | _ => false

/-- A new account the checks of the body let through. -/
structure CheckedUser where
  username : String
  firstName : String
  lastName : String
  role : Role
  passwordHash : String

def checkNewUser (t : UserTable) (new : NewUser) : Except Refusal CheckedUser := do
  if ! isEmail new.username then .error ⟨400, "username must be an e-mail address"⟩
  let first ← cleanName (some new.firstName) "first name"
  let last ← cleanName (some new.lastName) "last name"
  match roleOfText new.role with
  | none => .error ⟨400, rolesText⟩
  | some role =>
    if new.source ≠ "local" ∧ new.source ≠ "proconnect" then
      .error ⟨400, "source must be one of local, proconnect"⟩
    else if new.source ≠ "local" then
      .error ⟨400, "ProConnect accounts arrive with the SSO integration"⟩
    else if (t.getUser new.username).isSome then
      .error ⟨409, "this username already exists"⟩
    else .ok ⟨new.username, first, last, role, new.passwordHash⟩

/-- A request between two of its statements, with what it has read. -/
inductive Flight where
  | changeAdmitted (caller : Account) (ip current newHash : String)
  | createAdmitted (user : String) (new : NewUser)
  | createChecked (user : String) (new : CheckedUser)
  | putAdmitted (user name : String) (patch : UserPatch)
  | putFound (user : String) (patch : UserPatch) (account : Account)
  | putRoleChecked (user : String) (patch : UserPatch) (account : Account)
      (name : Option (String × String)) (role : Option Role)
  | putChecked (user : String) (account : Account) (fields : Fields)
  | resetAdmitted (user name newHash : String)
  | resetFound (user newHash : String) (account : Account)
  | deleteAdmitted (user name : String)
  | deleteFound (user : String) (account : Account)
  | deleteChecked (user : String) (account : Account)

/-- The guard of a route, read on every request. -/
def routeGuard (cfg : Config) (t : UserTable) (now : ℚ) (c : Cookie) :
    Request → Except Refusal Flight
  | .changePassword ip current newHash => do
    let a ← requireSession cfg t now c
    .ok (.changeAdmitted a ip current newHash)
  | .createUser new => do
    let a ← requireAdmin cfg t now c
    .ok (.createAdmitted a.username new)
  | .updateUser name patch => do
    let a ← requireAdmin cfg t now c
    .ok (.putAdmitted a.username name patch)
  | .resetPassword name newHash => do
    let a ← requireAdmin cfg t now c
    .ok (.resetAdmitted a.username name newHash)
  | .deleteUser name => do
    let a ← requireAdmin cfg t now c
    .ok (.deleteAdmitted a.username name)

/-- After one statement: the account handed to `openSession`, and what is left to do. -/
structure Advance where
  db : Database
  opened : Option Account
  next : Option Flight

def reads (db : Database) (f : Flight) : Advance := ⟨db, none, some f⟩

def changePassword (cfg : Config) (db : Database) (caller : Account)
    (ip current newHash : String) : Except Refusal Advance :=
  if caller.source ≠ .localAccount then
    .error ⟨400, "this account signs in through the identity provider"⟩
  else if ! checkPassword cfg current caller.passwordHash then
    .error ⟨403, "current password is wrong"⟩
  else
    let line : AuditLine :=
      ⟨caller.username, "password.change", caller.username, [("ip", .str ip)]⟩
    let updated := setPassword db caller.username newHash false (some line)
    .ok ⟨updated.1, updated.2, none⟩

def insertChecked (db : Database) (user : String) (new : CheckedUser) :
    Except Refusal Advance :=
  let line : AuditLine := ⟨user, "create", new.username,
    [("role", .str new.role.text), ("source", .str Source.localAccount.text),
      ("name", .str (new.firstName ++ " " ++ new.lastName))]⟩
  match createUser db new.username new.role .localAccount (some new.passwordHash) user true
      none (some new.firstName) (some new.lastName) (some line) with
  | some db' => .ok ⟨db', none, none⟩
  | none => .error ⟨500, "Internal Server Error"⟩

def resetChecked (db : Database) (user newHash : String) (a : Account) :
    Except Refusal Advance :=
  if a.source ≠ .localAccount then .error ⟨400, "this account has no local password"⟩
  else
    let updated := setPassword db a.username newHash true
      (some ⟨user, "password.reset", a.username, []⟩)
    .ok ⟨updated.1, if a.username = user then updated.2 else none, none⟩

def updateChecked (db : Database) (user : String) (a : Account) (fields : Fields) : Advance :=
  ⟨(updateAccount db a.username fields
    (some ⟨user, "update", a.username, changesOf fields⟩)).1, none, none⟩

def deleteWritten (db : Database) (user : String) (a : Account) : Advance :=
  ⟨(deleteUser db a.username (some ⟨user, "delete", a.username,
    [("role", .str a.role.text), ("source", .str a.source.text)]⟩)).1, none, none⟩

/-- The next statement of a request. -/
def advance (cfg : Config) (db : Database) : Flight → Except Refusal Advance
  | .changeAdmitted caller ip current newHash => changePassword cfg db caller ip current newHash
  | .createAdmitted user new => do
    let checked ← checkNewUser db.users new
    .ok (reads db (.createChecked user checked))
  | .createChecked user new => insertChecked db user new
  | .putAdmitted user name patch => do
    let a ← target db.users name
    .ok (reads db (.putFound user patch a))
  | .putFound user patch a => do
    let name ← nameChange a patch
    let role ← roleChange db.users user a patch
    .ok (reads db (.putRoleChecked user patch a name role))
  | .putRoleChecked user patch a name role => do
    let enabled ← enabledChange db.users user a patch
    .ok (reads db (.putChecked user a ⟨name, role, enabled⟩))
  | .putChecked user a fields => .ok (updateChecked db user a fields)
  | .resetAdmitted user name newHash => do
    let a ← target db.users name
    .ok (reads db (.resetFound user newHash a))
  | .resetFound user newHash a => resetChecked db user newHash a
  | .deleteAdmitted user name => do
    let a ← target db.users name
    .ok (reads db (.deleteFound user a))
  | .deleteFound user a =>
    if a.username = user then .error ⟨409, "an account cannot delete itself"⟩
    else if lastAdmin db.users a then .error ⟨409, "the last administrator cannot be deleted"⟩
    else .ok (reads db (.deleteChecked user a))
  | .deleteChecked user a => .ok (deleteWritten db user a)

/-- A cookie and whether its account had a revoking event since it was issued. -/
structure IssuedCookie where
  cookie : Cookie
  revoked : Bool

/-- `stale`: a write took an administrator's rights since this request read its target. -/
structure InFlight where
  flight : Flight
  stale : Bool

/-- `pending` holds the accounts read back for a session that is not open yet. -/
structure System where
  db : Database
  now : ℚ
  pending : List Account
  issued : List IssuedCookie
  flights : List InFlight

def quiet (db : Database) : System := ⟨db, 0, [], [], []⟩

inductive Event where
  | tick (d : ℚ)
  | bootstrap (defaultHash : String)
  | signIn (username password : String)
  | openSession (i : ℕ)
  | signOut (k : ℕ)
  | request (k : ℕ) (r : Request)
  | advance (i : ℕ)

def revoke (name : String) (k : IssuedCookie) : IssuedCookie :=
  if k.cookie.user = name then { k with revoked := true } else k

/-- The account whose sessions this write ends. -/
def Flight.revokes : Flight → Option String
  | .changeAdmitted caller _ _ _ => some caller.username
  | .resetFound _ _ a => some a.username
  | .putChecked _ a fields => if fields.bumps then some a.username else none
  | .deleteChecked _ a => some a.username
  | _ => none

/-- The next statement takes the rights of an account that is an enabled administrator. -/
def Flight.takesRights (t : UserTable) : Flight → Bool
  | .putChecked _ a fields =>
    (t.getUser a.username).any fun b => b.activeAdmin && ! (withFields fields b).activeAdmin
  | .deleteChecked _ a => (t.getUser a.username).any Account.activeAdmin
  | _ => false

def Flight.hasRead : Flight → Bool
  | .putFound .. | .putRoleChecked .. | .putChecked .. => true
  | .deleteFound .. | .deleteChecked .. => true
  | _ => false

def markStale (f : InFlight) : InFlight := { f with stale := f.stale || f.flight.hasRead }

def issue (now : ℚ) (a : Account) : IssuedCookie :=
  ⟨⟨a.username, a.sessionEpoch, now.floor⟩, false⟩

/-- The system once a statement of request `i` went through. -/
def completed (s : System) (i : ℕ) (f : InFlight) (done : Advance) : System :=
  let others := s.flights.eraseIdx i
  { s with
    db := done.db
    pending := s.pending ++ done.opened.toList
    issued := match f.flight.revokes with
      | some name => s.issued.map (revoke name)
      | none => s.issued
    flights := (if f.flight.takesRights s.db.users then others.map markStale else others) ++
      (done.next.map fun g => ⟨g, f.stale⟩).toList }

def advanceFlight (cfg : Config) (s : System) (i : ℕ) (f : InFlight) : System :=
  match advance cfg s.db f.flight with
  | .error _ => { s with flights := s.flights.eraseIdx i }
  | .ok done => completed s i f done

/-- `none` where the event is not enabled. -/
def next (cfg : Config) (s : System) : Event → Option System
  | .tick d => if 0 ≤ d then some { s with now := s.now + d } else none
  | .bootstrap defaultHash => some { s with db := ensureBootstrap s.db defaultHash }
  | .signIn username password =>
    (authenticate cfg s.db.users username password).map fun a =>
      { s with pending := s.pending ++ [a] }
  | .openSession i => (s.pending[i]?).map fun a =>
      { s with pending := s.pending.eraseIdx i, issued := s.issued ++ [issue s.now a] }
  | .signOut k => (s.issued[k]?).map fun c =>
      { s with db := bumpEpoch s.db c.cookie.user
               issued := s.issued.map (revoke c.cookie.user) }
  | .request k r => (s.issued[k]?).bind fun c =>
      match routeGuard cfg s.db.users s.now c.cookie r with
      | .ok f => some { s with flights := s.flights ++ [⟨f, false⟩] }
      | .error _ => none
  | .advance i => (s.flights[i]?).map fun f => advanceFlight cfg s i f

def Step (cfg : Config) : System → Event → System → Prop := StepOf (next cfg)

theorem target_eq_ok {t : UserTable} {name : String} {a : Account}
    (h : target t name = .ok a) : t.getUser name = some a := by
  rw [target] at h
  split at h
  · rename_i found
    obtain rfl := Except.ok.inj h
    exact found
  · cases h

/-- What one statement of a request does when it answers no refusal. -/
inductive Statement (db : Database) : Flight → Advance → Prop where
  | passwordChanged (caller ip current newHash line) :
      Statement db (.changeAdmitted caller ip current newHash)
        ⟨(setPassword db caller.username newHash false line).1,
          (setPassword db caller.username newHash false line).2, none⟩
  | newUserChecked (user new checked) :
      Statement db (.createAdmitted user new) (reads db (.createChecked user checked))
  | created (user new db' line) (inserted : createUser db new.username new.role .localAccount
        (some new.passwordHash) user true none (some new.firstName) (some new.lastName) line =
          some db') :
      Statement db (.createChecked user new) ⟨db', none, none⟩
  | putFound (user name patch a) (found : db.users.getUser name = some a) :
      Statement db (.putAdmitted user name patch) (reads db (.putFound user patch a))
  | roleChecked (user patch a name role) (allowed : roleChange db.users user a patch = .ok role) :
      Statement db (.putFound user patch a) (reads db (.putRoleChecked user patch a name role))
  | stateChecked (user patch a name role enabled)
      (allowed : enabledChange db.users user a patch = .ok enabled) :
      Statement db (.putRoleChecked user patch a name role)
        (reads db (.putChecked user a ⟨name, role, enabled⟩))
  | updated (user a fields) :
      Statement db (.putChecked user a fields) (updateChecked db user a fields)
  | resetFound (user name newHash a) (found : db.users.getUser name = some a) :
      Statement db (.resetAdmitted user name newHash) (reads db (.resetFound user newHash a))
  | passwordReset (user newHash a line) (own : Bool) :
      Statement db (.resetFound user newHash a)
        ⟨(setPassword db a.username newHash true line).1,
          if own then (setPassword db a.username newHash true line).2 else none, none⟩
  | deleteFound (user name a) (found : db.users.getUser name = some a) :
      Statement db (.deleteAdmitted user name) (reads db (.deleteFound user a))
  | deleteAllowed (user a) (spared : lastAdmin db.users a = false) :
      Statement db (.deleteFound user a) (reads db (.deleteChecked user a))
  | deleted (user a) :
      Statement db (.deleteChecked user a) (deleteWritten db user a)

theorem advance_statement {cfg : Config} {db : Database} {f : Flight} {done : Advance}
    (h : advance cfg db f = .ok done) : Statement db f done := by
  cases f with
  | changeAdmitted caller ip current newHash =>
    simp only [advance, changePassword] at h
    split at h
    · cases h
    · split at h
      · cases h
      · obtain rfl := Except.ok.inj h
        exact .passwordChanged caller ip current newHash _
  | createAdmitted user new =>
    obtain ⟨checked, _, h⟩ := bind_eq_ok h
    obtain rfl := Except.ok.inj h
    exact .newUserChecked user new checked
  | createChecked user new =>
    simp only [advance, insertChecked] at h
    split at h
    · rename_i db' inserted
      obtain rfl := Except.ok.inj h
      exact .created user new db' _ inserted
    · cases h
  | putAdmitted user name patch =>
    obtain ⟨a, found, h⟩ := bind_eq_ok h
    obtain rfl := Except.ok.inj h
    exact .putFound user name patch a (target_eq_ok found)
  | putFound user patch a =>
    obtain ⟨name, _, h⟩ := bind_eq_ok h
    obtain ⟨role, allowed, h⟩ := bind_eq_ok h
    obtain rfl := Except.ok.inj h
    exact .roleChecked user patch a name role allowed
  | putRoleChecked user patch a name role =>
    obtain ⟨enabled, allowed, h⟩ := bind_eq_ok h
    obtain rfl := Except.ok.inj h
    exact .stateChecked user patch a name role enabled allowed
  | putChecked user a fields =>
    obtain rfl := Except.ok.inj h
    exact .updated user a fields
  | resetAdmitted user name newHash =>
    obtain ⟨a, found, h⟩ := bind_eq_ok h
    obtain rfl := Except.ok.inj h
    exact .resetFound user name newHash a (target_eq_ok found)
  | resetFound user newHash a =>
    simp only [advance, resetChecked] at h
    split at h
    · cases h
    · obtain rfl := Except.ok.inj h
      have st : Statement db _ _ := .passwordReset user newHash a
        (some ⟨user, "password.reset", a.username, []⟩) (decide (a.username = user))
      simpa using st
  | deleteAdmitted user name =>
    obtain ⟨a, found, h⟩ := bind_eq_ok h
    obtain rfl := Except.ok.inj h
    exact .deleteFound user name a (target_eq_ok found)
  | deleteFound user a =>
    simp only [advance] at h
    split at h
    · cases h
    · split at h
      · cases h
      · rename_i spared
        obtain rfl := Except.ok.inj h
        exact .deleteAllowed user a (by simpa using spared)
  | deleteChecked user a =>
    obtain rfl := Except.ok.inj h
    exact .deleted user a

theorem routeGuard_hasRead {cfg : Config} {t : UserTable} {now : ℚ} {c : Cookie} {r : Request}
    {f : Flight} (h : routeGuard cfg t now c r = .ok f) : f.hasRead = false := by
  cases r <;>
  · obtain ⟨a, _, h⟩ := bind_eq_ok h
    obtain rfl := Except.ok.inj h
    rfl

/-- What one step can do. -/
inductive Effect (s : System) : Event → System → Prop where
  | ticked (d) (later : 0 ≤ d) : Effect s (.tick d) { s with now := s.now + d }
  | bootstrapped (defaultHash) :
      Effect s (.bootstrap defaultHash) { s with db := ensureBootstrap s.db defaultHash }
  | signedIn (username password a) (found : s.db.users.getUser username = some a) :
      Effect s (.signIn username password) { s with pending := s.pending ++ [a] }
  | opened (i a) (waiting : s.pending[i]? = some a) :
      Effect s (.openSession i)
        { s with pending := s.pending.eraseIdx i, issued := s.issued ++ [issue s.now a] }
  | signedOut (k c) (known : s.issued[k]? = some c) :
      Effect s (.signOut k)
        { s with db := bumpEpoch s.db c.cookie.user
                 issued := s.issued.map (revoke c.cookie.user) }
  | admitted (k r f) (unread : f.hasRead = false) :
      Effect s (.request k r) { s with flights := s.flights ++ [⟨f, false⟩] }
  | refused (i) : Effect s (.advance i) { s with flights := s.flights.eraseIdx i }
  | advanced (i f done) (inFlight : s.flights[i]? = some f) (st : Statement s.db f.flight done) :
      Effect s (.advance i) (completed s i f done)

theorem getUser_of_authenticate {cfg : Config} {t : UserTable} {username password : String}
    {a : Account} (h : authenticate cfg t username password = some a) :
    t.getUser username = some a := by
  obtain ⟨b, found, h⟩ := Option.bind_eq_some_iff.mp h
  split at h
  · rwa [← Option.some.inj h]
  · cases h

theorem step_effect {cfg : Config} {s t : System} {e : Event} (h : Step cfg s e t) :
    Effect s e t := by
  change next cfg s e = some t at h
  cases e with
  | tick d =>
    simp only [next] at h
    split at h
    · rename_i later
      obtain rfl := Option.some.inj h
      exact .ticked d later
    · cases h
  | bootstrap defaultHash =>
    obtain rfl := Option.some.inj h
    exact .bootstrapped defaultHash
  | signIn username password =>
    obtain ⟨a, found, rfl⟩ := Option.map_eq_some_iff.mp h
    exact .signedIn username password a (getUser_of_authenticate found)
  | openSession i =>
    obtain ⟨a, waiting, rfl⟩ := Option.map_eq_some_iff.mp h
    exact .opened i a waiting
  | signOut k =>
    obtain ⟨c, known, rfl⟩ := Option.map_eq_some_iff.mp h
    exact .signedOut k c known
  | request k r =>
    obtain ⟨c, _, h⟩ := Option.bind_eq_some_iff.mp h
    split at h
    · rename_i f admitted
      obtain rfl := Option.some.inj h
      exact .admitted k r f (routeGuard_hasRead admitted)
    · cases h
  | advance i =>
    obtain ⟨f, inFlight, rfl⟩ := Option.map_eq_some_iff.mp h
    rw [advanceFlight]
    split
    · exact .refused i
    · rename_i done hdone
      exact .advanced i f done inFlight (advance_statement hdone)

def someAccount (name : String) (role : Role) : Account :=
  { username := name, firstName := some "A", lastName := some "B", role := role
    source := .localAccount, externalId := none, passwordHash := some name
    mustChangePassword := false, enabled := true, sessionEpoch := 0, createdBy := "admin" }

/-- A console whose hashes are the passwords. -/
def plainConsole : Config := ⟨10, fun password stored => password == stored⟩

def signedIn (name : String) : List Event := [.signIn name name, .openSession 0]

end AccountConsole
