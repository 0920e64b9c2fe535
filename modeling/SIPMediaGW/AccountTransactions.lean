import SIPMediaGW.AccountConsole
import SIPMediaGW.StatefulExceptions

/-! # Account operations statement by statement

Every operation on accounts as the console routes, the command-line tool and the bootstrap run
it, where any statement may fail. A transaction works on a copy of the tables that its commit
puts in their place. -/
namespace AccountTransactions

open AccountTable hiding createUser setPassword updateAccount bumpEpoch deleteUser write
open AccountConsole hiding ensureBootstrap changePassword lastAdmin roleChange enabledChange
open PythonJson
open StatefulExceptions

inductive Failure where
  | databaseUnavailable
  | refused (r : Refusal)
  | exit (message : String)

/-- The tables, what the open transaction has made of them, and the statements that fail, by
their number. The user tables committed so far are noted, oldest first. -/
structure Store where
  committed : Database
  working : Database
  statements : ℕ
  fails : ℕ → Bool
  history : List UserTable

abbrev Console (α : Type) := Action Store Failure α

section Database

variable {α : Type}

/-- A statement goes through or fails; getting a connection and a commit count as statements. -/
def statement : Console Unit := do
  let s ← get
  set { s with statements := s.statements + 1 }
  if s.fails s.statements then throw .databaseUnavailable

def Store.opened (s : Store) : Store := { s with working := s.committed }

def Store.commit (s : Store) : Store :=
  { s with committed := s.working, history := s.history ++ [s.working.users] }

/-- `with connection() as conn`: committed on success, rolled back on error. -/
def connection (body : Console α) : Console α := do
  statement
  modify Store.opened
  let result ← tryCatch (do
      let result ← body
      statement
      pure result) fun e => do
    modify Store.opened
    throw e
  modify Store.commit
  pure result

/-- A query that writes, with the rows it returns; `none` where a constraint refuses it. -/
abbrev Query := UserTable → Option (UserTable × List Account)

def executeQuery (query : Query) : Console (List Account) := do
  statement
  match query (← get).working.users with
  | none => throw .databaseUnavailable
  | some (users, rows) =>
    modify fun s => { s with working := { s.working with users := users } }
    pure rows

def executeAudit (line : AuditLine) : Console Unit := do
  statement
  modify fun s => { s with working := { s.working with audit := s.working.audit ++ [line] } }

/-- The line is written only if a row was touched. -/
def executeWrite (query : Query) (audit : Option AuditLine) : Console (List Account) := do
  let rows ← executeQuery query
  match audit with
  | some line => if rows ≠ [] then executeAudit line
  | none => pure ()
  pure rows

/-- `_write`. -/
def write (query : Query) (audit : Option AuditLine) : Console (List Account) :=
  connection (executeWrite query audit)

def fetch (query : UserTable → α) : Console α :=
  connection do
    statement
    let s ← get
    pure (query s.working.users)

end Database

section Users

def insertRow (a : Account) : Query := fun t => (t.insert a).map fun t' => (t', [a])

def updateRows (username : String) (set : Account → Account)
    (keepsName : ∀ a, (set a).username = a.username) : Query := fun t =>
  let t' := t.updateWhere username set keepsName
  some (t', (t'.getUser username).toList)

def deleteRows (username : String) : Query := fun t =>
  some (t.deleteWhere username, (t.getUser username).toList)

def createUser (username : String) (role : Role) (source : Source) (passwordHash : Option String)
    (createdBy : String) (mustChange : Bool) (externalId firstName lastName : Option String)
    (audit : Option AuditLine) : Console Unit := do
  let row : Account :=
    { username := username, firstName := firstName, lastName := lastName, role := role
      source := source, externalId := externalId, passwordHash := passwordHash
      mustChangePassword := mustChange, enabled := true, sessionEpoch := 0
      createdBy := createdBy }
  let _ ← write (insertRow row) audit

def setPassword (username passwordHash : String) (mustChange : Bool) (audit : Option AuditLine) :
    Console (Option Account) := do
  let rows ← write (updateRows username (withPassword passwordHash mustChange)
    (withPassword_username passwordHash mustChange)) audit
  pure rows.head?

def updateAccount (username : String) (f : Fields) (audit : Option AuditLine) :
    Console (Option Account) :=
  if f.isEmpty then fetch fun t => t.getUser username
  else do
    let rows ← write (updateRows username (withFields f) (withFields_username f)) audit
    pure rows.head?

def bumpEpoch (username : String) : Console Unit := do
  let _ ← write (updateRows username withBumpedEpoch withBumpedEpoch_username) none

def deleteUser (username : String) (audit : Option AuditLine) : Console Bool := do
  let rows ← write (deleteRows username) audit
  pure !rows.isEmpty

def ensureBootstrap (defaultHash : String) : Console Unit := do
  let count ← fetch UserTable.countUsers
  if count ≠ 0 then pure ()
  else
    createUser adminUser .admin .localAccount (some defaultHash) "bootstrap" true none none none
      (some ⟨"bootstrap", "create", adminUser,
        [("role", .str Role.admin.text), ("source", .str Source.localAccount.text)]⟩)

end Users

section Routes

variable (cfg : AccountConsole.Config)

def allow {α : Type} (x : Except Refusal α) : Console α :=
  match x with
  | .ok a => pure a
  | .error r => throw (.refused r)

def changeOwnPassword (throttled : Bool) (caller : Account) (ip current newHash : String) :
    Console Unit := do
  if throttled then throw (.refused ⟨429, "Too many attempts, retry in a minute"⟩)
  else if caller.source ≠ .localAccount then
    throw (.refused ⟨400, "this account signs in through the identity provider"⟩)
  else if ! checkPassword cfg current caller.passwordHash then
    throw (.refused ⟨403, "current password is wrong"⟩)
  else
    let _ ← setPassword caller.username newHash false
      (some ⟨caller.username, "password.change", caller.username, [("ip", .str ip)]⟩)

def emptyTable : UserTable := ⟨[], List.nodup_nil⟩

/-- The checks of the body alone, then the one that reads the table. -/
def createUserRoute (user : String) (new : NewUser) : Console Unit := do
  let _ ← allow (checkNewUser emptyTable new)
  let checked ← fetch fun t => checkNewUser t new
  let checked ← allow checked
  createUser checked.username checked.role .localAccount (some checked.passwordHash) user true none
    (some checked.firstName) (some checked.lastName)
    (some ⟨user, "create", checked.username,
      [("role", .str checked.role.text), ("source", .str Source.localAccount.text),
        ("name", .str (checked.firstName ++ " " ++ checked.lastName))]⟩)

/-- The administrators are counted only for an account that is one. -/
def lastAdmin (account : Account) : Console Bool :=
  if account.activeAdmin then fetch fun t => decide (t.countActiveAdmins ≤ 1)
  else pure false

def roleChange (user : String) (account : Account) (patch : UserPatch) :
    Console (Option Role) :=
  match patch.role with
  | none => pure none
  | some text =>
    if text = account.role.text then pure none
    else match roleOfText text with
      | none => throw (.refused ⟨400, rolesText⟩)
      | some role =>
        if account.username = user then
          throw (.refused ⟨409, "an account cannot change its own role"⟩)
        else do
          let last ← lastAdmin account
          if last then throw (.refused ⟨409, "the last administrator cannot be demoted"⟩)
          else pure (some role)

def enabledChange (user : String) (account : Account) (patch : UserPatch) :
    Console (Option Bool) :=
  match patch.enabled with
  | none => pure none
  | some enabled =>
    if enabled = account.enabled then pure none
    else if enabled then pure (some true)
    else if account.username = user then
      throw (.refused ⟨409, "an account cannot disable itself"⟩)
    else do
      let last ← lastAdmin account
      if last then throw (.refused ⟨409, "the last administrator cannot be disabled"⟩)
      else pure (some false)

def updateUserRoute (user name : String) (patch : UserPatch) : Console Unit := do
  let found ← fetch fun t => target t name
  let account ← allow found
  let newName ← allow (nameChange account patch)
  let role ← roleChange user account patch
  let enabled ← enabledChange user account patch
  let fields : Fields := ⟨newName, role, enabled⟩
  if fields.isEmpty then pure ()
  else
    let updated ← updateAccount account.username fields
      (some ⟨user, "update", account.username, changesOf fields⟩)
    match updated with
    | some _ => pure ()
    | none => throw (.refused ⟨404, "no such user"⟩)

def resetPassword (user name newHash : String) : Console Unit := do
  let found ← fetch fun t => target t name
  let account ← allow found
  if account.source ≠ .localAccount then
    throw (.refused ⟨400, "this account has no local password"⟩)
  else
    let _ ← setPassword account.username newHash true
      (some ⟨user, "password.reset", account.username, []⟩)

def deleteUserRoute (user name : String) : Console Unit := do
  let found ← fetch fun t => target t name
  let account ← allow found
  if account.username = user then
    throw (.refused ⟨409, "an account cannot delete itself"⟩)
  else
    let last ← lastAdmin account
    if last then throw (.refused ⟨409, "the last administrator cannot be deleted"⟩)
    else
      let _ ← deleteUser account.username (some ⟨user, "delete", account.username,
        [("role", .str account.role.text), ("source", .str account.source.text)]⟩)

/-- The caller, where the guard admits its cookie: an old cookie is refused unread. -/
def callerOf (now : ℚ) (cookie : Cookie) (guard : UserTable → Except Refusal Account) :
    Console Account := do
  if expired cfg now cookie then throw (.refused ⟨401, "Authentication required"⟩)
  else
    let caller ← fetch guard
    allow caller

/-- A request on the account routes, its guard first. -/
def route (now : ℚ) (cookie : Cookie) (throttled : Bool) : Request → Console Unit
  | .changePassword ip current newHash => do
    let caller ← callerOf cfg now cookie fun t => requireSession cfg t now cookie
    changeOwnPassword cfg throttled caller ip current newHash
  | .createUser new => do
    let caller ← callerOf cfg now cookie fun t => requireAdmin cfg t now cookie
    createUserRoute caller.username new
  | .updateUser name patch => do
    let caller ← callerOf cfg now cookie fun t => requireAdmin cfg t now cookie
    updateUserRoute caller.username name patch
  | .resetPassword name newHash => do
    let caller ← callerOf cfg now cookie fun t => requireAdmin cfg t now cookie
    resetPassword caller.username name newHash
  | .deleteUser name => do
    let caller ← callerOf cfg now cookie fun t => requireAdmin cfg t now cookie
    deleteUserRoute caller.username name

end Routes

section CommandLine

inductive Command where
  | list
  | reset (username newHash : String)
  | enable (username : String)
  | promote (username : String)

def onAccount (username : String) (action : Account → Console Unit) : Console Unit := do
  let found ← fetch fun t => t.getUser username
  match found with
  | none => throw (.exit ("no such user: " ++ username))
  | some account => action account

def Command.run : Command → Console Unit
  | .list => fetch fun _ => ()
  | .reset username newHash => onAccount username fun account => do
    if account.source ≠ .localAccount then throw (.exit "this account has no local password")
    else
      let _ ← setPassword account.username newHash true
        (some ⟨"cli", "password.reset", account.username, []⟩)
  | .enable username => onAccount username fun account => do
    let _ ← updateAccount account.username ⟨none, none, some true⟩
      (some ⟨"cli", "update", account.username, [("enabled", .bool true)]⟩)
  | .promote username => onAccount username fun account => do
    let _ ← updateAccount account.username ⟨none, some .admin, none⟩
      (some ⟨"cli", "update", account.username, [("role", .str Role.admin.text)]⟩)

/-- `main` of `tools/user.py`. -/
def commandLine (defaultHash : String) (command : Command) : Console Unit := do
  ensureBootstrap defaultHash
  command.run

end CommandLine

inductive Operation where
  | route (now : ℚ) (cookie : Cookie) (throttled : Bool) (request : Request)
  | commandLine (defaultHash : String) (command : Command)
  | bootstrap (defaultHash : String)
  | signOut (username : String)

def Operation.run (cfg : AccountConsole.Config) : Operation → Console Unit
  | .route now cookie throttled request =>
    AccountTransactions.route cfg now cookie throttled request
  | .commandLine defaultHash command => AccountTransactions.commandLine defaultHash command
  | .bootstrap defaultHash => ensureBootstrap defaultHash
  | .signOut username => bumpEpoch username

/-- Operations one after another, whether they return or raise. -/
def runAll (cfg : AccountConsole.Config) (operations : List Operation) (s : Store) : Store :=
  operations.foldl (fun s operation => (exec (operation.run cfg) s).2) s

def emptyDatabase : Database := ⟨emptyTable, []⟩

/-- Empty tables, and the statements that are going to fail. -/
def installed (fails : ℕ → Bool) : Store :=
  ⟨emptyDatabase, emptyDatabase, 0, fails, [emptyTable]⟩

end AccountTransactions
