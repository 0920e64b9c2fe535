import Mathlib.Data.List.Nodup
import SIPMediaGW.PythonJson

/-! # The user table and its audit lines

User names are those the routes pass on: stripped and lower-cased. The columns that only
hold instants, which no function of the console reads, are left out. -/
namespace AccountTable

open PythonJson

inductive Role where
  | admin
  | operator
  deriving DecidableEq, Repr

def Role.text : Role → String
  | .admin => "admin"
  | .operator => "operator"

/-- `ROLES` as a reader: a text that is not a role has none. -/
def roleOfText (text : String) : Option Role :=
  if text = "admin" then some .admin else if text = "operator" then some .operator else none

inductive Source where
  | localAccount
  | proconnect
  deriving DecidableEq, Repr

def Source.text : Source → String
  | .localAccount => "local"
  | .proconnect => "proconnect"

structure Account where
  username : String
  firstName : Option String
  lastName : Option String
  role : Role
  source : Source
  externalId : Option String
  passwordHash : Option String
  mustChangePassword : Bool
  enabled : Bool
  sessionEpoch : ℕ
  createdBy : String
  deriving DecidableEq, Repr

def Account.activeAdmin (a : Account) : Bool := a.role == .admin && a.enabled

/-- `manager_users`, with the unique constraint on the name. -/
structure UserTable where
  rows : List Account
  unique : (rows.map Account.username).Nodup

namespace UserTable

def getUser (t : UserTable) (name : String) : Option Account :=
  t.rows.find? fun a => a.username = name

def countUsers (t : UserTable) : ℕ := t.rows.length

def countActiveAdmins (t : UserTable) : ℕ := t.rows.countP Account.activeAdmin

/-- `UPDATE manager_users SET … WHERE username = name`. -/
def updateWhere (t : UserTable) (name : String) (set : Account → Account)
    (keepsName : ∀ a, (set a).username = a.username) : UserTable where
  rows := t.rows.map fun a => if a.username = name then set a else a
  unique := by
    have hmap : (t.rows.map fun a => if a.username = name then set a else a).map
        Account.username = t.rows.map Account.username := by
      rw [List.map_map]
      apply List.map_congr_left
      intro a _
      simp only [Function.comp_apply]
      split
      · exact keepsName a
      · rfl
    rw [hmap]
    exact t.unique

/-- The insert fails on a name already there. -/
def insert (t : UserTable) (a : Account) : Option UserTable :=
  if h : a.username ∈ t.rows.map Account.username then none
  else some
    { rows := t.rows ++ [a]
      unique := by
        rw [List.map_append, List.map_singleton]
        exact List.nodup_append.mpr ⟨t.unique, List.nodup_singleton _, by
          rintro x hx y hy rfl
          exact h (List.mem_singleton.mp hy ▸ hx)⟩ }

def deleteWhere (t : UserTable) (name : String) : UserTable where
  rows := t.rows.filter fun a => decide (a.username ≠ name)
  unique := (List.filter_sublist.map Account.username).nodup t.unique

end UserTable

structure AuditLine where
  actor : String
  action : String
  target : String
  detail : Dict

structure Database where
  users : UserTable
  audit : List AuditLine

/-- `_write`: the audit line goes in with a write that touched a row. -/
def write (db : Database) (users : UserTable) (touched : Bool) (line : Option AuditLine) :
    Database :=
  { users := users, audit := if touched then db.audit ++ line.toList else db.audit }

/-- A new row starts at the column's default epoch and is enabled. -/
def createUser (db : Database) (username : String) (role : Role) (source : Source)
    (passwordHash : Option String) (createdBy : String) (mustChange : Bool)
    (externalId firstName lastName : Option String) (audit : Option AuditLine) :
    Option Database :=
  let row : Account :=
    { username := username, firstName := firstName, lastName := lastName, role := role
      source := source, externalId := externalId, passwordHash := passwordHash
      mustChangePassword := mustChange, enabled := true, sessionEpoch := 0
      createdBy := createdBy }
  (db.users.insert row).map fun t => write db t true audit

def withPassword (passwordHash : String) (mustChange : Bool) (a : Account) : Account :=
  { a with passwordHash := some passwordHash, mustChangePassword := mustChange
           sessionEpoch := a.sessionEpoch + 1 }

theorem withPassword_username (passwordHash : String) (mustChange : Bool) (a : Account) :
    (withPassword passwordHash mustChange a).username = a.username := rfl

def setPassword (db : Database) (username passwordHash : String) (mustChange : Bool)
    (audit : Option AuditLine) : Database × Option Account :=
  let t := db.users.updateWhere username (withPassword passwordHash mustChange)
    (withPassword_username passwordHash mustChange)
  (write db t (db.users.getUser username).isSome audit, t.getUser username)

/-- The columns a console update gives: the others are left as they are. -/
structure Fields where
  name : Option (String × String)
  role : Option Role
  enabled : Option Bool

def Fields.isEmpty (f : Fields) : Bool :=
  f.name.isNone && f.role.isNone && f.enabled.isNone

def Fields.bumps (f : Fields) : Bool := f.role.isSome || f.enabled.isSome

def withFields (f : Fields) (a : Account) : Account :=
  { a with
    firstName := (f.name.map fun n => some n.1).getD a.firstName
    lastName := (f.name.map fun n => some n.2).getD a.lastName
    role := f.role.getD a.role
    enabled := f.enabled.getD a.enabled
    sessionEpoch := if f.bumps then a.sessionEpoch + 1 else a.sessionEpoch }

theorem withFields_username (f : Fields) (a : Account) :
    (withFields f a).username = a.username := rfl

/-- One statement for all the columns given; with none given, a plain read. -/
def updateAccount (db : Database) (username : String) (f : Fields) (audit : Option AuditLine) :
    Database × Option Account :=
  if f.isEmpty then (db, db.users.getUser username)
  else
    let t := db.users.updateWhere username (withFields f) (withFields_username f)
    (write db t (db.users.getUser username).isSome audit, t.getUser username)

def withBumpedEpoch (a : Account) : Account := { a with sessionEpoch := a.sessionEpoch + 1 }

theorem withBumpedEpoch_username (a : Account) : (withBumpedEpoch a).username = a.username :=
  rfl

def bumpEpoch (db : Database) (username : String) : Database :=
  { db with users := db.users.updateWhere username withBumpedEpoch withBumpedEpoch_username }

def deleteUser (db : Database) (username : String) (audit : Option AuditLine) :
    Database × Bool :=
  let found := (db.users.getUser username).isSome
  (write db (db.users.deleteWhere username) found audit, found)

section Reading

variable {t t' : UserTable} {a b : Account} {name other : String}

theorem username_of_getUser (h : t.getUser name = some a) : a.username = name := by
  simpa using List.find?_some h

theorem mem_of_getUser (h : t.getUser name = some a) : a ∈ t.rows := List.mem_of_find?_eq_some h

/-- With unique names, reading a stored row's name gives that row. -/
theorem getUser_of_mem (h : a ∈ t.rows) : t.getUser a.username = some a := by
  cases hfound : t.getUser a.username with
  | none =>
    have hno := List.find?_eq_none.mp hfound a h
    simp at hno
  | some b =>
    have hname : b.username = a.username := username_of_getUser hfound
    rw [List.inj_on_of_nodup_map t.unique (mem_of_getUser hfound) h hname]

theorem getUser_updateWhere {set : Account → Account}
    (keepsName : ∀ a, (set a).username = a.username) :
    (t.updateWhere name set keepsName).getUser other =
      if other = name then (t.getUser other).map set else t.getUser other := by
  have hcomp : ((fun a => decide (a.username = other)) ∘
      fun a => if a.username = name then set a else a) =
      fun a : Account => decide (a.username = other) := by
    funext a
    simp only [Function.comp_apply]
    split
    · rw [keepsName a]
    · rfl
  rw [UserTable.getUser, UserTable.updateWhere, List.find?_map, hcomp]
  cases hfound : t.getUser other with
  | none =>
    rw [UserTable.getUser] at hfound
    simp [hfound]
  | some a =>
    have hname := username_of_getUser hfound
    rw [UserTable.getUser] at hfound
    simp only [hfound, Option.map_some, hname]
    split <;> rfl

theorem getUser_deleteWhere :
    (t.deleteWhere name).getUser other = if other = name then none else t.getUser other := by
  rw [UserTable.getUser, UserTable.deleteWhere, List.find?_filter]
  split
  · rename_i hother
    subst hother
    apply List.find?_eq_none.mpr
    intro a _
    simp
  · rename_i hother
    rw [UserTable.getUser]
    congr 1
    funext a
    by_cases ha : a.username = other
    · simp [ha, hother]
    · simp [ha]

theorem insert_eq_some (h : t.insert a = some t') :
    t.getUser a.username = none ∧ t'.rows = t.rows ++ [a] := by
  rw [UserTable.insert] at h
  split at h
  · cases h
  · rename_i hnew
    obtain rfl := Option.some.inj h
    refine ⟨List.find?_eq_none.mpr fun b hb => ?_, rfl⟩
    rw [decide_eq_true_eq]
    intro hname
    exact hnew (List.mem_map.mpr ⟨b, hb, hname⟩)

theorem getUser_insert (h : t.insert a = some t') :
    t'.getUser other = if other = a.username then some a else t.getUser other := by
  obtain ⟨hnone, hrows⟩ := insert_eq_some h
  rw [UserTable.getUser, hrows, List.find?_append]
  split
  · rename_i hother
    subst hother
    rw [UserTable.getUser] at hnone
    simp [hnone]
  · rename_i hother
    have ha : ¬ a.username = other := fun he => hother he.symm
    simp [UserTable.getUser, ha]

end Reading

end AccountTable
