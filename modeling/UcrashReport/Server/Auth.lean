import UcrashReport.Server.Visibility
import UcrashReport.Store.Leases

/-! # Developer accounts

Accounts are created on the command line, each with a random password. A login opens a session and
gives its token away in a cookie; the pages for developers are for those who show the token of a
session that is open. Of passwords and tokens the database has the hashes.
-/

namespace UcrashReport.Auth

open Rust Rust.Text BuildId Store Api

def sessionTtlSecs : ℤ := 7 * 24 * 3600

structure UserRow where
  id : Text
  login : Text
  pwHash : Text
  role : Text
deriving DecidableEq, Repr

structure SessionRow where
  tokenHash : Text
  userId : Text
  expires : ℤ
deriving DecidableEq, Repr

structure Accounts where
  users : Table Text UserRow UserRow.id := .empty
  sessions : Table Text SessionRow SessionRow.tokenHash := .empty

namespace Accounts

/-- `INSERT INTO dev_user`; no two users have the same login. -/
def insertUser (accounts : Accounts) (row : UserRow) : Option Accounts :=
  if accounts.users.rows.any fun other => other.login = row.login then none
  else (accounts.users.insert row).map fun users => { accounts with users }

/-- `SELECT id, pw_hash FROM dev_user WHERE login = ?`. -/
def userOf (accounts : Accounts) (login : Text) : Option UserRow :=
  accounts.users.rows.find? fun row => row.login = login

def insertSession (accounts : Accounts) (row : SessionRow) : Option Accounts :=
  if (accounts.users.find? row.userId).isSome then
    (accounts.sessions.insert row).map fun sessions => { accounts with sessions }
  else none

/-- `DELETE FROM dev_session WHERE token_hash = ?`. -/
def deleteSession (accounts : Accounts) (tokenHash : Text) : Accounts :=
  { accounts with sessions := accounts.sessions.delete fun row => row.tokenHash = tokenHash }

/-- `DELETE FROM dev_session WHERE expires < ?`. -/
def deleteSessions (accounts : Accounts) (now : ℤ) : Accounts :=
  { accounts with sessions := accounts.sessions.delete fun row => row.expires < now }

/-- The user of a session that has not run out: the join of both tables. -/
def sessionUser (accounts : Accounts) (tokenHash : Text) (now : ℤ) : Option UserRow :=
  ((accounts.sessions.find? tokenHash).filter fun row => now < row.expires).bind fun row =>
    accounts.users.find? row.userId

end Accounts

/-- What is taken from libraries: the password hash with a salt, if it can be computed, and the
check of a password against a hash, if the hash can be parsed. -/
structure AuthLibs where
  sha256 : Bytes → Bytes
  hashPassword : Bytes → Text → Option Text
  checkPassword : Text → Text → Option Bool

structure AuthDraw where
  success : Bool := true
  now : ℤ := 0
  newId : Text := []
  salt : Bytes := []
  uuids : Bytes × Bytes := ([], [])
deriving DecidableEq, Repr

/-- Two random uuids in hexadecimal. -/
def newSecret (uuids : Bytes × Bytes) : Text := hexEncode (uuids.1 ++ uuids.2)

def verifyPassword (libs : AuthLibs) (password hash : Text) : Bool :=
  (libs.checkPassword password hash).getD false

/-- The account with its password, or nothing when an error is reported. -/
def createUser (libs : AuthLibs) (draw : AuthDraw) (accounts : Accounts) (login : Text) :
    Option (Accounts × Text) :=
  let password := (newSecret draw.uuids).take 20
  (libs.hashPassword draw.salt password).bind fun hash =>
    if draw.success then
      (accounts.insertUser ⟨draw.newId, login, hash, "dev".toList⟩).map fun accounts =>
        (accounts, password)
    else none

/-! ## Login and logout -/

/-- What a login does next: look for the user and check the password, or insert the session. -/
inductive LoginPost
  | lookup (login password : Text)
  | insert (login password : Text) (user : UserRow)
deriving DecidableEq, Repr

/-- A redirect with the cookie, the login page again, or an error. -/
inductive LoginPage
  | welcome (token : Text)
  | invalid
  | failed
deriving DecidableEq, Repr

def loginPost (libs : AuthLibs) (draw : AuthDraw) (accounts : Accounts) :
    LoginPost → Accounts × (LoginPage ⊕ LoginPost)
  | .lookup login password =>
    if draw.success then
      match accounts.userOf login with
      | none => (accounts, .inl .invalid)
      | some user =>
        if verifyPassword libs password user.pwHash then
          (accounts, .inr (.insert login password user))
        else (accounts, .inl .invalid)
    else (accounts, .inl .failed)
  | .insert _ _ user =>
    let token := newSecret draw.uuids
    match if draw.success then
        accounts.insertSession ⟨tokenHash libs.sha256 token, user.id, draw.now + sessionTtlSecs⟩
      else none with
    | some accounts => (accounts, .inl (.welcome token))
    | none => (accounts, .inl .failed)

/-- Whoever has a cookie loses it; a statement that fails leaves the session open. -/
def logout (sha256 : Bytes → Bytes) (draw : AuthDraw) (accounts : Accounts) (cookie : Option Text) :
    Accounts :=
  match cookie with
  | some token =>
    if draw.success then accounts.deleteSession (tokenHash sha256 token) else accounts
  | none => accounts

/-! ## Pages for developers -/

structure Dev where
  userId : Text
  login : Text
deriving DecidableEq, Repr

/-- A redirect to the login page, or an error. -/
inductive Rejection
  | login
  | internal
deriving DecidableEq, Repr

/-- The developer who shows the cookie. -/
def dev (sha256 : Bytes → Bytes) (draw : AuthDraw) (accounts : Accounts) (cookie : Option Text) :
    Except Rejection Dev :=
  match cookie with
  | none => .error .login
  | some token =>
    if draw.success then
      match accounts.sessionUser (tokenHash sha256 token) draw.now with
      | some user => .ok ⟨user.id, user.login⟩
      | none => .error .login
    else .error .internal

/-! ## Sessions as leases -/

namespace Accounts

/-- The sessions by the hashes of their tokens. -/
def leases (accounts : Accounts) : Leases.Held Text Text := fun tokenHash =>
  (accounts.sessions.find? tokenHash).map fun row => (row.userId, row.expires)

variable {accounts accounts' : Accounts}

theorem sessionUser_eq (accounts : Accounts) (tokenHash : Text) (now : ℤ) :
    accounts.sessionUser tokenHash now =
      (accounts.leases.holder? now tokenHash).bind accounts.users.find? := by
  rw [sessionUser, Leases.Held.holder?, leases]
  cases accounts.sessions.find? tokenHash with
  | none => rfl
  | some row =>
    rw [Option.map_some, Option.filter, Option.filter]
    split_ifs <;> rfl

theorem leases_congr (same : accounts'.sessions = accounts.sessions) :
    accounts'.leases = accounts.leases := by
  funext tokenHash
  rw [leases, leases, same]

theorem insertSession_spec {row : SessionRow} (inserted : accounts.insertSession row = some accounts') :
    accounts'.users = accounts.users ∧
      accounts'.leases =
        Function.update accounts.leases row.tokenHash (some (row.userId, row.expires)) := by
  rw [insertSession, Option.ite_none_right_eq_some, Option.map_eq_some_iff] at inserted
  obtain ⟨-, sessions, added, rfl⟩ := inserted
  refine ⟨rfl, funext fun tokenHash => ?_⟩
  rw [leases, Table.find?_insert added, Function.update_apply]
  by_cases same : tokenHash = row.tokenHash
  · rw [if_pos same.symm, if_pos same, Option.map_some]
  · rw [if_neg (Ne.symm same), if_neg same, leases]

theorem leases_deleteSession (accounts : Accounts) (tokenHash : Text) :
    (accounts.deleteSession tokenHash).leases =
      Function.update accounts.leases tokenHash none := by
  funext other
  rw [leases, deleteSession, Table.find?_delete, Function.update_apply, leases]
  cases found : accounts.sessions.find? other with
  | none => simp
  | some row =>
    obtain ⟨-, rfl⟩ := Table.find?_eq_some_iff.mp found
    by_cases same : row.tokenHash = tokenHash <;> simp [same]

theorem leases_deleteSessions (accounts : Accounts) (now : ℤ) (tokenHash : Text) :
    (accounts.deleteSessions now).leases tokenHash = accounts.leases tokenHash ∨
      (accounts.deleteSessions now).leases tokenHash = none ∧
        ∀ lease ∈ accounts.leases tokenHash, lease.2 < now := by
  rw [leases, deleteSessions, Table.find?_delete, leases]
  cases accounts.sessions.find? tokenHash with
  | none => exact .inl rfl
  | some row =>
    by_cases out : row.expires < now
    · exact .inr (by simp [out])
    · exact .inl (by simpa using out)

end Accounts

end UcrashReport.Auth
