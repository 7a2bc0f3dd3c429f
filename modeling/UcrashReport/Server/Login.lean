import UcrashReport.Server.Visibility

/-! # Device login

A device proves that it has a key by signing a nonce that the server has just drawn for this key. The
pending nonces are in a map that all requests share under a lock; the signature is checked and the
token is inserted after the lock has been released.
-/

namespace UcrashReport.Api

open Rust Rust.Text

/-- Readings of the monotonic clock are in nanoseconds. -/
def nonceTtl : ℤ := 60 * 1000000000

def tokenTtlSecs : ℤ := 3600

/-- The pending nonces by public key, and when they were drawn. -/
abbrev Nonces := Text → Option (Bytes × ℤ)

/-- `t.elapsed() < NONCE_TTL`. -/
def isFresh (instant : ℤ) (entry : Bytes × ℤ) : Bool := instant - entry.2 < nonceTtl

namespace Nonces

/-- Drop the nonces that are too old, and remember a new one. -/
def issue (nonces : Nonces) (pubkey : Text) (nonce : Bytes) (instant : ℤ) : Nonces :=
  Function.update (fun other => (nonces other).filter (isFresh instant)) pubkey
    (some (nonce, instant))

/-- Remove the nonce of a key; it counts if it is not too old. -/
def take (nonces : Nonces) (pubkey : Text) (instant : ℤ) : Nonces × Option Bytes :=
  (Function.update nonces pubkey none, ((nonces pubkey).filter (isFresh instant)).map (·.1))

end Nonces

/-- What a login takes from libraries. -/
structure LoginLibs where
  readers : Readers
  base64 : Bytes → Text

structure LoginDraw where
  success : Bool := true
  instant : ℤ := 0
  now : ℤ := 0
  nonce : Bytes := []
  token : Text := []
deriving DecidableEq, Repr

/-- What a request does next: of `device_challenge` the lookup of the device and the access to the
map, of `device_login` the access to the map, the check of the signature with the lookup of the
device, and the insertion of the token. -/
inductive LoginCall
  | challenge (pubkey : Text)
  | issue (pubkey : Text)
  | login (pubkey signature : Text)
  | verify (pubkey signature : Text) (nonce : Bytes)
  | insertToken (pubkey signature : Text) (nonce : Bytes) (deviceId : Text)
deriving DecidableEq, Repr

inductive LoginAnswer
  | nonce (nonce : Text) (expiresIn : ℤ)
  | token (token : Text) (expiresIn : ℤ)
  | error (error : ApiError)
deriving DecidableEq, Repr

inductive LoginProgress
  | running (next : LoginCall)
  | answered (answer : LoginAnswer)
deriving DecidableEq, Repr

def unknownDevice : ApiError := ⟨404, "unknown device".toList⟩

/-- One access to the map or one statement, with the pure code before it. -/
def loginStep (libs : LoginLibs) (draw : LoginDraw) (db : Database) (nonces : Nonces) :
    LoginCall → Database × Nonces × LoginProgress
  | .challenge pubkey =>
    if !libs.readers.validKey pubkey then
      (db, nonces, .answered (.error (bad "invalid pubkey".toList)))
    else if draw.success then
      match db.deviceOf pubkey with
      | none => (db, nonces, .answered (.error unknownDevice))
      | some _ => (db, nonces, .running (.issue pubkey))
    else (db, nonces, .answered (.error internalError))
  | .issue pubkey =>
    (db, nonces.issue pubkey draw.nonce draw.instant,
      .answered (.nonce (libs.base64 draw.nonce) 60))
  | .login pubkey signature =>
    if !libs.readers.validKey pubkey then
      (db, nonces, .answered (.error (bad "invalid pubkey".toList)))
    else
      match nonces.take pubkey draw.instant with
      | (nonces, some nonce) => (db, nonces, .running (.verify pubkey signature nonce))
      | (nonces, none) =>
        (db, nonces, .answered (.error (unauthorized "no valid challenge".toList)))
  | .verify pubkey signature nonce =>
    if !libs.readers.verify pubkey signature nonce then
      (db, nonces, .answered (.error (unauthorized "signature verification failed".toList)))
    else if draw.success then
      match db.deviceOf pubkey with
      | none => (db, nonces, .answered (.error unknownDevice))
      | some deviceId => (db, nonces, .running (.insertToken pubkey signature nonce deviceId))
    else (db, nonces, .answered (.error internalError))
  | .insertToken _ _ _ deviceId =>
    match if draw.success then
        db.insertToken ⟨tokenHash libs.readers.sha256 draw.token, deviceId, draw.now + tokenTtlSecs⟩
      else none with
    | some db => (db, nonces, .answered (.token draw.token tokenTtlSecs))
    | none => (db, nonces, .answered (.error internalError))

/-! ## The steps told apart -/

inductive LoginMove (libs : LoginLibs) (draw : LoginDraw) (db : Database) (nonces : Nonces) :
    LoginCall → Database × Nonces × LoginProgress → Prop
  | refused {call : LoginCall} (early : ∀ pubkey, call ≠ .issue pubkey)
      (unread : ∀ pubkey signature, call = .login pubkey signature →
        libs.readers.validKey pubkey = false) (error : ApiError) :
      LoginMove libs draw db nonces call (db, nonces, .answered (.error error))
  | known {pubkey deviceId : Text} (valid : libs.readers.validKey pubkey = true)
      (device : db.deviceOf pubkey = some deviceId) :
      LoginMove libs draw db nonces (.challenge pubkey) (db, nonces, .running (.issue pubkey))
  | issued (pubkey : Text) :
      LoginMove libs draw db nonces (.issue pubkey)
        (db, nonces.issue pubkey draw.nonce draw.instant,
          .answered (.nonce (libs.base64 draw.nonce) 60))
  | taken {pubkey signature : Text} {nonce : Bytes} {issuedAt : ℤ}
      (pending : nonces pubkey = some (nonce, issuedAt))
      (fresh : draw.instant - issuedAt < nonceTtl) :
      LoginMove libs draw db nonces (.login pubkey signature)
        (db, Function.update nonces pubkey none, .running (.verify pubkey signature nonce))
  | unchallenged {pubkey signature : Text} (error : ApiError) :
      LoginMove libs draw db nonces (.login pubkey signature)
        (db, Function.update nonces pubkey none, .answered (.error error))
  | verified {pubkey signature deviceId : Text} {nonce : Bytes}
      (verifies : libs.readers.verify pubkey signature nonce = true)
      (device : db.deviceOf pubkey = some deviceId) :
      LoginMove libs draw db nonces (.verify pubkey signature nonce)
        (db, nonces, .running (.insertToken pubkey signature nonce deviceId))
  | inserted {pubkey signature deviceId : Text} {nonce : Bytes} {db' : Database}
      (inserted : db.insertToken
        ⟨tokenHash libs.readers.sha256 draw.token, deviceId, draw.now + tokenTtlSecs⟩ = some db') :
      LoginMove libs draw db nonces (.insertToken pubkey signature nonce deviceId)
        (db', nonces, .answered (.token draw.token tokenTtlSecs))

theorem login_moves (libs : LoginLibs) (draw : LoginDraw) (db : Database) (nonces : Nonces)
    (call : LoginCall) : LoginMove libs draw db nonces call (loginStep libs draw db nonces call) := by
  cases call with
  | challenge pubkey =>
    rw [loginStep]
    cases valid : libs.readers.validKey pubkey with
    | false => exact .refused (by simp) (by simp) _
    | true =>
      cases draw.success with
      | false => exact .refused (by simp) (by simp) _
      | true =>
        cases device : db.deviceOf pubkey with
        | none => exact .refused (by simp) (by simp) _
        | some deviceId => exact .known valid device
  | issue pubkey => exact .issued pubkey
  | login pubkey signature =>
    rw [loginStep]
    cases valid : libs.readers.validKey pubkey with
    | false => exact .refused (by simp) (by simp [valid]) _
    | true =>
      simp only [Nonces.take, Bool.not_true, Bool.false_eq_true, if_false]
      cases pending : nonces pubkey with
      | none => exact .unchallenged _
      | some entry =>
        rw [Option.filter]
        cases fresh : isFresh draw.instant entry with
        | false => exact .unchallenged _
        | true => exact .taken pending (by simpa [isFresh] using fresh)
  | verify pubkey signature nonce =>
    rw [loginStep]
    cases verifies : libs.readers.verify pubkey signature nonce with
    | false => exact .refused (by simp) (by simp) _
    | true =>
      cases draw.success with
      | false => exact .refused (by simp) (by simp) _
      | true =>
        cases device : db.deviceOf pubkey with
        | none => exact .refused (by simp) (by simp) _
        | some deviceId => exact .verified verifies device
  | insertToken pubkey signature nonce deviceId =>
    rw [loginStep]
    cases inserted : if draw.success then db.insertToken
        ⟨tokenHash libs.readers.sha256 draw.token, deviceId, draw.now + tokenTtlSecs⟩ else none with
    | none => exact .refused (by simp) (by simp) _
    | some db' =>
      rw [Option.ite_none_right_eq_some] at inserted
      exact .inserted inserted.2

end UcrashReport.Api
