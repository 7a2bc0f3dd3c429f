import UcrashReport.Machine.Process
import UcrashReport.Server.Dashboard

/-! # Requests that change a visibility

A device changes the visibility of its report with a bearer token, a developer that of any report with
a session. Either request looks up who it is from, in a statement of its own, before it reads and
writes the slug; other requests come in between. Alone, a request is answered as its handler says.
-/

namespace UcrashReport.Web

open Rust Rust.Text Store Api Auth

/-- Who is answered: a device by the API, a developer by a page. -/
inductive Asker
  | device
  | developer
deriving DecidableEq, Repr

/-- What a request does next: look up the token of the device and then its report, or the session of
the developer, or set the visibility. -/
inductive ChangeRequest
  | bearer (authorization : Option Text) (reportId : Text) (isPublic : Bool)
  | owned (device reportId : Text) (isPublic : Bool)
  | session (cookie : Option Text) (reportId : Text) (isPublic : Bool)
  | set (asker : Asker) (next : SetVisibility)
deriving DecidableEq

inductive ChangeAnswer
  | device (answer : Except ApiError VisibilityChange)
  | developer (answer : Except PageError Text)
deriving DecidableEq

structure ChangeDraw where
  success : Bool := true
  now : ℤ := 0
  secret : Text := []
deriving DecidableEq, Repr

/-- `SELECT ... FROM report WHERE id = ? AND device_id = ?`. -/
def selectOwned (success : Bool) (db : Database) (device reportId : Text) :
    Except ApiError ReportRow :=
  if success then
    match db.reports.rows.find? fun row => row.id = reportId && row.deviceId = some device with
    | some row => .ok row
    | none => .error Api.notFound
  else .error internalError

/-- The page of the report again, when it is there. -/
def pageAfter (reportId : Text) : VisibilityAnswer → Except PageError Text
  | .ok (some _) => .ok ("/reports/".toList ++ reportId)
  | .ok none => .error (.notFound "no such report".toList)
  | .error _ => .error .internal

def answerOf (site : Site) (reportId : Text) (isPublic : Bool) (answer : VisibilityAnswer) :
    Asker → ChangeAnswer
  | .device => .device (visibilityResponse site isPublic answer)
  | .developer => .developer (pageAfter reportId answer)

/-- One statement of a request. -/
def changeStep (sha256 : Bytes → Bytes) (site : Site) (draw : ChangeDraw) (accounts : Accounts)
    (db : Database) : ChangeRequest → Database × (ChangeAnswer ⊕ ChangeRequest)
  | .bearer authorization reportId isPublic =>
    match requireDevice sha256 { success := fun _ => draw.success, now := draw.now } db
        authorization with
    | .error e => (db, .inl (.device (.error e)))
    | .ok device => (db, .inr (.owned device reportId isPublic))
  | .owned device reportId isPublic =>
    match selectOwned draw.success db device reportId with
    | .error e => (db, .inl (.device (.error e)))
    | .ok _ => (db, .inr (.set .device (.read reportId isPublic)))
  | .session cookie reportId isPublic =>
    match dev sha256 { success := draw.success, now := draw.now } accounts cookie with
    | .error rejection => (db, .inl (.developer (.error (.rejected rejection))))
    | .ok _ => (db, .inr (.set .developer (.read reportId isPublic)))
  | .set asker next =>
    match setVisibilityStep draw.success draw.secret db next with
    | (db, .answered reportId isPublic answer) =>
      (db, .inl (answerOf site reportId isPublic answer asker))
    | (db, .read reportId isPublic) => (db, .inr (.set asker (.read reportId isPublic)))
    | (db, .write reportId isPublic slug) => (db, .inr (.set asker (.write reportId isPublic slug)))

/-! ## A request alone -/

section Alone

variable (sha256 : Bytes → Bytes) (site : Site) (draws : ℕ → ChangeDraw) (accounts : Accounts)

/-- The statements of one request after another, each with its own draw. -/
def aloneStep (s : Database × ℕ) (request : ChangeRequest) :
    (Database × ℕ) × (ChangeAnswer ⊕ ChangeRequest) :=
  let (db, progress) := changeStep sha256 site (draws s.2) accounts s.1 request
  ((db, s.2 + 1), progress)

theorem set_completes (asker : Asker) (db : Database) (n : ℕ) (reportId : Text) (isPublic : Bool)
    {draw : RequestDraw} (read : draw.success 2 = (draws n).success)
    (write : draw.success 3 = (draws (n + 1)).success) (secret : draw.secret = (draws (n + 1)).secret) :
    ∃ m, Machine.Completes (aloneStep sha256 site draws accounts) (db, n)
      (.set asker (.read reportId isPublic))
      (answerOf site reportId isPublic (setVisibility draw db reportId isPublic).2 asker)
      ((setVisibility draw db reportId isPublic).1, m) := by
  rw [setVisibility, read, write, secret]
  cases found : readSlug (draws n).success db reportId with
  | error e => exact ⟨n + 1, .answer (by simp [aloneStep, changeStep, setVisibilityStep, found])⟩
  | ok row =>
    cases row with
    | none => exact ⟨n + 1, .answer (by simp [aloneStep, changeStep, setVisibilityStep, found])⟩
    | some slug =>
      have first : aloneStep sha256 site draws accounts (db, n) (.set asker (.read reportId isPublic)) =
          ((db, n + 1), .inr (.set asker (.write reportId isPublic slug))) := by
        simp [aloneStep, changeStep, setVisibilityStep, found]
      exact ⟨n + 2, .next first (.answer rfl)⟩

/-- A request with a token is answered as `my_publish` and `my_unpublish` say. -/
theorem mySetVisibility_completes (db : Database) (authorization : Option Text) (reportId : Text)
    (isPublic : Bool) {draw : RequestDraw} (success : ∀ n, draw.success n = (draws n).success)
    (now : draw.now = (draws 0).now) (secret : draw.secret = (draws 3).secret) :
    ∃ m, Machine.Completes (aloneStep sha256 site draws accounts) (db, 0)
      (.bearer authorization reportId isPublic)
      (.device (mySetVisibility sha256 site draw db authorization reportId isPublic).2)
      ((mySetVisibility sha256 site draw db authorization reportId isPublic).1, m) := by
  have device : requireDevice sha256 { success := fun _ => (draws 0).success, now := (draws 0).now } db
      authorization = requireDevice sha256 draw db authorization := by
    rw [requireDevice, requireDevice, deviceFromBearer, deviceFromBearer, success 0, now]
  rw [mySetVisibility, ownedReport]
  cases known : requireDevice sha256 draw db authorization with
  | error e =>
    refine ⟨1, .answer ?_⟩
    rw [aloneStep, changeStep, device, known]
    rfl
  | ok device' =>
    have owned : (ownedReport sha256 draw db authorization reportId) =
        selectOwned (draws 1).success db device' reportId := by
      rw [ownedReport, known, selectOwned, success 1]
      rfl
    rw [ownedReport, known] at owned
    rw [owned]
    have first : aloneStep sha256 site draws accounts (db, 0) (.bearer authorization reportId isPublic) =
        ((db, 1), .inr (.owned device' reportId isPublic)) := by
      rw [aloneStep, changeStep, device, known]
    cases selected : selectOwned (draws 1).success db device' reportId with
    | error e =>
      refine ⟨2, .next first (.answer ?_)⟩
      rw [aloneStep, changeStep, selected]
    | ok row =>
      obtain ⟨m, rest⟩ := set_completes sha256 site draws accounts .device db 2 reportId isPublic
        (success 2) (success 3) secret
      refine ⟨m, .next first (.next ?_ rest)⟩
      rw [aloneStep, changeStep, selected]

/-- A request with a cookie is answered as `publish` and `unpublish` say. -/
theorem changeVisibility_completes (db : Database) (cookie : Option Text) (reportId : Text)
    (isPublic : Bool) {draw : RequestDraw} (read : draw.success 2 = (draws 1).success)
    (write : draw.success 3 = (draws 2).success) (secret : draw.secret = (draws 2).secret) :
    ∃ m, Machine.Completes (aloneStep sha256 site draws accounts) (db, 0)
      (.session cookie reportId isPublic)
      (.developer (changeVisibility sha256 { success := (draws 0).success, now := (draws 0).now } draw
        accounts db cookie reportId isPublic).2)
      ((changeVisibility sha256 { success := (draws 0).success, now := (draws 0).now } draw accounts db
        cookie reportId isPublic).1, m) := by
  rw [changeVisibility]
  cases known : dev sha256 { success := (draws 0).success, now := (draws 0).now } accounts cookie with
  | error rejection =>
    refine ⟨1, .answer ?_⟩
    rw [aloneStep, changeStep, known]
  | ok developer =>
    obtain ⟨m, rest⟩ := set_completes sha256 site draws accounts .developer db 1 reportId isPublic
      read write secret
    have first : aloneStep sha256 site draws accounts (db, 0) (.session cookie reportId isPublic) =
        ((db, 1), .inr (.set .developer (.read reportId isPublic))) := by
      rw [aloneStep, changeStep, known]
    refine ⟨m, .next first ?_⟩
    generalize setVisibility draw db reportId isPublic = outcome at rest
    obtain ⟨db', answer⟩ := outcome
    rcases answer with _ | _ | _ <;> exact rest

end Alone

end UcrashReport.Web
