import UcrashReport.Server.Api

/-! # Report visibility

The owner of a report, who shows a device token, and the developers make it public under a random
slug or private again. Setting the visibility is two statements: the slug is read first and written
back, or a fresh one in its place.
-/

namespace UcrashReport.Api

open Rust Rust.Text BuildId Store

/-- What a request draws from outside: which of its statements go through, whether the decoded text
can be read, the time, and a new secret. -/
structure RequestDraw where
  success : ℕ → Bool := fun _ => true
  readable : Bool := true
  now : ℤ := 0
  secret : Text := []

/-- The addresses and names in the answers. -/
structure Site where
  baseUrl : Text
  instanceName : Text

def notFound : ApiError := ⟨404, "no such report".toList⟩

/-! ## Device tokens -/

def tokenHash (sha256 : Bytes → Bytes) (token : Text) : Text := hexEncode (sha256 (utf8Encode token))

/-- The device of a bearer token. A header with other than visible characters is not there, and a
statement that fails finds nothing. -/
def deviceFromBearer (sha256 : Bytes → Bytes) (draw : RequestDraw) (db : Database)
    (authorization : Option Text) : Option Text :=
  match authorization.bind fun value => "Bearer ".toList.isPrefixOf? value with
  | none => none
  | some token => if draw.success 0 then db.tokenDevice (tokenHash sha256 token) draw.now else none

def requireDevice (sha256 : Bytes → Bytes) (draw : RequestDraw) (db : Database)
    (authorization : Option Text) : Except ApiError Text :=
  match deviceFromBearer sha256 draw db authorization with
  | some device => .ok device
  | none => .error (unauthorized "missing or invalid token".toList)

/-! ## Setting the visibility -/

/-- An error of the database. -/
structure DbError where
deriving DecidableEq, Repr

/-- The outcome of `set_visibility`: none when there is no such report, and the slug of a public
one. -/
abbrev VisibilityAnswer := Except DbError (Option (Option Text))

/-- `SELECT publish_slug`. -/
def readSlug (success : Bool) (db : Database) (reportId : Text) :
    Except DbError (Option (Option Text)) :=
  if success then .ok ((db.reports.find? reportId).map (·.publishSlug)) else .error {}

/-- The slug of a report that is made public: the one that was read, or a part of a new secret. -/
def slugOf (secret : Text) (read : Option Text) : Text := read.getD (secret.take 16)

/-- `UPDATE report SET visibility, publish_slug`. -/
def writeVisibility (success : Bool) (secret : Text) (db : Database) (reportId : Text)
    (isPublic : Bool) (read : Option Text) : Database × VisibilityAnswer :=
  if success then
    if isPublic then
      match db.setPublic reportId (slugOf secret read) with
      | some db => (db, .ok (some (some (slugOf secret read))))
      | none => (db, .error {})
    else (db.setPrivate reportId, .ok (some none))
  else (db, .error {})

/-- What a running call does next. -/
inductive SetVisibility
  | read (reportId : Text) (isPublic : Bool)
  | write (reportId : Text) (isPublic : Bool) (slug : Option Text)
  | answered (reportId : Text) (isPublic : Bool) (answer : VisibilityAnswer)
deriving DecidableEq

/-- One statement of `set_visibility`. -/
def setVisibilityStep (success : Bool) (secret : Text) (db : Database) :
    SetVisibility → Database × SetVisibility
  | .read reportId isPublic =>
    match readSlug success db reportId with
    | .error e => (db, .answered reportId isPublic (.error e))
    | .ok none => (db, .answered reportId isPublic (.ok none))
    | .ok (some slug) => (db, .write reportId isPublic slug)
  | .write reportId isPublic slug =>
    let (db, answer) := writeVisibility success secret db reportId isPublic slug
    (db, .answered reportId isPublic answer)
  | .answered reportId isPublic answer => (db, .answered reportId isPublic answer)

/-- `set_visibility` when nothing comes between its statements. -/
def setVisibility (draw : RequestDraw) (db : Database) (reportId : Text) (isPublic : Bool) :
    Database × VisibilityAnswer :=
  match readSlug (draw.success 2) db reportId with
  | .error e => (db, .error e)
  | .ok none => (db, .ok none)
  | .ok (some slug) => writeVisibility (draw.success 3) draw.secret db reportId isPublic slug

/-- It is its two statements, one after the other. -/
theorem setVisibility_eq_steps (draw : RequestDraw) (db : Database) (reportId : Text)
    (isPublic : Bool) :
    let (db', next) := setVisibilityStep (draw.success 2) draw.secret db (.read reportId isPublic)
    setVisibilityStep (draw.success 3) draw.secret db' next =
      ((setVisibility draw db reportId isPublic).1,
        .answered reportId isPublic (setVisibility draw db reportId isPublic).2) := by
  simp only [setVisibilityStep, setVisibility]
  cases readSlug (draw.success 2) db reportId with
  | error e => rfl
  | ok found => cases found <;> rfl

/-! ## Requests of a device -/

structure ReportSummary where
  reportId : Text
  kind : Text
  receivedAt : ℤ
  version : Text
  target : Text
  state : ReportState
  visibility : Visibility
deriving DecidableEq, Repr

def summary (row : ReportRow) : ReportSummary where
  reportId := row.id
  kind := row.kind
  receivedAt := row.receivedAt
  version := row.version
  target := row.target
  state := row.state
  visibility := row.visibility

/-- The reports of the device, the last received first. -/
def myReports (sha256 : Bytes → Bytes) (draw : RequestDraw) (db : Database)
    (authorization : Option Text) : Except ApiError (List ReportSummary) := do
  let device ← requireDevice sha256 draw db authorization
  if draw.success 1 then
    return ((db.reports.rows.filter fun row => row.deviceId = some device).mergeSort
      fun first second => decide (second.receivedAt ≤ first.receivedAt)).map summary
  else throw internalError

/-- The report if it belongs to the device of the token. -/
def ownedReport (sha256 : Bytes → Bytes) (draw : RequestDraw) (db : Database)
    (authorization : Option Text) (reportId : Text) : Except ApiError ReportRow := do
  let device ← requireDevice sha256 draw db authorization
  if draw.success 1 then
    match db.reports.rows.find? fun row => row.id = reportId && row.deviceId = some device with
    | some row => return row
    | none => throw notFound
  else throw internalError

/-- `fs::read_to_string`. -/
def readToString (readable : Bool) (files : Files) (name : Text) : Option Text :=
  if readable then (files name).bind utf8Decode else none

structure ReportDetail where
  summary : ReportSummary
  kernel : Text
  decoded : Option Text
deriving DecidableEq, Repr

def myReportDetail (sha256 : Bytes → Bytes) (draw : RequestDraw) (db : Database) (decoded : Files)
    (authorization : Option Text) (reportId : Text) : Except ApiError ReportDetail := do
  let row ← ownedReport sha256 draw db authorization reportId
  return ⟨summary row, row.kernel, readToString draw.readable decoded reportId⟩

/-- What is shown is the detail of a report with this id. -/
theorem row_of_myReportDetail {sha256 : Bytes → Bytes} {draw : RequestDraw} {db : Database}
    {decoded : Files} {authorization : Option Text} {reportId : Text} {detail : ReportDetail}
    (answered : myReportDetail sha256 draw db decoded authorization reportId = .ok detail) :
    ∃ row ∈ db.reports.rows, row.id = reportId ∧
      detail = ⟨summary row, row.kernel, readToString draw.readable decoded reportId⟩ := by
  rw [myReportDetail, ownedReport] at answered
  cases known : requireDevice sha256 draw db authorization with
  | error e => simp [known, bind, Except.bind] at answered
  | ok device =>
    simp only [known, bind, Except.bind] at answered
    by_cases success : draw.success 1 = true
    · rw [if_pos success] at answered
      cases found : db.reports.rows.find? fun row =>
          row.id = reportId && row.deviceId = some device with
      | none => simp [found, throw, throwThe, MonadExceptOf.throw] at answered
      | some row =>
        have hit := List.find?_some found
        simp only [Bool.and_eq_true, decide_eq_true_eq] at hit
        rw [found] at answered
        exact ⟨row, List.mem_of_find?_eq_some found, hit.1, (Except.ok.inj answered).symm⟩
    · simp [success, throw, throwThe, MonadExceptOf.throw] at answered

structure VisibilityChange where
  visibility : Text
  publicUrl : Option Text
deriving DecidableEq, Repr

def visibilityResponse (site : Site) (isPublic : Bool) :
    VisibilityAnswer → Except ApiError VisibilityChange
  | .error _ => .error internalError
  | .ok none => .error notFound
  | .ok (some slug) =>
    .ok
      { visibility := if isPublic then "public".toList else "private".toList
        publicUrl := slug.map fun s => site.baseUrl ++ "/r/".toList ++ s }

def mySetVisibility (sha256 : Bytes → Bytes) (site : Site) (draw : RequestDraw) (db : Database)
    (authorization : Option Text) (reportId : Text) (isPublic : Bool) :
    Database × Except ApiError VisibilityChange :=
  match ownedReport sha256 draw db authorization reportId with
  | .error e => (db, .error e)
  | .ok _ =>
    let (db, answer) := setVisibility draw db reportId isPublic
    (db, visibilityResponse site isPublic answer)

def myPublish (sha256 : Bytes → Bytes) (site : Site) (draw : RequestDraw) (db : Database)
    (authorization : Option Text) (reportId : Text) : Database × Except ApiError VisibilityChange :=
  mySetVisibility sha256 site draw db authorization reportId true

def myUnpublish (sha256 : Bytes → Bytes) (site : Site) (draw : RequestDraw) (db : Database)
    (authorization : Option Text) (reportId : Text) : Database × Except ApiError VisibilityChange :=
  mySetVisibility sha256 site draw db authorization reportId false

/-! ## Everybody's view -/

structure PublicReport where
  instanceName : Text
  kind : Text
  version : Text
  revision : Text
  target : Text
  arch : Text
  board : Text
  kernel : Text
  decoded : Text
deriving DecidableEq, Repr

/-- The page of a public report. -/
def publicPage (site : Site) (draw : RequestDraw) (decoded : Files) (row : ReportRow) :
    PublicReport where
  instanceName := site.instanceName
  kind := row.kind
  version := row.version
  revision := row.revision
  target := row.target
  arch := row.arch
  board := row.boardName
  kernel := row.kernel
  decoded := (readToString draw.readable decoded row.id).getD []

/-- `GET /r/<slug>`. An error of the database is answered without a text. -/
def publicReport (site : Site) (draw : RequestDraw) (db : Database) (decoded : Files) (slug : Text) :
    Except ApiError PublicReport :=
  if draw.success 0 then
    match db.reports.rows.find? fun row =>
        row.publishSlug = some slug && row.visibility = .«public» with
    | none => .error notFound
    | some row => .ok (publicPage site draw decoded row)
  else .error ⟨500, []⟩

/-- What is shown is the page of a public report with this slug. -/
theorem row_of_publicReport {site : Site} {draw : RequestDraw} {db : Database} {decoded : Files}
    {slug : Text} {page : PublicReport} (answered : publicReport site draw db decoded slug = .ok page) :
    ∃ row ∈ db.reports.rows, row.publishSlug = some slug ∧ row.visibility = .«public» ∧
      page = publicPage site draw decoded row := by
  rw [publicReport] at answered
  split_ifs at answered with success
  cases found : db.reports.rows.find? fun row =>
      row.publishSlug = some slug && row.visibility = .«public» with
  | none => simp [found] at answered
  | some row =>
    have hit := List.find?_some found
    simp only [Bool.and_eq_true, decide_eq_true_eq] at hit
    rw [found] at answered
    exact ⟨row, List.mem_of_find?_eq_some found, hit.1, hit.2, (Except.ok.inj answered).symm⟩

/-- A slug with which a report is found is answered with its page. -/
theorem publicReport_of_slug (site : Site) {draw : RequestDraw} (success : draw.success 0 = true)
    {db : Database} (distinct : db.SlugsDistinct) (decoded : Files) {slug : Text} {report : ReportRow}
    (member : report ∈ db.reports.rows) (has : report.publishSlug = some slug)
    (visible : report.visibility = .«public») :
    publicReport site draw db decoded slug = .ok (publicPage site draw decoded report) := by
  rw [publicReport, if_pos success]
  cases found : db.reports.rows.find? fun row =>
      row.publishSlug = some slug && row.visibility = .«public» with
  | none =>
    have absent := List.find?_eq_none.mp found report member
    simp [has, visible] at absent
  | some row =>
    have there := List.mem_of_find?_eq_some found
    have hit := List.find?_some found
    simp only [Bool.and_eq_true, decide_eq_true_eq] at hit
    have sameId := distinct row.id report.id slug ((Database.slug_of_mem there).trans hit.1)
      ((Database.slug_of_mem member).trans has)
    rw [List.inj_on_of_nodup_map db.reports.unique there member sameId]

/-- A slug that no public report has is not found. -/
theorem publicReport_of_unseen (site : Site) {draw : RequestDraw} (success : draw.success 0 = true)
    {db : Database} (decoded : Files) {slug : Text}
    (unseen : ∀ row ∈ db.reports.rows, row.publishSlug = some slug → row.visibility ≠ .«public») :
    publicReport site draw db decoded slug = .error notFound := by
  rw [publicReport, if_pos success]
  have absent : (db.reports.rows.find? fun row =>
      row.publishSlug = some slug && row.visibility = .«public») = none := by
    rw [List.find?_eq_none]
    intro row member
    simpa using unseen row member
  rw [absent]

theorem publicReport_of_no_slug (site : Site) {draw : RequestDraw} (success : draw.success 0 = true)
    {db : Database} (decoded : Files) {slug : Text} (gone : ∀ id, db.slug id ≠ some slug) :
    publicReport site draw db decoded slug = .error notFound :=
  publicReport_of_unseen site success decoded fun row member has =>
    absurd ((Database.slug_of_mem member).trans has) (gone row.id)

end UcrashReport.Api
