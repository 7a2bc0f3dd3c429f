import UcrashReport.Server.Auth
import UcrashReport.Store.Ranking
import Mathlib.Data.Prod.Lex

/-! # The dashboard

The pages for developers: the crash groups that have the most reports, the numbers of one group, and
one report. Times are numbers here, and are formatted where a page is rendered.
-/

namespace UcrashReport.Web

open Rust Rust.Text Store Api Auth

/-- A page for developers is refused to others; a report or group may not exist, or a statement
fails. -/
inductive PageError
  | rejected (rejection : Rejection)
  | notFound (message : Text)
  | internal
deriving DecidableEq, Repr

/-- Only a developer gets the answer. -/
def asDev {α : Type} (sha256 : Bytes → Bytes) (auth : AuthDraw) (accounts : Accounts)
    (cookie : Option Text) (page : Except PageError α) : Except PageError (Dev × α) :=
  match dev sha256 auth accounts cookie with
  | .error rejection => .error (.rejected rejection)
  | .ok developer => page.map fun content => (developer, content)

theorem asDev_eq_ok {α : Type} {sha256 : Bytes → Bytes} {auth : AuthDraw} {accounts : Accounts}
    {cookie : Option Text} {page : Except PageError α} {d : Dev} {content : α} :
    asDev sha256 auth accounts cookie page = .ok (d, content) ↔
      dev sha256 auth accounts cookie = .ok d ∧ page = .ok content := by
  rw [asDev]
  cases dev sha256 auth accounts cookie with
  | error rejection => simp
  | ok developer =>
    cases page with
    | error e => simp [Except.map]
    | ok shown => simp [Except.map]

/-! ## Top crashers -/

structure GroupsQuery where
  window : Option Text
  kind : Option Text
  version : Option Text
  target : Option Text
deriving DecidableEq, Repr

structure Filters where
  window : Text
  kind : Text
  version : Text
  target : Text
deriving DecidableEq, Repr

def GroupsQuery.filters (query : GroupsQuery) : Filters where
  window := query.window.getD "7d".toList
  kind := query.kind.getD []
  version := query.version.getD []
  target := query.target.getD []

structure GroupSummary where
  id : Text
  title : Text
  kind : Text
  modules : Text
  count : ℕ
  devices : ℕ
  firstVersion : Text
  lastReport : ℤ
  state : Text
deriving DecidableEq, Repr

/-- The state that every group has: no statement changes it. -/
def groupState : Text := "new".toList

/-- An unknown window is one of seven days. -/
def windowCutoff (now : ℤ) (window : Text) : ℤ :=
  if window = "24h".toList then now - 24 * 3600
  else if window = "30d".toList then now - 30 * 24 * 3600
  else if window = "all".toList then 0
  else now - 7 * 24 * 3600

/-- `? = '' OR column = ?`. -/
def passes (filter column : Text) : Bool := filter = [] || column = filter

/-- The reports that the query joins to a group. -/
def selected (db : Database) (now : ℤ) (filters : Filters) (group : GroupRow) : List ReportRow :=
  db.reports.rows.filter fun report =>
    report.groupId = some group.id && decide (windowCutoff now filters.window ≤ report.receivedAt) &&
      passes filters.kind group.kind && passes filters.version report.version &&
      passes filters.target report.target

/-- `COUNT(DISTINCT device_id)`: reports without a device are not counted. -/
def distinctDevices (reports : List ReportRow) : ℕ := (reports.filterMap (·.deviceId)).dedup.length

/-- A row of the result; a group without reports has none. -/
def groupSummary (db : Database) (now : ℤ) (filters : Filters) (group : GroupRow) :
    Option GroupSummary :=
  let reports := selected db now filters group
  (reports.map (·.receivedAt)).max?.map fun lastReport =>
    { id := group.id
      title := group.title
      kind := group.kind
      modules := group.modules
      count := reports.length
      devices := distinctDevices reports
      firstVersion := group.firstSeenVersion
      lastReport
      state := groupState }

/-- `ORDER BY cnt DESC, last_report DESC`. -/
def groupRank (summary : GroupSummary) : Lex (ℕ × ℤ) := toLex (summary.count, summary.lastReport)

def queryGroups (db : Database) (now : ℤ) (filters : Filters) : List GroupSummary :=
  Ranking.top groupRank 100 (db.groups.rows.filterMap (groupSummary db now filters))

/-- The page, and the JSON of the developer API. -/
def groups (sha256 : Bytes → Bytes) (auth : AuthDraw) (draw : RequestDraw) (accounts : Accounts)
    (db : Database) (cookie : Option Text) (query : GroupsQuery) :
    Except PageError (Dev × List GroupSummary) :=
  asDev sha256 auth accounts cookie
    (if draw.success 0 then .ok (queryGroups db draw.now query.filters) else .error .internal)

/-! ## One group -/

structure ReportLine where
  id : Text
  received : ℤ
  version : Text
  target : Text
  board : Text
  state : ReportState
  visibility : Visibility
deriving DecidableEq, Repr

def reportLine (row : ReportRow) : ReportLine where
  id := row.id
  received := row.receivedAt
  version := row.version
  target := row.target
  board := row.boardName
  state := row.state
  visibility := row.visibility

structure GroupDetail where
  title : Text
  kind : Text
  modules : Text
  signature : Text
  firstSeen : ℤ
  lastSeen : ℤ
  firstVersion : Text
  reportCount : ℕ
  deviceCount : ℕ
  byVersion : List (Text × ℕ)
  byTarget : List (Text × ℕ)
  byBoard : List (Text × ℕ)
  reports : List ReportLine
deriving DecidableEq, Repr

def reportsOf (db : Database) (groupId : Text) : List ReportRow :=
  db.reports.rows.filter fun report => report.groupId = some groupId

/-- The twenty most frequent values of a column. -/
def breakdown (db : Database) (groupId : Text) (column : ReportRow → Text) : List (Text × ℕ) :=
  Ranking.top Prod.snd 20 (Ranking.tally column (reportsOf db groupId))

/-- The statements after the one that has found the group, each on the database as it is by then. -/
def detail (dbs : ℕ → Database) (group : GroupRow) : GroupDetail where
  title := group.title
  kind := group.kind
  modules := group.modules
  signature := group.signature
  firstSeen := group.firstSeen
  lastSeen := group.lastSeen
  firstVersion := group.firstSeenVersion
  reportCount := (reportsOf (dbs 1) group.id).length
  deviceCount := distinctDevices (reportsOf (dbs 1) group.id)
  byVersion := breakdown (dbs 2) group.id (·.version)
  byTarget := breakdown (dbs 3) group.id (·.target)
  byBoard := breakdown (dbs 4) group.id (·.boardName)
  reports := (Ranking.top (·.receivedAt) 20 (reportsOf (dbs 5) group.id)).map reportLine

/-- Six statements, with other requests between them. -/
def groupDetail (sha256 : Bytes → Bytes) (auth : AuthDraw) (draw : RequestDraw) (accounts : Accounts)
    (dbs : ℕ → Database) (cookie : Option Text) (id : Text) : Except PageError (Dev × GroupDetail) :=
  asDev sha256 auth accounts cookie
    (if draw.success 0 then
      match (dbs 0).groups.find? id with
      | none => .error (.notFound "no such group".toList)
      | some group =>
        if (List.range 5).all fun later => draw.success (later + 1) then .ok (detail dbs group)
        else .error .internal
    else .error .internal)

/-! ## One report -/

structure ReportPage where
  id : Text
  groupId : Text
  groupTitle : Text
  kind : Text
  received : ℤ
  version : Text
  revision : Text
  target : Text
  arch : Text
  board : Text
  kernel : Text
  state : ReportState
  visibility : Visibility
  slug : Text
  decoded : Text
deriving DecidableEq, Repr

def reportPage (draw : RequestDraw) (db : Database) (decoded : Files) (row : ReportRow) : ReportPage where
  id := row.id
  groupId := row.groupId.getD []
  groupTitle := ((row.groupId.bind db.groups.find?).map (·.title)).getD []
  kind := row.kind
  received := row.receivedAt
  version := row.version
  revision := row.revision
  target := row.target
  arch := row.arch
  board := row.boardName
  kernel := row.kernel
  state := row.state
  visibility := row.visibility
  slug := row.publishSlug.getD []
  decoded := (readToString draw.readable decoded row.id).getD []

def reportView (sha256 : Bytes → Bytes) (auth : AuthDraw) (draw : RequestDraw) (accounts : Accounts)
    (db : Database) (decoded : Files) (cookie : Option Text) (id : Text) :
    Except PageError (Dev × ReportPage) :=
  asDev sha256 auth accounts cookie
    (if draw.success 0 then
      match db.reports.find? id with
      | none => .error (.notFound "no such report".toList)
      | some row => .ok (reportPage draw db decoded row)
    else .error .internal)

/-- What is shown is the page of the report with this id. -/
theorem row_of_reportView {sha256 : Bytes → Bytes} {auth : AuthDraw} {draw : RequestDraw}
    {accounts : Accounts} {db : Database} {decoded : Files} {cookie : Option Text} {id : Text} {d : Dev}
    {page : ReportPage}
    (answered : reportView sha256 auth draw accounts db decoded cookie id = .ok (d, page)) :
    ∃ row, db.reports.find? id = some row ∧ page = reportPage draw db decoded row := by
  obtain ⟨-, answered⟩ := asDev_eq_ok.mp answered
  split_ifs at answered with success
  cases found : db.reports.find? id with
  | none => simp [found] at answered
  | some row =>
    rw [found, Except.ok.injEq] at answered
    exact ⟨row, rfl, answered.symm⟩

/-! ## Publishing -/

/-- The page of the report again, when it is there. -/
def changeVisibility (sha256 : Bytes → Bytes) (auth : AuthDraw) (draw : RequestDraw)
    (accounts : Accounts) (db : Database) (cookie : Option Text) (id : Text) (isPublic : Bool) :
    Database × Except PageError Text :=
  match dev sha256 auth accounts cookie with
  | .error rejection => (db, .error (.rejected rejection))
  | .ok _ =>
    match setVisibility draw db id isPublic with
    | (db, .ok (some _)) => (db, .ok ("/reports/".toList ++ id))
    | (db, .ok none) => (db, .error (.notFound "no such report".toList))
    | (db, .error _) => (db, .error .internal)

def publish (sha256 : Bytes → Bytes) (auth : AuthDraw) (draw : RequestDraw) (accounts : Accounts)
    (db : Database) (cookie : Option Text) (id : Text) : Database × Except PageError Text :=
  changeVisibility sha256 auth draw accounts db cookie id true

def unpublish (sha256 : Bytes → Bytes) (auth : AuthDraw) (draw : RequestDraw) (accounts : Accounts)
    (db : Database) (cookie : Option Text) (id : Text) : Database × Except PageError Text :=
  changeVisibility sha256 auth draw accounts db cookie id false

end UcrashReport.Web
