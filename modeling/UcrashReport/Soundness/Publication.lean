import UcrashReport.Machine.Past
import UcrashReport.Server.ChangeRequests
import UcrashReport.Soundness.BearerTokens
import UcrashReport.Soundness.DeveloperSessions
import UcrashReport.Soundness.PublishLinks

/-! # Who publishes a report

Uploads, decoders, logins of devices and of developers, and requests that change a visibility run
beside each other, statement by statement. A report is public as long as a request has published it
and none has taken it back; and whoever published it has shown before, in the same request, either
a bearer token of the device that has sent the report, or the session of a developer.
-/

namespace UcrashReport

open Rust Rust.Text Store Api Auth Web Machine

/-- What the server is set up with. -/
structure Installation where
  setup : Setup
  base64 : Bytes → Text
  hashPassword : Bytes → Text → Option Text
  checkPassword : Text → Text → Option Bool
  site : Site

/-- Both kinds of tokens are hashed alike. -/
def Installation.auth (i : Installation) : AuthLibs :=
  ⟨i.setup.readers.sha256, i.hashPassword, i.checkPassword⟩

/-- The server with all its logins, and the requests that change a visibility. -/
structure Portal where
  logins : Logins := {}
  auth : AuthState := {}
  requests : ℕ → Option ChangeRequest := fun _ => none

namespace Portal

def db (p : Portal) : Database := p.logins.service.db

inductive Action
  | device (action : Logins.Action)
  | developer (action : AuthState.Action)
  | askBearer (call : ℕ) (authorization : Option Text) (reportId : Text) (isPublic : Bool)
  | askSession (call : ℕ) (cookie : Option Text) (reportId : Text) (isPublic : Bool)
  | statement (call : ℕ) (draw : ChangeDraw)
  | drop (call : ℕ)

def withDb (l : Logins) (db : Database) : Logins := { l with service := { l.service with db } }

def nextRequest {α : Type} : α ⊕ ChangeRequest → Option ChangeRequest
  | .inl _ => none
  | .inr next => some next

def ask (p : Portal) (call : ℕ) (request : ChangeRequest) : Option Portal :=
  if p.requests call = none then
    some { p with requests := Function.update p.requests call (some request) }
  else none

/-- What a statement of a request leads to. -/
def afterStatement (p : Portal) (call : ℕ) (result : Database × (ChangeAnswer ⊕ ChangeRequest)) :
    Portal :=
  { p with
    logins := withDb p.logins result.1
    requests := Function.update p.requests call (nextRequest result.2) }

/-- A request that is answered or given up is forgotten. -/
def step (i : Installation) (p : Portal) : Action → Option Portal
  | .device action =>
    (Logins.step i.setup i.base64 p.logins action).map fun logins => { p with logins }
  | .developer action => (AuthState.step i.auth p.auth action).map fun auth => { p with auth }
  | .askBearer call authorization reportId isPublic =>
    p.ask call (.bearer authorization reportId isPublic)
  | .askSession call cookie reportId isPublic => p.ask call (.session cookie reportId isPublic)
  | .statement call draw =>
    (p.requests call).map fun request =>
      p.afterStatement call
        (changeStep i.setup.readers.sha256 i.site draw p.auth.accounts p.db request)
  | .drop call => some { p with requests := Function.update p.requests call none }

/-! ## What a statement does -/

/-- The statement of the request writes a visibility into the row of a report. -/
def Writes (draw : ChangeDraw) (db : Database) (reportId : Text) (isPublic : Bool)
    (request : ChangeRequest) : Prop :=
  ∃ asker slug, request = .set asker (.write reportId isPublic slug) ∧ draw.success = true ∧
    (db.reports.find? reportId).isSome ∧
    (isPublic = true → (db.setPublic reportId (slugOf draw.secret slug)).isSome)

/-- What a request does to the database and to itself. -/
inductive ChangeMove (sha256 : Bytes → Bytes) (draw : ChangeDraw) (accounts : Accounts)
    (db : Database) : ChangeRequest → Database × (ChangeAnswer ⊕ ChangeRequest) → Prop
  | ended {request : ChangeRequest} (idle : ∀ reportId isPublic, ¬ Writes draw db reportId isPublic request)
      (answer : ChangeAnswer) : ChangeMove sha256 draw accounts db request (db, .inl answer)
  | device {authorization : Option Text} {device : Text} (reportId : Text) (isPublic : Bool)
      (known : deviceFromBearer sha256 { success := fun _ => draw.success, now := draw.now } db
        authorization = some device) :
      ChangeMove sha256 draw accounts db (.bearer authorization reportId isPublic)
        (db, .inr (.owned device reportId isPublic))
  | owned {device reportId : Text} (isPublic : Bool) {row : ReportRow}
      (found : db.reports.find? reportId = some row) (owner : row.deviceId = some device) :
      ChangeMove sha256 draw accounts db (.owned device reportId isPublic)
        (db, .inr (.set .device (.read reportId isPublic)))
  | developer {cookie : Option Text} {d : Dev} (reportId : Text) (isPublic : Bool)
      (known : dev sha256 { success := draw.success, now := draw.now } accounts cookie = .ok d) :
      ChangeMove sha256 draw accounts db (.session cookie reportId isPublic)
        (db, .inr (.set .developer (.read reportId isPublic)))
  | read (asker : Asker) (reportId : Text) (isPublic : Bool) (slug : Option Text) :
      ChangeMove sha256 draw accounts db (.set asker (.read reportId isPublic))
        (db, .inr (.set asker (.write reportId isPublic slug)))
  | published {asker : Asker} {reportId : Text} {slug : Option Text} {db' : Database}
      (success : draw.success = true)
      (published : db.setPublic reportId (slugOf draw.secret slug) = some db') (answer : ChangeAnswer) :
      ChangeMove sha256 draw accounts db (.set asker (.write reportId true slug)) (db', .inl answer)
  | cleared {asker : Asker} {reportId : Text} {slug : Option Text} (success : draw.success = true)
      (answer : ChangeAnswer) :
      ChangeMove sha256 draw accounts db (.set asker (.write reportId false slug))
        (db.setPrivate reportId, .inl answer)

theorem selectOwned_eq_ok {success : Bool} {db : Database} {device reportId : Text} {row : ReportRow}
    (selected : selectOwned success db device reportId = .ok row) :
    db.reports.find? reportId = some row ∧ row.deviceId = some device := by
  rw [selectOwned] at selected
  split_ifs at selected
  cases found : db.reports.rows.find? fun row => row.id = reportId && row.deviceId = some device with
  | none => simp [found] at selected
  | some row' =>
    rw [found, Except.ok.injEq] at selected
    subst selected
    have hit := List.find?_some found
    simp only [Bool.and_eq_true, decide_eq_true_eq] at hit
    exact ⟨Table.find?_eq_some_iff.mpr ⟨List.mem_of_find?_eq_some found, hit.1⟩, hit.2⟩

theorem change_moves (sha256 : Bytes → Bytes) (site : Site) (draw : ChangeDraw) (accounts : Accounts)
    (db : Database) (request : ChangeRequest) :
    ChangeMove sha256 draw accounts db request
      (changeStep sha256 site draw accounts db request) := by
  cases request with
  | bearer authorization reportId isPublic =>
    rw [changeStep, requireDevice]
    cases known : deviceFromBearer sha256 { success := fun _ => draw.success, now := draw.now } db
        authorization with
    | none => exact .ended (by simp [Writes]) _
    | some device => exact .device reportId isPublic known
  | owned device reportId isPublic =>
    rw [changeStep]
    cases selected : selectOwned draw.success db device reportId with
    | error e => exact .ended (by simp [Writes]) _
    | ok row =>
      obtain ⟨found, owner⟩ := selectOwned_eq_ok selected
      exact .owned isPublic found owner
  | session cookie reportId isPublic =>
    rw [changeStep]
    cases known : dev sha256 { success := draw.success, now := draw.now } accounts cookie with
    | error rejection => exact .ended (by simp [Writes]) _
    | ok d => exact .developer reportId isPublic known
  | set asker next =>
    cases next with
    | read reportId isPublic =>
      rw [changeStep, setVisibilityStep]
      cases readSlug draw.success db reportId with
      | error e => exact .ended (by simp [Writes]) _
      | ok found =>
        cases found with
        | none => exact .ended (by simp [Writes]) _
        | some slug => exact .read asker reportId isPublic slug
    | write reportId isPublic slug =>
      rw [changeStep, setVisibilityStep, writeVisibility]
      split_ifs with success visible
      · subst visible
        cases published : db.setPublic reportId (slugOf draw.secret slug) with
        | none => exact .ended (by simp [Writes, published]) _
        | some db' => exact .published success published _
      · obtain rfl : isPublic = false := by simpa using visible
        exact .cleared success _
      · exact .ended (by simp [Writes, success]) _
    | answered => exact .ended (by simp [Writes]) _

/-! ## Rows of reports -/

/-- The report is public. -/
def Visible (db : Database) (id : Text) : Prop :=
  ∃ row, db.reports.find? id = some row ∧ row.visibility = .«public»

/-- Reports stay, and stay those of their devices. -/
def KeepsOwners (db db' : Database) : Prop :=
  ∀ id row, db.reports.find? id = some row →
    ∃ row', db'.reports.find? id = some row' ∧ row'.deviceId = row.deviceId

theorem KeepsOwners.refl (db : Database) : KeepsOwners db db := fun _ row found => ⟨row, found, rfl⟩

theorem visible_of_service_step {setup : Setup} {s s' : Service} {action : Service.Action}
    (stepped : Service.step setup s action = some s') (id : Text) :
    Visible s'.db id ↔ Visible s.db id := by
  constructor
  · rintro ⟨row', found', visible⟩
    cases found : s.db.reports.find? id with
    | none =>
      obtain ⟨call, draw, metadata, deviceId, -, -, rfl, -⟩ :=
        Service.new_report_of_step stepped found found'
      contradiction
    | some row =>
      obtain ⟨after, foundAfter, same, -⟩ := Links.row_of_service_step stepped found
      rw [found', Option.some.injEq] at foundAfter
      subst foundAfter
      exact ⟨row, found, same ▸ visible⟩
  · rintro ⟨row, found, visible⟩
    obtain ⟨row', found', same, -⟩ := Links.row_of_service_step stepped found
    exact ⟨row', found', same.trans visible⟩

theorem keepsOwners_of_service_step {setup : Setup} {s s' : Service} {action : Service.Action}
    (stepped : Service.step setup s action = some s') : KeepsOwners s.db s'.db := by
  intro id row found
  obtain ⟨-, rfl⟩ := Table.find?_eq_some_iff.mp found
  obtain ⟨row', found', moved⟩ := Service.reportStep_of_step stepped found
  refine ⟨row', found', ?_⟩
  cases moved <;> rfl

theorem reports_of_login_move {libs : LoginLibs} {draw : LoginDraw} {db : Database} {nonces : Nonces}
    {call : LoginCall} {result : Database × Nonces × LoginProgress}
    (move : LoginMove libs draw db nonces call result) : result.1.reports = db.reports := by
  cases move with
  | inserted inserted =>
    rw [Database.insertToken, Option.ite_none_right_eq_some, Option.map_eq_some_iff] at inserted
    obtain ⟨-, tokens, -, rfl⟩ := inserted
    rfl
  | refused | known | issued | taken | unchallenged | verified => rfl

/-- A step of the logins is one of the service, or leaves the reports as they are. -/
theorem reports_of_logins_step {setup : Setup} {base64 : Bytes → Text} {l l' : Logins}
    {action : Logins.Action} (stepped : Logins.step setup base64 l action = some l') :
    l'.service.db.reports = l.service.db.reports ∨
      ∃ action, Service.step setup l.service action = some l'.service := by
  cases Logins.move_of_step stepped with
  | served served => exact .inr ⟨_, served⟩
  | tokensDeleted | begun | abandoned => exact .inl rfl
  | advanced running later move => exact .inl (reports_of_login_move move)

theorem find?_of_setPublic {db db' : Database} {id slug : Text} (published : db.setPublic id slug = some db')
    {other : Text} {row : ReportRow} (found : db.reports.find? other = some row) :
    db'.reports.find? other =
      some (if other = id then { row with visibility := .«public», publishSlug := some slug } else row) := by
  obtain ⟨-, rfl⟩ := Table.find?_eq_some_iff.mp found
  rw [Database.find?_setPublic published, found, Option.map_some]

theorem find?_of_setPrivate {db : Database} (id : Text) {other : Text} {row : ReportRow}
    (found : db.reports.find? other = some row) :
    (db.setPrivate id).reports.find? other =
      some (if other = id then { row with visibility := .«private», publishSlug := none } else row) := by
  obtain ⟨-, rfl⟩ := Table.find?_eq_some_iff.mp found
  rw [Database.find?_setPrivate, found, Option.map_some]

section Changes

variable {sha256 : Bytes → Bytes} {draw : ChangeDraw} {accounts : Accounts} {db : Database}
  {request : ChangeRequest} {result : Database × (ChangeAnswer ⊕ ChangeRequest)}
  (move : ChangeMove sha256 draw accounts db request result)

include move

theorem keepsOwners_of_change : KeepsOwners db result.1 := by
  intro id row found
  cases move with
  | ended | device | owned | developer | read => exact ⟨row, found, rfl⟩
  | published success published =>
    refine ⟨_, find?_of_setPublic published found, ?_⟩
    split_ifs <;> rfl
  | @cleared asker reportId slug =>
    refine ⟨_, find?_of_setPrivate reportId found, ?_⟩
    split_ifs <;> rfl

theorem accounts_of_change : result.1.devices = db.devices ∧ result.1.tokens = db.tokens := by
  cases move with
  | ended | device | owned | developer | read | cleared => exact ⟨rfl, rfl⟩
  | published success published =>
    rw [Database.setPublic, Option.ite_none_left_eq_some, Option.some.injEq] at published
    rw [← published.2]
    exact ⟨rfl, rfl⟩

/-- A report is public after a statement when the statement has published it, or it was public and the
statement has not taken it back. -/
theorem visible_of_change (id : Text) :
    Visible result.1 id ↔ Writes draw db id true request ∨
      ¬ Writes draw db id false request ∧ Visible db id := by
  cases move with
  | ended idle => simp [idle]
  | device | owned | developer | read => simp [Writes]
  | @published asker reportId slug db' success published =>
    have absent : db.reports.find? id = none → db'.reports.find? id = none := by
      intro absent
      rw [Database.find?_setPublic published, absent, Option.map_none]
    have other : ¬ Writes draw db id false (.set asker (.write reportId true slug)) := by
      simp [Writes]
    cases found : db.reports.find? id with
    | none => simp [Visible, Writes, found, absent found]
    | some row =>
      rw [Visible, find?_of_setPublic published found]
      by_cases same : id = reportId
      · subst same
        simp [Writes, success, found, published]
      · have unwritten : ¬ Writes draw db id true (.set asker (.write reportId true slug)) := by
          simp [Writes, Ne.symm same]
        simp [same, other, unwritten, Visible, found]
  | @cleared asker reportId slug success =>
    have absent : db.reports.find? id = none → (db.setPrivate reportId).reports.find? id = none := by
      intro absent
      rw [Database.find?_setPrivate, absent, Option.map_none]
    have other : ¬ Writes draw db id true (.set asker (.write reportId false slug)) := by
      simp [Writes]
    cases found : db.reports.find? id with
    | none => simp [Visible, found, absent found, other]
    | some row =>
      rw [Visible, find?_of_setPrivate reportId found]
      by_cases same : id = reportId
      · subst same
        simp [Writes, success, found]
      · have unwritten : ¬ Writes draw db id false (.set asker (.write reportId false slug)) := by
          simp [Writes, Ne.symm same]
        simp [same, other, unwritten, Visible, found]

end Changes

/-! ## Steps -/

section Steps

variable (i : Installation)

inductive Move (p : Portal) : Action → Portal → Prop
  | device {action : Logins.Action} {logins : Logins}
      (stepped : Logins.step i.setup i.base64 p.logins action = some logins) :
      Move p (.device action) { p with logins }
  | developer {action : AuthState.Action} {auth : AuthState}
      (stepped : AuthState.step i.auth p.auth action = some auth) :
      Move p (.developer action) { p with auth }
  | asked {action : Action} {call : ℕ} {request : ChangeRequest}
      (other : ∀ call draw, action ≠ .statement call draw)
      (first : ∀ device id isPublic, request ≠ .owned device id isPublic)
      (first' : ∀ asker next, request ≠ .set asker next) :
      Move p action { p with requests := Function.update p.requests call (some request) }
  | stated {call : ℕ} {draw : ChangeDraw} {request : ChangeRequest}
      {result : Database × (ChangeAnswer ⊕ ChangeRequest)} (current : p.requests call = some request)
      (move : ChangeMove i.setup.readers.sha256 draw p.auth.accounts p.db request result) :
      Move p (.statement call draw) (p.afterStatement call result)
  | dropped (call : ℕ) :
      Move p (.drop call) { p with requests := Function.update p.requests call none }

variable {i} {p p' : Portal} {action : Action}

theorem move_of_step (stepped : step i p action = some p') :
    Move i p action p' := by
  cases action with
  | device action =>
    obtain ⟨logins, moved, rfl⟩ := Option.map_eq_some_iff.mp stepped
    exact .device moved
  | developer action =>
    obtain ⟨auth, moved, rfl⟩ := Option.map_eq_some_iff.mp stepped
    exact .developer moved
  | askBearer | askSession =>
    rw [step, ask, Option.ite_none_right_eq_some, Option.some.injEq] at stepped
    exact stepped.2 ▸ .asked (by simp) (by simp) (by simp)
  | statement call draw =>
    obtain ⟨request, current, rfl⟩ := Option.map_eq_some_iff.mp stepped
    exact .stated current (change_moves _ i.site draw p.auth.accounts p.db request)
  | drop call =>
    rw [step, Option.some.injEq] at stepped
    exact stepped ▸ .dropped call

/-- The request changes the visibility of the report. -/
def Changes (call : ℕ) (id : Text) (isPublic : Bool) (p : Portal) (action : Action) : Prop :=
  ∃ draw request, action = .statement call draw ∧ p.requests call = some request ∧
    Writes draw p.db id isPublic request

theorem not_changes {call : ℕ} {id : Text} {isPublic : Bool}
    (other : ∀ call draw, action ≠ .statement call draw) : ¬ Changes call id isPublic p action := by
  rintro ⟨draw, request, rfl, -⟩
  exact other call draw rfl

theorem visible_of_step (stepped : step i p action = some p') (id : Text) :
    Visible p'.db id ↔ (∃ call, Changes call id true p action) ∨
      (∀ call, ¬ Changes call id false p action) ∧ Visible p.db id := by
  cases move_of_step stepped with
  | @device _ logins moved =>
    have same : Visible (Portal.db { p with logins }) id ↔ Visible p.db id := by
      rcases reports_of_logins_step moved with reports | ⟨_, served⟩
      · rw [Visible, Visible, db, db, reports]
      · exact visible_of_service_step served id
    simp [not_changes, same]
  | developer stepped => simp [not_changes, db]
  | asked other => simp [not_changes other, db]
  | dropped => simp [not_changes, db]
  | @stated call draw request result current move =>
    have changes (isPublic : Bool) (other : ℕ) : Changes other id isPublic p (.statement call draw) ↔
        other = call ∧ Writes draw p.db id isPublic request := by
      constructor
      · rintro ⟨draw', request', same, current', writes⟩
        obtain ⟨rfl, rfl⟩ := Action.statement.inj same
        rw [current, Option.some.injEq] at current'
        exact ⟨rfl, current' ▸ writes⟩
      · rintro ⟨rfl, writes⟩
        exact ⟨draw, request, rfl, current, writes⟩
    simp only [changes, exists_eq_left, not_and, forall_eq]
    exact visible_of_change move id

theorem keepsOwners_of_step (stepped : step i p action = some p') :
    KeepsOwners p.db p'.db := by
  cases move_of_step stepped with
  | device moved =>
    rcases reports_of_logins_step moved with reports | ⟨_, served⟩
    · intro id row found
      exact ⟨row, reports ▸ found, rfl⟩
    · exact keepsOwners_of_service_step served
  | developer | asked | dropped => exact .refl p.db
  | stated current move => exact keepsOwners_of_change move

/-! ## What a request has shown -/

def Running (call : ℕ) (p : Portal) (_ : Action) : Prop := (p.requests call).isSome = true

variable (i)

/-- The request shows a token that is good for the device. -/
def ShowsToken (call : ℕ) (id : Text) (isPublic : Bool) (device : Text) (_ : List Action) (p : Portal)
    (action : Action) : Prop :=
  ∃ draw token, action = .statement call draw ∧
    p.requests call = some (.bearer (some ("Bearer ".toList ++ token)) id isPublic) ∧
    Logins.GoodFor i.setup p.logins draw.now token device

/-- The request shows the cookie of a session that is open. -/
def ShowsSession (call : ℕ) (id : Text) (isPublic : Bool) (_ : List Action) (p : Portal)
    (action : Action) : Prop :=
  ∃ draw cookie d, action = .statement call draw ∧
    p.requests call = some (.session (some cookie) id isPublic) ∧ OpenFor i.auth p.auth draw.now cookie d

/-- Since it has shown a session, or a token of the device that has sent the report, the request has
been running. -/
def Justified (labels : List Action) (db : Database) (call : ℕ) (id : Text) (isPublic : Bool) : Prop :=
  Since (step i) {} (Running call) (ShowsSession i call id isPublic) labels ∨
    ∃ device row, db.reports.find? id = some row ∧ row.deviceId = some device ∧
      Since (step i) {} (Running call) (ShowsToken i call id isPublic device) labels

/-- The report and the visibility that a running call is about. -/
def aim : SetVisibility → Text × Bool
  | .read id isPublic | .write id isPublic _ | .answered id isPublic _ => (id, isPublic)

structure Accounted (labels : List Action) (p : Portal) : Prop where
  safe : Logins.Safe i.setup {} p.logins
  issued : ∃ clock, Logins.Issued clock p.logins
  consistent : Consistent i.auth p.auth
  owned : ∀ call device id isPublic, p.requests call = some (.owned device id isPublic) →
    Since (step i) {} (Running call) (ShowsToken i call id isPublic device) labels
  set : ∀ call asker next, p.requests call = some (.set asker next) →
    Justified i labels p.db call (aim next).1 (aim next).2

variable {i}

theorem Accounted.start : Accounted i [] {} where
  safe := Logins.Safe.start i.setup
  issued := ⟨0, Logins.Issued.empty 0⟩
  consistent := Consistent.empty i.auth
  owned _ _ _ _ none := by simp at none
  set _ _ _ none := by simp at none

/-- The latest time that a deletion has read may be any later one. -/
theorem issued_of_logins_step {l l' : Logins} {action : Logins.Action}
    (issued : ∃ clock, Logins.Issued clock l) (stepped : Logins.step i.setup i.base64 l action = some l') :
    ∃ clock, Logins.Issued clock l' := by
  obtain ⟨clock, issued⟩ := issued
  have timely : ∃ clock', clock ≤ clock' ∧ Logins.Timely clock' l action := by
    cases action with
    | deleteTokens time => exact ⟨max clock time, le_max_left .., le_max_right ..⟩
    | serve | challenge | login | advance | abandon => exact ⟨clock, le_refl clock, trivial⟩
  obtain ⟨clock', later, timely⟩ := timely
  exact ⟨clock', Logins.issued_of_step ⟨issued.explains.wait later, issued.ready, issued.tokens⟩
    timely stepped⟩

theorem deviceOf_congr {db db' : Database} (same : db'.devices = db.devices) (pubkey : Text) :
    db'.deviceOf pubkey = db.deviceOf pubkey := by
  rw [Database.deviceOf, same, Database.deviceOf]

theorem safe_withDb {start db : Database} {l : Logins} (safe : Logins.Safe i.setup start l)
    (devices : db.devices = l.service.db.devices) (tokens : db.tokens = l.service.db.tokens) :
    Logins.Safe i.setup start (withDb l db) where
  ledger := safe.ledger
  issuing := safe.issuing
  ready call pubkey signature nonce deviceId current := by
    obtain ⟨verified, device⟩ := safe.ready call pubkey signature nonce deviceId current
    exact ⟨verified, (deviceOf_congr devices pubkey).trans device⟩
  matched := safe.matched
  rows row member := by
    refine (safe.rows row (tokens ▸ member)).imp_right ?_
    rintro ⟨pubkey, signature, nonce, issuedAt, instant, token, device⟩
    exact ⟨pubkey, signature, nonce, issuedAt, instant, token,
      (deviceOf_congr devices pubkey).trans device⟩

theorem issued_withDb {clock : ℤ} {db : Database} {l : Logins} (issued : Logins.Issued clock l)
    (devices : db.devices = l.service.db.devices) (tokens : db.tokens = l.service.db.tokens) :
    Logins.Issued clock (withDb l db) where
  explains := by
    have same : Logins.tokenLeases db = Logins.tokenLeases l.service.db :=
      Logins.tokenLeases_congr tokens
    rw [withDb, same]
    exact issued.explains
  ready call pubkey signature nonce deviceId current :=
    (deviceOf_congr devices pubkey).trans (issued.ready call pubkey signature nonce deviceId current)
  tokens pubkey signature nonce row issuedAt instant member :=
    (issued.tokens pubkey signature nonce row issuedAt instant member).imp_left
      (deviceOf_congr devices pubkey).trans

section Run

variable {labels : List Action} (reached : run (step i) {} labels = some p)

include reached

theorem since_of_running {occasion : List Action → Portal → Action → Prop} {call : ℕ}
    {request : ChangeRequest} (current : p.requests call = some request)
    (since : Since (step i) {} (Running call) occasion labels) :
    Since (step i) {} (Running call) occasion (labels ++ [action]) :=
  (since_snoc reached).mpr (.inr ⟨by simp [Running, current], since⟩)

theorem justified_of_running {db : Database} (keeps : KeepsOwners p.db db) {call : ℕ} {id : Text}
    {isPublic : Bool} {request : ChangeRequest} (current : p.requests call = some request)
    (justified : Justified i labels p.db call id isPublic) :
    Justified i (labels ++ [action]) db call id isPublic := by
  rcases justified with session | ⟨device, row, found, owner, token⟩
  · exact .inl (since_of_running reached current session)
  · obtain ⟨row', found', same⟩ := keeps id row found
    exact .inr ⟨device, row', found', same.trans owner, since_of_running reached current token⟩

variable (accounted : Accounted i labels p)

include accounted

/-- All requests but one are as before. -/
theorem Accounted.moved {logins : Logins} {auth : AuthState} (safe : Logins.Safe i.setup {} logins)
    (issued : ∃ clock, Logins.Issued clock logins) (consistent : Consistent i.auth auth)
    (keeps : KeepsOwners p.db logins.service.db) {call : ℕ} {next : Option ChangeRequest}
    (owned : ∀ device id isPublic, next = some (.owned device id isPublic) →
      Since (step i) {} (Running call) (ShowsToken i call id isPublic device) (labels ++ [action]))
    (set : ∀ asker next', next = some (.set asker next') →
      Justified i (labels ++ [action]) logins.service.db call (aim next').1
        (aim next').2) :
    Accounted i (labels ++ [action])
      ⟨logins, auth, Function.update p.requests call next⟩ where
  safe := safe
  issued := issued
  consistent := consistent
  owned other device id isPublic current := by
    dsimp only at current
    rw [Function.update_apply] at current
    split_ifs at current with same
    · exact same ▸ owned device id isPublic current
    · exact since_of_running reached current (accounted.owned other device id isPublic current)
  set other asker next' current := by
    dsimp only at current
    rw [Function.update_apply] at current
    split_ifs at current with same
    · exact same ▸ set asker next' current
    · exact justified_of_running reached keeps current (accounted.set other asker next' current)

/-- All requests are as before. -/
theorem Accounted.beside {logins : Logins} {auth : AuthState} (safe : Logins.Safe i.setup {} logins)
    (issued : ∃ clock, Logins.Issued clock logins) (consistent : Consistent i.auth auth)
    (keeps : KeepsOwners p.db logins.service.db) :
    Accounted i (labels ++ [action]) ⟨logins, auth, p.requests⟩ where
  safe := safe
  issued := issued
  consistent := consistent
  owned call device id isPublic current :=
    since_of_running reached current (accounted.owned call device id isPublic current)
  set call asker next current :=
    justified_of_running reached keeps current (accounted.set call asker next current)

/-- A new nonce is different from all that were issued before. -/
def FreshNonce (p : Portal) : Action → Prop
  | .device action => Logins.FreshNonce p.logins action
  | _ => True

theorem Accounted.stated {call : ℕ} {draw : ChangeDraw} {request : ChangeRequest}
    {result : Database × (ChangeAnswer ⊕ ChangeRequest)} (current : p.requests call = some request)
    (move : ChangeMove i.setup.readers.sha256 draw p.auth.accounts p.db request result) :
    Accounted i (labels ++ [.statement call draw])
      (p.afterStatement call result) := by
  obtain ⟨devices, tokens⟩ := accounts_of_change move
  have keeps := keepsOwners_of_change move
  obtain ⟨clock, issued⟩ := accounted.issued
  refine accounted.moved reached (safe_withDb accounted.safe devices tokens)
    ⟨clock, issued_withDb issued devices tokens⟩ accounted.consistent keeps
    (fun device id isPublic next => ?_) (fun asker next' next => ?_)
  · cases move with
    | ended | owned | developer | read | published | cleared => simp [nextRequest] at next
    | device reportId isPublic' known =>
      obtain ⟨rfl, rfl, rfl⟩ := ChangeRequest.owned.inj (Option.some.inj next)
      obtain ⟨token, rfl, -, holds⟩ :=
        (Logins.deviceFromBearer_eq_some_iff i.setup.readers.sha256).mp known
      refine (since_snoc reached).mpr (.inl ⟨draw, token, rfl, current, ?_⟩)
      exact Logins.goodFor_of_holder accounted.safe issued holds
  · cases move with
    | ended | device | published | cleared => simp [nextRequest] at next
    | owned isPublic found owner =>
      obtain ⟨rfl, rfl⟩ := ChangeRequest.set.inj (Option.some.inj next)
      have shown := accounted.owned call _ _ _ current
      exact .inr ⟨_, _, found, owner, since_of_running reached current shown⟩
    | developer reportId isPublic known =>
      obtain ⟨rfl, rfl⟩ := ChangeRequest.set.inj (Option.some.inj next)
      obtain ⟨cookie, rfl, isOpen⟩ := openFor_of_dev accounted.consistent known
      exact .inl ((since_snoc reached).mpr (.inl ⟨draw, cookie, _, rfl, current, isOpen⟩))
    | read asker' reportId isPublic slug =>
      obtain ⟨rfl, rfl⟩ := ChangeRequest.set.inj (Option.some.inj next)
      have justified := accounted.set call asker' (.read reportId isPublic) current
      exact justified_of_running reached keeps current justified

theorem Accounted.step (fresh : FreshNonce p action)
    (stepped : Portal.step i p action = some p') :
    Accounted i (labels ++ [action]) p' := by
  have keeps := keepsOwners_of_step stepped
  cases move_of_step stepped with
  | device moved =>
    exact accounted.beside reached (Logins.safe_of_step accounted.safe fresh moved)
      (issued_of_logins_step accounted.issued moved) accounted.consistent keeps
  | developer moved =>
    exact accounted.beside reached accounted.safe accounted.issued
      (consistent_of_step accounted.consistent moved) keeps
  | asked other first first' =>
    refine accounted.moved reached accounted.safe accounted.issued accounted.consistent keeps ?_ ?_
    · exact fun device id isPublic same => absurd (Option.some.inj same) (first device id isPublic)
    · exact fun asker next same => absurd (Option.some.inj same) (first' asker next)
  | stated current move => exact accounted.stated reached current move
  | dropped =>
    exact accounted.moved reached accounted.safe accounted.issued accounted.consistent keeps
      (by simp) (by simp)

end Run

/-! ## Runs -/

theorem accounted_of_run {actions : List Action} (fresh : Meets (step i) FreshNonce {} actions)
    (reached : run (step i) {} actions = some p) : Accounted i actions p :=
  history_of_run (I := Accounted i) Accounted.start
    (fun _ _ _ _ there accounted fresh stepped => accounted.step there fresh stepped) fresh reached

theorem visible_iff_of_run {actions : List Action} (reached : run (step i) {} actions = some p)
    (id : Text) :
    Visible p.db id ↔ Since (step i) {} (fun q b => ∀ call, ¬ Changes call id false q b)
      (fun _ q b => ∃ call, Changes call id true q b) actions := by
  have always : Meets (step i) (fun _ _ => True) {} actions := meets_of_forall fun _ _ _ => trivial
  refine history_of_run (I := fun labels p => Visible p.db id ↔
    Since (step i) {} (fun q b => ∀ call, ¬ Changes call id false q b)
      (fun _ q b => ∃ call, Changes call id true q b) labels) ?_ ?_ always reached
  · refine iff_of_false ?_ not_since_nil
    rintro ⟨row, found, -⟩
    simp [db] at found
  · intro before q b q' there same _ stepped
    rw [visible_of_step stepped, since_snoc there, same]

/-- In a run of the server in which no two nonces are the same: a report is public if and only if a
request has published it and since then none has taken it back. A request that does either has shown
the session of a developer, or a token of the device that has sent the report, and has been running
since then. -/
theorem changes_justified_of_run (i : Installation) {actions : List Action} {p : Portal}
    (fresh : Meets (step i) FreshNonce {} actions) (reached : run (step i) {} actions = some p) :
    (∀ id, Visible p.db id ↔ Since (step i) {} (fun q b => ∀ call, ¬ Changes call id false q b)
      (fun _ q b => ∃ call, Changes call id true q b) actions) ∧
    ∀ before b after q, actions = before ++ b :: after → run (step i) {} before = some q →
      ∀ call id isPublic, Changes call id isPublic q b → Justified i before q.db call id isPublic := by
  refine ⟨visible_iff_of_run reached, fun before b after q split there call id isPublic changes => ?_⟩
  obtain ⟨draw, request, -, current, asker, slug, rfl, -⟩ := changes
  rw [split] at fresh
  exact (accounted_of_run fresh.of_append there).set call asker (.write id isPublic slug) current

end Steps

/-! ## Concrete runs -/

instance (p : Portal) : ∀ action, Decidable (FreshNonce p action)
  | .device action => inferInstanceAs (Decidable (Logins.FreshNonce p.logins action))
  | .developer _ | .askBearer _ _ _ _ | .askSession _ _ _ _ | .statement _ _ | .drop _ =>
    inferInstanceAs (Decidable True)

def demoInstallation : Installation where
  setup := Service.demoSetup
  base64 _ := []
  hashPassword := demoLibs.hashPassword
  checkPassword := demoLibs.checkPassword
  site := ⟨[], []⟩

/-- The device that has sent the report logs in and publishes it. -/
def demoPublication : List Action :=
  (Logins.demoLogin 2000000000).map .device ++
    [.askBearer 0 (some "Bearer t".toList) "u1".toList true, .statement 0 { now := 60 },
      .statement 0 {}, .statement 0 {}, .statement 0 { secret := "s".toList }]

theorem demoPublication_justified :
    ∃ p, run (step demoInstallation) {} demoPublication = some p ∧ Visible p.db "u1".toList ∧
      ∃ before b after q call, demoPublication = before ++ b :: after ∧
        run (step demoInstallation) {} before = some q ∧ Changes call "u1".toList true q b ∧
        Justified demoInstallation before q.db call "u1".toList true := by
  have shown : (run (step demoInstallation) {} demoPublication).any (fun p =>
      (p.db.reports.find? "u1".toList).any fun row => row.visibility = .«public») = true := by
    decide +kernel
  obtain ⟨p, reached, visible⟩ := (Option.any_eq_true _ _).mp shown
  obtain ⟨row, found, isPublic⟩ := (Option.any_eq_true _ _).mp visible
  have visible : Visible p.db "u1".toList := ⟨row, found, by simpa using isPublic⟩
  obtain ⟨iff, justified⟩ := @changes_justified_of_run demoInstallation demoPublication p
    (by decide +kernel) reached
  obtain ⟨before, b, after, q, split, there, ⟨call, changes⟩, -⟩ := (iff "u1".toList).mp visible
  exact ⟨p, reached, visible, before, b, after, q, call, split, there, changes,
    justified before b after q split there call "u1".toList true changes⟩

end Portal

end UcrashReport
