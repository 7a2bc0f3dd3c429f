import UcrashReport.Machine.Hosts
import UcrashReport.Soundness.OwnPayloads
import UcrashReport.Soundness.Publication

/-! # The service within the server

Logins of devices and of developers, and requests that change a visibility, take their steps between
those of uploads, workers and clean-ups. They leave jobs, groups and files alone, and of the row of a
report they change no more than who may see it.
-/

namespace UcrashReport

open Rust Rust.Text Store Api Web Machine

/-- The row without what a request can change of it. -/
def ReportRow.unpublished (row : ReportRow) : ReportRow :=
  { row with visibility := .«private», publishSlug := none }

namespace Portal

def service (p : Portal) : Service := p.logins.service

/-- The step of the service that a step of the server is. -/
def served : Action → Option Service.Action
  | .device (.serve action) => some action
  | _ => none

/-- The rows of reports are as before, but for their visibilities. -/
def SameButVisibility (db db' : Database) : Prop :=
  ∀ id, (db'.reports.find? id).map ReportRow.unpublished =
    (db.reports.find? id).map ReportRow.unpublished

/-- What a step of the server leaves of the service that is none of the service. -/
structure Beside (s s' : Service) : Prop where
  jobs : s'.db.jobs = s.db.jobs
  groups : s'.db.groups = s.db.groups
  reports : SameButVisibility s.db s'.db
  workers : s'.workers = s.workers
  raw : s'.raw = s.raw
  decoded : s'.decoded = s.decoded

theorem sameButVisibility_of_eq {db db' : Database} (same : db'.reports = db.reports) :
    SameButVisibility db db' := fun id => by rw [same]

theorem Beside.refl (s : Service) : Beside s s :=
  ⟨rfl, rfl, sameButVisibility_of_eq rfl, rfl, rfl, rfl⟩

theorem Beside.inserted {s s' : Service} (beside : Beside s s') {id : Text} {row : ReportRow}
    (found : s.db.reports.find? id = some row) :
    ∃ row', s'.db.reports.find? id = some row' ∧ row'.inserted = row.inserted := by
  have same := beside.reports id
  rw [found, Option.map_some, Option.map_eq_some_iff] at same
  obtain ⟨row', found', unpublished⟩ := same
  have same : row'.unpublished.inserted = row.unpublished.inserted := by rw [unpublished]
  exact ⟨row', found', same⟩

theorem beside_of_login_move {libs : LoginLibs} {draw : LoginDraw} {s : Service} {nonces : Nonces}
    {call : LoginCall} {result : Database × Nonces × LoginProgress}
    (move : LoginMove libs draw s.db nonces call result) : Beside s { s with db := result.1 } := by
  cases move with
  | inserted inserted =>
    rw [Database.insertToken, Option.ite_none_right_eq_some, Option.map_eq_some_iff] at inserted
    obtain ⟨-, tokens, -, rfl⟩ := inserted
    exact ⟨rfl, rfl, sameButVisibility_of_eq rfl, rfl, rfl, rfl⟩
  | refused | known | issued | taken | unchallenged | verified => exact .refl s

theorem sameButVisibility_setPublic {db db' : Database} {id slug : Text}
    (published : db.setPublic id slug = some db') : SameButVisibility db db' := by
  intro query
  rw [Database.find?_setPublic published, Option.map_map]
  congr 1
  funext row
  rw [Function.comp_apply]
  split_ifs <;> rfl

theorem sameButVisibility_setPrivate (db : Database) (id : Text) :
    SameButVisibility db (db.setPrivate id) := by
  intro query
  rw [Database.find?_setPrivate, Option.map_map]
  congr 1
  funext row
  rw [Function.comp_apply]
  split_ifs <;> rfl

theorem beside_of_change {sha256 : Bytes → Bytes} {draw : ChangeDraw} {accounts : Auth.Accounts}
    {s : Service} {request : ChangeRequest} {result : Database × (ChangeAnswer ⊕ ChangeRequest)}
    (move : ChangeMove sha256 draw accounts s.db request result) :
    Beside s { s with db := result.1 } := by
  cases move with
  | ended | device | owned | developer | read => exact .refl s
  | published success published =>
    have same := sameButVisibility_setPublic published
    rw [Database.setPublic, Option.ite_none_left_eq_some, Option.some.injEq] at published
    obtain ⟨-, rfl⟩ := published
    exact ⟨rfl, rfl, same, rfl, rfl, rfl⟩
  | cleared => exact ⟨rfl, rfl, sameButVisibility_setPrivate s.db _, rfl, rfl, rfl⟩

theorem beside_of_step {i : Installation} {p p' : Portal} {action : Action}
    (unserved : served action = none) (stepped : step i p action = some p') :
    Beside p.service p'.service := by
  cases move_of_step stepped with
  | device moved =>
    cases Logins.move_of_step moved with
    | served => contradiction
    | tokensDeleted now => exact ⟨rfl, rfl, sameButVisibility_of_eq rfl, rfl, rfl, rfl⟩
    | begun | abandoned => exact .refl _
    | advanced running later move => exact beside_of_login_move move
  | developer | asked | dropped => exact .refl _
  | stated current move => exact beside_of_change move

/-- A step of the server is a step of its service, or goes on beside it. -/
theorem hosts_service (i : Installation) :
    Hosts (step i) (Service.step i.setup) service served Beside := by
  intro p action p' stepped
  cases isServed : served action with
  | none => exact .inr ⟨rfl, beside_of_step isServed stepped⟩
  | some inner =>
    refine .inl ⟨inner, rfl, ?_⟩
    unfold served at isServed
    split at isServed
    · obtain rfl := Option.some.inj isServed
      obtain ⟨logins, moved, rfl⟩ := Option.map_eq_some_iff.mp stepped
      obtain ⟨service, taken, rfl⟩ := Option.map_eq_some_iff.mp moved
      exact taken
    · contradiction

/-- What workers have loaded is what the uploads have inserted, whoever may see it by now. -/
theorem loadedRows_of_run {i : Installation} {p : Portal} {actions : List Action}
    (reached : run (step i) {} actions = some p) : History.LoadedRows p.service := by
  refine (hosts_service i).invariant_of_run
    (fun _ _ _ rows stepped => History.loadedRows_of_step rows stepped) ?_
    (fun _ _ _ _ none => by simp [service] at none) reached
  intro s s' rows beside worker pc job report current loads
  obtain ⟨row, found, same⟩ := rows worker pc job report (beside.workers ▸ current) loads
  obtain ⟨row', found', inserted⟩ := beside.inserted found
  exact ⟨row', found', same.trans inserted.symm⟩

end Portal

end UcrashReport
