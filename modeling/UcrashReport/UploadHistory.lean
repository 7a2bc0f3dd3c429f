import UcrashReport.ServiceMoves

/-! # The history of uploads

A run of the service beside which the requests are remembered: of the calls in progress, of the
reports that were inserted and of the answers. The service itself does not depend on what is
remembered.
-/

namespace UcrashReport

open Rust Rust.Text Store Api Decode

structure Request where
  headers : Headers
  body : Bytes
deriving DecidableEq, Repr

namespace Request

/-- The public key that the request is signed with. -/
def key (readers : Readers) (request : Request) : Except ApiError (Option Text) :=
  checkSignature readers request.headers request.body

def report (readers : Readers) (request : Request) :
    Except ApiError (Types.ReportMetadata × Bytes) :=
  parseMultipart readers request.headers request.body

end Request

structure History where
  service : Service := {}
  requests : ℕ → Option Request := fun _ => none
  stored : List (Text × Request) := []
  answered : List (Text × Request) := []

namespace History

open Service

/-- A call that is about to insert the job has just inserted the report. -/
def noteStored (request : Request) (stored : List (Text × Request)) :
    Progress → List (Text × Request)
  | .running (.insertJob id) => (id, request) :: stored
  | _ => stored

def noteAnswered (request : Request) (answered : List (Text × Request)) :
    Progress → List (Text × Request)
  | .created id => (id, request) :: answered
  | _ => answered

/-- What is remembered when a call has taken a step. -/
def note (h : History) (service : Service) (request : Request) (progress : Progress) : History :=
  { h with
    service
    stored := noteStored request h.stored progress
    answered := noteAnswered request h.answered progress }

theorem subset_noteStored (request : Request) (stored : List (Text × Request))
    (progress : Progress) : stored ⊆ noteStored request stored progress := by
  rcases progress with (_ | _ | _ | _ | _) | _ | _ <;> simp [noteStored]

def step (setup : Setup) (h : History) (action : Action) : Option History :=
  (Service.step setup h.service action).map fun service =>
    match action with
    | .request call headers body =>
      { h with service, requests := Function.update h.requests call (some ⟨headers, body⟩) }
    | .upload call draw =>
      match h.service.uploads call, h.requests call with
      | some pc, some request =>
        h.note service request (postReport setup.readers draw h.service.db h.service.raw pc).2.2
      | _, _ => { h with service }
    | _ => { h with service }

/-! ## The service in a history -/

variable {setup : Setup} {h h' : History} {action : Action}

theorem service_of_step (stepped : step setup h action = some h') :
    Service.step setup h.service action = some h'.service := by
  rw [step, Option.map_eq_some_iff] at stepped
  obtain ⟨service, stepped, rfl⟩ := stepped
  rw [stepped, Option.some.injEq]
  cases action with
  | upload call draw =>
    dsimp only
    split <;> rfl
  | request | abandon | start | work | stop | sweep | collect | halt => rfl

theorem service_of_run {actions : List Action}
    (reached : Machine.run (step setup) h actions = some h') :
    Machine.run (Service.step setup) h.service actions = some h'.service := by
  induction actions generalizing h with
  | nil =>
    rw [Machine.run, Option.some.injEq] at reached
    rw [Machine.run, reached]
  | cons action rest ih =>
    obtain ⟨mid, stepped, reached⟩ := Machine.run_cons.mp reached
    exact Machine.run_cons.mpr ⟨mid.service, service_of_step stepped, ih reached⟩

/-! ## What is remembered -/

/-- The moves of a history: a new request, a step of a call, or a step of another party. -/
inductive Move (setup : Setup) (h : History) : Action → History → Prop
  | requested {call : ℕ} {headers : Headers} {body : Bytes}
      (free : h.service.uploads call = none) :
      Move setup h (.request call headers body)
        { h with
          service :=
            { h.service with
              uploads := Function.update h.service.uploads call (some (.authenticate headers body)) }
          requests := Function.update h.requests call (some ⟨headers, body⟩) }
  | uploaded {call : ℕ} {draw : Api.Draw} {pc : Upload} {request : Request}
      {result : Database × Files × Progress} (current : h.service.uploads call = some pc)
      (remembered : h.requests call = some request)
      (move : UploadMove setup.readers draw h.service.db h.service.raw pc result) :
      Move setup h (.upload call draw)
        (h.note (h.service.afterUpload call result) request result.2.2)
  | forgotten {call : ℕ} {draw : Api.Draw} {pc : Upload} {service : Service}
      (current : h.service.uploads call = some pc) (unknown : h.requests call = none) :
      Move setup h (.upload call draw) { h with service }
  | other {action : Action} {service : Service}
      (stepped : Service.step setup h.service action = some service)
      (noRequest : ∀ call headers body, action ≠ .request call headers body)
      (noUpload : ∀ call draw, action ≠ .upload call draw) :
      Move setup h action { h with service }

theorem move_of_step (stepped : step setup h action = some h') : Move setup h action h' := by
  rw [step, Option.map_eq_some_iff] at stepped
  obtain ⟨service, stepped, rfl⟩ := stepped
  cases action with
  | request call headers body =>
    rw [Service.step, Option.ite_none_right_eq_some, Option.some.injEq] at stepped
    obtain ⟨free, rfl⟩ := stepped
    exact .requested free
  | upload call draw =>
    rw [Service.step, Option.map_eq_some_iff] at stepped
    obtain ⟨pc, current, rfl⟩ := stepped
    cases remembered : h.requests call with
    | none =>
      simp only [current, remembered]
      exact .forgotten current remembered
    | some request =>
      simp only [current, remembered]
      exact .uploaded current remembered
        (postReport_moves setup.readers draw h.service.db h.service.raw pc)
  | abandon | start | work | stop | sweep | collect | halt =>
    exact .other stepped (by simp) (by simp)

end History

end UcrashReport
