import UcrashReport.Decoder.Decode
import UcrashReport.Machine.Run
import UcrashReport.Server.Api

/-! # The running service

Uploads, decode workers and collectors share the database and the payload files. An action is one
step of one of them, a new one of them, or the end of one of them between two steps; a run is any
interleaving of such actions. What the service has answered is remembered.
-/

namespace UcrashReport

open Rust Api Decode

/-- What the service is built from: the libraries and the configured retention. -/
structure Setup where
  readers : Readers
  libs : Libraries
  retentionDays : ℕ

structure Service where
  db : Database := {}
  raw : Files := fun _ => none
  decoded : Files := fun _ => none
  uploads : ℕ → Option Upload := fun _ => none
  workers : ℕ → Option Worker := fun _ => none
  collectors : ℕ → Option Collector := fun _ => none
  answered : List Text := []

namespace Service

inductive Action
  | request (call : ℕ) (headers : Headers) (body : Bytes)
  | upload (call : ℕ) (draw : Api.Draw)
  | abandon (call : ℕ)
  | start (worker : ℕ)
  | work (worker : ℕ) (draw : Decode.Draw)
  | stop (worker : ℕ)
  | sweep (collector : ℕ)
  | collect (collector : ℕ) (draw : Decode.Draw)
  | halt (collector : ℕ)

/-- What a step of an upload leads to. A call that is over is forgotten. -/
def afterUpload (s : Service) (call : ℕ) : Database × Files × Progress → Service
  | (db, raw, .running next) =>
    { s with db, raw, uploads := Function.update s.uploads call (some next) }
  | (db, raw, .created reportId) =>
    { s with
      db, raw
      uploads := Function.update s.uploads call none
      answered := reportId :: s.answered }
  | (db, raw, .failed _) => { s with db, raw, uploads := Function.update s.uploads call none }

section AfterUpload

variable (s : Service) (call : ℕ) (result : Database × Files × Progress)

@[simp] theorem afterUpload_db : (s.afterUpload call result).db = result.1 := by
  rcases result with ⟨db, raw, _ | _ | _⟩ <;> rfl

@[simp] theorem afterUpload_raw : (s.afterUpload call result).raw = result.2.1 := by
  rcases result with ⟨db, raw, _ | _ | _⟩ <;> rfl

@[simp] theorem afterUpload_workers : (s.afterUpload call result).workers = s.workers := by
  rcases result with ⟨db, raw, _ | _ | _⟩ <;> rfl

/-- Only the call that moves changes. -/
theorem afterUpload_uploads_of_ne {other : ℕ} (different : other ≠ call) :
    (s.afterUpload call result).uploads other = s.uploads other := by
  rcases result with ⟨db, raw, _ | _ | _⟩ <;> exact Function.update_of_ne different _ _

/-- A call that goes on is where its step has led it. -/
theorem running_of_afterUpload {next : Upload}
    (current : (s.afterUpload call result).uploads call = some next) :
    result.2.2 = .running next := by
  obtain ⟨db, raw, progress⟩ := result
  cases progress with
  | running other => simpa [afterUpload] using current
  | created | failed => simp [afterUpload] at current

end AfterUpload

def afterWork (s : Service) (worker : ℕ) : Database × Files × Files × Worker → Service
  | (db, raw, decoded, next) =>
    { s with db, raw, decoded, workers := Function.update s.workers worker (some next) }

@[simp] theorem afterWork_workers_self (s : Service) (worker : ℕ)
    (result : Database × Files × Files × Worker) :
    (s.afterWork worker result).workers worker = some result.2.2.2 :=
  Function.update_self worker _ s.workers

def afterCollect (s : Service) (collector : ℕ) : Database × Files × Option Collector → Service
  | (db, raw, next) =>
    { s with db, raw, collectors := Function.update s.collectors collector next }

/-- The state after an action that is possible. A party that stops is forgotten. -/
def step (setup : Setup) (s : Service) : Action → Option Service
  | .request call headers body =>
    if s.uploads call = none then
      some { s with uploads := Function.update s.uploads call (some (.authenticate headers body)) }
    else none
  | .upload call draw =>
    (s.uploads call).map fun pc =>
      s.afterUpload call (postReport setup.readers draw s.db s.raw pc)
  | .abandon call => some { s with uploads := Function.update s.uploads call none }
  | .start worker =>
    if (s.workers worker).isNone then
      some { s with workers := Function.update s.workers worker (some .idle) }
    else none
  | .work worker draw =>
    (s.workers worker).map fun pc =>
      s.afterWork worker (Decode.work setup.libs draw s.db s.raw s.decoded pc)
  | .stop worker => some { s with workers := Function.update s.workers worker none }
  | .sweep collector =>
    if s.collectors collector = none then
      some { s with collectors := Function.update s.collectors collector (some .select) }
    else none
  | .collect collector draw =>
    (s.collectors collector).map fun pc =>
      s.afterCollect collector (gcFailedRaw setup.retentionDays draw s.db s.raw pc)
  | .halt collector => some { s with collectors := Function.update s.collectors collector none }

/-- The states that a fresh service can come to. -/
def Reachable (setup : Setup) (s : Service) : Prop :=
  ∃ actions, Machine.run (step setup) {} actions = some s

end Service

end UcrashReport
