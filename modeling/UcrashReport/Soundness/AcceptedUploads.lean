import UcrashReport.Soundness.HeldJobs

/-! # Accepted uploads

An upload is answered after its job is inserted, or at once when the same device has sent its uuid
before. No statement of the service takes a report or a job away, so the first kind of answer stays
right. The second kind looks at the report only: after a failure between the two inserts, a retry
is answered for a report that has no job.
-/

namespace UcrashReport.Service

open Rust Rust.Text Api Decode

def HasJob (db : Database) (reportId : Text) : Prop := ∃ job ∈ db.jobs.rows, job.reportId = reportId

/-- Every report that was answered for is there and has a job. -/
def AnsweredQueued (s : Service) : Prop :=
  ∀ id ∈ s.answered, (s.db.reports.find? id).isSome ∧ HasJob s.db id

/-- The upload does not come upon the report of its own device before that has a job. -/
def OwnReportQueued (db : Database) (draw : Api.Draw) : Upload → Prop
  | .lookup metadata _ deviceId =>
    draw.success = true → place db metadata.uuid deviceId draw.newId = .known →
      HasJob db metadata.uuid
  | _ => True

/-- No device looks its uuid up while its report is there without a job. -/
def RetriesQueued (s : Service) : Action → Prop
  | .upload call draw => ∀ pc ∈ s.uploads call, OwnReportQueued s.db draw pc
  | _ => True

instance (db : Database) (reportId : Text) : Decidable (HasJob db reportId) :=
  inferInstanceAs (Decidable (∃ job ∈ db.jobs.rows, job.reportId = reportId))

instance (db : Database) (draw : Api.Draw) : ∀ pc, Decidable (OwnReportQueued db draw pc)
  | .lookup metadata _ deviceId =>
    inferInstanceAs (Decidable (draw.success = true →
      place db metadata.uuid deviceId draw.newId = .known → HasJob db metadata.uuid))
  | .authenticate _ _ | .write _ _ _ _ | .insertReport _ _ _ | .insertJob _ =>
    inferInstanceAs (Decidable True)

instance (s : Service) : ∀ action, Decidable (RetriesQueued s action)
  | .upload call draw =>
    inferInstanceAs (Decidable (∀ pc ∈ s.uploads call, OwnReportQueued s.db draw pc))
  | .request _ _ _ | .abandon _ | .start _ | .work _ _ | .stop _ | .sweep _ | .collect _ _
  | .halt _ => inferInstanceAs (Decidable True)

theorem HasJob.extends {db db' : Database} {reportId : Text} (queued : HasJob db reportId)
    (extended : db'.Extends db) : HasJob db' reportId := by
  obtain ⟨job, member, same⟩ := queued
  obtain ⟨job', member', same'⟩ := extended.jobs job member
  exact ⟨job', member', same'.trans same⟩

theorem AnsweredQueued.extends {s s' : Service} (invariant : AnsweredQueued s)
    (extended : s'.db.Extends s.db) (same : s'.answered = s.answered) : AnsweredQueued s' := by
  intro id member
  obtain ⟨there, queued⟩ := invariant id (same ▸ member)
  exact ⟨extended.reports id there, queued.extends extended⟩

theorem extends_of_upload {readers : Readers} {draw : Api.Draw} {db : Database} {raw : Files}
    {pc : Upload} {result : Database × Files × Progress}
    (move : UploadMove readers draw db raw pc result) : result.1.Extends db := by
  cases move with
  | authenticated signed upserted =>
    exact .of_eq (Database.upsertDevice_frame upserted).1 (Database.upsertDevice_frame upserted).2
  | reportInserted success inserted => exact .of_insertReport inserted
  | jobInserted inserted => exact .of_insertJob inserted
  | refused | anonymous | known | placed | written | cut | reportRefused | jobRefused =>
    exact .refl db

theorem extends_of_work {libs : Libraries} {draw : Decode.Draw} {db : Database} {raw decoded : Files}
    {pc : Worker} {result : Database × Files × Files × Worker}
    (move : WorkMove libs draw db raw decoded pc result) :
    result.1.Extends db := by
  cases move with
  | claimed claim => exact .of_claimJob claim
  | grouped _ _ _ upserted =>
    exact .of_eq (Database.upsertGroup_frame upserted).1 (Database.upsertGroup_frame upserted).2
  | finished => exact .of_update_report
  | closed => exact .of_update_job fun _ => rfl
  | markedFailed => exact .of_update_report
  | rested | loaded | read | stored | removed | keptRaw | gaveUp | leftRunning | leftUnmarked =>
    exact .refl db

theorem extends_of_collect {retentionDays : ℕ} {draw : Decode.Draw} {db : Database} {raw : Files}
    {pc : Collector} {result : Database × Files × Option Collector}
    (move : CollectMove retentionDays draw db raw pc result) :
    result.1.Extends db := by
  cases move with
  | marked => exact .of_update_report
  | selected | ended | removed | keptRaw | unmarked => exact .refl db

/-- An upload is answered for a report that is there and has a job. -/
theorem answered_of_upload {readers : Readers} {draw : Api.Draw} {db : Database} {raw : Files}
    {pc : Upload} {result : Database × Files × Progress} {id : Text}
    (queued : OwnReportQueued db draw pc) (move : UploadMove readers draw db raw pc result)
    (answered : result.2.2 = .created id) :
    (result.1.reports.find? id).isSome ∧ HasJob result.1 id := by
  cases move with
  | refused | placed | written | cut | reportInserted | reportRefused | jobRefused =>
    contradiction
  | anonymous | authenticated =>
    exact absurd answered (afterAuthentication_ne_created readers _ _ _ id)
  | known success known =>
    obtain rfl := Progress.created.inj answered
    obtain ⟨row, found, -⟩ := place_eq_known known
    exact ⟨Option.isSome_of_eq_some found, queued success known⟩
  | jobInserted inserted =>
    obtain rfl := Progress.created.inj answered
    obtain ⟨reports, there, added⟩ := Database.insertJob_spec inserted
    exact ⟨reports ▸ there, _, (Store.Table.mem_rows_insert added _).mpr (.inr rfl), rfl⟩

theorem answeredQueued_of_step {setup : Setup} {s s' : Service} {action : Action}
    (invariant : AnsweredQueued s) (retries : RetriesQueued s action)
    (stepped : step setup s action = some s') : AnsweredQueued s' := by
  cases move_of_step stepped with
  | requested | abandoned | started | stopped | swept | halted => exact invariant
  | worked current move => exact invariant.extends (extends_of_work move) rfl
  | collected current move => exact invariant.extends (extends_of_collect move) rfl
  | @uploaded call draw pc result current move =>
    have extended := extends_of_upload move
    have answered (id : Text) (created : result.2.2 = .created id) :=
      answered_of_upload (retries pc current) move created
    obtain ⟨db', raw', progress⟩ := result
    cases progress with
    | running next => exact invariant.extends extended rfl
    | failed error => exact invariant.extends extended rfl
    | created new =>
      intro id member
      rcases List.mem_cons.mp member with rfl | before
      · exact answered id rfl
      · obtain ⟨there, queued⟩ := invariant id before
        exact ⟨extended.reports id there, queued.extends extended⟩

/-- In a run in which no device looks up its own report before that has a job, every answered
report is there and has a job, in every state. -/
theorem answered_queued_of_run (setup : Setup) {actions : List Action} {s : Service}
    (retries : Machine.Meets (step setup) RetriesQueued {} actions)
    (reached : Machine.run (step setup) {} actions = some s) :
    ∀ id ∈ s.answered, (∃ row, s.db.reports.find? id = some row) ∧
      ∃ job ∈ s.db.jobs.rows, job.reportId = id := by
  have invariant : AnsweredQueued s :=
    Machine.invariant_of_run
      (fun _ _ _ queued meets stepped => answeredQueued_of_step queued meets stepped)
      (fun _ member => absurd member List.not_mem_nil) retries reached
  intro id member
  obtain ⟨there, queued⟩ := invariant id member
  exact ⟨Option.isSome_iff_exists.mp there, queued⟩

/-! ## Concrete runs -/

/-- The insertion of the job fails, and the retry of the device is answered for the report that no
job will ever decode. -/
theorem retry_answered_without_job :
    ∃ s, Machine.run (step demoSetup) {}
        ([demoRequest 0, .upload 0 { newId := "d1".toList }, .upload 0 {}, .upload 0 {},
            .upload 0 {}, .upload 0 { success := false }] ++
          [demoRequest 1, .upload 1 {}, .upload 1 {}]) = some s ∧
      s.answered = ["u1".toList] ∧ s.db.jobs.rows = [] := by
  refine ⟨_, rfl, by decide +kernel, by decide +kernel⟩

/-- A retry after an upload that went through is answered too. -/
theorem retry_answered_with_job :
    ∃ s, Machine.run (step demoSetup) {}
        (demoUpload 0 ++ [demoRequest 1, .upload 1 {}, .upload 1 {}]) = some s ∧
      s.answered = ["u1".toList, "u1".toList] ∧
      ∀ id ∈ s.answered, (∃ row, s.db.reports.find? id = some row) ∧
        ∃ job ∈ s.db.jobs.rows, job.reportId = id := by
  have answers : (Machine.run (step demoSetup) {}
      (demoUpload 0 ++ [demoRequest 1, .upload 1 {}, .upload 1 {}])).map (·.answered) =
        some ["u1".toList, "u1".toList] := by decide +kernel
  obtain ⟨s, reached, answered⟩ := Option.map_eq_some_iff.mp answers
  exact ⟨s, reached, answered, answered_queued_of_run demoSetup (by decide +kernel) reached⟩

end UcrashReport.Service
