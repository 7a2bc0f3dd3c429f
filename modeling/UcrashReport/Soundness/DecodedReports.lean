import UcrashReport.Soundness.ReportRows

/-! # Decoded reports and their jobs

A job is done only when its report is decoded, and nobody else has a job of that report, so that is
never undone. A report that is marked decoded can still be marked failed by the worker that has it,
when the raw payload cannot be removed in the last attempt; and a job and its report can disagree
about failure when only one of the two statements that say so goes through.
-/

namespace UcrashReport.Service

open Rust Rust.Text Store Api Decode

/-! ## Done jobs -/

def IsDecoded (db : Database) (id : Text) : Prop :=
  ∃ report, db.reports.find? id = some report ∧ report.state = .decoded ∧ report.groupId.isSome

/-- The worker has marked the report of its job decoded. -/
def HasDecoded (job : Job) (pc : Worker) : Prop :=
  ∃ groupId, pc = .remove job groupId ∨ pc = .close job (.ok groupId)

theorem held_of_hasDecoded {job : Job} {pc : Worker} (decoded : HasDecoded job pc) :
    held pc = some (job, false) := by
  obtain ⟨groupId, rfl | rfl⟩ := decoded <;> rfl

structure DoneDecoded (s : Service) : Prop where
  done : ∀ id row, s.db.jobs.find? id = some row → row.state = .done → IsDecoded s.db row.reportId
  inHand : ∀ worker pc job, s.workers worker = some pc → HasDecoded job pc →
    IsDecoded s.db job.reportId

/-- A report stays decoded unless a worker marks it failed. -/
theorem isDecoded_of_step {setup : Setup} {s s' : Service} {action : Action}
    (stepped : step setup s action = some s') {id : Text} (decoded : IsDecoded s.db id)
    (unmarked : ∀ worker draw job, action = .work worker draw →
      s.workers worker = some (.markFailed job) → job.reportId ≠ id) : IsDecoded s'.db id := by
  obtain ⟨report, found, state, group⟩ := decoded
  obtain ⟨-, rfl⟩ := Table.find?_eq_some_iff.mp found
  obtain ⟨report', found', moved⟩ := reportStep_of_step stepped found
  refine ⟨report', found', ?_⟩
  cases moved with
  | kept => exact ⟨state, group⟩
  | decoded => exact ⟨rfl, rfl⟩
  | @failed worker draw job current same => exact absurd same (unmarked worker draw job rfl current)
  | swept => exact ⟨state, group⟩

/-- What a worker has marked decoded, it had marked before, or it marks it now. -/
theorem hasDecoded_before_step {setup : Setup} {s s' : Service} {action : Action}
    (order : InOrder s) (stepped : step setup s action = some s') {worker : ℕ} {pc' : Worker}
    {job : Job} (current' : s'.workers worker = some pc') (decoded : HasDecoded job pc') :
    (∃ pc, s.workers worker = some pc ∧ HasDecoded job pc) ∨ IsDecoded s'.db job.reportId := by
  rcases worker_before_step stepped current' with
    ⟨before, -⟩ | rfl | ⟨draw, pc, db', raw', decoded', rfl, current, move, rfl⟩
  · exact .inl ⟨pc', before, decoded⟩
  · obtain ⟨groupId, impossible | impossible⟩ := decoded <;> contradiction
  · have holds := held_of_hasDecoded decoded
    cases move with
    | closed | leftRunning =>
      obtain ⟨-, impossible, -⟩ := held_afterClose holds
      contradiction
    | removed job' groupId =>
      rw [held, Option.some.injEq, Prod.mk.injEq] at holds
      exact .inl ⟨_, current, groupId, .inl (by rw [holds.1])⟩
    | finished job' groupId ts =>
      rw [held, Option.some.injEq, Prod.mk.injEq] at holds
      obtain ⟨rfl, -⟩ := holds
      obtain ⟨report, found⟩ := order.report_of_held current rfl
      have same := (Table.find?_eq_some_iff.mp found).2
      right
      dsimp only [afterWork]
      rw [IsDecoded, Database.setDecoded, Table.find?_update, found, Option.map_some, if_pos same]
      exact ⟨_, rfl, rfl, rfl⟩
    | rested | claimed | loaded | read | stored | grouped | keptRaw | gaveUp | markedFailed
    | leftUnmarked =>
      obtain ⟨groupId, impossible | impossible⟩ := decoded <;> simp at impossible

theorem doneDecoded_of_step {setup : Setup} {s s' : Service} {action : Action}
    (invariant : DoneDecoded s) (order : InOrder s) (stepped : step setup s action = some s') :
    DoneDecoded s' where
  done id row' found' done := by
    rcases row_before_step order.ledger stepped found' with
      ⟨row, found, rfl, moved⟩ | ⟨-, call, draw, -, -, -, -, new⟩
    · rw [moved.reportId]
      cases moved with
      | kept =>
        refine isDecoded_of_step stepped (invariant.done _ _ found done) ?_
        rintro worker draw job rfl current same
        obtain ⟨-, backed⟩ := order.backed_of_reportId current rfl found same.symm
        rcases backed.state with running | ⟨-, failed⟩
        · simp [done] at running
        · simp [done] at failed
      | claimed => contradiction
      | @closed worker draw job outcome current same backed =>
        have decoded : IsDecoded s.db job.reportId := by
          cases outcome with
          | ok groupId => exact invariant.inHand worker _ job current ⟨groupId, .inr rfl⟩
          | error e =>
            dsimp only [Job.closedState] at done
            split_ifs at done
        rw [backed.reportId]
        refine isDecoded_of_step stepped decoded fun worker' draw' job' acted current' => ?_
        rw [Action.work.injEq] at acted
        rw [← acted.1, current] at current'
        simp at current'
    · rw [new] at done
      contradiction
  inHand worker pc' job current' decoded := by
    rcases hasDecoded_before_step order stepped current' decoded with ⟨pc, current, before⟩ | now
    · refine isDecoded_of_step stepped (invariant.inHand worker pc job current before) ?_
      rintro worker' draw job' rfl marking same
      have holds := held_of_hasDecoded before
      obtain rfl := order.same_worker marking rfl current holds same
      rw [marking, Option.some.injEq] at current
      subst current
      simp [held] at holds
    · exact now

/-! ## Failed jobs -/

/-- A last attempt fails only for a report that is not decoded, and the second of its statements goes
through exactly when the first one has. -/
def EndsBoth (db : Database) (draw : Decode.Draw) : Worker → Prop
  | .close job (.error _) =>
    maxAttempts ≤ job.attempts → draw.success = true →
      ∀ report ∈ db.reports.find? job.reportId, report.state ≠ .decoded
  | .markFailed job => ∀ row ∈ db.jobs.find? job.id, draw.success = true ↔ row.state = .failed
  | _ => True

/-- The worker is not between two statements of which the first has gone through. -/
def NotBetween (db : Database) : Worker → Prop
  | .markFailed job => ∀ row ∈ db.jobs.find? job.id, row.state ≠ .failed
  | _ => True

/-- Every last attempt that fails ends both the job and the report, which is not decoded. -/
def Faithful (s : Service) : Action → Prop
  | .work worker draw => ∀ pc ∈ s.workers worker, EndsBoth s.db draw pc
  | .stop worker => ∀ pc ∈ s.workers worker, NotBetween s.db pc
  | _ => True

instance (db : Database) (draw : Decode.Draw) : ∀ pc, Decidable (EndsBoth db draw pc)
  | .close job (.error _) =>
    inferInstanceAs (Decidable (maxAttempts ≤ job.attempts → draw.success = true →
      ∀ report ∈ db.reports.find? job.reportId, report.state ≠ .decoded))
  | .markFailed job =>
    inferInstanceAs (Decidable (∀ row ∈ db.jobs.find? job.id,
      draw.success = true ↔ row.state = .failed))
  | .close _ (.ok _) | .idle | .load _ | .read _ _ | .store _ _ _ _ | .group _ _ _ | .finish _ _ _
  | .remove _ _ => inferInstanceAs (Decidable True)

instance (db : Database) : ∀ pc, Decidable (NotBetween db pc)
  | .markFailed job =>
    inferInstanceAs (Decidable (∀ row ∈ db.jobs.find? job.id, row.state ≠ .failed))
  | .close _ _ | .idle | .load _ | .read _ _ | .store _ _ _ _ | .group _ _ _ | .finish _ _ _
  | .remove _ _ => inferInstanceAs (Decidable True)

instance (s : Service) : ∀ action, Decidable (Faithful s action)
  | .work worker draw =>
    inferInstanceAs (Decidable (∀ pc ∈ s.workers worker, EndsBoth s.db draw pc))
  | .stop worker => inferInstanceAs (Decidable (∀ pc ∈ s.workers worker, NotBetween s.db pc))
  | .request _ _ _ | .upload _ _ | .abandon _ | .start _ | .sweep _ | .collect _ _ | .halt _ =>
    inferInstanceAs (Decidable True)

/-- Some worker is between the two statements that end a job as failed. -/
def Failing (s : Service) (jobId : Text) : Prop :=
  ∃ worker job, s.workers worker = some (.markFailed job) ∧ job.id = jobId

structure FailuresAgree (s : Service) : Prop where
  report : ∀ id report, s.db.reports.find? id = some report → report.state = .failed →
    ∃ jobId row, s.db.jobs.find? jobId = some row ∧ row.reportId = id ∧ row.state = .failed
  job : ∀ jobId row, s.db.jobs.find? jobId = some row → row.state = .failed →
    Failing s jobId ∨
      ∃ report, s.db.reports.find? row.reportId = some report ∧ report.state = .failed
  undecoded : ∀ worker job row, s.workers worker = some (.markFailed job) →
    s.db.jobs.find? job.id = some row → row.state = .failed →
    ∀ report, s.db.reports.find? job.reportId = some report → report.state ≠ .decoded

/-- A report whose job has failed is not marked decoded. -/
theorem not_finishing_of_failed {s : Service} (order : InOrder s) {jobId : Text} {row : JobRow}
    (found : s.db.jobs.find? jobId = some row) (failed : row.state = .failed) {worker : ℕ}
    {job : Job} {groupId : Text} {ts : ℤ} (current : s.workers worker = some (.finish job groupId ts)) :
    job.reportId ≠ row.reportId := by
  intro same
  obtain ⟨-, backed⟩ := order.backed_of_reportId current rfl found same.symm
  rcases backed.state with running | ⟨impossible, -⟩
  · simp [failed] at running
  · contradiction

theorem failed_report_of_step {setup : Setup} {s s' : Service} {action : Action}
    (agree : FailuresAgree s) (order : InOrder s) (faithful : Faithful s action)
    (stepped : step setup s action = some s') {id : Text} {report' : ReportRow}
    (found' : s'.db.reports.find? id = some report') (failed : report'.state = .failed) :
    ∃ jobId row, s'.db.jobs.find? jobId = some row ∧ row.reportId = id ∧ row.state = .failed := by
  -- A failed job stays failed.
  have keep (jobId : Text) (row : JobRow) (found : s.db.jobs.find? jobId = some row)
      (same : row.reportId = id) (failed : row.state = .failed) :
      ∃ jobId row, s'.db.jobs.find? jobId = some row ∧ row.reportId = id ∧ row.state = .failed := by
    obtain ⟨-, rfl⟩ := Table.find?_eq_some_iff.mp found
    exact ⟨_, row, (over_of_step order.ledger stepped found (.inr failed)).1, same, failed⟩
  rcases report_before_step stepped found' with ⟨report, found, sameId, moved⟩ | ⟨-, new⟩
  · cases moved with
    | kept | swept =>
      obtain ⟨jobId, row, foundRow, same, rowFailed⟩ := agree.report id _ found failed
      exact keep jobId row foundRow same rowFailed
    | decoded => contradiction
    | @failed worker draw job current same success =>
      obtain ⟨row, foundRow, backed⟩ := order.ledger.backed worker _ job true current rfl
      have rowFailed := (faithful _ current row foundRow).mp success
      exact keep job.id row foundRow (backed.reportId.trans (same.trans sameId)) rowFailed
  · obtain ⟨call, draw, metadata, deviceId, -, -, rfl, -⟩ := new
    contradiction

theorem failed_job_of_step {setup : Setup} {s s' : Service} {action : Action}
    (agree : FailuresAgree s) (order : InOrder s) (faithful : Faithful s action)
    (stepped : step setup s action = some s') {jobId : Text} {row' : JobRow}
    (found' : s'.db.jobs.find? jobId = some row') (failed : row'.state = .failed) :
    Failing s' jobId ∨
      ∃ report, s'.db.reports.find? row'.reportId = some report ∧ report.state = .failed := by
  rcases row_before_step order.ledger stepped found' with
    ⟨row, found, rfl, moved⟩ | ⟨-, call, draw, -, -, -, -, new⟩
  · cases moved with
    | kept =>
      rcases agree.job _ _ found failed with ⟨worker, job, current, sameId⟩ | ⟨report, there, state⟩
      · have foundJob := sameId ▸ found
        rcases worker_after_step stepped current with still | rfl | ⟨draw, rfl⟩
        · exact .inl ⟨worker, job, still, sameId⟩
        · exact absurd failed (faithful _ current _ foundJob)
        -- The second statement goes through because the first one has.
        · have success := (faithful _ current _ foundJob).mpr failed
          obtain ⟨row', foundRow, backed⟩ := order.ledger.backed worker _ job true current rfl
          rw [foundJob, Option.some.injEq] at foundRow
          subst foundRow
          obtain ⟨db, raw, decoded, next, move, rfl⟩ := workMove_of_step stepped current
          obtain ⟨report, foundReport⟩ := order.report_of_held current rfl
          have same := (Table.find?_eq_some_iff.mp foundReport).2
          cases move with
          | gaveUp busy => contradiction
          | leftUnmarked job failure => simp [success] at failure
          | markedFailed =>
            right
            dsimp only [afterWork]
            rw [Database.setFailed, Table.find?_update, backed.reportId, foundReport,
              Option.map_some, if_pos same]
            exact ⟨_, rfl, rfl⟩
      · obtain ⟨-, sameId⟩ := Table.find?_eq_some_iff.mp there
        rw [← sameId] at there ⊢
        obtain ⟨report', there', moved⟩ := reportStep_of_step stepped there
        refine .inr ⟨report', there', ?_⟩
        cases moved with
        | kept | swept => exact state
        | failed => rfl
        | decoded finishing same =>
          exact absurd (same.trans sameId) (not_finishing_of_failed order found failed finishing)
    | claimed => contradiction
    | @closed worker draw job outcome current same backed =>
      refine .inl ⟨worker, job, ?_, same⟩
      obtain ⟨db, raw, decoded, next, move, rfl⟩ := workMove_of_step stepped current
      have next_eq : next = job.afterClose outcome := by
        cases move with
        | closed | leftRunning => rfl
        | gaveUp busy early opened =>
          rw [Worker.job, Option.some.injEq] at busy
          exact absurd rfl (busy ▸ opened outcome)
      rw [next_eq, afterWork_workers_self]
      cases outcome with
      | ok => contradiction
      | error e =>
        dsimp only [Job.closedState] at failed
        split_ifs at failed with last
        rw [Job.afterClose, if_pos last]
  · rw [new] at failed
    contradiction

theorem undecoded_of_step {setup : Setup} {s s' : Service} {action : Action}
    (agree : FailuresAgree s) (order : InOrder s) (faithful : Faithful s action)
    (stepped : step setup s action = some s') {worker : ℕ} {job : Job} {row' : JobRow}
    (current' : s'.workers worker = some (.markFailed job))
    (found' : s'.db.jobs.find? job.id = some row') (failed : row'.state = .failed)
    {report' : ReportRow} (there' : s'.db.reports.find? job.reportId = some report') :
    report'.state ≠ .decoded := by
  have order' := inOrder_of_step order stepped
  obtain ⟨row'', foundRow', backed'⟩ := order'.ledger.backed worker _ job true current' rfl
  rw [found', Option.some.injEq] at foundRow'
  subst foundRow'
  rcases worker_before_step stepped current' with
    ⟨current, other⟩ | impossible | ⟨draw, pc, db, raw, decoded, rfl, current, move, rfl⟩
  -- The worker was there before, and nobody else has a job of the report.
  · obtain ⟨row, found, backed⟩ := order.ledger.backed worker _ job true current rfl
    have rowFailed : row.state = .failed := by
      obtain ⟨-, sameId⟩ := Table.find?_eq_some_iff.mp found
      rw [← sameId] at found found'
      obtain ⟨after, foundAfter, moved⟩ := rowStep_of_step order.ledger stepped found
      rw [found', Option.some.injEq] at foundAfter
      subst foundAfter
      cases moved with
      | kept => exact failed
      | claimed => contradiction
      | @closed worker₁ draw₁ job₁ outcome closing same =>
        have sameWorker := order.ledger.exclusive worker _ job true worker₁ _ job₁ false current
          rfl closing rfl (sameId.symm.trans same.symm)
        rw [← sameWorker, current] at closing
        simp at closing
    rcases report_before_step stepped there' with ⟨report, there, sameId, moved⟩ | ⟨-, new⟩
    · have undecoded := agree.undecoded worker job row current found rowFailed report there
      cases moved with
      | kept | swept => exact undecoded
      | failed => simp
      | decoded finishing same =>
        exact absurd (same.trans (sameId.trans backed.reportId.symm))
          (not_finishing_of_failed order found rowFailed finishing)
    · obtain ⟨call, draw, metadata, deviceId, -, -, rfl, -⟩ := new
      simp [reportRow]
  · contradiction
  -- It has just closed the job.
  · obtain ⟨e, rfl, last⟩ := closing_of_markFailed move
    generalize next_eq : Worker.markFailed job = next at move
    cases move with
    | gaveUp => contradiction
    | leftRunning =>
      obtain ⟨row, found, backed⟩ := order.ledger.backed worker _ job false current rfl
      have same : row = row' := Option.some.inj (found.symm.trans found')
      rcases backed.state with running | ⟨impossible, -⟩
      · simp [same, failed] at running
      · contradiction
    | closed _ _ success =>
      exact faithful _ current last success report' there'

/-! ## Runs -/

structure Agreement (s : Service) : Prop where
  order : InOrder s
  done : DoneDecoded s
  failures : FailuresAgree s

theorem Agreement.empty : Agreement {} where
  order := .empty
  done := ⟨fun _ _ found => by simp at found, fun _ _ _ none => by simp at none⟩
  failures := ⟨fun _ _ found => by simp at found, fun _ _ found => by simp at found,
    fun _ _ _ none => by simp at none⟩

theorem agreement_of_step {setup : Setup} {s s' : Service} {action : Action}
    (agreement : Agreement s) (faithful : Faithful s action)
    (stepped : step setup s action = some s') : Agreement s' where
  order := inOrder_of_step agreement.order stepped
  done := doneDecoded_of_step agreement.done agreement.order stepped
  failures :=
    { report := fun _ _ found failed =>
        failed_report_of_step agreement.failures agreement.order faithful stepped found failed
      job := fun _ _ found failed =>
        failed_job_of_step agreement.failures agreement.order faithful stepped found failed
      undecoded := fun _ _ _ current found failed _ there =>
        undecoded_of_step agreement.failures agreement.order faithful stepped current found failed
          there }

/-- No step that is faithful takes a report out of the decoded state. -/
theorem decoded_of_step {setup : Setup} {s s' : Service} {action : Action}
    (agreement : Agreement s) (faithful : Faithful s action)
    (stepped : step setup s action = some s') {id : Text} {report : ReportRow}
    (found : s.db.reports.find? id = some report) (decoded : report.state = .decoded) :
    ∃ report', s'.db.reports.find? id = some report' ∧ report'.state = .decoded := by
  obtain ⟨-, rfl⟩ := Table.find?_eq_some_iff.mp found
  obtain ⟨report', found', moved⟩ := reportStep_of_step stepped found
  refine ⟨report', found', ?_⟩
  cases moved with
  | kept | swept => exact decoded
  | decoded => rfl
  | @failed worker draw job current same success =>
    obtain ⟨row, foundRow, -⟩ := agreement.order.ledger.backed worker _ job true current rfl
    have failed := (faithful _ current row foundRow).mp success
    exact absurd decoded
      (agreement.failures.undecoded worker job row current foundRow failed report (same ▸ found))

/-- In a run in which a last attempt fails only for reports that are not decoded, and its two
statements go through both or neither, a decoded report stays decoded, a failed report has a job, a
report and its job are failed together unless a worker is between the two statements, and the report
of a job that is done is decoded and has a group. -/
theorem decoded_reports_agree_of_run (setup : Setup) {actions more : List Action} {s t : Service}
    (faithful : Machine.Meets (step setup) Faithful {} actions)
    (reached : Machine.run (step setup) {} actions = some s)
    (faithful' : Machine.Meets (step setup) Faithful s more)
    (later : Machine.run (step setup) s more = some t) :
    (∀ report ∈ s.db.reports.rows, report.state = .decoded →
      ∃ report' ∈ t.db.reports.rows, report'.id = report.id ∧ report'.state = .decoded) ∧
    (∀ report ∈ s.db.reports.rows, report.state = .failed →
      ∃ job ∈ s.db.jobs.rows, job.reportId = report.id) ∧
    (∀ report ∈ s.db.reports.rows, ∀ job ∈ s.db.jobs.rows, job.reportId = report.id →
      ¬ Failing s job.id → (report.state = .failed ↔ job.state = .failed)) ∧
    ∀ job ∈ s.db.jobs.rows, job.state = .done →
      ∃ report ∈ s.db.reports.rows, report.id = job.reportId ∧ report.state = .decoded ∧
        report.groupId.isSome := by
  have agreement : Agreement s := Machine.invariant_of_run
    (fun _ _ _ agreement meets stepped => agreement_of_step agreement meets stepped) .empty faithful
    reached
  refine ⟨fun report member decoded => ?_, fun report member failed => ?_,
    fun report member job member' same unfinished => ?_, fun job member done => ?_⟩
  · have found : s.db.reports.find? report.id = some report :=
      Table.find?_eq_some_iff.mpr ⟨member, rfl⟩
    have kept := Machine.invariant_of_run
      (I := fun s => Agreement s ∧ ∃ report', s.db.reports.find? report.id = some report' ∧
        report'.state = .decoded)
      (fun s action s' invariant meets stepped => by
        obtain ⟨agreement, report', found', decoded'⟩ := invariant
        exact ⟨agreement_of_step agreement meets stepped,
          decoded_of_step agreement meets stepped found' decoded'⟩)
      ⟨agreement, report, found, decoded⟩ faithful' later
    obtain ⟨-, report', found', decoded'⟩ := kept
    obtain ⟨member', sameId⟩ := Table.find?_eq_some_iff.mp found'
    exact ⟨report', member', sameId, decoded'⟩
  · obtain ⟨jobId, job, found, same, state⟩ := agreement.failures.report report.id report
      (Table.find?_eq_some_iff.mpr ⟨member, rfl⟩) failed
    exact ⟨job, (Table.find?_eq_some_iff.mp found).1, same⟩
  · have foundReport : s.db.reports.find? report.id = some report :=
      Table.find?_eq_some_iff.mpr ⟨member, rfl⟩
    have foundJob : s.db.jobs.find? job.id = some job :=
      Table.find?_eq_some_iff.mpr ⟨member', rfl⟩
    constructor
    · intro failed
      obtain ⟨jobId, other, found, sameReport, state⟩ :=
        agreement.failures.report report.id report foundReport failed
      have sameId := agreement.order.oneJob.single jobId other job.id job found foundJob
        (sameReport.trans same.symm)
      rw [sameId, foundJob, Option.some.injEq] at found
      rw [found, state]
    · intro failed
      rcases agreement.failures.job job.id job foundJob failed with failing | ⟨other, found, state⟩
      · exact absurd failing unfinished
      · rw [same, foundReport, Option.some.injEq] at found
        rw [found, state]
  · obtain ⟨report, found, state, group⟩ := agreement.done.done job.id job
      (Table.find?_eq_some_iff.mpr ⟨member, rfl⟩) done
    obtain ⟨member', sameId⟩ := Table.find?_eq_some_iff.mp found
    exact ⟨report, member', sameId, state, group⟩

/-! ## Concrete runs -/

/-- A claim and the steps up to the update of the report. -/
def demoDecode (worker : ℕ) : List Action :=
  [.work worker {}, .work worker {}, .work worker {}, .work worker {},
    .work worker { newId := "g1".toList }, .work worker {}]

/-- A raw payload that can never be removed: the report is decoded after the first attempt, and
failed after the third. -/
theorem decoded_report_marked_failed :
    ∃ s t, Machine.run (step demoSetup) {} (demoUpload 0 ++ [.start 0] ++ demoDecode 0) = some s ∧
      s.db.reports.rows.map (·.state) = [.decoded] ∧
      Machine.run (step demoSetup) s
        ([.work 0 { success := false }, .work 0 {}] ++ demoDecode 0 ++
          [.work 0 { success := false }, .work 0 {}] ++ demoDecode 0 ++
          [.work 0 { success := false }, .work 0 {}, .work 0 {}]) = some t ∧
      t.db.reports.rows.map (·.state) = [.failed] := by
  refine ⟨_, _, rfl, by decide +kernel, rfl, by decide +kernel⟩

/-- A report that is decoded stays so while its raw payload is removed and its job is closed. -/
theorem decoded_report_kept :
    ∃ s t, Machine.run (step demoSetup) {} (demoUpload 0 ++ [.start 0] ++ demoDecode 0) = some s ∧
      Machine.run (step demoSetup) s [.work 0 {}, .work 0 {}] = some t ∧
      s.db.reports.rows.map (·.state) = [.decoded] ∧ t.db.jobs.rows.map (·.state) = [.done] ∧
      ∀ report ∈ s.db.reports.rows, report.state = .decoded →
        ∃ report' ∈ t.db.reports.rows, report'.id = report.id ∧ report'.state = .decoded := by
  refine ⟨_, _, rfl, rfl, by decide +kernel, by decide +kernel, ?_⟩
  have faithful : Machine.Meets (step demoSetup) Faithful {}
      (demoUpload 0 ++ [.start 0] ++ demoDecode 0) := by decide +kernel
  exact (decoded_reports_agree_of_run demoSetup faithful rfl (by decide +kernel)
    (show Machine.run (step demoSetup) _ [.work 0 {}, .work 0 {}] = _ from rfl)).1

end UcrashReport.Service
