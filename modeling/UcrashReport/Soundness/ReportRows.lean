import UcrashReport.Soundness.JobLedger

/-! # The rows of reports

What a step can do to the row of a report, and where new rows come from. A report gets one job at
most: its job is inserted by the call that has inserted the report.
-/

namespace UcrashReport.Service

open Rust Rust.Text Store Api Decode

/-- What a step can do to the row of a report: nothing, or mark it decoded, failed or without a raw
payload. -/
inductive ReportStep (s : Service) (report : ReportRow) : Action → ReportRow → Prop
  | kept {action : Action} : ReportStep s report action report
  | decoded {worker : ℕ} {draw : Decode.Draw} {job : Job} {groupId : Text} {ts : ℤ}
      (current : s.workers worker = some (.finish job groupId ts))
      (same : job.reportId = report.id) :
      ReportStep s report (.work worker draw)
        { report with state := .decoded, groupId := some groupId, rawDeletedAt := some ts }
  | failed {worker : ℕ} {draw : Decode.Draw} {job : Job}
      (current : s.workers worker = some (.markFailed job)) (same : job.reportId = report.id)
      (success : draw.success = true) :
      ReportStep s report (.work worker draw) { report with state := .failed }
  | swept {collector : ℕ} {draw : Decode.Draw} {ids : List Text}
      (current : s.collectors collector = some (.mark report.id ids))
      (success : draw.success = true) :
      ReportStep s report (.collect collector draw) { report with rawDeletedAt := some draw.now }

theorem find?_reports_of_upload {readers : Readers} {draw : Api.Draw} {db : Database} {raw : Files}
    {pc : Upload} {result : Database × Files × Progress}
    (move : UploadMove readers draw db raw pc result) (id : Text) :
    result.1.reports.find? id = db.reports.find? id ∨
      db.reports.find? id = none ∧ ∃ metadata deviceId, pc = .insertReport metadata deviceId id ∧
        result.1.reports.find? id = some (reportRow readers metadata id deviceId draw.now) ∧
        result.1.jobs = db.jobs ∧ result.2.1 = raw ∧ result.2.2 = .running (.insertJob id) := by
  cases move with
  | authenticated signed upserted => exact .inl ((Database.upsertDevice_frame upserted).1 ▸ rfl)
  | @reportInserted metadata deviceId reportId db' success inserted =>
    obtain ⟨added, jobs⟩ := Database.insertReport_spec inserted
    have found := Table.find?_insert added id
    rcases eq_or_ne reportId id with rfl | other
    · refine .inr ⟨Table.find?_of_insert_eq_some added, metadata, deviceId, rfl, ?_, jobs, rfl, rfl⟩
      simpa [reportRow] using found
    · exact .inl (by simpa [reportRow, other] using found)
  | jobInserted inserted => exact .inl ((Database.insertJob_spec inserted).1 ▸ rfl)
  | refused | anonymous | known | placed | written | cut | reportRefused | jobRefused =>
    exact .inl rfl

theorem reportStep_of_work {s : Service} {libs : Libraries} {draw : Decode.Draw} {worker : ℕ} {pc : Worker}
    {result : Database × Files × Files × Worker} (current : s.workers worker = some pc)
    (move : WorkMove libs draw s.db s.raw s.decoded pc result) {report : ReportRow}
    (found : s.db.reports.find? report.id = some report) :
    ∃ report', result.1.reports.find? report.id = some report' ∧
      ReportStep s report (.work worker draw) report' := by
  cases move with
  | rested | loaded | read | stored | removed | keptRaw | gaveUp | closed | leftRunning
  | leftUnmarked => exact ⟨report, found, .kept⟩
  | claimed claim => exact ⟨report, (Database.claimJob_spec claim).1 ▸ found, .kept⟩
  | grouped _ _ _ upserted =>
    exact ⟨report, (Database.upsertGroup_frame upserted).1 ▸ found, .kept⟩
  | finished job groupId ts =>
    dsimp only
    rw [Database.setDecoded, Table.find?_update, found, Option.map_some]
    split_ifs with same
    · exact ⟨_, rfl, .decoded current same.symm⟩
    · exact ⟨report, rfl, .kept⟩
  | markedFailed job success =>
    dsimp only
    rw [Database.setFailed, Table.find?_update, found, Option.map_some]
    split_ifs with same
    · exact ⟨_, rfl, .failed current same.symm success⟩
    · exact ⟨report, rfl, .kept⟩

theorem reportStep_of_step {setup : Setup} {s s' : Service} {action : Action}
    (stepped : step setup s action = some s') {report : ReportRow}
    (found : s.db.reports.find? report.id = some report) :
    ∃ report', s'.db.reports.find? report.id = some report' ∧
      ReportStep s report action report' := by
  cases move_of_step stepped with
  | requested | abandoned | swept | halted | started | stopped => exact ⟨report, found, .kept⟩
  | uploaded current move =>
    refine ⟨report, ?_, .kept⟩
    rw [afterUpload_db]
    rcases find?_reports_of_upload move report.id with same | ⟨absent, -⟩
    · rw [same, found]
    · rw [found] at absent
      contradiction
  | worked current move => exact reportStep_of_work current move found
  | collected current move =>
    cases move with
    | selected | ended | removed | keptRaw | unmarked => exact ⟨report, found, .kept⟩
    | marked id ids success =>
      dsimp only [afterCollect]
      rw [Database.setRawDeletedAt, Table.find?_update, found, Option.map_some]
      split_ifs with same
      · subst same
        exact ⟨_, rfl, .swept current success⟩
      · exact ⟨report, rfl, .kept⟩

/-- A report that was not there is there after a step only when an upload has inserted it. -/
theorem new_report_of_step {setup : Setup} {s s' : Service} {action : Action}
    (stepped : step setup s action = some s') {id : Text} (absent : s.db.reports.find? id = none)
    {report : ReportRow} (found : s'.db.reports.find? id = some report) :
    ∃ call draw metadata deviceId, action = .upload call draw ∧
      s.uploads call = some (.insertReport metadata deviceId id) ∧
      report = reportRow setup.readers metadata id deviceId draw.now ∧
      s'.uploads = Function.update s.uploads call (some (.insertJob id)) ∧
      s'.db.jobs = s.db.jobs ∧ s'.raw = s.raw ∧ s'.workers = s.workers := by
  have kept {db : Database} (frame : db.reports.find? id = s.db.reports.find? id)
      (there : db.reports.find? id = some report) : False := by
    rw [frame, absent] at there
    contradiction
  cases move_of_step stepped with
  | requested | abandoned | swept | halted | started | stopped => exact (kept rfl found).elim
  | @uploaded call draw pc result current move =>
    rw [afterUpload_db] at found
    rcases find?_reports_of_upload move id with same | ⟨-, metadata, deviceId, rfl, new, rest⟩
    · exact (kept same found).elim
    · obtain ⟨db', raw', progress⟩ := result
      obtain ⟨jobs, rfl, rfl⟩ := rest
      rw [new, Option.some.injEq] at found
      exact ⟨call, draw, metadata, deviceId, rfl, current, found.symm, rfl, jobs, rfl, rfl⟩
  | worked current move =>
    refine (kept ?_ found).elim
    cases move with
    | claimed claim => exact (Database.claimJob_spec claim).1 ▸ rfl
    | grouped _ _ _ upserted => exact (Database.upsertGroup_frame upserted).1 ▸ rfl
    | finished =>
      dsimp only [afterWork]
      rw [Database.setDecoded, Table.find?_update, absent, Option.map_none]
    | markedFailed =>
      dsimp only [afterWork]
      rw [Database.setFailed, Table.find?_update, absent, Option.map_none]
    | rested | loaded | read | stored | removed | keptRaw | gaveUp | closed | leftRunning
    | leftUnmarked => rfl
  | collected current move =>
    refine (kept ?_ found).elim
    cases move with
    | marked =>
      dsimp only [afterCollect]
      rw [Database.setRawDeletedAt, Table.find?_update, absent, Option.map_none]
    | selected | ended | removed | keptRaw | unmarked => rfl

/-- Where the row of a report was before a step. -/
theorem report_before_step {setup : Setup} {s s' : Service} {action : Action}
    (stepped : step setup s action = some s') {id : Text} {report' : ReportRow}
    (found' : s'.db.reports.find? id = some report') :
    (∃ report, s.db.reports.find? id = some report ∧ report.id = id ∧
        ReportStep s report action report') ∨
      s.db.reports.find? id = none ∧ ∃ call draw metadata deviceId, action = .upload call draw ∧
        s.uploads call = some (.insertReport metadata deviceId id) ∧
        report' = reportRow setup.readers metadata id deviceId draw.now ∧
        s'.uploads = Function.update s.uploads call (some (.insertJob id)) ∧
        s'.db.jobs = s.db.jobs ∧ s'.raw = s.raw ∧ s'.workers = s.workers := by
  cases found : s.db.reports.find? id with
  | none => exact .inr ⟨rfl, new_report_of_step stepped found found'⟩
  | some report =>
    obtain ⟨-, rfl⟩ := Table.find?_eq_some_iff.mp found
    obtain ⟨after, foundAfter, moved⟩ := reportStep_of_step stepped found
    rw [found', Option.some.injEq] at foundAfter
    exact .inl ⟨report, rfl, rfl, foundAfter ▸ moved⟩

/-! ## One job a report -/

structure OneJob (s : Service) : Prop where
  known : ∀ id row, s.db.jobs.find? id = some row → (s.db.reports.find? row.reportId).isSome
  single : ∀ id row id' row', s.db.jobs.find? id = some row → s.db.jobs.find? id' = some row' →
    row.reportId = row'.reportId → id = id'
  awaited : ∀ call id, s.uploads call = some (.insertJob id) →
    (s.db.reports.find? id).isSome ∧
      ∀ jobId row, s.db.jobs.find? jobId = some row → row.reportId ≠ id
  alone : ∀ call call' id, s.uploads call = some (.insertJob id) →
    s.uploads call' = some (.insertJob id) → call = call'

theorem OneJob.empty : OneJob {} where
  known _ _ found := by simp at found
  single _ _ _ _ found := by simp at found
  awaited _ _ none := by simp at none
  alone _ _ _ none := by simp at none

theorem report_isSome_of_step {setup : Setup} {s s' : Service} {action : Action}
    (stepped : step setup s action = some s') {id : Text}
    (there : (s.db.reports.find? id).isSome) : (s'.db.reports.find? id).isSome := by
  obtain ⟨report, found⟩ := Option.isSome_iff_exists.mp there
  obtain ⟨-, rfl⟩ := Table.find?_eq_some_iff.mp found
  obtain ⟨report', found', -⟩ := reportStep_of_step stepped found
  exact Option.isSome_of_eq_some found'

/-- Where the row of a job was before a step. -/
theorem row_before_step {setup : Setup} {s s' : Service} {action : Action}
    (ledger : Ledger s.db.jobs s.workers) (stepped : step setup s action = some s') {id : Text}
    {row' : JobRow} (found' : s'.db.jobs.find? id = some row') :
    (∃ row, s.db.jobs.find? id = some row ∧ row.id = id ∧ RowStep s row s' action row') ∨
      s.db.jobs.find? id = none ∧ ∃ call draw, action = .upload call draw ∧ draw.newId = id ∧
        s.uploads call = some (.insertJob row'.reportId) ∧
        (s.db.reports.find? row'.reportId).isSome ∧ row' = { id, reportId := row'.reportId } := by
  cases found : s.db.jobs.find? id with
  | none =>
    obtain ⟨-, new⟩ := new_row_of_step stepped found
    obtain ⟨call, draw, reportId, rfl, newId, awaiting, there, rfl⟩ := new row' found'
    exact .inr ⟨rfl, call, draw, rfl, newId, awaiting, there, rfl⟩
  | some row =>
    obtain ⟨-, rfl⟩ := Table.find?_eq_some_iff.mp found
    obtain ⟨after, foundAfter, moved⟩ := rowStep_of_step ledger stepped found
    rw [found', Option.some.injEq] at foundAfter
    exact .inl ⟨row, rfl, rfl, foundAfter ▸ moved⟩

/-- A call that is about to insert a job was so before, or has just inserted the report. -/
theorem awaiting_before_step {setup : Setup} {s s' : Service} {action : Action}
    (stepped : step setup s action = some s') {call : ℕ} {id : Text}
    (awaiting : s'.uploads call = some (.insertJob id)) :
    s.uploads call = some (.insertJob id) ∧ (∀ draw, action ≠ .upload call draw) ∨
      (∃ draw, action = .upload call draw) ∧ s.db.reports.find? id = none ∧
        (s'.db.reports.find? id).isSome := by
  cases move_of_step stepped with
  | requested other =>
    rcases eq_or_ne call other with rfl | different
    · simp [Function.update_self] at awaiting
    · exact .inl ⟨by simpa [different] using awaiting, by simp⟩
  | abandoned other =>
    rcases eq_or_ne call other with rfl | different
    · simp [Function.update_self] at awaiting
    · exact .inl ⟨by simpa [different] using awaiting, by simp⟩
  | swept | halted | started | stopped | worked | collected => exact .inl ⟨awaiting, by simp⟩
  | @uploaded other draw pc result current move =>
    rcases eq_or_ne call other with rfl | different
    · refine .inr ⟨⟨draw, rfl⟩, ?_⟩
      rw [afterUpload_db]
      have progress := running_of_afterUpload s call result awaiting
      cases move with
      | anonymous | authenticated =>
        obtain ⟨metadata, payload, -, -, impossible⟩ := afterAuthentication_eq_running progress
        contradiction
      | @reportInserted metadata deviceId reportId db' success inserted =>
        obtain ⟨added, -⟩ := Database.insertReport_spec inserted
        rw [Progress.running.injEq, Upload.insertJob.injEq] at progress
        subst progress
        have found := Table.find?_insert added reportId
        exact ⟨Table.find?_of_insert_eq_some added, by simp [found, reportRow]⟩
      | refused | known | placed | written | cut | reportRefused | jobInserted | jobRefused =>
        simp at progress
    · rw [afterUpload_uploads_of_ne _ _ _ different] at awaiting
      refine .inl ⟨awaiting, fun draw' same => different ?_⟩
      exact (Action.upload.inj same).1.symm

theorem oneJob_of_step {setup : Setup} {s s' : Service} {action : Action} (oneJob : OneJob s)
    (ledger : Ledger s.db.jobs s.workers) (stepped : step setup s action = some s') :
    OneJob s' where
  known id row' found' := by
    rcases row_before_step ledger stepped found' with
      ⟨row, found, -, moved⟩ | ⟨-, call, draw, -, -, -, there, -⟩
    · rw [moved.reportId]
      exact report_isSome_of_step stepped (oneJob.known id row found)
    · exact report_isSome_of_step stepped there
  single id row id' row' found found' same := by
    rcases row_before_step ledger stepped found with
      ⟨old, wasFound, -, moved⟩ | ⟨-, call, draw, acted, newId, awaiting, -, -⟩ <;>
    rcases row_before_step ledger stepped found' with
      ⟨old', wasFound', -, moved'⟩ | ⟨-, call', draw', acted', newId', awaiting', -, -⟩
    · rw [moved.reportId, moved'.reportId] at same
      exact oneJob.single id old id' old' wasFound wasFound' same
    · rw [moved.reportId] at same
      exact absurd same ((oneJob.awaited call' _ awaiting').2 id old wasFound)
    · rw [moved'.reportId] at same
      exact absurd same.symm ((oneJob.awaited call _ awaiting).2 id' old' wasFound')
    · rw [acted, Action.upload.injEq] at acted'
      rw [← newId, ← newId', acted'.2]
  awaited call id awaiting := by
    rcases awaiting_before_step stepped awaiting with ⟨before, idle⟩ | ⟨⟨draw, rfl⟩, absent, there⟩
    · obtain ⟨there, unqueued⟩ := oneJob.awaited call id before
      refine ⟨report_isSome_of_step stepped there, fun jobId row' found' same => ?_⟩
      rcases row_before_step ledger stepped found' with
        ⟨row, found, -, moved⟩ | ⟨-, other, draw, rfl, -, awaiting', -, -⟩
      · exact unqueued jobId row found (moved.reportId.symm.trans same)
      · rw [same] at awaiting'
        exact idle draw (by rw [oneJob.alone other call id awaiting' before])
    · refine ⟨there, fun jobId row' found' same => ?_⟩
      rcases row_before_step ledger stepped found' with
        ⟨row, found, -, moved⟩ | ⟨-, other, draw, -, -, -, there', -⟩
      · have known := oneJob.known jobId row found
        rw [← moved.reportId, same, absent] at known
        contradiction
      · rw [same, absent] at there'
        contradiction
  alone call call' id awaiting awaiting' := by
    rcases awaiting_before_step stepped awaiting with ⟨before, -⟩ | ⟨⟨draw, acted⟩, absent, -⟩ <;>
    rcases awaiting_before_step stepped awaiting' with ⟨before', -⟩ | ⟨⟨draw', acted'⟩, absent', -⟩
    · exact oneJob.alone call call' id before before'
    · have there := (oneJob.awaited call id before).1
      rw [absent'] at there
      contradiction
    · have there := (oneJob.awaited call' id before').1
      rw [absent] at there
      contradiction
    · rw [acted, Action.upload.injEq] at acted'
      exact acted'.1

/-! ## Both together -/

structure InOrder (s : Service) : Prop where
  ledger : Ledger s.db.jobs s.workers
  oneJob : OneJob s

theorem InOrder.empty : InOrder {} := ⟨.empty, .empty⟩

theorem inOrder_of_step {setup : Setup} {s s' : Service} {action : Action} (order : InOrder s)
    (stepped : step setup s action = some s') : InOrder s' :=
  ⟨ledger_of_step order.ledger stepped, oneJob_of_step order.oneJob order.ledger stepped⟩

theorem inOrder_of_run {setup : Setup} {s t : Service} {actions : List Action} (order : InOrder s)
    (reached : Machine.run (step setup) s actions = some t) : InOrder t :=
  Machine.invariant_of_every_run (fun _ _ _ invariant stepped => inOrder_of_step invariant stepped)
    order reached

section Holders

variable {s : Service} (order : InOrder s) {worker : ℕ} {pc : Worker} {job : Job} {closed : Bool}
  (current : s.workers worker = some pc) (holds : held pc = some (job, closed))

include order current holds

/-- The row with the report of a job in hand is the row of that job. -/
theorem InOrder.backed_of_reportId {id : Text} {row : JobRow}
    (found : s.db.jobs.find? id = some row) (same : row.reportId = job.reportId) :
    id = job.id ∧ Backed job closed row := by
  obtain ⟨row', found', backed⟩ := order.ledger.backed worker pc job closed current holds
  have sameId := order.oneJob.single id row job.id row' found found'
    (same.trans backed.reportId.symm)
  rw [← sameId, found, Option.some.injEq] at found'
  exact ⟨sameId, found' ▸ backed⟩

/-- No two workers have jobs of one report. -/
theorem InOrder.same_worker {worker' : ℕ} {pc' : Worker} {job' : Job} {closed' : Bool}
    (current' : s.workers worker' = some pc') (holds' : held pc' = some (job', closed'))
    (same : job.reportId = job'.reportId) : worker = worker' := by
  obtain ⟨row, found, backed⟩ := order.ledger.backed worker pc job closed current holds
  obtain ⟨sameId, -⟩ := order.backed_of_reportId current' holds' found (backed.reportId.trans same)
  exact order.ledger.exclusive worker pc job closed worker' pc' job' closed' current holds current'
    holds' sameId

theorem InOrder.report_of_held : ∃ report, s.db.reports.find? job.reportId = some report := by
  obtain ⟨row, found, backed⟩ := order.ledger.backed worker pc job closed current holds
  have known := order.oneJob.known job.id row found
  rw [backed.reportId] at known
  exact Option.isSome_iff_exists.mp known

end Holders

end UcrashReport.Service
