import UcrashReport.Service

/-! # What a step can do

The steps of the three parties, told apart by what they change. An invariant of the service is
checked against these moves; the checks and the text processing between two statements play no
part in them.
-/

namespace UcrashReport

open Rust Rust.Text Api Decode

/-! ## Uploads -/

/-- The moves of an upload: what becomes of the database, of the raw files and of the call. -/
inductive UploadMove (readers : Readers) (draw : Api.Draw) (db : Database) (raw : Files) :
    Upload → Database × Files × Progress → Prop
  | refused {pc : Upload} (noRow : ∀ metadata device id, pc ≠ .insertReport metadata device id)
      (noJob : ∀ id, pc ≠ .insertJob id) (error : ApiError) :
      UploadMove readers draw db raw pc (db, raw, .failed error)
  | anonymous {headers : Headers} {body : Bytes}
      (unsigned : checkSignature readers headers body = .ok none) :
      UploadMove readers draw db raw (.authenticate headers body)
        (db, raw, afterAuthentication readers headers body none)
  | authenticated {headers : Headers} {body : Bytes} {pubkey deviceId : Text} {db' : Database}
      (signed : checkSignature readers headers body = .ok (some pubkey))
      (upserted : db.upsertDevice draw.newId pubkey draw.now = some (db', deviceId)) :
      UploadMove readers draw db raw (.authenticate headers body)
        (db', raw, afterAuthentication readers headers body (some deviceId))
  | known {metadata : Types.ReportMetadata} {payload : Bytes} {deviceId : Option Text}
      (success : draw.success = true)
      (known : place db metadata.uuid deviceId draw.newId = .known) :
      UploadMove readers draw db raw (.lookup metadata payload deviceId)
        (db, raw, .created metadata.uuid)
  | placed {metadata : Types.ReportMetadata} {payload : Bytes} {deviceId : Option Text}
      {reportId : Text} (success : draw.success = true)
      (fresh : place db metadata.uuid deviceId draw.newId = .fresh reportId) :
      UploadMove readers draw db raw (.lookup metadata payload deviceId)
        (db, raw, .running (.write metadata payload deviceId reportId))
  | written (metadata : Types.ReportMetadata) (payload : Bytes) (deviceId : Option Text)
      (reportId : Text) (whole : draw.written = .whole) :
      UploadMove readers draw db raw (.write metadata payload deviceId reportId)
        (db, Function.update raw reportId (some payload),
          .running (.insertReport metadata deviceId reportId))
  | cut (metadata : Types.ReportMetadata) (payload : Bytes) (deviceId : Option Text)
      (reportId : Text) {length : ℕ} (cut : draw.written = .cut length) :
      UploadMove readers draw db raw (.write metadata payload deviceId reportId)
        (db, Function.update raw reportId (some (payload.take length)), .failed internalError)
  | reportInserted {metadata : Types.ReportMetadata} {deviceId : Option Text} {reportId : Text}
      {db' : Database} (success : draw.success = true)
      (inserted : db.insertReport (reportRow readers metadata reportId deviceId draw.now) =
        some db') :
      UploadMove readers draw db raw (.insertReport metadata deviceId reportId)
        (db', raw, .running (.insertJob reportId))
  | reportRefused {metadata : Types.ReportMetadata} {deviceId : Option Text} {reportId : Text}
      (failed : draw.success = true →
        db.insertReport (reportRow readers metadata reportId deviceId draw.now) = none) :
      UploadMove readers draw db raw (.insertReport metadata deviceId reportId)
        (db, raw, .failed internalError)
  | jobInserted {reportId : Text} {db' : Database}
      (inserted : db.insertJob draw.newId reportId = some db') :
      UploadMove readers draw db raw (.insertJob reportId) (db', raw, .created reportId)
  | jobRefused {reportId : Text}
      (failed : draw.success = true → db.insertJob draw.newId reportId = none) :
      UploadMove readers draw db raw (.insertJob reportId) (db, raw, .failed internalError)

theorem postReport_moves (readers : Readers) (draw : Api.Draw) (db : Database) (raw : Files)
    (pc : Upload) : UploadMove readers draw db raw pc (postReport readers draw db raw pc) := by
  cases pc with
  | authenticate headers body =>
    rw [postReport]
    cases signed : checkSignature readers headers body with
    | error e => exact .refused (by simp) (by simp) e
    | ok pubkey =>
      cases pubkey with
      | none => exact .anonymous signed
      | some pubkey =>
        cases success : draw.success with
        | false => exact .refused (by simp) (by simp) internalError
        | true =>
          cases upserted : db.upsertDevice draw.newId pubkey draw.now with
          | none => simpa [upserted] using .refused (by simp) (by simp) internalError
          | some result => simpa [upserted] using .authenticated signed upserted
  | lookup metadata payload deviceId =>
    rw [postReport]
    split_ifs with success
    · cases placed : place db metadata.uuid deviceId draw.newId with
      | fresh reportId => exact .placed success placed
      | known => exact .known success placed
    · exact .refused (by simp) (by simp) internalError
  | write metadata payload deviceId reportId =>
    rw [postReport]
    cases written : draw.written with
    | whole => exact .written metadata payload deviceId reportId written
    | cut length => exact .cut metadata payload deviceId reportId written
    | unopened => exact .refused (by simp) (by simp) internalError
  | insertReport metadata deviceId reportId =>
    rw [postReport]
    cases success : draw.success with
    | false => exact .reportRefused (by simp [success])
    | true =>
      simp only [if_true]
      cases inserted : db.insertReport (reportRow readers metadata reportId deviceId draw.now) with
      | none => exact .reportRefused fun _ => inserted
      | some db' => exact .reportInserted success inserted
  | insertJob reportId =>
    rw [postReport]
    cases success : draw.success with
    | false => exact .jobRefused (by simp [success])
    | true =>
      simp only [if_true]
      cases inserted : db.insertJob draw.newId reportId with
      | none => exact .jobRefused fun _ => inserted
      | some db' => exact .jobInserted inserted

/-! ## Workers -/

namespace Decode.Job

/-- What the closing statement makes of the row of a job. -/
def closedState (job : Job) : Except Text Text → JobState
  | .ok _ => .done
  | .error _ => if maxAttempts ≤ job.attempts then .failed else .pending

def afterClose (job : Job) : Except Text Text → Worker
  | .ok _ => .idle
  | .error _ => if maxAttempts ≤ job.attempts then .markFailed job else .idle

theorem closedState_ne_running (job : Job) (outcome : Except Text Text) :
    job.closedState outcome ≠ .running := by
  cases outcome with
  | ok => simp [closedState]
  | error e =>
    rw [closedState]
    split_ifs <;> simp

@[simp] theorem job_afterClose (job : Job) (outcome : Except Text Text) :
    (job.afterClose outcome).job = none := by
  cases outcome with
  | ok => rfl
  | error e =>
    rw [afterClose]
    split_ifs <;> rfl

end Decode.Job

/-- The moves of a worker. A job in hand that meets an error goes on to the statement that closes
it. -/
inductive WorkMove (libs : Libraries) (draw : Decode.Draw) (db : Database) (raw decoded : Files) :
    Worker → Database × Files × Files × Worker → Prop
  | rested : WorkMove libs draw db raw decoded .idle (db, raw, decoded, .idle)
  | claimed {db' : Database} {row : JobRow} (claim : db.claimJob = (db', some row)) :
      WorkMove libs draw db raw decoded .idle
        (db', raw, decoded, .load ⟨row.id, row.reportId, row.attempts⟩)
  | loaded (job : Job) {report : ReportRow} (found : db.reports.find? job.reportId = some report) :
      WorkMove libs draw db raw decoded (.load job) (db, raw, decoded, .read job report)
  | read (job : Job) (report : ReportRow) {data : Bytes} (found : raw job.reportId = some data)
      {text : Text} {sig : Signature.CrashSignature}
      (decodes : decodeRaw libs draw.symbols report data = .ok (text, sig)) :
      WorkMove libs draw db raw decoded (.read job report)
        (db, raw, decoded, .store job report text sig)
  | stored (job : Job) (report : ReportRow) (text : Text) (sig : Signature.CrashSignature) :
      WorkMove libs draw db raw decoded (.store job report text sig)
        (db, raw, Function.update decoded job.reportId (some (utf8Encode text)),
          .group job report sig)
  | grouped (job : Job) (report : ReportRow) (sig : Signature.CrashSignature) {db' : Database}
      {groupId : Text}
      (upserted : db.upsertGroup (groupRow report sig draw.newId draw.now) = some (db', groupId)) :
      WorkMove libs draw db raw decoded (.group job report sig)
        (db', raw, decoded, .finish job groupId draw.now)
  | finished (job : Job) (groupId : Text) (ts : ℤ) :
      WorkMove libs draw db raw decoded (.finish job groupId ts)
        (db.setDecoded job.reportId groupId ts, raw, decoded, .remove job groupId)
  | removed (job : Job) (groupId : Text) :
      WorkMove libs draw db raw decoded (.remove job groupId)
        (db, raw.remove job.reportId, decoded, .close job (.ok groupId))
  | keptRaw (job : Job) (groupId : Text)
      (failed : draw.success = true → raw job.reportId = none) (e : Text) :
      WorkMove libs draw db raw decoded (.remove job groupId) (db, raw, decoded, .close job (.error e))
  | gaveUp {pc : Worker} {job : Job} (busy : pc.job = some job)
      (early : ∀ groupId, pc ≠ .remove job groupId)
      (opened : ∀ outcome, pc ≠ .close job outcome) {decoded' : Files}
      (frame : ∀ id, decoded' id = decoded id ∨
        ∃ report text sig, pc = .store job report text sig ∧ job.reportId = id) (e : Text) :
      WorkMove libs draw db raw decoded pc (db, raw, decoded', .close job (.error e))
  | closed (job : Job) (outcome : Except Text Text) (success : draw.success = true)
      (lastError : Option Text) :
      WorkMove libs draw db raw decoded (.close job outcome)
        (db.updateJob job.id (job.closedState outcome) lastError, raw, decoded,
          job.afterClose outcome)
  | leftRunning (job : Job) (outcome : Except Text Text) (failed : draw.success = false) :
      WorkMove libs draw db raw decoded (.close job outcome)
        (db, raw, decoded, job.afterClose outcome)
  | markedFailed (job : Job) (success : draw.success = true) :
      WorkMove libs draw db raw decoded (.markFailed job)
        (db.setFailed job.reportId, raw, decoded, .idle)
  | leftUnmarked (job : Job) (failed : draw.success = false) :
      WorkMove libs draw db raw decoded (.markFailed job) (db, raw, decoded, .idle)

theorem work_moves (libs : Libraries) (draw : Decode.Draw) (db : Database) (raw decoded : Files)
    (pc : Worker) :
    WorkMove libs draw db raw decoded pc (Decode.work libs draw db raw decoded pc) := by
  cases pc with
  | idle =>
    rw [Decode.work]
    split_ifs
    · cases claim : db.claimJob with
      | mk db' claimed =>
        cases claimed with
        | some row => exact .claimed claim
        | none =>
          have same : db' = db := by
            rw [Database.claimJob] at claim
            cases oldest : db.oldestPending with
            | none => simp_all
            | some job => simp [oldest] at claim
          exact same ▸ .rested
    · exact .rested
  | load job =>
    rw [Decode.work]
    cases loaded : if draw.success then db.reports.find? job.reportId else none with
    | none => exact .gaveUp rfl (by simp) (by simp) (fun _ => .inl rfl) _
    | some report =>
      rw [Option.ite_none_right_eq_some] at loaded
      exact .loaded job loaded.2
  | read job report =>
    rw [Decode.work]
    cases read : if draw.success then raw job.reportId else none with
    | none => exact .gaveUp rfl (by simp) (by simp) (fun _ => .inl rfl) _
    | some data =>
      rw [Option.ite_none_right_eq_some] at read
      dsimp only
      cases decodes : decodeRaw libs draw.symbols report data with
      | ok result => exact .read job report read.2 decodes
      | error e => exact .gaveUp rfl (by simp) (by simp) (fun _ => .inl rfl) e
  | store job report text sig =>
    rw [Decode.work]
    split_ifs
    · cases draw.written with
      | whole => exact .stored job report text sig
      | cut length =>
        refine .gaveUp rfl (by simp) (by simp) (fun id => ?_) _
        rcases eq_or_ne id job.reportId with rfl | different
        · exact .inr ⟨report, text, sig, rfl, rfl⟩
        · exact .inl (Function.update_of_ne different _ _)
      | unopened => exact .gaveUp rfl (by simp) (by simp) (fun _ => .inl rfl) _
    · exact .gaveUp rfl (by simp) (by simp) (fun _ => .inl rfl) _
  | group job report sig =>
    rw [Decode.work]
    cases grouped : if draw.success then db.upsertGroup (groupRow report sig draw.newId draw.now)
        else none with
    | none => exact .gaveUp rfl (by simp) (by simp) (fun _ => .inl rfl) _
    | some result =>
      rw [Option.ite_none_right_eq_some] at grouped
      exact .grouped job report sig grouped.2
  | finish job groupId ts =>
    rw [Decode.work]
    split_ifs
    · exact .finished job groupId ts
    · exact .gaveUp rfl (by simp) (by simp) (fun _ => .inl rfl) _
  | remove job groupId =>
    rw [Decode.work]
    split_ifs with removable
    · exact .removed job groupId
    · refine .keptRaw job groupId (fun success => ?_) _
      simpa [success] using removable
  | close job outcome =>
    cases success : draw.success with
    | true =>
      cases outcome with
      | ok groupId =>
        rw [Decode.work, if_pos success]
        exact .closed job (.ok groupId) success none
      | error e =>
        rw [Decode.work, if_pos success]
        exact .closed job (.error e) success (some e)
    | false =>
      cases outcome with
      | ok groupId =>
        rw [Decode.work, if_neg (by simp [success])]
        exact .leftRunning job (.ok groupId) success
      | error e =>
        rw [Decode.work, if_neg (by simp [success])]
        exact .leftRunning job (.error e) success
  | markFailed job =>
    rw [Decode.work]
    split_ifs with success
    · exact .markedFailed job success
    · exact .leftUnmarked job (by simpa using success)

/-! ## Collectors -/

inductive CollectMove (retentionDays : ℕ) (draw : Decode.Draw) (db : Database) (raw : Files) :
    Collector → Database × Files × Option Collector → Prop
  | selected :
      CollectMove retentionDays draw db raw .select
        (db, raw, some (.remove (db.failedReports (draw.now - retentionDays * 86400))))
  | ended (pc : Collector) : CollectMove retentionDays draw db raw pc (db, raw, none)
  | removed (id : Text) (ids : List Text) :
      CollectMove retentionDays draw db raw (.remove (id :: ids)) (db, raw.remove id, some (.mark id ids))
  | keptRaw (id : Text) (ids : List Text) :
      CollectMove retentionDays draw db raw (.remove (id :: ids)) (db, raw, some (.mark id ids))
  | marked (id : Text) (ids : List Text) (success : draw.success = true) :
      CollectMove retentionDays draw db raw (.mark id ids)
        (db.setRawDeletedAt id draw.now, raw, some (.remove ids))
  | unmarked (id : Text) (ids : List Text) :
      CollectMove retentionDays draw db raw (.mark id ids) (db, raw, some (.remove ids))

theorem gcFailedRaw_moves (retentionDays : ℕ) (draw : Decode.Draw) (db : Database) (raw : Files)
    (pc : Collector) :
    CollectMove retentionDays draw db raw pc (gcFailedRaw retentionDays draw db raw pc) := by
  cases pc with
  | select =>
    rw [gcFailedRaw]
    split_ifs
    · exact .selected
    · exact .ended .select
  | remove ids =>
    cases ids with
    | nil => exact .ended _
    | cons id ids =>
      rw [gcFailedRaw]
      split_ifs
      · exact .removed id ids
      · exact .keptRaw id ids
  | mark id ids =>
    rw [gcFailedRaw]
    split_ifs with success
    · exact .marked id ids success
    · exact .unmarked id ids

/-! ## The service -/

namespace Service

/-- The moves of the service: one party moves, appears or disappears. -/
inductive Move (setup : Setup) (s : Service) : Action → Service → Prop
  | requested (call : ℕ) (headers : Headers) (body : Bytes) (free : s.uploads call = none) :
      Move setup s (.request call headers body)
        { s with uploads := Function.update s.uploads call (some (.authenticate headers body)) }
  | uploaded {call : ℕ} {draw : Api.Draw} {pc : Upload} {result : Database × Files × Progress}
      (current : s.uploads call = some pc)
      (move : UploadMove setup.readers draw s.db s.raw pc result) :
      Move setup s (.upload call draw) (s.afterUpload call result)
  | abandoned (call : ℕ) :
      Move setup s (.abandon call) { s with uploads := Function.update s.uploads call none }
  | started (worker : ℕ) (free : s.workers worker = none) :
      Move setup s (.start worker)
        { s with workers := Function.update s.workers worker (some .idle) }
  | worked {worker : ℕ} {draw : Decode.Draw} {pc : Worker}
      {result : Database × Files × Files × Worker} (current : s.workers worker = some pc)
      (move : WorkMove setup.libs draw s.db s.raw s.decoded pc result) :
      Move setup s (.work worker draw) (s.afterWork worker result)
  | stopped (worker : ℕ) :
      Move setup s (.stop worker) { s with workers := Function.update s.workers worker none }
  | swept (collector : ℕ) :
      Move setup s (.sweep collector)
        { s with collectors := Function.update s.collectors collector (some .select) }
  | collected {collector : ℕ} {draw : Decode.Draw} {pc : Collector}
      {result : Database × Files × Option Collector}
      (current : s.collectors collector = some pc)
      (move : CollectMove setup.retentionDays draw s.db s.raw pc result) :
      Move setup s (.collect collector draw) (s.afterCollect collector result)
  | halted (collector : ℕ) :
      Move setup s (.halt collector)
        { s with collectors := Function.update s.collectors collector none }

theorem move_of_step {setup : Setup} {s s' : Service} {action : Action}
    (stepped : step setup s action = some s') : Move setup s action s' := by
  cases action with
  | request call headers body =>
    rw [step, Option.ite_none_right_eq_some, Option.some.injEq] at stepped
    obtain ⟨free, rfl⟩ := stepped
    exact .requested call headers body free
  | upload call draw =>
    obtain ⟨pc, current, rfl⟩ := Option.map_eq_some_iff.mp stepped
    exact .uploaded current (postReport_moves setup.readers draw s.db s.raw pc)
  | abandon call =>
    rw [← Option.some.inj stepped]
    exact .abandoned call
  | start worker =>
    rw [step, Option.ite_none_right_eq_some, Option.some.injEq] at stepped
    obtain ⟨free, rfl⟩ := stepped
    exact .started worker (Option.isNone_iff_eq_none.mp free)
  | work worker draw =>
    obtain ⟨pc, current, rfl⟩ := Option.map_eq_some_iff.mp stepped
    exact .worked current (work_moves setup.libs draw s.db s.raw s.decoded pc)
  | stop worker =>
    rw [← Option.some.inj stepped]
    exact .stopped worker
  | sweep collector =>
    rw [step, Option.ite_none_right_eq_some, Option.some.injEq] at stepped
    obtain ⟨-, rfl⟩ := stepped
    exact .swept collector
  | collect collector draw =>
    obtain ⟨pc, current, rfl⟩ := Option.map_eq_some_iff.mp stepped
    exact .collected current (gcFailedRaw_moves setup.retentionDays draw s.db s.raw pc)
  | halt collector =>
    rw [← Option.some.inj stepped]
    exact .halted collector

/-- What a step can do to one raw payload: nothing, or a worker that has decoded it or a collector
takes it away, or an upload writes it. -/
inductive RawStep (s : Service) (id : Text) (s' : Service) : Action → Prop
  | kept {action : Action} (same : s'.raw id = s.raw id) : RawStep s id s' action
  | decoded {worker : ℕ} {draw : Decode.Draw} {job : Job} {groupId : Text}
      (current : s.workers worker = some (.remove job groupId)) (same : job.reportId = id)
      (closing : s'.workers worker = some (.close job (.ok groupId)))
      (gone : s'.raw id = none) :
      RawStep s id s' (.work worker draw)
  | swept {collector : ℕ} {draw : Decode.Draw} {ids : List Text}
      (current : s.collectors collector = some (.remove (id :: ids))) (gone : s'.raw id = none) :
      RawStep s id s' (.collect collector draw)
  | written {call : ℕ} {draw : Api.Draw} {metadata : Types.ReportMetadata} {payload : Bytes}
      {deviceId : Option Text}
      (current : s.uploads call = some (.write metadata payload deviceId id))
      (opened : draw.written ≠ .unopened)
      (whole : draw.written = .whole → s'.raw id = some payload) :
      RawStep s id s' (.upload call draw)

theorem rawStep_of_step {setup : Setup} {s s' : Service} {action : Action}
    (stepped : step setup s action = some s') (id : Text) : RawStep s id s' action := by
  cases move_of_step stepped with
  | requested | abandoned | started | stopped | swept | halted => exact .kept rfl
  | @uploaded call draw pc result current move =>
    cases move with
    | refused | anonymous | authenticated | known | placed | reportInserted | reportRefused
    | jobInserted | jobRefused => exact .kept (congrFun (afterUpload_raw ..) id)
    | written metadata payload deviceId reportId whole =>
      rcases eq_or_ne id reportId with rfl | different
      · exact .written current (by simp [whole]) fun _ => by simp
      · exact .kept (by simp [different])
    | @cut metadata payload deviceId reportId length cut =>
      rcases eq_or_ne id reportId with rfl | different
      · exact .written current (by simp [cut]) (by simp [cut])
      · exact .kept (by simp [different])
  | @worked worker draw pc result current move =>
    cases move with
    | removed job groupId =>
      rcases eq_or_ne job.reportId id with rfl | different
      · exact .decoded current rfl (afterWork_workers_self s worker _) Files.remove_self
      · exact .kept (Files.remove_of_ne different.symm)
    | rested | claimed | loaded | read | stored | grouped | finished | keptRaw | gaveUp | closed
    | leftRunning | markedFailed | leftUnmarked => exact .kept rfl
  | @collected collector draw pc result current move =>
    cases move with
    | removed other ids =>
      rcases eq_or_ne other id with rfl | different
      · exact .swept current Files.remove_self
      · exact .kept (Files.remove_of_ne different.symm)
    | selected | ended | keptRaw | marked | unmarked => exact .kept rfl

/-- What a step can do to one decoded text. -/
theorem decoded_after_step {setup : Setup} {s s' : Service} {action : Action}
    (stepped : step setup s action = some s') (id : Text) :
    s'.decoded id = s.decoded id ∨ ∃ worker draw job report text sig,
      action = .work worker draw ∧ s.workers worker = some (.store job report text sig) ∧
        job.reportId = id ∧ (s'.workers worker = some (.group job report sig) →
          s'.decoded id = some (utf8Encode text)) := by
  cases move_of_step stepped with
  | requested | abandoned | started | stopped | swept | halted => exact .inl rfl
  | collected => exact .inl rfl
  | @uploaded call draw pc result =>
    obtain ⟨db', raw', progress⟩ := result
    cases progress with
    | running | created | failed => exact .inl rfl
  | @worked worker draw pc result current move =>
    cases move with
    | stored job report text sig =>
      rcases eq_or_ne id job.reportId with rfl | different
      · refine .inr ⟨worker, draw, job, report, text, sig, rfl, current, rfl, fun _ => ?_⟩
        exact Function.update_self ..
      · exact .inl (Function.update_of_ne different _ _)
    | gaveUp busy early opened frame =>
      rcases frame id with same | ⟨report, text, sig, rfl, same⟩
      · exact .inl same
      · refine .inr ⟨worker, draw, _, report, text, sig, rfl, current, same, fun now => ?_⟩
        simp at now
    | rested | claimed | loaded | read | grouped | finished | removed | keptRaw | closed
    | leftRunning | markedFailed | leftUnmarked => exact .inl rfl

/-- A call that is about to insert its report was so before, or has just written its file. -/
theorem inserting_before_step {setup : Setup} {s s' : Service} {action : Action}
    (stepped : step setup s action = some s') {call : ℕ} {metadata : Types.ReportMetadata}
    {deviceId : Option Text} {id : Text}
    (inserting : s'.uploads call = some (.insertReport metadata deviceId id)) :
    s.uploads call = some (.insertReport metadata deviceId id) ∧
        (∀ draw, action ≠ .upload call draw) ∨
      ∃ draw payload, action = .upload call draw ∧
        s.uploads call = some (.write metadata payload deviceId id) ∧
        s'.raw id = some payload := by
  cases move_of_step stepped with
  | requested other | abandoned other =>
    rcases eq_or_ne call other with rfl | different
    · simp at inserting
    · exact .inl ⟨by simpa [different] using inserting, by simp⟩
  | started | stopped | swept | halted | worked | collected => exact .inl ⟨inserting, by simp⟩
  | @uploaded other draw pc result current move =>
    rcases eq_or_ne call other with rfl | different
    · have running := running_of_afterUpload s call result inserting
      cases move with
      | anonymous | authenticated =>
        obtain ⟨_, _, -, -, impossible⟩ := afterAuthentication_eq_running running
        contradiction
      | written metadata' payload deviceId' reportId whole =>
        obtain ⟨rfl, rfl, rfl⟩ := Upload.insertReport.inj (Progress.running.inj running)
        exact .inr ⟨draw, payload, rfl, current, by simp⟩
      | refused | known | placed | cut | reportInserted | reportRefused | jobInserted
      | jobRefused => simp at running
    · rw [afterUpload_uploads_of_ne _ _ _ different] at inserting
      refine .inl ⟨inserting, fun draw' same => different ?_⟩
      exact (Action.upload.inj same).1.symm

/-- The step that a worker takes itself. -/
theorem workMove_of_step {setup : Setup} {s s' : Service} {worker : ℕ} {draw : Decode.Draw}
    {pc : Worker} (stepped : step setup s (.work worker draw) = some s')
    (current : s.workers worker = some pc) :
    ∃ db raw decoded next, WorkMove setup.libs draw s.db s.raw s.decoded pc (db, raw, decoded, next) ∧
      s' = s.afterWork worker (db, raw, decoded, next) := by
  rw [step, current, Option.map_some, Option.some.injEq] at stepped
  subst stepped
  exact ⟨_, _, _, _, work_moves setup.libs draw s.db s.raw s.decoded pc, rfl⟩

/-- A worker stays where it is unless it takes a step or stops. -/
theorem worker_after_step {setup : Setup} {s s' : Service} {action : Action}
    (stepped : step setup s action = some s') {worker : ℕ} {pc : Worker}
    (current : s.workers worker = some pc) :
    s'.workers worker = some pc ∨ action = .stop worker ∨ ∃ draw, action = .work worker draw := by
  cases move_of_step stepped with
  | requested | abandoned | swept | halted | collected => exact .inl current
  | uploaded =>
    rw [afterUpload_workers]
    exact .inl current
  | started other free =>
    rcases eq_or_ne worker other with rfl | different
    · rw [free] at current
      contradiction
    · exact .inl (by simpa [different] using current)
  | stopped other =>
    rcases eq_or_ne worker other with rfl | different
    · exact .inr (.inl rfl)
    · exact .inl (by simpa [different] using current)
  | @worked other draw pc result =>
    rcases eq_or_ne worker other with rfl | different
    · exact .inr (.inr ⟨draw, rfl⟩)
    · exact .inl (by simpa [afterWork, different] using current)

/-- Where a collector was before a step. -/
theorem collector_before_step {setup : Setup} {s s' : Service} {action : Action}
    (stepped : step setup s action = some s') {collector : ℕ} {pc' : Collector}
    (current' : s'.collectors collector = some pc') :
    s.collectors collector = some pc' ∨ pc' = .select ∨
      ∃ draw pc db raw, action = .collect collector draw ∧ s.collectors collector = some pc ∧
        CollectMove setup.retentionDays draw s.db s.raw pc (db, raw, some pc') ∧
        s' = s.afterCollect collector (db, raw, some pc') := by
  cases move_of_step stepped with
  | requested | abandoned | started | stopped | worked => exact .inl current'
  | @uploaded call draw pc result =>
    obtain ⟨db', raw', progress⟩ := result
    cases progress with
    | running | created | failed => exact .inl current'
  | swept other =>
    rcases eq_or_ne collector other with rfl | different
    · simp only [Function.update_self, Option.some.injEq] at current'
      exact .inr (.inl current'.symm)
    · exact .inl (by simpa [different] using current')
  | halted other =>
    rcases eq_or_ne collector other with rfl | different
    · simp at current'
    · exact .inl (by simpa [different] using current')
  | @collected other draw pc result current move =>
    obtain ⟨db', raw', next⟩ := result
    rcases eq_or_ne collector other with rfl | different
    · simp only [afterCollect, Function.update_self] at current'
      subst current'
      exact .inr (.inr ⟨draw, pc, db', raw', rfl, current, move, rfl⟩)
    · exact .inl (by simpa [afterCollect, different] using current')

/-- Where a worker was before a step. -/
theorem worker_before_step {setup : Setup} {s s' : Service} {action : Action}
    (stepped : step setup s action = some s') {worker : ℕ} {pc' : Worker}
    (current' : s'.workers worker = some pc') :
    s.workers worker = some pc' ∧ (∀ draw, action ≠ .work worker draw) ∨ pc' = .idle ∨
      ∃ draw pc db raw decoded, action = .work worker draw ∧ s.workers worker = some pc ∧
        WorkMove setup.libs draw s.db s.raw s.decoded pc (db, raw, decoded, pc') ∧
        s' = s.afterWork worker (db, raw, decoded, pc') := by
  cases move_of_step stepped with
  | requested | abandoned | swept | halted | collected => exact .inl ⟨current', by simp⟩
  | uploaded =>
    rw [afterUpload_workers] at current'
    exact .inl ⟨current', by simp⟩
  | started other =>
    rcases eq_or_ne worker other with rfl | different
    · simp only [Function.update_self, Option.some.injEq] at current'
      exact .inr (.inl current'.symm)
    · exact .inl ⟨by simpa [different] using current', by simp⟩
  | stopped other =>
    rcases eq_or_ne worker other with rfl | different
    · simp at current'
    · exact .inl ⟨by simpa [different] using current', by simp⟩
  | @worked other draw pc result current move =>
    obtain ⟨db', raw', decoded', next⟩ := result
    rcases eq_or_ne worker other with rfl | different
    · simp only [afterWork, Function.update_self, Option.some.injEq] at current'
      subst current'
      exact .inr (.inr ⟨draw, pc, db', raw', decoded', rfl, current, move, rfl⟩)
    · refine .inl ⟨by simpa [afterWork, different] using current', fun draw' same => different ?_⟩
      exact (Action.work.inj same).1.symm

end Service

end UcrashReport
