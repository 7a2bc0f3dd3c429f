import UcrashReport.Soundness.ReportRows

/-! # Raw payloads and their bookkeeping

A raw payload is accounted for when the row of its report says that it is still there, when the
upload that wrote it is about to insert that row, or when the worker that has decoded it is about to
remove it. Whoever gives up in between leaves a payload behind that nobody will remove.
-/

namespace UcrashReport.Service

open Rust Rust.Text Store Api Decode

/-! ## Who accounts for a raw payload -/

/-- The row of the report says that its raw payload is there. -/
def Live (db : Database) (id : Text) : Prop :=
  ∃ report ∈ db.reports.find? id, report.rawDeletedAt = none

def Uploading (uploads : ℕ → Option Upload) (id : Text) : Prop :=
  ∃ call metadata deviceId, uploads call = some (.insertReport metadata deviceId id)

def Removing (workers : ℕ → Option Worker) (id : Text) : Prop :=
  ∃ worker job groupId, workers worker = some (.remove job groupId) ∧ job.reportId = id

def Accounted (s : Service) (id : Text) : Prop :=
  Live s.db id ∨ Uploading s.uploads id ∨ Removing s.workers id

/-- Every raw payload is accounted for. -/
def RawAccounted (s : Service) : Prop := ∀ id, (s.raw id).isSome → Accounted s id

/-! ## Steps that give a raw payload up -/

/-- An upload that fails or ends after it has created its raw file leaves no file behind, or one that
somebody else accounts for. -/
def TidyUpload (readers : Readers) (s : Service) (call : ℕ) (draw : Api.Draw) : Upload → Prop
  | .write _ _ _ id =>
    ∀ length, draw.written = .cut length →
      Accounted { s with uploads := Function.update s.uploads call none } id
  | .insertReport metadata deviceId id =>
    (draw.success = true →
        s.db.insertReport (reportRow readers metadata id deviceId draw.now) = none) →
      s.raw id = none ∨ Accounted { s with uploads := Function.update s.uploads call none } id
  | _ => True

/-- No party gives up a raw payload that is still there and that nobody else accounts for. -/
def Tidy (setup : Setup) (s : Service) : Action → Prop
  | .upload call draw => ∀ pc ∈ s.uploads call, TidyUpload setup.readers s call draw pc
  | .abandon call =>
    ∀ metadata deviceId id, s.uploads call = some (.insertReport metadata deviceId id) →
      s.raw id = none ∨ Accounted { s with uploads := Function.update s.uploads call none } id
  | .work worker draw =>
    ∀ job groupId, s.workers worker = some (.remove job groupId) → draw.success = false →
      s.raw job.reportId = none ∨
        Accounted { s with workers := Function.update s.workers worker none } job.reportId
  | .stop worker =>
    ∀ job groupId, s.workers worker = some (.remove job groupId) →
      s.raw job.reportId = none ∨
        Accounted { s with workers := Function.update s.workers worker none } job.reportId
  | .collect collector draw =>
    ∀ id ids, s.collectors collector = some (.mark id ids) → draw.success = true →
      s.raw id = none ∨ Uploading s.uploads id ∨ Removing s.workers id
  | _ => True

/-! ## Steps -/

theorem Uploading.update {uploads : ℕ → Option Upload} {id : Text} (uploading : Uploading uploads id)
    {call : ℕ} (other : ∀ metadata deviceId, uploads call ≠ some (.insertReport metadata deviceId id))
    (next : Option Upload) : Uploading (Function.update uploads call next) id := by
  obtain ⟨call', metadata, deviceId, current⟩ := uploading
  refine ⟨call', metadata, deviceId, ?_⟩
  rw [Function.update_of_ne, current]
  rintro rfl
  exact other metadata deviceId current

theorem Removing.update {workers : ℕ → Option Worker} {id : Text} (removing : Removing workers id)
    {worker : ℕ} (other : ∀ job groupId, workers worker = some (.remove job groupId) →
      job.reportId ≠ id) (next : Option Worker) :
    Removing (Function.update workers worker next) id := by
  obtain ⟨worker', job, groupId, current, same⟩ := removing
  refine ⟨worker', job, groupId, ?_, same⟩
  rw [Function.update_of_ne, current]
  rintro rfl
  exact other job groupId current same

/-- A live row stays live unless its report is marked decoded or swept. -/
theorem live_of_step {setup : Setup} {s s' : Service} {action : Action}
    (stepped : step setup s action = some s') {id : Text} (live : Live s.db id) :
    Live s'.db id ∨
      (∃ worker draw job groupId ts, action = .work worker draw ∧
        s.workers worker = some (.finish job groupId ts) ∧ job.reportId = id) ∨
      ∃ collector draw ids, action = .collect collector draw ∧
        s.collectors collector = some (.mark id ids) ∧ draw.success = true := by
  obtain ⟨report, found, kept⟩ := live
  obtain ⟨-, rfl⟩ := Table.find?_eq_some_iff.mp found
  obtain ⟨report', found', moved⟩ := reportStep_of_step stepped found
  cases moved with
  | kept | failed => exact .inl ⟨_, found', kept⟩
  | @decoded worker draw job groupId ts current same =>
    exact .inr (.inl ⟨worker, draw, job, groupId, ts, rfl, current, same⟩)
  | @swept collector draw ids current success =>
    exact .inr (.inr ⟨collector, draw, ids, rfl, current, success⟩)

theorem rawAccounted_of_upload {setup : Setup} {s : Service} {call : ℕ} {draw : Api.Draw}
    {pc : Upload} {result : Database × Files × Progress} (invariant : RawAccounted s)
    (tidy : TidyUpload setup.readers s call draw pc) (current : s.uploads call = some pc)
    (live : ∀ id, Live s.db id → Live result.1 id)
    (move : UploadMove setup.readers draw s.db s.raw pc result) :
    RawAccounted (s.afterUpload call result) := by
  obtain ⟨db', raw', progress⟩ := result
  -- A file that was there before and that is not in the hands of this call.
  have carry (id : Text) (there : (s.raw id).isSome)
      (other : ∀ metadata deviceId, pc ≠ .insertReport metadata deviceId id) :
      Accounted (s.afterUpload call (db', raw', progress)) id := by
    have other' (metadata : Types.ReportMetadata) (deviceId : Option Text) :
        s.uploads call ≠ some (.insertReport metadata deviceId id) := by
      rw [current, Ne, Option.some.injEq]
      exact other metadata deviceId
    rcases invariant id there with alive | uploading | removing
    · exact .inl (by simpa using live id alive)
    · right; left
      cases progress with
      | running | created | failed => exact uploading.update other' _
    · exact .inr (.inr (by simpa using removing))
  intro id there
  rw [afterUpload_raw] at there
  cases move with
  | refused noRow noJob => exact carry id there fun metadata deviceId => noRow metadata deviceId id
  | anonymous | authenticated | known | placed | jobInserted | jobRefused =>
    exact carry id there (by simp)
  | written metadata payload deviceId reportId whole =>
    rcases eq_or_ne id reportId with rfl | different
    · exact .inr (.inl ⟨call, metadata, deviceId, Function.update_self call _ s.uploads⟩)
    · exact carry id (by simpa [different] using there) (by simp)
  | cut metadata payload deviceId reportId cut =>
    rcases eq_or_ne id reportId with rfl | different
    · exact tidy _ cut
    · exact carry id (by simpa [different] using there) (by simp)
  | @reportInserted metadata deviceId reportId db' success inserted =>
    rcases eq_or_ne id reportId with rfl | different
    · have found := Table.find?_insert (Database.insertReport_spec inserted).1 id
      exact .inl ⟨_, found.trans (if_pos rfl), rfl⟩
    · refine carry id there fun metadata' deviceId' same => different ?_
      exact ((Upload.insertReport.inj same).2.2).symm
  | @reportRefused metadata deviceId reportId failed =>
    rcases eq_or_ne id reportId with rfl | different
    · rcases tidy failed with absent | accounted
      · simp [absent] at there
      · exact accounted
    · refine carry id there fun metadata' deviceId' same => different ?_
      exact ((Upload.insertReport.inj same).2.2).symm

theorem Removing.of_stopped {workers : ℕ → Option Worker} {id : Text} {worker : ℕ}
    (removing : Removing (Function.update workers worker none) id) (next : Option Worker) :
    Removing (Function.update workers worker next) id := by
  obtain ⟨worker', job, groupId, current, same⟩ := removing
  rcases eq_or_ne worker' worker with rfl | different
  · simp at current
  · exact ⟨worker', job, groupId, by simpa [different] using current, same⟩

theorem rawAccounted_of_work {setup : Setup} {s : Service} {worker : ℕ} {libs : Libraries}
    {draw : Decode.Draw} {pc : Worker} {result : Database × Files × Files × Worker}
    (invariant : RawAccounted s) (tidy : Tidy setup s (.work worker draw))
    (current : s.workers worker = some pc)
    (live : ∀ id, Live s.db id → Live result.1 id ∨ ∃ job groupId ts,
      pc = .finish job groupId ts ∧ job.reportId = id)
    (move : WorkMove libs draw s.db s.raw s.decoded pc result) :
    RawAccounted (s.afterWork worker result) := by
  obtain ⟨db', raw', decoded', next⟩ := result
  -- A file that was there before and that this worker is not about to remove.
  have carry (id : Text) (there : (s.raw id).isSome)
      (other : ∀ job groupId, pc = .remove job groupId → job.reportId ≠ id)
      (marked : ∀ job groupId ts, pc = .finish job groupId ts → job.reportId = id →
        Accounted (s.afterWork worker (db', raw', decoded', next)) id) :
      Accounted (s.afterWork worker (db', raw', decoded', next)) id := by
    rcases invariant id there with alive | uploading | removing
    · rcases live id alive with alive | ⟨job, groupId, ts, finishing, same⟩
      · exact .inl alive
      · exact marked job groupId ts finishing same
    · exact .inr (.inl uploading)
    · refine .inr (.inr (removing.update (fun job groupId now => ?_) _))
      rw [current, Option.some.injEq] at now
      exact other job groupId now
  intro id there
  cases move with
  | rested | claimed | loaded | read | stored | grouped | closed | leftRunning | markedFailed
  | leftUnmarked => exact carry id there (by simp) (by simp)
  | finished job groupId ts =>
    refine carry id there (by simp) fun job' groupId' ts' same sameId => ?_
    rw [Worker.finish.injEq] at same
    rw [← same.1] at sameId
    exact .inr (.inr ⟨worker, job, groupId, afterWork_workers_self s worker _, sameId⟩)
  | removed job groupId =>
    have different : job.reportId ≠ id := by
      rintro rfl
      simp [afterWork] at there
    refine carry id ?_ (fun job' groupId' same => ?_) (by simp)
    · simpa [afterWork, Files.remove, different.symm] using there
    · rw [Worker.remove.injEq] at same
      exact same.1 ▸ different
  | keptRaw job groupId failed e =>
    rcases eq_or_ne job.reportId id with rfl | different
    · have failure : draw.success = false := by
        cases success : draw.success with
        | false => rfl
        | true =>
          have absent := failed success
          simp [afterWork, absent] at there
      rcases tidy job groupId current failure with absent | accounted
      · simp [afterWork, absent] at there
      · exact accounted.imp_right (Or.imp_right fun removing => removing.of_stopped _)
    · refine carry id there (fun job' groupId' same => ?_) (by simp)
      rw [Worker.remove.injEq] at same
      exact same.1 ▸ different
  | @gaveUp _ job busy early opened decoded' frame e =>
    refine carry id there (fun job' groupId same => ?_) fun job' groupId ts same sameId => ?_
    · subst same
      rw [Worker.job, Option.some.injEq] at busy
      exact absurd rfl (busy ▸ early groupId)
    · rcases invariant id there with alive | uploading | removing
      · exact .inl alive
      · exact .inr (.inl uploading)
      · refine .inr (.inr (removing.update (fun job' groupId' now => ?_) _))
        rw [current, Option.some.injEq] at now
        simp [same] at now

theorem rawAccounted_of_step {setup : Setup} {s s' : Service} {action : Action}
    (invariant : RawAccounted s) (tidy : Tidy setup s action)
    (stepped : step setup s action = some s') : RawAccounted s' := by
  have live (id : Text) (alive : Live s.db id) := live_of_step stepped alive
  cases move_of_step stepped with
  | requested call headers body free =>
    intro id there
    exact (invariant id there).imp_right (Or.imp_left fun uploading =>
      uploading.update (by simp [free]) _)
  | @uploaded call draw pc result current move =>
    refine rawAccounted_of_upload invariant (tidy pc current) current (fun id alive => ?_) move
    rcases live id alive with alive | ⟨_, _, _, _, _, impossible, -⟩ | ⟨_, _, _, impossible, -⟩
    · rwa [afterUpload_db] at alive
    · contradiction
    · contradiction
  | abandoned call =>
    intro id there
    rcases invariant id there with alive | ⟨call', metadata, deviceId, current⟩ | removing
    · exact .inl alive
    · rcases eq_or_ne call' call with rfl | different
      · rcases tidy metadata deviceId id current with absent | accounted
        · simp [absent] at there
        · exact accounted
      · exact .inr (.inl ⟨call', metadata, deviceId, by simpa [different] using current⟩)
    · exact .inr (.inr removing)
  | started worker free =>
    intro id there
    exact (invariant id there).imp_right (Or.imp_right fun removing =>
      removing.update (by simp [free]) _)
  | @worked worker draw pc result current move =>
    refine rawAccounted_of_work invariant tidy current (fun id alive => ?_) move
    rcases live id alive with
      alive | ⟨worker', draw', job, groupId, ts, acted, finishing, same⟩ | ⟨_, _, _, impossible, -⟩
    · exact .inl alive
    · rw [Action.work.injEq] at acted
      rw [← acted.1, current, Option.some.injEq] at finishing
      exact .inr ⟨job, groupId, ts, finishing, same⟩
    · contradiction
  | stopped worker =>
    intro id there
    rcases invariant id there with alive | uploading | ⟨worker', job, groupId, current, rfl⟩
    · exact .inl alive
    · exact .inr (.inl uploading)
    · rcases eq_or_ne worker' worker with rfl | different
      · rcases tidy job groupId current with absent | accounted
        · simp [absent] at there
        · exact accounted
      · exact .inr (.inr ⟨worker', job, groupId, by simpa [different] using current, rfl⟩)
  | swept | halted => exact invariant
  | @collected collector draw pc result current move =>
    intro id there
    have before : (s.raw id).isSome := by
      cases move with
      | removed id' ids =>
        rcases eq_or_ne id id' with rfl | different
        · simp [afterCollect] at there
        · simpa [afterCollect, Files.remove, different] using there
      | selected | ended | keptRaw | marked | unmarked => exact there
    rcases invariant id before with alive | others
    · rcases live id alive with
        alive | ⟨_, _, _, _, _, impossible, -⟩ | ⟨collector', draw', ids, acted, marking, success⟩
      · exact .inl alive
      · contradiction
      · rw [Action.collect.injEq] at acted
        obtain ⟨rfl, rfl⟩ := acted
        rcases tidy id ids marking success with absent | others
        · simp [absent] at before
        · exact .inr others
    · exact .inr others

/-! ## Runs -/

/-- No upload is in progress and no worker has a job. -/
def Quiet (s : Service) : Prop :=
  (∀ call, s.uploads call = none) ∧ ∀ worker pc, s.workers worker = some pc → pc.job = none

/-- In a run in which no party gives up a raw payload that is still there, whenever no upload and no
decode is in progress, a report whose raw payload is noted as deleted has none, and every raw payload
belongs to a report of which it is not noted as deleted. -/
theorem raw_payloads_accounted_of_run (setup : Setup) {actions : List Action} {s : Service}
    (tidy : Machine.Meets (step setup) (Tidy setup) {} actions)
    (reached : Machine.run (step setup) {} actions = some s) (quiet : Quiet s) :
    (∀ report ∈ s.db.reports.rows, report.rawDeletedAt.isSome → s.raw report.id = none) ∧
      ∀ id, (s.raw id).isSome →
        ∃ report ∈ s.db.reports.rows, report.id = id ∧ report.rawDeletedAt = none := by
  have invariant : RawAccounted s := Machine.invariant_of_run
    (fun _ _ _ accounted meets stepped => rawAccounted_of_step accounted meets stepped)
    (fun _ there => by simp at there) tidy reached
  have alive (id : Text) (there : (s.raw id).isSome) : Live s.db id := by
    rcases invariant id there with alive | ⟨call, _, _, uploading⟩ | ⟨worker, job, _, removing, -⟩
    · exact alive
    · rw [quiet.1 call] at uploading
      contradiction
    · have idle := quiet.2 worker _ removing
      contradiction
  refine ⟨fun report member deleted => ?_, fun id there => ?_⟩
  · by_contra present
    obtain ⟨report', found, kept⟩ := alive report.id (Option.isSome_iff_ne_none.mpr present)
    rw [Table.find?_eq_some_iff.mpr ⟨member, rfl⟩] at found
    rw [Option.mem_some_iff.mp found, kept] at deleted
    contradiction
  · obtain ⟨report, found, kept⟩ := alive id there
    obtain ⟨member, same⟩ := Table.find?_eq_some_iff.mp found
    exact ⟨report, member, same, kept⟩

/-! ## Concrete runs -/

/-- Nothing fails, and nobody gives up. -/
def smooth (setup : Setup) (s : Service) : Action → Bool
  | .upload call draw =>
    draw.written = .whole &&
      match s.uploads call with
      | some (.insertReport metadata deviceId id) =>
        draw.success &&
          (s.db.insertReport (reportRow setup.readers metadata id deviceId draw.now)).isSome
      | _ => true
  | .work _ draw => draw.success
  | .request _ _ _ | .start _ | .sweep _ | .halt _ => true
  | .abandon _ | .stop _ | .collect _ _ => false

theorem tidy_of_smooth {setup : Setup} {s : Service} {action : Action}
    (calm : smooth setup s action = true) : Tidy setup s action := by
  cases action with
  | upload call draw =>
    intro pc current
    simp only [smooth, Bool.and_eq_true, decide_eq_true_eq] at calm
    obtain ⟨whole, inserts⟩ := calm
    cases pc with
    | write metadata payload deviceId id =>
      intro length cut
      rw [whole] at cut
      contradiction
    | insertReport metadata deviceId id =>
      intro refused
      rw [Option.mem_def.mp current, Bool.and_eq_true] at inserts
      rw [refused inserts.1] at inserts
      simp at inserts
    | authenticate | lookup | insertJob => trivial
  | work worker draw =>
    intro job groupId removing failed
    rw [smooth, failed] at calm
    contradiction
  | request | start | sweep | halt => trivial
  | abandon | stop | collect => contradiction

/-- An upload that is decoded leaves no payload behind. -/
theorem decoded_payload_removed :
    ∃ s, Machine.run (step demoSetup) {}
        (demoUpload 0 ++ [.start 0, .work 0 {}, .work 0 {}, .work 0 {}, .work 0 {},
          .work 0 { newId := "g1".toList }, .work 0 {}, .work 0 {}, .work 0 {}]) = some s ∧
      s.db.reports.rows.map (·.rawDeletedAt) = [some 0] ∧
      ∀ report ∈ s.db.reports.rows, report.rawDeletedAt.isSome → s.raw report.id = none := by
  refine ⟨_, rfl, by decide +kernel, ?_⟩
  have calm : Machine.Meets (step demoSetup) (fun s action => smooth demoSetup s action = true) {}
      (demoUpload 0 ++ [.start 0, .work 0 {}, .work 0 {}, .work 0 {}, .work 0 {},
        .work 0 { newId := "g1".toList }, .work 0 {}, .work 0 {}, .work 0 {}]) := by decide +kernel
  refine (raw_payloads_accounted_of_run demoSetup (calm.imp fun _ _ => tidy_of_smooth) rfl
    ⟨fun call => ?_, fun worker pc current => ?_⟩).1
  · cases call <;> rfl
  · cases worker with
    | zero =>
      cases current
      rfl
    | succ n => contradiction

/-- The insertion of the report fails after the file was written: the payload stays, and no report
knows of it. -/
theorem refused_report_leaves_payload :
    ∃ s, Machine.run (step demoSetup) {}
        [demoRequest 0, .upload 0 { newId := "d1".toList }, .upload 0 {}, .upload 0 {},
          .upload 0 { success := false }] = some s ∧
      Quiet s ∧ s.raw "u1".toList = some [1] ∧ s.db.reports.rows = [] := by
  refine ⟨_, rfl, ⟨fun call => ?_, fun worker pc none => ?_⟩, by decide +kernel, by decide +kernel⟩
  · cases call <;> rfl
  · contradiction

end UcrashReport.Service
