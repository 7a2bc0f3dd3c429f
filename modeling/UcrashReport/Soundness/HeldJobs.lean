import UcrashReport.ServiceMoves

/-! # Running jobs are in hand

A claim sets a job running, and only the statement that closes the job sets it to anything else. So
a running job is in the hands of a worker as long as no worker stops with a job in hand and no
closing statement fails; a worker that does leaves the job running for ever, as only pending jobs
are claimed.
-/

namespace UcrashReport.Service

open Rust Rust.Text Api Decode

/-- Some worker that is alive has the job in hand. -/
def HeldBy (workers : ℕ → Option Worker) (jobId : Text) : Prop :=
  ∃ worker pc job, workers worker = some pc ∧ pc.job = some job ∧ job.id = jobId

/-- Every running job is in the hands of a worker. -/
def RunningHeld (s : Service) : Prop :=
  ∀ job ∈ s.db.jobs.rows, job.state = .running → HeldBy s.workers job.id

/-- No worker stops with a job in hand, and no statement that closes a job fails. -/
def Steady (s : Service) : Action → Prop
  | .stop worker => ∀ pc, s.workers worker = some pc → pc.job = none
  | .work worker draw =>
    ∀ job outcome, s.workers worker = some (.close job outcome) → draw.success = true
  | _ => True

/-- A job stays in hand when the only worker that moves keeps what it had. -/
theorem HeldBy.update {workers : ℕ → Option Worker} {jobId : Text} (held : HeldBy workers jobId)
    {worker : ℕ} {next : Option Worker}
    (keeps : ∀ pc job, workers worker = some pc → pc.job = some job → job.id = jobId →
      ∃ pc', next = some pc' ∧ pc'.job = some job) :
    HeldBy (Function.update workers worker next) jobId := by
  obtain ⟨holder, pc, job, current, inHand, same⟩ := held
  by_cases moves : holder = worker
  · subst moves
    obtain ⟨pc', rfl, inHand'⟩ := keeps pc job current inHand same
    exact ⟨holder, pc', job, Function.update_self holder _ workers, inHand', same⟩
  · exact ⟨holder, pc, job, (Function.update_of_ne moves next workers).trans current, inHand, same⟩

/-- Uploads add pending jobs only. -/
theorem running_of_upload {readers : Readers} {draw : Api.Draw} {db : Database} {raw : Files}
    {pc : Upload} {result : Database × Files × Progress}
    (move : UploadMove readers draw db raw pc result) {job : JobRow}
    (member : job ∈ result.1.jobs.rows) (running : job.state = .running) :
    job ∈ db.jobs.rows := by
  cases move with
  | authenticated signed upserted => exact (Database.upsertDevice_frame upserted).2 ▸ member
  | reportInserted success inserted => exact (Database.insertReport_spec inserted).2 ▸ member
  | jobInserted inserted =>
    obtain ⟨-, -, added⟩ := Database.insertJob_spec inserted
    rcases (Store.Table.mem_rows_insert added job).mp member with old | rfl
    · exact old
    · contradiction
  | refused | anonymous | known | placed | written | cut | reportRefused | jobRefused => exact member

/-- What a worker does with its job in hand. -/
theorem runningHeld_of_work {s : Service} {libs : Libraries} {draw : Decode.Draw} {worker : ℕ} {pc : Worker}
    {result : Database × Files × Files × Worker} (invariant : RunningHeld s)
    (current : s.workers worker = some pc)
    (closes : ∀ job outcome, pc = .close job outcome → draw.success = true)
    (move : WorkMove libs draw s.db s.raw s.decoded pc result) :
    RunningHeld (s.afterWork worker result) := by
  -- Steps between a claim and the closing statement leave the jobs alone and keep the job in hand.
  have carry {db' : Database} {raw' decoded' : Files} {next : Worker}
      (jobs : db'.jobs = s.db.jobs) (same : next.job = pc.job) :
      RunningHeld (s.afterWork worker (db', raw', decoded', next)) := by
    intro job member running
    refine (invariant job (jobs ▸ member) running).update fun pc' inHand current' isJob _ => ?_
    rw [current, Option.some.injEq] at current'
    exact ⟨next, rfl, by rw [same, current', isJob]⟩
  cases move with
  | rested => exact carry rfl rfl
  | claimed claim =>
    obtain ⟨-, -, others⟩ := Database.claimJob_spec claim
    intro job member running
    rcases others job member with rfl | ⟨old, -⟩
    · exact ⟨worker, _, ⟨job.id, job.reportId, job.attempts⟩, Function.update_self worker _ _, rfl,
        rfl⟩
    · refine (invariant job old running).update fun pc' inHand current' isJob _ => ?_
      rw [current, Option.some.injEq] at current'
      subst current'
      contradiction
  | loaded | read | stored | removed | keptRaw => exact carry rfl rfl
  | grouped _ _ _ upserted => exact carry (Database.upsertGroup_frame upserted).2 rfl
  | finished => exact carry rfl rfl
  | gaveUp busy => exact carry rfl busy.symm
  | closed inHand outcome =>
    intro job member running
    rcases Database.mem_jobs_updateJob member with changed | ⟨old, other⟩
    · exact absurd (changed ▸ running) (inHand.closedState_ne_running outcome)
    · refine (invariant job old running).update fun pc' job' current' isJob sameId => ?_
      rw [current, Option.some.injEq] at current'
      subst current'
      rw [Worker.job, Option.some.injEq] at isJob
      exact absurd (isJob ▸ sameId).symm other
  | leftRunning inHand outcome failed =>
    rw [closes inHand outcome rfl] at failed
    contradiction
  | markedFailed | leftUnmarked => exact carry rfl rfl

theorem runningHeld_of_step {setup : Setup} {s s' : Service} {action : Action}
    (invariant : RunningHeld s) (steady : Steady s action)
    (stepped : step setup s action = some s') : RunningHeld s' := by
  cases move_of_step stepped with
  | requested | abandoned | swept | halted => exact invariant
  | uploaded current move =>
    intro job member running
    rw [afterUpload_db] at member
    rw [afterUpload_workers]
    exact invariant job (running_of_upload move member running) running
  | started worker free =>
    intro job member running
    refine (invariant job member running).update fun pc inHand current => ?_
    rw [free] at current
    contradiction
  | worked current move =>
    refine runningHeld_of_work invariant current (fun job outcome closing => ?_) move
    exact steady job outcome (closing ▸ current)
  | stopped worker =>
    intro job member running
    refine (invariant job member running).update fun pc inHand current isJob => ?_
    rw [steady pc current] at isJob
    contradiction
  | collected current move =>
    intro job member running
    have old : job ∈ s.db.jobs.rows := by cases move <;> exact member
    exact invariant job old running

/-- In a run in which no worker stops with a job in hand and no closing statement fails, every job
is pending, over, or running in the hands of a worker that is alive. -/
theorem running_job_held_of_run (setup : Setup) {actions : List Action} {s : Service}
    (steady : Machine.Meets (step setup) Steady {} actions)
    (reached : Machine.run (step setup) {} actions = some s) :
    ∀ job ∈ s.db.jobs.rows, job.state = .pending ∨ job.state = .done ∨ job.state = .failed ∨
      job.state = .running ∧ HeldBy s.workers job.id := by
  have invariant : RunningHeld s :=
    Machine.invariant_of_run (fun _ _ _ held meets stepped => runningHeld_of_step held meets stepped)
      (fun _ member => absurd member List.not_mem_nil) steady reached
  intro job member
  cases state : job.state with
  | pending => exact .inl rfl
  | done => exact .inr (.inl rfl)
  | failed => exact .inr (.inr (.inl rfl))
  | running => exact .inr (.inr (.inr ⟨rfl, invariant job member state⟩))

/-! ## Concrete runs -/

/-- Libraries that take the content type for the uuid and the body for the payload. -/
def demoSetup : Setup where
  readers :=
    { validKey := fun _ => true
      verify := fun _ _ _ => true
      multipart := fun contentType body =>
        some ([⟨some "metadata".toList, some contentType, none⟩,
          ⟨some "payload".toList, none, some body⟩], true)
      json := fun uuid => .ok
        { format := 1, kind := .kernelOops, uuid, capturedAt := 0
          openwrt := ⟨"25.12.5".toList, "r1".toList, "x86/64".toList, "x86_64".toList⟩
          board := "generic".toList, kernel := "6.12".toList, kernelBuildid := none
          payloadSha256 := "00".toList, payloadEncoding := .none }
      sha256 := fun _ => [0]
      parseUuid := fun _ => true
      toLowercase := toAsciiLowercase }
  libs :=
    { classes := .ascii
      sha256Hex := id
      lossyUtf8 := fun _ => []
      gzip := fun data => ⟨data, none⟩
      zlib := fun data => ⟨data, none⟩
      zstd := fun data => .ok ⟨data, none⟩ }
  retentionDays := 14

/-- A signed upload of a report. -/
def demoRequest (call : ℕ) : Action :=
  .request call ⟨some "key".toList, some "sig".toList, some "u1".toList⟩ [1]

/-- The steps of an upload that goes through: device, uuid, file, report and job. -/
def demoUpload (call : ℕ) : List Action :=
  [demoRequest call, .upload call { newId := "d1".toList }, .upload call {}, .upload call {},
    .upload call {}, .upload call { newId := "j1".toList }]

/-- A worker stops right after it has claimed the job: the job stays running, and once the worker
has started again no worker has it in hand. -/
theorem stopped_worker_strands_job :
    ∃ s, Machine.run (step demoSetup) {}
        (demoUpload 0 ++ [.start 0, .work 0 {}, .stop 0, .start 0]) = some s ∧
      s.db.jobs.rows = [⟨"j1".toList, "u1".toList, .running, 1, none⟩] ∧
      ¬ HeldBy s.workers "j1".toList := by
  refine ⟨_, rfl, by decide +kernel, ?_⟩
  rintro ⟨worker, pc, job, current, inHand, -⟩
  cases worker with
  | zero =>
    cases current
    contradiction
  | succ n => contradiction

/-- The same run up to the claim. -/
theorem claimed_job_held :
    ∃ s, Machine.run (step demoSetup) {} (demoUpload 0 ++ [.start 0, .work 0 {}]) = some s ∧
      (∃ job ∈ s.db.jobs.rows, job.state = .running) ∧
      ∀ job ∈ s.db.jobs.rows, job.state = .pending ∨ job.state = .done ∨ job.state = .failed ∨
        job.state = .running ∧ HeldBy s.workers job.id := by
  have running : (Machine.run (step demoSetup) {} (demoUpload 0 ++ [.start 0, .work 0 {}])).any
      (fun s => s.db.jobs.rows.any fun job => job.state = .running) = true := by decide +kernel
  cases reached : Machine.run (step demoSetup) {} (demoUpload 0 ++ [.start 0, .work 0 {}]) with
  | none => simp [reached] at running
  | some s =>
    rw [reached] at running
    refine ⟨s, rfl, by simpa using running, running_job_held_of_run demoSetup ?_ reached⟩
    refine Machine.meets_of_forall fun action member s => ?_
    simp only [demoUpload, demoRequest, List.cons_append, List.nil_append, List.mem_cons,
      List.not_mem_nil, or_false] at member
    rcases member with rfl | rfl | rfl | rfl | rfl | rfl | rfl | rfl
    all_goals first | trivial | exact fun _ _ _ => rfl

end UcrashReport.Service
