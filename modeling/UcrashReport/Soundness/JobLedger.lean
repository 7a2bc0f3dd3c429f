import UcrashReport.Soundness.HeldJobs

/-! # The ledger of jobs

What a worker remembers of its job agrees with the row of the job from the claim to the end of its
processing, because nobody else can have claimed it. So the stale copy of the attempts counter is
not stale, and the counter is the number of claims.
-/

namespace UcrashReport.Service

open Rust Rust.Text Store Api Decode

/-! ## What a worker holds -/

/-- The job that is being processed, and whether the statement that closes it is behind. -/
def held : Worker → Option (Job × Bool)
  | .idle => none
  | .markFailed job => some (job, true)
  | .load job | .read job _ | .store job _ _ _ | .group job _ _ | .finish job _ _ | .remove job _
  | .close job _ => some (job, false)

theorem held_of_job {pc : Worker} {job : Job} (inHand : pc.job = some job) :
    held pc = some (job, false) := by
  cases pc with
  | idle | markFailed => contradiction
  | load | read | store | group | finish | remove | close =>
    rw [Worker.job, Option.some.injEq] at inHand
    rw [held, inHand]

/-- The row agrees with what the worker holds. -/
structure Backed (job : Job) (closed : Bool) (row : JobRow) : Prop where
  reportId : row.reportId = job.reportId
  attempts : row.attempts = job.attempts
  state : row.state = .running ∨ closed = true ∧ row.state = .failed
  last : closed = true → maxAttempts ≤ job.attempts

/-- No row has more attempts than there may be, and none can get more. -/
structure Bounded (row : JobRow) : Prop where
  attempts : row.attempts ≤ maxAttempts
  pending : row.state = .pending → row.attempts < maxAttempts
  failed : row.state = .failed → row.attempts = maxAttempts

/-- No two workers hold one job. -/
def Exclusive (workers : ℕ → Option Worker) : Prop :=
  ∀ worker pc job closed worker' pc' job' closed',
    workers worker = some pc → held pc = some (job, closed) →
    workers worker' = some pc' → held pc' = some (job', closed') →
    job.id = job'.id → worker = worker'

structure Ledger (jobs : Table Text JobRow JobRow.id) (workers : ℕ → Option Worker) : Prop where
  bounded : ∀ id row, jobs.find? id = some row → Bounded row
  backed : ∀ worker pc job closed, workers worker = some pc → held pc = some (job, closed) →
    ∃ row, jobs.find? job.id = some row ∧ Backed job closed row
  exclusive : Exclusive workers

theorem Ledger.empty : Ledger .empty fun _ => none where
  bounded _ _ found := by simp at found
  backed _ _ _ _ none := by simp at none
  exclusive _ _ _ _ _ _ _ _ none := by simp at none

/-! ## Steps of uploads and workers -/

variable {jobs : Table Text JobRow JobRow.id} {workers : ℕ → Option Worker}

theorem Ledger.insert (ledger : Ledger jobs workers) {id reportId : Text}
    {jobs' : Table Text JobRow JobRow.id} (inserted : jobs.insert { id, reportId } = some jobs') :
    Ledger jobs' workers where
  bounded query row found := by
    rw [Table.find?_insert inserted] at found
    split_ifs at found with same
    · rw [← Option.some.inj found]
      exact ⟨by simp [maxAttempts], by simp [maxAttempts], by simp⟩
    · exact ledger.bounded query row found
  backed worker pc job closed current holds := by
    obtain ⟨row, found, backed⟩ := ledger.backed worker pc job closed current holds
    refine ⟨row, ?_, backed⟩
    rw [Table.find?_insert inserted, if_neg]
    · exact found
    · rintro rfl
      rw [Table.find?_of_insert_eq_some inserted] at found
      contradiction
  exclusive := ledger.exclusive

theorem Exclusive.update (exclusive : Exclusive workers) {worker : ℕ} {next : Option Worker}
    (keeps : ∀ pc' job closed, next = some pc' → held pc' = some (job, closed) →
      ∃ pc job₀ closed₀, workers worker = some pc ∧ held pc = some (job₀, closed₀) ∧
        job₀.id = job.id) :
    Exclusive (Function.update workers worker next) := by
  -- What is held after the step was held by the same worker before.
  have before {w : ℕ} {pc' : Worker} {job : Job} {closed : Bool}
      (current : Function.update workers worker next w = some pc')
      (holds : held pc' = some (job, closed)) :
      ∃ pc job₀ closed₀, workers w = some pc ∧ held pc = some (job₀, closed₀) ∧ job₀.id = job.id := by
    rcases eq_or_ne w worker with rfl | other
    · rw [Function.update_self] at current
      exact keeps pc' job closed current holds
    · rw [Function.update_of_ne other] at current
      exact ⟨pc', job, closed, current, holds, rfl⟩
  intro w pc job closed w' pc' job' closed' current holds current' holds' same
  obtain ⟨pc₀, job₀, closed₀, current, holds, id⟩ := before current holds
  obtain ⟨pc₁, job₁, closed₁, current', holds', id'⟩ := before current' holds'
  exact exclusive w pc₀ job₀ closed₀ w' pc₁ job₁ closed₁ current holds current' holds'
    (id.trans (same.trans id'.symm))

/-- A worker that lets go of its job or goes on with it; it gives a job up for good after its last
attempt only. -/
theorem Ledger.update_worker (ledger : Ledger jobs workers) {worker : ℕ} {next : Option Worker}
    (keeps : ∀ pc' job closed, next = some pc' → held pc' = some (job, closed) →
      ∃ pc closed₀, workers worker = some pc ∧ held pc = some (job, closed₀) ∧
        (closed₀ = true → closed = true) ∧
        (closed = true → closed₀ = true ∨ maxAttempts ≤ job.attempts)) :
    Ledger jobs (Function.update workers worker next) where
  bounded := ledger.bounded
  backed w pc' job closed current holds := by
    rcases eq_or_ne w worker with rfl | other
    · rw [Function.update_self] at current
      obtain ⟨pc, closed₀, current, holds, opened, last⟩ := keeps pc' job closed current holds
      obtain ⟨row, found, backed⟩ := ledger.backed w pc job closed₀ current holds
      refine ⟨row, found, backed.reportId, backed.attempts, ?_, fun isOver => ?_⟩
      · exact backed.state.imp_right fun failed => ⟨opened failed.1, failed.2⟩
      · exact (last isOver).elim backed.last id
    · rw [Function.update_of_ne other] at current
      exact ledger.backed w pc' job closed current holds
  exclusive := ledger.exclusive.update fun pc' job closed current holds => by
    obtain ⟨pc, closed₀, current, holds, -⟩ := keeps pc' job closed current holds
    exact ⟨pc, job, closed₀, current, holds, rfl⟩

/-- A job that waits is held by nobody. -/
theorem Ledger.not_held_of_pending (ledger : Ledger jobs workers) {row : JobRow}
    (found : jobs.find? row.id = some row) (pending : row.state = .pending) {worker : ℕ}
    {pc : Worker} {job : Job} {closed : Bool} (current : workers worker = some pc)
    (holds : held pc = some (job, closed)) : job.id ≠ row.id := by
  intro same
  obtain ⟨row', found', backed⟩ := ledger.backed worker pc job closed current holds
  rw [same, found, Option.some.injEq] at found'
  subst found'
  rcases backed.state with running | ⟨-, failed⟩
  · rw [pending] at running
    contradiction
  · rw [pending] at failed
    contradiction

theorem Ledger.claim {db db' : Database} (ledger : Ledger db.jobs workers) {row : JobRow}
    (claimed : db.claimJob = (db', some row)) {worker : ℕ} :
    Ledger db'.jobs
      (Function.update workers worker (some (.load ⟨row.id, row.reportId, row.attempts⟩))) := by
  obtain ⟨-, ⟨old, member, pending, new⟩, -⟩ := Database.claimJob_spec claimed
  have found : db.jobs.find? old.id = some old := Table.find?_eq_some_iff.mpr ⟨member, rfl⟩
  have id : row.id = old.id := by rw [new]
  have attempts : row.attempts = old.attempts + 1 := by rw [new]
  have running : row.state = .running := by rw [new]
  have bounded := ledger.bounded _ _ found
  have others {w : ℕ} {pc : Worker} {job : Job} {closed : Bool} (current : workers w = some pc)
      (holds : held pc = some (job, closed)) : job.id ≠ row.id :=
    id ▸ ledger.not_held_of_pending found pending current holds
  refine ⟨fun query row' found' => ?_, fun w pc job closed current holds => ?_,
    fun w pc job closed w' pc' job' closed' current holds current' holds' same => ?_⟩
  · rw [Database.find?_jobs_claimJob claimed] at found'
    split_ifs at found'
    · rw [← Option.some.inj found']
      have below := bounded.pending pending
      exact ⟨by omega, by simp [running], by simp [running]⟩
    · exact ledger.bounded query row' found'
  · rw [Database.find?_jobs_claimJob claimed]
    rcases eq_or_ne w worker with rfl | other
    · rw [Function.update_self, Option.some.injEq] at current
      subst current
      rw [held, Option.some.injEq, Prod.mk.injEq] at holds
      obtain ⟨rfl, rfl⟩ := holds
      exact ⟨row, by simp, rfl, rfl, .inl running, by simp⟩
    · rw [Function.update_of_ne other] at current
      rw [if_neg (others current holds)]
      exact ledger.backed w pc job closed current holds
  · by_contra different
    rcases eq_or_ne w worker with rfl | other
    · rw [Function.update_self, Option.some.injEq] at current
      rw [Function.update_of_ne (Ne.symm different)] at current'
      subst current
      rw [held, Option.some.injEq, Prod.mk.injEq] at holds
      obtain ⟨rfl, rfl⟩ := holds
      exact others current' holds' same.symm
    rw [Function.update_of_ne other] at current
    rcases eq_or_ne w' worker with rfl | other'
    · rw [Function.update_self, Option.some.injEq] at current'
      subst current'
      rw [held, Option.some.injEq, Prod.mk.injEq] at holds'
      obtain ⟨rfl, rfl⟩ := holds'
      exact others current holds same
    · rw [Function.update_of_ne other'] at current'
      exact different
        (ledger.exclusive w pc job closed w' pc' job' closed' current holds current' holds' same)

theorem held_afterClose {job job' : Job} {outcome : Except Text Text} {closed : Bool}
    (holds : held (job.afterClose outcome) = some (job', closed)) :
    job' = job ∧ closed = true ∧ maxAttempts ≤ job.attempts ∧ job.closedState outcome = .failed := by
  cases outcome with
  | ok => contradiction
  | error e =>
    rw [Job.afterClose] at holds
    split_ifs at holds with last
    · rw [held, Option.some.injEq, Prod.mk.injEq] at holds
      exact ⟨holds.1.symm, holds.2.symm, last, by simp [Job.closedState, last]⟩
    · contradiction

theorem closing_of_markFailed {libs : Libraries} {draw : Decode.Draw} {db db' : Database}
    {raw raw' decoded decoded' : Files} {pc : Worker} {job : Job}
    (move : WorkMove libs draw db raw decoded pc (db', raw', decoded', .markFailed job)) :
    ∃ e, pc = .close job (.error e) ∧ maxAttempts ≤ job.attempts := by
  generalize marking : Worker.markFailed job = next at move
  cases move with
  | closed job' outcome | leftRunning job' outcome =>
    have holds : held (job'.afterClose outcome) = some (job, true) := marking ▸ rfl
    obtain ⟨rfl, -, last, -⟩ := held_afterClose holds
    cases outcome with
    | ok => contradiction
    | error e => exact ⟨e, rfl, last⟩
  | rested | claimed | loaded | read | stored | grouped | finished | removed | keptRaw | gaveUp
  | markedFailed | leftUnmarked => contradiction

theorem Ledger.close {db : Database} (ledger : Ledger db.jobs workers) {worker : ℕ} {job : Job}
    {outcome : Except Text Text} (current : workers worker = some (.close job outcome))
    (lastError : Option Text) :
    Ledger (db.updateJob job.id (job.closedState outcome) lastError).jobs
      (Function.update workers worker (some (job.afterClose outcome))) := by
  obtain ⟨row, found, backed⟩ := ledger.backed worker _ job false current rfl
  obtain ⟨-, rowId⟩ := Table.find?_eq_some_iff.mp found
  refine ⟨fun query row' found' => ?_, fun w pc job' closed current' holds => ?_,
    ledger.exclusive.update fun pc' job' closed next holds => ?_⟩
  · rw [Database.find?_jobs_updateJob, Option.map_eq_some_iff] at found'
    obtain ⟨old, found', rfl⟩ := found'
    have bounded := ledger.bounded query old found'
    split_ifs with same
    · have old_eq : old = row := by
        obtain ⟨-, rfl⟩ := Table.find?_eq_some_iff.mp found'
        rw [same, found, Option.some.injEq] at found'
        exact found'.symm
      have attempts : old.attempts = job.attempts := old_eq ▸ backed.attempts
      have most := bounded.attempts
      refine ⟨most, fun pending => ?_, fun failed => ?_⟩
      · cases outcome with
        | ok => contradiction
        | error e =>
          dsimp only [Job.closedState] at pending ⊢
          split_ifs at pending with last
          omega
      · cases outcome with
        | ok => contradiction
        | error e =>
          dsimp only [Job.closedState] at failed ⊢
          split_ifs at failed with last
          omega
    · exact bounded
  · rw [Database.find?_jobs_updateJob]
    rcases eq_or_ne w worker with rfl | other
    · rw [Function.update_self, Option.some.injEq] at current'
      subst current'
      obtain ⟨rfl, rfl, last, failed⟩ := held_afterClose holds
      rw [found, Option.map_some, if_pos rowId]
      exact ⟨_, rfl, backed.reportId, backed.attempts, .inr ⟨rfl, failed⟩, fun _ => last⟩
    · rw [Function.update_of_ne other] at current'
      obtain ⟨row', found', backed'⟩ := ledger.backed w pc job' closed current' holds
      have different : row'.id ≠ job.id := fun same => other <|
        ledger.exclusive w pc job' closed worker _ job false current' holds current rfl
          ((Table.find?_eq_some_iff.mp found').2.symm.trans same)
      rw [found', Option.map_some, if_neg different]
      exact ⟨row', rfl, backed'⟩
  · rw [Option.some.injEq] at next
    obtain ⟨rfl, -⟩ := held_afterClose (next ▸ holds)
    exact ⟨_, job', false, current, rfl, rfl⟩

/-! ## The whole service -/

theorem ledger_of_upload {readers : Readers} {draw : Api.Draw} {db : Database} {raw : Files}
    {pc : Upload} {result : Database × Files × Progress} (ledger : Ledger db.jobs workers)
    (move : UploadMove readers draw db raw pc result) : Ledger result.1.jobs workers := by
  cases move with
  | authenticated signed upserted => exact (Database.upsertDevice_frame upserted).2 ▸ ledger
  | reportInserted success inserted => exact (Database.insertReport_spec inserted).2 ▸ ledger
  | jobInserted inserted => exact ledger.insert (Database.insertJob_spec inserted).2.2
  | refused | anonymous | known | placed | written | cut | reportRefused | jobRefused =>
    exact ledger

theorem ledger_of_work {s : Service} {libs : Libraries} {draw : Decode.Draw} {worker : ℕ} {pc : Worker}
    {result : Database × Files × Files × Worker} (ledger : Ledger s.db.jobs s.workers)
    (current : s.workers worker = some pc) (move : WorkMove libs draw s.db s.raw s.decoded pc result) :
    Ledger (s.afterWork worker result).db.jobs (s.afterWork worker result).workers := by
  -- Between the claim and the closing statement the worker goes on with its job.
  have carry {jobs : Table Text JobRow JobRow.id} {next : Worker} (frame : jobs = s.db.jobs)
      (same : held next = held pc) :
      Ledger jobs (Function.update s.workers worker (some next)) := by
    rw [frame]
    refine ledger.update_worker fun pc' job closed now holds => ⟨pc, closed, current, ?_, id, .inl⟩
    rw [← same, Option.some.inj now, holds]
  cases move with
  | rested => exact carry rfl rfl
  | claimed claim => exact ledger.claim claim
  | loaded | read | stored | finished | removed | keptRaw => exact carry rfl rfl
  | grouped _ _ _ upserted => exact carry (Database.upsertGroup_frame upserted).2 rfl
  | gaveUp busy => exact carry rfl (held_of_job busy).symm
  | closed job outcome success lastError => exact ledger.close current lastError
  | leftRunning job outcome =>
    refine ledger.update_worker fun pc' job' closed now holds => ?_
    obtain ⟨rfl, rfl, last, -⟩ := held_afterClose (Option.some.inj now ▸ holds)
    exact ⟨_, false, current, rfl, by simp, fun _ => .inr last⟩
  | markedFailed | leftUnmarked =>
    refine ledger.update_worker fun pc' job' closed now holds => ?_
    rw [← Option.some.inj now] at holds
    contradiction

theorem ledger_of_step {setup : Setup} {s s' : Service} {action : Action}
    (ledger : Ledger s.db.jobs s.workers) (stepped : step setup s action = some s') :
    Ledger s'.db.jobs s'.workers := by
  cases move_of_step stepped with
  | requested | abandoned | swept | halted => exact ledger
  | uploaded current move =>
    rw [afterUpload_db, afterUpload_workers]
    exact ledger_of_upload ledger move
  | started worker =>
    refine ledger.update_worker fun pc' job closed now holds => ?_
    rw [← Option.some.inj now] at holds
    contradiction
  | worked current move => exact ledger_of_work ledger current move
  | stopped worker => exact ledger.update_worker fun pc' job closed now => by contradiction
  | collected current move => cases move <;> exact ledger

theorem ledger_of_run {setup : Setup} {s t : Service} {actions : List Action}
    (ledger : Ledger s.db.jobs s.workers) (reached : Machine.run (step setup) s actions = some t) :
    Ledger t.db.jobs t.workers :=
  Machine.invariant_of_every_run (fun _ _ _ invariant stepped => ledger_of_step invariant stepped)
    ledger reached

/-! ## The row of one job -/

/-- The step hands the job to a worker. -/
def claims (jobId : Text) (s : Service) (action : Action) (s' : Service) : Bool :=
  match action with
  | .work worker _ =>
    match s.workers worker, s'.workers worker with
    | some .idle, some (.load job) => job.id = jobId
    | _, _ => false
  | _ => false

/-- What a step can do to the row of a job: nothing, or set it running for a worker, or close it for
the worker that holds it. -/
inductive RowStep (s : Service) (row : JobRow) (s' : Service) : Action → JobRow → Prop
  | kept {action : Action} (unclaimed : claims row.id s action s' = false) :
      RowStep s row s' action row
  | claimed {worker : ℕ} {draw : Decode.Draw} (pending : row.state = .pending)
      (claimed : claims row.id s (.work worker draw) s' = true) :
      RowStep s row s' (.work worker draw)
        { row with state := .running, attempts := row.attempts + 1 }
  | closed {worker : ℕ} {draw : Decode.Draw} {job : Job} {outcome : Except Text Text}
      (current : s.workers worker = some (.close job outcome)) (same : job.id = row.id)
      (backed : Backed job false row) (lastError : Option Text)
      (unclaimed : claims row.id s (.work worker draw) s' = false) :
      RowStep s row s' (.work worker draw)
        { row with state := job.closedState outcome, lastError }

theorem RowStep.reportId {s s' : Service} {row row' : JobRow} {action : Action}
    (moved : RowStep s row s' action row') : row'.reportId = row.reportId := by
  cases moved <;> rfl

theorem claims_of_not_idle {s s' : Service} {worker : ℕ} {draw : Decode.Draw} {pc : Worker}
    (current : s.workers worker = some pc) (busy : pc ≠ .idle) (id : Text) :
    claims id s (.work worker draw) s' = false := by
  rw [claims, current]
  cases pc with
  | idle => contradiction
  | load | read | store | group | finish | remove | close | markFailed => rfl

theorem find?_jobs_of_upload {readers : Readers} {draw : Api.Draw} {db : Database} {raw : Files}
    {pc : Upload} {result : Database × Files × Progress}
    (move : UploadMove readers draw db raw pc result) (id : Text) :
    result.1.jobs.find? id = db.jobs.find? id ∨
      db.jobs.find? id = none ∧ draw.newId = id ∧ ∃ reportId, pc = .insertJob reportId ∧
        (db.reports.find? reportId).isSome ∧ result.1.jobs.find? id = some { id, reportId } := by
  cases move with
  | authenticated signed upserted => exact .inl ((Database.upsertDevice_frame upserted).2 ▸ rfl)
  | reportInserted success inserted => exact .inl ((Database.insertReport_spec inserted).2 ▸ rfl)
  | @jobInserted reportId db' inserted =>
    obtain ⟨-, there, added⟩ := Database.insertJob_spec inserted
    have found := Table.find?_insert added id
    rcases eq_or_ne draw.newId id with rfl | other
    · refine .inr ⟨Table.find?_of_insert_eq_some added, rfl, reportId, rfl, there, ?_⟩
      simpa using found
    · exact .inl (by simpa [other] using found)
  | refused | anonymous | known | placed | written | cut | reportRefused | jobRefused =>
    exact .inl rfl

theorem rowStep_of_work {s : Service} {libs : Libraries} {draw : Decode.Draw} {worker : ℕ} {pc : Worker}
    {result : Database × Files × Files × Worker} (ledger : Ledger s.db.jobs s.workers)
    (current : s.workers worker = some pc) (move : WorkMove libs draw s.db s.raw s.decoded pc result)
    {row : JobRow} (found : s.db.jobs.find? row.id = some row) :
    ∃ row', (s.afterWork worker result).db.jobs.find? row.id = some row' ∧
      RowStep s row (s.afterWork worker result) (.work worker draw) row' := by
  have untouched {s' : Service} (frame : s'.db.jobs = s.db.jobs)
      (unclaimed : claims row.id s (.work worker draw) s' = false) :
      ∃ row', s'.db.jobs.find? row.id = some row' ∧ RowStep s row s' (.work worker draw) row' :=
    ⟨row, frame ▸ found, .kept unclaimed⟩
  cases move with
  | rested => exact untouched rfl (by simp [claims, afterWork, current])
  | @claimed db' new claim =>
    have look := Database.find?_jobs_claimJob claim row.id
    obtain ⟨-, ⟨old, member, pending, new_eq⟩, -⟩ := Database.claimJob_spec claim
    rcases eq_or_ne row.id new.id with same | other
    · have old_eq : old = row := by
        have foundOld : s.db.jobs.find? old.id = some old :=
          Table.find?_eq_some_iff.mpr ⟨member, rfl⟩
        rw [show old.id = row.id by rw [same, new_eq], found, Option.some.injEq] at foundOld
        exact foundOld.symm
      subst old_eq
      refine ⟨new, look.trans (if_pos same), ?_⟩
      rw [new_eq] at same ⊢
      exact .claimed pending (by simp [claims, afterWork, current])
    · refine ⟨row, look.trans ((if_neg other).trans found), .kept ?_⟩
      simpa [claims, afterWork, current] using other.symm
  | loaded | read | stored | finished | removed | keptRaw | markedFailed | leftRunning
  | leftUnmarked => exact untouched rfl (claims_of_not_idle current (by simp) row.id)
  | grouped _ _ _ upserted =>
    exact untouched (Database.upsertGroup_frame upserted).2
      (claims_of_not_idle current (by simp) row.id)
  | gaveUp busy =>
    exact untouched rfl (claims_of_not_idle current (by rintro rfl; contradiction) row.id)
  | closed job outcome success lastError =>
    have look := s.db.find?_jobs_updateJob job.id (job.closedState outcome) lastError row.id
    rw [found, Option.map_some] at look
    have unclaimed (s' : Service) : claims row.id s (.work worker draw) s' = false :=
      claims_of_not_idle current (by simp) row.id
    rcases eq_or_ne row.id job.id with same | other
    · obtain ⟨row', found', backed⟩ := ledger.backed worker _ job false current rfl
      rw [← same, found, Option.some.injEq] at found'
      subst found'
      exact ⟨_, look.trans (congrArg some (if_pos same)),
        .closed current same.symm backed _ (unclaimed _)⟩
    · exact ⟨row, look.trans (congrArg some (if_neg other)), .kept (unclaimed _)⟩

theorem rowStep_of_step {setup : Setup} {s s' : Service} {action : Action}
    (ledger : Ledger s.db.jobs s.workers) (stepped : step setup s action = some s') {row : JobRow}
    (found : s.db.jobs.find? row.id = some row) :
    ∃ row', s'.db.jobs.find? row.id = some row' ∧ RowStep s row s' action row' := by
  cases move_of_step stepped with
  | requested | abandoned | swept | halted | started | stopped => exact ⟨row, found, .kept rfl⟩
  | uploaded current move =>
    refine ⟨row, ?_, .kept rfl⟩
    rw [afterUpload_db]
    rcases find?_jobs_of_upload move row.id with same | ⟨absent, -⟩
    · rw [same, found]
    · rw [found] at absent
      contradiction
  | worked current move => exact rowStep_of_work ledger current move found
  | collected current move => exact ⟨row, by cases move <;> exact found, .kept rfl⟩

theorem absent_of_work {s : Service} {libs : Libraries} {draw : Decode.Draw} {worker : ℕ} {pc : Worker}
    {result : Database × Files × Files × Worker} (current : s.workers worker = some pc)
    (move : WorkMove libs draw s.db s.raw s.decoded pc result) {id : Text}
    (absent : s.db.jobs.find? id = none) :
    claims id s (.work worker draw) (s.afterWork worker result) = false ∧
      (s.afterWork worker result).db.jobs.find? id = none := by
  cases move with
  | rested => exact ⟨by simp [claims, afterWork, current], absent⟩
  | @claimed db' new claim =>
    obtain ⟨-, ⟨old, member, -, new_eq⟩, -⟩ := Database.claimJob_spec claim
    have other : id ≠ new.id := by
      intro same
      have found : s.db.jobs.find? old.id = some old :=
        Table.find?_eq_some_iff.mpr ⟨member, rfl⟩
      rw [show old.id = id by rw [same, new_eq], absent] at found
      contradiction
    refine ⟨by simpa [claims, afterWork, current] using other.symm, ?_⟩
    exact (Database.find?_jobs_claimJob claim id).trans ((if_neg other).trans absent)
  | loaded | read | stored | finished | removed | keptRaw | markedFailed | leftRunning
  | leftUnmarked => exact ⟨claims_of_not_idle current (by simp) id, absent⟩
  | grouped _ _ _ upserted =>
    refine ⟨claims_of_not_idle current (by simp) id, ?_⟩
    exact ((Database.upsertGroup_frame upserted).2 ▸ absent)
  | gaveUp busy =>
    exact ⟨claims_of_not_idle current (by rintro rfl; contradiction) id, absent⟩
  | closed job outcome success lastError =>
    refine ⟨claims_of_not_idle current (by simp) id, ?_⟩
    exact (Database.find?_jobs_updateJob _ _ _ _ id).trans (by rw [absent, Option.map_none])

/-- A job that was not there is there after a step only as a new one. -/
theorem new_row_of_step {setup : Setup} {s s' : Service} {action : Action}
    (stepped : step setup s action = some s') {id : Text} (absent : s.db.jobs.find? id = none) :
    claims id s action s' = false ∧
      ∀ row, s'.db.jobs.find? id = some row →
        ∃ call draw reportId, action = .upload call draw ∧ draw.newId = id ∧
          s.uploads call = some (.insertJob reportId) ∧
          (s.db.reports.find? reportId).isSome ∧ row = { id, reportId } := by
  cases move_of_step stepped with
  | requested | abandoned | swept | halted | started | stopped =>
    exact ⟨rfl, fun row found => by rw [absent] at found; contradiction⟩
  | @uploaded call draw pc result current move =>
    refine ⟨rfl, fun row found => ?_⟩
    rw [afterUpload_db] at found
    rcases find?_jobs_of_upload move id with same | ⟨-, newId, reportId, rfl, there, new⟩
    · rw [same, absent] at found
      contradiction
    · rw [new] at found
      exact ⟨call, draw, reportId, rfl, newId, current, there, (Option.some.inj found).symm⟩
  | worked current move =>
    obtain ⟨unclaimed, still⟩ := absent_of_work current move absent
    exact ⟨unclaimed, fun row found => by rw [still] at found; contradiction⟩
  | collected current move =>
    refine ⟨rfl, fun row found => ?_⟩
    have same : s.db.jobs.find? id = some row := by cases move <;> exact found
    rw [absent] at same
    contradiction

/-! ## Runs -/

/-- The number of times the job has been claimed. -/
def Counted (id : Text) (s : Service) (n : ℕ) : Prop :=
  match s.db.jobs.find? id with
  | some row => row.attempts = n
  | none => n = 0

theorem counted_of_step {setup : Setup} {s s' : Service} {action : Action}
    (ledger : Ledger s.db.jobs s.workers) (stepped : step setup s action = some s') {id : Text}
    {n : ℕ} (counted : Counted id s n) :
    Counted id s' (n + if claims id s action s' then 1 else 0) := by
  rw [Counted] at counted ⊢
  cases found : s.db.jobs.find? id with
  | none =>
    rw [found] at counted
    obtain ⟨unclaimed, fresh⟩ := new_row_of_step stepped found
    cases found' : s'.db.jobs.find? id with
    | none => simpa [unclaimed] using counted
    | some row =>
      obtain ⟨-, -, -, -, -, -, -, rfl⟩ := fresh row found'
      simp [unclaimed, counted]
  | some row =>
    rw [found] at counted
    obtain ⟨-, rfl⟩ := Table.find?_eq_some_iff.mp found
    obtain ⟨row', found', rowStep⟩ := rowStep_of_step ledger stepped found
    rw [found']
    cases rowStep with
    | kept unclaimed => simpa [unclaimed] using counted
    | claimed pending claimed => simpa [claimed] using counted
    | closed current same backed lastError unclaimed => simpa [unclaimed] using counted

/-- A job that is over stays as it is, and is not claimed. -/
theorem over_of_step {setup : Setup} {s s' : Service} {action : Action}
    (ledger : Ledger s.db.jobs s.workers) (stepped : step setup s action = some s') {row : JobRow}
    (found : s.db.jobs.find? row.id = some row) (isOver : row.state = .done ∨ row.state = .failed) :
    s'.db.jobs.find? row.id = some row ∧ claims row.id s action s' = false := by
  obtain ⟨row', found', rowStep⟩ := rowStep_of_step ledger stepped found
  cases rowStep with
  | kept unclaimed => exact ⟨found', unclaimed⟩
  | claimed pending =>
    rw [pending] at isOver
    simp at isOver
  | closed current same backed =>
    rcases backed.state with running | ⟨closed, -⟩
    · rw [running] at isOver
      simp at isOver
    · contradiction

theorem over_of_run {setup : Setup} {s t : Service} {actions : List Action}
    (ledger : Ledger s.db.jobs s.workers) (reached : Machine.run (step setup) s actions = some t)
    {row : JobRow} (found : s.db.jobs.find? row.id = some row)
    (isOver : row.state = .done ∨ row.state = .failed) :
    t.db.jobs.find? row.id = some row ∧
      Machine.count (step setup) (claims row.id) s actions = 0 := by
  have invariant := Machine.counted_invariant_of_run (claims row.id) (n := 0)
    (I := fun s n => Ledger s.db.jobs s.workers ∧ s.db.jobs.find? row.id = some row ∧ n = 0)
    (fun s a s' n invariant (stepped : step setup s a = some s') => by
      obtain ⟨ledger, found, rfl⟩ := invariant
      obtain ⟨still, unclaimed⟩ := over_of_step ledger stepped found isOver
      exact ⟨ledger_of_step ledger stepped, still, by simp [unclaimed]⟩)
    ⟨ledger, found, rfl⟩ reached
  exact ⟨invariant.2.1, by simpa using invariant.2.2⟩

theorem counted_of_run {setup : Setup} {s : Service} {actions : List Action}
    (reached : Machine.run (step setup) {} actions = some s) (id : Text) :
    Counted id s (Machine.count (step setup) (claims id) {} actions) := by
  have invariant := Machine.counted_invariant_of_run (claims id) (n := 0)
    (I := fun s n => Ledger s.db.jobs s.workers ∧ Counted id s n)
    (fun s a s' n invariant (stepped : step setup s a = some s') =>
      ⟨ledger_of_step invariant.1 stepped, counted_of_step invariant.1 stepped invariant.2⟩)
    ⟨Ledger.empty, by simp [Counted]⟩ reached
  rw [Nat.zero_add] at invariant
  exact invariant.2

/-- In every run of the service a job is held by one worker at most, the attempts of its row are the
claims so far and at most three, it fails only when a worker that has it for the third time meets an
error, and once it is done or failed it is never claimed again. -/
theorem jobs_exclusive_and_bounded (setup : Setup) {actions : List Action} {s : Service}
    (reached : Machine.run (step setup) {} actions = some s) :
    Exclusive s.workers ∧
      (∀ row ∈ s.db.jobs.rows,
        row.attempts = Machine.count (step setup) (claims row.id) {} actions ∧ row.attempts ≤ 3) ∧
      (∀ row ∈ s.db.jobs.rows, ∀ action s', step setup s action = some s' →
        ∃ row' ∈ s'.db.jobs.rows, row'.id = row.id ∧
          (row'.state = .failed → row.state = .failed ∨
            ∃ worker draw job e, action = .work worker draw ∧
              s.workers worker = some (.close job (.error e)) ∧ job.id = row.id ∧
              row.state = .running ∧ row.attempts = 3)) ∧
      ∀ row ∈ s.db.jobs.rows, row.state = .done ∨ row.state = .failed →
        ∀ more t, Machine.run (step setup) s more = some t →
          row ∈ t.db.jobs.rows ∧ Machine.count (step setup) (claims row.id) s more = 0 := by
  have ledger : Ledger s.db.jobs s.workers := ledger_of_run Ledger.empty reached
  have look {row : JobRow} (member : row ∈ s.db.jobs.rows) :
      s.db.jobs.find? row.id = some row := Table.find?_eq_some_iff.mpr ⟨member, rfl⟩
  refine ⟨ledger.exclusive, fun row member => ⟨?_, (ledger.bounded _ _ (look member)).attempts⟩,
    fun row member action s' stepped => ?_, fun row member isOver more t reached' => ?_⟩
  · have counted := counted_of_run reached row.id
    rw [Counted, look member] at counted
    exact counted
  · obtain ⟨row', found', rowStep⟩ := rowStep_of_step ledger stepped (look member)
    obtain ⟨member', same⟩ := Table.find?_eq_some_iff.mp found'
    refine ⟨row', member', same, fun failed => ?_⟩
    cases rowStep with
    | kept => exact .inl failed
    | claimed => contradiction
    | @closed worker draw job outcome current sameJob backed lastError =>
      have most := (ledger.bounded _ _ (look member)).attempts
      have attempts := backed.attempts
      cases outcome with
      | ok => contradiction
      | error e =>
        dsimp only [Job.closedState] at failed
        split_ifs at failed with last
        have running : row.state = .running :=
          backed.state.resolve_right fun closed => Bool.false_ne_true closed.1
        rw [maxAttempts] at most last
        exact .inr ⟨worker, draw, job, e, rfl, current, sameJob, running, by omega⟩
  · obtain ⟨still, unclaimed⟩ := over_of_run ledger reached' (look member) isOver
    exact ⟨(Table.find?_eq_some_iff.mp still).1, unclaimed⟩

/-- A claim, a report that cannot be loaded, and the statement that closes the job. -/
def demoFailure (worker : ℕ) : List Action :=
  [.work worker {}, .work worker { success := false }, .work worker {}]

/-- A job that fails three times. -/
theorem thrice_failed_job :
    ∃ s, Machine.run (step demoSetup) {}
        (demoUpload 0 ++ [.start 0] ++ demoFailure 0 ++ demoFailure 0 ++ demoFailure 0) = some s ∧
      s.db.jobs.rows.map (·.state) = [.failed] ∧
      ∀ row ∈ s.db.jobs.rows,
        row.attempts = Machine.count (step demoSetup) (claims row.id) {}
          (demoUpload 0 ++ [.start 0] ++ demoFailure 0 ++ demoFailure 0 ++ demoFailure 0) ∧
        row.attempts ≤ 3 := by
  have states : (Machine.run (step demoSetup) {}
      (demoUpload 0 ++ [.start 0] ++ demoFailure 0 ++ demoFailure 0 ++ demoFailure 0)).map
        (fun s => s.db.jobs.rows.map (·.state)) = some [.failed] := by decide +kernel
  obtain ⟨s, reached, failed⟩ := Option.map_eq_some_iff.mp states
  exact ⟨s, reached, failed, (jobs_exclusive_and_bounded demoSetup reached).2.1⟩

end UcrashReport.Service
