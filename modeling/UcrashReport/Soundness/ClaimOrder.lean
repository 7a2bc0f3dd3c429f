import UcrashReport.Soundness.HeldJobs

/-! # The order in which jobs are claimed

A job is claimed by the smallest id, and ids are drawn without regard to time. So the queue is
first in, first out only as long as the ids of the waiting jobs happen to ascend in the order in
which the jobs were enqueued, which is the order of their rows.
-/

namespace UcrashReport

open Rust Rust.Text Api Decode

namespace Database

/-- A claim takes the pending job that was enqueued first. -/
def ClaimsEarliest (db : Database) : Prop :=
  db.claimJob.2.map (·.id) =
    (db.jobs.rows.find? fun job => job.state = .pending).map (·.id)

instance (db : Database) : Decidable db.ClaimsEarliest := inferInstanceAs (Decidable (_ = _))

/-- Of two pending jobs the one enqueued first has the smaller id. -/
def Ascending (db : Database) : Prop :=
  db.jobs.rows.Pairwise fun earlier later =>
    earlier.state = .pending → later.state = .pending → earlier.id < later.id

/-- Compared with every pending job, the id of this one is on the side of its place in the queue. -/
def InPlace (db : Database) (id : Text) : Prop :=
  db.jobs.rows.Pairwise fun earlier later =>
    (earlier.id = id → later.state = .pending → id < later.id) ∧
      (later.id = id → earlier.state = .pending → earlier.id < id)

instance (db : Database) (id : Text) : Decidable (db.InPlace id) :=
  inferInstanceAs (Decidable (List.Pairwise _ _))

/-! ## One claim -/

theorem claimJob_id (db : Database) :
    db.claimJob.2.map (·.id) = db.oldestPending.map (·.id) := by
  rw [claimJob]
  cases db.oldestPending <;> rfl

/-- In an ascending queue the first job stays the best one. -/
theorem foldl_of_ascending {first : JobRow} {rest : List JobRow}
    (least : ∀ job ∈ rest, first.id < job.id) :
    rest.foldl (fun best job =>
      match best with
      | none => some job
      | some first => if job.id < first.id then some job else some first) (some first) =
        some first := by
  induction rest with
  | nil => rfl
  | cons job rest ih =>
    have smaller := least job List.mem_cons_self
    rw [List.foldl_cons]
    dsimp only
    rw [if_neg (List.lt_asymm smaller)]
    exact ih fun other member => least other (List.mem_cons_of_mem job member)

theorem claimsEarliest_of_ascending {db : Database} (ascending : db.Ascending) :
    db.ClaimsEarliest := by
  have pending : (db.jobs.rows.filter fun job => job.state = .pending).Pairwise
      fun earlier later => earlier.id < later.id := by
    rw [List.pairwise_filter]
    simpa [Ascending] using ascending
  rw [ClaimsEarliest, claimJob_id, oldestPending, ← List.head?_filter]
  cases queue : db.jobs.rows.filter fun job => job.state = .pending with
  | nil => rfl
  | cons first rest =>
    rw [queue, List.pairwise_cons] at pending
    rw [List.foldl_cons, List.head?_cons]
    exact congrArg _ (foldl_of_ascending pending.1)

/-! ## The statements on the queue -/

variable {db db' : Database}

theorem Ascending.congr (ascending : db.Ascending) (jobs : db'.jobs = db.jobs) :
    db'.Ascending := by
  rw [Ascending, jobs]
  exact ascending

theorem Ascending.insertJob (ascending : db.Ascending) {id reportId : Text}
    (inserted : db.insertJob id reportId = some db')
    (largest : ∀ job ∈ db.jobs.rows, job.state = .pending → job.id < id) : db'.Ascending := by
  obtain ⟨-, -, added⟩ := insertJob_spec inserted
  rw [Store.Table.insert] at added
  split_ifs at added
  rw [Ascending, ← Option.some.inj added, List.pairwise_append]
  refine ⟨ascending, List.pairwise_singleton .., ?_⟩
  intro job member new isNew waiting _
  rw [List.mem_singleton] at isNew
  subst isNew
  exact largest job member waiting

/-- A statement that makes no job pending keeps the order. -/
theorem Ascending.update (ascending : db.Ascending) (id : Text) (change : JobRow → JobRow)
    (keeps : ∀ row, (change row).id = row.id) (leaves : ∀ row, (change row).state ≠ .pending) :
    Ascending { db with jobs := db.jobs.update id change keeps } := by
  rw [Ascending, Store.Table.update, List.pairwise_map]
  refine ascending.imp fun {earlier later} order waiting waiting' => ?_
  split_ifs at waiting waiting' ⊢ with first second
  · exact absurd waiting (leaves earlier)
  · exact absurd waiting (leaves earlier)
  · exact absurd waiting' (leaves later)
  · exact order waiting waiting'

theorem Ascending.claimJob (ascending : db.Ascending) {row : JobRow}
    (claimed : db.claimJob = (db', some row)) : db'.Ascending := by
  rw [Database.claimJob] at claimed
  cases oldest : db.oldestPending with
  | none => simp [oldest] at claimed
  | some job =>
    rw [oldest] at claimed
    rw [← (Prod.mk.inj claimed).1]
    exact ascending.update job.id
      (fun row => { row with state := .running, attempts := row.attempts + 1 }) (fun _ => rfl)
      fun _ => by simp

/-- A job that is put back in its place keeps the order. -/
theorem Ascending.updateJob (ascending : db.Ascending) {id : Text} {state : JobState}
    (lastError : Option Text) (place : state = .pending → db.InPlace id) :
    (db.updateJob id state lastError).Ascending := by
  by_cases waits : state = .pending
  · have distinct : db.jobs.rows.Pairwise fun earlier later => earlier.id ≠ later.id :=
      List.pairwise_map.mp db.jobs.unique
    rw [Ascending, Database.updateJob, Store.Table.update, List.pairwise_map]
    refine ((ascending.and (place waits)).and distinct).imp fun {earlier later} all => ?_
    obtain ⟨⟨order, before, behind⟩, different⟩ := all
    intro waiting waiting'
    split_ifs at waiting waiting' ⊢ with first second
    · exact absurd (first.trans second.symm) different
    · exact first ▸ before first waiting'
    · next second => exact second ▸ behind second waiting
    · exact order waiting waiting'
  · exact ascending.update id
      (fun row => { row with state, lastError := lastError.or row.lastError }) (fun _ => rfl)
      fun _ => waits

end Database

/-! ## Runs -/

namespace Service

/-- An upload that inserts its job draws an id above those of the pending jobs. -/
def DrawsInOrder (db : Database) (draw : Api.Draw) : Upload → Prop
  | .insertJob _ =>
    draw.success = true → ∀ job ∈ db.jobs.rows, job.state = .pending → job.id < draw.newId
  | _ => True

/-- A job that a worker puts back is in its place among the pending jobs. -/
def ReturnsInOrder (db : Database) (draw : Decode.Draw) : Worker → Prop
  | .close job outcome =>
    draw.success = true → job.closedState outcome = .pending → db.InPlace job.id
  | _ => True

/-- A job that becomes pending, as a new one or again after a failure, has an id that compares with
the id of every pending job as their times of enqueuing do. -/
def QueuesInOrder (s : Service) : Action → Prop
  | .upload call draw => ∀ pc ∈ s.uploads call, DrawsInOrder s.db draw pc
  | .work worker draw => ∀ pc ∈ s.workers worker, ReturnsInOrder s.db draw pc
  | _ => True

theorem jobs_of_failed_upload {readers : Readers} {draw : Api.Draw} {db : Database} {raw : Files}
    {pc : Upload} (failed : draw.success = false) :
    (postReport readers draw db raw pc).1.jobs = db.jobs := by
  cases pc with
  | authenticate headers body =>
    rw [postReport]
    cases checkSignature readers headers body with
    | error e => rfl
    | ok pubkey => cases pubkey <;> simp [failed]
  | lookup | insertReport | insertJob => simp [postReport, failed]
  | write metadata payload deviceId reportId =>
    rw [postReport]
    cases draw.written <;> rfl

theorem ascending_of_upload {readers : Readers} {draw : Api.Draw} {db : Database} {raw : Files}
    {pc : Upload} {result : Database × Files × Progress} (ascending : db.Ascending)
    (order : ∀ reportId, pc = .insertJob reportId →
      ∀ job ∈ db.jobs.rows, job.state = .pending → job.id < draw.newId)
    (move : UploadMove readers draw db raw pc result) : result.1.Ascending := by
  cases move with
  | authenticated signed upserted =>
    exact ascending.congr (Database.upsertDevice_frame upserted).2
  | reportInserted success inserted =>
    exact ascending.congr (Database.insertReport_spec inserted).2
  | jobInserted inserted => exact ascending.insertJob inserted (order _ rfl)
  | refused | anonymous | known | placed | written | cut | reportRefused | jobRefused =>
    exact ascending

theorem ascending_of_work {libs : Libraries} {draw : Decode.Draw} {db : Database}
    {raw decoded : Files} {pc : Worker} {result : Database × Files × Files × Worker}
    (ascending : db.Ascending)
    (order : ∀ job outcome, pc = .close job outcome → draw.success = true →
      job.closedState outcome = .pending → db.InPlace job.id)
    (move : WorkMove libs draw db raw decoded pc result) : result.1.Ascending := by
  cases move with
  | claimed claim => exact ascending.claimJob claim
  | grouped _ _ _ upserted => exact ascending.congr (Database.upsertGroup_frame upserted).2
  | closed job outcome success lastError =>
    exact ascending.updateJob lastError (order job outcome rfl success)
  | rested | loaded | read | stored | finished | removed | keptRaw | gaveUp | leftRunning
  | markedFailed | leftUnmarked => exact ascending

theorem ascending_of_step {setup : Setup} {s s' : Service} {action : Action}
    (ascending : s.db.Ascending) (order : QueuesInOrder s action)
    (stepped : step setup s action = some s') : s'.db.Ascending := by
  cases move_of_step stepped with
  | requested | abandoned | started | stopped | swept | halted => exact ascending
  | @uploaded call draw pc result current move =>
    rw [afterUpload_db]
    cases success : draw.success with
    | true =>
      refine ascending_of_upload ascending (fun reportId inserting => ?_) move
      have inOrder := order pc current
      rw [inserting] at inOrder
      exact inOrder success
    | false =>
      rw [step, current, Option.map_some, Option.some.injEq] at stepped
      have same := congrArg Service.db stepped
      rw [afterUpload_db, afterUpload_db] at same
      exact ascending.congr (same ▸ jobs_of_failed_upload success)
  | @worked worker draw pc result current move =>
    refine ascending_of_work ascending (fun job outcome closing => ?_) move
    have inOrder := order pc current
    rw [closing] at inOrder
    exact inOrder
  | collected current move => cases move <;> exact ascending

/-- As long as every job that becomes pending has an id in its place, the job claimed is the one
that was enqueued first. -/
theorem claimsEarliest_of_run (setup : Setup) {actions : List Action} {s : Service}
    (order : Machine.Meets (step setup) QueuesInOrder {} actions)
    (reached : Machine.run (step setup) {} actions = some s) : s.db.ClaimsEarliest := by
  have ascending : s.db.Ascending :=
    Machine.invariant_of_run (I := fun s => s.db.Ascending)
      (fun _ _ _ holds meets stepped => ascending_of_step holds meets stepped)
      (List.Pairwise.nil) order reached
  exact Database.claimsEarliest_of_ascending ascending

/-! ## Concrete runs -/

instance decidableDrawsInOrder (db : Database) (draw : Api.Draw) :
    ∀ pc, Decidable (DrawsInOrder db draw pc)
  | .insertJob _ => inferInstanceAs (Decidable (draw.success = true →
      ∀ job ∈ db.jobs.rows, job.state = .pending → job.id < draw.newId))
  | .authenticate .. | .lookup .. | .write .. | .insertReport .. =>
    inferInstanceAs (Decidable True)

instance decidableReturnsInOrder (db : Database) (draw : Decode.Draw) :
    ∀ pc, Decidable (ReturnsInOrder db draw pc)
  | .close job outcome => inferInstanceAs (Decidable (draw.success = true →
      job.closedState outcome = .pending → db.InPlace job.id))
  | .idle | .load .. | .read .. | .store .. | .group .. | .finish .. | .remove .. | .markFailed .. =>
    inferInstanceAs (Decidable True)

instance decidableQueuesInOrder (s : Service) : ∀ action, Decidable (QueuesInOrder s action)
  | .upload call draw =>
    inferInstanceAs (Decidable (∀ pc ∈ s.uploads call, DrawsInOrder s.db draw pc))
  | .work worker draw =>
    inferInstanceAs (Decidable (∀ pc ∈ s.workers worker, ReturnsInOrder s.db draw pc))
  | .request .. | .abandon .. | .start .. | .stop .. | .sweep .. | .collect .. | .halt .. =>
    inferInstanceAs (Decidable True)

/-- An unsigned upload of the report `uuid` that goes through, with the id of its job. -/
def demoReport (call : ℕ) (uuid jobId : Text) : List Action :=
  [.request call ⟨none, none, some uuid⟩ [1], .upload call {}, .upload call {}, .upload call {},
    .upload call {}, .upload call { newId := jobId }]

theorem ascending_ids_claimed_in_order :
    ∃ s, Machine.run (step demoSetup) {}
        (demoReport 0 "u1".toList "j1".toList ++ demoReport 1 "u2".toList "j2".toList) = some s ∧
      s.db.jobs.rows.map (·.id) = ["j1".toList, "j2".toList] ∧ s.db.ClaimsEarliest := by
  have queued : (Machine.run (step demoSetup) {}
      (demoReport 0 "u1".toList "j1".toList ++ demoReport 1 "u2".toList "j2".toList)).map
        (fun s => s.db.jobs.rows.map (·.id)) = some ["j1".toList, "j2".toList] := by decide +kernel
  obtain ⟨s, reached, ids⟩ := Option.map_eq_some_iff.mp queued
  exact ⟨s, reached, ids, claimsEarliest_of_run demoSetup (by decide +kernel) reached⟩

/-- The second of two uploads draws the smaller id, and its job is claimed first. -/
theorem later_job_claimed_first :
    ∃ s, Machine.run (step demoSetup) {}
        (demoReport 0 "u1".toList "j2".toList ++ demoReport 1 "u2".toList "j1".toList) = some s ∧
      ¬ s.db.ClaimsEarliest := ⟨_, rfl, by decide +kernel⟩

end Service

end UcrashReport
