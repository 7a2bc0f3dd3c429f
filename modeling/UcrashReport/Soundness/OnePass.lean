import UcrashReport.Decoder.Main
import UcrashReport.Soundness.WorkBound

/-! # A single pass of the decoder

Started for one pass and while nobody else moves, the decoder returns: only statements that claim can
keep it waiting, and all other steps are bounded by the number of jobs. Then no job is pending.
-/

namespace UcrashReport.Service

open Rust Rust.Text Store Api Decode

/-- A step of a decoder that was started for one pass, as the only party that moves. -/
def passStep (setup : Setup) (worker : ℕ) (s : Service) (draw : Decode.Draw) : Option Service :=
  (s.workers worker).map fun pc =>
    match main setup.libs true draw s.db s.raw s.decoded pc with
    | (db, raw, decoded, next) =>
      { s with db, raw, decoded, workers := Function.update s.workers worker next }

/-- The step returns, or it is a step of a worker. -/
theorem main_eq_work (libs : Libraries) (draw : Decode.Draw) (db : Database) (raw decoded : Files)
    (pc : Worker) :
    main libs true draw db raw decoded pc = (db, raw, decoded, none) ∧ pc = .idle ∧
        draw.success = true ∧ db.claimJob = (db, none) ∨
      main libs true draw db raw decoded pc =
          ((work libs draw db raw decoded pc).1, (work libs draw db raw decoded pc).2.1,
            (work libs draw db raw decoded pc).2.2.1,
            some (work libs draw db raw decoded pc).2.2.2) ∧
        (pc = .idle → draw.success = true → db.claimJob.2.isSome) := by
  cases pc with
  | idle =>
    rw [main, work]
    cases draw.success with
    | false => exact .inr ⟨rfl, by simp⟩
    | true =>
      cases claim : db.claimJob with
      | mk db' claimed =>
        cases claimed with
        | some row => exact .inr ⟨rfl, by simp⟩
        | none =>
          have same : db' = db := by
            rw [Database.claimJob] at claim
            cases oldest : db.oldestPending with
            | none =>
              rw [oldest, Prod.mk.injEq] at claim
              exact claim.1.symm
            | some job => simp [oldest] at claim
          exact .inl ⟨by simp [same], rfl, rfl, by rw [same]⟩
  | load | read | store | group | finish | remove | close | markFailed =>
    exact .inr ⟨rfl, fun idle => absurd idle (by simp)⟩

/-- Without a job to claim no job is pending. -/
theorem not_pending_of_claimJob {db db' : Database} (claim : db.claimJob = (db', none)) :
    ∀ row ∈ db.jobs.rows, row.state ≠ .pending := by
  rw [Database.claimJob] at claim
  cases oldest : db.oldestPending with
  | some job => simp [oldest] at claim
  | none =>
    intro row member isPending
    have inPending : row ∈ db.jobs.rows.filter fun job => job.state = .pending :=
      List.mem_filter.mpr ⟨member, by simpa using isPending⟩
    -- The last of the pending jobs leaves some candidate.
    obtain ⟨init, last, split⟩ := (List.eq_nil_or_concat _).resolve_left (List.ne_nil_of_mem inPending)
    rw [Database.oldestPending, split, List.concat_eq_append, List.foldl_append, List.foldl_cons,
      List.foldl_nil] at oldest
    split at oldest
    · contradiction
    · split_ifs at oldest

variable {setup : Setup} {worker : ℕ} {s s' : Service} {draw : Decode.Draw}

theorem passStep_cases (stepped : passStep setup worker s draw = some s') :
    s' = { s with workers := Function.update s.workers worker none } ∧
        s.workers worker = some .idle ∧ draw.success = true ∧
        (∀ row ∈ s.db.jobs.rows, row.state ≠ .pending) ∨
      step setup s (.work worker draw) = some s' ∧ (s'.workers worker).isSome ∧
        (s.workers worker = some .idle → draw.success = true → s.db.claimJob.2.isSome) := by
  obtain ⟨pc, current, rfl⟩ := Option.map_eq_some_iff.mp stepped
  rcases main_eq_work setup.libs draw s.db s.raw s.decoded pc with
    ⟨returned, rfl, success, claim⟩ | ⟨worked, claimable⟩
  · exact .inl ⟨by rw [returned], current, success, not_pending_of_claimJob claim⟩
  · refine .inr ⟨?_, by simp [worked], fun idle => claimable ?_⟩
    · rw [step, current, Option.map_some, worked, afterWork]
    · rw [current, Option.some.injEq] at idle
      exact idle

/-- A worker that neither rests nor returns works on a job. -/
theorem busy_of_work (stepped : step setup s (.work worker draw) = some s')
    (success : draw.success = true)
    (claimable : s.workers worker = some .idle → draw.success = true → s.db.claimJob.2.isSome) :
    busy s (.work worker draw) s' = true := by
  obtain ⟨pc, current, rfl⟩ := Option.map_eq_some_iff.mp stepped
  cases pc with
  | idle =>
    obtain ⟨row, claim⟩ := Option.isSome_iff_exists.mp (claimable current success)
    have moved : work setup.libs draw s.db s.raw s.decoded .idle =
        (s.db.claimJob.1, s.raw, s.decoded, .load ⟨row.id, row.reportId, row.attempts⟩) := by
      rw [work, if_pos success]
      cases both : s.db.claimJob with
      | mk db' claimed =>
        rw [both] at claim
        rw [show claimed = some row from claim]
    simp [busy, moved, held]
  | load | read | store | group | finish | remove | close | markFailed =>
    simp [busy, current, held]

theorem jobs_length_of_work (stepped : step setup s (.work worker draw) = some s') :
    s'.db.jobs.rows.length = s.db.jobs.rows.length := by
  obtain ⟨pc, current, rfl⟩ := Option.map_eq_some_iff.mp stepped
  have length (db : Database) (id : Text) (state : JobState) (lastError : Option Text) :
      (db.updateJob id state lastError).jobs.rows.length = db.jobs.rows.length := by
    simp [Database.updateJob, Table.update]
  have move := work_moves setup.libs draw s.db s.raw s.decoded pc
  generalize work setup.libs draw s.db s.raw s.decoded pc = result at move
  cases move with
  | rested | loaded | read | stored | finished | removed | keptRaw | gaveUp | leftRunning
  | markedFailed | leftUnmarked => rfl
  | closed => exact length ..
  | grouped _ _ _ upserted =>
    rw [afterWork, (Database.upsertGroup_frame upserted).2]
  | claimed claim =>
    rw [Database.claimJob] at claim
    cases oldest : s.db.oldestPending with
    | none => simp [oldest] at claim
    | some job =>
      rw [oldest, Prod.mk.injEq] at claim
      rw [← claim.1]
      simp [afterWork, Table.update]

/-- Until the pass returns, every draw that succeeds is work on a job. -/
theorem pass_returns_or_works {draws : List Decode.Draw} (there : (s.workers worker).isSome) :
    (∃ first rest t, draws = first ++ rest ∧
        Machine.run (passStep setup worker) s first = some t ∧ t.workers worker = none ∧
        ∀ row ∈ t.db.jobs.rows, row.state ≠ .pending) ∨
      ∃ t, Machine.run (step setup) s (draws.map (.work worker)) = some t ∧
        t.db.jobs.rows.length = s.db.jobs.rows.length ∧
        draws.countP (·.success) ≤
          Machine.count (step setup) busy s (draws.map (.work worker)) := by
  induction draws generalizing s with
  | nil => exact .inr ⟨s, rfl, rfl, Nat.le_refl _⟩
  | cons draw draws ih =>
    obtain ⟨pc, current⟩ := Option.isSome_iff_exists.mp there
    obtain ⟨s', stepped⟩ : ∃ s', passStep setup worker s draw = some s' :=
      ⟨_, by rw [passStep, current]; rfl⟩
    rcases passStep_cases stepped with ⟨rfl, -, -, nothing⟩ | ⟨worked, still, claimable⟩
    · refine .inl ⟨[draw], draws, _, rfl, Machine.run_cons.mpr ⟨_, stepped, rfl⟩, ?_, nothing⟩
      exact Function.update_self ..
    · rcases ih still with ⟨first, rest, t, rfl, reached, returned, nothing⟩ | ⟨t, reached, length, bound⟩
      · exact .inl ⟨draw :: first, rest, t, rfl, Machine.run_cons.mpr ⟨s', stepped, reached⟩,
          returned, nothing⟩
      · refine .inr ⟨t, Machine.run_cons.mpr ⟨s', worked, reached⟩,
          length.trans (jobs_length_of_work worked), ?_⟩
        rw [List.map_cons, Machine.count, worked, List.countP_cons]
        dsimp only
        split_ifs with success isBusy
        · omega
        · exact absurd (busy_of_work worked success claimable) isBusy
        · omega
        · omega

/-- Whatever state the service is in and whatever fails, a decoder that runs for one pass while nobody
else moves has returned, and has left no job pending, when more of its steps than twenty-five for
each job have not failed. -/
theorem pass_returns_of_run (setup : Setup) {actions : List Action} {s : Service} {worker : ℕ}
    (reached : Machine.run (step setup) {} actions = some s) (there : (s.workers worker).isSome)
    {draws : List Decode.Draw} (enough : 25 * s.db.jobs.rows.length < draws.countP (·.success)) :
    ∃ first rest t, draws = first ++ rest ∧
      Machine.run (passStep setup worker) s first = some t ∧ t.workers worker = none ∧
      ∀ row ∈ t.db.jobs.rows, row.state ≠ .pending := by
  rcases pass_returns_or_works there with returned | ⟨t, worked, length, bound⟩
  · exact returned
  · have all : Machine.count (step setup) busy {} (actions ++ draws.map (Action.work worker)) ≤
        25 * t.db.jobs.rows.length :=
      busy_bounded ((Machine.hosts_self (step setup)).mono fun s s' same => same ▸ ⟨rfl, rfl⟩) rfl
        (Machine.run_append.mpr ⟨s, reached, worked⟩)
    rw [Machine.count_append reached, length] at all
    omega

/-- A claim, a file operation and a statement fail. -/
def demoFaults : List Decode.Draw :=
  { success := false } :: {} :: {} :: { success := false } :: {} :: { success := false } ::
    List.replicate 25 {}

theorem pass_with_faults :
    ∃ s, Machine.run (step demoSetup) {} (demoUpload 0 ++ [.start 0]) = some s ∧
      ∃ first rest t, demoFaults = first ++ rest ∧
        Machine.run (passStep demoSetup 0) s first = some t ∧ t.workers 0 = none ∧
        ∀ row ∈ t.db.jobs.rows, row.state ≠ .pending := by
  have start : (Machine.run (step demoSetup) {} (demoUpload 0 ++ [.start 0])).any (fun s =>
      s.db.jobs.rows.length = 1 && (s.workers 0).isSome) = true := by decide +kernel
  obtain ⟨s, reached, holds⟩ := (Option.any_eq_true _ _).mp start
  simp only [Bool.and_eq_true, decide_eq_true_eq] at holds
  exact ⟨s, reached, pass_returns_of_run demoSetup reached holds.2 (by rw [holds.1]; decide)⟩

end UcrashReport.Service
