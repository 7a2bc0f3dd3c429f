import UcrashReport.Soundness.JobLedger
import UcrashReport.Soundness.PortalSteps

/-! # How much work a job is

An attempt at a job is eight steps of a worker at most, from the claim to the statement that closes
the job, and there are three attempts at most; the third one that fails is followed by one more step.
This bounds the work of all workers together by the number of jobs, whatever fails, however often
workers stop and start, and whatever else the server does in between.
-/

namespace UcrashReport.Service

open Rust Rust.Text Store Api Decode

/-! ## The steps of one job -/

/-- How many steps the worker still takes at most in this attempt. -/
def workLeft : Worker → ℕ
  | .idle => 0
  | .load _ => 7
  | .read _ _ => 6
  | .store _ _ _ _ => 5
  | .group _ _ _ => 4
  | .finish _ _ _ => 3
  | .remove _ _ => 2
  | .close _ _ => 1
  | .markFailed _ => 1

/-- The worker that steps has the job in hand. -/
def goesOn (jobId : Text) (s : Service) : Action → Bool
  | .work worker _ => ((s.workers worker).bind held).any fun inHand => inHand.1.id = jobId
  | _ => false

/-- The step claims the job or goes on with it. -/
def worksOn (jobId : Text) (s : Service) (action : Action) (s' : Service) : Bool :=
  claims jobId s action s' || goesOn jobId s action

theorem goesOn_eq_true {jobId : Text} {s : Service} {action : Action} :
    goesOn jobId s action = true ↔ ∃ worker draw pc job closed, action = .work worker draw ∧
      s.workers worker = some pc ∧ held pc = some (job, closed) ∧ job.id = jobId := by
  constructor
  · intro goes
    cases action with
    | work worker draw =>
      rw [goesOn, Option.any_eq_true] at goes
      obtain ⟨⟨job, closed⟩, inHand, same⟩ := goes
      obtain ⟨pc, current, holds⟩ := Option.bind_eq_some_iff.mp inHand
      exact ⟨worker, draw, pc, job, closed, rfl, current, holds, by simpa using same⟩
    | request | upload | abandon | start | stop | sweep | collect | halt => contradiction
  · rintro ⟨worker, draw, pc, job, closed, rfl, current, holds, same⟩
    simp [goesOn, current, holds, same]

theorem claiming_of_claims {jobId : Text} {s s' : Service} {action : Action}
    (claimed : claims jobId s action s' = true) :
    ∃ worker draw job, action = .work worker draw ∧ s'.workers worker = some (.load job) ∧
      job.id = jobId := by
  unfold claims at claimed
  split at claimed
  · next worker draw =>
    split at claimed
    · next job before after => exact ⟨worker, draw, job, rfl, after, by simpa using claimed⟩
    · contradiction
  · contradiction

theorem pending_of_claims {setup : Setup} {jobId : Text} {s s' : Service} {action : Action}
    (ledger : Ledger s.db.jobs s.workers) (stepped : step setup s action = some s')
    (claimed : claims jobId s action s' = true) :
    ∃ row, s.db.jobs.find? jobId = some row ∧ row.state = .pending := by
  cases found : s.db.jobs.find? jobId with
  | none =>
    obtain ⟨unclaimed, -⟩ := new_row_of_step stepped found
    rw [unclaimed] at claimed
    contradiction
  | some row =>
    obtain ⟨-, rfl⟩ := Table.find?_eq_some_iff.mp found
    obtain ⟨row', -, moved⟩ := rowStep_of_step ledger stepped found
    cases moved with
    | kept unclaimed | closed _ _ _ _ unclaimed =>
      rw [unclaimed] at claimed
      contradiction
    | claimed pending => exact ⟨row, rfl, pending⟩

/-! ## What is left of a job -/

/-- So many steps have been taken for the job: eight in every attempt before this one at most. -/
structure Budget (jobId : Text) (s : Service) (n : ℕ) : Prop where
  unknown : s.db.jobs.find? jobId = none → n = 0
  waiting : ∀ row, s.db.jobs.find? jobId = some row → row.state = .pending → n ≤ 8 * row.attempts
  inHand : ∀ worker pc job closed, s.workers worker = some pc → held pc = some (job, closed) →
    job.id = jobId → n + workLeft pc ≤ 8 * job.attempts + if closed then 1 else 0
  atMost : n ≤ 25

theorem Budget.empty (jobId : Text) : Budget jobId {} 0 where
  unknown _ := rfl
  waiting _ found := by simp at found
  inHand _ _ _ _ none := by simp at none
  atMost := by omega

theorem workLeft_pos {pc : Worker} {inHand : Job × Bool} (holds : held pc = some inHand) :
    0 < workLeft pc := by
  cases pc with
  | idle => contradiction
  | load | read | store | group | finish | remove | close | markFailed => simp [workLeft]

/-- Between the claim and the closing statement a step goes on with the job and leaves less to do. -/
theorem workLeft_of_work {libs : Libraries} {draw : Decode.Draw} {db : Database} {raw decoded : Files}
    {pc : Worker} {result : Database × Files × Files × Worker}
    (move : WorkMove libs draw db raw decoded pc result) {job : Job} {closed : Bool}
    (holds : held result.2.2.2 = some (job, closed)) :
    (pc = .idle ∧ ∃ db' row, db.claimJob = (db', some row) ∧ job = ⟨row.id, row.reportId, row.attempts⟩ ∧
        result.2.2.2 = .load job ∧ closed = false) ∨
      ∃ closed₀, held pc = some (job, closed₀) ∧
        (closed₀ = closed ∧ workLeft result.2.2.2 < workLeft pc ∨
          closed₀ = false ∧ closed = true ∧ workLeft result.2.2.2 = 1 ∧ workLeft pc = 1) := by
  cases move with
  | rested | markedFailed | leftUnmarked => contradiction
  | claimed claim =>
    rw [held, Option.some.injEq, Prod.mk.injEq] at holds
    obtain ⟨rfl, rfl⟩ := holds
    exact .inl ⟨rfl, _, _, claim, rfl, rfl, rfl⟩
  | loaded | read | stored | grouped | finished | removed | keptRaw =>
    rw [held, Option.some.injEq, Prod.mk.injEq] at holds
    obtain ⟨rfl, rfl⟩ := holds
    exact .inr ⟨false, rfl, .inl ⟨rfl, by simp [workLeft]⟩⟩
  | @gaveUp pc job' busy early opened =>
    rw [held, Option.some.injEq, Prod.mk.injEq] at holds
    obtain ⟨rfl, rfl⟩ := holds
    refine .inr ⟨false, held_of_job busy, .inl ⟨rfl, ?_⟩⟩
    cases pc with
    | idle | markFailed => contradiction
    | close job outcome =>
      exact absurd (congrArg (Worker.close · outcome) (Option.some.inj busy)) (opened outcome)
    | load | read | store | group | finish | remove => simp [workLeft]
  | closed job' outcome | leftRunning job' outcome =>
    obtain ⟨rfl, rfl, last, -⟩ := held_afterClose holds
    refine .inr ⟨false, rfl, .inr ⟨rfl, rfl, ?_, rfl⟩⟩
    cases outcome with
    | ok => contradiction
    | error e => simp [Job.afterClose, last, workLeft]

section Step

variable {setup : Setup} {s s' : Service} {action : Action} {jobId : Text} {n : ℕ}
  (budget : Budget jobId s n) (ledger : Ledger s.db.jobs s.workers)
  (stepped : step setup s action = some s')

include ledger in
/-- A job that waits is in nobody's hands. -/
theorem goesOn_of_pending {row : JobRow} (found : s.db.jobs.find? jobId = some row)
    (pending : row.state = .pending) : goesOn jobId s action = false := by
  rw [Bool.eq_false_iff]
  intro goes
  obtain ⟨worker, draw, pc, job, closed, rfl, current, holds, rfl⟩ := goesOn_eq_true.mp goes
  obtain ⟨-, same⟩ := Table.find?_eq_some_iff.mp found
  exact ledger.not_held_of_pending (same ▸ found) pending current holds same.symm

include ledger in
theorem goesOn_of_absent (absent : s.db.jobs.find? jobId = none) : goesOn jobId s action = false := by
  rw [Bool.eq_false_iff]
  intro goes
  obtain ⟨worker, draw, pc, job, closed, rfl, current, holds, rfl⟩ := goesOn_eq_true.mp goes
  obtain ⟨row, found, -⟩ := ledger.backed worker pc job closed current holds
  rw [absent] at found
  contradiction

include budget ledger stepped in
theorem waiting_of_step {row' : JobRow} (found' : s'.db.jobs.find? jobId = some row')
    (pending' : row'.state = .pending) :
    (n + if worksOn jobId s action s' then 1 else 0 : ℕ) ≤ 8 * row'.attempts := by
  cases found : s.db.jobs.find? jobId with
  | none =>
    obtain ⟨unclaimed, new⟩ := new_row_of_step stepped found
    obtain ⟨-, -, -, -, -, -, -, rfl⟩ := new row' found'
    simp [worksOn, unclaimed, goesOn_of_absent ledger found, budget.unknown found]
  | some row =>
    obtain ⟨-, same⟩ := Table.find?_eq_some_iff.mp found
    subst same
    obtain ⟨after, foundAfter, moved⟩ := rowStep_of_step ledger stepped found
    rw [found', Option.some.injEq] at foundAfter
    subst foundAfter
    cases moved with
    | kept unclaimed =>
      have still : goesOn row'.id s action = false :=
        goesOn_of_pending ledger found pending'
      simpa [worksOn, unclaimed, still] using budget.waiting _ found pending'
    | claimed => contradiction
    | @closed worker draw job outcome current same backed lastError unclaimed =>
      have bound := budget.inHand worker _ job false current rfl same
      have attempts := backed.attempts
      dsimp only
      split_ifs <;> simp only [workLeft, Bool.false_eq_true, if_false] at bound <;> omega

include budget ledger stepped in
theorem inHand_of_step {worker : ℕ} {pc' : Worker} {job : Job} {closed : Bool}
    (current' : s'.workers worker = some pc') (holds : held pc' = some (job, closed))
    (same : job.id = jobId) :
    (n + if worksOn jobId s action s' then 1 else 0 : ℕ) + workLeft pc' ≤
      8 * job.attempts + if closed then 1 else 0 := by
  have once : (if worksOn jobId s action s' then 1 else 0 : ℕ) ≤ 1 := by split_ifs <;> omega
  rcases worker_before_step stepped current' with
    ⟨current, other⟩ | rfl | ⟨draw, pc, db, raw, decoded, rfl, current, move, rfl⟩
  · have bound := budget.inHand worker pc' job closed current holds same
    -- Nobody else takes a step for the job.
    have untouched : worksOn jobId s action s' = false := by
      have ledger' := ledger_of_step ledger stepped
      rw [Bool.eq_false_iff]
      intro works
      rw [worksOn, Bool.or_eq_true] at works
      rcases works with claimed | goes
      · obtain ⟨worker', draw, job', rfl, claiming, sameId⟩ := claiming_of_claims claimed
        obtain rfl := ledger'.exclusive worker pc' job closed worker' _ job' false current' holds
          claiming rfl (same.trans sameId.symm)
        exact other draw rfl
      · obtain ⟨worker', draw, pc, job', closed', rfl, current₀, holds', sameId⟩ :=
          goesOn_eq_true.mp goes
        obtain rfl := ledger.exclusive worker pc' job closed worker' pc job' closed' current holds
          current₀ holds' (same.trans sameId.symm)
        exact other draw rfl
    simpa [untouched] using bound
  · contradiction
  · rcases workLeft_of_work move holds with
      ⟨rfl, db', row, claim, rfl, loading, rfl⟩ | ⟨closed₀, before, less⟩
    · obtain ⟨-, ⟨old, member, pending, new⟩, -⟩ := Database.claimJob_spec claim
      have found : s.db.jobs.find? jobId = some old :=
        Table.find?_eq_some_iff.mpr ⟨member, by rw [← same, new]⟩
      have bound := budget.waiting old found pending
      have attempts : row.attempts = old.attempts + 1 := by rw [new]
      have left : workLeft pc' = 7 := by rw [show pc' = .load _ from loading]; rfl
      rw [left, attempts]
      simp only [Bool.false_eq_true, if_false]
      omega
    · have bound := budget.inHand worker pc job closed₀ current before same
      dsimp only at less ⊢
      rcases less with ⟨rfl, less⟩ | ⟨rfl, rfl, last, one⟩
      · omega
      · simp only [Bool.false_eq_true, if_false] at bound
        rw [if_pos rfl]
        omega

include budget ledger stepped in
theorem atMost_of_step : (n + if worksOn jobId s action s' then 1 else 0) ≤ 25 := by
  split_ifs with works
  · rw [worksOn, Bool.or_eq_true] at works
    rcases works with claimed | goes
    · obtain ⟨row, found, pending⟩ := pending_of_claims ledger stepped claimed
      have bound := budget.waiting row found pending
      have few := (ledger.bounded _ _ found).pending pending
      rw [maxAttempts] at few
      omega
    · obtain ⟨worker, draw, pc, job, closed, rfl, current, holds, same⟩ := goesOn_eq_true.mp goes
      have bound := budget.inHand worker pc job closed current holds same
      obtain ⟨row, found, backed⟩ := ledger.backed worker pc job closed current holds
      have few := (ledger.bounded _ _ found).attempts
      have left := workLeft_pos holds
      rw [backed.attempts, maxAttempts] at few
      split_ifs at bound <;> omega
  · exact budget.atMost

include budget ledger stepped in
theorem budget_of_step : Budget jobId s' (n + if worksOn jobId s action s' then 1 else 0) where
  unknown absent' := by
    cases found : s.db.jobs.find? jobId with
    | none =>
      obtain ⟨unclaimed, -⟩ := new_row_of_step stepped found
      simp [worksOn, unclaimed, goesOn_of_absent ledger found, budget.unknown found]
    | some row =>
      obtain ⟨-, rfl⟩ := Table.find?_eq_some_iff.mp found
      obtain ⟨after, found', -⟩ := rowStep_of_step ledger stepped found
      rw [absent'] at found'
      contradiction
  waiting row' found' pending' := waiting_of_step budget ledger stepped found' pending'
  inHand worker pc' job closed current' holds same :=
    inHand_of_step budget ledger stepped current' holds same
  atMost := atMost_of_step budget ledger stepped

end Step

/-! ## All the work -/

/-- A worker takes a step that is not a rest. -/
def busy (s : Service) (action : Action) (s' : Service) : Bool :=
  match action with
  | .work worker _ =>
    ((s.workers worker).bind held).isSome || ((s'.workers worker).bind held).isSome
  | _ => false

theorem worksOn_of_busy {setup : Setup} {s s' : Service} {action : Action}
    (ledger : Ledger s.db.jobs s.workers) (stepped : step setup s action = some s')
    (isBusy : busy s action s' = true) :
    ∃ id, (s.db.jobs.find? id).isSome ∧ worksOn id s action s' = true := by
  cases action with
  | work worker draw =>
    rw [busy, Bool.or_eq_true] at isBusy
    by_cases idle : ((s.workers worker).bind held).isSome
    · obtain ⟨⟨job, closed⟩, inHand⟩ := Option.isSome_iff_exists.mp idle
      obtain ⟨pc, current, holds⟩ := Option.bind_eq_some_iff.mp inHand
      obtain ⟨row, found, -⟩ := ledger.backed worker pc job closed current holds
      refine ⟨job.id, by rw [found]; rfl, ?_⟩
      rw [worksOn, Bool.or_eq_true]
      exact .inr (goesOn_eq_true.mpr ⟨worker, draw, pc, job, closed, rfl, current, holds, rfl⟩)
    · obtain ⟨⟨job, closed⟩, inHand⟩ := Option.isSome_iff_exists.mp (isBusy.resolve_left idle)
      obtain ⟨pc', current', holds⟩ := Option.bind_eq_some_iff.mp inHand
      rcases worker_before_step stepped current' with
        ⟨-, other⟩ | rfl | ⟨draw, pc, db, raw, decoded, -, current, move, rfl⟩
      · exact absurd rfl (other draw)
      · contradiction
      · rcases workLeft_of_work move holds with ⟨rfl, db', row, claim, rfl, rfl, -⟩ | ⟨closed₀, before, -⟩
        · obtain ⟨-, ⟨old, member, pending, new⟩, -⟩ := Database.claimJob_spec claim
          have found : s.db.jobs.find? row.id = some old :=
            Table.find?_eq_some_iff.mpr ⟨member, by rw [new]⟩
          refine ⟨row.id, by rw [found]; rfl, ?_⟩
          simp [worksOn, claims, current]
        · exact absurd (by simp [current, before]) idle
  | request | upload | abandon | start | stop | sweep | collect | halt => contradiction

/-- Neither the jobs nor the workers change. -/
structure SameWork (s s' : Service) : Prop where
  jobs : s'.db.jobs = s.db.jobs
  workers : s'.workers = s.workers

theorem ledger_of_sameWork {s s' : Service} (ledger : Ledger s.db.jobs s.workers)
    (same : SameWork s s') : Ledger s'.db.jobs s'.workers := by
  rw [same.jobs, same.workers]
  exact ledger

theorem Budget.congr {jobId : Text} {s s' : Service} {n : ℕ} (budget : Budget jobId s n)
    (same : SameWork s s') : Budget jobId s' n where
  unknown absent := budget.unknown (same.jobs ▸ absent)
  waiting row found pending := budget.waiting row (same.jobs ▸ found) pending
  inHand worker pc job closed current holds :=
    budget.inHand worker pc job closed (same.workers ▸ current) holds
  atMost := budget.atMost

section Hosted

open Machine

variable {τ β : Type*} {outer : τ → β → Option τ} {setup : Setup} {view : τ → Service}
  {label : β → Option Action} (hosts : Hosts outer (step setup) view label SameWork)

include hosts

theorem job_isSome_of_hosted_run {t t' : τ} {labels : List β}
    (ledger : Ledger (view t).db.jobs (view t).workers) (reached : run outer t labels = some t')
    {id : Text} (there : ((view t).db.jobs.find? id).isSome) :
    ((view t').db.jobs.find? id).isSome := by
  have invariant := hosts.invariant_of_run
    (I := fun s => Ledger s.db.jobs s.workers ∧ (s.db.jobs.find? id).isSome)
    (fun s action s' invariant (stepped : step setup s action = some s') => by
      obtain ⟨ledger, there⟩ := invariant
      obtain ⟨row, found⟩ := Option.isSome_iff_exists.mp there
      obtain ⟨-, rfl⟩ := Table.find?_eq_some_iff.mp found
      obtain ⟨row', found', -⟩ := rowStep_of_step ledger stepped found
      exact ⟨ledger_of_step ledger stepped, by rw [found']; rfl⟩)
    (fun s s' invariant same => ⟨ledger_of_sameWork invariant.1 same, same.jobs ▸ invariant.2⟩)
    ⟨ledger, there⟩ reached
  exact invariant.2

theorem worksOn_bounded {t t' : τ} {labels : List β} (start : view t = {})
    (reached : run outer t labels = some t') (id : Text) :
    count outer (withinKind view label (worksOn id)) t labels ≤ 25 := by
  have invariant := hosts.counted_invariant_of_run (worksOn id) (n := 0)
    (I := fun s n => Ledger s.db.jobs s.workers ∧ Budget id s n)
    (fun s a s' n invariant (stepped : step setup s a = some s') =>
      ⟨ledger_of_step invariant.1 stepped, budget_of_step invariant.2 invariant.1 stepped⟩)
    (fun s s' n invariant same => ⟨ledger_of_sameWork invariant.1 same, invariant.2.congr same⟩)
    (start ▸ ⟨Ledger.empty, .empty id⟩) reached
  simpa using invariant.2.atMost

theorem busy_bounded {t t' : τ} {labels : List β} (start : view t = {})
    (reached : run outer t labels = some t') :
    count outer (withinKind view label busy) t labels ≤ 25 * (view t').db.jobs.rows.length := by
  have total : count outer (withinKind view label busy) t labels ≤
      (((view t').db.jobs.rows.map (·.id)).map fun id =>
        count outer (withinKind view label (worksOn id)) t labels).sum := count_le_sum
    (I := fun t => Ledger (view t).db.jobs (view t).workers)
    (fun _ _ _ ledger stepped => hosts.preserved
      (fun _ _ _ ledger taken => ledger_of_step ledger taken)
      (fun _ _ ledger same => ledger_of_sameWork ledger same) ledger stepped)
    (fun t₁ b t₂ rest ledger stepped later isBusy => by
      rcases hosts t₁ b t₂ stepped with ⟨a, labelled, taken⟩ | ⟨unlabelled, -⟩
      · rw [withinKind_of_label labelled] at isBusy
        obtain ⟨id, there, works⟩ := worksOn_of_busy ledger taken isBusy
        obtain ⟨row, found⟩ := Option.isSome_iff_exists.mp (job_isSome_of_hosted_run hosts ledger
          (run_cons.mpr ⟨t₂, stepped, later⟩) there)
        obtain ⟨member, same⟩ := Table.find?_eq_some_iff.mp found
        refine ⟨id, List.mem_map.mpr ⟨row, member, same⟩, ?_⟩
        rw [withinKind_of_label labelled, works]
      · rw [withinKind_of_none unlabelled] at isBusy
        contradiction)
    (start ▸ Ledger.empty) reached
  refine total.trans ?_
  have most := List.sum_le_card_nsmul
    (((view t').db.jobs.rows.map (·.id)).map fun id =>
      count outer (withinKind view label (worksOn id)) t labels) 25
    (fun n member => by
      obtain ⟨id, -, rfl⟩ := List.mem_map.mp member
      exact worksOn_bounded hosts start reached id)
  simpa [Nat.mul_comm] using most

end Hosted

/-- An attempt that fails only when the raw payload cannot be deleted. -/
def demoAttempt (worker : ℕ) : List Action :=
  [.work worker {}, .work worker {}, .work worker {}, .work worker {},
    .work worker { newId := "g1".toList }, .work worker {}, .work worker { success := false },
    .work worker {}]

end UcrashReport.Service

namespace UcrashReport.Portal

open Rust Rust.Text Machine

/-- A worker of the server claims the job or goes on with it. -/
def worksOn (jobId : Text) : Portal → Action → Portal → Bool :=
  withinKind service served (Service.worksOn jobId)

/-- A worker of the server takes a step that is not a rest. -/
def busy : Portal → Action → Portal → Bool := withinKind service served Service.busy

/-- In every run of the server all workers together take twenty-five steps for each job at most, and no
more than that for any one of them, whatever fails, however often workers stop and start again, and
whoever uploads, logs in and publishes in between. -/
theorem work_bounded (i : Installation) {actions : List Action} {p : Portal}
    (reached : run (step i) {} actions = some p) :
    (∀ id, count (step i) (worksOn id) {} actions ≤ 25) ∧
      count (step i) busy {} actions ≤ 25 * p.db.jobs.rows.length := by
  have hosts : Hosts (step i) (Service.step i.setup) service served Service.SameWork :=
    (hosts_service i).mono fun _ _ beside => ⟨beside.jobs, beside.workers⟩
  exact ⟨Service.worksOn_bounded hosts rfl reached, Service.busy_bounded hosts rfl reached⟩

/-- The device publishes its report; then the three attempts at its job fail as late as they can, and
the report is taken back before the step that follows. -/
def demoLongest : List Action :=
  demoPublication ++
    ((.start 0 :: Service.demoAttempt 0 ++ Service.demoAttempt 0 ++ Service.demoAttempt 0).map
      fun action : Service.Action => .device (.serve action)) ++
    [.askBearer 0 (some "Bearer t".toList) "u1".toList false, .statement 0 { now := 60 },
      .statement 0 {}, .statement 0 {}, .statement 0 {}, .device (.serve (.work 0 {}))]

theorem longest_job :
    ∃ p, run (step demoInstallation) {} demoLongest = some p ∧
      count (step demoInstallation) busy {} demoLongest = 25 ∧ p.db.jobs.rows.length = 1 ∧
      count (step demoInstallation) (worksOn "j1".toList) {} demoLongest ≤ 25 ∧
      25 ≤ 25 * p.db.jobs.rows.length := by
  have all : (run (step demoInstallation) {} demoLongest).map (fun p => p.db.jobs.rows.length) =
      some 1 ∧ count (step demoInstallation) busy {} demoLongest = 25 := by decide +kernel
  obtain ⟨p, reached, one⟩ := Option.map_eq_some_iff.mp all.1
  obtain ⟨each, total⟩ := work_bounded demoInstallation reached
  exact ⟨p, reached, all.2, one, each _, all.2 ▸ total⟩

end UcrashReport.Portal
