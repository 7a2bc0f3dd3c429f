import UcrashReport.Soundness.DecodedReports
import UcrashReport.Soundness.OwnPayloads

/-! # No crash data is lost

The raw payload of a report goes only when its text is stored and its row says decoded, or when the
collector has found the report failed and old. In both cases nobody will decode the report again: its
job waits no more, and who still has it only has to close it. So what is stored stays stored.
-/

namespace UcrashReport.Service

open Rust Rust.Text Store Api Decode History

/-! ## Reports that nobody will decode again -/

/-- The job of the report waits no more, and whoever has it has only to close it as done. -/
def Settled (s : Service) (id : Text) : Prop :=
  ∃ row, s.db.jobs.find? row.id = some row ∧ row.reportId = id ∧ row.state ≠ .pending ∧
    ∀ worker pc job closed, s.workers worker = some pc → held pc = some (job, closed) →
      job.reportId = id → ∃ groupId, pc = .close job (.ok groupId)

theorem not_pending_of_step {setup : Setup} {s s' : Service} {action : Action}
    (order : InOrder s) (stepped : Service.step setup s action = some s') {row : JobRow}
    (found : s.db.jobs.find? row.id = some row) (state : row.state ≠ .pending)
    (done : ∀ worker job outcome, s.workers worker = some (.close job outcome) →
      job.reportId = row.reportId → ∃ groupId, outcome = .ok groupId) :
    ∃ row', s'.db.jobs.find? row'.id = some row' ∧ row'.reportId = row.reportId ∧
      row'.state ≠ .pending := by
  obtain ⟨row', found', moved⟩ := rowStep_of_step order.ledger stepped found
  obtain ⟨-, sameId⟩ := Table.find?_eq_some_iff.mp found'
  refine ⟨row', sameId ▸ found', moved.reportId, ?_⟩
  cases moved with
  | kept => exact state
  | claimed pending => exact absurd pending state
  | @closed worker draw job outcome current same backed =>
    obtain ⟨groupId, rfl⟩ := done worker job outcome current backed.reportId.symm
    simp [Job.closedState]

theorem settled_of_step {setup : Setup} {s s' : Service} {action : Action} {id : Text}
    (settled : Settled s id) (order : InOrder s)
    (stepped : Service.step setup s action = some s') : Settled s' id := by
  obtain ⟨row, found, same, state, holders⟩ := settled
  obtain ⟨row', found', same', state'⟩ := not_pending_of_step order stepped found state
    fun worker job outcome current sameReport => by
      obtain ⟨groupId, closing⟩ := holders worker _ job false current rfl (sameReport.trans same)
      exact ⟨groupId, (Worker.close.inj closing).2⟩
  refine ⟨row', found', same'.trans same, state', fun worker pc' job closed current' holds sameJob => ?_⟩
  rcases worker_before_step stepped current' with
    ⟨current, -⟩ | rfl | ⟨draw, pc, db, raw, decoded, rfl, current, move, rfl⟩
  · exact holders worker pc' job closed current holds sameJob
  · contradiction
  -- A worker that has taken a step had no job of the report that it could go on with.
  · have impossible (before : held pc = some (job, closed)) (notClose : ∀ outcome, pc ≠ .close job outcome) :
        False := by
      obtain ⟨groupId, closing⟩ := holders worker pc job closed current before sameJob
      exact notClose _ closing
    cases move with
    | rested => contradiction
    | @claimed db' new claim =>
      obtain ⟨-, ⟨old, member, pending, new_eq⟩, -⟩ := Database.claimJob_spec claim
      rw [held, Option.some.injEq, Prod.mk.injEq] at holds
      have sameReport : old.reportId = row.reportId := by
        rw [same, ← sameJob, ← holds.1, new_eq]
      have foundOld : s.db.jobs.find? old.id = some old := Table.find?_eq_some_iff.mpr ⟨member, rfl⟩
      have sameId := order.oneJob.single old.id old row.id row foundOld found sameReport
      rw [sameId, found, Option.some.injEq] at foundOld
      exact absurd (foundOld ▸ pending) state
    | loaded | read | stored | grouped | finished | removed | keptRaw =>
      exact (impossible holds (by simp)).elim
    | gaveUp busy early opened =>
      rw [held, Option.some.injEq, Prod.mk.injEq] at holds
      obtain ⟨rfl, rfl⟩ := holds
      exact (impossible (held_of_job busy) opened).elim
    | closed job' outcome | leftRunning job' outcome =>
      obtain ⟨rfl, -, -, failed⟩ := held_afterClose holds
      obtain ⟨groupId, closing⟩ := holders worker _ job false current rfl sameJob
      rw [(Worker.close.inj closing).2] at failed
      contradiction
    | markedFailed | leftUnmarked => contradiction

/-- A report that is marked failed is not decoded again. -/
def FailedSettled (s : Service) (id : Text) : Prop :=
  ∀ report, s.db.reports.find? id = some report → report.state = .failed → Settled s id

theorem failedSettled_of_step {setup : Setup} {s s' : Service} {action : Action} {id : Text}
    (settled : FailedSettled s id) (order : InOrder s)
    (stepped : Service.step setup s action = some s') : FailedSettled s' id := by
  intro report' found' failed
  rcases report_before_step stepped found' with ⟨report, found, sameId, moved⟩ | ⟨-, new⟩
  · cases moved with
    | kept | swept => exact settled_of_step (settled _ found failed) order stepped
    | decoded => contradiction
    | @failed worker draw job current same success =>
      obtain ⟨row, foundRow, backed⟩ := order.ledger.backed worker _ job true current rfl
      obtain ⟨-, rowId⟩ := Table.find?_eq_some_iff.mp foundRow
      have only {worker' : ℕ} {pc : Worker} {job' : Job} {closed : Bool}
          (current' : s.workers worker' = some pc) (holds : held pc = some (job', closed))
          (sameReport : job.reportId = job'.reportId) : worker = worker' ∧ pc = .markFailed job := by
        obtain rfl := order.same_worker current rfl current' holds sameReport
        exact ⟨rfl, Option.some.inj (current'.symm.trans current)⟩
      have waits : row.state ≠ .pending := by
        intro pending
        rcases backed.state with running | ⟨-, failed⟩
        · simp [pending] at running
        · simp [pending] at failed
      obtain ⟨row', foundRow', same', state'⟩ := not_pending_of_step order stepped
        (rowId ▸ foundRow) waits fun worker' job' outcome closing sameReport => by
          have sameJob := backed.reportId.symm.trans sameReport.symm
          have marking := (only closing rfl sameJob).2
          contradiction
      refine ⟨row', foundRow', same'.trans (backed.reportId.trans (same.trans sameId)), state', ?_⟩
      intro worker' pc' job' closed current' holds sameReport
      rcases worker_before_step stepped current' with
        ⟨before, other⟩ | rfl | ⟨draw', pc, db, raw, decoded, acted, before, move, rfl⟩
      · obtain ⟨rfl, -⟩ := only before holds ((same.trans sameId).trans sameReport.symm)
        exact absurd rfl (other draw)
      · contradiction
      · rw [Action.work.injEq] at acted
        rw [← acted.1, current, Option.some.injEq] at before
        subst before
        cases move with
        | markedFailed | leftUnmarked => contradiction
        | gaveUp busy => contradiction
  · obtain ⟨call, draw, metadata, deviceId, -, -, rfl, -⟩ := new
    contradiction

/-! ## What keeps the data of a report -/

/-- The text that was decoded from the payload is stored. -/
def TextStored (setup : Setup) (s : Service) (id : Text) (payload : Bytes) : Prop :=
  ∃ report symbols text sig, s.db.reports.find? id = some report ∧
    decodeRaw setup.libs symbols report payload = .ok (text, sig) ∧
    s.decoded id = some (utf8Encode text)

/-- The report is marked failed and was received before the time that is kept. -/
def Expired (setup : Setup) (now : ℤ) (s : Service) (id : Text) : Prop :=
  ∃ report, s.db.reports.find? id = some report ∧ report.state = .failed ∧
    report.receivedAt < now - setup.retentionDays * 86400

/-- The reports whose raw payload a collector is going to remove. -/
def sweeping : Collector → List Text
  | .select => []
  | .remove ids | .mark _ ids => ids

/-- What a worker with a job of the report has done so far with its payload. -/
def Working (setup : Setup) (s : Service) (payload : Bytes) : Worker → Prop
  | .store _ report text sig => ∃ symbols, decodeRaw setup.libs symbols report payload = .ok (text, sig)
  | .group job _ _ | .finish job _ _ | .remove job _ => TextStored setup s job.reportId payload
  | _ => True

/-- The raw payload is there, or nobody needs it any more. -/
def Kept (setup : Setup) (now : ℤ) (s : Service) (id : Text) (payload : Bytes) : Prop :=
  s.raw id = some payload ∨
    Settled s id ∧ (TextStored setup s id payload ∧ IsDecoded s.db id ∨ Expired setup now s id)

/-- What holds of all reports, whatever becomes of their payloads. -/
structure Accounts (setup : Setup) (now : ℤ) (s : Service) : Prop where
  order : InOrder s
  rows : LoadedRows s
  done : DoneDecoded s
  failures : ∀ id, FailedSettled s id
  sweeping : ∀ collector pc, s.collectors collector = some pc → ∀ id ∈ sweeping pc,
    Expired setup now s id

structure Keeping (setup : Setup) (now : ℤ) (id : Text) (payload : Bytes) (s : Service) : Prop where
  accounts : Accounts setup now s
  working : ∀ worker pc job, s.workers worker = some pc → pc.job = some job → job.reportId = id →
    Working setup s payload pc
  kept : Kept setup now s id payload

theorem Accounts.empty (setup : Setup) (now : ℤ) : Accounts setup now {} where
  order := .empty
  rows _ _ _ _ none := by simp at none
  done := ⟨fun _ _ found => by simp at found, fun _ _ _ none => by simp at none⟩
  failures _ _ found := by simp at found
  sweeping _ _ none := by simp at none

/-! ## Steps -/

theorem decodeRaw_of_inserted (libs : Libraries) (symbols : Option Annotate.Resolver)
    {report report' : ReportRow} (same : report'.inserted = report.inserted) :
    decodeRaw libs symbols report' = decodeRaw libs symbols report := by
  have inserted (row : ReportRow) :
      decodeRaw libs symbols row = decodeRaw libs symbols row.inserted := rfl
  rw [inserted report', same, ← inserted]

/-- A stored text stays unless a worker writes the text of the same report. -/
theorem textStored_of_step {setup : Setup} {s s' : Service} {action : Action} {id : Text}
    {payload : Bytes} (stored : TextStored setup s id payload)
    (stepped : step setup s action = some s')
    (unwritten : ∀ worker draw job report text sig, action = .work worker draw →
      s.workers worker = some (.store job report text sig) → job.reportId ≠ id) :
    TextStored setup s' id payload := by
  obtain ⟨report, symbols, text, sig, found, decodes, there⟩ := stored
  obtain ⟨-, rfl⟩ := Table.find?_eq_some_iff.mp found
  obtain ⟨report', found', moved⟩ := reportStep_of_step stepped found
  refine ⟨report', symbols, text, sig, found', ?_, ?_⟩
  · rw [decodeRaw_of_inserted setup.libs symbols (inserted_of_reportStep moved)]
    exact decodes
  · rcases decoded_after_step stepped report.id with
      same | ⟨worker, draw, job, _, _, _, acted, current, same, -⟩
    · rw [same, there]
    · exact absurd same (unwritten worker draw job _ _ _ acted current)

/-- A worker with a job of a settled report has only to close it. -/
theorem Settled.closing {s : Service} {id : Text} (settled : Settled s id) {worker : ℕ} {pc : Worker}
    {job : Job} {closed : Bool} (current : s.workers worker = some pc)
    (holds : held pc = some (job, closed)) (same : job.reportId = id) :
    ∃ groupId, pc = .close job (.ok groupId) := by
  obtain ⟨row, -, -, -, holders⟩ := settled
  exact holders worker pc job closed current holds same

theorem expired_of_step {setup : Setup} {now : ℤ} {s s' : Service} {action : Action} {id : Text}
    (expired : Expired setup now s id) (accounts : Accounts setup now s)
    (stepped : step setup s action = some s') : Expired setup now s' id := by
  obtain ⟨report, found, failed, old⟩ := expired
  have settled := accounts.failures id report found failed
  obtain ⟨-, rfl⟩ := Table.find?_eq_some_iff.mp found
  obtain ⟨report', found', moved⟩ := reportStep_of_step stepped found
  refine ⟨report', found', ?_⟩
  cases moved with
  | kept | swept => exact ⟨failed, old⟩
  | failed => exact ⟨rfl, old⟩
  | decoded finishing same =>
    obtain ⟨groupId, closing⟩ := settled.closing finishing rfl same
    contradiction

/-- No collector reads a time after this one. -/
def ReadBy (now : ℤ) (action : Action) : Prop :=
  ∀ collector draw, action = .collect collector draw → draw.now ≤ now

theorem accounts_of_step {setup : Setup} {now : ℤ} {s s' : Service} {action : Action}
    (accounts : Accounts setup now s) (stepped : step setup s action = some s')
    (clock : ReadBy now action) : Accounts setup now s' where
  order := inOrder_of_step accounts.order stepped
  rows := loadedRows_of_step accounts.rows stepped
  done := doneDecoded_of_step accounts.done accounts.order stepped
  failures id := failedSettled_of_step (accounts.failures id) accounts.order stepped
  sweeping collector pc' current' id member := by
    have later {pc : Collector} (current : s.collectors collector = some pc)
        (left : id ∈ sweeping pc) : Expired setup now s' id :=
      expired_of_step (accounts.sweeping collector pc current id left) accounts stepped
    rcases collector_before_step stepped current' with
      current | rfl | ⟨draw, pc, db, raw, rfl, current, move, rfl⟩
    · exact later current member
    · simp [sweeping] at member
    · generalize next_eq : some pc' = next at move
      cases move with
      | selected =>
        obtain rfl := Option.some.inj next_eq
        obtain ⟨report, due, rfl⟩ := List.mem_map.mp member
        simp only [List.mem_filter, Bool.and_eq_true, decide_eq_true_eq] at due
        obtain ⟨inRows, ⟨failed, -⟩, old⟩ := due
        have read := clock collector draw rfl
        exact ⟨report, Table.find?_eq_some_iff.mpr ⟨inRows, rfl⟩, failed, by omega⟩
      | ended => contradiction
      | removed other ids | keptRaw other ids =>
        obtain rfl := Option.some.inj next_eq
        exact later current (List.mem_cons_of_mem other member)
      | marked other ids | unmarked other ids =>
        obtain rfl := Option.some.inj next_eq
        exact later current member

/-- A report whose payload is no longer needed stays so. -/
theorem kept_of_settled {setup : Setup} {now : ℤ} {s s' : Service} {action : Action} {id : Text}
    {payload : Bytes} (accounts : Accounts setup now s) (stepped : step setup s action = some s')
    (settled : Settled s id)
    (isOver : TextStored setup s id payload ∧ IsDecoded s.db id ∨ Expired setup now s id) :
    Kept setup now s' id payload := by
  refine .inr ⟨settled_of_step settled accounts.order stepped, ?_⟩
  rcases isOver with ⟨stored, decoded⟩ | expired
  · left
    refine ⟨textStored_of_step stored stepped ?_, isDecoded_of_step stepped decoded ?_⟩
    · intro worker draw job report text sig acted current same
      obtain ⟨groupId, closing⟩ := settled.closing current rfl same
      contradiction
    · intro worker draw job acted current same
      obtain ⟨groupId, closing⟩ := settled.closing current rfl same
      contradiction
  · exact .inr (expired_of_step expired accounts stepped)

/-- The report is settled when its worker has removed the raw payload. -/
theorem settled_of_removed {setup : Setup} {s s' : Service} {worker : ℕ} {draw : Decode.Draw}
    {job : Job} {groupId : Text} (order : InOrder s)
    (stepped : step setup s (.work worker draw) = some s')
    (closing : s'.workers worker = some (.close job (.ok groupId))) : Settled s' job.reportId := by
  have order' := inOrder_of_step order stepped
  obtain ⟨row, found, backed⟩ := order'.ledger.backed worker _ job false closing rfl
  obtain ⟨-, rowId⟩ := Table.find?_eq_some_iff.mp found
  refine ⟨row, rowId ▸ found, backed.reportId, fun pending => ?_, ?_⟩
  · rcases backed.state with running | ⟨impossible, -⟩
    · simp [pending] at running
    · contradiction
  · intro worker' pc' job' closed current' holds same
    obtain rfl := order'.same_worker closing rfl current' holds same.symm
    rw [closing, Option.some.injEq] at current'
    subst current'
    rw [held, Option.some.injEq, Prod.mk.injEq] at holds
    exact ⟨groupId, holds.1 ▸ rfl⟩

/-- The name of the raw file that the call writes next. -/
def target : Upload → Option Text
  | .write _ _ _ reportId => some reportId
  | .authenticate _ _ | .lookup _ _ _ | .insertReport _ _ _ | .insertJob _ => none

/-- No upload writes the raw file of the id. -/
def Unwritten (id : Text) (s : Service) : Action → Prop
  | .upload call draw => (s.uploads call).bind target = some id → draw.written = .unopened
  | _ => True

instance (id : Text) (s : Service) : ∀ action, Decidable (Unwritten id s action)
  | .upload call draw =>
    inferInstanceAs (Decidable ((s.uploads call).bind target = some id → draw.written = .unopened))
  | .request _ _ _ | .abandon _ | .start _ | .work _ _ | .stop _ | .sweep _ | .collect _ _
  | .halt _ => inferInstanceAs (Decidable True)

theorem kept_of_step {setup : Setup} {now : ℤ} {s s' : Service} {action : Action} {id : Text}
    {payload : Bytes} (keeping : Keeping setup now id payload s) (unwritten : Unwritten id s action)
    (stepped : step setup s action = some s') : Kept setup now s' id payload := by
  have accounts := keeping.accounts
  rcases keeping.kept with there | ⟨settled, isOver⟩
  · cases rawStep_of_step stepped id with
    | kept same => exact .inl (same.trans there)
    | @decoded worker draw job groupId current same closing gone =>
      subst same
      have mover {worker' : ℕ} {draw' : Decode.Draw} {pc : Worker}
          (acted : Action.work worker draw = .work worker' draw')
          (current' : s.workers worker' = some pc) : pc = .remove job groupId := by
        rw [Action.work.injEq] at acted
        rw [← acted.1, current, Option.some.injEq] at current'
        exact current'.symm
      refine .inr ⟨settled_of_removed accounts.order stepped closing, .inl ⟨?_, ?_⟩⟩
      · refine textStored_of_step (keeping.working worker _ job current rfl rfl) stepped ?_
        intro worker' draw' job' report text sig acted storing
        exact nomatch mover acted storing
      · refine isDecoded_of_step stepped
          (accounts.done.inHand worker _ job current ⟨groupId, .inl rfl⟩) ?_
        intro worker' draw' job' acted marking
        exact nomatch mover acted marking
    | @swept collector draw ids current gone =>
      have expired := accounts.sweeping collector _ current id List.mem_cons_self
      have settled : Settled s id := by
        obtain ⟨report, found, failed, -⟩ := expired
        exact accounts.failures id report found failed
      exact kept_of_settled accounts stepped settled (.inr expired)
    | written current opened =>
      exact absurd (unwritten (by rw [current, Option.bind_some, target])) opened
  · exact kept_of_settled accounts stepped settled isOver

theorem working_of_step {setup : Setup} {now : ℤ} {s s' : Service} {action : Action} {id : Text}
    {payload : Bytes} (keeping : Keeping setup now id payload s)
    (stepped : step setup s action = some s') {worker : ℕ} {pc' : Worker} {job : Job}
    (current' : s'.workers worker = some pc') (busy : pc'.job = some job)
    (same : job.reportId = id) : Working setup s' payload pc' := by
  have order := keeping.accounts.order
  -- The text that a worker has stored is not overwritten by a step of its own or of another one.
  have keep {pc : Worker} (current : s.workers worker = some pc) (holds : held pc = some (job, false))
      (notStoring : ∀ report text sig, pc = .store job report text sig →
        ∀ draw, action ≠ .work worker draw)
      (stored : TextStored setup s job.reportId payload) :
      TextStored setup s' job.reportId payload := by
    refine textStored_of_step stored stepped ?_
    intro worker' draw job' report text sig acted storing sameReport
    obtain rfl := order.same_worker current holds storing rfl sameReport.symm
    rw [current, Option.some.injEq] at storing
    subst storing
    rw [held, Option.some.injEq, Prod.mk.injEq] at holds
    exact notStoring report text sig (by rw [holds.1]) draw acted
  rcases worker_before_step stepped current' with
    ⟨current, other⟩ | rfl | ⟨draw, pc, db, raw, decoded, rfl, current, move, rfl⟩
  · have before := keeping.working worker pc' job current busy same
    have holds := held_of_job busy
    cases pc' with
    | group | finish | remove =>
      obtain rfl := Option.some.inj busy
      exact keep current holds (fun _ _ _ _ => other) before
    | idle | load | read | store | close | markFailed => exact before
  · contradiction
  · cases move with
    | read job' report found decodes =>
      obtain rfl := Option.some.inj busy
      rcases keeping.kept with there | ⟨settled, -⟩
      · rw [same, there, Option.some.injEq] at found
        exact ⟨draw.symbols, found ▸ decodes⟩
      · obtain ⟨groupId, closing⟩ := settled.closing current rfl same
        contradiction
    | stored job' report text sig =>
      obtain rfl := Option.some.inj busy
      obtain ⟨symbols, decodes⟩ := keeping.working worker _ _ current rfl same
      obtain ⟨row, found, sameRow⟩ := keeping.accounts.rows worker _ _ report current rfl
      refine ⟨row, symbols, text, sig, found, ?_, Function.update_self ..⟩
      rw [← decodeRaw_of_inserted setup.libs symbols sameRow]
      exact decodes
    | grouped job' | finished job' =>
      obtain rfl := Option.some.inj busy
      exact keep current rfl (by simp) (keeping.working worker _ _ current rfl same)
    | rested | claimed | loaded | removed | keptRaw | gaveUp | leftUnmarked | markedFailed => trivial
    | closed job' outcome | leftRunning job' outcome =>
      rw [Job.job_afterClose] at busy
      contradiction

theorem keeping_of_step {setup : Setup} {now : ℤ} {s s' : Service} {action : Action} {id : Text}
    {payload : Bytes} (keeping : Keeping setup now id payload s) (unwritten : Unwritten id s action)
    (clock : ReadBy now action) (stepped : step setup s action = some s') :
    Keeping setup now id payload s' where
  accounts := accounts_of_step keeping.accounts stepped clock
  working _ _ _ current busy same := working_of_step keeping stepped current busy same
  kept := kept_of_step keeping unwritten stepped

/-! ## Runs -/

theorem meets_readBy {setup : Setup} {now : ℤ} {s : Service} {actions : List Action}
    (clock : ∀ collector draw, .collect collector draw ∈ actions → draw.now ≤ now) :
    Machine.Meets (step setup) (fun _ action => ReadBy now action) s actions := by
  refine Machine.meets_of_forall ?_
  rintro action member - collector draw rfl
  exact clock collector draw member

theorem accounts_of_run {setup : Setup} {now : ℤ} {actions : List Action} {s : Service}
    (reached : Machine.run (step setup) {} actions = some s)
    (clock : ∀ collector draw, .collect collector draw ∈ actions → draw.now ≤ now) :
    Accounts setup now s :=
  Machine.invariant_of_run
    (fun _ _ _ accounts read stepped => accounts_of_step accounts stepped read) (.empty setup now)
    (meets_readBy clock) reached

/-- An upload that has written the whole raw file of a report that is not there yet. -/
theorem keeping_of_write {setup : Setup} {now : ℤ} {s s' : Service} {call : ℕ} {draw : Api.Draw}
    {metadata : Types.ReportMetadata} {payload : Bytes} {deviceId : Option Text} {id : Text}
    (accounts : Accounts setup now s)
    (writing : s.uploads call = some (.write metadata payload deviceId id))
    (whole : draw.written = .whole) (absent : s.db.reports.find? id = none)
    (stepped : step setup s (.upload call draw) = some s') : Keeping setup now id payload s' where
  accounts := accounts_of_step accounts stepped (by simp [ReadBy])
  working worker pc job current busy same := by
    rw [step, writing, Option.map_some, Option.some.injEq] at stepped
    rw [← stepped, afterUpload_workers] at current
    obtain ⟨report, found⟩ := accounts.order.report_of_held current (held_of_job busy)
    rw [same, absent] at found
    contradiction
  kept := by
    left
    rw [step, writing, Option.map_some, Option.some.injEq, postReport, whole] at stepped
    rw [← stepped, afterUpload_raw]
    exact Function.update_self ..

/-- Whatever fails and whoever stops: from the upload's write of the raw file on, and while no other
upload writes it, the payload of a report is there, or the text decoded from it is stored and the
report is decoded and has a group, or the report has failed and was received before the time that is
kept. -/
theorem crash_data_kept_of_run (setup : Setup) {before after : List Action} {s s' t : Service}
    {call : ℕ} {draw : Api.Draw} {metadata : Types.ReportMetadata} {payload : Bytes}
    {deviceId : Option Text} {id : Text} {now : ℤ}
    (reached : Machine.run (step setup) {} before = some s)
    (writing : s.uploads call = some (.write metadata payload deviceId id))
    (whole : draw.written = .whole) (absent : s.db.reports.find? id = none)
    (stepped : step setup s (.upload call draw) = some s')
    (unwritten : Machine.Meets (step setup) (Unwritten id) s' after)
    (later : Machine.run (step setup) s' after = some t)
    (clock : ∀ collector draw, .collect collector draw ∈ before ++ after → draw.now ≤ now) :
    t.raw id = some payload ∨ ∃ report, t.db.reports.find? id = some report ∧
      (report.state = .decoded ∧ report.groupId.isSome ∧
          (∃ symbols text sig, decodeRaw setup.libs symbols report payload = .ok (text, sig) ∧
            t.decoded id = some (utf8Encode text)) ∨
        report.state = .failed ∧ report.receivedAt < now - setup.retentionDays * 86400) := by
  have accounts : Accounts setup now s := accounts_of_run reached fun collector draw member =>
    clock collector draw (List.mem_append_left after member)
  have read : Machine.Meets (step setup) (fun _ action => ReadBy now action) s' after :=
    meets_readBy fun collector draw member =>
      clock collector draw (List.mem_append_right before member)
  have keeping : Keeping setup now id payload t := Machine.invariant_of_run
    (fun _ _ _ keeping meets stepped => keeping_of_step keeping meets.1 meets.2 stepped)
    (keeping_of_write accounts writing whole absent stepped) (unwritten.and read) later
  rcases keeping.kept with there | ⟨-, ⟨stored, decoded⟩ | ⟨report, found, failed, old⟩⟩
  · exact .inl there
  · obtain ⟨report, found, state, group⟩ := decoded
    obtain ⟨report', symbols, text, sig, found', decodes, there⟩ := stored
    rw [found, Option.some.injEq] at found'
    subst found'
    exact .inr ⟨report, found, .inl ⟨state, group, symbols, text, sig, decodes, there⟩⟩
  · exact .inr ⟨report, found, .inr ⟨failed, old⟩⟩

/-- A report whose raw payload is gone when its worker has decoded it. -/
theorem decoded_text_kept :
    ∃ s s' t, Machine.run (step demoSetup) {}
        [demoRequest 0, .upload 0 { newId := "d1".toList }, .upload 0 {}] = some s ∧
      step demoSetup s (.upload 0 {}) = some s' ∧
      Machine.run (step demoSetup) s'
        ([.upload 0 {}, .upload 0 { newId := "j1".toList }, .start 0] ++ demoDecode 0 ++
          [.work 0 {}]) = some t ∧
      t.raw "u1".toList = none ∧
      ∃ report, t.db.reports.find? "u1".toList = some report ∧
        (report.state = .decoded ∧ report.groupId.isSome ∧
            (∃ symbols text sig, decodeRaw demoSetup.libs symbols report [1] = .ok (text, sig) ∧
              t.decoded "u1".toList = some (utf8Encode text)) ∨
          report.state = .failed ∧ report.receivedAt < 0 - demoSetup.retentionDays * 86400) := by
  refine ⟨_, _, _, rfl, rfl, rfl, by decide +kernel, ?_⟩
  refine (@crash_data_kept_of_run demoSetup
    [demoRequest 0, .upload 0 { newId := "d1".toList }, .upload 0 {}]
    ([.upload 0 {}, .upload 0 { newId := "j1".toList }, .start 0] ++ demoDecode 0 ++ [.work 0 {}])
    _ _ _ 0 {} _ [1] _ "u1".toList 0 rfl rfl rfl ?_ rfl ?_ rfl ?_).resolve_left ?_
  · decide +kernel
  · decide +kernel
  · simp [demoRequest, demoDecode]
  · decide +kernel

end UcrashReport.Service
