import UcrashReport.Soundness.ClaimOrder
import UcrashReport.Soundness.GroupRows
import UcrashReport.Soundness.OnePass
import UcrashReport.Soundness.ReportRows

/-! # What a pass without faults comes to

When nothing fails, the pass decodes every pending job whose payload can be decoded, files its report
and removes the payload; every other pending job it fails, and leaves the payload. What is not
pending it leaves alone. The stages of a job from the claim on carry what has been achieved for it.
-/

namespace UcrashReport.Service

open Rust Rust.Text Store Api Decode

/-! ## The outcome of a job -/

section Outcome

variable (libs : Libraries) (report : ReportRow) (payload : Option Bytes)

/-- The payload is there, and the text and the signature are what it decodes to. -/
def Decodes (text : Text) (sig : Signature.CrashSignature) : Prop :=
  ∃ data symbols, payload = some data ∧ decodeRaw libs symbols report data = .ok (text, sig)

/-- If the payload is there at all it does not decode, whatever symbols are found. -/
def Undecodable (e : Text) : Prop :=
  ∀ data symbols, payload = some data → decodeRaw libs symbols report data = .error e

/-- The decoded text is stored. -/
def TextKept (s : Service) (sig : Signature.CrashSignature) : Prop :=
  ∃ text, Decodes libs report payload text sig ∧ s.decoded report.id = some (utf8Encode text)

/-- The decoded text is stored, and there is a group for it. -/
def Grouped (s : Service) (groupId : Text) : Prop :=
  ∃ sig group, TextKept libs report payload s sig ∧ s.db.groups.find? groupId = some group ∧
    group.signature = sig.signature

/-- The row of the report and its payload are as before. -/
def Untouched (s : Service) : Prop :=
  s.db.reports.find? report.id = some report ∧ s.raw report.id = payload

/-- How a job that was pending ends. -/
inductive Outcome (s : Service) (row : JobRow) : Prop
  | decoded {groupId : Text} {ts : ℤ} (done : row.state = .done)
      (grouped : Grouped libs report payload s groupId)
      (marked : s.db.reports.find? report.id =
        some { report with state := .decoded, groupId := some groupId, rawDeletedAt := some ts })
      (removed : s.raw report.id = none)
  | failed {e : Text} (failed : row.state = .failed) (lastError : row.lastError = some e)
      (undecodable : Undecodable libs report payload e)
      (marked : s.db.reports.find? report.id = some { report with state := .failed })
      (kept : s.raw report.id = payload)

/-- What has been achieved for the job that a worker has in hand. -/
inductive Stage (s : Service) : Worker → Prop
  | load {job : Job} (untouched : Untouched report payload s) : Stage s (.load job)
  | read {job : Job} (untouched : Untouched report payload s) : Stage s (.read job report)
  | store {job : Job} {text : Text} {sig : Signature.CrashSignature}
      (untouched : Untouched report payload s) (decodes : Decodes libs report payload text sig) :
      Stage s (.store job report text sig)
  | group {job : Job} {sig : Signature.CrashSignature} (untouched : Untouched report payload s)
      (kept : TextKept libs report payload s sig) : Stage s (.group job report sig)
  | finish {job : Job} {groupId : Text} {ts : ℤ} (untouched : Untouched report payload s)
      (grouped : Grouped libs report payload s groupId) : Stage s (.finish job groupId ts)
  | remove {job : Job} {groupId : Text} {ts : ℤ} (grouped : Grouped libs report payload s groupId)
      (marked : s.db.reports.find? report.id =
        some { report with state := .decoded, groupId := some groupId, rawDeletedAt := some ts })
      (kept : s.raw report.id = payload) : Stage s (.remove job groupId)
  | succeed {job : Job} {groupId : Text} {ts : ℤ} (grouped : Grouped libs report payload s groupId)
      (marked : s.db.reports.find? report.id =
        some { report with state := .decoded, groupId := some groupId, rawDeletedAt := some ts })
      (removed : s.raw report.id = none) : Stage s (.close job (.ok groupId))
  | fail {job : Job} {e : Text} (untouched : Untouched report payload s)
      (undecodable : Undecodable libs report payload e) : Stage s (.close job (.error e))
  | mark {job : Job} {e : Text} {row : JobRow} (untouched : Untouched report payload s)
      (undecodable : Undecodable libs report payload e)
      (found : s.db.jobs.find? job.id = some row) (failed : row.state = .failed)
      (lastError : row.lastError = some e) : Stage s (.markFailed job)

/-- Where a job is that was pending when the pass began. -/
inductive Phase (worker : ℕ) (id : Text) (s : Service) : Prop
  | waiting {row : JobRow} (found : s.db.jobs.find? id = some row)
      (ofReport : row.reportId = report.id) (pending : row.state = .pending)
      (untouched : Untouched report payload s)
  | inHand {pc : Worker} {job : Job} {closed : Bool} (current : s.workers worker = some pc)
      (holds : held pc = some (job, closed)) (same : job.id = id)
      (ofReport : job.reportId = report.id) (stage : Stage libs report payload s pc)
  | isOver {row : JobRow} (found : s.db.jobs.find? id = some row)
      (ofReport : row.reportId = report.id) (outcome : Outcome libs report payload s row)
      (free : ∀ pc job closed, s.workers worker = some pc → held pc = some (job, closed) → job.id ≠ id)

end Outcome

/-- Whether a payload decodes does not depend on the symbols. -/
theorem undecodable_of_decodeRaw {libs : Libraries} {symbols : Option Annotate.Resolver}
    {report : ReportRow} {data : Bytes} {e : Text}
    (failed : decodeRaw libs symbols report data = .error e) :
    Undecodable libs report (some data) e := by
  rintro data symbols' ⟨⟩
  unfold decodeRaw at failed ⊢
  cases encoding : Types.PayloadEncoding.fromStr report.payloadEncoding with
  | error e' => simpa [encoding, bind, Except.bind] using failed
  | ok encoding' =>
    cases text : decodePayload libs data encoding' with
    | error e' => simpa [encoding, text, bind, Except.bind] using failed
    | ok text' => simp [encoding, text, bind, Except.bind, pure, Except.pure] at failed

/-! ## Steps without faults -/

/-- The id that is drawn for a group is new. -/
def DrawsGroupId (db : Database) (draw : Decode.Draw) : Worker → Prop
  | .group _ _ _ => db.groups.find? draw.newId = none
  | _ => True

/-- Nothing fails in the step. -/
def Faultless (worker : ℕ) (s : Service) (draw : Decode.Draw) : Prop :=
  draw.success = true ∧ draw.written = .whole ∧ ∀ pc ∈ s.workers worker, DrawsGroupId s.db draw pc

theorem upsertGroup_isSome {db : Database} {group : GroupRow}
    (fresh : db.groups.find? group.id = none) : (db.upsertGroup group).isSome := by
  rw [Database.upsertGroup]
  cases db.groups.rows.find? fun row => row.signature = group.signature with
  | some known => rfl
  | none => simpa using Table.isSome_insert fresh

section Step

variable {setup : Setup} {worker : ℕ} {s s' : Service} {draw : Decode.Draw} {report : ReportRow}
  {payload : Option Bytes} {id : Text}

/-- A step of the worker that has the job in hand. -/
theorem phase_of_own_step (order : InOrder s) {pc : Worker} {job : Job} {closed : Bool}
    (current : s.workers worker = some pc) (holds : held pc = some (job, closed))
    (ofReport : job.reportId = report.id) (stage : Stage setup.libs report payload s pc)
    (faultless : Faultless worker s draw) (stepped : step setup s (.work worker draw) = some s') :
    Phase setup.libs report payload worker job.id s' := by
  obtain ⟨success, whole, fresh⟩ := faultless
  rw [step, current, Option.map_some, Option.some.injEq] at stepped
  subst stepped
  obtain ⟨row, foundRow, backed⟩ := order.ledger.backed worker pc job closed current holds
  have inHand {result : Database × Files × Files × Worker} {closed' : Bool}
      (holds' : held result.2.2.2 = some (job, closed'))
      (stage' : Stage setup.libs report payload (s.afterWork worker result) result.2.2.2) :
      Phase setup.libs report payload worker job.id (s.afterWork worker result) :=
    .inHand (afterWork_workers_self s worker result) holds' rfl ofReport stage'
  have idle {result : Database × Files × Files × Worker} (idle : result.2.2.2 = .idle) :
      ∀ pc other closed, (s.afterWork worker result).workers worker = some pc →
        held pc = some (other, closed) → other.id ≠ job.id := by
    intro pc other closed current holds
    rw [afterWork_workers_self, idle, Option.some.injEq] at current
    rw [← current] at holds
    contradiction
  cases stage with
  | @load job untouched =>
    obtain ⟨rfl, rfl⟩ := Prod.mk.inj (Option.some.inj holds)
    have moved : work setup.libs draw s.db s.raw s.decoded (.load job) =
        (s.db, s.raw, s.decoded, .read job report) := by
      rw [work, if_pos success, ofReport, untouched.1]
    rw [moved]
    exact inHand rfl (.read untouched)
  | @read job untouched =>
    obtain ⟨rfl, rfl⟩ := Prod.mk.inj (Option.some.inj holds)
    rw [work, if_pos success, ofReport, untouched.2]
    cases payload with
    | none => exact inHand rfl (.fail untouched (by rintro _ _ ⟨⟩))
    | some data =>
      dsimp only
      cases decodes : decodeRaw setup.libs draw.symbols report data with
      | ok result => exact inHand rfl (.store untouched ⟨data, draw.symbols, rfl, decodes⟩)
      | error e => exact inHand rfl (.fail untouched (undecodable_of_decodeRaw decodes))
  | @store job text sig untouched decodes =>
    obtain ⟨rfl, rfl⟩ := Prod.mk.inj (Option.some.inj holds)
    rw [work, if_pos success, whole, ofReport, Files.write]
    exact inHand rfl (.group untouched ⟨text, decodes, by simp [afterWork]⟩)
  | @group job sig untouched kept =>
    obtain ⟨rfl, rfl⟩ := Prod.mk.inj (Option.some.inj holds)
    obtain ⟨⟨db', groupId⟩, upserted⟩ := Option.isSome_iff_exists.mp
      (upsertGroup_isSome (fresh _ current) :
        (s.db.upsertGroup (groupRow report sig draw.newId draw.now)).isSome)
    obtain ⟨group, found, same⟩ := Database.upserted_group upserted
    rw [work, if_pos success, upserted]
    refine inHand rfl (.finish ⟨?_, untouched.2⟩ ⟨sig, group, kept, found, same⟩)
    exact (Database.upsertGroup_frame upserted).1 ▸ untouched.1
  | @finish job groupId ts untouched grouped =>
    obtain ⟨rfl, rfl⟩ := Prod.mk.inj (Option.some.inj holds)
    have marked : (s.db.setDecoded job.reportId groupId ts).reports.find? report.id = some
        { report with
          state := .decoded, groupId := some groupId, rawDeletedAt := some ts } := by
      rw [Database.setDecoded, Table.find?_update, untouched.1, Option.map_some,
        if_pos ofReport.symm]
    rw [work, if_pos success]
    exact inHand rfl (.remove grouped marked untouched.2)
  | @remove job groupId ts grouped marked kept =>
    obtain ⟨rfl, rfl⟩ := Prod.mk.inj (Option.some.inj holds)
    obtain ⟨sig, group, ⟨text, ⟨data, symbols, rfl, decodes⟩, stored⟩, found⟩ := grouped
    have there : (draw.success && (s.raw job.reportId).isSome) = true := by
      rw [success, ofReport, kept]
      rfl
    rw [work, if_pos there, ofReport]
    exact inHand rfl
      (.succeed ⟨sig, group, ⟨text, ⟨data, symbols, rfl, decodes⟩, stored⟩, found⟩ marked
        Files.remove_self)
  | @succeed job groupId ts grouped marked removed =>
    obtain ⟨rfl, rfl⟩ := Prod.mk.inj (Option.some.inj holds)
    rw [work, if_pos success]
    have found := s.db.find?_jobs_updateJob job.id .done none job.id
    rw [foundRow, Option.map_some, if_pos (Table.find?_eq_some_iff.mp foundRow).2] at found
    exact .isOver found (backed.reportId.trans ofReport) (.decoded rfl grouped marked removed)
      (idle rfl)
  | @fail job e untouched undecodable =>
    obtain ⟨rfl, rfl⟩ := Prod.mk.inj (Option.some.inj holds)
    rw [work, if_pos success]
    split_ifs with last
    · have found := s.db.find?_jobs_updateJob job.id .failed (some e) job.id
      rw [foundRow, Option.map_some, if_pos (Table.find?_eq_some_iff.mp foundRow).2] at found
      exact inHand rfl (.mark untouched undecodable found rfl rfl)
    · have found := s.db.find?_jobs_updateJob job.id .pending (some e) job.id
      rw [foundRow, Option.map_some, if_pos (Table.find?_eq_some_iff.mp foundRow).2] at found
      exact .waiting found (backed.reportId.trans ofReport) rfl untouched
  | @mark job e failedRow untouched undecodable found failed lastError =>
    obtain ⟨rfl, rfl⟩ := Prod.mk.inj (Option.some.inj holds)
    rw [work, if_pos success]
    rw [foundRow, Option.some.injEq] at found
    subst found
    refine .isOver foundRow (backed.reportId.trans ofReport)
      (.failed failed lastError undecodable ?_ untouched.2) (idle rfl)
    dsimp only [afterWork]
    rw [Database.setFailed, Table.find?_update, untouched.1, Option.map_some, if_pos ofReport.symm]

section Others

variable (stepped : step setup s (.work worker draw) = some s')
  (others : ∀ pc job closed, s.workers worker = some pc → held pc = some (job, closed) →
    job.reportId ≠ report.id)

include stepped others

/-- A worker that has another job in hand leaves the report alone. -/
theorem untouched_of_other {row : ReportRow} (found : s.db.reports.find? report.id = some row) :
    s'.db.reports.find? report.id = some row ∧ s'.raw report.id = s.raw report.id ∧
      s'.decoded report.id = s.decoded report.id := by
  refine ⟨?_, ?_, ?_⟩
  · obtain ⟨-, same⟩ := Table.find?_eq_some_iff.mp found
    rw [← same] at found ⊢
    obtain ⟨row', found', moved⟩ := reportStep_of_step stepped found
    cases moved with
    | kept => exact found'
    | decoded current ofRow => exact absurd (ofRow.trans same) (others _ _ _ current rfl)
    | failed current ofRow => exact absurd (ofRow.trans same) (others _ _ _ current rfl)
  · cases rawStep_of_step stepped report.id with
    | kept same => exact same
    | decoded current same => exact absurd same (others _ _ _ current rfl)
  · rcases decoded_after_step stepped report.id with
      same | ⟨worker', draw', job, report', text, sig, acted, current, same, -⟩
    · exact same
    · obtain ⟨rfl, -⟩ := Action.work.inj acted
      exact absurd same (others _ _ _ current rfl)

theorem grouped_of_other {row : ReportRow} (found : s.db.reports.find? report.id = some row)
    {groupId : Text} (grouped : Grouped setup.libs report payload s groupId) :
    Grouped setup.libs report payload s' groupId := by
  obtain ⟨sig, group, ⟨text, decodes, stored⟩, foundGroup, same⟩ := grouped
  obtain ⟨ts, foundGroup'⟩ := find?_groups_of_step stepped foundGroup
  obtain ⟨-, -, decoded⟩ := untouched_of_other stepped others found
  exact ⟨sig, _, ⟨text, decodes, decoded.trans stored⟩, foundGroup', same⟩

theorem outcome_of_other {row : JobRow} (outcome : Outcome setup.libs report payload s row) :
    Outcome setup.libs report payload s' row := by
  cases outcome with
  | decoded done grouped marked removed =>
    obtain ⟨marked', raw, -⟩ := untouched_of_other stepped others marked
    exact .decoded done (grouped_of_other stepped others marked grouped) marked' (raw.trans removed)
  | failed failed lastError undecodable marked kept =>
    obtain ⟨marked', raw, -⟩ := untouched_of_other stepped others marked
    exact .failed failed lastError undecodable marked' (raw.trans kept)

end Others

/-- A step of the pass that is not the last one. -/
theorem phase_of_step (order : InOrder s) (faultless : Faultless worker s draw)
    (stepped : step setup s (.work worker draw) = some s')
    (phase : Phase setup.libs report payload worker id s) :
    Phase setup.libs report payload worker id s' := by
  have order' := inOrder_of_step order stepped
  -- Another job is a job of another report.
  have apart {row : JobRow} (found : s.db.jobs.find? id = some row)
      (ofReport : row.reportId = report.id)
      (free : ∀ pc job closed, s.workers worker = some pc → held pc = some (job, closed) →
        job.id ≠ id) :
      ∀ pc job closed, s.workers worker = some pc → held pc = some (job, closed) →
        job.reportId ≠ report.id := by
    intro pc job closed current holds same
    obtain ⟨sameId, -⟩ := order.backed_of_reportId current holds found (ofReport.trans same.symm)
    exact free pc job closed current holds sameId.symm
  cases phase with
  | inHand current holds same ofReport stage =>
    exact same ▸ phase_of_own_step order current holds ofReport stage faultless stepped
  | @waiting row found ofReport pending untouched =>
    obtain ⟨-, rfl⟩ := Table.find?_eq_some_iff.mp found
    have free : ∀ pc job closed, s.workers worker = some pc → held pc = some (job, closed) →
        job.id ≠ row.id := fun pc job closed current holds =>
      order.ledger.not_held_of_pending found pending current holds
    obtain ⟨reports, raw, -⟩ := untouched_of_other stepped (apart found ofReport free) untouched.1
    have untouched' : Untouched report payload s' := ⟨reports, raw.trans untouched.2⟩
    obtain ⟨row', found', moved⟩ := rowStep_of_step order.ledger stepped found
    cases moved with
    | kept => exact .waiting found' ofReport pending untouched'
    | claimed _ claimed =>
      obtain ⟨worker', draw', job, acted, current', same⟩ := claiming_of_claims claimed
      obtain ⟨rfl, -⟩ := Action.work.inj acted
      obtain ⟨row'', found'', backed⟩ := order'.ledger.backed worker _ job false current' rfl
      rw [same, found', Option.some.injEq] at found''
      subst found''
      exact .inHand current' rfl same (backed.reportId.symm.trans ofReport) (.load untouched')
    | closed current same => exact absurd same (free _ _ _ current rfl)
  | @isOver row found ofReport outcome free =>
    obtain ⟨-, rfl⟩ := Table.find?_eq_some_iff.mp found
    have isOver : row.state = .done ∨ row.state = .failed := by
      cases outcome with
      | decoded done => exact .inl done
      | failed failed => exact .inr failed
    obtain ⟨found', -⟩ := over_of_step order.ledger stepped found isOver
    refine .isOver found' ofReport (outcome_of_other stepped (apart found ofReport free) outcome) ?_
    intro pc' job closed current' holds same
    obtain ⟨row', foundRow', backed⟩ := order'.ledger.backed worker pc' job closed current' holds
    rw [same, found', Option.some.injEq] at foundRow'
    subst foundRow'
    rcases worker_before_step stepped current' with
      ⟨-, other⟩ | rfl | ⟨draw', pc, db, raw, decoded, -, current, move, rfl⟩
    · exact absurd rfl (other draw)
    · contradiction
    · rcases workLeft_of_work move holds with ⟨-, -, -, -, -, -, rfl⟩ | ⟨closed₀, before, -⟩
      · have running := backed.state.resolve_right fun closed => Bool.false_ne_true closed.1
        rw [running] at isOver
        simp at isOver
      · exact free pc job closed₀ current before same

/-- A job that is not pending when the pass begins, with its report and the files of the report. -/
structure Left (worker : ℕ) (start : Service) (row : JobRow) (report : ReportRow) (s : Service) :
    Prop where
  found : s.db.jobs.find? row.id = some row
  notPending : row.state ≠ .pending
  ofReport : row.reportId = report.id
  reports : s.db.reports.find? report.id = some report
  raw : s.raw report.id = start.raw report.id
  decoded : s.decoded report.id = start.decoded report.id
  free : ∀ pc job closed, s.workers worker = some pc → held pc = some (job, closed) → job.id ≠ row.id

theorem left_of_step (order : InOrder s) (stepped : step setup s (.work worker draw) = some s')
    {start : Service} {row : JobRow} (left : Left worker start row report s) :
    Left worker start row report s' := by
  have others : ∀ pc job closed, s.workers worker = some pc → held pc = some (job, closed) →
      job.reportId ≠ report.id := by
    intro pc job closed current holds same
    obtain ⟨sameId, -⟩ := order.backed_of_reportId current holds left.found
      (left.ofReport.trans same.symm)
    exact left.free pc job closed current holds sameId.symm
  obtain ⟨reports, raw, decoded⟩ := untouched_of_other stepped others left.reports
  obtain ⟨row', found', moved⟩ := rowStep_of_step order.ledger stepped left.found
  cases moved with
  | claimed pending => exact absurd pending left.notPending
  | closed current same => exact absurd same (left.free _ _ _ current rfl)
  | kept unclaimed =>
    refine ⟨found', left.notPending, left.ofReport, reports, raw.trans left.raw,
      decoded.trans left.decoded, fun pc' job closed current' holds same => ?_⟩
    rcases worker_before_step stepped current' with
      ⟨-, other⟩ | rfl | ⟨draw', pc, db, raw, decoded, acted, current, move, rfl⟩
    · exact absurd rfl (other draw)
    · contradiction
    · rcases workLeft_of_work move holds with ⟨rfl, db', claimed, -, -, loading, -⟩ | ⟨closed₀, before, -⟩
      · obtain rfl : pc' = .load job := loading
        simp [claims, current, same] at unclaimed
      · exact left.free pc job closed₀ current before same

end Step

/-! ## The whole pass -/

variable {setup : Setup} {worker : ℕ} {s s' t : Service} {draw : Decode.Draw}
  {draws : List Decode.Draw}

/-- Every step of the pass is a step of the service. -/
theorem inOrder_of_passStep (order : InOrder s) (stepped : passStep setup worker s draw = some s') :
    InOrder s' := by
  rcases passStep_cases stepped with ⟨rfl, -⟩ | ⟨worked, -⟩
  · exact inOrder_of_step order (show step setup s (.stop worker) = _ from rfl)
  · exact inOrder_of_step order worked

theorem phase_of_pass {report : ReportRow} {payload : Option Bytes} {id : Text} (order : InOrder s)
    (faultless : Machine.Meets (passStep setup worker) (Faultless worker) s draws)
    (reached : Machine.run (passStep setup worker) s draws = some t)
    (phase : Phase setup.libs report payload worker id s) :
    Phase setup.libs report payload worker id t := by
  have invariant := Machine.invariant_of_run
    (I := fun s => InOrder s ∧ Phase setup.libs report payload worker id s)
    (fun s draw s' invariant faultless (stepped : passStep setup worker s draw = some s') => by
      obtain ⟨order, phase⟩ := invariant
      refine ⟨inOrder_of_passStep order stepped, ?_⟩
      rcases passStep_cases stepped with ⟨rfl, idle, -⟩ | ⟨worked, -⟩
      · cases phase with
        | waiting found ofReport pending untouched =>
          exact .waiting found ofReport pending untouched
        | inHand current holds =>
          rw [idle, Option.some.injEq] at current
          rw [← current] at holds
          contradiction
        | isOver found ofReport outcome =>
          refine .isOver found ofReport ?_ fun pc job closed current => by simp at current
          cases outcome with
          | decoded done grouped marked removed => exact .decoded done grouped marked removed
          | failed failed lastError undecodable marked kept =>
            exact .failed failed lastError undecodable marked kept
      · exact phase_of_step order faultless worked phase)
    ⟨order, phase⟩ faultless reached
  exact invariant.2

theorem left_of_pass {report : ReportRow} {start : Service} {row : JobRow} (order : InOrder s)
    (reached : Machine.run (passStep setup worker) s draws = some t)
    (left : Left worker start row report s) : Left worker start row report t := by
  have invariant := Machine.invariant_of_every_run
    (I := fun s => InOrder s ∧ Left worker start row report s)
    (fun s draw s' invariant (stepped : passStep setup worker s draw = some s') => by
      obtain ⟨order, left⟩ := invariant
      refine ⟨inOrder_of_passStep order stepped, ?_⟩
      rcases passStep_cases stepped with ⟨rfl, -⟩ | ⟨worked, -⟩
      · exact { left with free := fun pc job closed current => by simp at current }
      · exact left_of_step order worked left)
    ⟨order, left⟩ reached
  exact invariant.2

/-- Without faults, and from any state that the service can come to, a pass returns and has decoded
every pending job whose payload can be decoded and failed every other one; jobs that were not
pending, their reports and the files of these are as before. -/
theorem pass_outcome_of_run (setup : Setup) {actions : List Action} {s : Service} {worker : ℕ}
    (reached : Machine.run (step setup) {} actions = some s)
    (idle : s.workers worker = some .idle) {draws : List Decode.Draw}
    (enough : 25 * s.db.jobs.rows.length < draws.countP (·.success))
    (faultless : Machine.Meets (passStep setup worker) (Faultless worker) s draws) :
    ∃ first rest t, draws = first ++ rest ∧
      Machine.run (passStep setup worker) s first = some t ∧ t.workers worker = none ∧
      ∀ row ∈ s.db.jobs.rows, ∃ report ∈ s.db.reports.rows, report.id = row.reportId ∧
        ∃ row' ∈ t.db.jobs.rows, row'.id = row.id ∧
          (row.state = .pending → Outcome setup.libs report (s.raw report.id) t row') ∧
          (row.state ≠ .pending → row' = row ∧ report ∈ t.db.reports.rows ∧
            t.raw report.id = s.raw report.id ∧ t.decoded report.id = s.decoded report.id) := by
  obtain ⟨first, rest, t, rfl, passed, returned, nothing⟩ :=
    pass_returns_of_run setup reached (by rw [idle]; rfl) enough
  refine ⟨first, rest, t, rfl, passed, returned, fun row member => ?_⟩
  have order : InOrder s := inOrder_of_run .empty reached
  have found : s.db.jobs.find? row.id = some row := Table.find?_eq_some_iff.mpr ⟨member, rfl⟩
  obtain ⟨report, foundReport⟩ := Option.isSome_iff_exists.mp (order.oneJob.known row.id row found)
  obtain ⟨memberReport, ofReport⟩ := Table.find?_eq_some_iff.mp foundReport
  rw [← ofReport] at foundReport
  refine ⟨report, memberReport, ofReport, ?_⟩
  by_cases pending : row.state = .pending
  · have phase : Phase setup.libs report (s.raw report.id) worker row.id t :=
      phase_of_pass order faultless.of_append passed
        (.waiting found ofReport.symm pending ⟨foundReport, rfl⟩)
    cases phase with
    | waiting found' _ pending' =>
      exact absurd pending' (nothing _ (Table.find?_eq_some_iff.mp found').1)
    | inHand current => simp [returned] at current
    | @isOver row' found' _ outcome =>
      obtain ⟨member', sameId⟩ := Table.find?_eq_some_iff.mp found'
      exact ⟨row', member', sameId, fun _ => outcome, fun settled => absurd pending settled⟩
  · have left : Left worker s row report t := left_of_pass order passed
      ⟨found, pending, ofReport.symm, foundReport, rfl, rfl, fun pc job closed current holds => by
        rw [idle, Option.some.injEq] at current
        rw [← current] at holds
        contradiction⟩
    refine ⟨row, (Table.find?_eq_some_iff.mp left.found).1, rfl, fun isPending => absurd isPending pending,
      fun _ => ⟨rfl, (Table.find?_eq_some_iff.mp left.reports).1, left.raw, left.decoded⟩⟩

/-! ## Concrete passes -/

instance (db : Database) (draw : Decode.Draw) : ∀ pc, Decidable (DrawsGroupId db draw pc)
  | .group _ _ _ => inferInstanceAs (Decidable (db.groups.find? draw.newId = none))
  | .idle | .load _ | .read _ _ | .store _ _ _ _ | .finish _ _ _ | .remove _ _ | .close _ _
  | .markFailed _ => inferInstanceAs (Decidable True)

instance (worker : ℕ) (s : Service) (draw : Decode.Draw) : Decidable (Faultless worker s draw) :=
  inferInstanceAs (Decidable (_ ∧ _ ∧ ∀ pc ∈ s.workers worker, DrawsGroupId s.db draw pc))

/-- Payloads of one report are said to be compressed, and they are not. -/
def demoCorruptSetup : Setup :=
  { demoSetup with
    readers :=
      { demoSetup.readers with
        json := fun uuid => (demoSetup.readers.json uuid).map fun metadata =>
          { metadata with payloadEncoding := if uuid = "u2".toList then .zstd else .none } }
    libs := { demoSetup.libs with zstd := fun _ => .error "corrupt".toList } }

def demoReports : List Action :=
  demoReport 0 "u1".toList "j1".toList ++ demoReport 1 "u2".toList "j2".toList ++ [.start 0]

/-- One report is decoded and the other one failed. -/
theorem pass_over_corrupt_payload :
    ∃ s, Machine.run (step demoCorruptSetup) {} demoReports = some s ∧
      s.db.jobs.rows.map (·.state) = [.pending, .pending] ∧
      ∃ first rest t, List.replicate 51 { newId := "g1".toList } = first ++ rest ∧
        Machine.run (passStep demoCorruptSetup 0) s first = some t ∧ t.workers 0 = none ∧
        ∀ row ∈ s.db.jobs.rows, ∃ report ∈ s.db.reports.rows, report.id = row.reportId ∧
          ∃ row' ∈ t.db.jobs.rows, row'.id = row.id ∧
            (row.state = .pending →
              Outcome demoCorruptSetup.libs report (s.raw report.id) t row') := by
  have start : (Machine.run (step demoCorruptSetup) {} demoReports).any (fun s =>
      s.db.jobs.rows.map (·.state) = [.pending, .pending] &&
        (s.workers 0).any (fun pc => (held pc).isNone) &&
        decide (Machine.Meets (passStep demoCorruptSetup 0) (Faultless 0) s
          (List.replicate 51 { newId := "g1".toList }))) = true := by decide +kernel
  obtain ⟨s, reached, holds⟩ := (Option.any_eq_true _ _).mp start
  simp only [Bool.and_eq_true, decide_eq_true_eq] at holds
  obtain ⟨⟨states, resting⟩, faultless⟩ := holds
  obtain ⟨pc, current, none⟩ := (Option.any_eq_true _ _).mp resting
  obtain rfl : pc = .idle := by
    cases pc with
    | idle => rfl
    | load | read | store | group | finish | remove | close | markFailed => contradiction
  have two : s.db.jobs.rows.length = 2 := by simpa using congrArg List.length states
  obtain ⟨first, rest, t, split, passed, returned, outcomes⟩ :=
    pass_outcome_of_run demoCorruptSetup reached current (by rw [two]; decide) faultless
  refine ⟨s, reached, states, first, rest, t, split, passed, returned, fun row member => ?_⟩
  obtain ⟨report, memberReport, ofReport, row', member', same, outcome, -⟩ := outcomes row member
  exact ⟨report, memberReport, ofReport, row', member', same, outcome⟩

end UcrashReport.Service
