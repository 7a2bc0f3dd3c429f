import UcrashReport.Soundness.StoredReports

/-! # Reports and their own payloads

A raw payload is kept under the id of its report, and an upload writes it before it inserts the
report. Two uploads that have found the same id free both write the same file, and only the one that
comes first with its report is told so: the file can then hold the bytes of the other one. Without
such an overlap a worker reads what the upload of the report has sent.
-/

namespace UcrashReport.History

open Rust Rust.Text Store Api Decode Service

/-- The bytes that somebody else relies on in the place of a raw payload: those of the report that is
stored under this id, or of a call that has written them and is about to insert its report. -/
def Due (readers : Readers) (h : History) (call : ℕ) (id : Text) (payload : Bytes) : Prop :=
  (∃ request metadata, (id, request) ∈ h.stored ∧ Carries readers request metadata payload) ∨
    ∃ other ≠ call, ∃ metadata deviceId request,
      h.service.uploads other = some (.insertReport metadata deviceId id) ∧
      h.requests other = some request ∧ Carries readers request metadata payload

/-- No upload writes other bytes in the place of a raw payload that somebody else relies on. -/
def Undisturbed (setup : Setup) (id : Text) (h : History) : Action → Prop
  | .upload call draw =>
    ∀ metadata payload deviceId,
      h.service.uploads call = some (.write metadata payload deviceId id) →
      ∀ due, Due setup.readers h call id due →
        draw.written = .unopened ∨ draw.written = .whole ∧ payload = due
  | _ => True

/-- The raw payload of an id is that of the request behind it, if it is there. -/
structure OwnPayload (setup : Setup) (id : Text) (h : History) : Prop where
  stored : ∀ request metadata payload, (id, request) ∈ h.stored →
    Carries setup.readers request metadata payload →
    h.service.raw id = none ∨ h.service.raw id = some payload
  inserting : ∀ call metadata deviceId request payload,
    h.service.uploads call = some (.insertReport metadata deviceId id) →
    h.requests call = some request → Carries setup.readers request metadata payload →
    h.service.raw id = none ∨ h.service.raw id = some payload

theorem OwnPayload.empty (setup : Setup) (id : Text) : OwnPayload setup id {} where
  stored _ _ _ none := by simp at none
  inserting _ _ _ _ _ none := by simp at none

/-- A call keeps its request as long as it is in progress. -/
theorem request_of_step {setup : Setup} {h h' : History} {action : Action}
    (stepped : step setup h action = some h') {call : ℕ} {pc : Upload}
    (current : h.service.uploads call = some pc) : h'.requests call = h.requests call := by
  cases move_of_step stepped with
  | @requested other headers body free =>
    refine Function.update_of_ne ?_ _ _
    rintro rfl
    rw [free] at current
    contradiction
  | uploaded | forgotten | other => rfl

theorem Carries.unique {readers : Readers} {request : Request}
    {metadata metadata' : Types.ReportMetadata} {payload payload' : Bytes}
    (carries : Carries readers request metadata payload)
    (carries' : Carries readers request metadata' payload') :
    metadata = metadata' ∧ payload = payload' := by
  have same := carries.report.symm.trans carries'.report
  rwa [Except.ok.injEq, Prod.mk.injEq] at same

/-- What somebody relies on is still there after a step that does not disturb it, or it is taken
away. -/
theorem due_of_step {setup : Setup} {h h' : History} {action : Action} {id : Text}
    (undisturbed : Undisturbed setup id h action) (stepped : step setup h action = some h')
    {payload : Bytes} (own : h.service.raw id = none ∨ h.service.raw id = some payload)
    (due : ∀ call draw, action = .upload call draw → Due setup.readers h call id payload) :
    h'.service.raw id = none ∨ h'.service.raw id = some payload := by
  cases rawStep_of_step (service_of_step stepped) id with
  | kept same => rwa [same]
  | decoded current same closing gone | swept current gone => exact .inl gone
  | written current opened whole =>
    rcases undisturbed _ _ _ current payload (due _ _ rfl) with unopened | ⟨isWhole, rfl⟩
    · exact absurd unopened opened
    · exact .inr (whole isWhole)

theorem ownPayload_of_step {setup : Setup} {h h' : History} {action : Action} {id : Text}
    (own : OwnPayload setup id h) (remembered : Remembered setup h)
    (undisturbed : Undisturbed setup id h action) (stepped : step setup h action = some h') :
    OwnPayload setup id h' where
  stored request metadata payload stored carries := by
    rcases stored_before_step stepped stored with
      before | ⟨call, draw, metadata', deviceId, rfl, current, known, -, -, raw⟩
    · refine due_of_step undisturbed stepped (own.stored request metadata payload before carries) ?_
      exact fun _ _ _ => .inl ⟨request, metadata, before, carries⟩
    · obtain ⟨request', known', ⟨payload', carries'⟩, -⟩ := remembered.calls call _ current
      rw [known, Option.some.injEq] at known'
      subst known'
      obtain ⟨rfl, rfl⟩ := carries.unique carries'
      rw [raw]
      exact own.inserting call _ deviceId request payload current known carries
  inserting call metadata deviceId request payload inserting known carries := by
    rcases inserting_before_step (service_of_step stepped) inserting with
      ⟨before, waits⟩ | ⟨draw, payload', -, before, raw⟩
    · rw [request_of_step stepped before] at known
      refine due_of_step undisturbed stepped
        (own.inserting call metadata deviceId request payload before known carries) ?_
      rintro other draw rfl
      exact .inr ⟨call, fun same => waits draw (same ▸ rfl), metadata, deviceId, request, before,
        known, carries⟩
    · rw [request_of_step stepped before] at known
      obtain ⟨request', known', carries', -⟩ := remembered.calls call _ before
      rw [known, Option.some.injEq] at known'
      subst known'
      obtain ⟨-, rfl⟩ := carries.unique carries'
      exact .inr raw

theorem ownPayload_of_run {setup : Setup} {h : History} {actions : List Action} {id : Text}
    (undisturbed : Machine.Meets (step setup) (Undisturbed setup id) {} actions)
    (reached : Machine.run (step setup) {} actions = some h) : OwnPayload setup id h :=
  (Machine.invariant_of_run (I := fun h => OwnPayload setup id h ∧ Remembered setup h)
    (fun _ _ _ invariant meets stepped =>
      ⟨ownPayload_of_step invariant.1 invariant.2 meets stepped,
        remembered_of_step invariant.2 stepped⟩)
    ⟨.empty setup id, .empty setup⟩ undisturbed reached).1

/-! ## What a worker has loaded -/

/-- The row of the report as the worker has loaded it. -/
def loaded : Worker → Option (Job × ReportRow)
  | .read job report | .store job report _ _ | .group job report _ => some (job, report)
  | .idle | .load _ | .finish _ _ _ | .remove _ _ | .close _ _ | .markFailed _ => none

/-- What a worker has loaded is the row that the upload has inserted. -/
def LoadedRows (s : Service) : Prop :=
  ∀ worker pc job report, s.workers worker = some pc → loaded pc = some (job, report) →
    ∃ row, s.db.reports.find? job.reportId = some row ∧ report.inserted = row.inserted

theorem loaded_afterClose (job : Job) (outcome : Except Text Text) :
    loaded (job.afterClose outcome) = none := by
  cases outcome with
  | ok => rfl
  | error e =>
    rw [Job.afterClose]
    split_ifs <;> rfl

theorem loadedRows_of_step {setup : Setup} {s s' : Service} {action : Action}
    (rows : LoadedRows s) (stepped : Service.step setup s action = some s') : LoadedRows s' := by
  intro worker pc' job report current' loads
  have keep (pc : Worker) (current : s.workers worker = some pc)
      (before : loaded pc = some (job, report)) :
      ∃ row, s'.db.reports.find? job.reportId = some row ∧ report.inserted = row.inserted := by
    obtain ⟨row, found, same⟩ := rows worker pc job report current before
    obtain ⟨-, sameId⟩ := Table.find?_eq_some_iff.mp found
    rw [← sameId] at found ⊢
    obtain ⟨row', found', moved⟩ := reportStep_of_step stepped found
    exact ⟨row', found', same.trans (inserted_of_reportStep moved).symm⟩
  rcases worker_before_step stepped current' with
    ⟨current, -⟩ | rfl | ⟨draw, pc, db, raw, decoded, rfl, current, move, rfl⟩
  · exact keep pc' current loads
  · contradiction
  · cases move with
    | loaded job' found =>
      rw [loaded, Option.some.injEq, Prod.mk.injEq] at loads
      obtain ⟨rfl, rfl⟩ := loads
      exact ⟨_, found, rfl⟩
    | read | stored => exact keep _ current loads
    | closed job' outcome | leftRunning job' outcome =>
      rw [loaded_afterClose] at loads
      contradiction
    | rested | claimed | grouped | finished | removed | keptRaw | gaveUp | markedFailed
    | leftUnmarked => contradiction

theorem loadedRows_of_run {setup : Setup} {s t : Service} {actions : List Action}
    (rows : LoadedRows s) (reached : Machine.run (Service.step setup) s actions = some t) :
    LoadedRows t :=
  Machine.invariant_of_every_run
    (fun _ _ _ invariant stepped => loadedRows_of_step invariant stepped) rows reached

/-- In a run in which no upload writes other bytes over a raw payload that somebody else relies on, a
raw payload is that of the request behind its report, and so are the digest, the encoding and the
metadata with which a worker reads it. -/
theorem raw_payload_own_of_run (setup : Setup) {actions : List Action} {h : History}
    (undisturbed : Machine.Meets (step setup) (fun h action => ∀ id, Undisturbed setup id h action)
      {} actions)
    (reached : Machine.run (step setup) {} actions = some h) :
    (∀ id request data, (id, request) ∈ h.stored → h.service.raw id = some data →
      ∃ metadata, request.report setup.readers = .ok (metadata, data)) ∧
    ∀ worker job report data, h.service.workers worker = some (.read job report) →
      h.service.raw job.reportId = some data →
      ∃ request metadata deviceId receivedAt, (job.reportId, request) ∈ h.stored ∧
        request.report setup.readers = .ok (metadata, data) ∧
        Owner setup.readers h.service.db request deviceId ∧
        report.inserted = reportRow setup.readers metadata job.reportId deviceId receivedAt ∧
        report.payloadEncoding = metadata.payloadEncoding.asStr ∧
        BuildId.hexEncode (setup.readers.sha256 data) =
          setup.readers.toLowercase metadata.payloadSha256 := by
  have remembered := remembered_of_run reached
  have reached' := service_of_run reached
  have own (id : Text) : OwnPayload setup id h :=
    ownPayload_of_run (undisturbed.imp fun _ _ all => all id) reached
  have present {id : Text} {request : Request} {metadata : Types.ReportMetadata}
      {payload data : Bytes} (stored : (id, request) ∈ h.stored)
      (carries : Carries setup.readers request metadata payload)
      (found : h.service.raw id = some data) : payload = data := by
    rcases (own id).stored request metadata payload stored carries with gone | same
    · rw [found] at gone
      contradiction
    · rw [found, Option.some.injEq] at same
      exact same.symm
  refine ⟨fun id request data stored found => ?_, fun worker job report data current found => ?_⟩
  · obtain ⟨metadata, payload, -, -, -, carries, -⟩ := remembered.stored id request stored
    obtain rfl := present stored carries found
    exact ⟨metadata, carries.report⟩
  · have rows : LoadedRows h.service :=
      loadedRows_of_run (fun _ _ _ _ none => by simp at none) reached'
    obtain ⟨row, foundRow, same⟩ := rows worker _ job report current rfl
    obtain ⟨request, stored⟩ := remembered.complete job.reportId (Option.isSome_of_eq_some foundRow)
    obtain ⟨metadata, payload, deviceId, receivedAt, row', carries, owner, foundRow', asInserted⟩ :=
      remembered.stored _ request stored
    obtain rfl := present stored carries found
    rw [foundRow, Option.some.injEq] at foundRow'
    subst foundRow'
    have inserted := same.trans asInserted
    refine ⟨request, metadata, deviceId, receivedAt, stored, carries.report, owner, inserted, ?_, ?_⟩
    · exact congrArg ReportRow.payloadEncoding inserted
    · have checked := carries.checked
      rw [checkReport] at checked
      split_ifs at checked with format digest uuid
      exact not_not.mp digest

/-! ## Concrete runs -/

/-- An upload of other bytes under the same uuid by another device. -/
def otherRequest (call : ℕ) : Action :=
  .request call ⟨some "other".toList, some "sig".toList, some "u1".toList⟩ [2]

/-- Two devices have found one uuid free. The report of the first is stored, the second writes the
same file and is refused, and a worker reads its bytes for the report of the first. -/
theorem other_device_replaces_payload :
    ∃ h, Machine.run (step demoSetup) {}
        ([demoRequest 0, .upload 0 { newId := "d1".toList }, .upload 0 {}, otherRequest 1,
            .upload 1 { newId := "d2".toList }, .upload 1 {}] ++
          [.upload 0 {}, .upload 0 {}, .upload 0 { newId := "j1".toList }, .upload 1 {},
            .upload 1 {}, .start 0, .work 0 {}, .work 0 {}]) = some h ∧
      h.stored.map (fun entry => (entry.1, entry.2.body)) = [("u1".toList, [1])] ∧
      h.service.db.reports.rows.map (·.deviceId) = [some "d1".toList] ∧
      ((h.service.workers 0).bind loaded).isSome ∧ h.service.raw "u1".toList = some [2] := by
  refine ⟨_, rfl, by decide +kernel, by decide +kernel, by decide +kernel, by decide +kernel⟩

/-! ## Repeated uploads -/

/-- The action sends no other request and leaves no payload half written. -/
def Resends (request : Request) : Action → Prop
  | .request _ headers body => ⟨headers, body⟩ = request
  | .upload _ draw => draw.written = .unopened ∨ draw.written = .whole
  | _ => True

/-- There is only one request behind all calls and reports. -/
structure OneRequest (request : Request) (h : History) : Prop where
  calls : ∀ call other, h.requests call = some other → other = request
  stored : ∀ id other, (id, other) ∈ h.stored → other = request

theorem OneRequest.of_step {setup : Setup} {h h' : History} {action : Action} {request : Request}
    (one : OneRequest request h) (resends : Resends request action)
    (stepped : step setup h action = some h') : OneRequest request h' where
  calls call other known := by
    cases move_of_step stepped with
    | @requested mover headers body free =>
      dsimp only at known
      rcases eq_or_ne call mover with rfl | different
      · rw [Function.update_self, Option.some.injEq] at known
        exact known ▸ resends
      · rw [Function.update_of_ne different] at known
        exact one.calls call other known
    | uploaded | forgotten | other => exact one.calls call other known
  stored id other stored := by
    rcases stored_before_step stepped stored with before | ⟨call, _, _, _, -, -, known, -⟩
    · exact one.stored id other before
    · exact one.calls call other known

/-- Calls with one and the same request write the same bytes. -/
theorem undisturbed_of_oneRequest {setup : Setup} {h : History} {action : Action} {request : Request}
    (remembered : Remembered setup h) (one : OneRequest request h)
    (resends : Resends request action) (id : Text) : Undisturbed setup id h action := by
  cases action with
  | upload call draw =>
    intro metadata payload deviceId current due relied
    obtain ⟨mine, known, carries, -⟩ := remembered.calls call _ current
    obtain rfl := one.calls call mine known
    have same : payload = due := by
      rcases relied with
        ⟨other, metadata', stored, carries'⟩ | ⟨caller, -, metadata', _, other, -, known', carries'⟩
      · obtain rfl := one.stored id other stored
        exact (carries.unique carries').2
      · obtain rfl := one.calls caller other known'
        exact (carries.unique carries').2
    exact resends.imp_right fun whole => ⟨whole, same⟩
  | request | abandon | start | work | stop | sweep | collect | halt => trivial

/-- A device that sends one report again and again disturbs nothing. -/
theorem undisturbed_of_resends {setup : Setup} {request : Request} {actions : List Action}
    (resends : ∀ action ∈ actions, Resends request action) :
    Machine.Meets (step setup) (fun h action => ∀ id, Undisturbed setup id h action) {} actions :=
  Machine.Meets.of_invariant (I := fun h => Remembered setup h ∧ OneRequest request h)
    (fun _ _ _ invariant resends stepped =>
      ⟨remembered_of_step invariant.1 stepped, invariant.2.of_step resends stepped⟩)
    (fun _ _ invariant resends => undisturbed_of_oneRequest invariant.1 invariant.2 resends)
    ⟨.empty setup, fun _ _ none => by simp at none, fun _ _ none => by simp at none⟩
    (Machine.meets_of_forall fun action member _ => resends action member)

/-- Both calls of a device that sends its report twice at once have found the uuid free. The second one
writes the same bytes when the report of the first one is stored, and finds it there; a worker then
loads the report. -/
def demoTwice : List Action :=
  [demoRequest 0, .upload 0 { newId := "d1".toList }, .upload 0 {}, demoRequest 1, .upload 1 {},
    .upload 1 {}, .upload 0 {}, .upload 0 {}, .upload 1 {}, .upload 1 {},
    .upload 0 { newId := "j1".toList }, .start 0, .work 0 {}, .work 0 {}]

theorem demoTwice_resends :
    ∀ action ∈ demoTwice, Resends ⟨⟨some "key".toList, some "sig".toList, some "u1".toList⟩, [1]⟩
      action := by
  simp [demoTwice, demoRequest, Resends]

/-- The worker reads what the device has sent. -/
theorem payload_sent_twice_own :
    ∃ h, Machine.run (step demoSetup) {} demoTwice = some h ∧
      h.service.db.reports.rows.length = 1 ∧ h.service.uploads 1 = none ∧
      (∀ id request data, (id, request) ∈ h.stored → h.service.raw id = some data →
        ∃ metadata, request.report demoSetup.readers = .ok (metadata, data)) ∧
      ∃ job report, h.service.workers 0 = some (.read job report) ∧
        h.service.raw job.reportId = some [1] ∧
        ∃ request metadata, (job.reportId, request) ∈ h.stored ∧
          request.report demoSetup.readers = .ok (metadata, [1]) := by
  have columns : (Machine.run (step demoSetup) {} demoTwice).any (fun h =>
      h.service.db.reports.rows.length = 1 && (h.service.uploads 1).isNone &&
        (h.service.workers 0).any fun pc => match pc with
          | .read job _ => h.service.raw job.reportId = some [1]
          | _ => false) = true := by decide +kernel
  obtain ⟨h, reached, holds⟩ := (Option.any_eq_true _ _).mp columns
  rw [Bool.and_eq_true, Bool.and_eq_true, decide_eq_true_eq, Option.isNone_iff_eq_none] at holds
  obtain ⟨⟨one, answered⟩, reads⟩ := holds
  obtain ⟨pc, current, reads⟩ := (Option.any_eq_true _ _).mp reads
  obtain ⟨own, readsOwn⟩ :=
    raw_payload_own_of_run demoSetup (undisturbed_of_resends demoTwice_resends) reached
  cases pc with
  | read job report =>
    have found := of_decide_eq_true reads
    obtain ⟨request, metadata, -, -, stored, carried, -⟩ := readsOwn 0 job report [1] current found
    exact ⟨h, reached, one, answered, own, job, report, current, found, request, metadata, stored,
      carried⟩
  | idle | load | store | group | finish | remove | close | markFailed => contradiction

end UcrashReport.History
