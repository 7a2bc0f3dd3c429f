import UcrashReport.Soundness.ReportRows
import UcrashReport.UploadHistory

/-! # Reports and the requests behind them

Every report in the database goes back to exactly one request, and its row is what that request says,
whatever becomes of its state. A call that is in progress has passed the checks of its own request.
-/

namespace UcrashReport.History

open Rust Rust.Text Store Api Decode Service

/-! ## What a call knows of its request -/

/-- The device whose key has signed the request, or none for an anonymous one. -/
def Owner (readers : Readers) (db : Database) (request : Request) (deviceId : Option Text) : Prop :=
  match request.key readers with
  | .ok none => deviceId = none
  | .ok (some pubkey) => ∃ id, deviceId = some id ∧ db.deviceOf pubkey = some id
  | .error _ => False

/-- The request passes the checks and carries this report. -/
structure Carries (readers : Readers) (request : Request) (metadata : Types.ReportMetadata)
    (payload : Bytes) : Prop where
  report : request.report readers = .ok (metadata, payload)
  checked : checkReport readers metadata payload = .ok ()

def Belongs (readers : Readers) (db : Database) (stored : List (Text × Request))
    (request : Request) : Upload → Prop
  | .authenticate headers body => request = ⟨headers, body⟩
  | .lookup metadata payload deviceId | .write metadata payload deviceId _ =>
    Carries readers request metadata payload ∧ Owner readers db request deviceId
  | .insertReport metadata deviceId _ =>
    (∃ payload, Carries readers request metadata payload) ∧ Owner readers db request deviceId
  | .insertJob id => (id, request) ∈ stored

/-- The report has been inserted for the request. -/
def StoredAs (readers : Readers) (db : Database) (id : Text) (request : Request) : Prop :=
  ∃ metadata payload deviceId receivedAt report, Carries readers request metadata payload ∧
    Owner readers db request deviceId ∧ db.reports.find? id = some report ∧
    report.inserted = reportRow readers metadata id deviceId receivedAt

structure Remembered (setup : Setup) (h : History) : Prop where
  calls : ∀ call pc, h.service.uploads call = some pc → ∃ request,
    h.requests call = some request ∧ Belongs setup.readers h.service.db h.stored request pc
  stored : ∀ id request, (id, request) ∈ h.stored → StoredAs setup.readers h.service.db id request
  complete : ∀ id, (h.service.db.reports.find? id).isSome → ∃ request, (id, request) ∈ h.stored
  once : ∀ id request request', (id, request) ∈ h.stored → (id, request') ∈ h.stored →
    request = request'

theorem Remembered.empty (setup : Setup) : Remembered setup {} where
  calls _ _ none := by simp at none
  stored _ _ none := by simp at none
  complete _ none := by simp at none
  once _ _ _ none := by simp at none

/-! ## Steps -/

theorem deviceOf_of_step {setup : Setup} {s s' : Service} {action : Action}
    (stepped : Service.step setup s action = some s') {pubkey id : Text}
    (known : s.db.deviceOf pubkey = some id) : s'.db.deviceOf pubkey = some id := by
  have same {db : Database} (devices : db.devices = s.db.devices) :
      db.deviceOf pubkey = some id := by
    rw [Database.deviceOf, devices]
    exact known
  cases Service.move_of_step stepped with
  | requested | abandoned | started | stopped | swept | halted => exact known
  | uploaded current move =>
    rw [afterUpload_db]
    cases move with
    | authenticated signed upserted =>
      exact (Database.deviceOf_upsertDevice upserted).2 pubkey id known
    | reportInserted success inserted =>
      obtain ⟨reports, rfl⟩ := Database.eq_of_insertReport inserted
      exact same rfl
    | jobInserted inserted =>
      obtain ⟨jobs, rfl⟩ := Database.eq_of_insertJob inserted
      exact same rfl
    | refused | anonymous | known | placed | written | cut | reportRefused | jobRefused =>
      exact same rfl
  | worked current move =>
    cases move with
    | claimed claim =>
      obtain ⟨jobs, rfl⟩ := Database.eq_of_claimJob claim
      exact same rfl
    | grouped _ _ _ upserted =>
      obtain ⟨groups, rfl⟩ := Database.eq_of_upsertGroup upserted
      exact same rfl
    | rested | loaded | read | stored | finished | removed | keptRaw | gaveUp | closed
    | leftRunning | markedFailed | leftUnmarked => exact same rfl
  | collected current move => cases move <;> exact same rfl

theorem Owner.of_step {setup : Setup} {s s' : Service} {action : Action} {request : Request}
    {deviceId : Option Text} (owner : Owner setup.readers s.db request deviceId)
    (stepped : Service.step setup s action = some s') :
    Owner setup.readers s'.db request deviceId := by
  rw [Owner] at owner ⊢
  cases signed : request.key setup.readers with
  | error e => simp [signed] at owner
  | ok key =>
    rw [signed] at owner
    cases key with
    | none => exact owner
    | some pubkey =>
      obtain ⟨id, same, known⟩ := owner
      exact ⟨id, same, deviceOf_of_step stepped known⟩

theorem Belongs.of_step {setup : Setup} {s s' : Service} {action : Action}
    {stored stored' : List (Text × Request)} {request : Request} {pc : Upload}
    (belongs : Belongs setup.readers s.db stored request pc)
    (stepped : Service.step setup s action = some s') (grown : stored ⊆ stored') :
    Belongs setup.readers s'.db stored' request pc := by
  cases pc with
  | authenticate => exact belongs
  | lookup | write | insertReport => exact ⟨belongs.1, belongs.2.of_step stepped⟩
  | insertJob => exact grown belongs

theorem inserted_of_reportStep {s : Service} {report report' : ReportRow} {action : Action}
    (moved : ReportStep s report action report') : report'.inserted = report.inserted := by
  cases moved <;> rfl

theorem StoredAs.of_step {setup : Setup} {s s' : Service} {action : Action} {id : Text}
    {request : Request} (stored : StoredAs setup.readers s.db id request)
    (stepped : Service.step setup s action = some s') :
    StoredAs setup.readers s'.db id request := by
  obtain ⟨metadata, payload, deviceId, receivedAt, report, carries, owner, found, same⟩ := stored
  obtain ⟨-, rfl⟩ := Table.find?_eq_some_iff.mp found
  obtain ⟨report', found', moved⟩ := reportStep_of_step stepped found
  exact ⟨metadata, payload, deviceId, receivedAt, report', carries, owner.of_step stepped, found',
    (inserted_of_reportStep moved).trans same⟩

/-- What the next statement of a call knows of the request. -/
theorem belongs_of_upload {setup : Setup} {draw : Api.Draw} {db : Database} {raw : Files}
    {pc : Upload} {result : Database × Files × Progress} {stored : List (Text × Request)}
    {request : Request} (belongs : Belongs setup.readers db stored request pc)
    (move : UploadMove setup.readers draw db raw pc result) {next : Upload}
    (running : result.2.2 = .running next) :
    Belongs setup.readers result.1 (noteStored request stored result.2.2) request next := by
  cases move with
  | @anonymous headers body unsigned =>
    obtain ⟨metadata, payload, parsed, checked, rfl⟩ := afterAuthentication_eq_running running
    obtain rfl : request = ⟨headers, body⟩ := belongs
    exact ⟨⟨parsed, checked⟩, by rw [Owner, Request.key, unsigned]⟩
  | @authenticated headers body pubkey deviceId db' signed upserted =>
    obtain ⟨metadata, payload, parsed, checked, rfl⟩ := afterAuthentication_eq_running running
    obtain rfl : request = ⟨headers, body⟩ := belongs
    refine ⟨⟨parsed, checked⟩, ?_⟩
    rw [Owner, Request.key, signed]
    exact ⟨deviceId, rfl, (Database.deviceOf_upsertDevice upserted).1⟩
  | placed =>
    obtain rfl := Progress.running.inj running
    exact belongs
  | written =>
    obtain rfl := Progress.running.inj running
    exact ⟨⟨_, belongs.1⟩, belongs.2⟩
  | reportInserted =>
    obtain rfl := Progress.running.inj running
    exact List.mem_cons_self
  | refused | known | cut | reportRefused | jobInserted | jobRefused => contradiction

/-- No other party starts or moves a call. -/
theorem uploads_of_other {setup : Setup} {s s' : Service} {action : Action}
    (stepped : Service.step setup s action = some s')
    (noRequest : ∀ call headers body, action ≠ .request call headers body)
    (noUpload : ∀ call draw, action ≠ .upload call draw) {call : ℕ} {pc : Upload}
    (current : s'.uploads call = some pc) : s.uploads call = some pc := by
  cases Service.move_of_step stepped with
  | requested call headers body => exact absurd rfl (noRequest call headers body)
  | @uploaded call draw => exact absurd rfl (noUpload call draw)
  | abandoned other =>
    rcases eq_or_ne call other with rfl | different
    · simp at current
    · simpa [different] using current
  | started | stopped | swept | halted | worked | collected => exact current

theorem calls_of_step {setup : Setup} {h h' : History} {action : Action}
    (remembered : Remembered setup h) (stepped : step setup h action = some h') {call : ℕ}
    {pc : Upload} (current : h'.service.uploads call = some pc) :
    ∃ request, h'.requests call = some request ∧
      Belongs setup.readers h'.service.db h'.stored request pc := by
  have moved := service_of_step stepped
  -- A call that does not move keeps its request.
  have keep {stored : List (Text × Request)} (before : h.service.uploads call = some pc)
      (grown : h.stored ⊆ stored) : ∃ request, h.requests call = some request ∧
        Belongs setup.readers h'.service.db stored request pc := by
    obtain ⟨request, known, belongs⟩ := remembered.calls call pc before
    exact ⟨request, known, belongs.of_step moved grown⟩
  cases move_of_step stepped with
  | @requested mover headers body free =>
    rcases eq_or_ne call mover with rfl | different
    · simp only [Function.update_self, Option.some.injEq] at current
      exact ⟨⟨headers, body⟩, Function.update_self call _ h.requests, current ▸ rfl⟩
    · dsimp only at current ⊢
      rw [Function.update_of_ne different] at current ⊢
      exact keep current (List.Subset.refl _)
  | @uploaded mover draw pc₀ request result before known move =>
    rcases eq_or_ne call mover with rfl | different
    · have running := running_of_afterUpload h.service call result current
      obtain ⟨request', known', belongs⟩ := remembered.calls call pc₀ before
      rw [known, Option.some.injEq] at known'
      refine ⟨request, known, ?_⟩
      have after := belongs_of_upload (known' ▸ belongs) move running
      simpa [note] using after
    · simp only [note] at current
      rw [afterUpload_uploads_of_ne _ _ _ different] at current
      exact keep current (subset_noteStored request h.stored result.2.2)
  | @forgotten mover draw pc₀ service before unknown =>
    obtain ⟨request, known, -⟩ := remembered.calls mover pc₀ before
    rw [unknown] at known
    contradiction
  | other stepped' noRequest noUpload =>
    exact keep (uploads_of_other stepped' noRequest noUpload current) (List.Subset.refl _)

/-- A report that is remembered as stored was so before, or has just been inserted by the call of
its request. -/
theorem stored_before_step {setup : Setup} {h h' : History} {action : Action}
    (stepped : step setup h action = some h') {id : Text} {request : Request}
    (stored : (id, request) ∈ h'.stored) :
    (id, request) ∈ h.stored ∨ ∃ call draw metadata deviceId, action = .upload call draw ∧
      h.service.uploads call = some (.insertReport metadata deviceId id) ∧
      h.requests call = some request ∧ h.service.db.reports.find? id = none ∧
      h'.service.db.reports.find? id =
        some (reportRow setup.readers metadata id deviceId draw.now) ∧
      h'.service.raw = h.service.raw := by
  cases move_of_step stepped with
  | requested | forgotten | other => exact .inl stored
  | @uploaded call draw pc request' result current known move =>
    cases move with
    | anonymous | authenticated =>
      left
      dsimp only [note] at stored
      rw [noteStored] at stored
      · exact stored
      · intro id' running
        obtain ⟨_, _, -, -, impossible⟩ := afterAuthentication_eq_running running
        contradiction
    | @reportInserted metadata deviceId reportId db' success inserted =>
      rcases List.mem_cons.mp stored with new | before
      · rw [Prod.mk.injEq] at new
        obtain ⟨rfl, rfl⟩ := new
        obtain ⟨added, -⟩ := Database.insertReport_spec inserted
        refine .inr ⟨call, draw, metadata, deviceId, rfl, current, known,
          Table.find?_of_insert_eq_some added, ?_, afterUpload_raw ..⟩
        exact (Table.find?_insert added id).trans (if_pos rfl)
      · exact .inl before
    | refused | known | placed | written | cut | reportRefused | jobInserted | jobRefused =>
      exact .inl stored

/-- An inserted report is remembered. -/
theorem stored_of_insertion {setup : Setup} {h h' : History} {call : ℕ} {draw : Api.Draw}
    (remembered : Remembered setup h) (stepped : step setup h (.upload call draw) = some h')
    {id : Text}
    (awaiting : h'.service.uploads call = some (.insertJob id)) :
    ∃ request, (id, request) ∈ h'.stored := by
  cases move_of_step stepped with
  | @uploaded _ _ pc request result current' known move =>
    have running := running_of_afterUpload h.service call result awaiting
    refine ⟨request, ?_⟩
    dsimp only [note]
    rw [running]
    exact List.mem_cons_self
  | @forgotten _ _ pc service current' unknown =>
    obtain ⟨request, known, -⟩ := remembered.calls call pc current'
    rw [unknown] at known
    contradiction
  | other stepped' noRequest noUpload => exact absurd rfl (noUpload call draw)

theorem stored_subset_of_step {setup : Setup} {h h' : History} {action : Action}
    (stepped : step setup h action = some h') : h.stored ⊆ h'.stored := by
  cases move_of_step stepped with
  | requested | forgotten | other => exact List.Subset.refl _
  | uploaded => exact subset_noteStored _ _ _

theorem remembered_of_step {setup : Setup} {h h' : History} {action : Action}
    (remembered : Remembered setup h) (stepped : step setup h action = some h') :
    Remembered setup h' where
  calls call pc current := calls_of_step remembered stepped current
  stored id request stored := by
    rcases stored_before_step stepped stored with
      before | ⟨call, draw, metadata, deviceId, -, current, known, -, found, -⟩
    · exact (remembered.stored id request before).of_step (service_of_step stepped)
    · obtain ⟨request', known', ⟨payload, carries⟩, owner⟩ := remembered.calls call _ current
      rw [known, Option.some.injEq] at known'
      subst known'
      exact ⟨metadata, payload, deviceId, draw.now, _, carries,
        owner.of_step (service_of_step stepped), found, rfl⟩
  complete id there := by
    obtain ⟨report, found⟩ := Option.isSome_iff_exists.mp there
    rcases report_before_step (service_of_step stepped) found with ⟨report, before, -⟩ | ⟨-, new⟩
    · obtain ⟨request, stored⟩ := remembered.complete id (Option.isSome_of_eq_some before)
      exact ⟨request, stored_subset_of_step stepped stored⟩
    · obtain ⟨call, draw, metadata, deviceId, rfl, -, -, uploads, -⟩ := new
      exact stored_of_insertion remembered stepped (by simp [uploads])
  once id request request' stored stored' := by
    have old {request : Request} (before : (id, request) ∈ h.stored) :
        (h.service.db.reports.find? id).isSome := by
      obtain ⟨_, _, _, _, report, -, -, found, -⟩ := remembered.stored id request before
      exact Option.isSome_of_eq_some found
    rcases stored_before_step stepped stored with
      before | ⟨call, draw, _, _, acted, -, known, absent, -⟩ <;>
    rcases stored_before_step stepped stored' with
      before' | ⟨call', draw', _, _, acted', -, known', absent', -⟩
    · exact remembered.once id request request' before before'
    · simp [absent'] at old
      exact (old before).elim
    · simp [absent] at old
      exact (old before').elim
    · rw [acted, Action.upload.injEq] at acted'
      rw [acted'.1, known', Option.some.injEq] at known
      exact known.symm

theorem remembered_of_run {setup : Setup} {h : History} {actions : List Action}
    (reached : Machine.run (step setup) {} actions = some h) : Remembered setup h :=
  Machine.invariant_of_every_run
    (fun _ _ _ invariant stepped => remembered_of_step invariant stepped) (.empty setup) reached

end UcrashReport.History
