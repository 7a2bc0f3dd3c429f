import UcrashReport.Server.Login
import UcrashReport.Soundness.HeldJobs

/-! # Rejected uploads

A request is rejected by the checks of its first step, before any report is stored. The device of a
verified request is registered among these checks, though: a rejected request leaves the row of its
device behind when it was signed, and nothing otherwise.
-/

namespace UcrashReport.Api

open Rust Rust.Text UcrashReport.Types

/-! ## The errors of the checks -/

theorem status_of_checkSignature {readers : Readers} {headers : Headers} {body : Bytes} {e : ApiError}
    (refused : checkSignature readers headers body = .error e) : e.status = 400 ∨ e.status = 401 := by
  unfold checkSignature at refused
  split at refused
  · contradiction
  · split at refused
    · exact .inr (Except.error.inj refused ▸ rfl)
    · split_ifs at refused
      · exact .inl (Except.error.inj refused ▸ rfl)
      · exact .inr (Except.error.inj refused ▸ rfl)

theorem status_of_collectFields {metadata : Option Text} {payload : Option Bytes} {fields : List Field}
    {e : ApiError} (refused : collectFields metadata payload fields = .error e) : e.status = 400 := by
  induction fields generalizing metadata payload with
  | nil => contradiction
  | cons field rest ih =>
    unfold collectFields at refused
    split_ifs at refused
    · split at refused
      · exact Except.error.inj refused ▸ rfl
      · split_ifs at refused
        · exact Except.error.inj refused ▸ rfl
        · exact ih refused
    · split at refused
      · exact Except.error.inj refused ▸ rfl
      · split_ifs at refused
        · exact Except.error.inj refused ▸ rfl
        · exact ih refused
    · exact ih refused

theorem status_of_parseMultipart {readers : Readers} {headers : Headers} {body : Bytes} {e : ApiError}
    (refused : parseMultipart readers headers body = .error e) : e.status = 400 := by
  unfold parseMultipart at refused
  split at refused
  · exact Except.error.inj refused ▸ rfl
  · split at refused
    · exact Except.error.inj refused ▸ rfl
    · split at refused
      · next collected =>
        exact status_of_collectFields (Except.error.inj refused ▸ collected)
      · split_ifs at refused
        · exact Except.error.inj refused ▸ rfl
        · split at refused
          · exact Except.error.inj refused ▸ rfl
          · exact Except.error.inj refused ▸ rfl
          · split at refused
            · exact Except.error.inj refused ▸ rfl
            · contradiction

theorem status_of_checkReport {readers : Readers} {metadata : ReportMetadata} {payload : Bytes}
    {e : ApiError} (refused : checkReport readers metadata payload = .error e) : e.status = 400 := by
  unfold checkReport at refused
  split_ifs at refused
  · exact Except.error.inj refused ▸ rfl
  · exact Except.error.inj refused ▸ rfl
  · exact Except.error.inj refused ▸ rfl

theorem status_of_afterAuthentication {readers : Readers} {headers : Headers} {body : Bytes}
    {deviceId : Option Text} {e : ApiError}
    (refused : afterAuthentication readers headers body deviceId = .failed e) : e.status = 400 := by
  unfold afterAuthentication at refused
  split at refused
  · next parsed => exact status_of_parseMultipart (Progress.failed.inj refused ▸ parsed)
  · split at refused
    · next checked => exact status_of_checkReport (Progress.failed.inj refused ▸ checked)
    · contradiction

/-! ## What a rejected request leaves -/

variable {readers : Readers} {draws : ℕ → Draw} {db : Database} {raw : Files}

/-- After its checks a call fails with an internal error only. -/
theorem error_of_serve {n : ℕ} {pc : Upload}
    (later : ∀ headers body, pc ≠ .authenticate headers body) {e : ApiError}
    (failed : (serve readers draws n db raw pc).2.2 = .failed e) : e = internalError := by
  induction n generalizing db raw pc with
  | zero => contradiction
  | succ n ih =>
    cases pc with
    | authenticate headers body => exact absurd rfl (later headers body)
    | lookup metadata payload deviceId =>
      rw [serve, postReport] at failed
      split_ifs at failed
      · cases placed : place db metadata.uuid deviceId (draws n).newId with
        | known => simp [placed] at failed
        | fresh reportId =>
          rw [placed] at failed
          exact ih (by simp) failed
      · exact (Progress.failed.inj failed).symm
    | write metadata payload deviceId reportId =>
      rw [serve, postReport] at failed
      cases written : (draws n).written with
      | whole =>
        rw [written] at failed
        exact ih (by simp) failed
      | cut | unopened =>
        rw [written] at failed
        exact (Progress.failed.inj failed).symm
    | insertReport metadata deviceId reportId =>
      rw [serve, postReport] at failed
      cases inserted : if (draws n).success then
          db.insertReport (reportRow readers metadata reportId deviceId (draws n).now) else none with
      | none =>
        rw [inserted] at failed
        exact (Progress.failed.inj failed).symm
      | some db' =>
        rw [inserted] at failed
        exact ih (by simp) failed
    | insertJob reportId =>
      rw [serve, postReport] at failed
      cases inserted : if (draws n).success then db.insertJob (draws n).newId reportId else none with
      | none =>
        rw [inserted] at failed
        exact (Progress.failed.inj failed).symm
      | some db' =>
        rw [inserted] at failed
        contradiction

/-- The answer to a request that does not pass the check of its signature. -/
theorem answer_of_refused {headers : Headers} {body : Bytes} {e : ApiError}
    (refused : checkSignature readers headers body = .error e) :
    answer readers draws db raw headers body = (db, raw, .failed e) := by
  rw [answer, serve, postReport, refused]

/-- The answer once it is known whose request it is. -/
theorem answer_of_checked {headers : Headers} {body : Bytes} {deviceId : Option Text} {db' : Database}
    (checked : postReport readers (draws 4) db raw (.authenticate headers body) =
      (db', raw, afterAuthentication readers headers body deviceId)) :
    answer readers draws db raw headers body =
      match afterAuthentication readers headers body deviceId with
      | .running next => serve readers draws 4 db' raw next
      | progress => (db', raw, progress) := by
  rw [answer, serve, checked]
  cases afterAuthentication readers headers body deviceId <;> rfl

/-- Without a key the request is nobody's. -/
theorem checked_of_anonymous {headers : Headers} {body : Bytes}
    (unsigned : checkSignature readers headers body = .ok none) :
    postReport readers (draws 4) db raw (.authenticate headers body) =
      (db, raw, afterAuthentication readers headers body none) := by
  rw [postReport, unsigned]

/-- Whose request it is, as the first step of its call finds out. -/
inductive Authentication (readers : Readers) (draws : ℕ → Draw) (db : Database) (raw : Files)
    (headers : Headers) (body : Bytes) : Prop
  | finished (e : ApiError) (isOver : answer readers draws db raw headers body = (db, raw, .failed e))
  | anonymous (unsigned : checkSignature readers headers body = .ok none)
      (checked : postReport readers (draws 4) db raw (.authenticate headers body) =
        (db, raw, afterAuthentication readers headers body none))
  | device (pubkey deviceId : Text) (db' : Database)
      (signed : checkSignature readers headers body = .ok (some pubkey))
      (upserted : db.upsertDevice (draws 4).newId pubkey (draws 4).now = some (db', deviceId))
      (checked : postReport readers (draws 4) db raw (.authenticate headers body) =
        (db', raw, afterAuthentication readers headers body (some deviceId)))

theorem authentication (readers : Readers) (draws : ℕ → Draw) (db : Database) (raw : Files)
    (headers : Headers) (body : Bytes) : Authentication readers draws db raw headers body := by
  cases signed : checkSignature readers headers body with
  | error e => exact .finished e (answer_of_refused signed)
  | ok key =>
    cases key with
    | none => exact .anonymous signed (checked_of_anonymous signed)
    | some pubkey =>
      cases upserted : if (draws 4).success then
          db.upsertDevice (draws 4).newId pubkey (draws 4).now else none with
      | none =>
        refine .finished internalError ?_
        rw [answer, serve, postReport, signed]
        dsimp only
        rw [upserted]
      | some result =>
        obtain ⟨db', deviceId⟩ := result
        refine .device pubkey deviceId db' signed (Option.ite_none_right_eq_some.mp upserted).2 ?_
        rw [postReport, signed]
        dsimp only
        rw [upserted]

/-- A rejected request is over with its first step. -/
theorem answer_of_rejected {headers : Headers} {body : Bytes} {deviceId : Option Text}
    {db' : Database}
    (checked : postReport readers (draws 4) db raw (.authenticate headers body) =
      (db', raw, afterAuthentication readers headers body deviceId)) {e : ApiError}
    (failed : (answer readers draws db raw headers body).2.2 = .failed e)
    (client : e.status < 500) :
    answer readers draws db raw headers body = (db', raw, .failed e) := by
  rw [answer_of_checked checked] at failed ⊢
  cases passed : afterAuthentication readers headers body deviceId with
  | running next =>
    rw [passed] at failed
    obtain ⟨metadata, payload, -, -, rfl⟩ := afterAuthentication_eq_running passed
    rw [error_of_serve (by simp) failed] at client
    exact absurd client (by decide)
  | created id => exact absurd passed (afterAuthentication_ne_created _ _ _ _ id)
  | failed e' =>
    rw [passed] at failed
    rw [Progress.failed.inj failed]

theorem rejected_upload_left {headers : Headers} {body : Bytes} {e : ApiError}
    (failed : (answer readers draws db raw headers body).2.2 = .failed e)
    (client : e.status < 500) :
    (answer readers draws db raw headers body).2.1 = raw ∧
      ((answer readers draws db raw headers body).1 = db ∨
        ∃ pubkey deviceId, checkSignature readers headers body = .ok (some pubkey) ∧
          db.upsertDevice (draws 4).newId pubkey (draws 4).now =
            some ((answer readers draws db raw headers body).1, deviceId)) := by
  cases authentication readers draws db raw headers body with
  | finished e' isOver =>
    rw [isOver]
    exact ⟨rfl, .inl rfl⟩
  | anonymous unsigned checked =>
    rw [answer_of_rejected checked failed client]
    exact ⟨rfl, .inl rfl⟩
  | device pubkey deviceId db' signed upserted checked =>
    rw [answer_of_rejected checked failed client]
    exact ⟨rfl, .inr ⟨pubkey, deviceId, signed, upserted⟩⟩

end UcrashReport.Api

namespace UcrashReport.Service

open Rust Rust.Text Api Decode

/-! ## Keys that nothing was signed with -/

/-- The request is not one that the key has signed. -/
def Unsigned (readers : Readers) (pubkey : Text) : Action → Prop
  | .request _ headers body => checkSignature readers headers body ≠ .ok (some pubkey)
  | _ => True

structure Unknown (readers : Readers) (pubkey : Text) (s : Service) : Prop where
  device : s.db.deviceOf pubkey = none
  calls : ∀ call headers body, s.uploads call = some (.authenticate headers body) →
    checkSignature readers headers body ≠ .ok (some pubkey)

theorem Unknown.empty (readers : Readers) (pubkey : Text) : Unknown readers pubkey {} :=
  ⟨rfl, fun _ _ _ none => by simp at none⟩

theorem devices_of_step {setup : Setup} {s s' : Service} {action : Action}
    (stepped : step setup s action = some s') :
    s'.db.devices = s.db.devices ∨ ∃ call draw headers body pubkey deviceId,
      action = .upload call draw ∧ s.uploads call = some (.authenticate headers body) ∧
        checkSignature setup.readers headers body = .ok (some pubkey) ∧
        s.db.upsertDevice draw.newId pubkey draw.now = some (s'.db, deviceId) := by
  cases move_of_step stepped with
  | requested | abandoned | started | stopped | swept | halted => exact .inl rfl
  | @uploaded call draw pc result current move =>
    rw [afterUpload_db]
    cases move with
    | @authenticated headers body pubkey deviceId db' signed upserted =>
      exact .inr ⟨call, draw, headers, body, pubkey, deviceId, rfl, current, signed, upserted⟩
    | reportInserted success inserted =>
      obtain ⟨reports, rfl⟩ := Database.eq_of_insertReport inserted
      exact .inl rfl
    | jobInserted inserted =>
      obtain ⟨jobs, rfl⟩ := Database.eq_of_insertJob inserted
      exact .inl rfl
    | refused | anonymous | known | placed | written | cut | reportRefused | jobRefused =>
      exact .inl rfl
  | worked current move =>
    left
    cases move with
    | claimed claim =>
      obtain ⟨jobs, rfl⟩ := Database.eq_of_claimJob claim
      rfl
    | grouped _ _ _ upserted =>
      obtain ⟨groups, rfl⟩ := Database.eq_of_upsertGroup upserted
      rfl
    | rested | loaded | read | stored | finished | removed | keptRaw | gaveUp | closed
    | leftRunning | markedFailed | leftUnmarked => rfl
  | collected current move => cases move <;> exact .inl rfl

/-- A call that is about to authenticate was so before, or is a new request. -/
theorem authenticate_before_step {setup : Setup} {s s' : Service} {action : Action}
    (stepped : step setup s action = some s') {call : ℕ} {headers : Headers} {body : Bytes}
    (current : s'.uploads call = some (.authenticate headers body)) :
    s.uploads call = some (.authenticate headers body) ∨ action = .request call headers body := by
  cases move_of_step stepped with
  | requested other headers' body' =>
    rcases eq_or_ne call other with rfl | different
    · dsimp only at current
      rw [Function.update_self, Option.some.injEq, Upload.authenticate.injEq] at current
      exact .inr (by rw [current.1, current.2])
    · exact .inl (by simpa [different] using current)
  | abandoned other =>
    rcases eq_or_ne call other with rfl | different
    · simp at current
    · exact .inl (by simpa [different] using current)
  | started | stopped | swept | halted | worked | collected => exact .inl current
  | @uploaded other draw pc result before move =>
    rcases eq_or_ne call other with rfl | different
    · have running := running_of_afterUpload s call result current
      cases move with
      | anonymous | authenticated =>
        obtain ⟨metadata, payload, -, -, impossible⟩ := afterAuthentication_eq_running running
        contradiction
      | refused | known | placed | written | cut | reportInserted | reportRefused | jobInserted
      | jobRefused => simp at running
    · rw [afterUpload_uploads_of_ne _ _ _ different] at current
      exact .inl current

theorem unknown_of_step {setup : Setup} {s s' : Service} {action : Action} {pubkey : Text}
    (unknown : Unknown setup.readers pubkey s) (unsigned : Unsigned setup.readers pubkey action)
    (stepped : step setup s action = some s') : Unknown setup.readers pubkey s' where
  device := by
    rcases devices_of_step stepped with
      same | ⟨call, draw, headers, body, other, deviceId, -, current, signed, upserted⟩
    · rw [Database.deviceOf, same]
      exact unknown.device
    · refine Database.deviceOf_upsertDevice_of_ne upserted ?_ unknown.device
      rintro rfl
      exact unknown.calls call headers body current signed
  calls call headers body current := by
    rcases authenticate_before_step stepped current with before | rfl
    · exact unknown.calls call headers body before
    · exact unsigned

/-- The device is refused a challenge. -/
theorem challenge_of_unknown (libs : LoginLibs) (draw : LoginDraw) {db : Database} (nonces : Nonces)
    {pubkey : Text} (unknown : db.deviceOf pubkey = none) :
    ∃ e, loginStep libs draw db nonces (.challenge pubkey) = (db, nonces, .answered (.error e)) := by
  rw [loginStep, unknown]
  split_ifs <;> exact ⟨_, rfl⟩

/-- A rejected request leaves reports, jobs and payloads as they were, and the whole database unless
it carries a valid signature, when it has registered or refreshed the device of the key. A key that
nothing was ever signed with is refused a challenge. -/
theorem rejected_uploads_leave_no_report (setup : Setup) :
    (∀ draws db raw headers body e,
      (answer setup.readers draws db raw headers body).2.2 = .failed e → 400 ≤ e.status →
        e.status < 500 →
      (answer setup.readers draws db raw headers body).1.reports = db.reports ∧
        (answer setup.readers draws db raw headers body).1.jobs = db.jobs ∧
        (answer setup.readers draws db raw headers body).2.1 = raw ∧
        ((answer setup.readers draws db raw headers body).1 = db ∨
          ∃ pubkey deviceId, checkSignature setup.readers headers body = .ok (some pubkey) ∧
            db.upsertDevice (draws 4).newId pubkey (draws 4).now =
              some ((answer setup.readers draws db raw headers body).1, deviceId))) ∧
    ∀ actions s pubkey, Machine.run (step setup) {} actions = some s →
      (∀ action ∈ actions, Unsigned setup.readers pubkey action) →
        ∀ libs draw nonces, ∃ e,
          loginStep libs draw s.db nonces (.challenge pubkey) = (s.db, nonces, .answered (.error e)) := by
  refine ⟨fun draws db raw headers body e failed _ client => ?_,
    fun actions s pubkey reached unsigned libs draw nonces => ?_⟩
  · obtain ⟨payloads, same | ⟨pubkey, deviceId, signed, upserted⟩⟩ :=
      rejected_upload_left failed client
    · exact ⟨by rw [same], by rw [same], payloads, .inl same⟩
    · obtain ⟨reports, jobs⟩ := Database.upsertDevice_frame upserted
      exact ⟨reports, jobs, payloads, .inr ⟨pubkey, deviceId, signed, upserted⟩⟩
  · have unknown : Unknown setup.readers pubkey s := Machine.invariant_of_run
      (fun _ _ _ invariant meets stepped => unknown_of_step invariant meets stepped)
      (.empty _ pubkey) (Machine.meets_of_forall fun action member _ => unsigned action member) reached
    exact challenge_of_unknown libs draw nonces unknown.device

/-! ## Concrete requests -/

/-- A server on which no uuid can be read. -/
def demoStrictSetup : Setup :=
  { demoSetup with readers := { demoSetup.readers with parseUuid := fun _ => false } }

/-- The uuid of a signed upload is refused: its device is known from then on, and gets a nonce. -/
theorem rejected_upload_registers_device :
    let left := answer demoStrictSetup.readers (fun _ => { newId := "d1".toList }) {} (fun _ => none)
      ⟨some "key".toList, some "sig".toList, some "u1".toList⟩ [1]
    left.2.2 = .failed ⟨400, "invalid uuid".toList⟩ ∧
      left.1.devices.rows = [⟨"d1".toList, "key".toList, 0, 0⟩] ∧
      (loginStep ⟨demoStrictSetup.readers, fun _ => []⟩ {} left.1 (fun _ => none)
        (.challenge "key".toList)).2.2 = .running (.issue "key".toList) := by
  decide +kernel

instance (readers : Readers) (pubkey : Text) : ∀ action, Decidable (Unsigned readers pubkey action)
  | .request _ headers body =>
    inferInstanceAs (Decidable (checkSignature readers headers body ≠ .ok (some pubkey)))
  | .upload _ _ | .abandon _ | .start _ | .work _ _ | .stop _ | .sweep _ | .collect _ _ | .halt _ =>
    inferInstanceAs (Decidable True)

/-- A server that reads every uuid but one. -/
def demoPickySetup : Setup :=
  { demoSetup with readers := { demoSetup.readers with parseUuid := fun uuid => uuid ≠ "u".toList } }

/-- The answer to another upload of the same device, with that one. -/
def demoRefused (s : Service) : Database × Files × Progress :=
  answer demoPickySetup.readers (fun _ => { now := 9 }) s.db s.raw
    ⟨some "key".toList, some "sig".toList, some "u".toList⟩ [2]

/-- A refused upload refreshes its device and leaves the rest as it is. Another key is refused a
challenge. -/
theorem refused_upload_refreshes_device :
    ∃ s, Machine.run (step demoPickySetup) {} (demoUpload 0) = some s ∧
      s.db.reports.rows.map (·.id) = ["u1".toList] ∧ s.db.jobs.rows.map (·.id) = ["j1".toList] ∧
      (demoRefused s).2.2 = .failed ⟨400, "invalid uuid".toList⟩ ∧
      (demoRefused s).1.reports = s.db.reports ∧ (demoRefused s).1.jobs = s.db.jobs ∧
      (demoRefused s).2.1 = s.raw ∧
      (demoRefused s).1.devices.rows = [⟨"d1".toList, "key".toList, 0, 9⟩] ∧
      (∃ pubkey deviceId, s.db.upsertDevice [] pubkey 9 = some ((demoRefused s).1, deviceId)) ∧
      ∀ libs draw nonces, ∃ e, loginStep libs draw s.db nonces (.challenge "other".toList) =
        (s.db, nonces, .answered (.error e)) := by
  have rows : (Machine.run (step demoPickySetup) {} (demoUpload 0)).any (fun s =>
      s.db.reports.rows.map (·.id) = ["u1".toList] && s.db.jobs.rows.map (·.id) = ["j1".toList] &&
      s.db.devices.rows.map (·.lastSeen) = [0] &&
      (demoRefused s).2.2 = .failed ⟨400, "invalid uuid".toList⟩ &&
      (demoRefused s).1.devices.rows = [⟨"d1".toList, "key".toList, 0, 9⟩]) = true := by
    decide +kernel
  obtain ⟨s, reached, holds⟩ := (Option.any_eq_true _ _).mp rows
  simp only [Bool.and_eq_true, decide_eq_true_eq] at holds
  obtain ⟨⟨⟨⟨reports, jobs⟩, before⟩, failed⟩, after⟩ := holds
  obtain ⟨refused, unknown⟩ := rejected_uploads_leave_no_report demoPickySetup
  obtain ⟨sameReports, sameJobs, sameRaw, left⟩ :=
    refused _ s.db s.raw _ _ _ failed (by decide) (by decide)
  refine ⟨s, reached, reports, jobs, failed, sameReports, sameJobs, sameRaw, after, ?_,
    unknown _ s _ reached (by decide +kernel)⟩
  rcases left with same | ⟨pubkey, deviceId, -, upserted⟩
  · rw [demoRefused, same] at after
    rw [after] at before
    exact absurd before (by decide)
  · exact ⟨pubkey, deviceId, upserted⟩

end UcrashReport.Service
