import UcrashReport.Soundness.GroupRows
import UcrashReport.Soundness.RejectedUploads
import UcrashReport.Store.Upserts

/-! # Devices and groups as summaries

The first request that a key has signed registers its device, and the first report of a signature makes
its group; every later one sets when they were last seen. So both tables say no more and no less than
the statements that went through: however uploads and workers get in between each other and whatever
fails, a row is the first one that was offered, with the time of the last.
-/

namespace UcrashReport.Service

open Rust Rust.Text Store Api Decode Signature

/-! ## What is offered -/

/-- The key that has signed the request of a call that is about to authenticate. -/
def signer (readers : Readers) : Upload → Option Text
  | .authenticate headers body => (checkSignature readers headers body).toOption.join
  | _ => none

/-- The device that a step offers, if its statement goes through. -/
def offeredDevice (setup : Setup) (s : Service) : Action → Option DeviceRow
  | .upload call draw => do
    let pubkey ← (s.uploads call).bind (signer setup.readers)
    if draw.success && (s.db.upsertDevice draw.newId pubkey draw.now).isSome then
      some ⟨draw.newId, pubkey, draw.now, draw.now⟩
    else none
  | _ => none

/-- The report that a worker is about to file, and its signature. -/
def toFile : Worker → Option (ReportRow × CrashSignature)
  | .group _ report sig => some (report, sig)
  | _ => none

/-- The group that a step offers, if its statement goes through. -/
def offeredGroup (s : Service) : Action → Option GroupRow
  | .work worker draw => do
    let (report, sig) ← (s.workers worker).bind toFile
    let row := groupRow report sig draw.newId draw.now
    if draw.success && (s.db.upsertGroup row).isSome then some row else none
  | _ => none

def refreshDevice (known row : DeviceRow) : DeviceRow := { known with lastSeen := row.lastSeen }

def refreshGroup (known row : GroupRow) : GroupRow := { known with lastSeen := row.lastSeen }

theorem refreshes_device : Refreshes DeviceRow.pubkey refreshDevice where
  tag _ _ := rfl
  self _ := rfl
  again _ _ _ := rfl

theorem refreshes_group : Refreshes GroupRow.signature refreshGroup where
  tag _ _ := rfl
  self _ := rfl
  again _ _ _ := rfl

/-! ## Statements -/

theorem upserts_of_upsertDevice {db db' : Database} {id pubkey deviceId : Text} {ts : ℤ}
    (upserted : db.upsertDevice id pubkey ts = some (db', deviceId)) :
    Upserts DeviceRow.pubkey refreshDevice ⟨id, pubkey, ts, ts⟩ db.devices.rows db'.devices.rows := by
  rw [Database.upsertDevice] at upserted
  cases known : db.devices.rows.find? fun row => row.pubkey = pubkey with
  | some row =>
    rw [known, Option.some.injEq, Prod.mk.injEq] at upserted
    obtain ⟨rfl, -⟩ := upserted
    have there : tagged DeviceRow.pubkey db.devices.rows (DeviceRow.pubkey ⟨id, pubkey, ts, ts⟩) =
        some row := known
    exact Table.upserts_update refreshes_device there fun _ => rfl
  | none =>
    rw [known, Option.map_eq_some_iff] at upserted
    obtain ⟨devices, inserted, same⟩ := upserted
    obtain ⟨rfl, -⟩ := Prod.mk.inj same
    exact Table.upserts_insert (by exact known) inserted

theorem upserts_of_upsertGroup {db db' : Database} {row : GroupRow} {groupId : Text}
    (upserted : db.upsertGroup row = some (db', groupId)) :
    Upserts GroupRow.signature refreshGroup row db.groups.rows db'.groups.rows := by
  rw [Database.upsertGroup] at upserted
  cases known : db.groups.rows.find? fun other => other.signature = row.signature with
  | some other =>
    rw [known, Option.some.injEq, Prod.mk.injEq] at upserted
    obtain ⟨rfl, -⟩ := upserted
    exact Table.upserts_update refreshes_group known fun _ => rfl
  | none =>
    rw [known, Option.map_eq_some_iff] at upserted
    obtain ⟨groups, inserted, same⟩ := upserted
    obtain ⟨rfl, -⟩ := Prod.mk.inj same
    exact Table.upserts_insert known inserted

/-! ## Steps -/

variable {setup : Setup} {s s' : Service} {action : Action}

theorem signer_eq_some {readers : Readers} {pc : Upload} {pubkey : Text}
    (signed : signer readers pc = some pubkey) :
    ∃ headers body, pc = .authenticate headers body ∧
      checkSignature readers headers body = .ok (some pubkey) := by
  cases pc with
  | authenticate headers body =>
    refine ⟨headers, body, rfl, ?_⟩
    rw [signer] at signed
    cases checked : checkSignature readers headers body with
    | error e => simp [checked, Except.toOption] at signed
    | ok key => simpa [checked, Except.toOption] using signed
  | lookup | write | insertReport | insertJob => contradiction

/-- A device that is offered is upserted. -/
theorem device_upserted_of_step (stepped : step setup s action = some s') {row : DeviceRow}
    (offered : offeredDevice setup s action = some row) :
    Upserts DeviceRow.pubkey refreshDevice row s.db.devices.rows s'.db.devices.rows := by
  cases action with
  | upload call draw =>
    obtain ⟨pubkey, signed, offered⟩ := Option.bind_eq_some_iff.mp offered
    obtain ⟨pc, current, signed⟩ := Option.bind_eq_some_iff.mp signed
    obtain ⟨headers, body, rfl, checked⟩ := signer_eq_some signed
    rw [Option.ite_none_right_eq_some, Bool.and_eq_true] at offered
    obtain ⟨⟨success, through⟩, same⟩ := offered
    obtain ⟨⟨db', deviceId⟩, upserted⟩ := Option.isSome_iff_exists.mp through
    rw [step, current, Option.map_some, Option.some.injEq] at stepped
    subst stepped
    rw [afterUpload_db, postReport, checked]
    simp only [success, if_true, upserted]
    exact Option.some.inj same ▸ upserts_of_upsertDevice upserted
  | request | abandon | start | work | stop | sweep | collect | halt => contradiction

/-- When none is offered all devices stay as they are. -/
theorem devices_kept_of_step (stepped : step setup s action = some s')
    (silent : offeredDevice setup s action = none) : s'.db.devices.rows = s.db.devices.rows := by
  rcases devices_of_step stepped with
    same | ⟨call, draw, headers, body, pubkey, deviceId, rfl, current, checked, upserted⟩
  · rw [same]
  · have failed : draw.success = false := by
      simpa [offeredDevice, current, signer, checked, Except.toOption, upserted] using silent
    rw [step, current, Option.map_some, Option.some.injEq] at stepped
    subst stepped
    rw [afterUpload_db, postReport, checked]
    simp [failed]

theorem group_upserted_of_step (stepped : step setup s action = some s') {row : GroupRow}
    (offered : offeredGroup s action = some row) :
    Upserts GroupRow.signature refreshGroup row s.db.groups.rows s'.db.groups.rows := by
  cases action with
  | work worker draw =>
    obtain ⟨⟨report, sig⟩, filing, offered⟩ := Option.bind_eq_some_iff.mp offered
    obtain ⟨pc, current, filing⟩ := Option.bind_eq_some_iff.mp filing
    cases pc with
    | group job report' sig' =>
      obtain ⟨rfl, rfl⟩ := Prod.mk.inj (Option.some.inj filing)
      rw [Option.ite_none_right_eq_some, Bool.and_eq_true] at offered
      obtain ⟨⟨success, through⟩, same⟩ := offered
      obtain ⟨⟨db', groupId⟩, upserted⟩ := Option.isSome_iff_exists.mp through
      rw [step, current, Option.map_some, Option.some.injEq] at stepped
      subst stepped
      rw [Decode.work]
      simp only [success, if_true, upserted]
      exact Option.some.inj same ▸ upserts_of_upsertGroup upserted
    | idle | load | read | store | finish | remove | close | markFailed => contradiction
  | request | upload | abandon | start | stop | sweep | collect | halt => contradiction

theorem groups_kept_of_step (stepped : step setup s action = some s')
    (silent : offeredGroup s action = none) : s'.db.groups.rows = s.db.groups.rows := by
  rcases groups_of_step stepped with
    same | ⟨worker, draw, job, report, sig, groupId, rfl, current, upserted, -⟩
  · rw [same]
  · have failed : draw.success = false := by
      simpa [offeredGroup, current, toFile, upserted] using silent
    rw [step, current, Option.map_some, Option.some.injEq] at stepped
    subst stepped
    rw [Decode.work]
    simp [failed, afterWork]

/-! ## Runs -/

/-- In every run no two devices have a key in common and no two groups a signature, and the row of a
key or a signature is the first one that was offered for it, with the time of the last one; there is
none exactly when none was offered. -/
theorem upserted_rows_of_run (setup : Setup) {actions : List Action} {s : Service}
    (reached : Machine.run (step setup) {} actions = some s) :
    let devices := Machine.events (step setup) (offeredDevice setup) {} actions
    let groups := Machine.events (step setup) offeredGroup {} actions
    (s.db.devices.rows.map (·.pubkey)).Nodup ∧ (s.db.groups.rows.map (·.signature)).Nodup ∧
      (∀ pubkey, (s.db.devices.rows.find? fun row => row.pubkey = pubkey) = do
        let first ← devices.find? fun row => row.pubkey = pubkey
        let last ← devices.reverse.find? fun row => row.pubkey = pubkey
        return { first with lastSeen := last.lastSeen }) ∧
      ∀ signature, (s.db.groups.rows.find? fun row => row.signature = signature) = do
        let first ← groups.find? fun row => row.signature = signature
        let last ← groups.reverse.find? fun row => row.signature = signature
        return { first with lastSeen := last.lastSeen } := by
  obtain ⟨distinctKeys, devices⟩ := tagged_of_run refreshes_device (fun s => s.db.devices.rows) rfl
    (fun _ _ _ stepped silent => devices_kept_of_step stepped silent)
    (fun _ _ _ _ stepped offered => device_upserted_of_step stepped offered) reached
  obtain ⟨distinctSignatures, groups⟩ := tagged_of_run refreshes_group (fun s => s.db.groups.rows) rfl
    (fun _ _ _ stepped silent => groups_kept_of_step stepped silent)
    (fun _ _ _ _ stepped offered => group_upserted_of_step stepped offered) reached
  refine ⟨distinctKeys, distinctSignatures, fun pubkey => (devices pubkey).trans ?_,
    fun signature => (groups signature).trans ?_⟩
  · simp only [Store.summary, tagged, Option.map_eq_bind]
    rfl
  · simp only [Store.summary, tagged, Option.map_eq_bind]
    rfl

/-! ## Concrete runs -/

/-- An upload signed with the same key, and the decode of its report. -/
def demoFiled (call : ℕ) (uuid : Text) (now : ℤ) : List Action :=
  [.request call ⟨some "key".toList, some "sig".toList, some uuid⟩ [1],
    .upload call { newId := "d".toList ++ uuid, now }, .upload call {}, .upload call {},
    .upload call {}, .upload call { newId := "j".toList ++ uuid }, .work 0 {}, .work 0 {}, .work 0 {},
    .work 0 {}, .work 0 { newId := "g".toList ++ uuid, now := now + 5 }, .work 0 {}, .work 0 {},
    .work 0 {}]

/-- Two reports of one device that belong to one group. -/
theorem demoFiled_summarized :
    ∃ s, Machine.run (step demoSetup) {}
        (.start 0 :: demoFiled 0 "1".toList 10 ++ demoFiled 1 "2".toList 20) = some s ∧
      s.db.devices.rows = [⟨"d1".toList, "key".toList, 10, 20⟩] ∧
      s.db.groups.rows.map (fun row => (row.id, row.firstSeen, row.lastSeen)) =
        [("g1".toList, 15, 25)] ∧ (s.db.groups.rows.map (·.signature)).Nodup := by
  have shown : (Machine.run (step demoSetup) {}
      (.start 0 :: demoFiled 0 "1".toList 10 ++ demoFiled 1 "2".toList 20)).any (fun s =>
        s.db.devices.rows = [⟨"d1".toList, "key".toList, 10, 20⟩] &&
          s.db.groups.rows.map (fun row => (row.id, row.firstSeen, row.lastSeen)) =
            [("g1".toList, 15, 25)]) = true := by decide +kernel
  obtain ⟨s, reached, holds⟩ := (Option.any_eq_true _ _).mp shown
  simp only [Bool.and_eq_true, decide_eq_true_eq] at holds
  exact ⟨s, reached, holds.1, holds.2, (upserted_rows_of_run demoSetup reached).2.1⟩

end UcrashReport.Service
