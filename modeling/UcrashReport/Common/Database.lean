import UcrashReport.Rust.Text
import UcrashReport.Store.Table
import Mathlib.Logic.Function.Basic

/-! # The database

The tables that the server and the decoder share, with the columns their statements read, and each
statement as one function. A statement that breaks a constraint yields nothing, as it fails with
an error and leaves the database alone; references between tables are enforced.
-/

namespace UcrashReport

open Rust Rust.Text Store

structure DeviceRow where
  id : Text
  pubkey : Text
  firstSeen : ℤ
  lastSeen : ℤ
deriving DecidableEq, Repr

structure GroupRow where
  id : Text
  signature : Text
  kind : Text
  title : Text
  modules : Text
  firstSeen : ℤ
  lastSeen : ℤ
  firstSeenVersion : Text
deriving DecidableEq, Repr

inductive ReportState
  | received
  | decoded
  | failed
deriving DecidableEq, Repr

inductive Visibility
  | «private»
  | «public»
deriving DecidableEq, Repr

structure ReportRow where
  id : Text
  deviceId : Option Text
  kind : Text
  receivedAt : ℤ
  capturedAt : ℤ
  version : Text
  revision : Text
  target : Text
  arch : Text
  boardName : Text
  kernel : Text
  kernelBuildid : Option Text
  payloadEncoding : Text
  state : ReportState := .received
  visibility : Visibility := .«private»
  groupId : Option Text := none
  publishSlug : Option Text := none
  rawDeletedAt : Option ℤ := none
deriving DecidableEq, Repr

/-- The row as it was inserted: without what is set later. -/
def ReportRow.inserted (row : ReportRow) : ReportRow :=
  { row with
    state := .received, visibility := .«private», groupId := none, publishSlug := none
    rawDeletedAt := none }

inductive JobState
  | pending
  | running
  | done
  | failed
deriving DecidableEq, Repr

structure JobRow where
  id : Text
  reportId : Text
  state : JobState := .pending
  attempts : ℤ := 0
  lastError : Option Text := none
deriving DecidableEq, Repr

structure TokenRow where
  tokenHash : Text
  deviceId : Text
  expires : ℤ
deriving DecidableEq, Repr

structure Database where
  devices : Table Text DeviceRow DeviceRow.id := .empty
  tokens : Table Text TokenRow TokenRow.tokenHash := .empty
  groups : Table Text GroupRow GroupRow.id := .empty
  reports : Table Text ReportRow ReportRow.id := .empty
  jobs : Table Text JobRow JobRow.id := .empty

namespace Database

/-! ## Statements of the server -/

/-- Insert a device or, when its key is known, refresh it; either way its id is returned. -/
def upsertDevice (db : Database) (id pubkey : Text) (ts : ℤ) : Option (Database × Text) :=
  match db.devices.rows.find? fun row => row.pubkey = pubkey with
  | some known =>
    some ({ db with
      devices := db.devices.update known.id (fun row => { row with lastSeen := ts })
        (fun _ => rfl) }, known.id)
  | none =>
    (db.devices.insert ⟨id, pubkey, ts, ts⟩).map fun devices => ({ db with devices }, id)

def insertReport (db : Database) (row : ReportRow) : Option Database :=
  if row.deviceId.all fun device => (db.devices.find? device).isSome then
    (db.reports.insert row).map fun reports => { db with reports }
  else none

def insertJob (db : Database) (id reportId : Text) : Option Database :=
  if (db.reports.find? reportId).isSome then
    (db.jobs.insert { id, reportId }).map fun jobs => { db with jobs }
  else none

/-- `SELECT device_id FROM device_token WHERE token_hash = ? AND expires > ?`. -/
def tokenDevice (db : Database) (tokenHash : Text) (now : ℤ) : Option Text :=
  ((db.tokens.find? tokenHash).filter fun row => now < row.expires).map (·.deviceId)

def insertToken (db : Database) (row : TokenRow) : Option Database :=
  if (db.devices.find? row.deviceId).isSome then
    (db.tokens.insert row).map fun tokens => { db with tokens }
  else none

/-- `DELETE FROM device_token WHERE expires < ?`. -/
def deleteTokens (db : Database) (now : ℤ) : Database :=
  { db with tokens := db.tokens.delete fun row => row.expires < now }

/-- Make a report public under a slug, which no other report may have. -/
def setPublic (db : Database) (id slug : Text) : Option Database :=
  if (db.reports.find? id).isSome &&
      db.reports.rows.any fun row => row.id ≠ id && row.publishSlug = some slug then none
  else
    some { db with
      reports := db.reports.update id
        (fun row => { row with visibility := .«public», publishSlug := some slug }) (fun _ => rfl) }

def setPrivate (db : Database) (id : Text) : Database :=
  { db with
    reports := db.reports.update id
      (fun row => { row with visibility := .«private», publishSlug := none }) (fun _ => rfl) }

/-! ## Statements of the decoder -/

/-- `ORDER BY id LIMIT 1` among the pending jobs. -/
def oldestPending (db : Database) : Option JobRow :=
  (db.jobs.rows.filter fun job => job.state = .pending).foldl
    (fun best job =>
      match best with
      | none => some job
      | some first => if job.id < first.id then some job else some first) none

/-- Set the oldest pending job running and return it as it is then. -/
def claimJob (db : Database) : Database × Option JobRow :=
  match db.oldestPending with
  | none => (db, none)
  | some job =>
    let claim (row : JobRow) : JobRow :=
      { row with state := .running, attempts := row.attempts + 1 }
    ({ db with jobs := db.jobs.update job.id claim (fun _ => rfl) }, some (claim job))

def updateJob (db : Database) (id : Text) (state : JobState) (lastError : Option Text) :
    Database :=
  { db with
    jobs := db.jobs.update id
      (fun row => { row with state, lastError := lastError.or row.lastError }) (fun _ => rfl) }

/-- `SELECT id` of the failed reports whose raw payload is due. -/
def failedReports (db : Database) (cutoff : ℤ) : List Text :=
  (db.reports.rows.filter fun row =>
    row.state = .failed && row.rawDeletedAt.isNone && decide (row.receivedAt < cutoff)).map (·.id)

def setRawDeletedAt (db : Database) (id : Text) (ts : ℤ) : Database :=
  { db with
    reports := db.reports.update id (fun row => { row with rawDeletedAt := some ts })
      (fun _ => rfl) }

def setDecoded (db : Database) (id groupId : Text) (ts : ℤ) : Database :=
  { db with
    reports := db.reports.update id
      (fun row => { row with
        state := .decoded, groupId := some groupId, rawDeletedAt := some ts })
      (fun _ => rfl) }

def setFailed (db : Database) (id : Text) : Database :=
  { db with
    reports := db.reports.update id (fun row => { row with state := .failed }) (fun _ => rfl) }

/-- Insert a crash group or refresh the one with the same signature; its id is returned. -/
def upsertGroup (db : Database) (group : GroupRow) : Option (Database × Text) :=
  match db.groups.rows.find? fun row => row.signature = group.signature with
  | some known =>
    some ({ db with
      groups := db.groups.update known.id (fun row => { row with lastSeen := group.lastSeen })
        (fun _ => rfl) }, known.id)
  | none => (db.groups.insert group).map fun groups => ({ db with groups }, group.id)

/-! ## What the statements change -/

variable {db db' : Database}

theorem upsertDevice_frame {id pubkey deviceId : Text} {ts : ℤ}
    (upserted : db.upsertDevice id pubkey ts = some (db', deviceId)) :
    db'.reports = db.reports ∧ db'.jobs = db.jobs := by
  rw [upsertDevice] at upserted
  cases known : db.devices.rows.find? fun row => row.pubkey = pubkey with
  | some row =>
    rw [known, Option.some.injEq, Prod.mk.injEq] at upserted
    exact upserted.1 ▸ ⟨rfl, rfl⟩
  | none =>
    rw [known, Option.map_eq_some_iff] at upserted
    obtain ⟨devices, -, same⟩ := upserted
    rw [Prod.mk.injEq] at same
    exact same.1 ▸ ⟨rfl, rfl⟩

theorem upsertGroup_frame {group : GroupRow} {groupId : Text}
    (upserted : db.upsertGroup group = some (db', groupId)) :
    db'.reports = db.reports ∧ db'.jobs = db.jobs := by
  rw [upsertGroup] at upserted
  cases known : db.groups.rows.find? fun row => row.signature = group.signature with
  | some row =>
    rw [known, Option.some.injEq, Prod.mk.injEq] at upserted
    exact upserted.1 ▸ ⟨rfl, rfl⟩
  | none =>
    rw [known, Option.map_eq_some_iff] at upserted
    obtain ⟨groups, -, same⟩ := upserted
    rw [Prod.mk.injEq] at same
    exact same.1 ▸ ⟨rfl, rfl⟩

theorem insertReport_spec {row : ReportRow} (inserted : db.insertReport row = some db') :
    db.reports.insert row = some db'.reports ∧ db'.jobs = db.jobs := by
  rw [insertReport, Option.ite_none_right_eq_some] at inserted
  obtain ⟨reports, added, rfl⟩ := Option.map_eq_some_iff.mp inserted.2
  exact ⟨added, rfl⟩

/-- A job is inserted for a report that is there. -/
theorem insertJob_spec {id reportId : Text} (inserted : db.insertJob id reportId = some db') :
    db'.reports = db.reports ∧ (db.reports.find? reportId).isSome ∧
      db.jobs.insert { id, reportId } = some db'.jobs := by
  rw [insertJob, Option.ite_none_right_eq_some] at inserted
  obtain ⟨jobs, added, rfl⟩ := Option.map_eq_some_iff.mp inserted.2
  exact ⟨rfl, inserted.1, added⟩

theorem oldestPending_spec {job : JobRow} (oldest : db.oldestPending = some job) :
    job ∈ db.jobs.rows ∧ job.state = .pending := by
  have chosen (pending : List JobRow) (best : Option JobRow) :
      ∀ job ∈ pending.foldl (fun best job =>
        match best with
        | none => some job
        | some first => if job.id < first.id then some job else some first) best,
        best = some job ∨ job ∈ pending := by
    induction pending generalizing best with
    | nil => exact fun job found => .inl found
    | cons next pending ih =>
      intro job found
      rcases ih _ job found with kept | later
      · cases best with
        | none => exact .inr (Option.some.inj kept ▸ List.mem_cons_self)
        | some first =>
          dsimp only at kept
          split_ifs at kept
          · exact .inr (Option.some.inj kept ▸ List.mem_cons_self)
          · exact .inl kept
      · exact .inr (List.mem_cons_of_mem next later)
  rcases chosen _ none job oldest with impossible | member
  · exact nomatch impossible
  · simpa using List.mem_filter.mp member

/-- A claim sets one pending job running, and every other job stays as it is. -/
theorem claimJob_spec {row : JobRow} (claimed : db.claimJob = (db', some row)) :
    db'.reports = db.reports ∧
      (∃ old ∈ db.jobs.rows, old.state = .pending ∧
        row = { old with state := .running, attempts := old.attempts + 1 }) ∧
      ∀ job ∈ db'.jobs.rows, job = row ∨ job ∈ db.jobs.rows ∧ job.id ≠ row.id := by
  rw [claimJob] at claimed
  cases oldest : db.oldestPending with
  | none => simp [oldest] at claimed
  | some old =>
    obtain ⟨member, pending⟩ := oldestPending_spec oldest
    rw [oldest] at claimed
    simp only [Prod.mk.injEq, Option.some.injEq] at claimed
    obtain ⟨rfl, rfl⟩ := claimed
    refine ⟨rfl, ⟨old, member, pending, rfl⟩, fun job inRows => ?_⟩
    obtain ⟨before, wasInRows, rfl⟩ := List.mem_map.mp inRows
    split_ifs with same
    · have unique := List.inj_on_of_nodup_map db.jobs.unique wasInRows member same
      exact .inl (by rw [unique])
    · exact .inr ⟨wasInRows, same⟩

theorem mem_jobs_updateJob {id : Text} {state : JobState} {lastError : Option Text} {job : JobRow}
    (member : job ∈ (db.updateJob id state lastError).jobs.rows) :
    job.state = state ∨ job ∈ db.jobs.rows ∧ job.id ≠ id := by
  obtain ⟨old, wasMember, rfl⟩ := List.mem_map.mp member
  split_ifs with same
  · exact .inl rfl
  · exact .inr ⟨wasMember, same⟩

/-- After a claim the job is found as it was returned, and every other job as before. -/
theorem find?_jobs_claimJob {row : JobRow} (claimed : db.claimJob = (db', some row)) (id : Text) :
    db'.jobs.find? id = if id = row.id then some row else db.jobs.find? id := by
  rw [claimJob] at claimed
  cases oldest : db.oldestPending with
  | none => simp [oldest] at claimed
  | some old =>
    have found := Table.find?_eq_some_iff.mpr ⟨(oldestPending_spec oldest).1, rfl⟩
    rw [oldest] at claimed
    simp only [Prod.mk.injEq, Option.some.injEq] at claimed
    obtain ⟨rfl, rfl⟩ := claimed
    rw [Table.find?_update]
    split_ifs with same
    · rw [same, found]
      simp
    · cases other : db.jobs.find? id with
      | none => rfl
      | some job =>
        obtain ⟨-, rfl⟩ := Table.find?_eq_some_iff.mp other
        rw [Option.map_some, if_neg same]

theorem find?_jobs_updateJob (db : Database) (id : Text) (state : JobState) (lastError : Option Text)
    (query : Text) :
    (db.updateJob id state lastError).jobs.find? query =
      (db.jobs.find? query).map fun row =>
        if row.id = id then { row with state, lastError := lastError.or row.lastError } else row := by
  rw [updateJob, Table.find?_update]

/-! ## Devices and their keys -/

/-- `SELECT id FROM device WHERE pubkey = ?`. -/
def deviceOf (db : Database) (pubkey : Text) : Option Text :=
  (db.devices.rows.find? fun row => row.pubkey = pubkey).map (·.id)

/-- The key is known afterwards, and every other key as before. -/
theorem deviceOf_upsertDevice {id pubkey deviceId : Text} {ts : ℤ}
    (upserted : db.upsertDevice id pubkey ts = some (db', deviceId)) :
    db'.deviceOf pubkey = some deviceId ∧
      ∀ other known, db.deviceOf other = some known → db'.deviceOf other = some known := by
  rw [upsertDevice] at upserted
  cases known : db.devices.rows.find? fun row => row.pubkey = pubkey with
  | some row =>
    rw [known, Option.some.injEq, Prod.mk.injEq] at upserted
    obtain ⟨rfl, rfl⟩ := upserted
    have same (other : Text) : ({ db with
        devices := db.devices.update row.id (fun row => { row with lastSeen := ts })
          (fun _ => rfl) } : Database).deviceOf other = db.deviceOf other := by
      rw [deviceOf, deviceOf, Table.update, List.find?_map, Option.map_map]
      have keeps : ((fun row : DeviceRow => decide (row.pubkey = other)) ∘ fun device =>
          if device.id = row.id then { device with lastSeen := ts } else device) =
          fun row => decide (row.pubkey = other) := by
        funext device
        rw [Function.comp_apply]
        split_ifs <;> rfl
      rw [keeps]
      refine congrArg (Option.map · _) (funext fun device => ?_)
      rw [Function.comp_apply]
      split_ifs <;> rfl
    exact ⟨(same pubkey).trans (by rw [deviceOf, known, Option.map_some]),
      fun other device there => (same other).trans there⟩
  | none =>
    rw [known, Option.map_eq_some_iff] at upserted
    obtain ⟨devices, inserted, same⟩ := upserted
    rw [Prod.mk.injEq] at same
    obtain ⟨rfl, rfl⟩ := same
    rw [Table.insert] at inserted
    split_ifs at inserted
    rw [← Option.some.inj inserted]
    refine ⟨by simp [deviceOf, List.find?_append, known], fun other device there => ?_⟩
    rw [deviceOf, Option.map_eq_some_iff] at there
    obtain ⟨row, found, same⟩ := there
    simp [deviceOf, List.find?_append, found, same]

/-- No other key becomes known. -/
theorem deviceOf_upsertDevice_of_ne {id pubkey deviceId : Text} {ts : ℤ}
    (upserted : db.upsertDevice id pubkey ts = some (db', deviceId)) {other : Text}
    (different : other ≠ pubkey) (unknown : db.deviceOf other = none) : db'.deviceOf other = none := by
  rw [deviceOf, Option.map_eq_none_iff, List.find?_eq_none] at unknown ⊢
  intro row member
  rw [upsertDevice] at upserted
  cases known : db.devices.rows.find? fun row => row.pubkey = pubkey with
  | some row' =>
    rw [known, Option.some.injEq, Prod.mk.injEq] at upserted
    obtain ⟨rfl, -⟩ := upserted
    obtain ⟨old, wasMember, rfl⟩ := List.mem_map.mp member
    have absent := unknown old wasMember
    split_ifs <;> exact absent
  | none =>
    rw [known, Option.map_eq_some_iff] at upserted
    obtain ⟨devices, inserted, same⟩ := upserted
    rw [Prod.mk.injEq] at same
    obtain ⟨rfl, -⟩ := same
    rcases (Table.mem_rows_insert inserted row).mp member with before | rfl
    · exact unknown row before
    · simpa using different.symm

/-! ## What the other statements write -/

theorem eq_of_insertReport {row : ReportRow} (inserted : db.insertReport row = some db') :
    ∃ reports, db' = { db with reports } := by
  rw [insertReport, Option.ite_none_right_eq_some] at inserted
  obtain ⟨reports, -, rfl⟩ := Option.map_eq_some_iff.mp inserted.2
  exact ⟨reports, rfl⟩

theorem eq_of_insertJob {id reportId : Text} (inserted : db.insertJob id reportId = some db') :
    ∃ jobs, db' = { db with jobs } := by
  rw [insertJob, Option.ite_none_right_eq_some] at inserted
  obtain ⟨jobs, -, rfl⟩ := Option.map_eq_some_iff.mp inserted.2
  exact ⟨jobs, rfl⟩

theorem eq_of_claimJob {row : JobRow} (claimed : db.claimJob = (db', some row)) :
    ∃ jobs, db' = { db with jobs } := by
  rw [claimJob] at claimed
  cases oldest : db.oldestPending with
  | none => simp [oldest] at claimed
  | some old =>
    rw [oldest] at claimed
    rw [Prod.mk.injEq] at claimed
    exact ⟨_, claimed.1.symm⟩

theorem eq_of_upsertGroup {group : GroupRow} {groupId : Text}
    (upserted : db.upsertGroup group = some (db', groupId)) : ∃ groups, db' = { db with groups } := by
  rw [upsertGroup] at upserted
  cases known : db.groups.rows.find? fun row => row.signature = group.signature with
  | some row =>
    rw [known, Option.some.injEq, Prod.mk.injEq] at upserted
    exact ⟨_, upserted.1.symm⟩
  | none =>
    rw [known, Option.map_eq_some_iff] at upserted
    obtain ⟨groups, -, same⟩ := upserted
    rw [Prod.mk.injEq] at same
    exact ⟨groups, same.1.symm⟩

theorem eq_of_upsertDevice {id pubkey deviceId : Text} {ts : ℤ}
    (upserted : db.upsertDevice id pubkey ts = some (db', deviceId)) :
    ∃ devices, db' = { db with devices } := by
  rw [upsertDevice] at upserted
  cases known : db.devices.rows.find? fun row => row.pubkey = pubkey with
  | some row =>
    rw [known, Option.some.injEq, Prod.mk.injEq] at upserted
    exact ⟨_, upserted.1.symm⟩
  | none =>
    rw [known, Option.map_eq_some_iff] at upserted
    obtain ⟨devices, -, same⟩ := upserted
    rw [Prod.mk.injEq] at same
    exact ⟨devices, same.1.symm⟩

theorem mem_tokens_of_insertToken {row : TokenRow} (inserted : db.insertToken row = some db') :
    (∀ other, other ∈ db'.tokens.rows ↔ other ∈ db.tokens.rows ∨ other = row) ∧
      db'.devices = db.devices := by
  rw [insertToken, Option.ite_none_right_eq_some] at inserted
  obtain ⟨tokens, grown, rfl⟩ := Option.map_eq_some_iff.mp inserted.2
  exact ⟨Table.mem_rows_insert grown, rfl⟩

/-! ## Groups -/

/-- `UNIQUE (signature)`. -/
def SignaturesDistinct (db : Database) : Prop :=
  ∀ id id' row row', db.groups.find? id = some row → db.groups.find? id' = some row' →
    row.signature = row'.signature → id = id'

/-- An upsert refreshes the group of the signature, or inserts one when there is none. -/
theorem upsertGroup_cases {group : GroupRow} {groupId : Text}
    (upserted : db.upsertGroup group = some (db', groupId)) :
    (∃ known, db.groups.find? groupId = some known ∧ known.signature = group.signature ∧
        ∀ id, db'.groups.find? id = (db.groups.find? id).map fun row =>
          if row.id = groupId then { row with lastSeen := group.lastSeen } else row) ∨
      groupId = group.id ∧ db.groups.find? group.id = none ∧
        (∀ id row, db.groups.find? id = some row → row.signature ≠ group.signature) ∧
        ∀ id, db'.groups.find? id = if group.id = id then some group else db.groups.find? id := by
  rw [upsertGroup] at upserted
  cases search : db.groups.rows.find? fun row => row.signature = group.signature with
  | some known =>
    rw [search, Option.some.injEq, Prod.mk.injEq] at upserted
    obtain ⟨rfl, rfl⟩ := upserted
    have member := List.mem_of_find?_eq_some search
    refine .inl ⟨known, Table.find?_eq_some_iff.mpr ⟨member, rfl⟩, ?_, fun id => ?_⟩
    · simpa using List.find?_some search
    · dsimp only
      rw [Table.find?_update]
  | none =>
    rw [search, Option.map_eq_some_iff] at upserted
    obtain ⟨groups, inserted, same⟩ := upserted
    rw [Prod.mk.injEq] at same
    obtain ⟨rfl, rfl⟩ := same
    refine .inr ⟨rfl, Table.find?_of_insert_eq_some inserted, fun id row found => ?_,
      fun id => Table.find?_insert inserted id⟩
    have member := (Table.find?_eq_some_iff.mp found).1
    simpa using List.find?_eq_none.mp search row member

/-- No upsert changes more of a group than when it was last seen. -/
theorem find?_groups_upsertGroup {group : GroupRow} {groupId : Text}
    (upserted : db.upsertGroup group = some (db', groupId)) {id : Text} {row : GroupRow}
    (found : db.groups.find? id = some row) :
    ∃ ts, db'.groups.find? id = some { row with lastSeen := ts } := by
  rcases upsertGroup_cases upserted with ⟨known, -, -, after⟩ | ⟨-, absent, -, after⟩
  · rw [after id, found, Option.map_some]
    split_ifs
    · exact ⟨group.lastSeen, rfl⟩
    · exact ⟨row.lastSeen, rfl⟩
  · rw [after id, found, if_neg]
    · exact ⟨row.lastSeen, rfl⟩
    · rintro rfl
      rw [absent] at found
      contradiction

/-- Where a group was before an upsert. -/
theorem group_before_upsertGroup {group : GroupRow} {groupId : Text}
    (upserted : db.upsertGroup group = some (db', groupId)) {id : Text} {row' : GroupRow}
    (found' : db'.groups.find? id = some row') :
    (∃ row ts, db.groups.find? id = some row ∧ row' = { row with lastSeen := ts }) ∨
      row' = group ∧ id = groupId := by
  rcases upsertGroup_cases upserted with ⟨known, -, -, after⟩ | ⟨rfl, -, -, after⟩
  · rw [after id, Option.map_eq_some_iff] at found'
    obtain ⟨row, found, rfl⟩ := found'
    split_ifs
    · exact .inl ⟨row, group.lastSeen, found, rfl⟩
    · exact .inl ⟨row, row.lastSeen, found, rfl⟩
  · rw [after id] at found'
    split_ifs at found' with same
    · exact .inr ⟨(Option.some.inj found').symm, same.symm⟩
    · exact .inl ⟨row', row'.lastSeen, found', rfl⟩

/-- The group that an upsert returns has the signature. -/
theorem upserted_group {group : GroupRow} {groupId : Text}
    (upserted : db.upsertGroup group = some (db', groupId)) :
    ∃ row, db'.groups.find? groupId = some row ∧ row.signature = group.signature := by
  rcases upsertGroup_cases upserted with ⟨known, found, same, after⟩ | ⟨rfl, -, -, after⟩
  · rw [after groupId, found, Option.map_some]
    split_ifs
    · exact ⟨_, rfl, same⟩
    · exact ⟨_, rfl, same⟩
  · exact ⟨group, (after group.id).trans (if_pos rfl), rfl⟩

theorem SignaturesDistinct.upsertGroup (distinct : db.SignaturesDistinct) {group : GroupRow}
    {groupId : Text} (upserted : db.upsertGroup group = some (db', groupId)) :
    db'.SignaturesDistinct := by
  intro id id' row row' found found' same
  rcases upsertGroup_cases upserted with ⟨known, there, signature, after⟩ | ⟨-, -, fresh, after⟩
  · have before {id : Text} {row : GroupRow} (found : db'.groups.find? id = some row) :
        ∃ old, db.groups.find? id = some old ∧ old.signature = row.signature := by
      rw [after id, Option.map_eq_some_iff] at found
      obtain ⟨old, wasFound, rfl⟩ := found
      exact ⟨old, wasFound, by split_ifs <;> rfl⟩
    obtain ⟨old, wasFound, sameOld⟩ := before found
    obtain ⟨old', wasFound', sameOld'⟩ := before found'
    exact distinct id id' old old' wasFound wasFound' (sameOld.trans (same.trans sameOld'.symm))
  · rw [after] at found found'
    split_ifs at found found' with isNew isNew' isNew'
    · exact isNew.symm.trans isNew'
    · obtain rfl := Option.some.inj found
      exact absurd same.symm (fresh id' row' found')
    · obtain rfl := Option.some.inj found'
      exact absurd same (fresh id row found)
    · exact distinct id id' row row' found found' same

/-! ## Slugs -/

/-- The slug of a report that is there and has one. -/
def slug (db : Database) (id : Text) : Option Text := (db.reports.find? id).bind (·.publishSlug)

theorem slug_of_mem {row : ReportRow} (member : row ∈ db.reports.rows) :
    db.slug row.id = row.publishSlug := by
  rw [slug, Table.find?_eq_some_iff.mpr ⟨member, rfl⟩, Option.bind_some]

/-- `UNIQUE (publish_slug)`. -/
def SlugsDistinct (db : Database) : Prop :=
  ∀ id id' text, db.slug id = some text → db.slug id' = some text → id = id'

theorem find?_setPrivate (db : Database) (id query : Text) :
    (db.setPrivate id).reports.find? query = (db.reports.find? query).map fun row =>
      if row.id = id then { row with visibility := .«private», publishSlug := none } else row := by
  rw [setPrivate, Table.find?_update]

theorem find?_setPublic {id text : Text} (published : db.setPublic id text = some db')
    (query : Text) :
    db'.reports.find? query = (db.reports.find? query).map fun row =>
      if row.id = id then { row with visibility := .«public», publishSlug := some text } else row := by
  rw [setPublic, Option.ite_none_left_eq_some, Option.some.injEq] at published
  rw [← published.2, Table.find?_update]

/-- Another report has the slug when it cannot be given to a report. -/
theorem setPublic_eq_none {id text : Text} (refused : db.setPublic id text = none) :
    (db.reports.find? id).isSome ∧ ∃ other ≠ id, db.slug other = some text := by
  rw [setPublic] at refused
  split_ifs at refused with taken
  simp only [Bool.and_eq_true, List.any_eq_true, decide_eq_true_eq] at taken
  obtain ⟨there, row, member, different, same⟩ := taken
  refine ⟨there, row.id, different, ?_⟩
  rw [slug, Table.find?_eq_some_iff.mpr ⟨member, rfl⟩]
  exact same

theorem slug_ne_of_setPublic {id text : Text} (published : db.setPublic id text = some db')
    (there : (db.reports.find? id).isSome) {other : Text} (different : other ≠ id) :
    db.slug other ≠ some text := by
  intro same
  rw [setPublic, Option.ite_none_left_eq_some] at published
  refine published.1 ?_
  rw [slug, Option.bind_eq_some_iff] at same
  obtain ⟨row, found, same⟩ := same
  obtain ⟨member, rfl⟩ := Table.find?_eq_some_iff.mp found
  simp only [there, Bool.true_and, List.any_eq_true, Bool.and_eq_true, decide_eq_true_eq]
  exact ⟨row, member, different, same⟩

theorem slug_setPrivate (db : Database) (id : Text) :
    (db.setPrivate id).slug = Function.update db.slug id none := by
  funext query
  rw [slug, find?_setPrivate]
  rcases eq_or_ne query id with rfl | different
  · rw [Function.update_self]
    cases found : db.reports.find? query with
    | none => rfl
    | some row => simp [(Table.find?_eq_some_iff.mp found).2]
  · rw [Function.update_of_ne different, slug]
    cases found : db.reports.find? query with
    | none => rfl
    | some row => simp [(Table.find?_eq_some_iff.mp found).2, different]

theorem slug_setPublic {id text : Text} (published : db.setPublic id text = some db')
    (there : (db.reports.find? id).isSome) :
    db'.slug = Function.update db.slug id (some text) := by
  funext query
  rw [slug, find?_setPublic published]
  rcases eq_or_ne query id with rfl | different
  · obtain ⟨row, found⟩ := Option.isSome_iff_exists.mp there
    simp [found, (Table.find?_eq_some_iff.mp found).2]
  · rw [Function.update_of_ne different, slug]
    cases found : db.reports.find? query with
    | none => rfl
    | some row => simp [(Table.find?_eq_some_iff.mp found).2, different]

theorem slug_setPublic_of_absent {id text : Text} (published : db.setPublic id text = some db')
    (absent : db.reports.find? id = none) : db'.slug = db.slug := by
  funext query
  rw [slug, find?_setPublic published, slug]
  cases found : db.reports.find? query with
  | none => rfl
  | some row =>
    have different : row.id ≠ id := by
      rintro rfl
      obtain ⟨member, same⟩ := Table.find?_eq_some_iff.mp found
      rw [same, found] at absent
      contradiction
    simp [different]

theorem SlugsDistinct.of_slug (distinct : db.SlugsDistinct) (same : db'.slug = db.slug) :
    db'.SlugsDistinct := by
  intro first second text has has'
  rw [same] at has has'
  exact distinct first second text has has'

theorem SlugsDistinct.setPrivate (distinct : db.SlugsDistinct) (id : Text) :
    (db.setPrivate id).SlugsDistinct := by
  intro first second text has has'
  rw [slug_setPrivate, Function.update_apply] at has has'
  split_ifs at has has'
  exact distinct first second text has has'

theorem SlugsDistinct.setPublic (distinct : db.SlugsDistinct) {id text : Text}
    (published : db.setPublic id text = some db') (there : (db.reports.find? id).isSome) :
    db'.SlugsDistinct := by
  intro first second other has has'
  rw [slug_setPublic published there, Function.update_apply] at has has'
  split_ifs at has has' with same same' same'
  · exact same.trans same'.symm
  · exact absurd (Option.some.inj has ▸ has') (slug_ne_of_setPublic published there same')
  · exact absurd (Option.some.inj has' ▸ has) (slug_ne_of_setPublic published there same)
  · exact distinct first second other has has'

/-! ## What no statement takes away -/

/-- Every report is still there, and every report that had a job has one. -/
structure Extends (db' db : Database) : Prop where
  reports : ∀ id, (db.reports.find? id).isSome → (db'.reports.find? id).isSome
  jobs : ∀ job ∈ db.jobs.rows, ∃ job' ∈ db'.jobs.rows, job'.reportId = job.reportId

theorem Extends.of_eq (reports : db'.reports = db.reports) (jobs : db'.jobs = db.jobs) :
    db'.Extends db :=
  ⟨fun _ there => reports ▸ there, fun job member => ⟨job, jobs ▸ member, rfl⟩⟩

theorem Extends.refl (db : Database) : db.Extends db := .of_eq rfl rfl

theorem Extends.of_insertReport {row : ReportRow} (inserted : db.insertReport row = some db') :
    db'.Extends db := by
  obtain ⟨added, jobs⟩ := insertReport_spec inserted
  refine ⟨fun id there => ?_, fun job member => ⟨job, jobs ▸ member, rfl⟩⟩
  rw [Table.find?_insert added]
  split_ifs
  · rfl
  · exact there

theorem Extends.of_insertJob {id reportId : Text} (inserted : db.insertJob id reportId = some db') :
    db'.Extends db := by
  obtain ⟨reports, -, added⟩ := insertJob_spec inserted
  exact ⟨fun _ there => reports ▸ there,
    fun job member => ⟨job, (Table.mem_rows_insert added job).mpr (.inl member), rfl⟩⟩

/-- Updates of reports. -/
theorem Extends.of_update_report {id : Text} {change : ReportRow → ReportRow}
    {keeps : ∀ row, (change row).id = row.id} :
    ({ db with reports := db.reports.update id change keeps } : Database).Extends db := by
  refine ⟨fun query there => ?_, fun job member => ⟨job, member, rfl⟩⟩
  rw [Table.find?_update, Option.isSome_map]
  exact there

/-- Updates of jobs that keep the report. -/
theorem Extends.of_update_job {id : Text} {change : JobRow → JobRow}
    {keeps : ∀ row, (change row).id = row.id} (same : ∀ row, (change row).reportId = row.reportId) :
    ({ db with jobs := db.jobs.update id change keeps } : Database).Extends db := by
  refine ⟨fun _ there => there, fun job member =>
    ⟨_, Table.mem_rows_update_of_mem member id change keeps, ?_⟩⟩
  split_ifs
  · exact same job
  · rfl

theorem Extends.of_claimJob {row : JobRow} (claimed : db.claimJob = (db', some row)) :
    db'.Extends db := by
  rw [claimJob] at claimed
  cases oldest : db.oldestPending with
  | none => simp [oldest] at claimed
  | some old =>
    rw [oldest] at claimed
    simp only [Prod.mk.injEq] at claimed
    exact claimed.1 ▸ .of_update_job fun _ => rfl

end Database

end UcrashReport
