import UcrashReport.Soundness.DecodedReports
import UcrashReport.Soundness.GroupRows

/-! # Reports and the groups they are filed under

A decode finds or makes the group of its signature in one statement and refers its report to it in
another. Beside a run of the service it is remembered for which signature a worker has found a
group, and under which signature each report was filed last. Reports agree in their group exactly
when they agree in that signature. A group can be left without a report: when the second statement
does not follow, and when its only report is filed again under another signature.
-/

namespace UcrashReport

open Rust Rust.Text Store Decode

structure Filing where
  service : Service := {}
  computed : ℕ → Option Text := fun _ => none
  filed : Text → Option Text := fun _ => none

namespace Filing

open Service

variable (h : Filing)

/-- The signature for which a worker asks for a group. -/
def noteComputed : Action → ℕ → Option Text
  | .work worker _ =>
    match h.service.workers worker with
    | some (.group _ _ sig) => Function.update h.computed worker (some sig.signature)
    | _ => h.computed
  | _ => h.computed

/-- The signature under which a report is filed when it is marked decoded. -/
def noteFiled : Action → Text → Option Text
  | .work worker draw =>
    match h.service.workers worker with
    | some (.finish job _ _) =>
      if draw.success then Function.update h.filed job.reportId (h.computed worker) else h.filed
    | _ => h.filed
  | _ => h.filed

def step (setup : Setup) (h : Filing) (action : Action) : Option Filing :=
  (Service.step setup h.service action).map fun service =>
    { service, computed := h.noteComputed action, filed := h.noteFiled action }

variable {h} {h' : Filing} {setup : Setup} {action : Action}

theorem of_step (stepped : step setup h action = some h') :
    Service.step setup h.service action = some h'.service ∧
      h'.computed = h.noteComputed action ∧ h'.filed = h.noteFiled action := by
  rw [step, Option.map_eq_some_iff] at stepped
  obtain ⟨service, stepped, rfl⟩ := stepped
  exact ⟨stepped, rfl, rfl⟩

theorem service_of_run {actions : List Action}
    (reached : Machine.run (step setup) h actions = some h') :
    Machine.run (Service.step setup) h.service actions = some h'.service := by
  induction actions generalizing h with
  | nil =>
    rw [Machine.run, Option.some.injEq] at reached
    rw [Machine.run, reached]
  | cons action rest ih =>
    obtain ⟨mid, stepped, reached⟩ := Machine.run_cons.mp reached
    exact Machine.run_cons.mpr ⟨mid.service, (of_step stepped).1, ih reached⟩

/-- Every run of the service can be remembered. -/
theorem exists_of_run {s : Service} {actions : List Action}
    (reached : Machine.run (Service.step setup) h.service actions = some s) :
    ∃ h', Machine.run (step setup) h actions = some h' ∧ h'.service = s := by
  induction actions generalizing h with
  | nil =>
    rw [Machine.run, Option.some.injEq] at reached
    exact ⟨h, rfl, reached⟩
  | cons action rest ih =>
    obtain ⟨mid, stepped, reached⟩ := Machine.run_cons.mp reached
    have next : step setup h action =
        some ⟨mid, h.noteComputed action, h.noteFiled action⟩ := by
      rw [step, stepped, Option.map_some]
    obtain ⟨h', reached', same⟩ := ih (h := ⟨mid, h.noteComputed action, h.noteFiled action⟩) reached
    exact ⟨h', Machine.run_cons.mpr ⟨_, next, reached'⟩, same⟩

/-! ## Reports of one group -/

/-- What is remembered of workers and reports is the signature of their group. -/
structure Filed (h : Filing) : Prop where
  distinct : h.service.db.SignaturesDistinct
  computed : ∀ worker job groupId ts, h.service.workers worker = some (.finish job groupId ts) →
    ∃ row, h.service.db.groups.find? groupId = some row ∧ h.computed worker = some row.signature
  reports : ∀ id report groupId, h.service.db.reports.find? id = some report →
    report.groupId = some groupId →
    ∃ row, h.service.db.groups.find? groupId = some row ∧ h.filed id = some row.signature

theorem Filed.empty : Filed {} where
  distinct _ _ _ _ found := by simp at found
  computed _ _ _ _ none := by simp at none
  reports _ _ _ found := by simp at found

/-- A group keeps its signature. -/
theorem signature_after_step (stepped : Service.step setup h.service action = some h'.service)
    {groupId : Text} {signature : Option Text}
    (known : ∃ row, h.service.db.groups.find? groupId = some row ∧ signature = some row.signature) :
    ∃ row, h'.service.db.groups.find? groupId = some row ∧ signature = some row.signature := by
  obtain ⟨row, found, same⟩ := known
  obtain ⟨ts, found'⟩ := find?_groups_of_step stepped found
  exact ⟨_, found', same⟩

theorem noteComputed_of_ne {worker : ℕ} (other : ∀ draw, action ≠ .work worker draw) :
    h.noteComputed action worker = h.computed worker := by
  cases action with
  | work mover draw =>
    have different : worker ≠ mover := fun same => other draw (same ▸ rfl)
    rw [noteComputed]
    cases h.service.workers mover with
    | none => rfl
    | some pc =>
      cases pc with
      | group => exact Function.update_of_ne different _ _
      | idle | load | read | store | finish | remove | close | markFailed => rfl
  | request | upload | abandon | start | stop | sweep | collect | halt => rfl

theorem computed_of_step (filed : Filed h) (stepped : step setup h action = some h') {worker : ℕ}
    {job : Job} {groupId : Text} {ts : ℤ}
    (current' : h'.service.workers worker = some (.finish job groupId ts)) :
    ∃ row, h'.service.db.groups.find? groupId = some row ∧
      h'.computed worker = some row.signature := by
  obtain ⟨moved, computed, -⟩ := of_step stepped
  rcases worker_before_step moved current' with
    ⟨current, other⟩ | impossible | ⟨draw, pc, db, raw, decoded, rfl, current, move, same⟩
  · rw [computed, noteComputed_of_ne other]
    exact signature_after_step moved (filed.computed worker job groupId ts current)
  · contradiction
  · generalize next_eq : Worker.finish job groupId ts = next at move
    cases move with
    | @grouped job' report sig db' groupId' upserted =>
      rw [Worker.finish.injEq] at next_eq
      obtain ⟨rfl, rfl, rfl⟩ := next_eq
      obtain ⟨row, found, signature⟩ := Database.upserted_group upserted
      refine ⟨row, ?_, ?_⟩
      · rw [same]
        exact found
      · rw [computed, noteComputed, current]
        dsimp only
        rw [Function.update_self, signature]
        rfl
    | closed job' outcome | leftRunning job' outcome =>
      cases outcome with
      | ok => contradiction
      | error e =>
        rw [Job.afterClose] at next_eq
        split_ifs at next_eq
    | rested | claimed | loaded | read | stored | finished | removed | keptRaw | gaveUp
    | markedFailed | leftUnmarked => contradiction

/-- A step that refers a report to another group remembers the signature of that group. -/
theorem filed_after_step (stepped : step setup h action = some h') {id : Text} {report report' : ReportRow}
    (found : h.service.db.reports.find? id = some report)
    (found' : h'.service.db.reports.find? id = some report') :
    report'.groupId = report.groupId ∧ h'.filed id = h.filed id ∨
      ∃ worker job groupId ts, h.service.workers worker = some (.finish job groupId ts) ∧
        report'.groupId = some groupId ∧ h'.filed id = h.computed worker := by
  obtain ⟨moved, -, filed⟩ := of_step stepped
  obtain ⟨-, rfl⟩ := Table.find?_eq_some_iff.mp found
  obtain ⟨after, foundAfter, step⟩ := reportStep_of_step moved found
  rw [found', Option.some.injEq] at foundAfter
  subst foundAfter
  rw [filed]
  by_cases finishing : ∃ worker draw job groupId ts, action = .work worker draw ∧
      h.service.workers worker = some (.finish job groupId ts)
  · obtain ⟨worker, draw, job, groupId, ts, rfl, current⟩ := finishing
    rw [Service.step, current, Option.map_some, Option.some.injEq] at moved
    rw [noteFiled, current]
    dsimp only
    cases success : draw.success with
    | false =>
      rw [Decode.work, success] at moved
      rw [← moved] at found'
      left
      rw [if_neg Bool.false_ne_true]
      refine ⟨?_, rfl⟩
      rw [if_neg Bool.false_ne_true] at found'
      dsimp only [afterWork] at found'
      rw [found, Option.some.injEq] at found'
      rw [found']
    | true =>
      rw [Decode.work, success, if_pos rfl] at moved
      rw [← moved] at found'
      dsimp only [afterWork] at found'
      rw [Database.setDecoded, Table.find?_update, found, Option.map_some, Option.some.injEq] at found'
      rw [if_pos rfl]
      split_ifs at found' with here
      · right
        refine ⟨worker, job, groupId, ts, current, by rw [← found'], ?_⟩
        rw [here, Function.update_self]
      · left
        refine ⟨by rw [← found'], Function.update_of_ne here _ _⟩
  · left
    constructor
    · cases step with
      | kept | failed | swept => rfl
      | decoded current => exact absurd ⟨_, _, _, _, _, rfl, current⟩ finishing
    · cases action with
      | work worker draw =>
        rw [noteFiled]
        cases current : h.service.workers worker with
        | none => rfl
        | some pc =>
          cases pc with
          | finish job groupId ts =>
            exact absurd ⟨worker, draw, job, groupId, ts, rfl, current⟩ finishing
          | idle | load | read | store | group | remove | close | markFailed => rfl
      | request | upload | abandon | start | stop | sweep | collect | halt => rfl

theorem filed_of_step (filed : Filed h) (stepped : step setup h action = some h') : Filed h' where
  distinct := signaturesDistinct_of_step filed.distinct (of_step stepped).1
  computed _ _ _ _ current' := computed_of_step filed stepped current'
  reports id report' groupId found' same := by
    obtain ⟨moved, -, -⟩ := of_step stepped
    rcases report_before_step moved found' with ⟨report, found, -, -⟩ | ⟨-, new⟩
    · rcases filed_after_step stepped found found' with
        ⟨group, note⟩ | ⟨worker, job, groupId', ts, current, group, note⟩
      · rw [note]
        exact signature_after_step moved
          (filed.reports id report groupId found (group.symm.trans same))
      · obtain rfl := Option.some.inj (group.symm.trans same)
        rw [note]
        exact signature_after_step moved (filed.computed worker job groupId' ts current)
    · obtain ⟨call, draw, metadata, deviceId, -, -, rfl, -⟩ := new
      contradiction

/-- Two reports with groups have one group exactly when they were filed under one signature. -/
theorem Filed.same_group_iff (filed : Filed h) {id id' groupId groupId' : Text}
    {report report' : ReportRow} (found : h.service.db.reports.find? id = some report)
    (found' : h.service.db.reports.find? id' = some report') (group : report.groupId = some groupId)
    (group' : report'.groupId = some groupId') :
    report.groupId = report'.groupId ↔ h.filed id = h.filed id' := by
  obtain ⟨row, there, signature⟩ := filed.reports id report groupId found group
  obtain ⟨row', there', signature'⟩ := filed.reports id' report' groupId' found' group'
  rw [group, group', signature, signature', Option.some.injEq, Option.some.injEq]
  constructor
  · rintro rfl
    rw [there, Option.some.injEq] at there'
    rw [there']
  · exact filed.distinct groupId groupId' row row' there there'

/-! ## Reports for every group -/

/-- The statement that refers a report to the group goes through, and does not take the report away
from a group that has no other. -/
def Refers (db : Database) (draw : Decode.Draw) : Worker → Prop
  | .finish job groupId _ =>
    draw.success = true ∧ ∀ report ∈ db.reports.find? job.reportId, ∀ old ∈ report.groupId,
      old = groupId ∨ ∃ other ∈ db.reports.rows, other.id ≠ job.reportId ∧ other.groupId = some old
  | _ => True

/-- The worker is not between the two statements. -/
def NotReferring : Worker → Prop
  | .finish _ _ _ => False
  | _ => True

/-- Once a worker has found or made a group it refers the report to it, and no group loses its only
report. -/
def Undisturbed (s : Service) : Action → Prop
  | .work worker draw => ∀ pc ∈ s.workers worker, Refers s.db draw pc
  | .stop worker => ∀ pc ∈ s.workers worker, NotReferring pc
  | _ => True

instance (db : Database) (draw : Decode.Draw) : ∀ pc, Decidable (Refers db draw pc)
  | .finish job groupId _ =>
    inferInstanceAs (Decidable (draw.success = true ∧ ∀ report ∈ db.reports.find? job.reportId,
      ∀ old ∈ report.groupId, old = groupId ∨
        ∃ other ∈ db.reports.rows, other.id ≠ job.reportId ∧ other.groupId = some old))
  | .idle | .load _ | .read _ _ | .store _ _ _ _ | .group _ _ _ | .remove _ _ | .close _ _
  | .markFailed _ => inferInstanceAs (Decidable True)

instance : ∀ pc, Decidable (NotReferring pc)
  | .finish _ _ _ => inferInstanceAs (Decidable False)
  | .idle | .load _ | .read _ _ | .store _ _ _ _ | .group _ _ _ | .remove _ _ | .close _ _
  | .markFailed _ => inferInstanceAs (Decidable True)

instance (s : Service) : ∀ action, Decidable (Undisturbed s action)
  | .work worker draw => inferInstanceAs (Decidable (∀ pc ∈ s.workers worker, Refers s.db draw pc))
  | .stop worker => inferInstanceAs (Decidable (∀ pc ∈ s.workers worker, NotReferring pc))
  | .request _ _ _ | .upload _ _ | .abandon _ | .start _ | .sweep _ | .collect _ _ | .halt _ =>
    inferInstanceAs (Decidable True)

def HasReport (s : Service) (groupId : Text) : Prop :=
  ∃ id report, s.db.reports.find? id = some report ∧ report.groupId = some groupId

/-- Some worker is about to refer a report to the group. -/
def Awaited (s : Service) (groupId : Text) : Prop :=
  ∃ worker job ts, s.workers worker = some (.finish job groupId ts)

theorem hasReport_of_step {s s' : Service} (undisturbed : Undisturbed s action)
    (stepped : Service.step setup s action = some s') {groupId : Text} (has : HasReport s groupId) :
    HasReport s' groupId := by
  obtain ⟨id, report, found, group⟩ := has
  obtain ⟨-, rfl⟩ := Table.find?_eq_some_iff.mp found
  obtain ⟨report', found', moved⟩ := reportStep_of_step stepped found
  cases moved with
  | kept | failed | swept => exact ⟨report.id, _, found', group⟩
  | @decoded worker draw job groupId' ts current same =>
    obtain ⟨-, keeps⟩ := undisturbed _ current
    rcases keeps report (same ▸ found) groupId group with rfl | ⟨other, member, different, group'⟩
    · exact ⟨report.id, _, found', rfl⟩
    -- The other report is not the one that the worker has in hand.
    · obtain ⟨other', foundOther', movedOther⟩ := reportStep_of_step stepped
        (Table.find?_eq_some_iff.mpr ⟨member, rfl⟩)
      cases movedOther with
      | kept | failed => exact ⟨other.id, _, foundOther', group'⟩
      | decoded current' sameOther =>
        rw [current, Option.some.injEq, Worker.finish.injEq] at current'
        exact absurd (current'.1 ▸ sameOther.symm) different

theorem awaited_of_step {s s' : Service} (order : InOrder s) (undisturbed : Undisturbed s action)
    (stepped : Service.step setup s action = some s') {groupId : Text} (awaited : Awaited s groupId) :
    HasReport s' groupId ∨ Awaited s' groupId := by
  obtain ⟨worker, job, ts, current⟩ := awaited
  rcases worker_after_step stepped current with still | rfl | ⟨draw, rfl⟩
  · exact .inr ⟨worker, job, ts, still⟩
  · exact (undisturbed _ current).elim
  · left
    have success := (undisturbed _ current).1
    obtain ⟨report, found⟩ := order.report_of_held current rfl
    have same := (Table.find?_eq_some_iff.mp found).2
    rw [Service.step, current, Option.map_some, Option.some.injEq, Decode.work, if_pos success] at stepped
    rw [← stepped]
    refine ⟨job.reportId, { report with
      state := .decoded, groupId := some groupId, rawDeletedAt := some ts }, ?_, rfl⟩
    dsimp only [afterWork]
    rw [Database.setDecoded, Table.find?_update, found, Option.map_some, if_pos same]

structure Referred (s : Service) : Prop where
  order : InOrder s
  groups : ∀ id row, s.db.groups.find? id = some row → HasReport s id ∨ Awaited s id

theorem Referred.empty : Referred {} := ⟨.empty, fun _ _ found => by simp at found⟩

theorem referred_of_step {s s' : Service} (referred : Referred s) (undisturbed : Undisturbed s action)
    (stepped : Service.step setup s action = some s') : Referred s' where
  order := inOrder_of_step referred.order stepped
  groups id row' found' := by
    rcases group_before_step stepped found' with
      ⟨row, ts, found, -⟩ | ⟨worker, draw, job, report, sig, -, -, -, finishing⟩
    · rcases referred.groups id row found with has | awaited
      · exact .inl (hasReport_of_step undisturbed stepped has)
      · exact awaited_of_step referred.order undisturbed stepped awaited
    · exact .inr ⟨worker, job, draw.now, finishing⟩

/-! ## Runs -/

/-- A report that is marked decoded has a group. -/
def DecodedGrouped (s : Service) : Prop :=
  ∀ id report, s.db.reports.find? id = some report → report.state = .decoded → report.groupId.isSome

theorem decodedGrouped_of_step {s s' : Service} (grouped : DecodedGrouped s)
    (stepped : Service.step setup s action = some s') : DecodedGrouped s' := by
  intro id report' found' decoded
  rcases report_before_step stepped found' with ⟨report, found, -, moved⟩ | ⟨-, new⟩
  · cases moved with
    | kept => exact grouped id _ found decoded
    | swept => exact grouped id report found decoded
    | decoded => rfl
    | failed => contradiction
  · obtain ⟨call, draw, metadata, deviceId, -, -, rfl, -⟩ := new
    contradiction

/-- In every run two decoded reports have the same group exactly when they were filed last under the
same signature. In a run in which every group that a worker finds or makes gets its report, and none
loses its only one, every group has a report unless a worker is just about to refer one to it. -/
theorem groups_partition_of_run (setup : Setup) {actions : List Action} {h : Filing}
    (reached : Machine.run (step setup) {} actions = some h) :
    (∀ report ∈ h.service.db.reports.rows, ∀ report' ∈ h.service.db.reports.rows,
      report.state = .decoded → report'.state = .decoded →
        (report.groupId = report'.groupId ↔ h.filed report.id = h.filed report'.id)) ∧
    (∀ report ∈ h.service.db.reports.rows, ∀ groupId, report.groupId = some groupId →
      ∃ row ∈ h.service.db.groups.rows, row.id = groupId ∧
        h.filed report.id = some row.signature) ∧
    (Machine.Meets (Service.step setup) Undisturbed {} actions →
      ∀ row ∈ h.service.db.groups.rows,
        (∃ report ∈ h.service.db.reports.rows, report.groupId = some row.id) ∨
          Awaited h.service row.id) := by
  have filed : Filed h := Machine.invariant_of_every_run
    (fun _ _ _ invariant stepped => filed_of_step invariant stepped) .empty reached
  have plain := service_of_run reached
  refine ⟨fun report member report' member' decoded decoded' => ?_,
    fun report member groupId group => ?_, fun undisturbed row member => ?_⟩
  · have grouped : DecodedGrouped h.service := Machine.invariant_of_every_run
      (fun _ _ _ invariant stepped => decodedGrouped_of_step invariant stepped)
      (fun _ _ found => by simp at found) plain
    have found : h.service.db.reports.find? report.id = some report :=
      Table.find?_eq_some_iff.mpr ⟨member, rfl⟩
    have found' : h.service.db.reports.find? report'.id = some report' :=
      Table.find?_eq_some_iff.mpr ⟨member', rfl⟩
    obtain ⟨groupId, group⟩ := Option.isSome_iff_exists.mp (grouped _ _ found decoded)
    obtain ⟨groupId', group'⟩ := Option.isSome_iff_exists.mp (grouped _ _ found' decoded')
    exact filed.same_group_iff found found' group group'
  · obtain ⟨row, found, signature⟩ := filed.reports report.id report groupId
      (Table.find?_eq_some_iff.mpr ⟨member, rfl⟩) group
    obtain ⟨inRows, same⟩ := Table.find?_eq_some_iff.mp found
    exact ⟨row, inRows, same, signature⟩
  · have referred : Referred h.service := Machine.invariant_of_run
      (fun _ _ _ invariant meets stepped => referred_of_step invariant meets stepped) .empty
      undisturbed plain
    rcases referred.groups row.id row (Table.find?_eq_some_iff.mpr ⟨member, rfl⟩) with
      ⟨id, report, found, group⟩ | awaited
    · exact .inl ⟨report, (Table.find?_eq_some_iff.mp found).1, group⟩
    · exact .inr awaited

/-! ## Concrete runs -/

/-- A claim and the steps up to the group, and an update of the report that fails. -/
def demoUnreferred : List Action :=
  [.work 0 {}, .work 0 {}, .work 0 {}, .work 0 {}, .work 0 { newId := "g1".toList },
    .work 0 { success := false }, .work 0 {}]

/-- The report is never referred to the group that its three attempts have found for it. -/
theorem group_without_report :
    ∃ s, Machine.run (Service.step demoSetup) {}
        (demoUpload 0 ++ [.start 0] ++ demoUnreferred ++ demoUnreferred ++ demoUnreferred ++
          [.work 0 {}]) = some s ∧
      s.db.groups.rows.map (·.id) = ["g1".toList] ∧
      s.db.reports.rows.map (·.groupId) = [none] ∧
      s.db.reports.rows.map (·.state) = [.failed] ∧ s.db.jobs.rows.map (·.state) = [.failed] := by
  have columns : (Machine.run (Service.step demoSetup) {}
      (demoUpload 0 ++ [.start 0] ++ demoUnreferred ++ demoUnreferred ++ demoUnreferred ++
        [.work 0 {}])).map (fun s => (s.db.groups.rows.map (·.id), s.db.reports.rows.map (·.groupId),
          s.db.reports.rows.map (·.state), s.db.jobs.rows.map (·.state))) =
      some (["g1".toList], [none], [.failed], [.failed]) := by decide +kernel
  obtain ⟨s, reached, same⟩ := Option.map_eq_some_iff.mp columns
  simp only [Prod.mk.injEq] at same
  exact ⟨s, reached, same⟩

/-- A payload with the single byte `3` has another text than all others. -/
def textSetup : Setup :=
  { demoSetup with
    libs := { demoSetup.libs with
      lossyUtf8 := fun data => if data = [3] then "BUG: soft lockup\n".toList else [] } }

/-- Another report of the device, with its own payload. -/
def demoUploadOf (call : ℕ) (uuid jobId : Text) (payload : Bytes) : List Action :=
  [.request call ⟨some "key".toList, some "sig".toList, some uuid⟩ payload, .upload call {},
    .upload call {}, .upload call {}, .upload call {}, .upload call { newId := jobId }]

/-- All steps of a decode that goes through, with the id of a new group. -/
def demoDecodeTo (groupId : Text) : List Action :=
  [.work 0 {}, .work 0 {}, .work 0 {}, .work 0 {}, .work 0 { newId := groupId }, .work 0 {},
    .work 0 {}, .work 0 {}]

/-- Three reports, of which the last one has another signature. -/
def demoThree : List Action :=
  demoUpload 0 ++ demoUploadOf 1 "u2".toList "j2".toList [2] ++
    demoUploadOf 2 "u3".toList "j3".toList [3] ++ [.start 0] ++ demoDecodeTo "g1".toList ++
    demoDecodeTo "g2".toList ++ demoDecodeTo "g3".toList

/-- The first two have one group, the last one has another. -/
theorem three_reports_grouped :
    ∃ h, Machine.run (step textSetup) {} demoThree = some h ∧
      h.service.db.reports.rows.map (fun report => (report.id, report.state, report.groupId)) =
        [("u1".toList, .decoded, some "g1".toList), ("u2".toList, .decoded, some "g1".toList),
          ("u3".toList, .decoded, some "g3".toList)] ∧
      h.filed "u1".toList = h.filed "u2".toList ∧ h.filed "u1".toList ≠ h.filed "u3".toList ∧
      (∀ report ∈ h.service.db.reports.rows, ∀ groupId, report.groupId = some groupId →
        ∃ row ∈ h.service.db.groups.rows, row.id = groupId ∧
          h.filed report.id = some row.signature) ∧
      ∀ row ∈ h.service.db.groups.rows,
        (∃ report ∈ h.service.db.reports.rows, report.groupId = some row.id) ∨
          Awaited h.service row.id := by
  have columns : (Machine.run (step textSetup) {} demoThree).map (fun h =>
      h.service.db.reports.rows.map fun report => (report.id, report.state, report.groupId)) =
      some [("u1".toList, .decoded, some "g1".toList), ("u2".toList, .decoded, some "g1".toList),
        ("u3".toList, .decoded, some "g3".toList)] := by decide +kernel
  have undisturbed : Machine.Meets (Service.step textSetup) Undisturbed {} demoThree := by
    decide +kernel
  obtain ⟨h, reached, same⟩ := Option.map_eq_some_iff.mp columns
  have row {id groupId : Text} (listed : (id, .decoded, some groupId) ∈
      h.service.db.reports.rows.map fun report => (report.id, report.state, report.groupId)) :
      ∃ report ∈ h.service.db.reports.rows, report.id = id ∧ report.state = .decoded ∧
        report.groupId = some groupId := by
    obtain ⟨report, member, isRow⟩ := List.mem_map.mp listed
    simp only [Prod.mk.injEq] at isRow
    exact ⟨report, member, isRow⟩
  rw [same] at row
  obtain ⟨first, member₁, id₁, decoded₁, group₁⟩ := row (List.mem_cons_self ..)
  obtain ⟨second, member₂, id₂, decoded₂, group₂⟩ :=
    row (List.mem_cons_of_mem _ (List.mem_cons_self ..))
  obtain ⟨third, member₃, id₃, decoded₃, group₃⟩ :=
    row (List.mem_cons_of_mem _ (List.mem_cons_of_mem _ (List.mem_cons_self ..)))
  obtain ⟨grouped, filed, referred⟩ := groups_partition_of_run textSetup reached
  refine ⟨h, reached, same, ?_, ?_, filed, referred undisturbed⟩
  · rw [← id₁, ← id₂]
    exact (grouped first member₁ second member₂ decoded₁ decoded₂).mp (group₁.trans group₂.symm)
  · rw [← id₁, ← id₃]
    intro filedAlike
    have alike := (grouped first member₁ third member₃ decoded₁ decoded₃).mpr filedAlike
    rw [group₁, group₃] at alike
    exact absurd alike (by decide)

end Filing

end UcrashReport
