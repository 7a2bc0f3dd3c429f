import UcrashReport.Soundness.ReportRows
import UcrashReport.Soundness.SignatureFields

/-! # The rows of crash groups

A group is inserted by the first report of its signature and keeps what that report says of kind,
title and modules; later reports only set when it was last seen. Two groups of one signature, in
whatever runs, therefore agree in what the signature fixes: always in the kind, in the title when
the bars are in the same fields, and never for certain in the modules.
-/

namespace UcrashReport

open Rust Rust.Text Store Api Decode Signature UcrashReport.Types

namespace Service

/-! ## Steps -/

/-- Only a worker that has a signature changes groups. -/
theorem groups_of_step {setup : Setup} {s s' : Service} {action : Action}
    (stepped : step setup s action = some s') :
    s'.db.groups = s.db.groups ∨
      ∃ worker draw job report sig groupId, action = .work worker draw ∧
        s.workers worker = some (.group job report sig) ∧
        s.db.upsertGroup (groupRow report sig draw.newId draw.now) = some (s'.db, groupId) ∧
        s'.workers = Function.update s.workers worker (some (.finish job groupId draw.now)) := by
  cases move_of_step stepped with
  | requested | abandoned | started | stopped | swept | halted => exact .inl rfl
  | uploaded current move =>
    left
    rw [afterUpload_db]
    cases move with
    | authenticated signed upserted =>
      obtain ⟨devices, rfl⟩ := Database.eq_of_upsertDevice upserted
      rfl
    | reportInserted success inserted =>
      obtain ⟨reports, rfl⟩ := Database.eq_of_insertReport inserted
      rfl
    | jobInserted inserted =>
      obtain ⟨jobs, rfl⟩ := Database.eq_of_insertJob inserted
      rfl
    | refused | anonymous | known | placed | written | cut | reportRefused | jobRefused => rfl
  | @worked worker draw pc result current move =>
    cases move with
    | claimed claim =>
      obtain ⟨jobs, rfl⟩ := Database.eq_of_claimJob claim
      exact .inl rfl
    | @grouped job report sig db' groupId upserted =>
      exact .inr ⟨worker, draw, job, report, sig, groupId, rfl, current, upserted, rfl⟩
    | rested | loaded | read | stored | finished | removed | keptRaw | gaveUp | closed
    | leftRunning | markedFailed | leftUnmarked => exact .inl rfl
  | collected current move => cases move <;> exact .inl rfl

theorem find?_groups_of_step {setup : Setup} {s s' : Service} {action : Action}
    (stepped : step setup s action = some s') {id : Text} {row : GroupRow}
    (found : s.db.groups.find? id = some row) :
    ∃ ts, s'.db.groups.find? id = some { row with lastSeen := ts } := by
  rcases groups_of_step stepped with same | ⟨_, _, _, _, _, _, -, -, upserted, -⟩
  · exact ⟨row.lastSeen, same ▸ found⟩
  · exact Database.find?_groups_upsertGroup upserted found

/-- Where the row of a group was before a step. -/
theorem group_before_step {setup : Setup} {s s' : Service} {action : Action}
    (stepped : step setup s action = some s') {id : Text} {row' : GroupRow}
    (found' : s'.db.groups.find? id = some row') :
    (∃ row ts, s.db.groups.find? id = some row ∧ row' = { row with lastSeen := ts }) ∨
      ∃ worker draw job report sig, action = .work worker draw ∧
        s.workers worker = some (.group job report sig) ∧
        row' = groupRow report sig draw.newId draw.now ∧
        s'.workers worker = some (.finish job id draw.now) := by
  rcases groups_of_step stepped with
    same | ⟨worker, draw, job, report, sig, groupId, rfl, current, upserted, workers⟩
  · exact .inl ⟨row', row'.lastSeen, same ▸ found', rfl⟩
  · rcases Database.group_before_upsertGroup upserted found' with before | ⟨rfl, rfl⟩
    · exact .inl before
    · refine .inr ⟨worker, draw, job, report, sig, rfl, current, rfl, ?_⟩
      rw [workers, Function.update_self]

theorem signaturesDistinct_of_step {setup : Setup} {s s' : Service} {action : Action}
    (distinct : s.db.SignaturesDistinct) (stepped : step setup s action = some s') :
    s'.db.SignaturesDistinct := by
  rcases groups_of_step stepped with same | ⟨_, _, _, _, _, _, -, -, upserted, -⟩
  · intro id id' row row' found found'
    rw [same] at found found'
    exact distinct id id' row row' found found'
  · exact distinct.upsertGroup upserted

/-! ## What a group says -/

end Service

namespace Signature.Crash

/-- The crash that a decoded text is filed by. -/
def ofDecoded (kind : ReportKind) (decoded : Text) : Crash :=
  match parseOops decoded with
  | some (exceptionLine, frames) => ⟨kind, exceptionLine, frames⟩
  | none => ⟨kind, "unclassified".toList, []⟩

@[simp] theorem kind_ofDecoded (kind : ReportKind) (decoded : Text) :
    (ofDecoded kind decoded).kind = kind := by
  rw [ofDecoded]
  cases parseOops decoded <;> rfl

theorem reportSignature_eq (sha256Hex : Text → Text) (kind : ReportKind) (decoded : Text) :
    reportSignature sha256Hex kind.asStr decoded = (ofDecoded kind decoded).signature sha256Hex := by
  rw [reportSignature, ofDecoded]
  cases parseOops decoded <;> rfl

theorem title_of_sameBars {sha256Hex : Text → Text} {crash crash' : Crash}
    (same : crash.hashed = crash'.hashed) (bars : crash.SameBars crash') :
    (crash.signature sha256Hex).title = (crash'.signature sha256Hex).title := by
  obtain ⟨exception, frames⟩ := (same_fields same).2.mpr bars
  rw [title_eq, title_eq, exception, frames]

end Signature.Crash

/-- The row says of the crash what its first report has said. -/
structure GroupRow.Describes (sha256Hex : Text → Text) (crash : Crash) (row : GroupRow) : Prop where
  signature : row.signature = (crash.signature sha256Hex).signature
  kind : row.kind = crash.kind.asStr
  title : row.title = (crash.signature sha256Hex).title
  modules : row.modules = [' '].intercalate (crash.signature sha256Hex).modules

namespace Service

/-- What a worker has in hand is of a kind of the protocol, and its signature is that of a crash. -/
def FromReport (sha256Hex : Text → Text) : Worker → Prop
  | .read _ report => ∃ kind : ReportKind, report.kind = kind.asStr
  | .store _ report _ sig | .group _ report sig =>
    ∃ crash : Crash, report.kind = crash.kind.asStr ∧ sig = crash.signature sha256Hex
  | _ => True

structure Described (sha256Hex : Text → Text) (s : Service) : Prop where
  reports : ∀ id report, s.db.reports.find? id = some report →
    ∃ kind : ReportKind, report.kind = kind.asStr
  workers : ∀ worker pc, s.workers worker = some pc → FromReport sha256Hex pc
  groups : ∀ id row, s.db.groups.find? id = some row → ∃ crash, row.Describes sha256Hex crash

theorem Described.empty (sha256Hex : Text → Text) : Described sha256Hex {} where
  reports _ _ found := by simp at found
  workers _ _ none := by simp at none
  groups _ _ found := by simp at found

theorem fromReport_of_work {libs : Libraries} {draw : Decode.Draw} {db : Database}
    {raw decoded : Files} {pc : Worker} {result : Database × Files × Files × Worker}
    (reports : ∀ id report, db.reports.find? id = some report →
      ∃ kind : ReportKind, report.kind = kind.asStr)
    (known : FromReport libs.sha256Hex pc) (move : WorkMove libs draw db raw decoded pc result) :
    FromReport libs.sha256Hex result.2.2.2 := by
  cases move with
  | loaded job found => exact reports job.reportId _ found
  | read job report found decodes =>
    obtain ⟨kind, same⟩ := known
    obtain rfl := signature_of_decodeRaw decodes
    rw [same]
    refine ⟨Crash.ofDecoded kind _, ?_, Crash.reportSignature_eq libs.sha256Hex kind _⟩
    rw [same, Crash.kind_ofDecoded]
  | stored => exact known
  | closed job outcome | leftRunning job outcome =>
    cases outcome with
    | ok => trivial
    | error e =>
      rw [Job.afterClose]
      split_ifs <;> trivial
  | rested | claimed | grouped | finished | removed | keptRaw | gaveUp | markedFailed
  | leftUnmarked => trivial

theorem described_of_step {setup : Setup} {s s' : Service} {action : Action}
    (described : Described setup.libs.sha256Hex s) (stepped : step setup s action = some s') :
    Described setup.libs.sha256Hex s' where
  reports id report' found' := by
    rcases report_before_step stepped found' with ⟨report, found, -, moved⟩ | ⟨-, new⟩
    · obtain ⟨kind, same⟩ := described.reports id report found
      refine ⟨kind, ?_⟩
      cases moved <;> exact same
    · obtain ⟨call, draw, metadata, deviceId, -, -, rfl, -⟩ := new
      exact ⟨metadata.kind, rfl⟩
  workers worker pc' current' := by
    rcases worker_before_step stepped current' with
      ⟨current, -⟩ | rfl | ⟨draw, pc, db, raw, decoded, -, current, move, -⟩
    · exact described.workers worker pc' current
    · trivial
    · exact fromReport_of_work described.reports (described.workers worker pc current) move
  groups id row' found' := by
    rcases group_before_step stepped found' with
      ⟨row, ts, found, rfl⟩ | ⟨worker, draw, job, report, sig, -, current, rfl, -⟩
    · obtain ⟨crash, signature, kind, title, modules⟩ := described.groups id row found
      exact ⟨crash, signature, kind, title, modules⟩
    · obtain ⟨crash, kind, rfl⟩ := described.workers worker _ current
      exact ⟨crash, rfl, kind, rfl, rfl⟩

theorem described_of_run {setup : Setup} {s : Service} (reached : Reachable setup s) :
    Described setup.libs.sha256Hex s := by
  obtain ⟨actions, reached⟩ := reached
  exact Machine.invariant_of_every_run (fun _ _ _ invariant stepped => described_of_step invariant stepped)
    (.empty _) reached

/-- A group stays as it is but for when it was last seen. -/
theorem find?_groups_of_run {setup : Setup} {s t : Service} {actions : List Action}
    (reached : Machine.run (step setup) s actions = some t) {id : Text} {row : GroupRow}
    (found : s.db.groups.find? id = some row) :
    ∃ ts, t.db.groups.find? id = some { row with lastSeen := ts } :=
  Machine.invariant_of_every_run
    (I := fun s => ∃ ts, s.db.groups.find? id = some { row with lastSeen := ts })
    (fun _ _ _ kept stepped => by
      obtain ⟨ts, found⟩ := kept
      obtain ⟨ts', found'⟩ := find?_groups_of_step stepped found
      exact ⟨ts', found'⟩)
    ⟨row.lastSeen, found⟩ reached

/-- Two crashes of one signature have the same kind, and the same title when the bars are in the same
fields, unless their hashed texts collide. A group describes one crash, and goes on describing it;
so two groups of one signature, in whatever states a service can come to, agree like their crashes. -/
theorem metadata_of_signature {setup : Setup} :
    (∀ crash crash' : Crash, Set.InjOn setup.libs.sha256Hex {crash.hashed, crash'.hashed} →
      (crash.signature setup.libs.sha256Hex).signature =
        (crash'.signature setup.libs.sha256Hex).signature →
      crash.kind = crash'.kind ∧
        (crash.SameBars crash' → (crash.signature setup.libs.sha256Hex).title =
          (crash'.signature setup.libs.sha256Hex).title)) ∧
    (∀ s s', Reachable setup s → Reachable setup s' →
      ∀ row ∈ s.db.groups.rows, ∀ row' ∈ s'.db.groups.rows, ∃ crash crash' : Crash,
        row.Describes setup.libs.sha256Hex crash ∧ row'.Describes setup.libs.sha256Hex crash' ∧
        (Set.InjOn setup.libs.sha256Hex {crash.hashed, crash'.hashed} →
          row.signature = row'.signature →
          row.kind = row'.kind ∧ (crash.SameBars crash' → row.title = row'.title))) ∧
    ∀ s, Reachable setup s → ∀ actions t, Machine.run (step setup) s actions = some t →
      ∀ row ∈ s.db.groups.rows, ∃ ts, { row with lastSeen := ts } ∈ t.db.groups.rows := by
  have agree (crash crash' : Crash)
      (noCollision : Set.InjOn setup.libs.sha256Hex {crash.hashed, crash'.hashed})
      (same : (crash.signature setup.libs.sha256Hex).signature =
        (crash'.signature setup.libs.sha256Hex).signature) : crash.hashed = crash'.hashed := by
    rw [Crash.signature_eq, Crash.signature_eq] at same
    exact noCollision (by simp) (by simp) same
  refine ⟨fun crash crash' noCollision same => ?_,
    fun s s' reached reached' row member row' member' => ?_,
    fun s _ actions t later row member => ?_⟩
  · have hashed := agree crash crash' noCollision same
    exact ⟨(Crash.same_fields hashed).1, Crash.title_of_sameBars hashed⟩
  · obtain ⟨crash, describes⟩ := (described_of_run reached).groups row.id row
      (Table.find?_eq_some_iff.mpr ⟨member, rfl⟩)
    obtain ⟨crash', describes'⟩ := (described_of_run reached').groups row'.id row'
      (Table.find?_eq_some_iff.mpr ⟨member', rfl⟩)
    refine ⟨crash, crash', describes, describes', fun noCollision same => ?_⟩
    rw [describes.signature, describes'.signature] at same
    have hashed := agree crash crash' noCollision same
    refine ⟨?_, fun bars => ?_⟩
    · rw [describes.kind, describes'.kind, (Crash.same_fields hashed).1]
    · rw [describes.title, describes'.title, Crash.title_of_sameBars hashed bars]
  · obtain ⟨ts, found⟩ := find?_groups_of_run later (Table.find?_eq_some_iff.mpr ⟨member, rfl⟩)
    exact ⟨ts, (Table.find?_eq_some_iff.mp found).1⟩

def demoDigestSetup : Setup :=
  { demoSetup with libs := { demoSetup.libs with sha256Hex := demoSha256Hex } }

/-- Two traces of one crash with other offsets. -/
theorem metadata_of_moved_offsets :
    let crash := demoCrash "Oops".toList ["f+0x1/0x2".toList]
    let crash' := demoCrash "Oops [#1]".toList ["f+0x3/0x4".toList]
    crash.kind = crash'.kind ∧
      (crash.signature demoSha256Hex).title = (crash'.signature demoSha256Hex).title := by
  have hashed : (demoCrash "Oops".toList ["f+0x1/0x2".toList]).hashed =
      (demoCrash "Oops [#1]".toList ["f+0x3/0x4".toList]).hashed := by decide +kernel
  obtain ⟨kind, title⟩ := (@metadata_of_signature demoDigestSetup).1
    (demoCrash "Oops".toList ["f+0x1/0x2".toList]) (demoCrash "Oops [#1]".toList ["f+0x3/0x4".toList])
    (by rw [hashed]; simp) (by rw [Crash.signature_eq, Crash.signature_eq, hashed])
  exact ⟨kind, title (by decide +kernel)⟩

/-- A function may lie in one module or in another, and a bar in the exception line stands for the
bar before a frame: kind and signature are the same, and the modules or the title are not. -/
theorem signature_without_metadata :
    (let trace (m : String) := "Oops\nCall trace:\n f+0x1/0x2 [".toList ++ m.toList ++ "]\n".toList
      let crash := Crash.ofDecoded .kernelOops (trace "a")
      let crash' := Crash.ofDecoded .kernelOops (trace "b")
      (∀ sha256Hex,
        (crash.signature sha256Hex).signature = (crash'.signature sha256Hex).signature) ∧
      ∀ sha256Hex, (crash.signature sha256Hex).modules = ["a".toList] ∧
        (crash'.signature sha256Hex).modules = ["b".toList]) ∧
    (let crash := demoCrash "Oops|f".toList ["g+0x1/0x2".toList]
      let crash' := demoCrash "Oops".toList ["f+0x1/0x2".toList, "g+0x1/0x2".toList]
      (∀ sha256Hex,
        (crash.signature sha256Hex).signature = (crash'.signature sha256Hex).signature) ∧
      ∀ sha256Hex, (crash.signature sha256Hex).title = "g".toList ∧
        (crash'.signature sha256Hex).title = "f".toList) := by
  refine ⟨⟨fun sha256Hex => congrArg sha256Hex ?_, fun sha256Hex => ?_⟩,
    fun sha256Hex => congrArg sha256Hex ?_, fun sha256Hex => ?_⟩
  · decide +kernel
  · rw [Crash.modules_eq, Crash.modules_eq]
    decide +kernel
  · decide +kernel
  · rw [Crash.title_eq, Crash.title_eq]
    decide +kernel

end Service

end UcrashReport
