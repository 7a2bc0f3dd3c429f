import UcrashReport.Common.Database
import UcrashReport.Common.Files
import UcrashReport.Common.Signature
import UcrashReport.Common.Types
import UcrashReport.Decoder.Annotate
import UcrashReport.Decoder.Scrub

/-! # The decode pipeline

A worker claims a job, loads the report and its raw payload, decompresses and symbolizes the text,
scrubs it, stores it, files it under a crash group and deletes the raw payload. Each step up to the
next statement or file operation is one step here, so that a worker can fail or stop between any
two of them. The collector drops raw payloads of failed reports.
-/

namespace UcrashReport.Decode

open Rust Rust.Text Signature Annotate Scrub UcrashReport.Types

def maxAttempts : ℤ := 3

structure Job where
  id : Text
  reportId : Text
  attempts : ℤ
deriving DecidableEq, Repr

/-! ## Decompression -/

def maxDecodedSize : ℕ := 4 * 1024 * 1024

/-- What a decompressor yields, and the error that ends it. -/
structure Stream where
  bytes : Bytes
  error : Option Text

/-- What the worker takes from libraries. -/
structure Libraries where
  classes : CharClasses
  sha256Hex : Text → Text
  lossyUtf8 : Bytes → Text
  gzip : Bytes → Stream
  zlib : Bytes → Stream
  zstd : Bytes → Except Text Stream

/-- A stream is read one byte beyond the limit; whether it fails after that is not noticed. -/
def readCapped (stream : Stream) : Except Text Bytes :=
  if maxDecodedSize < stream.bytes.length then
    .error ("decompressed payload exceeds ".toList ++ decimal maxDecodedSize ++ " bytes".toList)
  else
    match stream.error with
    | some cause => .error ("decompressing payload: ".toList ++ cause)
    | none => .ok stream.bytes

/-- Decompress a raw payload into text. -/
def decodePayload (libs : Libraries) (raw : Bytes) : PayloadEncoding → Except Text Text
  | .none => (readCapped ⟨raw, none⟩).map libs.lossyUtf8
  | .gzip => (readCapped (libs.gzip raw)).map libs.lossyUtf8
  | .zlib => (readCapped (libs.zlib raw)).map libs.lossyUtf8
  | .zstd => ((libs.zstd raw).bind readCapped).map libs.lossyUtf8

/-! ## Text and signature -/

/-- The text that is stored. There is a resolver when the symbolizer has symbols. -/
def decodedText (classes : CharClasses) (symbols : Option Resolver) (text : Text) : Text :=
  scrub classes
    (match symbols with
    | some resolve => annotate resolve text
    | none => text)

/-- Texts without a recognizable crash are grouped together. -/
def reportSignature (sha256Hex : Text → Text) (kind decoded : Text) : CrashSignature :=
  match parseOops decoded with
  | some (exception, frames) => compute sha256Hex kind exception frames
  | none => compute sha256Hex kind "unclassified".toList []

/-! ## The worker, step by step -/

/-- What a worker does next, with the local variables that it still needs. -/
inductive Worker
  | idle
  | load (job : Job)
  | read (job : Job) (report : ReportRow)
  | store (job : Job) (report : ReportRow) (decoded : Text) (sig : CrashSignature)
  | group (job : Job) (report : ReportRow) (sig : CrashSignature)
  | finish (job : Job) (groupId : Text) (ts : ℤ)
  | remove (job : Job) (groupId : Text)
  | close (job : Job) (outcome : Except Text Text)
  | markFailed (job : Job)

namespace Worker

/-- The job that is being processed; it is over once its row is closed. -/
def job : Worker → Option Job
  | idle | markFailed _ => none
  | load job | read job _ | store job _ _ _ | group job _ _ | finish job _ _ | remove job _
  | close job _ => some job

end Worker

/-- What a step draws from outside: whether its statement or file operation goes through and the
cause when it does not, how far its write gets, the time, a new id, and the symbols that are found
for the report. -/
structure Draw where
  success : Bool := true
  cause : Text := []
  written : Written := .whole
  now : ℤ := 0
  newId : Text := []
  symbols : Option Resolver := none

/-- An error with its context, as it is formatted. -/
def context (what cause : Text) : Text := what ++ ": ".toList ++ cause

/-- From the raw payload to the decoded text: the checks and the pure part of `decode_report`. -/
def decodeRaw (libs : Libraries) (symbols : Option Resolver) (report : ReportRow) (raw : Bytes) :
    Except Text (Text × CrashSignature) := do
  let encoding ← PayloadEncoding.fromStr report.payloadEncoding
  let text ← decodePayload libs raw encoding
  let decoded := decodedText libs.classes symbols text
  return (decoded, reportSignature libs.sha256Hex report.kind decoded)

theorem decodeRaw_eq_ok_iff {libs : Libraries} {symbols : Option Resolver} {report : ReportRow}
    {raw : Bytes} {decoded : Text} {sig : CrashSignature} :
    decodeRaw libs symbols report raw = .ok (decoded, sig) ↔
      ∃ encoding text, PayloadEncoding.fromStr report.payloadEncoding = .ok encoding ∧
        decodePayload libs raw encoding = .ok text ∧
        decoded = decodedText libs.classes symbols text ∧
        sig = reportSignature libs.sha256Hex report.kind decoded := by
  unfold decodeRaw
  cases PayloadEncoding.fromStr report.payloadEncoding with
  | error e => simp [bind, Except.bind]
  | ok encoding =>
    cases inflated : decodePayload libs raw encoding with
    | error e => simp [bind, Except.bind, inflated]
    | ok text =>
      simp only [bind, Except.bind, pure, Except.pure, inflated, Except.ok.injEq, Prod.mk.injEq,
        existsAndEq, true_and]
      constructor
      · rintro ⟨rfl, rfl⟩
        exact ⟨rfl, rfl⟩
      · rintro ⟨rfl, rfl⟩
        exact ⟨rfl, rfl⟩

/-- The signature that goes on is that of the decoded text. -/
theorem signature_of_decodeRaw {libs : Libraries} {symbols : Option Resolver} {report : ReportRow}
    {raw : Bytes} {decoded : Text} {sig : CrashSignature}
    (decodes : decodeRaw libs symbols report raw = .ok (decoded, sig)) :
    sig = reportSignature libs.sha256Hex report.kind decoded := by
  obtain ⟨-, -, -, -, -, isSig⟩ := decodeRaw_eq_ok_iff.mp decodes
  exact isSig

def groupRow (report : ReportRow) (sig : CrashSignature) (id : Text) (ts : ℤ) : GroupRow where
  id
  signature := sig.signature
  kind := report.kind
  title := sig.title
  modules := [' '].intercalate sig.modules
  firstSeen := ts
  lastSeen := ts
  firstSeenVersion := report.version

/-- One step of the loop of `claim_job` and `process_job`. Errors of the two statements that close a
job are ignored. -/
def work (libs : Libraries) (draw : Draw) (db : Database) (raw decoded : Files) :
    Worker → Database × Files × Files × Worker
  | .idle =>
    if draw.success then
      match db.claimJob with
      | (db, some row) => (db, raw, decoded, .load ⟨row.id, row.reportId, row.attempts⟩)
      | (db, none) => (db, raw, decoded, .idle)
    else (db, raw, decoded, .idle)
  | .load job =>
    match if draw.success then db.reports.find? job.reportId else none with
    | some report => (db, raw, decoded, .read job report)
    | none =>
      (db, raw, decoded, .close job (.error (context "loading report".toList draw.cause)))
  | .read job report =>
    match if draw.success then raw job.reportId else none with
    | none =>
      (db, raw, decoded, .close job (.error (context "reading raw payload".toList draw.cause)))
    | some data =>
      match decodeRaw libs draw.symbols report data with
      | .ok (text, sig) => (db, raw, decoded, .store job report text sig)
      | .error e => (db, raw, decoded, .close job (.error e))
  | .store job report text sig =>
    if draw.success then
      match decoded.write job.reportId (utf8Encode text) draw.written with
      | (decoded, true) => (db, raw, decoded, .group job report sig)
      | (decoded, false) =>
        (db, raw, decoded, .close job (.error (context "writing decoded text".toList draw.cause)))
    else (db, raw, decoded, .close job (.error draw.cause))
  | .group job report sig =>
    match if draw.success then db.upsertGroup (groupRow report sig draw.newId draw.now)
      else none with
    | some (db, groupId) => (db, raw, decoded, .finish job groupId draw.now)
    | none =>
      (db, raw, decoded, .close job (.error (context "upserting crash group".toList draw.cause)))
  | .finish job groupId ts =>
    if draw.success then
      (db.setDecoded job.reportId groupId ts, raw, decoded, .remove job groupId)
    else (db, raw, decoded, .close job (.error draw.cause))
  | .remove job groupId =>
    if draw.success && (raw job.reportId).isSome then
      (db, raw.remove job.reportId, decoded, .close job (.ok groupId))
    else
      (db, raw, decoded, .close job (.error (context "deleting raw payload".toList draw.cause)))
  | .close job (.ok _) =>
    (if draw.success then db.updateJob job.id .done none else db, raw, decoded, .idle)
  | .close job (.error e) =>
    let final := maxAttempts ≤ job.attempts
    (if draw.success then db.updateJob job.id (if final then .failed else .pending) (some e) else db,
      raw, decoded, if final then .markFailed job else .idle)
  | .markFailed job =>
    (if draw.success then db.setFailed job.reportId else db, raw, decoded, .idle)

/-! ## The collector, step by step -/

/-- A run of `gc_failed_raw`: the reports that are left. -/
inductive Collector
  | select
  | remove (ids : List Text)
  | mark (id : Text) (ids : List Text)
deriving DecidableEq, Repr

/-- One step of `gc_failed_raw`; `none` when it is over. The time is set whether or not the file
could be removed. -/
def gcFailedRaw (retentionDays : ℕ) (draw : Draw) (db : Database) (raw : Files) :
    Collector → Database × Files × Option Collector
  | .select =>
    if draw.success then
      (db, raw, some (.remove (db.failedReports (draw.now - retentionDays * 86400))))
    else (db, raw, none)
  | .remove [] => (db, raw, none)
  | .remove (id :: ids) =>
    (db, if draw.success then raw.remove id else raw, some (.mark id ids))
  | .mark id ids =>
    (if draw.success then db.setRawDeletedAt id draw.now else db, raw, some (.remove ids))

end UcrashReport.Decode
