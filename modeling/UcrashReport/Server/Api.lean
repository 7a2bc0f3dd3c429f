import UcrashReport.Common.BuildId
import UcrashReport.Common.Database
import UcrashReport.Common.Files
import UcrashReport.Common.Types
import UcrashReport.Common.Usign

/-! # Report ingest

The checks of an upload and the statements it runs. A signed request is verified before anything
in it is parsed; the report is stored under the uuid of its metadata unless another device has
that uuid already. What the libraries of the server decide is a parameter, and so are the ids and
times that a request draws.
-/

namespace UcrashReport.Api

open Rust Rust.Text BuildId UcrashReport.Types

structure ApiError where
  status : ℕ
  message : Text
deriving DecidableEq, Repr

def bad (message : Text) : ApiError := ⟨400, message⟩

def unauthorized (message : Text) : ApiError := ⟨401, message⟩

def internalError : ApiError := ⟨500, "internal error".toList⟩

structure Headers where
  pubkey : Option Text
  signature : Option Text
  contentType : Option Text
deriving DecidableEq, Repr

/-- The values of the headers as they are received. -/
structure RawHeaders where
  pubkey : Option Bytes
  signature : Option Bytes
  contentType : Option Bytes
deriving DecidableEq, Repr

/-- `HeaderValue::to_str`: visible ASCII characters and tabs. -/
def headerStr (value : Bytes) : Option Text :=
  if value.all fun byte => (32 ≤ byte && byte < 127) || byte == 9 then
    some (value.map fun byte => Char.ofNat byte.toNat)
  else none

/-- A header that is not text reads like one that is absent. -/
def RawHeaders.read (raw : RawHeaders) : Headers where
  pubkey := raw.pubkey.bind headerStr
  signature := raw.signature.bind headerStr
  contentType := raw.contentType.bind headerStr

/-- A multipart field; its text or its bytes may be unreadable. -/
structure Field where
  name : Option Text
  text : Option Text
  bytes : Option Bytes
deriving DecidableEq, Repr

/-- What the server takes from libraries: signature checks, the multipart and JSON readers, the
digest, the reader of uuids and lower case in Unicode. A multipart body is its fields and whether
it ends as it should. -/
structure Readers where
  validKey : Text → Bool
  verify : Text → Text → Bytes → Bool
  multipart : Text → Bytes → Option (List Field × Bool)
  json : Text → Except Text ReportMetadata
  sha256 : Bytes → Bytes
  parseUuid : Text → Bool
  toLowercase : Text → Text

/-- Keys and signatures are read as usign blobs. -/
def Readers.withUsign (readers : Readers) (primitives : Usign.Primitives) : Readers :=
  { readers with
    validKey := fun pubkey => (Usign.PublicKey.fromBase64 primitives pubkey).toOption.isSome
    verify := fun pubkey signature msg =>
      match Usign.PublicKey.fromBase64 primitives pubkey with
      | .ok key => (key.verify primitives signature msg).toOption.isSome
      | .error _ => false }

/-! ## Checks -/

/-- The public key that has signed the body, if the request is a signed one. -/
def checkSignature (readers : Readers) (headers : Headers) (body : Bytes) :
    Except ApiError (Option Text) :=
  match headers.pubkey with
  | none => .ok none
  | some pubkey =>
    match headers.signature with
    | none => .error (unauthorized "pubkey without signature".toList)
    | some signature =>
      if !readers.validKey pubkey then .error (bad "invalid pubkey".toList)
      else if !readers.verify pubkey signature body then
        .error (unauthorized "signature verification failed".toList)
      else .ok (some pubkey)

/-- The loop over the fields; of two fields of one name the later one counts. -/
def collectFields : Option Text → Option Bytes → List Field →
    Except ApiError (Option Text × Option Bytes)
  | metadata, payload, [] => .ok (metadata, payload)
  | metadata, payload, field :: rest =>
    if field.name = some "metadata".toList then
      match field.text with
      | none => .error (bad "invalid metadata".toList)
      | some text =>
        if maxMetadataSize < byteLen text then .error (bad "metadata too large".toList)
        else collectFields (some text) payload rest
    else if field.name = some "payload".toList then
      match field.bytes with
      | none => .error (bad "invalid payload".toList)
      | some data =>
        if maxPayloadSize < data.length then .error (bad "payload too large".toList)
        else collectFields metadata (some data) rest
    else collectFields metadata payload rest

def parseMultipart (readers : Readers) (headers : Headers) (body : Bytes) :
    Except ApiError (ReportMetadata × Bytes) :=
  match headers.contentType with
  | none => .error (bad "missing content-type".toList)
  | some contentType =>
    match readers.multipart contentType body with
    | none => .error (bad "invalid content-type".toList)
    | some (fields, complete) =>
      match collectFields none none fields with
      | .error e => .error e
      | .ok (text, data) =>
        if !complete then .error (bad "invalid multipart body".toList)
        else
          match text, data with
          | none, _ => .error (bad "missing metadata field".toList)
          | some _, none => .error (bad "missing payload field".toList)
          | some text, some data =>
            match readers.json text with
            | .error e => .error (bad ("invalid metadata: ".toList ++ e))
            | .ok metadata => .ok (metadata, data)

/-- The checks on the parsed report, before the database is asked for its uuid. -/
def checkReport (readers : Readers) (metadata : ReportMetadata) (payload : Bytes) :
    Except ApiError Unit :=
  if metadata.format ≠ formatVersion then .error (bad "unsupported format".toList)
  else if hexEncode (readers.sha256 payload) ≠ readers.toLowercase metadata.payloadSha256 then
    .error (bad "payload_sha256 mismatch".toList)
  else if !readers.parseUuid metadata.uuid then .error (bad "invalid uuid".toList)
  else .ok ()

/-! ## Stored data -/

/-- The place of a raw payload. -/
def rawFile (rawDir : Location) (reportId : Text) : Location := rawDir.join reportId

def reportRow (readers : Readers) (metadata : ReportMetadata) (reportId : Text) (deviceId : Option Text)
    (receivedAt : ℤ) : ReportRow where
  id := reportId
  deviceId := deviceId
  kind := metadata.kind.asStr
  receivedAt := receivedAt
  capturedAt := metadata.capturedAt
  version := metadata.openwrt.version
  revision := metadata.openwrt.revision
  target := metadata.openwrt.target
  arch := metadata.openwrt.arch
  boardName := metadata.board
  kernel := metadata.kernel
  kernelBuildid := metadata.kernelBuildid.map readers.toLowercase
  payloadEncoding := metadata.payloadEncoding.asStr

/-- The id under which a report is stored, or the one it has already: the same device sends the
same uuid again. A uuid of another report is replaced by a fresh id. -/
inductive Placement
  | known
  | fresh (reportId : Text)
deriving DecidableEq, Repr

def place (db : Database) (uuid : Text) (deviceId : Option Text) (newId : Text) : Placement :=
  match db.reports.find? uuid with
  | none => .fresh uuid
  | some row =>
    if row.deviceId.isSome && row.deviceId = deviceId then .known else .fresh newId

theorem place_eq_known {db : Database} {uuid newId : Text} {deviceId : Option Text}
    (known : place db uuid deviceId newId = .known) :
    ∃ row, db.reports.find? uuid = some row ∧ row.deviceId.isSome ∧ row.deviceId = deviceId := by
  rw [place] at known
  cases found : db.reports.find? uuid with
  | none => simp [found] at known
  | some row =>
    rw [found] at known
    dsimp only at known
    split_ifs at known with own
    exact ⟨row, rfl, by simpa using own⟩

/-! ## One upload, statement by statement -/

/-- What a running call does next, with the local variables that it still needs. -/
inductive Upload
  | authenticate (headers : Headers) (body : Bytes)
  | lookup (metadata : ReportMetadata) (payload : Bytes) (deviceId : Option Text)
  | write (metadata : ReportMetadata) (payload : Bytes) (deviceId : Option Text) (reportId : Text)
  | insertReport (metadata : ReportMetadata) (deviceId : Option Text) (reportId : Text)
  | insertJob (reportId : Text)
deriving DecidableEq, Repr

/-- What a call has come to after a statement. -/
inductive Progress
  | running (next : Upload)
  | created (reportId : Text)
  | failed (error : ApiError)
deriving DecidableEq, Repr

/-- What a step draws from outside: whether its statement goes through, how far its write gets, the
time, and a new id. -/
structure Draw where
  success : Bool := true
  written : Written := .whole
  now : ℤ := 0
  newId : Text := []
deriving DecidableEq, Repr

/-- The parsing and the checks between the upsert of the device and the lookup of the uuid. -/
def afterAuthentication (readers : Readers) (headers : Headers) (body : Bytes)
    (deviceId : Option Text) : Progress :=
  match parseMultipart readers headers body with
  | .error e => .failed e
  | .ok (metadata, payload) =>
    match checkReport readers metadata payload with
    | .error e => .failed e
    | .ok () => .running (.lookup metadata payload deviceId)

/-- A call whose request has passed the checks goes on with the lookup of its uuid. -/
theorem afterAuthentication_eq_running {readers : Readers} {headers : Headers} {body : Bytes}
    {deviceId : Option Text} {next : Upload}
    (running : afterAuthentication readers headers body deviceId = .running next) :
    ∃ metadata payload, parseMultipart readers headers body = .ok (metadata, payload) ∧
      checkReport readers metadata payload = .ok () ∧ next = .lookup metadata payload deviceId := by
  rw [afterAuthentication] at running
  cases parsed : parseMultipart readers headers body with
  | error e => simp [parsed] at running
  | ok report =>
    rw [parsed] at running
    dsimp only at running
    cases checked : checkReport readers report.1 report.2 with
    | error e => simp [checked] at running
    | ok =>
      rw [checked] at running
      exact ⟨report.1, report.2, rfl, checked, (Progress.running.inj running).symm⟩

theorem afterAuthentication_ne_created (readers : Readers) (headers : Headers) (body : Bytes)
    (deviceId : Option Text) (id : Text) :
    afterAuthentication readers headers body deviceId ≠ .created id := by
  rw [afterAuthentication]
  cases parseMultipart readers headers body with
  | error e => simp
  | ok report =>
    dsimp only
    cases checkReport readers report.1 report.2 <;> simp

/-- One statement or file write of `post_report`, with the pure code up to the next one. A failed
statement changes nothing and ends the call. -/
def postReport (readers : Readers) (draw : Draw) (db : Database) (raw : Files) :
    Upload → Database × Files × Progress
  | .authenticate headers body =>
    match checkSignature readers headers body with
    | .error e => (db, raw, .failed e)
    | .ok none => (db, raw, afterAuthentication readers headers body none)
    | .ok (some pubkey) =>
      match if draw.success then db.upsertDevice draw.newId pubkey draw.now else none with
      | none => (db, raw, .failed internalError)
      | some (db, deviceId) => (db, raw, afterAuthentication readers headers body (some deviceId))
  | .lookup metadata payload deviceId =>
    if draw.success then
      match place db metadata.uuid deviceId draw.newId with
      | .known => (db, raw, .created metadata.uuid)
      | .fresh reportId => (db, raw, .running (.write metadata payload deviceId reportId))
    else (db, raw, .failed internalError)
  | .write metadata payload deviceId reportId =>
    match raw.write reportId payload draw.written with
    | (raw, true) => (db, raw, .running (.insertReport metadata deviceId reportId))
    | (raw, false) => (db, raw, .failed internalError)
  | .insertReport metadata deviceId reportId =>
    match if draw.success then
        db.insertReport (reportRow readers metadata reportId deviceId draw.now)
      else none with
    | none => (db, raw, .failed internalError)
    | some db => (db, raw, .running (.insertJob reportId))
  | .insertJob reportId =>
    match if draw.success then db.insertJob draw.newId reportId else none with
    | none => (db, raw, .failed internalError)
    | some db => (db, raw, .created reportId)

/-! ## A whole upload -/

/-- A call that nobody else gets in the way of, for so many statements; the draws are taken from the
last one down. -/
def serve (readers : Readers) (draws : ℕ → Draw) :
    ℕ → Database → Files → Upload → Database × Files × Progress
  | 0, db, raw, pc => (db, raw, .running pc)
  | n + 1, db, raw, pc =>
    match postReport readers (draws n) db raw pc with
    | (db, raw, .running next) => serve readers draws n db raw next
    | result => result

/-- How many statements a call still takes at most. -/
def Upload.remaining : Upload → ℕ
  | .authenticate _ _ => 5
  | .lookup _ _ _ => 4
  | .write _ _ _ _ => 3
  | .insertReport _ _ _ => 2
  | .insertJob _ => 1

/-- The answer to a request, and the state that it leaves. -/
def answer (readers : Readers) (draws : ℕ → Draw) (db : Database) (raw : Files) (headers : Headers)
    (body : Bytes) : Database × Files × Progress :=
  serve readers draws 5 db raw (.authenticate headers body)

theorem remaining_of_postReport {readers : Readers} {draw : Draw} {db db' : Database}
    {raw raw' : Files} {pc next : Upload}
    (running : postReport readers draw db raw pc = (db', raw', .running next)) :
    next.remaining < pc.remaining := by
  have checked {headers : Headers} {body : Bytes} {deviceId : Option Text}
      (passed : afterAuthentication readers headers body deviceId = .running next) :
      next.remaining < 5 := by
    obtain ⟨metadata, payload, -, -, rfl⟩ := afterAuthentication_eq_running passed
    exact Nat.lt_succ_self 4
  cases pc with
  | authenticate headers body =>
    rw [postReport] at running
    split at running
    · simp at running
    · simp only [Prod.mk.injEq] at running
      exact checked running.2.2
    · split at running
      · simp at running
      · simp only [Prod.mk.injEq] at running
        exact checked running.2.2
  | lookup =>
    rw [postReport] at running
    split at running
    · split at running
      · simp at running
      · simp only [Prod.mk.injEq, Progress.running.injEq] at running
        exact running.2.2 ▸ Nat.lt_succ_self 3
    · simp at running
  | write =>
    rw [postReport] at running
    split at running
    · simp only [Prod.mk.injEq, Progress.running.injEq] at running
      exact running.2.2 ▸ Nat.lt_succ_self 2
    · simp at running
  | insertReport =>
    rw [postReport] at running
    split at running
    · simp at running
    · simp only [Prod.mk.injEq, Progress.running.injEq] at running
      exact running.2.2 ▸ Nat.lt_succ_self 1
  | insertJob =>
    rw [postReport] at running
    split at running <;> simp at running

/-- Every request is answered. -/
theorem serve_ne_running {readers : Readers} {draws : ℕ → Draw} {n : ℕ} {db : Database} {raw : Files}
    {pc : Upload} (enough : pc.remaining ≤ n) (next : Upload) :
    (serve readers draws n db raw pc).2.2 ≠ .running next := by
  induction n generalizing db raw pc with
  | zero => cases pc <;> simp [Upload.remaining] at enough
  | succ n ih =>
    rw [serve]
    split
    · next running =>
      have fewer := remaining_of_postReport running
      exact ih (by omega)
    · next ended => exact fun running => ended _ _ next (by rw [← running])

end UcrashReport.Api
