import UcrashReport.Soundness.RejectedUploads
import UcrashReport.Soundness.StoredReports

/-! # Well-formed uploads

What the loop over the fields of a body and the checks behind it come to: the signature is one of the
key that comes with it, the last field of each of the two names is there and no field of these names is
unreadable or too large, and the metadata is that of the payload. In whatever order requests are served
and whatever fails, no other request is answered with a report. One thing is wrong first with every
other request, and this is what its client is told unless the step that would tell it fails.
-/

namespace UcrashReport.Api

open Rust Rust.Text BuildId Store UcrashReport.Types

/-! ## Fields -/

/-- Why the loop over the fields stops at a field. -/
inductive Offends (field : Field) : ApiError → Prop
  | unreadableMetadata (name : field.name = some "metadata".toList) (unreadable : field.text = none) :
      Offends field (bad "invalid metadata".toList)
  | largeMetadata {text : Text} (name : field.name = some "metadata".toList)
      (read : field.text = some text) (large : maxMetadataSize < byteLen text) :
      Offends field (bad "metadata too large".toList)
  | unreadablePayload (name : field.name = some "payload".toList) (unreadable : field.bytes = none) :
      Offends field (bad "invalid payload".toList)
  | largePayload {data : Bytes} (name : field.name = some "payload".toList)
      (read : field.bytes = some data) (large : maxPayloadSize < data.length) :
      Offends field (bad "payload too large".toList)

def Fine (field : Field) : Prop := ∀ e, ¬ Offends field e

/-- Of the fields of one name the last one counts. -/
def lastNamed (name : Text) (fields : List Field) : Option Field :=
  fields.reverse.find? fun field => field.name = some name

/-- A field counts unless a later one of its name does. -/
theorem elim_lastNamed_cons {β : Type*} (name : Text) (field : Field) (rest : List Field) (absent : β)
    (read : Field → β) :
    (lastNamed name (field :: rest)).elim absent read =
      (lastNamed name rest).elim (if field.name = some name then read field else absent) read := by
  rw [lastNamed, List.reverse_cons, List.find?_append, List.find?_singleton, lastNamed]
  cases rest.reverse.find? fun field => field.name = some name with
  | none => by_cases same : field.name = some name <;> simp [same]
  | some last => rfl

variable {metadata : Option Text} {payload : Option Bytes} {field : Field} {rest fields : List Field}

theorem collectFields_of_offends {e : ApiError} (offends : Offends field e) :
    collectFields metadata payload (field :: rest) = .error e := by
  cases offends with
  | unreadableMetadata name unreadable => simp [collectFields, name, unreadable]
  | largeMetadata name read large => simp [collectFields, name, read, large]
  | unreadablePayload name unreadable => simp [collectFields, name, unreadable]
  | largePayload name read large => simp [collectFields, name, read, large]

theorem collectFields_of_fine (fine : Fine field) :
    collectFields metadata payload (field :: rest) =
      collectFields (if field.name = some "metadata".toList then field.text else metadata)
        (if field.name = some "payload".toList then field.bytes else payload) rest := by
  rw [collectFields]
  by_cases isMetadata : field.name = some "metadata".toList
  · have notPayload : field.name ≠ some "payload".toList := by simp [isMetadata]
    rw [if_pos isMetadata, if_pos isMetadata, if_neg notPayload]
    cases read : field.text with
    | none => exact absurd (.unreadableMetadata isMetadata read) (fine _)
    | some text => exact if_neg fun large => fine _ (.largeMetadata isMetadata read large)
  · rw [if_neg isMetadata, if_neg isMetadata]
    by_cases isPayload : field.name = some "payload".toList
    · rw [if_pos isPayload, if_pos isPayload]
      cases read : field.bytes with
      | none => exact absurd (.unreadablePayload isPayload read) (fine _)
      | some data => exact if_neg fun large => fine _ (.largePayload isPayload read large)
    · rw [if_neg isPayload, if_neg isPayload]

/-- The error is that of the first field that the loop cannot go on after. -/
theorem collectFields_eq_error_iff {e : ApiError} :
    collectFields metadata payload fields = .error e ↔
      ∃ before field after, fields = before ++ field :: after ∧ (∀ other ∈ before, Fine other) ∧
        Offends field e := by
  induction fields generalizing metadata payload with
  | nil => simp [collectFields]
  | cons field rest ih =>
    by_cases fine : Fine field
    · rw [collectFields_of_fine fine, ih]
      constructor
      · rintro ⟨before, offender, after, rfl, allFine, offends⟩
        exact ⟨field :: before, offender, after, rfl, List.forall_mem_cons.mpr ⟨fine, allFine⟩, offends⟩
      · rintro ⟨before, offender, after, split, allFine, offends⟩
        cases before with
        | nil =>
          obtain ⟨rfl, -⟩ := List.cons.inj split
          exact absurd offends (fine e)
        | cons first before =>
          obtain ⟨rfl, rfl⟩ := List.cons.inj split
          exact ⟨before, offender, after, rfl, (List.forall_mem_cons.mp allFine).2, offends⟩
    · rw [Fine, not_forall_not] at fine
      obtain ⟨e', offends⟩ := fine
      rw [collectFields_of_offends offends, Except.error.injEq]
      constructor
      · rintro rfl
        exact ⟨[], field, rest, rfl, by simp, offends⟩
      · rintro ⟨before, offender, after, split, allFine, offends'⟩
        cases before with
        | nil =>
          obtain ⟨rfl, -⟩ := List.cons.inj split
          have first : collectFields none none [field] = .error e' := collectFields_of_offends offends
          rw [collectFields_of_offends offends'] at first
          exact (Except.error.inj first).symm
        | cons first before =>
          obtain ⟨rfl, -⟩ := List.cons.inj split
          exact absurd offends ((List.forall_mem_cons.mp allFine).1 e')

theorem collectFields_eq_ok_iff {text : Option Text} {data : Option Bytes} :
    collectFields metadata payload fields = .ok (text, data) ↔
      (∀ field ∈ fields, Fine field) ∧
        text = (lastNamed "metadata".toList fields).elim metadata (·.text) ∧
        data = (lastNamed "payload".toList fields).elim payload (·.bytes) := by
  induction fields generalizing metadata payload with
  | nil =>
    constructor
    · intro collected
      obtain ⟨rfl, rfl⟩ := Prod.mk.inj (Except.ok.inj collected)
      exact ⟨by simp, rfl, rfl⟩
    · rintro ⟨-, rfl, rfl⟩
      rfl
  | cons field rest ih =>
    rw [List.forall_mem_cons]
    by_cases fine : Fine field
    · rw [collectFields_of_fine fine, ih, elim_lastNamed_cons, elim_lastNamed_cons,
        and_iff_right fine]
    · refine iff_of_false (fun collected => fine fun e offends => ?_) fun holds => fine holds.1.1
      rw [collectFields_of_offends offends] at collected
      contradiction

/-! ## Requests -/

variable {readers : Readers} {headers : Headers} {body : Bytes} {report : ReportMetadata}
  {data : Bytes}

/-- The body is a form with these two fields. -/
def IsForm (readers : Readers) (headers : Headers) (body : Bytes) (text : Text) (data : Bytes) : Prop :=
  ∃ contentType fields, headers.contentType = some contentType ∧
    readers.multipart contentType body = some (fields, true) ∧ (∀ field ∈ fields, Fine field) ∧
    (lastNamed "metadata".toList fields).elim none (·.text) = some text ∧
    (lastNamed "payload".toList fields).elim none (·.bytes) = some data

/-- What is wrong with the form: of what comes first in the body the loop speaks first. -/
inductive BadForm (readers : Readers) (headers : Headers) (body : Bytes) : ApiError → Prop
  | untyped (untyped : headers.contentType = none) :
      BadForm readers headers body (bad "missing content-type".toList)
  | noMultipart {contentType : Text} (typed : headers.contentType = some contentType)
      (unreadable : readers.multipart contentType body = none) :
      BadForm readers headers body (bad "invalid content-type".toList)
  | field {contentType : Text} {before after : List Field} {field : Field} {complete : Bool}
      {e : ApiError} (typed : headers.contentType = some contentType)
      (read : readers.multipart contentType body = some (before ++ field :: after, complete))
      (fine : ∀ other ∈ before, Fine other) (offends : Offends field e) : BadForm readers headers body e
  | broken {contentType : Text} {fields : List Field} (typed : headers.contentType = some contentType)
      (read : readers.multipart contentType body = some (fields, false))
      (fine : ∀ field ∈ fields, Fine field) :
      BadForm readers headers body (bad "invalid multipart body".toList)
  | noMetadata {contentType : Text} {fields : List Field}
      (typed : headers.contentType = some contentType)
      (read : readers.multipart contentType body = some (fields, true))
      (fine : ∀ field ∈ fields, Fine field) (missing : lastNamed "metadata".toList fields = none) :
      BadForm readers headers body (bad "missing metadata field".toList)
  | noPayload {contentType : Text} {fields : List Field}
      (typed : headers.contentType = some contentType)
      (read : readers.multipart contentType body = some (fields, true))
      (fine : ∀ field ∈ fields, Fine field) (there : lastNamed "metadata".toList fields ≠ none)
      (missing : lastNamed "payload".toList fields = none) :
      BadForm readers headers body (bad "missing payload field".toList)

theorem mem_of_lastNamed {name : Text} (found : lastNamed name fields = some field) :
    field ∈ fields ∧ field.name = some name := by
  rw [lastNamed] at found
  have named := List.find?_some found
  exact ⟨List.mem_reverse.mp (List.mem_of_find?_eq_some found), of_decide_eq_true named⟩

/-- A field that is fine and of this name has a text. -/
theorem elim_metadata_eq_none_iff (fine : ∀ field ∈ fields, Fine field) :
    (lastNamed "metadata".toList fields).elim none (·.text) = none ↔
      lastNamed "metadata".toList fields = none := by
  cases found : lastNamed "metadata".toList fields with
  | none => exact iff_of_true rfl rfl
  | some field =>
    obtain ⟨member, name⟩ := mem_of_lastNamed found
    exact iff_of_false (fun unreadable => fine field member _ (.unreadableMetadata name unreadable))
      (Option.some_ne_none field)

theorem elim_payload_eq_none_iff (fine : ∀ field ∈ fields, Fine field) :
    (lastNamed "payload".toList fields).elim none (·.bytes) = none ↔
      lastNamed "payload".toList fields = none := by
  cases found : lastNamed "payload".toList fields with
  | none => exact iff_of_true rfl rfl
  | some field =>
    obtain ⟨member, name⟩ := mem_of_lastNamed found
    exact iff_of_false (fun unreadable => fine field member _ (.unreadablePayload name unreadable))
      (Option.some_ne_none field)

theorem parseMultipart_of_form {text : Text} (form : IsForm readers headers body text data) :
    parseMultipart readers headers body =
      match readers.json text with
      | .error e => .error (bad ("invalid metadata: ".toList ++ e))
      | .ok report => .ok (report, data) := by
  obtain ⟨contentType, fields, typed, read, fine, isText, isData⟩ := form
  have collected : collectFields none none fields = .ok (some text, some data) :=
    collectFields_eq_ok_iff.mpr ⟨fine, isText.symm, isData.symm⟩
  rw [parseMultipart]
  simp only [typed, read, collected]
  rfl

theorem parseMultipart_of_badForm {e : ApiError} (wrong : BadForm readers headers body e) :
    parseMultipart readers headers body = .error e := by
  rw [parseMultipart]
  cases wrong with
  | untyped untyped => rw [untyped]
  | noMultipart typed unreadable => simp only [typed, unreadable]
  | @field contentType before after field complete e typed read fine offends =>
    have collected : collectFields none none (before ++ field :: after) = .error e :=
      collectFields_eq_error_iff.mpr ⟨before, field, after, rfl, fine, offends⟩
    simp only [typed, read, collected]
  | @broken contentType fields typed read fine =>
    have collected : collectFields none none fields = .ok (_, _) :=
      collectFields_eq_ok_iff.mpr ⟨fine, rfl, rfl⟩
    simp only [typed, read, collected]
    rfl
  | @noMetadata contentType fields typed read fine missing =>
    have collected : collectFields none none fields = .ok (none, _) :=
      collectFields_eq_ok_iff.mpr ⟨fine, ((elim_metadata_eq_none_iff fine).mpr missing).symm, rfl⟩
    simp only [typed, read, collected]
    rfl
  | @noPayload contentType fields typed read fine there missing =>
    obtain ⟨text, isText⟩ :=
      Option.ne_none_iff_exists'.mp fun none => there ((elim_metadata_eq_none_iff fine).mp none)
    have collected : collectFields none none fields = .ok (some text, none) :=
      collectFields_eq_ok_iff.mpr
        ⟨fine, isText.symm, ((elim_payload_eq_none_iff fine).mpr missing).symm⟩
    simp only [typed, read, collected]
    rfl

/-- The body is a form, or something is wrong with it. -/
theorem form_or_badForm (readers : Readers) (headers : Headers) (body : Bytes) :
    (∃ text data, IsForm readers headers body text data) ∨ ∃ e, BadForm readers headers body e := by
  cases typed : headers.contentType with
  | none => exact .inr ⟨_, .untyped typed⟩
  | some contentType =>
    cases read : readers.multipart contentType body with
    | none => exact .inr ⟨_, .noMultipart typed read⟩
    | some result =>
      obtain ⟨fields, complete⟩ := result
      cases collected : collectFields none none fields with
      | error e =>
        obtain ⟨before, field, after, rfl, fine, offends⟩ := collectFields_eq_error_iff.mp collected
        exact .inr ⟨e, .field typed read fine offends⟩
      | ok parts =>
        obtain ⟨text, data⟩ := parts
        obtain ⟨fine, isText, isData⟩ := collectFields_eq_ok_iff.mp collected
        cases complete with
        | false => exact .inr ⟨_, .broken typed read fine⟩
        | true =>
          cases text with
          | none =>
            exact .inr ⟨_, .noMetadata typed read fine ((elim_metadata_eq_none_iff fine).mp isText.symm)⟩
          | some text =>
            cases data with
            | none =>
              refine .inr ⟨_, .noPayload typed read fine (fun missing => ?_)
                ((elim_payload_eq_none_iff fine).mp isData.symm)⟩
              rw [missing] at isText
              contradiction
            | some data =>
              exact .inl ⟨text, data, contentType, fields, typed, read, fine, isText.symm, isData.symm⟩

theorem parseMultipart_eq_ok_iff :
    parseMultipart readers headers body = .ok (report, data) ↔
      ∃ text, IsForm readers headers body text data ∧ readers.json text = .ok report := by
  constructor
  · intro parsed
    rcases form_or_badForm readers headers body with ⟨text, data', form⟩ | ⟨e, wrong⟩
    · rw [parseMultipart_of_form form] at parsed
      cases known : readers.json text with
      | error why =>
        rw [known] at parsed
        contradiction
      | ok report' =>
        rw [known] at parsed
        obtain ⟨rfl, rfl⟩ := Prod.mk.inj (Except.ok.inj parsed)
        exact ⟨text, form, known⟩
    · rw [parseMultipart_of_badForm wrong] at parsed
      contradiction
  · rintro ⟨text, form, known⟩
    rw [parseMultipart_of_form form, known]

/-- The form is wrong, or the metadata in it cannot be read. -/
theorem parseMultipart_eq_error_iff {e : ApiError} :
    parseMultipart readers headers body = .error e ↔ BadForm readers headers body e ∨
      ∃ text data why, IsForm readers headers body text data ∧ readers.json text = .error why ∧
        e = bad ("invalid metadata: ".toList ++ why) := by
  constructor
  · intro parsed
    rcases form_or_badForm readers headers body with ⟨text, data, form⟩ | ⟨e', wrong⟩
    · rw [parseMultipart_of_form form] at parsed
      cases known : readers.json text with
      | error why =>
        rw [known] at parsed
        exact .inr ⟨text, data, why, form, known, (Except.error.inj parsed).symm⟩
      | ok report =>
        rw [known] at parsed
        contradiction
    · rw [parseMultipart_of_badForm wrong] at parsed
      exact .inl (Except.error.inj parsed ▸ wrong)
  · rintro (wrong | ⟨text, data, why, form, known, rfl⟩)
    · exact parseMultipart_of_badForm wrong
    · rw [parseMultipart_of_form form, known]

/-! ## The metadata and the signature -/

/-- What is wrong with metadata that can be read. -/
inductive BadReport (readers : Readers) (report : ReportMetadata) (data : Bytes) : ApiError → Prop
  | format (format : report.format ≠ formatVersion) :
      BadReport readers report data (bad "unsupported format".toList)
  | digest (format : report.format = formatVersion)
      (digest : hexEncode (readers.sha256 data) ≠ readers.toLowercase report.payloadSha256) :
      BadReport readers report data (bad "payload_sha256 mismatch".toList)
  | uuid (format : report.format = formatVersion)
      (digest : hexEncode (readers.sha256 data) = readers.toLowercase report.payloadSha256)
      (unreadable : readers.parseUuid report.uuid = false) :
      BadReport readers report data (bad "invalid uuid".toList)

theorem checkReport_eq_ok_iff :
    checkReport readers report data = .ok () ↔ report.format = formatVersion ∧
      hexEncode (readers.sha256 data) = readers.toLowercase report.payloadSha256 ∧
      readers.parseUuid report.uuid = true := by
  rw [checkReport]
  split_ifs with format digest uuid <;> simp_all

theorem checkReport_eq_error_iff {e : ApiError} :
    checkReport readers report data = .error e ↔ BadReport readers report data e := by
  rw [checkReport]
  constructor
  · intro refused
    split_ifs at refused with format digest uuid
    · exact Except.error.inj refused ▸ .format format
    · exact Except.error.inj refused ▸ .digest (not_not.mp format) digest
    · exact Except.error.inj refused ▸
        .uuid (not_not.mp format) (not_not.mp digest) (by simpa using uuid)
  · intro wrong
    cases wrong with
    | format format => rw [if_pos format]
    | digest format digest => rw [if_neg (not_not.mpr format), if_pos digest]
    | uuid format digest unreadable =>
      rw [if_neg (not_not.mpr format), if_neg (not_not.mpr digest), unreadable]
      rfl

/-- A key comes with a signature of the body. -/
def IsSigned (readers : Readers) (headers : Headers) (body : Bytes) : Prop :=
  ∀ pubkey, headers.pubkey = some pubkey → readers.validKey pubkey = true ∧
    ∃ signature, headers.signature = some signature ∧ readers.verify pubkey signature body = true

theorem checkSignature_eq_ok_iff {key : Option Text} :
    checkSignature readers headers body = .ok key ↔
      IsSigned readers headers body ∧ key = headers.pubkey := by
  rw [checkSignature, IsSigned]
  cases headers.pubkey with
  | none =>
    constructor
    · intro same
      exact ⟨fun _ impossible => by contradiction, (Except.ok.inj same).symm⟩
    · rintro ⟨-, rfl⟩
      rfl
  | some pubkey =>
    cases headers.signature with
    | none =>
      refine iff_of_false (fun impossible => by contradiction) ?_
      rintro ⟨signed, -⟩
      obtain ⟨-, signature, impossible, -⟩ := signed pubkey rfl
      contradiction
    | some signature =>
      dsimp only
      split_ifs with invalid unverified
      · refine iff_of_false (fun impossible => by contradiction) fun signed => ?_
        simp [(signed.1 pubkey rfl).1] at invalid
      · refine iff_of_false (fun impossible => by contradiction) fun signed => ?_
        obtain ⟨-, signature', same, verified⟩ := signed.1 pubkey rfl
        rw [← Option.some.inj same] at verified
        simp [verified] at unverified
      · rw [Except.ok.injEq, eq_comm (a := some pubkey)]
        refine (and_iff_right ?_).symm
        rintro _ ⟨⟩
        exact ⟨by simpa using invalid, signature, rfl, by simpa using unverified⟩

/-- What is wrong with the signature of a request that comes with a key. -/
inductive BadSignature (readers : Readers) (headers : Headers) (body : Bytes) : ApiError → Prop
  | absent {pubkey : Text} (key : headers.pubkey = some pubkey) (absent : headers.signature = none) :
      BadSignature readers headers body (unauthorized "pubkey without signature".toList)
  | invalidKey {pubkey signature : Text} (key : headers.pubkey = some pubkey)
      (sent : headers.signature = some signature) (invalid : readers.validKey pubkey = false) :
      BadSignature readers headers body (bad "invalid pubkey".toList)
  | unverified {pubkey signature : Text} (key : headers.pubkey = some pubkey)
      (sent : headers.signature = some signature) (valid : readers.validKey pubkey = true)
      (unverified : readers.verify pubkey signature body = false) :
      BadSignature readers headers body (unauthorized "signature verification failed".toList)

theorem checkSignature_eq_error_iff {e : ApiError} :
    checkSignature readers headers body = .error e ↔ BadSignature readers headers body e := by
  constructor
  · intro refused
    rw [checkSignature] at refused
    cases key : headers.pubkey with
    | none =>
      rw [key] at refused
      contradiction
    | some pubkey =>
      cases sent : headers.signature with
      | none =>
        rw [key, sent] at refused
        exact Except.error.inj refused ▸ .absent key sent
      | some signature =>
        rw [key, sent] at refused
        dsimp only at refused
        split_ifs at refused with invalid unverified
        · exact Except.error.inj refused ▸ .invalidKey key sent (by simpa using invalid)
        · exact Except.error.inj refused ▸
            .unverified key sent (by simpa using invalid) (by simpa using unverified)
  · intro wrong
    rw [checkSignature]
    cases wrong with
    | absent key absent => rw [key, absent]
    | invalidKey key sent invalid =>
      rw [key, sent]
      exact if_pos (by simp [invalid])
    | unverified key sent valid unverified =>
      rw [key, sent]
      simp [valid, unverified]

/-- The first thing that is wrong with a request. -/
inductive FirstWrong (readers : Readers) (headers : Headers) (body : Bytes) : ApiError → Prop
  | signature {e : ApiError} (wrong : BadSignature readers headers body e) :
      FirstWrong readers headers body e
  | form {e : ApiError} (signed : IsSigned readers headers body) (wrong : BadForm readers headers body e) :
      FirstWrong readers headers body e
  | metadata {text why : Text} {data : Bytes} (signed : IsSigned readers headers body)
      (form : IsForm readers headers body text data) (unreadable : readers.json text = .error why) :
      FirstWrong readers headers body (bad ("invalid metadata: ".toList ++ why))
  | report {text : Text} {data : Bytes} {report : ReportMetadata} {e : ApiError}
      (signed : IsSigned readers headers body) (form : IsForm readers headers body text data)
      (read : readers.json text = .ok report) (wrong : BadReport readers report data e) :
      FirstWrong readers headers body e

/-- What is asked of a request: a signature of its key, a form that carries a payload, and metadata of
this payload in the format of the protocol. -/
structure WellFormed (readers : Readers) (headers : Headers) (body : Bytes) : Prop where
  signed : IsSigned readers headers body
  report : ∃ text data report, IsForm readers headers body text data ∧
    readers.json text = .ok report ∧ report.format = formatVersion ∧
    hexEncode (readers.sha256 data) = readers.toLowercase report.payloadSha256 ∧
    readers.parseUuid report.uuid = true

theorem wellFormed_iff :
    WellFormed readers headers body ↔ checkSignature readers headers body = .ok headers.pubkey ∧
      ∃ report data, parseMultipart readers headers body = .ok (report, data) ∧
        checkReport readers report data = .ok () := by
  constructor
  · rintro ⟨signed, text, data, report, form, read, checked⟩
    exact ⟨checkSignature_eq_ok_iff.mpr ⟨signed, rfl⟩, report, data,
      parseMultipart_eq_ok_iff.mpr ⟨text, form, read⟩, checkReport_eq_ok_iff.mpr checked⟩
  · rintro ⟨signed, report, data, parsed, checked⟩
    obtain ⟨text, form, read⟩ := parseMultipart_eq_ok_iff.mp parsed
    exact ⟨(checkSignature_eq_ok_iff.mp signed).1, text, data, report, form, read,
      checkReport_eq_ok_iff.mp checked⟩

theorem afterAuthentication_of_bad_parse {e : ApiError}
    (parsed : parseMultipart readers headers body = .error e) (deviceId : Option Text) :
    afterAuthentication readers headers body deviceId = .failed e := by
  rw [afterAuthentication, parsed]

theorem afterAuthentication_of_parsed (parsed : parseMultipart readers headers body = .ok (report, data))
    (deviceId : Option Text) :
    afterAuthentication readers headers body deviceId =
      match checkReport readers report data with
      | .error e => .failed e
      | .ok () => .running (.lookup report data deviceId) := by
  cases checked : checkReport readers report data <;> simp [afterAuthentication, parsed, checked]

/-- Whose the request is does not matter for its checks. -/
theorem failed_afterAuthentication {deviceId : Option Text} {e : ApiError}
    (failed : afterAuthentication readers headers body deviceId = .failed e) (other : Option Text) :
    afterAuthentication readers headers body other = .failed e := by
  cases parsed : parseMultipart readers headers body with
  | error e' =>
    rw [afterAuthentication_of_bad_parse parsed] at failed ⊢
    exact failed
  | ok parts =>
    rw [afterAuthentication_of_parsed parsed] at failed ⊢
    cases checked : checkReport readers parts.1 parts.2 with
    | error e' =>
      rw [checked] at failed
      exact failed
    | ok =>
      rw [checked] at failed
      contradiction

/-- The checks fail with what is wrong first. -/
theorem firstWrong_iff {e : ApiError} :
    FirstWrong readers headers body e ↔ checkSignature readers headers body = .error e ∨
      checkSignature readers headers body = .ok headers.pubkey ∧
        ∀ deviceId, afterAuthentication readers headers body deviceId = .failed e := by
  constructor
  · intro wrong
    cases wrong with
    | signature wrong => exact .inl (checkSignature_eq_error_iff.mpr wrong)
    | form signed wrong =>
      exact .inr ⟨checkSignature_eq_ok_iff.mpr ⟨signed, rfl⟩, fun deviceId =>
        afterAuthentication_of_bad_parse (parseMultipart_eq_error_iff.mpr (.inl wrong)) deviceId⟩
    | metadata signed form unreadable =>
      exact .inr ⟨checkSignature_eq_ok_iff.mpr ⟨signed, rfl⟩, fun deviceId =>
        afterAuthentication_of_bad_parse
          (parseMultipart_eq_error_iff.mpr (.inr ⟨_, _, _, form, unreadable, rfl⟩)) deviceId⟩
    | report signed form read wrong =>
      refine .inr ⟨checkSignature_eq_ok_iff.mpr ⟨signed, rfl⟩, fun deviceId => ?_⟩
      rw [afterAuthentication_of_parsed (parseMultipart_eq_ok_iff.mpr ⟨_, form, read⟩),
        checkReport_eq_error_iff.mpr wrong]
  · rintro (refused | ⟨verified, failed⟩)
    · exact .signature (checkSignature_eq_error_iff.mp refused)
    · obtain ⟨signed, -⟩ := checkSignature_eq_ok_iff.mp verified
      have failed := failed none
      cases parsed : parseMultipart readers headers body with
      | error e' =>
        rw [afterAuthentication_of_bad_parse parsed, Progress.failed.injEq] at failed
        subst failed
        rcases parseMultipart_eq_error_iff.mp parsed with wrong | ⟨text, data, why, form, unread, rfl⟩
        · exact .form signed wrong
        · exact .metadata signed form unread
      | ok parts =>
        obtain ⟨report, data⟩ := parts
        obtain ⟨text, form, read⟩ := parseMultipart_eq_ok_iff.mp parsed
        rw [afterAuthentication_of_parsed parsed] at failed
        cases checked : checkReport readers report data with
        | error e' =>
          rw [checked] at failed
          obtain rfl := Progress.failed.inj failed
          exact .report signed form read (checkReport_eq_error_iff.mp checked)
        | ok =>
          rw [checked] at failed
          contradiction

/-- A request that passes the checks goes on. -/
theorem wellFormed_iff_running :
    WellFormed readers headers body ↔ checkSignature readers headers body = .ok headers.pubkey ∧
      ∀ deviceId, ∃ next, afterAuthentication readers headers body deviceId = .running next := by
  rw [wellFormed_iff]
  refine and_congr_right fun _ => ?_
  constructor
  · rintro ⟨report, data, parsed, checked⟩ deviceId
    exact ⟨_, by rw [afterAuthentication_of_parsed parsed, checked]⟩
  · intro passed
    obtain ⟨next, running⟩ := passed none
    obtain ⟨report, data, parsed, checked, -⟩ := afterAuthentication_eq_running running
    exact ⟨report, data, parsed, checked⟩

theorem wellFormed_iff_not_firstWrong :
    WellFormed readers headers body ↔ ∀ e, ¬ FirstWrong readers headers body e := by
  constructor
  · intro wellFormed e wrong
    obtain ⟨verified, passed⟩ := wellFormed_iff_running.mp wellFormed
    rcases firstWrong_iff.mp wrong with refused | ⟨-, failed⟩
    · rw [verified] at refused
      contradiction
    · obtain ⟨next, running⟩ := passed none
      rw [failed none] at running
      contradiction
  · intro fine
    cases verified : checkSignature readers headers body with
    | error e => exact absurd (firstWrong_iff.mpr (.inl verified)) (fine e)
    | ok key =>
      rw [(checkSignature_eq_ok_iff.mp verified).2] at verified
      refine wellFormed_iff_running.mpr ⟨verified, fun deviceId => ?_⟩
      cases passed : afterAuthentication readers headers body deviceId with
      | running next => exact ⟨next, rfl⟩
      | created id => exact absurd passed (afterAuthentication_ne_created _ _ _ _ id)
      | failed e =>
        exact absurd (firstWrong_iff.mpr (.inr ⟨verified, failed_afterAuthentication passed⟩)) (fine e)

/-- Nothing else is wrong first, and it is the client that is told. -/
theorem FirstWrong.unique {e e' : ApiError} (first : FirstWrong readers headers body e)
    (second : FirstWrong readers headers body e') : e' = e ∧ (e.status = 400 ∨ e.status = 401) := by
  rcases firstWrong_iff.mp first with refused | ⟨verified, failed⟩ <;>
    rcases firstWrong_iff.mp second with refused' | ⟨verified', failed'⟩
  · rw [refused, Except.error.injEq] at refused'
    exact ⟨refused'.symm, status_of_checkSignature refused⟩
  · rw [refused] at verified'
    contradiction
  · rw [verified] at refused'
    contradiction
  · have same := (failed none).symm.trans (failed' none)
    exact ⟨(Progress.failed.inj same).symm, .inl (status_of_afterAuthentication (failed none))⟩

/-! ## A request by itself -/

/-- Nothing fails, and the new ids are new. -/
structure Smooth (db : Database) (draws : ℕ → Draw) : Prop where
  success : ∀ n, (draws n).success = true
  written : ∀ n, (draws n).written = .whole
  device : db.devices.find? (draws 4).newId = none
  report : db.reports.find? (draws 3).newId = none
  job : db.jobs.find? (draws 0).newId = none

variable {db : Database} {raw : Files} {draws : ℕ → Draw}

theorem upsertDevice_isSome {id : Text} (pubkey : Text) (ts : ℤ) (free : db.devices.find? id = none) :
    (db.upsertDevice id pubkey ts).isSome := by
  rw [Database.upsertDevice]
  cases db.devices.rows.find? fun row => row.pubkey = pubkey with
  | some known => rfl
  | none =>
    have inserted : (db.devices.insert ⟨id, pubkey, ts, ts⟩).isSome := Table.isSome_insert free
    simpa using inserted

theorem device_of_upsertDevice {db' : Database} {id pubkey deviceId : Text} {ts : ℤ}
    (upserted : db.upsertDevice id pubkey ts = some (db', deviceId)) :
    (db'.devices.find? deviceId).isSome := by
  have known := (Database.deviceOf_upsertDevice upserted).1
  rw [Database.deviceOf, Option.map_eq_some_iff] at known
  obtain ⟨row, found, rfl⟩ := known
  rw [Table.find?_eq_some_iff.mpr ⟨List.mem_of_find?_eq_some found, rfl⟩]
  rfl

/-- The statement or the file write of a step does not go through. -/
def Fails (readers : Readers) (draw : Draw) (db : Database) : Upload → Prop
  | .authenticate headers _ => ∃ pubkey, headers.pubkey = some pubkey ∧
      (draw.success = false ∨ db.upsertDevice draw.newId pubkey draw.now = none)
  | .lookup _ _ _ => draw.success = false
  | .write _ _ _ _ => draw.written ≠ .whole
  | .insertReport metadata deviceId reportId => draw.success = false ∨
      db.insertReport (reportRow readers metadata reportId deviceId draw.now) = none
  | .insertJob reportId => draw.success = false ∨ db.insertJob draw.newId reportId = none

/-- A statement that yields nothing has failed. -/
theorem fails_of_ite {α : Type} {draw : Draw} {result : Option α}
    (nothing : (if draw.success then result else none) = none) :
    draw.success = false ∨ result = none := by
  split_ifs at nothing with success
  · exact .inr nothing
  · exact .inl (by simpa using success)

/-- After the checks a step fails only when its statement does, and with an internal error. -/
theorem fails_of_postReport {draw : Draw} {pc : Upload}
    (later : ∀ headers body, pc ≠ .authenticate headers body) {e : ApiError}
    (failed : (postReport readers draw db raw pc).2.2 = .failed e) :
    e = internalError ∧ Fails readers draw db pc := by
  cases pc with
  | authenticate headers body => exact absurd rfl (later headers body)
  | lookup metadata payload deviceId =>
    rw [postReport] at failed
    split_ifs at failed with success
    · cases placed : place db metadata.uuid deviceId draw.newId <;> simp [placed] at failed
    · exact ⟨(Progress.failed.inj failed).symm, Bool.eq_false_iff.mpr success⟩
  | write metadata payload deviceId reportId =>
    rw [postReport] at failed
    cases written : draw.written with
    | whole => simp [written, Files.write] at failed
    | cut | unopened =>
      rw [written] at failed
      exact ⟨(Progress.failed.inj failed).symm, by simp [Fails, written]⟩
  | insertReport metadata deviceId reportId =>
    rw [postReport] at failed
    split at failed
    · next nothing => exact ⟨(Progress.failed.inj failed).symm, fails_of_ite nothing⟩
    · contradiction
  | insertJob reportId =>
    rw [postReport] at failed
    split at failed
    · next nothing => exact ⟨(Progress.failed.inj failed).symm, fails_of_ite nothing⟩
    · contradiction

/-- From the lookup on: file, report and job. -/
theorem created_of_smooth {deviceId : Option Text}
    (device : ∀ id, deviceId = some id → (db.devices.find? id).isSome)
    (success : ∀ n, (draws n).success = true) (written : ∀ n, (draws n).written = .whole)
    (freeReport : db.reports.find? (draws 3).newId = none)
    (freeJob : db.jobs.find? (draws 0).newId = none) :
    ∃ id, (serve readers draws 4 db raw (.lookup report data deviceId)).2.2 = .created id := by
  rw [serve, postReport, if_pos (success 3)]
  cases placed : place db report.uuid deviceId (draws 3).newId with
  | known => exact ⟨report.uuid, rfl⟩
  | fresh id =>
    have free : db.reports.find? id = none := by
      rw [place] at placed
      cases found : db.reports.find? report.uuid with
      | none =>
        rw [found] at placed
        exact Placement.fresh.inj placed ▸ found
      | some row =>
        rw [found] at placed
        dsimp only at placed
        split_ifs at placed
        exact Placement.fresh.inj placed ▸ freeReport
    have freeRow : db.reports.find? (reportRow readers report id deviceId (draws 1).now).id = none := free
    obtain ⟨reports, added⟩ := Option.isSome_iff_exists.mp (Table.isSome_insert freeRow)
    have insertReport : db.insertReport (reportRow readers report id deviceId (draws 1).now) =
        some { db with reports } := by
      rw [Database.insertReport, if_pos, added, Option.map_some]
      cases deviceId with
      | none => rfl
      | some device' => exact device device' rfl
    have freeJobRow : db.jobs.find? (JobRow.id { id := (draws 0).newId, reportId := id }) = none :=
      freeJob
    obtain ⟨jobs, addedJob⟩ := Option.isSome_iff_exists.mp (Table.isSome_insert freeJobRow)
    have insertJob : Database.insertJob { db with reports } (draws 0).newId id =
        some { db with reports, jobs } := by
      have there : (reports.find? id).isSome := by
        rw [Table.find?_insert added, if_pos (by rfl)]
        rfl
      rw [Database.insertJob, if_pos there, addedJob, Option.map_some]
    refine ⟨id, ?_⟩
    dsimp only
    rw [serve, postReport, written 2]
    dsimp only [Files.write]
    rw [serve, postReport, if_pos (success 1), insertReport]
    dsimp only
    rw [serve, postReport, if_pos (success 0), insertJob]

/-- Such a request is answered with a report when nothing fails. -/
theorem answer_of_wellFormed (wellFormed : WellFormed readers headers body) (smooth : Smooth db draws) :
    ∃ id, (answer readers draws db raw headers body).2.2 = .created id := by
  obtain ⟨signed, report, data, parsed, checked⟩ := wellFormed_iff.mp wellFormed
  have passed (deviceId : Option Text) :
      afterAuthentication readers headers body deviceId = .running (.lookup report data deviceId) := by
    rw [afterAuthentication, parsed]
    dsimp only
    rw [checked]
  cases key : headers.pubkey with
  | none =>
    rw [answer_of_checked (checked_of_anonymous (key ▸ signed)), passed]
    exact created_of_smooth (by simp) smooth.success smooth.written smooth.report smooth.job
  | some pubkey =>
    obtain ⟨⟨db', deviceId⟩, upserted⟩ := Option.isSome_iff_exists.mp
      (upsertDevice_isSome pubkey (draws 4).now smooth.device)
    have first : postReport readers (draws 4) db raw (.authenticate headers body) =
        (db', raw, afterAuthentication readers headers body (some deviceId)) := by
      rw [postReport, signed, key]
      dsimp only
      rw [if_pos (smooth.success 4), upserted]
    obtain ⟨reports, jobs⟩ := Database.upsertDevice_frame upserted
    rw [answer_of_checked first, passed]
    refine created_of_smooth ?_ smooth.success smooth.written (reports ▸ smooth.report)
      (jobs ▸ smooth.job)
    rintro _ ⟨⟩
    exact device_of_upsertDevice upserted

end UcrashReport.Api

namespace UcrashReport.History

open Rust Rust.Text Store Api Decode Service

/-! ## Runs -/

/-- What a step of a call answers has to do with what its request says: a report only when nothing is
wrong, a refusal for what is wrong first, and an internal error only when the step itself fails. -/
structure Judged (readers : Readers) (draw : Api.Draw) (db : Database) (request : Request) (pc : Upload)
    (progress : Progress) : Prop where
  created : ∀ id, progress = .created id → WellFormed readers request.headers request.body
  refused : ∀ e, progress = .failed e → FirstWrong readers request.headers request.body e ∨
    e = internalError ∧ Fails readers draw db pc
  ended : ∀ e, FirstWrong readers request.headers request.body e →
    progress = .failed e ∨ progress = .failed internalError ∧ Fails readers draw db pc

theorem wellFormed_of_carries {readers : Readers} {db : Database} {request : Request}
    {metadata : Types.ReportMetadata} {payload : Bytes} {deviceId : Option Text}
    (carries : Carries readers request metadata payload) (owner : Owner readers db request deviceId) :
    WellFormed readers request.headers request.body := by
  refine wellFormed_iff.mpr ⟨?_, metadata, payload, carries.report, carries.checked⟩
  rw [Owner] at owner
  cases key : request.key readers with
  | error e =>
    rw [key] at owner
    contradiction
  | ok pubkey =>
    rw [Request.key] at key
    rw [key, (checkSignature_eq_ok_iff.mp key).2]

/-- A call goes beyond its checks only with a well-formed request. -/
theorem wellFormed_of_belongs {setup : Setup} {h : History} (remembered : Remembered setup h)
    {request : Request} {pc : Upload}
    (belongs : Belongs setup.readers h.service.db h.stored request pc)
    (later : ∀ headers body, pc ≠ .authenticate headers body) :
    WellFormed setup.readers request.headers request.body := by
  cases pc with
  | authenticate headers body => exact absurd rfl (later headers body)
  | lookup | write => exact wellFormed_of_carries belongs.1 belongs.2
  | insertReport =>
    obtain ⟨payload, carries⟩ := belongs.1
    exact wellFormed_of_carries carries belongs.2
  | insertJob id =>
    obtain ⟨metadata, payload, deviceId, receivedAt, report, carries, owner, -⟩ :=
      remembered.stored id request belongs
    exact wellFormed_of_carries carries owner

/-- The parsing and the checks go through exactly for well-formed requests. -/
theorem judged_afterAuthentication {readers : Readers} {draw : Api.Draw} {db : Database}
    {request : Request} {pc : Upload} {key : Option Text}
    (verified : checkSignature readers request.headers request.body = .ok key)
    (deviceId : Option Text) :
    Judged readers draw db request pc
      (afterAuthentication readers request.headers request.body deviceId) := by
  rw [(checkSignature_eq_ok_iff.mp verified).2] at verified
  refine ⟨fun id created => absurd created (afterAuthentication_ne_created _ _ _ _ id),
    fun e failed => ?_, fun e wrong => ?_⟩
  · exact .inl (firstWrong_iff.mpr (.inr ⟨verified, failed_afterAuthentication failed⟩))
  · rcases firstWrong_iff.mp wrong with refused | ⟨-, failed⟩
    · rw [verified] at refused
      contradiction
    · exact .inl (failed deviceId)

theorem judged_of_belongs {setup : Setup} {h : History} (remembered : Remembered setup h)
    {request : Request} {pc : Upload}
    (belongs : Belongs setup.readers h.service.db h.stored request pc) (draw : Api.Draw) :
    Judged setup.readers draw h.service.db request pc
      (postReport setup.readers draw h.service.db h.service.raw pc).2.2 := by
  cases pc with
  | authenticate headers body =>
    obtain rfl : request = ⟨headers, body⟩ := belongs
    rw [postReport]
    cases verified : checkSignature setup.readers headers body with
    | error e =>
      have wrong : FirstWrong setup.readers headers body e := firstWrong_iff.mpr (.inl verified)
      refine ⟨fun _ impossible => by contradiction, fun e' same => .inl ?_, fun e' wrong' => .inl ?_⟩
      · exact Progress.failed.inj same ▸ wrong
      · rw [(wrong.unique wrong').1]
    | ok key =>
      cases key with
      | none => exact judged_afterAuthentication verified none
      | some pubkey =>
        have sent := (checkSignature_eq_ok_iff.mp verified).2
        dsimp only
        split
        · next nothing =>
          have fails : Fails setup.readers draw h.service.db (.authenticate headers body) :=
            ⟨pubkey, sent.symm, fails_of_ite nothing⟩
          exact ⟨fun _ impossible => by contradiction,
            fun e same => .inr ⟨(Progress.failed.inj same).symm, fails⟩, fun _ _ => .inr ⟨rfl, fails⟩⟩
        · exact judged_afterAuthentication verified _
  | lookup | write | insertReport | insertJob =>
    have wellFormed := wellFormed_of_belongs remembered belongs (by simp)
    exact ⟨fun _ _ => wellFormed, fun e failed => .inr (fails_of_postReport (by simp) failed),
      fun e wrong => absurd wrong (wellFormed_iff_not_firstWrong.mp wellFormed e)⟩

/-- In every run: a step of a call answers with a report only for a well-formed request, refuses one
that is not for what is wrong with it first, and goes on only with a well-formed one; an internal error
comes from a step that has failed. Of a request that is not well-formed one thing is wrong first, and a
client is told so. Whenever nothing fails and nobody gets in the way, a well-formed request is answered
with a report. -/
theorem uploads_judged_of_run (setup : Setup) {actions : List Action} {h : History}
    (reached : Machine.run (step setup) {} actions = some h) :
    (∀ call pc, h.service.uploads call = some pc → ∃ request, h.requests call = some request ∧
      ∀ draw, Judged setup.readers draw h.service.db request pc
        (postReport setup.readers draw h.service.db h.service.raw pc).2.2) ∧
    (∀ headers body, (WellFormed setup.readers headers body ↔
        ∀ e, ¬ FirstWrong setup.readers headers body e) ∧
      ∀ e e', FirstWrong setup.readers headers body e → FirstWrong setup.readers headers body e' →
        e' = e ∧ (e.status = 400 ∨ e.status = 401)) ∧
    ∀ headers body draws, WellFormed setup.readers headers body → Smooth h.service.db draws →
      ∃ id, (answer setup.readers draws h.service.db h.service.raw headers body).2.2 = .created id := by
  have remembered := remembered_of_run reached
  refine ⟨fun call pc current => ?_, fun headers body => ⟨wellFormed_iff_not_firstWrong,
    fun e e' first second => first.unique second⟩,
    fun headers body draws wellFormed smooth => answer_of_wellFormed wellFormed smooth⟩
  obtain ⟨request, known, belongs⟩ := remembered.calls call pc current
  exact ⟨request, known, fun draw => judged_of_belongs remembered belongs draw⟩

/-! ## Concrete requests -/

def demoHeaders : Headers := ⟨some "key".toList, some "sig".toList, some "u2".toList⟩

/-- The ids of the device, the report and the job. -/
def demoDraws : ℕ → Api.Draw
  | 4 => { newId := "d2".toList }
  | 3 => { newId := "r2".toList }
  | 0 => { newId := "j2".toList }
  | _ => {}

theorem wellFormed_demoHeaders : WellFormed demoSetup.readers demoHeaders [1] :=
  wellFormed_iff.mpr ⟨rfl, _, _, rfl, rfl⟩

/-- A signed request without a content type. -/
def demoUntyped : Headers := ⟨some "key".toList, some "sig".toList, none⟩

/-- After an upload: a signed request without a form is refused for that, and with an internal error
when its device cannot be stored; another well-formed one is answered. -/
theorem demoUpload_judged :
    ∃ h, Machine.run (step demoSetup) {} (demoUpload 0 ++ [.request 1 demoUntyped []]) = some h ∧
      (∀ draw, Judged demoSetup.readers draw h.service.db ⟨demoUntyped, []⟩
        (.authenticate demoUntyped []) (postReport demoSetup.readers draw h.service.db h.service.raw
          (.authenticate demoUntyped [])).2.2) ∧
      (postReport demoSetup.readers {} h.service.db h.service.raw (.authenticate demoUntyped [])).2.2 =
        .failed (bad "missing content-type".toList) ∧
      (postReport demoSetup.readers { success := false } h.service.db h.service.raw
        (.authenticate demoUntyped [])).2.2 = .failed internalError ∧
      ∃ id, (answer demoSetup.readers demoDraws h.service.db h.service.raw demoHeaders [1]).2.2 =
        .created id := by
  have start : (Machine.run (step demoSetup) {} (demoUpload 0 ++ [.request 1 demoUntyped []])).any
      (fun h => h.service.uploads 1 = some (.authenticate demoUntyped []) &&
        h.requests 1 = some ⟨demoUntyped, []⟩ && h.service.db.devices.find? "d2".toList = none &&
          h.service.db.reports.find? "r2".toList = none &&
            h.service.db.jobs.find? "j2".toList = none &&
        (postReport demoSetup.readers {} h.service.db h.service.raw
          (.authenticate demoUntyped [])).2.2 = .failed (bad "missing content-type".toList) &&
        (postReport demoSetup.readers { success := false } h.service.db h.service.raw
          (.authenticate demoUntyped [])).2.2 = .failed internalError) = true := by decide +kernel
  obtain ⟨h, reached, holds⟩ := (Option.any_eq_true _ _).mp start
  simp only [Bool.and_eq_true, decide_eq_true_eq] at holds
  obtain ⟨⟨⟨⟨⟨⟨current, known⟩, device⟩, report⟩, job⟩, untyped⟩, unstored⟩ := holds
  obtain ⟨judged, -, accepted⟩ := uploads_judged_of_run demoSetup reached
  obtain ⟨request, known', judged⟩ := judged 1 _ current
  rw [known, Option.some.injEq] at known'
  subst known'
  have smooth : Smooth h.service.db demoDraws :=
    ⟨fun n => by unfold demoDraws; split <;> rfl, fun n => by unfold demoDraws; split <;> rfl,
      device, report, job⟩
  exact ⟨h, reached, judged, untyped, unstored,
    accepted demoHeaders [1] _ wellFormed_demoHeaders smooth⟩

end UcrashReport.History
