import UcrashReport.Soundness.RejectedUploads

/-! # Who an upload is attributed to

A stored report has the device whose key has signed the exact bytes of the request, or none. A
request that carries a signature header or a key header and is not validly signed is rejected, but
only if its key header can be read: without one the other header is not looked at, and the report is
stored like an anonymous one.
-/

namespace UcrashReport.Api

open Rust Rust.Text UcrashReport.Types Usign

/-- The blob has the tag and the key number of the key, and a signature of the message under it. -/
def Verifies (primitives : Primitives) (pubkey sigBlob : Text) (msg : Bytes) : Prop :=
  ∃ key signature, PublicKey.fromBase64 primitives pubkey = .ok key ∧ signature.length = 64 ∧
    primitives.decode (trim sigBlob) = some (pkalg ++ key.keynum ++ signature) ∧
    primitives.verifyStrict key.key msg signature = true

/-- The headers carry a key and a signature of the body under it. -/
def Signed (primitives : Primitives) (headers : Headers) (body : Bytes) (pubkey : Text) : Prop :=
  headers.pubkey = some pubkey ∧
    ∃ signature, headers.signature = some signature ∧ Verifies primitives pubkey signature body

section Checks

variable {primitives : Primitives} {readers : Readers} {headers : Headers} {body : Bytes}

theorem verify_withUsign {pubkey sigBlob : Text} :
    (readers.withUsign primitives).verify pubkey sigBlob body = true ↔
      Verifies primitives pubkey sigBlob body := by
  rw [Readers.withUsign, Verifies]
  dsimp only
  cases read : PublicKey.fromBase64 primitives pubkey with
  | error e => simp
  | ok key =>
    have verified : (key.verify primitives sigBlob body).toOption.isSome = true ↔
        key.verify primitives sigBlob body = .ok () := by
      cases key.verify primitives sigBlob body <;> simp [Except.toOption]
    rw [verified, PublicKey.verify_eq_ok_iff]
    simp

theorem signed_of_checkSignature {pubkey : Text}
    (checked : checkSignature (readers.withUsign primitives) headers body = .ok (some pubkey)) :
    Signed primitives headers body pubkey := by
  unfold checkSignature at checked
  split at checked
  · simp at checked
  · next key carried =>
    split at checked
    · contradiction
    · next signature signed =>
      split_ifs at checked with invalid unverified
      rw [Except.ok.injEq, Option.some.injEq] at checked
      subst checked
      exact ⟨carried, signature, signed, verify_withUsign.mp (by simpa using unverified)⟩

/-- A request is anonymous exactly when it has no key that can be read. -/
theorem checkSignature_eq_none_iff :
    checkSignature readers headers body = .ok none ↔ headers.pubkey = none := by
  unfold checkSignature
  cases headers.pubkey with
  | none => simp
  | some pubkey =>
    cases headers.signature with
    | none => simp
    | some signature =>
      dsimp only
      split_ifs <;> simp

end Checks

/-! ## What a call stores -/

/-- The report of the call is that of the device. -/
def OwnedBy (deviceId : Option Text) : Upload → Prop
  | .authenticate _ _ => False
  | .lookup _ _ owner | .write _ _ owner _ | .insertReport _ owner _ => owner = deviceId
  | .insertJob _ => True

section Calls

variable {readers : Readers} {draws : ℕ → Draw} {db : Database} {raw : Files} {deviceId : Option Text}

theorem rows_of_postReport {draw : Draw} {pc : Upload} {result : Database × Files × Progress}
    (owned : OwnedBy deviceId pc) (move : UploadMove readers draw db raw pc result) :
    (∀ row ∈ result.1.reports.rows, row ∈ db.reports.rows ∨ row.deviceId = deviceId) ∧
      result.1.devices = db.devices ∧
      ∀ next, result.2.2 = .running next → OwnedBy deviceId next := by
  cases move with
  | anonymous | authenticated => exact owned.elim
  | refused | known | cut | reportRefused | jobRefused =>
    exact ⟨fun _ member => .inl member, rfl, fun _ impossible => by contradiction⟩
  | placed | written =>
    exact ⟨fun _ member => .inl member, rfl, fun _ same => Progress.running.inj same ▸ owned⟩
  | @reportInserted metadata owner reportId db' success inserted =>
    obtain ⟨added, -⟩ := Database.insertReport_spec inserted
    obtain ⟨reports, rfl⟩ := Database.eq_of_insertReport inserted
    refine ⟨fun row member => ?_, rfl, fun _ same => Progress.running.inj same ▸ trivial⟩
    rcases (Store.Table.mem_rows_insert added row).mp member with before | rfl
    · exact .inl before
    · exact .inr owned
  | jobInserted inserted =>
    obtain ⟨jobs, rfl⟩ := Database.eq_of_insertJob inserted
    exact ⟨fun _ member => .inl member, rfl, fun _ impossible => by contradiction⟩

/-- Whatever a call stores is the device's, and it changes no device any more. -/
theorem rows_of_serve {n : ℕ} {pc : Upload} (owned : OwnedBy deviceId pc) :
    (∀ row ∈ (serve readers draws n db raw pc).1.reports.rows,
      row ∈ db.reports.rows ∨ row.deviceId = deviceId) ∧
      (serve readers draws n db raw pc).1.devices = db.devices := by
  induction n generalizing db raw pc with
  | zero => exact ⟨fun _ member => .inl member, rfl⟩
  | succ n ih =>
    obtain ⟨rows, devices, later⟩ := rows_of_postReport owned
      (postReport_moves readers (draws n) db raw pc)
    rw [serve]
    split
    · next db' raw' next result =>
      rw [result] at rows devices later
      obtain ⟨rows', devices'⟩ := @ih db' raw' next (later next rfl)
      refine ⟨fun row member => ?_, devices'.trans devices⟩
      rcases rows' row member with before | owner
      · exact rows row before
      · exact .inr owner
    · exact ⟨rows, devices⟩

end Calls

/-! ## Attribution -/

/-- What the answer to a request has to do with its headers. -/
structure Attributed (primitives : Primitives) (db : Database) (headers : RawHeaders) (body : Bytes)
    (result : Database × Files × Progress) : Prop where
  owner : ∀ row ∈ result.1.reports.rows, row ∉ db.reports.rows → ∀ deviceId,
    row.deviceId = some deviceId →
      ∃ pubkey, Signed primitives headers.read body pubkey ∧
        result.1.deviceOf pubkey = some deviceId
  rejected : headers.pubkey.isSome ∨ headers.signature.isSome →
    (¬ ∃ pubkey, Signed primitives headers.read body pubkey) →
      (∃ e, result.2.2 = .failed e ∧ (e.status = 400 ∨ e.status = 401)) ∧
        result.1.reports = db.reports

/-- The key header can be read, or there is neither it nor a signature. -/
def RawHeaders.Readable (headers : RawHeaders) : Prop :=
  (headers.pubkey.bind headerStr).isSome ∨ headers.pubkey = none ∧ headers.signature = none

instance (headers : RawHeaders) : Decidable headers.Readable :=
  inferInstanceAs (Decidable (_ ∨ _))

/-- The body carries a report that passes its checks. -/
def Sound (readers : Readers) (headers : Headers) (body : Bytes) : Prop :=
  ∃ metadata payload, parseMultipart readers headers body = .ok (metadata, payload) ∧
    checkReport readers metadata payload = .ok ()

theorem afterAuthentication_of_sound {readers : Readers} {headers : Headers} {body : Bytes}
    (sound : Sound readers headers body) (deviceId : Option Text) :
    ∃ metadata payload,
      afterAuthentication readers headers body deviceId = .running (.lookup metadata payload deviceId) := by
  obtain ⟨metadata, payload, parsed, checked⟩ := sound
  refine ⟨metadata, payload, ?_⟩
  rw [afterAuthentication, parsed]
  dsimp only
  rw [checked]

theorem afterAuthentication_of_not_sound {readers : Readers} {headers : Headers} {body : Bytes}
    (unsound : ¬ Sound readers headers body) (deviceId : Option Text) :
    ∃ e, afterAuthentication readers headers body deviceId = .failed e ∧ e.status = 400 := by
  cases passed : afterAuthentication readers headers body deviceId with
  | failed e => exact ⟨e, rfl, status_of_afterAuthentication passed⟩
  | created id => exact absurd passed (afterAuthentication_ne_created _ _ _ _ id)
  | running next =>
    obtain ⟨metadata, payload, parsed, checked, -⟩ := afterAuthentication_eq_running passed
    exact absurd ⟨metadata, payload, parsed, checked⟩ unsound

variable {primitives : Primitives} {readers : Readers} {draws : ℕ → Draw} {db : Database} {raw : Files}
  {headers : RawHeaders} {body : Bytes}

theorem rows_of_answer {db' : Database} {deviceId : Option Text}
    (checked : postReport readers (draws 4) db raw (.authenticate headers.read body) =
      (db', raw, afterAuthentication readers headers.read body deviceId)) :
    (∀ row ∈ (answer readers draws db raw headers.read body).1.reports.rows,
      row ∈ db'.reports.rows ∨ row.deviceId = deviceId) ∧
      (answer readers draws db raw headers.read body).1.devices = db'.devices := by
  rw [answer_of_checked checked]
  cases passed : afterAuthentication readers headers.read body deviceId with
  | running next =>
    obtain ⟨metadata, payload, -, -, rfl⟩ := afterAuthentication_eq_running passed
    exact rows_of_serve rfl
  | created | failed => exact ⟨fun _ member => .inl member, rfl⟩

/-- A report is attributed to a device only if the device has signed the request. -/
theorem owner_of_answer :
    ∀ row ∈ (answer (readers.withUsign primitives) draws db raw headers.read body).1.reports.rows,
      row ∉ db.reports.rows → ∀ deviceId, row.deviceId = some deviceId →
        ∃ pubkey, Signed primitives headers.read body pubkey ∧
          (answer (readers.withUsign primitives) draws db raw headers.read body).1.deviceOf pubkey =
            some deviceId := by
  intro row member new deviceId owner
  cases authentication (readers.withUsign primitives) draws db raw headers.read body with
  | finished e isOver =>
    rw [isOver] at member
    exact absurd member new
  | anonymous unsigned checked =>
    rcases (rows_of_answer checked).1 row member with before | nobody
    · exact absurd before new
    · rw [owner] at nobody
      contradiction
  | device pubkey device db' signed upserted checked =>
    obtain ⟨rows, devices⟩ := rows_of_answer checked
    refine ⟨pubkey, signed_of_checkSignature signed, ?_⟩
    rcases rows row member with before | same
    · rw [(Database.upsertDevice_frame upserted).1] at before
      exact absurd before new
    · rw [owner, Option.some.injEq] at same
      rw [Database.deviceOf, devices, same]
      exact (Database.deviceOf_upsertDevice upserted).1

/-- Without a key that can be read a sound report is stored, or its call fails with an internal
error. -/
theorem answer_of_unread (unread : headers.read.pubkey = none)
    (sound : Sound readers headers.read body) {e : ApiError}
    (failed : (answer readers draws db raw headers.read body).2.2 = .failed e) : e = internalError := by
  obtain ⟨metadata, payload, passed⟩ := afterAuthentication_of_sound sound none
  rw [answer_of_checked (checked_of_anonymous (checkSignature_eq_none_iff.mpr unread)), passed]
    at failed
  exact error_of_serve (by simp) failed

/-- A report is attributed to its signer only, and an unsigned request that has one of the two headers
is rejected, exactly when the key header can be read, or neither of them is there, or the body is
rejected anyway. -/
theorem attributed_iff :
    Attributed primitives db headers body
        (answer (readers.withUsign primitives) draws db raw headers.read body) ↔
      headers.Readable ∨ ¬ Sound (readers.withUsign primitives) headers.read body := by
  constructor
  · intro attributed
    by_contra neither
    push Not at neither
    obtain ⟨unreadable, sound⟩ := neither
    rw [RawHeaders.Readable, not_or] at unreadable
    have unread : headers.read.pubkey = none := Option.not_isSome_iff_eq_none.mp unreadable.1
    have carried : headers.pubkey.isSome ∨ headers.signature.isSome := by
      by_contra absent
      rw [not_or, Option.not_isSome_iff_eq_none, Option.not_isSome_iff_eq_none] at absent
      exact unreadable.2 absent
    obtain ⟨⟨e, failed, status⟩, -⟩ := attributed.rejected carried (by
      rintro ⟨pubkey, same, -⟩
      rw [unread] at same
      contradiction)
    rw [answer_of_unread unread sound failed] at status
    exact absurd status (by decide)
  · intro condition
    refine ⟨owner_of_answer, fun carried unsigned => ?_⟩
    cases signed : checkSignature (readers.withUsign primitives) headers.read body with
    | error e =>
      rw [answer_of_refused signed]
      exact ⟨⟨e, rfl, status_of_checkSignature signed⟩, rfl⟩
    | ok key =>
      cases key with
      | some pubkey => exact absurd ⟨pubkey, signed_of_checkSignature signed⟩ unsigned
      | none =>
        have unread := checkSignature_eq_none_iff.mp signed
        have unsound : ¬ Sound (readers.withUsign primitives) headers.read body := by
          refine condition.resolve_left ?_
          rintro (readable | ⟨noKey, noSignature⟩)
          · exact Option.isSome_iff_ne_none.mp readable unread
          · simp [noKey, noSignature] at carried
        obtain ⟨e, failed, status⟩ := afterAuthentication_of_not_sound unsound none
        rw [answer_of_checked (checked_of_anonymous signed), failed]
        exact ⟨⟨e, rfl, .inl status⟩, rfl⟩

/-! ## Concrete requests -/

def demoPrimitives : Primitives where
  decode := fun _ => none
  isKey := fun _ => false
  verifyStrict := fun _ _ _ => false

def demoReaders : Readers := Service.demoSetup.readers.withUsign demoPrimitives

/-- A signature without a key, and a key that is not text: the reports are stored without a device,
though nothing was verified. -/
theorem unverified_upload_stored :
    (∀ headers ∈ [(⟨none, some [65], some [117, 49]⟩ : RawHeaders),
        ⟨some [65, 255], some [65], some [117, 49]⟩],
      (answer demoReaders (fun _ => {}) {} (fun _ => none) headers.read [1]).2.2 =
          .created "u1".toList ∧
        (answer demoReaders (fun _ => {}) {} (fun _ => none) headers.read [1]).1.reports.rows.map
          (·.deviceId) = [none]) ∧
    ¬ Attributed demoPrimitives {} ⟨none, some [65], some [117, 49]⟩ [1]
      (answer demoReaders (fun _ => {}) {} (fun _ => none)
        (RawHeaders.read ⟨none, some [65], some [117, 49]⟩) [1]) := by
  refine ⟨by decide +kernel, fun attributed => ?_⟩
  obtain ⟨⟨e, failed, -⟩, -⟩ := attributed.rejected (.inr rfl) (by
    rintro ⟨pubkey, impossible, -⟩
    contradiction)
  have created : (answer demoReaders (fun _ => {}) {} (fun _ => none)
      (RawHeaders.read ⟨none, some [65], some [117, 49]⟩) [1]).2.2 = .created "u1".toList := by
    decide +kernel
  rw [created] at failed
  contradiction

end UcrashReport.Api
