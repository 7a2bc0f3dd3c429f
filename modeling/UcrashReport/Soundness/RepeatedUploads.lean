import UcrashReport.Soundness.OwnPayloads

/-! # Repeated uploads

A device that is not told that its report has arrived sends the same signed body again. The second
upload is recognized by the uuid alone: it finds the report of the first one when that is stored
under the uuid. When the uuid belonged to somebody else, the first upload was given another id, and
the second one is given one more.
-/

namespace UcrashReport.History

open Rust Rust.Text Store Api Decode Service

/-- The requests bring the same body, signed by the same key. -/
def SameUpload (readers : Readers) (request request' : Request) : Prop :=
  request.body = request'.body ∧
    ∃ pubkey, request.key readers = .ok (some pubkey) ∧ request'.key readers = .ok (some pubkey)

namespace SameUpload

variable {readers : Readers} {first second third : Request}

theorem symm (same : SameUpload readers first second) : SameUpload readers second first := by
  obtain ⟨body, pubkey, signed, signed'⟩ := same
  exact ⟨body.symm, pubkey, signed', signed⟩

theorem trans (same : SameUpload readers first second) (same' : SameUpload readers second third) :
    SameUpload readers first third := by
  obtain ⟨body, pubkey, signed, signed'⟩ := same
  obtain ⟨body', pubkey', signed'', signed'''⟩ := same'
  rw [signed', Except.ok.injEq, Option.some.injEq] at signed''
  exact ⟨body.trans body', pubkey, signed, signed'' ▸ signed'''⟩

end SameUpload

/-! ## The place of an upload -/

/-- The id under which a call is going to insert its report. -/
def placeOf : Upload → Option Text
  | .write _ _ _ id | .insertReport _ _ id => some id
  | .authenticate _ _ | .lookup _ _ _ | .insertJob _ => none

/-- An upload of the same body has this id: it is stored or answered, or it is in progress and the id
is still free. -/
inductive Placed (readers : Readers) (h : History) (request : Request) (id : Text) : Prop
  | stored {other : Request} (same : SameUpload readers request other)
      (stored : (id, other) ∈ h.stored)
  | answered {other : Request} (same : SameUpload readers request other)
      (answered : (id, other) ∈ h.answered)
  | inserting {other : Request} {call : ℕ} {pc : Upload} (same : SameUpload readers request other)
      (known : h.requests call = some other) (current : h.service.uploads call = some pc)
      (place : placeOf pc = some id) (free : h.service.db.reports.find? id = none)

theorem Placed.of_same {readers : Readers} {h : History} {request request' : Request} {id : Text}
    (placed : Placed readers h request id) (same : SameUpload readers request request') :
    Placed readers h request' id := by
  cases placed with
  | stored same' stored => exact .stored (same.symm.trans same') stored
  | answered same' answered => exact .answered (same.symm.trans same') answered
  | inserting same' known current place free =>
    exact .inserting (same.symm.trans same') known current place free

/-- An upload looks its uuid up: another upload of the same body that has an id has this uuid, and no
report of anybody else does. -/
def Repeatable (setup : Setup) (h : History) : Action → Prop
  | .upload call _ =>
    ∀ metadata payload deviceId request,
      h.service.uploads call = some (.lookup metadata payload deviceId) →
      h.requests call = some request → ∀ id, Placed setup.readers h request id →
        id = metadata.uuid ∧
          ∀ row, h.service.db.reports.find? metadata.uuid = some row → row.deviceId = deviceId
  | _ => True

/-- All uploads of the same body have the same id. -/
def OnePlace (readers : Readers) (h : History) : Prop :=
  ∀ request id id', Placed readers h request id → Placed readers h request id' → id = id'

/-! ## Steps -/

/-- The id that a lookup leads to. -/
def Leads (db : Database) (metadata : Types.ReportMetadata) (deviceId : Option Text)
    (newId id : Text) : Prop :=
  place db metadata.uuid deviceId newId = .known ∧ id = metadata.uuid ∨
    place db metadata.uuid deviceId newId = .fresh id

theorem Leads.unique {db : Database} {metadata : Types.ReportMetadata} {deviceId : Option Text}
    {newId id id' : Text} (leads : Leads db metadata deviceId newId id)
    (leads' : Leads db metadata deviceId newId id') : id = id' := by
  rcases leads with ⟨known, rfl⟩ | fresh <;> rcases leads' with ⟨known', rfl⟩ | fresh'
  · rfl
  · simp [known] at fresh'
  · simp [known'] at fresh
  · simpa [fresh] using fresh'

/-- A lookup leads to the uuid unless it belongs to somebody else. -/
theorem Leads.eq_uuid {db : Database} {metadata : Types.ReportMetadata} {deviceId : Option Text}
    {newId id : Text} (leads : Leads db metadata deviceId newId id) (signed : deviceId.isSome)
    (own : ∀ row, db.reports.find? metadata.uuid = some row → row.deviceId = deviceId) :
    id = metadata.uuid := by
  rcases leads with ⟨-, rfl⟩ | fresh
  · rfl
  · rw [place] at fresh
    cases found : db.reports.find? metadata.uuid with
    | none => simpa [found, eq_comm] using fresh
    | some row => simp [found, own row found, signed] at fresh

theorem Owner.isSome {readers : Readers} {db : Database} {request : Request} {deviceId : Option Text}
    {pubkey : Text} (owner : Owner readers db request deviceId)
    (signed : request.key readers = .ok (some pubkey)) :
    deviceId.isSome ∧ deviceId = db.deviceOf pubkey := by
  rw [Owner, signed] at owner
  obtain ⟨id, rfl, known⟩ := owner
  exact ⟨rfl, known.symm⟩

/-- An answer was given before, or it is given now, after the lookup or after the last statement. -/
theorem answered_before_step {setup : Setup} {h h' : History} {action : Action}
    (stepped : step setup h action = some h') {id : Text} {request : Request}
    (answered : (id, request) ∈ h'.answered) :
    (id, request) ∈ h.answered ∨ ∃ call draw, action = .upload call draw ∧
      h.requests call = some request ∧
      (h.service.uploads call = some (.insertJob id) ∨
        ∃ metadata payload deviceId, h.service.uploads call = some (.lookup metadata payload deviceId) ∧
          place h.service.db metadata.uuid deviceId draw.newId = .known ∧ id = metadata.uuid) := by
  cases move_of_step stepped with
  | requested | forgotten | other => exact .inl answered
  | @uploaded call draw pc request' result current known move =>
    cases move with
    | anonymous | authenticated =>
      left
      dsimp only [note] at answered
      rw [noteAnswered] at answered
      · exact answered
      · exact fun id' => afterAuthentication_ne_created _ _ _ _ id'
    | @known metadata payload deviceId success found =>
      rcases List.mem_cons.mp answered with new | before
      · rw [Prod.mk.injEq] at new
        obtain ⟨rfl, rfl⟩ := new
        exact .inr ⟨call, draw, rfl, known, .inr ⟨metadata, payload, deviceId, current, found, rfl⟩⟩
      · exact .inl before
    | jobInserted =>
      rcases List.mem_cons.mp answered with new | before
      · rw [Prod.mk.injEq] at new
        obtain ⟨rfl, rfl⟩ := new
        exact .inr ⟨call, draw, rfl, known, .inl current⟩
      · exact .inl before
    | refused | placed | written | cut | reportInserted | reportRefused | jobRefused =>
      exact .inl answered

/-- A call that is about to insert its report under an id was so before, or has just found it. -/
theorem placing_before_step {setup : Setup} {s s' : Service} {action : Action}
    (stepped : Service.step setup s action = some s') {call : ℕ} {pc' : Upload} {id : Text}
    (current' : s'.uploads call = some pc') (placing : placeOf pc' = some id) :
    (∃ pc, s.uploads call = some pc ∧ placeOf pc = some id) ∨
      ∃ draw metadata payload deviceId, action = .upload call draw ∧
        s.uploads call = some (.lookup metadata payload deviceId) ∧
        place s.db metadata.uuid deviceId draw.newId = .fresh id := by
  cases Service.move_of_step stepped with
  | requested other | abandoned other =>
    rcases eq_or_ne call other with rfl | different
    · simp only [Function.update_self, Option.some.injEq, reduceCtorEq] at current'
      all_goals simp [← current', placeOf] at placing
    · exact .inl ⟨pc', by simpa [different] using current', placing⟩
  | started | stopped | swept | halted | worked | collected => exact .inl ⟨pc', current', placing⟩
  | @uploaded other draw pc result current move =>
    rcases eq_or_ne call other with rfl | different
    · have running := running_of_afterUpload s call result current'
      cases move with
      | anonymous | authenticated =>
        obtain ⟨_, _, -, -, rfl⟩ := afterAuthentication_eq_running running
        contradiction
      | @placed metadata payload deviceId reportId success fresh =>
        obtain rfl := Progress.running.inj running
        rw [placeOf, Option.some.injEq] at placing
        exact .inr ⟨draw, metadata, payload, deviceId, rfl, current, placing ▸ fresh⟩
      | written =>
        obtain rfl := Progress.running.inj running
        exact .inl ⟨_, current, placing⟩
      | reportInserted =>
        obtain rfl := Progress.running.inj running
        contradiction
      | refused | known | cut | reportRefused | jobInserted | jobRefused => simp at running
    · rw [afterUpload_uploads_of_ne _ _ _ different] at current'
      exact .inl ⟨pc', current', placing⟩

/-- An id of an upload was its id before, or a lookup has just led to it. -/
theorem placed_before_step {setup : Setup} {h h' : History} {action : Action}
    (remembered : Remembered setup h) (stepped : step setup h action = some h') {request : Request}
    {id : Text} (placed : Placed setup.readers h' request id) :
    Placed setup.readers h request id ∨
      ∃ call draw metadata payload deviceId other, action = .upload call draw ∧
        h.service.uploads call = some (.lookup metadata payload deviceId) ∧
        h.requests call = some other ∧ SameUpload setup.readers request other ∧
        Leads h.service.db metadata deviceId draw.newId id := by
  have moved := service_of_step stepped
  cases placed with
  | @stored other same stored =>
    rcases stored_before_step stepped stored with
      before | ⟨call, draw, metadata, deviceId, -, current, known, absent, -⟩
    · exact .inl (.stored same before)
    · exact .inl (.inserting same known current rfl absent)
  | @answered other same answered =>
    rcases answered_before_step stepped answered with
      before | ⟨call, draw, rfl, known, awaiting | ⟨metadata, payload, deviceId, current, own, rfl⟩⟩
    · exact .inl (.answered same before)
    · obtain ⟨request', known', stored⟩ := remembered.calls call _ awaiting
      rw [known, Option.some.injEq] at known'
      exact .inl (.stored same (known' ▸ stored))
    · exact .inr ⟨call, draw, metadata, payload, deviceId, other, rfl, current, known, same,
        .inl ⟨own, rfl⟩⟩
  | @inserting other call pc same known current place free =>
    have free' : h.service.db.reports.find? id = none := by
      by_contra there
      have still := report_isSome_of_step moved (Option.isSome_iff_ne_none.mpr there)
      simp [free] at still
    rcases placing_before_step moved current place with
      ⟨pc', before, place'⟩ | ⟨draw, metadata, payload, deviceId, rfl, before, fresh⟩
    · rw [request_of_step stepped before] at known
      exact .inl (.inserting same known before place' free')
    · rw [request_of_step stepped before] at known
      exact .inr ⟨call, draw, metadata, payload, deviceId, other, rfl, before, known, same,
        .inr fresh⟩

theorem onePlace_of_step {setup : Setup} {h h' : History} {action : Action}
    (onePlace : OnePlace setup.readers h) (remembered : Remembered setup h)
    (repeatable : Repeatable setup h action) (stepped : step setup h action = some h') :
    OnePlace setup.readers h' := by
  -- A lookup leads to the id that another upload of the same body has.
  have joins {request other : Request} {id id' : Text} {call : ℕ} {draw : Api.Draw}
      {metadata : Types.ReportMetadata} {payload : Bytes} {deviceId : Option Text}
      (placed : Placed setup.readers h request id) (acted : action = .upload call draw)
      (current : h.service.uploads call = some (.lookup metadata payload deviceId))
      (known : h.requests call = some other) (same : SameUpload setup.readers request other)
      (leads : Leads h.service.db metadata deviceId draw.newId id') : id = id' := by
    subst acted
    obtain ⟨rfl, own⟩ :=
      repeatable metadata payload deviceId other current known id (placed.of_same same)
    obtain ⟨request', known', -, owner⟩ := remembered.calls call _ current
    rw [known, Option.some.injEq] at known'
    subst known'
    obtain ⟨-, pubkey, -, signed⟩ := same
    exact (leads.eq_uuid (owner.isSome signed).1 own).symm
  intro request id id' placed placed'
  rcases placed_before_step remembered stepped placed with
    before | ⟨call, draw, metadata, payload, deviceId, other, acted, current, known, same, leads⟩ <;>
  rcases placed_before_step remembered stepped placed' with
    before' | ⟨call', draw', _, _, _, other', acted', current', known', same', leads'⟩
  · exact onePlace request id id' before before'
  · exact joins before acted' current' known' same' leads'
  · exact (joins before' acted current known same leads).symm
  · rw [acted, Action.upload.injEq] at acted'
    obtain ⟨rfl, rfl⟩ := acted'
    rw [current, Option.some.injEq, Upload.lookup.injEq] at current'
    obtain ⟨rfl, rfl, rfl⟩ := current'
    exact leads.unique leads'

/-! ## The report of an answer -/

/-- The report is there and belongs to the device of the key. -/
def Owns (db : Database) (pubkey id : Text) : Prop :=
  ∃ report, db.reports.find? id = some report ∧ report.deviceId.isSome ∧
    report.deviceId = db.deviceOf pubkey

/-- Who has signed an upload that was answered owns the report that the answer names. -/
def AnsweredOwn (readers : Readers) (h : History) : Prop :=
  ∀ id request pubkey, (id, request) ∈ h.answered → request.key readers = .ok (some pubkey) →
    Owns h.service.db pubkey id

theorem owns_of_storedAs {readers : Readers} {db : Database} {id pubkey : Text} {request : Request}
    (stored : StoredAs readers db id request) (signed : request.key readers = .ok (some pubkey)) :
    Owns db pubkey id := by
  obtain ⟨metadata, payload, deviceId, receivedAt, report, -, owner, found, same⟩ := stored
  have sameDevice : report.deviceId = deviceId := congrArg ReportRow.deviceId same
  obtain ⟨isSome, ofKey⟩ := owner.isSome signed
  exact ⟨report, found, sameDevice ▸ isSome, sameDevice.trans ofKey⟩

theorem Owns.of_step {setup : Setup} {s s' : Service} {action : Action} {pubkey id : Text}
    (owns : Owns s.db pubkey id) (stepped : Service.step setup s action = some s') :
    Owns s'.db pubkey id := by
  obtain ⟨report, found, isSome, ofKey⟩ := owns
  obtain ⟨device, signed⟩ := Option.isSome_iff_exists.mp isSome
  obtain ⟨-, rfl⟩ := Table.find?_eq_some_iff.mp found
  obtain ⟨report', found', moved⟩ := reportStep_of_step stepped found
  have sameDevice : report'.deviceId = report.deviceId := by
    have inserted := congrArg ReportRow.deviceId (inserted_of_reportStep moved)
    exact inserted
  refine ⟨report', found', sameDevice ▸ isSome, ?_⟩
  rw [sameDevice, signed, deviceOf_of_step stepped (ofKey.symm.trans signed)]

theorem answeredOwn_of_step {setup : Setup} {h h' : History} {action : Action}
    (own : AnsweredOwn setup.readers h) (remembered : Remembered setup h)
    (stepped : step setup h action = some h') : AnsweredOwn setup.readers h' := by
  intro id request pubkey answered signed
  refine Owns.of_step ?_ (service_of_step stepped)
  rcases answered_before_step stepped answered with
    before | ⟨call, draw, -, known, awaiting | ⟨metadata, payload, deviceId, current, found, rfl⟩⟩
  · exact own id request pubkey before signed
  · obtain ⟨request', known', stored⟩ := remembered.calls call _ awaiting
    rw [known, Option.some.injEq] at known'
    exact owns_of_storedAs (remembered.stored id request (known' ▸ stored)) signed
  · obtain ⟨row, foundRow, isSome, rfl⟩ := place_eq_known found
    obtain ⟨request', known', -, owner⟩ := remembered.calls call _ current
    rw [known, Option.some.injEq] at known'
    subst known'
    exact ⟨row, foundRow, isSome, (owner.isSome signed).2⟩

/-! ## Runs -/

structure Repeated (setup : Setup) (h : History) : Prop where
  remembered : Remembered setup h
  onePlace : OnePlace setup.readers h
  own : AnsweredOwn setup.readers h

theorem Repeated.empty (setup : Setup) : Repeated setup {} where
  remembered := .empty setup
  onePlace request id id' placed := by
    cases placed with
    | stored same none | answered same none => simp at none
    | inserting same none => simp at none
  own id request pubkey none := by simp at none

/-- In a run in which an upload looks its uuid up only when any other upload of the same signed body
that has an id has found this uuid, and the uuid does not belong to anybody else: all uploads of one
body by one key that are stored or answered have one id, and it is the id of a report of that key. -/
theorem repeated_uploads_agree_of_run (setup : Setup) {actions : List Action} {h : History}
    (repeatable : Machine.Meets (step setup) (Repeatable setup) {} actions)
    (reached : Machine.run (step setup) {} actions = some h) {id : Text} {request : Request}
    {pubkey : Text} (there : (id, request) ∈ h.stored ∨ (id, request) ∈ h.answered)
    (signed : request.key setup.readers = .ok (some pubkey)) :
    (∃ report ∈ h.service.db.reports.rows, report.id = id ∧ report.deviceId.isSome ∧
      report.deviceId = h.service.db.deviceOf pubkey) ∧
    ∀ id' request', SameUpload setup.readers request request' →
      (id', request') ∈ h.stored ∨ (id', request') ∈ h.answered → id' = id := by
  have invariant : Repeated setup h := Machine.invariant_of_run
    (fun _ _ _ repeated meets stepped =>
      { remembered := remembered_of_step repeated.remembered stepped
        onePlace := onePlace_of_step repeated.onePlace repeated.remembered meets stepped
        own := answeredOwn_of_step repeated.own repeated.remembered stepped })
    (.empty setup) repeatable reached
  have placed {id' : Text} {request' : Request} (same : SameUpload setup.readers request request')
      (there : (id', request') ∈ h.stored ∨ (id', request') ∈ h.answered) :
      Placed setup.readers h request id' :=
    there.elim (.stored same) (.answered same)
  refine ⟨?_, fun id' request' same there' => ?_⟩
  · have owns : Owns h.service.db pubkey id := by
      rcases there with stored | answered
      · exact owns_of_storedAs (invariant.remembered.stored id request stored) signed
      · exact invariant.own id request pubkey answered signed
    obtain ⟨report, found, isSome, ofKey⟩ := owns
    obtain ⟨member, same⟩ := Table.find?_eq_some_iff.mp found
    exact ⟨report, member, same, isSome, ofKey⟩
  · exact invariant.onePlace request id' id (placed same there')
      (placed ⟨rfl, pubkey, signed, signed⟩ there)

/-! ## Concrete runs -/

/-- The uuid belongs to another device when a device sends its report: the same signed body, sent
twice, becomes two reports of that device with two ids. -/
theorem repeated_upload_duplicated :
    ∃ h, Machine.run (step demoSetup) {}
        ([otherRequest 1, .upload 1 { newId := "d2".toList }, .upload 1 {}, .upload 1 {},
            .upload 1 {}, .upload 1 { newId := "j1".toList }] ++
          [demoRequest 0, .upload 0 { newId := "d1".toList }, .upload 0 { newId := "n1".toList },
            .upload 0 {}, .upload 0 {}, .upload 0 { newId := "j2".toList }] ++
          [demoRequest 0, .upload 0 {}, .upload 0 { newId := "n2".toList }, .upload 0 {},
            .upload 0 {}, .upload 0 { newId := "j3".toList }]) = some h ∧
      ∃ request, h.answered.take 2 = [("n2".toList, request), ("n1".toList, request)] ∧
        h.stored.take 2 = [("n2".toList, request), ("n1".toList, request)] ∧
        request.key demoSetup.readers = .ok (some "key".toList) ∧
        h.service.db.reports.rows.map (fun report => (report.id, report.deviceId)) =
          [("u1".toList, some "d2".toList), ("n1".toList, some "d1".toList),
            ("n2".toList, some "d1".toList)] ∧
        h.service.db.deviceOf "key".toList = some "d1".toList := by
  refine ⟨_, rfl, ⟨⟨some "key".toList, some "sig".toList, some "u1".toList⟩, [1]⟩, ?_⟩
  refine ⟨by decide +kernel, by decide +kernel, rfl, by decide +kernel, by decide +kernel⟩

/-- Everything that is stored has the uuid that the call looks up, and belongs to its device. -/
def agrees (h : History) : Bool :=
  match h.service.uploads 0 with
  | some (.lookup metadata _ deviceId) =>
    (h.stored ++ h.answered).all (fun entry => entry.1 = metadata.uuid) &&
      h.service.db.reports.rows.all fun row => row.deviceId = deviceId
  | _ => true

/-- Only one call is in progress. -/
theorem repeatable_of_agrees {h : History} (others : ∀ call, h.service.uploads (call + 1) = none)
    (agreed : agrees h = true) (draw : Api.Draw) : Repeatable demoSetup h (.upload 0 draw) := by
  intro metadata payload deviceId request current known id placed
  simp only [agrees, current, Bool.and_eq_true, List.all_eq_true, decide_eq_true_eq,
    List.mem_append] at agreed
  obtain ⟨ids, owners⟩ := agreed
  refine ⟨?_, fun row found => owners row (Table.find?_eq_some_iff.mp found).1⟩
  cases placed with
  | stored same stored => exact ids _ (.inl stored)
  | answered same answered => exact ids _ (.inr answered)
  | @inserting other call pc same known' current' place =>
    cases call with
    | zero =>
      rw [current, Option.some.injEq] at current'
      subst current'
      contradiction
    | succ call =>
      rw [others] at current'
      contradiction

/-- A body that is sent again after its upload has gone through. -/
theorem repeated_demoUpload_agrees :
    ∃ h, Machine.run (step demoSetup) {}
        (demoUpload 0 ++ [demoRequest 0, .upload 0 {}, .upload 0 {}]) = some h ∧
      h.answered.map (·.1) = ["u1".toList, "u1".toList] ∧
      ∃ request, ("u1".toList, request) ∈ h.answered ∧
        ((∃ report ∈ h.service.db.reports.rows, report.id = "u1".toList ∧
            report.deviceId.isSome ∧ report.deviceId = h.service.db.deviceOf "key".toList) ∧
          ∀ id' request', SameUpload demoSetup.readers request request' →
            (id', request') ∈ h.stored ∨ (id', request') ∈ h.answered → id' = "u1".toList) := by
  have repeatable : Machine.Meets (step demoSetup) (Repeatable demoSetup) {}
      (demoUpload 0 ++ [demoRequest 0, .upload 0 {}, .upload 0 {}]) := by
    refine .cons rfl trivial ?_
    refine .cons rfl (repeatable_of_agrees (fun _ => rfl) (by decide +kernel) _) ?_
    refine .cons rfl (repeatable_of_agrees (fun _ => rfl) (by decide +kernel) _) ?_
    refine .cons rfl (repeatable_of_agrees (fun _ => rfl) (by decide +kernel) _) ?_
    refine .cons rfl (repeatable_of_agrees (fun _ => rfl) (by decide +kernel) _) ?_
    refine .cons rfl (repeatable_of_agrees (fun _ => rfl) (by decide +kernel) _) ?_
    refine .cons rfl trivial ?_
    refine .cons rfl (repeatable_of_agrees (fun _ => rfl) (by decide +kernel) _) ?_
    refine .cons rfl (repeatable_of_agrees (fun _ => rfl) (by decide +kernel) _) ?_
    trivial
  refine ⟨_, rfl, by decide +kernel, ⟨⟨some "key".toList, some "sig".toList, some "u1".toList⟩, [1]⟩,
    by decide +kernel, ?_⟩
  exact repeated_uploads_agree_of_run demoSetup repeatable rfl (.inr (by decide +kernel)) rfl

end UcrashReport.History
