import UcrashReport.Soundness.GroupRows
import UcrashReport.Soundness.KeptData
import UcrashReport.Soundness.PortalSteps

/-! # What is shown of a payload

A page shows the decoded text of a report as far as it is stored, and the title of its group. A write
that fails leaves a part of the text, another attempt writes over it, and symbols that come or go in
between make another text of the same payload. Reports are published and taken back meanwhile, and a
page looks for its report before it reads the text. Whatever it shows goes back to a step in which a
worker has read the raw payload of that very report and scrubbed what it has made of it.
-/

namespace UcrashReport.Service

open Rust Rust.Text Store Api Decode Signature History Machine

/-! ## Where texts come from -/

/-- A worker reads the raw payload of the report, and this text and signature are made of it. -/
def DecodesTo (setup : Setup) (id text : Text) (sig : CrashSignature) (s : Service) (action : Action) :
    Prop :=
  ∃ worker draw job report data row plain encoding, action = .work worker draw ∧
    draw.success = true ∧ s.workers worker = some (.read job report) ∧ job.reportId = id ∧
    s.raw id = some data ∧ s.db.reports.find? id = some row ∧
    Types.PayloadEncoding.fromStr row.payloadEncoding = .ok encoding ∧
    decodePayload setup.libs data encoding = .ok plain ∧
    text = decodedText setup.libs.classes draw.symbols plain ∧
    sig = reportSignature setup.libs.sha256Hex row.kind text

variable {setup : Setup} {s s' : Service} {action : Action}

/-! ## Steps -/

/-- A worker that is going to store a text was so before, or it has just decoded the payload. -/
theorem store_before_step (rows : LoadedRows s) (stepped : step setup s action = some s') {worker : ℕ}
    {job : Job} {report : ReportRow} {text : Text} {sig : CrashSignature}
    (current' : s'.workers worker = some (.store job report text sig)) :
    s.workers worker = some (.store job report text sig) ∨
      DecodesTo setup job.reportId text sig s action := by
  rcases worker_before_step stepped current' with
    ⟨current, -⟩ | impossible | ⟨draw, pc, db, raw, decoded, rfl, current, move, rfl⟩
  · exact .inl current
  · contradiction
  · right
    generalize next_eq : Worker.store job report text sig = next at move
    cases move with
    | read job' report' found decodes =>
      obtain ⟨rfl, rfl, rfl, rfl⟩ := Worker.store.inj next_eq
      obtain ⟨row, foundRow, same⟩ := rows worker _ job report current rfl
      rw [decodeRaw_of_inserted setup.libs draw.symbols same, decodeRaw_eq_ok_iff] at decodes
      obtain ⟨encoding, plain, known, inflated, isText, isSig⟩ := decodes
      refine ⟨worker, draw, job, report, _, row, plain, encoding, rfl, ?_, current, rfl, found,
        foundRow, known, inflated, isText, isSig⟩
      by_contra failed
      rw [step, current, Option.map_some, Decode.work, if_neg failed, Option.some.injEq] at stepped
      have closes := congrArg (fun s => s.workers worker) stepped
      simp [afterWork] at closes
    | closed job' outcome | leftRunning job' outcome =>
      have loads := congrArg loaded next_eq
      rw [loaded_afterClose] at loads
      contradiction
    | rested | claimed | loaded | stored | grouped | finished | removed | keptRaw | gaveUp
    | markedFailed | leftUnmarked => contradiction

/-- A worker that is going to file a report was so before, or it has just stored the text. -/
theorem group_worker_before_step (stepped : step setup s action = some s') {worker : ℕ} {job : Job}
    {report : ReportRow} {sig : CrashSignature}
    (current' : s'.workers worker = some (.group job report sig)) :
    s.workers worker = some (.group job report sig) ∨
      ∃ text, s.workers worker = some (.store job report text sig) := by
  rcases worker_before_step stepped current' with
    ⟨current, -⟩ | impossible | ⟨draw, pc, db, raw, decoded, rfl, current, move, rfl⟩
  · exact .inl current
  · contradiction
  · right
    generalize next_eq : Worker.group job report sig = next at move
    cases move with
    | stored job' report' text sig' =>
      obtain ⟨rfl, rfl, rfl⟩ := Worker.group.inj next_eq
      exact ⟨text, current⟩
    | closed job' outcome | leftRunning job' outcome =>
      have loads := congrArg loaded next_eq
      rw [loaded_afterClose] at loads
      contradiction
    | rested | claimed | loaded | read | grouped | finished | removed | keptRaw | gaveUp
    | markedFailed | leftUnmarked => contradiction

/-- A stored text is as before, or a worker has written the beginning of its text there. -/
theorem file_after_step (stepped : step setup s action = some s') {id : Text} {bytes : Bytes}
    (stored : s'.decoded id = some bytes) :
    s.decoded id = some bytes ∨ ∃ worker job report text sig,
      s.workers worker = some (.store job report text sig) ∧ job.reportId = id ∧
        bytes <+: utf8Encode text := by
  rcases decoded_after_step stepped id with
    same | ⟨worker, draw, job, report, text, sig, rfl, current, rfl, -⟩
  · exact .inl (same ▸ stored)
  · rw [step, current, Option.map_some, Option.some.injEq] at stepped
    subst stepped
    rw [Decode.work] at stored
    have wrote {data : Bytes} (some_eq : some data = some bytes) (part : data <+: utf8Encode text) :
        s.decoded job.reportId = some bytes ∨ ∃ worker job' report text sig,
          s.workers worker = some (.store job' report text sig) ∧ job'.reportId = job.reportId ∧
            bytes <+: utf8Encode text := by
      obtain rfl := Option.some.inj some_eq
      exact .inr ⟨worker, job, report, text, sig, current, rfl, part⟩
    split_ifs at stored with success
    · cases written : draw.written with
      | whole =>
        simp only [written, Files.write, afterWork, Function.update_self] at stored
        exact wrote stored (List.prefix_refl _)
      | cut length =>
        simp only [written, Files.write, afterWork, Function.update_self] at stored
        exact wrote stored (List.take_prefix _ _)
      | unopened =>
        simp only [written, Files.write, afterWork] at stored
        exact .inl stored
    · exact .inl stored

end UcrashReport.Service

namespace UcrashReport.Portal

open Rust Rust.Text Store Api Decode Signature Machine

/-! ## Runs of the server -/

/-- A worker of the server makes this text and signature of the raw payload of the report. -/
def DecodesTo (i : Installation) (id text : Text) (sig : CrashSignature) (p : Portal) (action : Action) :
    Prop :=
  ∃ inner, served action = some inner ∧ Service.DecodesTo i.setup id text sig p.service inner

/-- It was so in an earlier step of the run. -/
def HasDecodedTo (i : Installation) (labels : List Action) (id text : Text) (sig : CrashSignature) :
    Prop :=
  Since (step i) {} (fun _ _ => True) (fun _ p a => DecodesTo i id text sig p a) labels

/-- Nothing, or the beginning of a text that the payload of the report was decoded to. -/
def ShownOf (i : Installation) (labels : List Action) (id shown : Text) : Prop :=
  shown = [] ∨ ∃ text sig, HasDecodedTo i labels id text sig ∧ shown <+: text

/-- The group is described by the signature of such a text. -/
def TitledBy (i : Installation) (labels : List Action) (row : GroupRow) : Prop :=
  ∃ id text sig, HasDecodedTo i labels id text sig ∧ row.signature = sig.signature ∧
    row.title = sig.title ∧ row.modules = [' '].intercalate sig.modules

variable {i : Installation} {labels : List Action} {p p' : Portal} {action : Action}

theorem hasDecodedTo_snoc (there : run (step i) {} labels = some p) {id text : Text}
    {sig : CrashSignature} :
    HasDecodedTo i (labels ++ [action]) id text sig ↔
      DecodesTo i id text sig p action ∨ HasDecodedTo i labels id text sig := by
  rw [HasDecodedTo, since_snoc there, true_and, HasDecodedTo]

theorem HasDecodedTo.snoc {id text : Text} {sig : CrashSignature}
    (before : HasDecodedTo i labels id text sig) (there : run (step i) {} labels = some p)
    (action : Action) : HasDecodedTo i (labels ++ [action]) id text sig :=
  (hasDecodedTo_snoc there).mpr (.inr before)

/-- What workers have in hand, what is stored and what groups say goes back to decoded payloads. -/
structure Traced (i : Installation) (labels : List Action) (s : Service) : Prop where
  storing : ∀ worker job report text sig, s.workers worker = some (.store job report text sig) →
    HasDecodedTo i labels job.reportId text sig
  filing : ∀ worker job report sig, s.workers worker = some (.group job report sig) →
    ∃ text, HasDecodedTo i labels job.reportId text sig
  files : ∀ id bytes, s.decoded id = some bytes →
    ∃ text sig, HasDecodedTo i labels id text sig ∧ bytes <+: utf8Encode text
  groups : ∀ id row, s.db.groups.find? id = some row → TitledBy i labels row

theorem Traced.start (i : Installation) : Traced i [] {} where
  storing _ _ _ _ _ none := by simp at none
  filing _ _ _ _ none := by simp at none
  files _ _ none := by simp at none
  groups _ _ found := by simp at found

theorem Traced.served {inner : Service.Action} (traced : Traced i labels p.service)
    (there : run (step i) {} labels = some p) (isServed : served action = some inner)
    (taken : Service.step i.setup p.service inner = some p'.service) :
    Traced i (labels ++ [action]) p'.service where
  storing worker job report text sig current' := by
    rw [hasDecodedTo_snoc there]
    rcases Service.store_before_step (loadedRows_of_run there) taken current' with current | now
    · exact .inr (traced.storing worker job report text sig current)
    · exact .inl ⟨inner, isServed, now⟩
  filing worker job report sig current' := by
    rcases Service.group_worker_before_step taken current' with current | ⟨text, current⟩
    · obtain ⟨text, before⟩ := traced.filing worker job report sig current
      exact ⟨text, before.snoc there action⟩
    · exact ⟨text, (traced.storing worker job report text sig current).snoc there action⟩
  files id bytes stored := by
    rcases Service.file_after_step taken stored with
      before | ⟨worker, job, report, text, sig, current, rfl, part⟩
    · obtain ⟨text, sig, decoded, part⟩ := traced.files id bytes before
      exact ⟨text, sig, decoded.snoc there action, part⟩
    · exact ⟨text, sig, (traced.storing worker job report text sig current).snoc there action, part⟩
  groups id row' found' := by
    rcases Service.group_before_step taken found' with
      ⟨row, ts, found, rfl⟩ | ⟨worker, draw, job, report, sig, -, current, rfl, -⟩
    · obtain ⟨report, text, sig, decoded, signature, title, modules⟩ := traced.groups id row found
      exact ⟨report, text, sig, decoded.snoc there action, signature, title, modules⟩
    · obtain ⟨text, decoded⟩ := traced.filing worker job report sig current
      exact ⟨job.reportId, text, sig, decoded.snoc there action, rfl, rfl, rfl⟩

theorem Traced.beside {s : Service} (traced : Traced i labels p.service)
    (there : run (step i) {} labels = some p) (beside : Beside p.service s) :
    Traced i (labels ++ [action]) s where
  storing worker job report text sig current :=
    (traced.storing worker job report text sig (beside.workers ▸ current)).snoc there action
  filing worker job report sig current := by
    obtain ⟨text, before⟩ := traced.filing worker job report sig (beside.workers ▸ current)
    exact ⟨text, before.snoc there action⟩
  files id bytes stored := by
    obtain ⟨text, sig, decoded, part⟩ := traced.files id bytes (beside.decoded ▸ stored)
    exact ⟨text, sig, decoded.snoc there action, part⟩
  groups id row found := by
    obtain ⟨report, text, sig, decoded, described⟩ := traced.groups id row (beside.groups ▸ found)
    exact ⟨report, text, sig, decoded.snoc there action, described⟩

theorem traced_of_run (reached : run (step i) {} labels = some p) : Traced i labels p.service := by
  have always : Meets (step i) (fun _ _ => True) {} labels := meets_of_forall fun _ _ _ => trivial
  refine history_of_run (I := fun labels p => Traced i labels p.service) (Traced.start i)
    (fun _ q action q' there traced _ stepped => ?_) always reached
  rcases hosts_service i q action q' stepped with ⟨inner, isServed, taken⟩ | ⟨-, beside⟩
  · exact traced.served there isServed taken
  · exact traced.beside there beside

/-- What is read of a stored text is the beginning of a text that the payload was decoded to. -/
theorem Traced.shownOf {s : Service} (traced : Traced i labels s) (readable : Bool) (id : Text) :
    ∀ shown ∈ readToString readable s.decoded id, ShownOf i labels id shown := by
  intro shown read
  rw [readToString, Option.mem_def, Option.ite_none_right_eq_some, Option.bind_eq_some_iff] at read
  obtain ⟨-, bytes, stored, isShown⟩ := read
  obtain ⟨text, sig, decoded, part⟩ := traced.files id bytes stored
  exact .inr ⟨text, sig, decoded, isPrefix_of_utf8Decode isShown part⟩

theorem Traced.shownOf_getD {s : Service} (traced : Traced i labels s) (readable : Bool) (id : Text) :
    ShownOf i labels id ((readToString readable s.decoded id).getD []) := by
  cases read : readToString readable s.decoded id with
  | none => exact .inl rfl
  | some shown => exact traced.shownOf readable id shown read

/-- In every run of the server: whatever text the page of a public report, the page of a report for
developers or the answer to its device shows, it is empty or the beginning of a text that a worker has
made of the raw payload of that report, and scrubbed last of all. The page may have found its report in
an earlier state than the one in which it reads the text. The titles and modules of groups are those of
the signatures of such texts. -/
theorem shown_texts_scrubbed_of_run (i : Installation) {before between : List Action} {q p : Portal}
    (looked : run (step i) {} before = some q) (reached : run (step i) q between = some p) :
    (∀ draw slug page, publicReport i.site draw q.db p.service.decoded slug = .ok page →
      ∃ row ∈ q.db.reports.rows, row.publishSlug = some slug ∧ row.visibility = .«public» ∧
        ShownOf i (before ++ between) row.id page.decoded) ∧
    (∀ auth draw cookie id d page,
      Web.reportView i.setup.readers.sha256 auth draw q.auth.accounts q.db p.service.decoded cookie id =
        .ok (d, page) → ShownOf i (before ++ between) id page.decoded) ∧
    (∀ draw authorization id detail,
      myReportDetail i.setup.readers.sha256 draw q.db p.service.decoded authorization id = .ok detail →
        ∀ shown ∈ detail.decoded, ShownOf i (before ++ between) id shown) ∧
    ∀ row ∈ p.db.groups.rows, TitledBy i (before ++ between) row := by
  have traced := traced_of_run (run_append.mpr ⟨q, looked, reached⟩)
  refine ⟨fun draw slug page answered => ?_, fun auth draw cookie id d page answered => ?_,
    fun draw authorization id detail answered shown isShown => ?_, fun row member => ?_⟩
  · obtain ⟨row, member, slug, visible, rfl⟩ := row_of_publicReport answered
    exact ⟨row, member, slug, visible, traced.shownOf_getD draw.readable row.id⟩
  · obtain ⟨row, found, rfl⟩ := Web.row_of_reportView answered
    obtain ⟨-, rfl⟩ := Table.find?_eq_some_iff.mp found
    exact traced.shownOf_getD draw.readable row.id
  · obtain ⟨row, -, rfl, rfl⟩ := row_of_myReportDetail answered
    exact traced.shownOf draw.readable row.id shown isShown
  · exact traced.groups row.id row (Table.find?_eq_some_iff.mpr ⟨member, rfl⟩)

/-! ## Concrete runs -/

/-- Every payload is the same line with an address. -/
def addressInstallation : Installation :=
  { demoInstallation with
    setup := { demoInstallation.setup with
      libs := { demoInstallation.setup.libs with
        lossyUtf8 := fun _ => "peer 192.168.1.42 down".toList } } }

/-- A developer logs in, and the device publishes its report. -/
def demoAudience : List Action :=
  (Auth.demoSession.take 4).map .developer ++ demoPublication

/-- The text of the report is not written to its end. -/
def cutDecode : List Action :=
  ([.start 0, .work 0 {}, .work 0 {}, .work 0 {}, .work 0 { written := .cut 9 }] :
    List Service.Action).map fun action => .device (.serve action)

/-- Another attempt writes it again, and files the report. -/
def retriedDecode : List Action :=
  cutDecode ++ ([.work 0 {}, .work 0 {}, .work 0 {}, .work 0 {}, .work 0 {},
    .work 0 { newId := "g1".toList }] : List Service.Action).map fun action => .device (.serve action)

/-- The texts that the public page, the page for developers and the answer to the device show. -/
def demoShown (q p : Portal) : Except ApiError Text × Except Web.PageError Text ×
    Except ApiError (Option Text) :=
  ((publicReport addressInstallation.site {} q.db p.service.decoded "s".toList).map (·.decoded),
    (Web.reportView addressInstallation.setup.readers.sha256 {} {} q.auth.accounts q.db
      p.service.decoded (some "0304".toList) "u1".toList).map (·.2.decoded),
    (myReportDetail addressInstallation.setup.readers.sha256 { now := 60 } q.db p.service.decoded
      (some "Bearer t".toList) "u1".toList).map (·.decoded))

theorem eq_ok_of_map {ε α β : Type} {f : α → β} {answer : Except ε α} {b : β}
    (mapped : answer.map f = .ok b) : ∃ a, answer = .ok a ∧ f a = b := by
  cases answer with
  | error e => contradiction
  | ok a => exact ⟨a, rfl, Except.ok.inj mapped⟩

/-- While they look for the report its text is cut off, and they end within the masked address. Later
the group is described by the whole text. -/
theorem cutDecode_shown :
    ∃ q p p', run (step addressInstallation) {} demoAudience = some q ∧
      run (step addressInstallation) q cutDecode = some p ∧
      run (step addressInstallation) q retriedDecode = some p' ∧
      demoShown q p = (.ok "peer x.x.".toList, .ok "peer x.x.".toList, .ok (some "peer x.x.".toList)) ∧
      (∃ row ∈ q.db.reports.rows, row.publishSlug = some "s".toList ∧ row.visibility = .«public» ∧
        ShownOf addressInstallation (demoAudience ++ cutDecode) row.id "peer x.x.".toList) ∧
      ShownOf addressInstallation (demoAudience ++ cutDecode) "u1".toList "peer x.x.".toList ∧
      p'.db.groups.rows.map (·.title) = ["unclassified".toList] ∧
      ∀ row ∈ p'.db.groups.rows, TitledBy addressInstallation (demoAudience ++ retriedDecode) row := by
  have shown : (run (step addressInstallation) {} demoAudience).any (fun q =>
      (run (step addressInstallation) q cutDecode).any (fun p => decide (demoShown q p =
        (.ok "peer x.x.".toList, .ok "peer x.x.".toList, .ok (some "peer x.x.".toList)))) &&
      (run (step addressInstallation) q retriedDecode).any fun p =>
        p.db.groups.rows.map (·.title) = ["unclassified".toList]) = true := by decide +kernel
  obtain ⟨q, looked, shown⟩ := (Option.any_eq_true _ _).mp shown
  obtain ⟨cut, retried⟩ := Bool.and_eq_true_iff.mp shown
  obtain ⟨p, reached, isShown⟩ := (Option.any_eq_true _ _).mp cut
  obtain ⟨p', reached', titles⟩ := (Option.any_eq_true _ _).mp retried
  have isShown := of_decide_eq_true isShown
  obtain ⟨page, answered, isPage⟩ := eq_ok_of_map (congrArg Prod.fst isShown)
  obtain ⟨view, viewed, isView⟩ := eq_ok_of_map (congrArg (·.2.1) isShown)
  obtain ⟨ofPage, ofView, -⟩ := shown_texts_scrubbed_of_run addressInstallation looked reached
  refine ⟨q, p, p', looked, reached, reached', isShown, ?_, ?_, of_decide_eq_true titles,
    (shown_texts_scrubbed_of_run addressInstallation looked reached').2.2.2⟩
  · exact isPage ▸ ofPage {} _ page answered
  · exact isView ▸ ofView {} {} _ _ view.1 view.2 viewed

end UcrashReport.Portal
