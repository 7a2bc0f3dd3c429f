import UcrashReport.Soundness.MatchingSymbols
import UcrashReport.Soundness.ShownTexts

/-! # Where the locations of a shown text come from

For every report that it decodes a worker fetches the symbols from the pool. Between two reports the
files of the pool may become anything: other workers fetch, trees are collected, the source publishes
another kernel for the same version. When the report names the build-id of its kernel, no page ever
shows a location in another kernel, whoever has published the report: a text has the locations of a
tree with this build-id, or none.
-/

namespace UcrashReport.Symbols

open Rust Rust.Text

/-- The symbols for a report with a build-id are those of a tree with this build-id. -/
theorem SymbolPool.symbolsOf_of_buildid (pool : SymbolPool) (formats : DebugFormats)
    (outside : Outside) (version target buildid : Text) (tree : FileTree Bytes) :
    pool.symbolsOf formats outside version target (some buildid) tree = none ∨
      ∃ left dest, MatchesKernel formats left dest buildid ∧
        pool.symbolsOf formats outside version target (some buildid) tree =
          some (treeResolver formats left dest) := by
  unfold symbolsOf symbolizer
  obtain ⟨answer, left⟩ :=
    pool.ensureKernel formats.toFormats outside version target (some buildid) tree
  by_cases has : (Symbolizer.new formats left answer.toOption (some buildid)).haveSymbols = true
  · obtain ⟨dest, returned, isMatch⟩ := Symbolizer.matchesKernel_of_haveSymbols has
    rw [returned] at has
    refine .inr ⟨left, dest, isMatch, ?_⟩
    dsimp only
    rw [returned, if_pos has, resolver_eq_treeResolver formats has]
  · exact .inl (if_neg has)

end UcrashReport.Symbols

namespace UcrashReport.Service

open Rust Rust.Text Store Api Decode Signature History Machine Symbols

variable (setup : Setup) (pool : SymbolPool) (formats : DebugFormats)

/-- A worker that decodes a payload has the symbols that the pool gives it for its report, whatever
files the pool has by then. -/
def DrawsFromPool (s : Service) : Action → Prop
  | .work worker draw => ∀ job report, s.workers worker = some (.read job report) →
    ∃ outside tree, draw.symbols =
      pool.symbolsOf formats outside report.version report.target report.kernelBuildid tree
  | _ => True

/-- A worker reads the raw payload of the report, and this is the text in it. -/
def ReadsPlain (id plain : Text) (s : Service) (action : Action) : Prop :=
  ∃ worker draw job report data row encoding, action = .work worker draw ∧
    s.workers worker = some (.read job report) ∧ job.reportId = id ∧ s.raw id = some data ∧
    s.db.reports.find? id = some row ∧
    Types.PayloadEncoding.fromStr row.payloadEncoding = .ok encoding ∧
    decodePayload setup.libs data encoding = .ok plain

/-- The text with locations, if any, in the files of a tree with the build-id, scrubbed. -/
def LocatedIn (buildid plain text : Text) : Prop :=
  text = Scrub.scrub setup.libs.classes plain ∨
    ∃ tree dest, MatchesKernel formats tree dest buildid ∧
      text = Scrub.scrub setup.libs.classes
        (Annotate.annotate (SymbolPool.treeResolver formats tree dest) plain)

variable {setup pool formats}

/-! ## Steps and runs -/

/-- A text that a worker makes of a payload has the locations of a kernel with the build-id. -/
theorem locatedIn_of_decodesTo {s : Service} {action : Action} (rows : LoadedRows s)
    (drawn : DrawsFromPool pool formats s action) {id text buildid : Text} {sig : CrashSignature}
    {row : ReportRow} (found : s.db.reports.find? id = some row)
    (built : row.kernelBuildid = some buildid) (decodes : DecodesTo setup id text sig s action) :
    ∃ plain, ReadsPlain setup id plain s action ∧ LocatedIn setup formats buildid plain text := by
  obtain ⟨worker, draw, job, report, data, row', plain, encoding, rfl, -, current, rfl, there, found',
    known, inflated, isText, -⟩ := decodes
  refine ⟨plain, ⟨worker, draw, job, report, data, row', encoding, rfl, current, rfl, there, found',
    known, inflated⟩, ?_⟩
  obtain ⟨outside, tree, symbols⟩ := drawn job report current
  obtain ⟨row'', found'', same⟩ := rows worker _ job report current rfl
  obtain rfl := Option.some.inj (found''.symm.trans found)
  have builtToo : report.kernelBuildid = some buildid :=
    (congrArg ReportRow.kernelBuildid same).trans built
  rw [builtToo] at symbols
  rcases pool.symbolsOf_of_buildid formats outside report.version report.target buildid tree with
    none | ⟨left, dest, isMatch, some⟩
  · rw [symbols, none, decodedText] at isText
    exact .inl isText
  · rw [symbols, some, decodedText] at isText
    exact .inr ⟨left, dest, isMatch, isText⟩

end UcrashReport.Service

namespace UcrashReport.Portal

open Rust Rust.Text Store Api Machine Symbols

/-! ## Runs of the server -/

variable (i : Installation) (pool : SymbolPool) (formats : DebugFormats)

/-- A worker of the server has the symbols that the pool gives it. -/
def DrawsFromPool (p : Portal) (action : Action) : Prop :=
  ∀ inner, served action = some inner → Service.DrawsFromPool pool formats p.service inner

/-- A worker of the server reads this text in the raw payload of the report. -/
def ReadsPlain (id plain : Text) (p : Portal) (action : Action) : Prop :=
  ∃ inner, served action = some inner ∧ Service.ReadsPlain i.setup id plain p.service inner

/-- What is shown of a report with a build-id is the beginning of a text that was read from its payload
earlier in the run, with no locations but those in a kernel with this build-id. -/
def Located (labels : List Action) (row : ReportRow) (shown : Text) : Prop :=
  ∀ buildid, row.kernelBuildid = some buildid → shown = [] ∨ ∃ plain text,
    Since (step i) {} (fun _ _ => True) (fun _ p a => ReadsPlain i row.id plain p a) labels ∧
      Service.LocatedIn i.setup formats buildid plain text ∧ shown <+: text

variable {i pool formats}

theorem inserted_of_run {p p' : Portal} {actions : List Action}
    (reached : run (step i) p actions = some p') {id : Text} {row : ReportRow}
    (found : p.db.reports.find? id = some row) :
    ∃ row', p'.db.reports.find? id = some row' ∧ row'.inserted = row.inserted :=
  (hosts_service i).invariant_of_run
    (I := fun s => ∃ row', s.db.reports.find? id = some row' ∧ row'.inserted = row.inserted)
    (fun s action s' kept (stepped : Service.step i.setup s action = some s') => by
      obtain ⟨mid, foundMid, same⟩ := kept
      obtain ⟨-, rfl⟩ := Table.find?_eq_some_iff.mp foundMid
      obtain ⟨row', found', moved⟩ := Service.reportStep_of_step stepped foundMid
      exact ⟨row', found', (History.inserted_of_reportStep moved).trans same⟩)
    (fun s s' kept beside => by
      obtain ⟨mid, foundMid, same⟩ := kept
      obtain ⟨row', found', inserted⟩ := beside.inserted foundMid
      exact ⟨row', found', inserted.trans same⟩)
    ⟨row, found, rfl⟩ reached

theorem located_of_shownOf {before between : List Action} {q p : Portal}
    (drawn : Meets (step i) (DrawsFromPool pool formats) {} (before ++ between))
    (looked : run (step i) {} before = some q) (reached : run (step i) q between = some p)
    {row : ReportRow} (member : row ∈ q.db.reports.rows) {shown : Text}
    (shownOf : ShownOf i (before ++ between) row.id shown) :
    Located i formats (before ++ between) row shown := by
  intro buildid built
  rcases shownOf with rfl | ⟨text, sig, decoded, part⟩
  · exact .inl rfl
  obtain ⟨first, action, rest, u, split, there, ⟨inner, isServed, decodes⟩, -⟩ := decoded
  obtain ⟨-, -, -, -, -, row', -, -, -, -, -, -, -, found', -⟩ := id decodes
  have whole : run (step i) {} (first ++ action :: rest) = some p :=
    split ▸ run_append.mpr ⟨q, looked, reached⟩
  -- The row may have been changed between its two readings, but not the build-id in it.
  have same : row'.inserted = row.inserted := by
    obtain ⟨mid, there', later⟩ := run_append.mp whole
    obtain rfl := Option.some.inj (there.symm.trans there')
    obtain ⟨last, foundLast, same'⟩ := inserted_of_run later found'
    obtain ⟨last', foundLast', same⟩ :=
      inserted_of_run reached (Table.find?_eq_some_iff.mpr ⟨member, rfl⟩)
    obtain rfl := Option.some.inj (foundLast.symm.trans foundLast')
    exact same'.symm.trans same
  have builtThen : row'.kernelBuildid = some buildid :=
    (congrArg ReportRow.kernelBuildid same).trans built
  rw [split] at drawn ⊢
  obtain ⟨plain, reads, located⟩ := Service.locatedIn_of_decodesTo (loadedRows_of_run there)
    (drawn.middle there inner isServed) found' builtThen decodes
  refine .inr ⟨plain, text, ?_, located, part⟩
  exact ⟨first, action, rest, u, rfl, there, ⟨inner, isServed, reads⟩,
    fun _ _ => meets_of_forall fun _ _ _ => trivial⟩

/-- In every run of the server in which workers have the symbols that the pool gives them, whatever
becomes of its files: what the page of a public report, the page of a report for developers or the
answer to its device shows has no locations but those in a kernel with the build-id of the report. -/
theorem locations_match_kernel_of_run (i : Installation) (pool : SymbolPool) (formats : DebugFormats)
    {before between : List Action} {q p : Portal} (looked : run (step i) {} before = some q)
    (reached : run (step i) q between = some p)
    (drawn : Meets (step i) (DrawsFromPool pool formats) {} (before ++ between)) :
    (∀ draw slug page, publicReport i.site draw q.db p.service.decoded slug = .ok page →
      ∃ row ∈ q.db.reports.rows, row.publishSlug = some slug ∧
        Located i formats (before ++ between) row page.decoded) ∧
    (∀ auth draw cookie id d page,
      Web.reportView i.setup.readers.sha256 auth draw q.auth.accounts q.db p.service.decoded cookie id =
        .ok (d, page) → ∃ row ∈ q.db.reports.rows, row.id = id ∧
          Located i formats (before ++ between) row page.decoded) ∧
    ∀ draw authorization id detail,
      myReportDetail i.setup.readers.sha256 draw q.db p.service.decoded authorization id = .ok detail →
        ∃ row ∈ q.db.reports.rows, row.id = id ∧
          ∀ shown ∈ detail.decoded, Located i formats (before ++ between) row shown := by
  have traced := traced_of_run (run_append.mpr ⟨q, looked, reached⟩)
  refine ⟨fun draw slug page answered => ?_, fun auth draw cookie id d page answered => ?_,
    fun draw authorization id detail answered => ?_⟩
  · obtain ⟨row, member, slug, -, rfl⟩ := row_of_publicReport answered
    exact ⟨row, member, slug, located_of_shownOf drawn looked reached member
      (traced.shownOf_getD draw.readable row.id)⟩
  · obtain ⟨row, found, rfl⟩ := Web.row_of_reportView answered
    obtain ⟨member, same⟩ := Table.find?_eq_some_iff.mp found
    exact ⟨row, member, same, located_of_shownOf drawn looked reached member
      (traced.shownOf_getD draw.readable row.id)⟩
  · obtain ⟨row, member, rfl, rfl⟩ := row_of_myReportDetail answered
    exact ⟨row, member, rfl, fun shown isShown => located_of_shownOf drawn looked reached member
      (traced.shownOf draw.readable row.id shown isShown)⟩

/-! ## A concrete run -/

/-- Every payload is one line of a trace of a kernel with a build-id. -/
def locatedInstallation : Installation :=
  { demoInstallation with
    setup := { demoInstallation.setup with
      readers :=
        { demoInstallation.setup.readers with
          json := fun uuid => (demoInstallation.setup.readers.json uuid).map fun metadata =>
            { metadata with
              openwrt := { metadata.openwrt with target := "mediatek/filogic".toList }
              kernelBuildid := some "ABCD".toList } }
      libs := { demoInstallation.setup.libs with lossyUtf8 := fun _ => "foo+0x10/0x20\n".toList } } }

/-- The symbols that the pool has for it. -/
def locatedSymbols : Option Annotate.Resolver :=
  releasePool.symbolsOf debugFormats unreachable "25.12.5".toList "mediatek/filogic".toList
    (some "abcd".toList) (kernelTree [0xab, 0xcd])

def locatedWork (draw : Decode.Draw) : Action := .device (.serve (.work 0 draw))

/-- The device publishes its report, and a worker loads it. -/
def locatedLoad : List Action :=
  demoPublication ++ [.device (.serve (.start 0)), locatedWork {}, locatedWork {}]

def locatedDecode : List Action := [locatedWork { symbols := locatedSymbols }, locatedWork {}]

def isRead : Decode.Worker → Bool
  | .read _ _ => true
  | _ => false

def readsPayload (p : Portal) (action : Action) : Bool :=
  match served action with
  | some (.work worker _) => (p.service.workers worker).any isRead
  | _ => false

theorem drawsFromPool_of_readsPayload {p : Portal} {action : Action}
    (other : readsPayload p action = false) : DrawsFromPool pool formats p action := by
  intro inner isServed
  rw [readsPayload, isServed] at other
  cases inner with
  | work worker draw =>
    intro job report current
    simp [current, isRead] at other
  | request | upload | abandon | start | stop | sweep | collect | halt => trivial

/-- The only payload that is read is that of a report with this build-id. -/
theorem locatedDecode_draws :
    Meets (step locatedInstallation) (DrawsFromPool releasePool debugFormats) {}
      (locatedLoad ++ locatedDecode) := by
  have unread : Meets (step locatedInstallation) (fun p action => readsPayload p action = false) {}
      locatedLoad := by decide +kernel
  have fields : ((run (step locatedInstallation) {} locatedLoad).bind fun p =>
      ((p.service.workers 0).bind History.loaded).map fun read =>
        (read.2.version, read.2.target, read.2.kernelBuildid)) =
      some ("25.12.5".toList, "mediatek/filogic".toList, some "abcd".toList) := by decide +kernel
  obtain ⟨p, there, fields⟩ := Option.bind_eq_some_iff.mp fields
  have stored : ((run (step locatedInstallation) {}
      (locatedLoad ++ [locatedWork { symbols := locatedSymbols }])).map fun p =>
        readsPayload p (locatedWork {})) = some false := by decide +kernel
  obtain ⟨p', there', stored⟩ := Option.map_eq_some_iff.mp stored
  rw [locatedDecode, List.append_cons]
  refine (meets_snoc there').mpr ⟨(meets_snoc there).mpr
    ⟨unread.imp fun _ _ => drawsFromPool_of_readsPayload, fun inner isServed => ?_⟩,
    drawsFromPool_of_readsPayload stored⟩
  obtain rfl := Option.some.inj isServed
  intro job report current
  rw [current] at fields
  obtain ⟨version, rest⟩ := Prod.mk.inj (Option.some.inj fields)
  obtain ⟨target, built⟩ := Prod.mk.inj rest
  dsimp only at version target built
  rw [version, target, built]
  exact ⟨unreachable, kernelTree [0xab, 0xcd], rfl⟩

theorem locatedDecode_matches :
    ∃ q p, run (step locatedInstallation) {} locatedLoad = some q ∧
      run (step locatedInstallation) q locatedDecode = some p ∧
      ∃ page, publicReport locatedInstallation.site {} q.db p.service.decoded "s".toList = .ok page ∧
        page.decoded = "foo+0x10/0x20 (kernel/foo.c:42)\n".toList ∧
        ∃ row ∈ q.db.reports.rows, row.kernelBuildid = some "abcd".toList ∧
          Located locatedInstallation debugFormats (locatedLoad ++ locatedDecode) row page.decoded := by
  have shown : (run (step locatedInstallation) {} locatedLoad).any (fun q =>
      q.db.reports.rows.map (·.kernelBuildid) = [some "abcd".toList] &&
      (run (step locatedInstallation) q locatedDecode).any fun p =>
        decide ((publicReport locatedInstallation.site {} q.db p.service.decoded "s".toList).map
          (·.decoded) = .ok "foo+0x10/0x20 (kernel/foo.c:42)\n".toList)) = true := by decide +kernel
  obtain ⟨q, looked, shown⟩ := (Option.any_eq_true _ _).mp shown
  obtain ⟨builds, shown⟩ := Bool.and_eq_true_iff.mp shown
  obtain ⟨p, reached, shown⟩ := (Option.any_eq_true _ _).mp shown
  obtain ⟨page, answered, decoded⟩ := eq_ok_of_map (of_decide_eq_true shown)
  obtain ⟨row, member, -, located⟩ := (locations_match_kernel_of_run locatedInstallation releasePool
    debugFormats looked reached locatedDecode_draws).1 {} _ page answered
  have built : row.kernelBuildid = some "abcd".toList := by
    simpa [of_decide_eq_true builds] using List.mem_map_of_mem (f := (·.kernelBuildid)) member
  exact ⟨q, p, looked, reached, page, answered, decoded, row, member, built, located⟩

end UcrashReport.Portal
