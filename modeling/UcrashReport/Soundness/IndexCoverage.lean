import UcrashReport.Decoder.IndexShape
import UcrashReport.Soundness.CompleteTrees
import UcrashReport.Soundness.SnapshotRetention

/-! # Every fetched debug file is indexed

A pool is followed over calls and collections, together with the trees that were fetched completely.
An index has one link for each build-id. As long as no tree is dropped into which the link of a file
leads that stays in another fetched tree, every kernel and module of a fetched tree is found under
its build-id. Dropping the tree that the link leads into loses the file in the other one.
-/

namespace UcrashReport.Symbols

open Rust Rust.Text BuildId

/-- The pool and the trees that hold what a successful call fetched. -/
structure FetchedPool where
  tree : FileTree Bytes
  fetched : List Location := []

namespace SymbolPool

variable (pool : SymbolPool) (formats : Formats)

/-- A call that begins to fetch gives up the old tree of its pair, and has a new one if it succeeds. -/
def fetchedAfter (s : FetchedPool) (call : Call) : List Location :=
  match pool.fetchTree formats call.version call.target call.expectedBuildid s.tree with
  | none => s.fetched
  | some _ =>
    let others := s.fetched.filter fun dest => dest ≠ pool.destOf call
    match (pool.ensureKernel formats call.outside call.version call.target call.expectedBuildid
      s.tree).1 with
    | .ok _ => pool.destOf call :: others
    | .error _ => others

def fetchOrCollect (s : FetchedPool) : PoolOp → Option FetchedPool
  | .ensureKernel call =>
    some
      { tree := (pool.ensureKernel formats call.outside call.version call.target
          call.expectedBuildid s.tree).2
        fetched := pool.fetchedAfter formats s call }
  | .gc outside retentionWeeks =>
    some { s with tree := pool.gc outside retentionWeeks s.tree }

/-- Every kernel and module of a fetched tree resolves under its build-id. -/
def IndexComplete (s : FetchedPool) : Prop :=
  ∀ dest ∈ s.fetched, ∀ file, IsDebugFileOf dest file →
    ∀ id, fileBuildId formats s.tree file = some id → 4 ≤ byteLen id →
      (resolve s.tree pool.dir id).isSome = true

/-- What an operation drops: a stale tree and what stood where an extraction fails, or old
snapshots. -/
def Drops (tree : FileTree Bytes) : PoolOp → Location → Prop
  | .ensureKernel call, dir =>
    dir = pool.destOf call ∧ tree.pathExists (vmlinuxOf dir) = true ∧
        pool.fetchTree formats call.version call.target call.expectedBuildid tree ≠ none ∨
      ∃ start tarball member, pool.extraction formats call tree = some (start, tarball) ∧
        stuckBy formats call.outside tarball (pool.destOf call) start = some member ∧
        isAccepted member = true ∧ dir = memberLocation (pool.destOf call) member
  | .gc outside retentionWeeks, dir =>
    pool.IsSnapshotTree dir ∧ tree.lookup dir = some .dir ∧
      lastUsed tree dir < cutoffOf outside retentionWeeks

/-- No dropped directory has the target of the link of a fetched file that stays. -/
def SparesTargets (s : FetchedPool) (op : PoolOp) : Prop :=
  ∀ dest ∈ s.fetched, ∀ file, IsDebugFileOf dest file →
    (∀ dir, pool.Drops formats s.tree op dir → ¬ dir <+: file) →
    ∀ content id target, s.tree.lookup file = some (.file content) → HasId formats content id →
      s.tree.lookup (debugLink pool.dir id) = some (.link target) →
      ∀ dir, pool.Drops formats s.tree op dir → ¬ dir <+: target

/-- A call works in the kernel directory, and neither inside `debug` of another fetched tree nor
around one; it extracts directories and regular files, and can write the index. -/
def WorksApart (s : FetchedPool) : PoolOp → Prop
  | .ensureKernel call =>
    rejects call.version call.target = false →
      pool.kernelDir <+: pool.destOf call ∧
      (∀ dest ∈ s.fetched, dest ≠ pool.destOf call →
        ¬ debugOf dest <+: pool.destOf call ∧ ¬ debugOf (pool.destOf call) <+: dest) ∧
      pool.ExtractsPlain formats s.tree call ∧ WritesIndex pool call.outside
  | .gc _ _ => True

end SymbolPool

/-! ## The invariant -/

/-- The debug files of a tree that have a build-id are covered. -/
def CoversTree (pool : SymbolPool) (formats : Formats) (tree : FileTree Bytes) (dest : Location) :
    Prop :=
  ∀ file, IsDebugFileOf dest file →
    ∀ content id, tree.lookup file = some (.file content) → HasId formats content id →
      Covers pool tree id

structure Coverage (pool : SymbolPool) (formats : Formats) (s : FetchedPool) : Prop where
  shape : IndexShape pool s.tree
  inKernel : ∀ dest ∈ s.fetched, pool.kernelDir <+: dest
  covered : ∀ dest ∈ s.fetched, CoversTree pool formats s.tree dest

theorem debugOf_prefix_of_isDebugFileOf {dest file : Location} (isDebug : IsDebugFileOf dest file) :
    debugOf dest <+: file := by
  rcases isDebug with rfl | ⟨name, rfl⟩
  · exact debugOf_prefix_vmlinuxOf dest
  · exact ⟨["modules".toList, name], by simp [debugOf, modulesOf]⟩

theorem IsDebugFileOf.inKernel {pool : SymbolPool} {dest file : Location}
    (isDebug : IsDebugFileOf dest file) (inKernel : pool.kernelDir <+: dest) :
    pool.kernelDir <+: file :=
  (inKernel.trans (List.prefix_append ..)).trans (debugOf_prefix_of_isDebugFileOf isDebug)

section Covering

variable {pool : SymbolPool} {formats : Formats} {tree tree' : FileTree Bytes}

/-- A link of the index leads to its target. -/
theorem IndexShape.pathExists_iff (shape : IndexShape pool tree) {id : Text} {target : Location}
    (isLink : tree.lookup (debugLink pool.dir id) = some (.link target)) :
    tree.pathExists (debugLink pool.dir id) = true ↔ tree.lookup target ≠ none := by
  have leads := FileTree.destination_of_link isLink
    (shape.linksIndexed.inKernel (shape.targetInKernel isLink))
  rw [FileTree.pathExists, FileTree.stat, leads, Option.bind_some, Option.isSome_iff_ne_none]

/-- A covered build-id resolves. -/
theorem resolve_of_covers (shape : IndexShape pool tree) {content : Bytes} {id : Text}
    (hasId : HasId formats content id) (covers : Covers pool tree id) :
    (resolve tree pool.dir id).isSome = true := by
  obtain ⟨isId, long⟩ := hasId
  obtain ⟨note, -, rfl⟩ := Option.map_eq_some_iff.mp isId
  obtain ⟨target, isLink, there⟩ := covers
  have hex := isAsciiHexdigit_hexEncode note
  unfold resolve
  rw [if_neg (by simp [hex, long]), toAsciiLowercase_hexEncode]
  dsimp only
  rw [if_pos ((shape.pathExists_iff isLink).mpr there), Option.isSome_some]

theorem CoversTree.of_untouched {dest : Location} (covered : CoversTree pool formats tree dest)
    (untouched : Untouched dest tree tree')
    (covers : ∀ id, Covers pool tree id → Covers pool tree' id) :
    CoversTree pool formats tree' dest := by
  intro file isDebug content id isFile hasId
  rw [untouched file (debugOf_prefix_of_isDebugFileOf isDebug)] at isFile
  exact covers id (covered file isDebug content id isFile hasId)

/-- Work among the kernels that leaves what is there keeps covered ids covered. -/
theorem Covers.of_worksBelow {dest : Location} (works : WorksBelow dest tree tree')
    (inKernel : pool.kernelDir <+: dest)
    (stays : ∀ loc, tree.lookup loc ≠ none → tree'.lookup loc ≠ none) (id : Text)
    (covers : Covers pool tree id) : Covers pool tree' id := by
  obtain ⟨target, isLink, there⟩ := covers
  refine ⟨target, ?_, stays target there⟩
  rw [works.lookup_index inKernel (indexDir_prefix_debugLink pool id), isLink]

theorem stays_writeStamp (outside : Outside) {dest : Location} (free : tree.LinkFree (stampOf dest))
    (loc : Location) (present : tree.lookup loc ≠ none) :
    (SymbolPool.writeStamp outside dest tree).lookup loc ≠ none := by
  have direct := (free.of_leading (SymbolPool.prefix_stampOf dest)).direct
  rcases lookup_writeStamp outside direct free.noLink loc with same | ⟨-, content, -, isFile⟩
  · rwa [same]
  · simp [isFile]

end Covering

/-! ## One operation -/

namespace SymbolPool

variable {pool : SymbolPool} {formats : Formats} {s : FetchedPool}

/-- A debug file of the tree that has a build-id is covered by a link whose target the operation does
not drop. -/
def Spared (pool : SymbolPool) (formats : Formats) (before tree : FileTree Bytes) (op : PoolOp)
    (dest : Location) : Prop :=
  ∀ file, IsDebugFileOf dest file →
    ∀ content id, tree.lookup file = some (.file content) → HasId formats content id →
      ∃ target, tree.lookup (debugLink pool.dir id) = some (.link target) ∧
        tree.lookup target ≠ none ∧ ∀ dir, pool.Drops formats before op dir → ¬ dir <+: target

theorem Spared.coversTree {before tree : FileTree Bytes} {op : PoolOp} {dest : Location}
    (spared : Spared pool formats before tree op dest) : CoversTree pool formats tree dest := by
  intro file isDebug content id isFile hasId
  obtain ⟨target, isLink, there, -⟩ := spared file isDebug content id isFile hasId
  exact ⟨target, isLink, there⟩

/-- Where a call begins to fetch, the other trees are still covered. -/
theorem spared_fetchTree {call : Call} {start : FileTree Bytes}
    (coverage : Coverage pool formats s)
    (spares : pool.SparesTargets formats s (.ensureKernel call))
    (inKernel : pool.kernelDir <+: pool.destOf call)
    (begins : pool.fetchTree formats call.version call.target call.expectedBuildid s.tree =
      some start) {dest : Location} (member : dest ∈ s.fetched)
    (different : dest ≠ pool.destOf call)
    (apart : ¬ debugOf dest <+: pool.destOf call ∧ ¬ debugOf (pool.destOf call) <+: dest) :
    Spared pool formats s.tree start (.ensureKernel call) dest := by
  have destFree := coverage.shape.linksIndexed.inKernel inKernel
  have direct := (destFree.of_leading (List.dropLast_prefix _)).direct
  have shrinks := shrinks_fetchTree begins
  intro file isDebug content id isFile hasId
  have before := shrinks.lookup_eq_some isFile
  obtain ⟨target, isLink, there⟩ := coverage.covered dest member file isDebug content id before hasId
  -- The file itself is in nothing that is dropped.
  have stays : ∀ dir, pool.Drops formats s.tree (.ensureKernel call) dir → ¬ dir <+: file := by
    rintro dir (⟨rfl, present, -⟩ | ⟨-, -, stuck, -, -, accepted, rfl⟩) above
    · obtain ⟨-, ⟨-, absent⟩ | ⟨rfl, -⟩⟩ := fetchTree_cases begins
      · simp [absent] at present
      · have isDir := isDir_of_pathExists_vmlinuxOf (coverage.shape.linksIndexed.inKernel
          (inKernel.trans (List.prefix_append ..))) present
        rw [FileTree.removeDirAll_of_isDir isDir, FileTree.orUnchanged, Option.getD_some,
          FileTree.lookup_prune, if_pos] at isFile
        · contradiction
        · refine ⟨?_, above⟩
          rintro rfl
          simp at before
    · exact debugOf_disjoint different apart.1 apart.2 (debugOf_prefix_of_isDebugFileOf isDebug)
        ((memberLocation_debug _ accepted).trans above)
  have spared := spares dest member file isDebug stays content id target before hasId isLink
  have kept : ∀ loc, ¬ pool.destOf call <+: loc ∨ loc = target →
      start.lookup loc = s.tree.lookup loc := by
    intro loc beside
    obtain ⟨-, ⟨rfl, -⟩ | ⟨rfl, present⟩⟩ := fetchTree_cases begins
    · rfl
    · refine (lookup_orUnchanged_removeDirAll direct loc).resolve_right fun gone => ?_
      rcases beside with outside | rfl
      · exact outside gone.1
      · exact spared _ (.inl ⟨rfl, present, by simp [begins]⟩) gone.1
  refine ⟨target, ?_, by rwa [kept target (.inr rfl)], spared⟩
  rw [kept, isLink]
  exact .inl fun inside => not_indexDir_prefix (inKernel.trans inside)
    (indexDir_prefix_debugLink pool id)

/-- Extraction leaves the other trees covered. -/
theorem coversTree_extractTarball (tar : Unpacks formats.unpackIn) {call : Call}
    {start left : FileTree Bytes} {tarball : Bytes} {whole : Bool}
    (inKernel : pool.kernelDir <+: pool.destOf call)
    (extracts : pool.extraction formats call s.tree = some (start, tarball))
    (plain : PlainExtraction formats call.outside tarball (pool.destOf call) start)
    (extracted : extractTarball formats call.outside tarball (pool.destOf call) start =
      (left, whole)) {dest : Location} (different : dest ≠ pool.destOf call)
    (apart : ¬ debugOf dest <+: pool.destOf call ∧ ¬ debugOf (pool.destOf call) <+: dest)
    (spared : Spared pool formats s.tree start (.ensureKernel call) dest) :
    CoversTree pool formats left dest := by
  have works := worksBelow_extractTarball tar plain extracted
  intro file isDebug content id isFile hasId
  rw [untouched_extractTarball tar plain extracted different apart.1 apart.2 file
    (debugOf_prefix_of_isDebugFileOf isDebug)] at isFile
  obtain ⟨target, isLink, there, notDropped⟩ := spared file isDebug content id isFile hasId
  refine ⟨target, ?_, fun absent => ?_⟩
  · rw [works.lookup_index inKernel (indexDir_prefix_debugLink pool id), isLink]
  · rcases lookup_extractTarball tar plain extracted target with
      same | ⟨-, -, isDir⟩ | ⟨member, -, accepted, -, -, onlyStuck⟩
    · exact there (same ▸ absent)
    · simp [isDir] at absent
    · obtain ⟨stuck, here⟩ := onlyStuck absent
      exact notDropped _ (.inr ⟨start, tarball, member, extracts, stuck, accepted, here⟩)
        List.prefix_rfl

theorem coversTree_writeStamp (outside : Outside) {tree : FileTree Bytes}
    (shape : IndexShape pool tree) {stamped dest : Location}
    (inKernel : pool.kernelDir <+: stamped) (beside : dest = stamped ∨ ¬ debugOf dest <+: stamped)
    (covered : CoversTree pool formats tree dest) :
    CoversTree pool formats (writeStamp outside stamped tree) dest := by
  have free := shape.linksIndexed.stampFree inKernel
  have direct := (shape.linksIndexed.inKernel inKernel).direct
  exact covered.of_untouched (untouched_writeStamp direct free.noLink beside)
    (Covers.of_worksBelow (worksBelow_writeStamp outside direct free.noLink) inKernel
      (stays_writeStamp outside free))

/-- The index of a tree covers it, and leaves the others covered. -/
theorem coversTree_indexBuildIds {outside : Outside} (writes : WritesIndex pool outside)
    {tree : FileTree Bytes} (shape : IndexShape pool tree) {indexed : Location}
    (inKernel : pool.kernelDir <+: indexed) (present : tree.pathExists (vmlinuxOf indexed) = true) {dest : Location}
    (destInKernel : pool.kernelDir <+: dest)
    (covered : dest = indexed ∨ CoversTree pool formats tree dest) :
    IndexShape pool (indexBuildIds formats outside indexed pool.dir tree) ∧
      CoversTree pool formats (indexBuildIds formats outside indexed pool.dir tree) dest := by
  have root : tree.lookup pool.dir = some .dir := by
    have isDir := isDir_of_pathExists_vmlinuxOf (shape.linksIndexed.inKernel
      (inKernel.trans (List.prefix_append ..))) present
    apply tree.lookup_of_prefix (by rw [isDir]; simp) (dir_prefix_of_inKernel inKernel)
    rintro rfl
    have longer := inKernel.length_le
    rw [kernelDir, List.length_append, List.length_singleton] at longer
    omega
  obtain ⟨extended, own⟩ := extends_indexBuildIds formats writes shape root inKernel
  refine ⟨extended.shape, ?_⟩
  rcases covered with rfl | covered
  · intro file isDebug content id isFile hasId
    rw [extended.kernels file (isDebug.inKernel inKernel)] at isFile
    exact own file isDebug content id isFile hasId
  · have untouched : Untouched dest tree (indexBuildIds formats outside indexed pool.dir tree) :=
      fun loc below => extended.kernels loc ((destInKernel.trans (List.prefix_append ..)).trans below)
    exact covered.of_untouched untouched extended.covers

theorem mem_fetchedAfter_of_error {call : Call} {start : FileTree Bytes} {e : Failure}
    (begins : pool.fetchTree formats call.version call.target call.expectedBuildid s.tree =
      some start)
    (failed : (pool.ensureKernel formats call.outside call.version call.target
      call.expectedBuildid s.tree).1 = .error e) {dest : Location} :
    dest ∈ pool.fetchedAfter formats s call ↔ dest ∈ s.fetched ∧ dest ≠ pool.destOf call := by
  simp [fetchedAfter, begins, failed]

theorem mem_fetchedAfter_of_ok {call : Call} {start : FileTree Bytes} {made : Location}
    (begins : pool.fetchTree formats call.version call.target call.expectedBuildid s.tree =
      some start)
    (returned : (pool.ensureKernel formats call.outside call.version call.target
      call.expectedBuildid s.tree).1 = .ok made) {dest : Location} :
    dest ∈ pool.fetchedAfter formats s call ↔
      dest = pool.destOf call ∨ dest ∈ s.fetched ∧ dest ≠ pool.destOf call := by
  simp [fetchedAfter, begins, returned]

/-- After a call that fails only the trees of before are fetched ones, but for its own. -/
theorem coverage_of_error {call : Call} (coverage : Coverage pool formats s)
    {start : FileTree Bytes} {e : Failure}
    (begins : pool.fetchTree formats call.version call.target call.expectedBuildid s.tree =
      some start)
    (failed : (pool.ensureKernel formats call.outside call.version call.target
      call.expectedBuildid s.tree).1 = .error e) {tree : FileTree Bytes}
    (shape : IndexShape pool tree)
    (covered : ∀ dest ∈ s.fetched, dest ≠ pool.destOf call → CoversTree pool formats tree dest) :
    Coverage pool formats { tree, fetched := pool.fetchedAfter formats s call } := by
  refine ⟨shape, fun dest member => ?_, fun dest member => ?_⟩
  · exact coverage.inKernel dest ((mem_fetchedAfter_of_error begins failed).mp member).1
  · obtain ⟨before, different⟩ := (mem_fetchedAfter_of_error begins failed).mp member
    exact covered dest before different

/-- What a fetch leaves, complete or not, before the index is written. -/
theorem coverage_extractTarball (tar : Unpacks formats.unpackIn) {call : Call}
    {start left : FileTree Bytes} {tarball : Bytes} {whole : Bool}
    (coverage : Coverage pool formats s) (apart : pool.WorksApart formats s (.ensureKernel call))
    (spares : pool.SparesTargets formats s (.ensureKernel call))
    (begins : pool.fetchTree formats call.version call.target call.expectedBuildid s.tree =
      some start)
    (fetched : pool.fetchTarball formats call.outside call.version call.target = .ok tarball)
    (extracted : extractTarball formats call.outside tarball (pool.destOf call) start =
      (left, whole)) :
    IndexShape pool left ∧ ∀ dest ∈ s.fetched, dest ≠ pool.destOf call →
      CoversTree pool formats left dest := by
  obtain ⟨inKernel, others, isPlain, -⟩ := apart (fetchTree_cases begins).1
  have indexed := coverage.shape.linksIndexed
  have direct := ((indexed.inKernel inKernel).of_leading (List.dropLast_prefix _)).direct
  have extracts := extraction_eq_some begins fetched
  have dropping := worksBelow_fetchTree direct begins
  have startShape := coverage.shape.worksBelow dropping inKernel
  have plain := startShape.linksIndexed.extraction tar inKernel (isPlain start tarball extracts)
  refine ⟨startShape.worksBelow (worksBelow_extractTarball tar plain extracted) inKernel,
    fun dest member different => ?_⟩
  have beside := others dest member different
  exact coversTree_extractTarball tar inKernel extracts plain extracted different beside
    (spared_fetchTree coverage spares inKernel begins member different beside)

/-- A call that meets the condition keeps every fetched tree covered. -/
theorem coverage_ensureKernel (tar : Unpacks formats.unpackIn) {call : Call}
    (coverage : Coverage pool formats s)
    (apart : pool.WorksApart formats s (.ensureKernel call))
    (spares : pool.SparesTargets formats s (.ensureKernel call)) :
    Coverage pool formats
      { tree := (pool.ensureKernel formats call.outside call.version call.target
          call.expectedBuildid s.tree).2
        fetched := pool.fetchedAfter formats s call } := by
  have ofError := @coverage_of_error pool formats s call coverage
  have ofOk := @mem_fetchedAfter_of_ok pool formats s call
  have unfetchedSame : pool.fetchTree formats call.version call.target call.expectedBuildid
      s.tree = none → pool.fetchedAfter formats s call = s.fetched := by
    intro noFetch
    simp [fetchedAfter, noFetch]
  have outcome := pool.ensured formats call.outside call.version call.target
    call.expectedBuildid s.tree
  generalize (pool.ensureKernel formats call.outside call.version call.target
    call.expectedBuildid s.tree).1 = answer at *
  generalize (pool.ensureKernel formats call.outside call.version call.target
    call.expectedBuildid s.tree).2 = tree at *
  generalize pool.fetchedAfter formats s call = fetched at *
  cases outcome with
  | refused isRefused =>
    rw [unfetchedSame (by simp [fetchTree, isRefused])]
    exact coverage
  | served accepted present fits =>
    obtain ⟨inKernel, others, -⟩ := apart accepted
    rw [unfetchedSame (by simp [fetchTree, accepted, present, fits])]
    have indexed := coverage.shape.linksIndexed
    have works := worksBelow_writeStamp call.outside (indexed.inKernel inKernel).direct
      (indexed.stampFree inKernel).noLink
    refine ⟨coverage.shape.worksBelow works inKernel, coverage.inKernel, fun dest member => ?_⟩
    apply coversTree_writeStamp call.outside coverage.shape inKernel _
      (coverage.covered dest member)
    by_cases own : dest = pool.destOf call
    · exact .inl own
    · exact .inr (others dest member own).1
  | unfetched begins =>
    obtain ⟨inKernel, others, -⟩ := apart (fetchTree_cases begins).1
    have free := coverage.shape.linksIndexed.inKernel inKernel
    have works := worksBelow_fetchTree (free.of_leading (List.dropLast_prefix _)).direct begins
    exact ofError begins rfl (coverage.shape.worksBelow works inKernel) fun dest old different =>
      (spared_fetchTree coverage spares inKernel begins old different
        (others dest old different)).coversTree
  | unextracted begins fetching extracted =>
    obtain ⟨shape, covered⟩ :=
      coverage_extractTarball tar coverage apart spares begins fetching extracted
    exact ofError begins rfl shape covered
  | noKernel begins fetching extracted =>
    obtain ⟨shape, covered⟩ :=
      coverage_extractTarball tar coverage apart spares begins fetching extracted
    exact ofError begins rfl shape covered
  | @complete start left tarball begins fetching extracted present =>
    obtain ⟨inKernel, others, -, writes⟩ := apart (fetchTree_cases begins).1
    obtain ⟨shape, covered⟩ :=
      coverage_extractTarball tar coverage apart spares begins fetching extracted
    have indexes : ∀ dest ∈ fetched, pool.kernelDir <+: dest ∧
        (dest = pool.destOf call ∨ ¬ debugOf dest <+: pool.destOf call) ∧
        IndexShape pool (indexBuildIds formats call.outside (pool.destOf call) pool.dir left) ∧
        CoversTree pool formats
          (indexBuildIds formats call.outside (pool.destOf call) pool.dir left) dest := by
      intro dest member
      rcases (ofOk begins rfl).mp member with rfl | ⟨old, different⟩
      · exact ⟨inKernel, .inl rfl, coversTree_indexBuildIds writes shape inKernel present
          inKernel (.inl rfl)⟩
      · have destInKernel := coverage.inKernel dest old
        exact ⟨destInKernel, .inr (others dest old different).1, coversTree_indexBuildIds
          writes shape inKernel present destInKernel (.inr (covered dest old different))⟩
    have indexedShape := (indexes (pool.destOf call) ((ofOk begins rfl).mpr (.inl rfl))).2.2.1
    have indexed := indexedShape.linksIndexed
    have works := worksBelow_writeStamp call.outside (indexed.inKernel inKernel).direct
      (indexed.stampFree inKernel).noLink
    refine ⟨indexedShape.worksBelow works inKernel, fun dest member => (indexes dest member).1,
      fun dest member => ?_⟩
    obtain ⟨-, beside, -, covered⟩ := indexes dest member
    exact coversTree_writeStamp call.outside indexedShape inKernel beside covered

/-- What a collection drops is gone. -/
theorem not_drops_of_present {outside : Outside} {retentionWeeks : ℕ}
    (shape : IndexShape pool s.tree) {loc : Location}
    (present : (pool.gc outside retentionWeeks s.tree).lookup loc ≠ none) (dir : Location)
    (drops : pool.Drops formats s.tree (.gc outside retentionWeeks) dir) : ¬ dir <+: loc := by
  intro inside
  obtain ⟨snapshot, isDir, old⟩ := drops
  exact present (lookup_gc_of_old shape.linksIndexed snapshot isDir old inside)

/-- A link whose target is in no dropped directory is kept, and its target as well. -/
theorem covers_gc {outside : Outside} {retentionWeeks : ℕ} (shape : IndexShape pool s.tree)
    {id : Text} {target : Location}
    (isLink : s.tree.lookup (debugLink pool.dir id) = some (.link target))
    (there : s.tree.lookup target ≠ none)
    (spared : ∀ dir, pool.Drops formats s.tree (.gc outside retentionWeeks) dir →
      ¬ dir <+: target) : Covers pool (pool.gc outside retentionWeeks s.tree) id := by
  have linkKept : (pool.gcTrees outside retentionWeeks s.tree).lookup (debugLink pool.dir id) =
      some (.link target) := by
    rw [lookup_gcTrees shape.linksIndexed, isLink]
    intro dir snapshot above
    have beside := not_indexDir_prefix (snapshot.inKernel.trans above)
    exact absurd (indexDir_prefix_debugLink pool id) beside
  have targetKept : (pool.gcTrees outside retentionWeeks s.tree).lookup target ≠ none := by
    rwa [lookup_gcTrees shape.linksIndexed fun dir snapshot above isDir old =>
      spared dir ⟨snapshot, isDir, old⟩ above]
  have treesShape := shape.shrinks (shrinks_gcTrees pool outside retentionWeeks s.tree)
  have leads := (treesShape.pathExists_iff linkKept).mpr targetKept
  -- A link that leads somewhere survives the visit of the links, and leads where it led.
  have leadsAfter : (pool.gc outside retentionWeeks s.tree).pathExists (debugLink pool.dir id) =
      true := by
    rw [gc_eq]
    exact pathExists_foldl_gcLink (fun link member =>
      treesShape.linksIndexed.parentFree (mem_walkTwoLevels_form member)) leads
  have shapeAfter := shape.shrinks (shrinks_gc pool outside retentionWeeks s.tree)
  have isLinkAfter : (pool.gc outside retentionWeeks s.tree).lookup (debugLink pool.dir id) =
      some (.link target) := by
    have present : (pool.gc outside retentionWeeks s.tree).lookup (debugLink pool.dir id) ≠ none := by
      intro absent
      have free := shapeAfter.linksIndexed.linkFree_of_absent absent
      rw [FileTree.pathExists, FileTree.stat_of_linkFree free, absent] at leadsAfter
      contradiction
    rw [(shrinks_gc pool outside retentionWeeks s.tree _).resolve_right present, isLink]
  exact ⟨target, isLinkAfter, (shapeAfter.pathExists_iff isLinkAfter).mp leadsAfter⟩

/-- A collection that meets the condition keeps every fetched tree covered. -/
theorem coverage_gc {outside : Outside} {retentionWeeks : ℕ} (coverage : Coverage pool formats s)
    (spares : pool.SparesTargets formats s (.gc outside retentionWeeks)) :
    Coverage pool formats { s with tree := pool.gc outside retentionWeeks s.tree } where
  shape := coverage.shape.shrinks (shrinks_gc pool outside retentionWeeks s.tree)
  inKernel := coverage.inKernel
  covered dest member file isDebug content id isFile hasId := by
    have before : s.tree.lookup file = some (.file content) := by
      rcases shrinks_gc pool outside retentionWeeks s.tree file with same | gone
      · exact same.symm.trans isFile
      · exact absurd (gone.symm.trans isFile) (by simp)
    obtain ⟨target, isLink, there⟩ :=
      coverage.covered dest member file isDebug content id before hasId
    apply covers_gc coverage.shape isLink there
    apply spares dest member file isDebug _ content id target before hasId isLink
    exact not_drops_of_present coverage.shape (by simp [isFile])

/-! ## Runs -/

theorem coverage_fetchOrCollect (tar : Unpacks formats.unpackIn) {s' : FetchedPool} {op : PoolOp}
    (coverage : Coverage pool formats s)
    (meets : pool.WorksApart formats s op ∧ pool.SparesTargets formats s op)
    (stepped : pool.fetchOrCollect formats s op = some s') : Coverage pool formats s' := by
  cases op with
  | ensureKernel call =>
    rw [fetchOrCollect, Option.some.injEq] at stepped
    exact stepped ▸ coverage_ensureKernel tar coverage meets.1 meets.2
  | gc outside retentionWeeks =>
    rw [fetchOrCollect, Option.some.injEq] at stepped
    exact stepped ▸ coverage_gc coverage meets.2

/-- What is covered resolves. -/
theorem indexComplete_of_coverage (coverage : Coverage pool formats s) :
    pool.IndexComplete formats s := by
  intro dest member file isDebug id isId long
  obtain ⟨content, read, hasId⟩ := Option.bind_eq_some_iff.mp isId
  have free := coverage.shape.linksIndexed.inKernel
    (isDebug.inKernel (coverage.inKernel dest member))
  have isFile : s.tree.lookup file = some (.file content) := by
    rw [FileTree.read, FileTree.stat_of_linkFree free] at read
    split at read
    · next found there =>
      rw [Option.some.injEq] at read
      rw [there, read]
    · contradiction
  exact resolve_of_covers coverage.shape ⟨hasId, long⟩
    (coverage.covered dest member file isDebug content id isFile ⟨hasId, long⟩)

/-- From an empty pool: as long as no directory is dropped into which the link of a fetched file
leads that stays, every fetched kernel and module resolves under its build-id. -/
theorem indexComplete_of_run (tar : Unpacks formats.unpackIn) {start : FetchedPool}
    {ops : List PoolOp}
    (empty : ∀ loc, pool.dir <+: loc → loc ≠ pool.dir → start.tree.lookup loc = none)
    (rootFree : start.tree.LinkFree pool.dir) (noneFetched : start.fetched = [])
    (meets : Machine.Meets (pool.fetchOrCollect formats)
      (fun s op => pool.WorksApart formats s op ∧ pool.SparesTargets formats s op) start ops)
    (reached : Machine.run (pool.fetchOrCollect formats) start ops = some s) :
    pool.IndexComplete formats s := by
  have nothing : ∀ loc, pool.indexDir <+: loc → start.tree.lookup loc = none := by
    intro loc inIndex
    apply empty loc ((List.prefix_append ..).trans inIndex)
    rintro rfl
    have longer := inIndex.length_le
    rw [indexDir, List.length_append, List.length_singleton] at longer
    omega
  have initial : Coverage pool formats start := by
    refine ⟨⟨rootFree, fun loc target inPool isLink => ?_, fun loc inIndex isDir => ?_,
      fun loc content inIndex isFile => ?_⟩, ?_, ?_⟩
    · by_cases root : loc = pool.dir
      · exact absurd (root ▸ isLink) (rootFree.noLink target)
      · rw [empty loc inPool root] at isLink
        contradiction
    · rw [nothing loc inIndex] at isDir
      contradiction
    · rw [nothing loc inIndex] at isFile
      contradiction
    · simp [noneFetched]
    · simp [noneFetched]
  exact indexComplete_of_coverage (Machine.invariant_of_run (I := Coverage pool formats)
    (fun _ _ _ => coverage_fetchOrCollect tar) initial meets reached)

end SymbolPool

/-! ## One kernel in two trees -/

/-- A release and a snapshot of one kernel. -/
def releaseThenSnapshot : List PoolOp :=
  [.ensureKernel (mirrorCall "25.12.5".toList "ath79/generic".toList),
    .ensureKernel (mirrorCall "SNAPSHOT".toList "x86/64".toList)]

/-- Nine weeks after the calls. -/
def afterRetention : Outside :=
  { (mirrorCall [] []).outside with now := 1751712000 + 9 * 7 * 86400 }

/-- The snapshot was indexed last: collecting it unindexes the kernel of the release. -/
theorem collected_snapshot_unindexes :
    ∃ s, Machine.run (mirrorPool.fetchOrCollect kernelFormats) ⟨.empty, []⟩
        (releaseThenSnapshot ++ [.gc afterRetention 4]) = some s ∧
      ¬ mirrorPool.IndexComplete kernelFormats s := by
  refine ⟨_, rfl, fun complete => ?_⟩
  have resolved := complete
    (mirrorPool.destOf (mirrorCall "25.12.5".toList "ath79/generic".toList)) (by decide +kernel)
    (vmlinuxOf (mirrorPool.destOf (mirrorCall "25.12.5".toList "ath79/generic".toList)))
    (.inl rfl) "aabb".toList (by decide +kernel) (by decide)
  revert resolved
  decide +kernel

/-- After the first call the second one comes to the end of its tarball. -/
theorem second_unstuck {s : FetchedPool}
    (first : mirrorPool.fetchOrCollect kernelFormats ⟨.empty, []⟩
      (.ensureKernel (mirrorCall "25.12.5".toList "ath79/generic".toList)) = some s)
    {start : FileTree Bytes} {tarball : Bytes}
    (extracts : mirrorPool.extraction kernelFormats (mirrorCall "SNAPSHOT".toList "x86/64".toList)
      s.tree = some (start, tarball)) :
    stuckBy kernelFormats (mirrorCall "SNAPSHOT".toList "x86/64".toList).outside tarball
      (mirrorPool.destOf (mirrorCall "SNAPSHOT".toList "x86/64".toList)) start = none := by
  have whole : (mirrorPool.extraction kernelFormats (mirrorCall "SNAPSHOT".toList "x86/64".toList)
      s.tree).all (fun e => (stuckBy kernelFormats
        (mirrorCall "SNAPSHOT".toList "x86/64".toList).outside e.2
        (mirrorPool.destOf (mirrorCall "SNAPSHOT".toList "x86/64".toList)) e.1).isNone) = true := by
    cases first
    decide +kernel
  rw [extracts, Option.all_some] at whole
  exact Option.isNone_iff_eq_none.mp whole

/-- Both calls meet the condition: nothing is dropped. -/
theorem release_and_snapshot_resolve :
    ∃ s, Machine.run (mirrorPool.fetchOrCollect kernelFormats) ⟨.empty, []⟩ releaseThenSnapshot =
        some s ∧ mirrorPool.IndexComplete kernelFormats s := by
  have runs : (Machine.run (mirrorPool.fetchOrCollect kernelFormats) ⟨.empty, []⟩
      releaseThenSnapshot).isSome = true := by decide +kernel
  obtain ⟨s, reached⟩ := Option.isSome_iff_exists.mp runs
  refine ⟨s, reached, SymbolPool.indexComplete_of_run unpacks_unpackPlain ?_
    (FileTree.linkFree_empty _) rfl ?_ reached⟩
  · exact fun loc inPool _ => FileTree.lookup_empty loc fun root => by
      subst root
      exact absurd inPool (by decide)
  · have plain : ∀ tree call, mirrorPool.ExtractsPlain kernelFormats tree call :=
      fun _ _ _ tarball _ => plainTarball_kernel tarball
    refine .cons rfl ⟨fun _ => ⟨by decide +kernel, fun dest member => by contradiction, plain _ _,
        fun _ _ => rfl⟩, fun dest member => by contradiction⟩
      (.cons rfl ⟨fun _ => ⟨by decide +kernel, ?_, plain _ _, fun _ _ => rfl⟩, ?_⟩ trivial)
    · decide +kernel
    · rintro dest - file - - content id target - - - dir
        (⟨rfl, present, -⟩ | ⟨start, tarball, member, extracts, stuck, -⟩)
      · exact absurd present (by decide +kernel)
      · exact absurd (stuck.symm.trans (second_unstuck rfl extracts)) (by simp)

end UcrashReport.Symbols
