import UcrashReport.Decoder.Symbolizer
import UcrashReport.Soundness.FailedFetch

/-! # Symbols of the reporting kernel

A report with a build-id is annotated only from a tree whose kernel has this build-id. The pool and
the symbolizer decide about a kernel apart from one another. They agree on every kernel that has a
build-id and loads; a kernel without a build-id is served from the cache by the one and discarded by
the other.
-/

namespace UcrashReport.Symbols

open Rust Rust.Text BuildId

/-- The kernel of a tree has the build-id, up to case. -/
def MatchesKernel (formats : DebugFormats) (tree : FileTree Bytes) (dest : Location)
    (buildid : Text) : Prop :=
  ∃ got, fileBuildId formats.toFormats tree (vmlinuxOf dest) = some got ∧
    eqIgnoreAsciiCase got buildid = true

namespace Symbolizer

variable {formats : DebugFormats} {tree : FileTree Bytes}

theorem matchesKernel_of_haveSymbols {symbolDir : Option Location} {buildid : Text}
    (has : (new formats tree symbolDir (some buildid)).haveSymbols = true) :
    ∃ dest, symbolDir = some dest ∧ MatchesKernel formats tree dest buildid := by
  cases symbolDir with
  | none => simp [new, haveSymbols] at has
  | some dest => exact ⟨dest, rfl, (haveSymbols_new.mp has).2 buildid rfl⟩

end Symbolizer

namespace SymbolPool

variable (pool : SymbolPool) (formats : DebugFormats) (outside : Outside)
  (version target : Text)

/-! ## Which tree annotates -/

/-- The call for a report with the build-id returns a tree with this build-id. -/
def Obtains (buildid : Text) (tree : FileTree Bytes) (dest : Location) : Prop :=
  let call := pool.ensureKernel formats.toFormats outside version target (some buildid) tree
  call.1 = .ok dest ∧ MatchesKernel formats call.2 dest buildid

/-- The locations in the files of one tree. -/
def treeResolver (tree : FileTree Bytes) (dest : Location) : Annotate.Resolver :=
  (Symbolizer.new formats tree (some dest) none).resolver formats tree

/-- A symbolizer with symbols resolves in its tree, whatever was expected of the kernel. -/
theorem resolver_eq_treeResolver {tree : FileTree Bytes} {dest : Location}
    {kernelBuildid : Option Text}
    (has : (Symbolizer.new formats tree (some dest) kernelBuildid).haveSymbols = true) :
    (Symbolizer.new formats tree (some dest) kernelBuildid).resolver formats tree =
      treeResolver formats tree dest := by
  have same : (Symbolizer.new formats tree (some dest) kernelBuildid).vmlinux =
      (Symbolizer.new formats tree (some dest) none).vmlinux := by
    obtain ⟨kept, keeps⟩ := Option.isSome_iff_exists.mp has
    obtain ⟨bin, loads, keeps'⟩ := Option.bind_eq_some_iff.mp keeps
    rw [Option.bind_some] at loads
    rw [keeps, Symbolizer.discardMismatch_eq keeps']
    simp [Symbolizer.new, loads, Symbolizer.discardMismatch]
  unfold treeResolver Symbolizer.resolver
  rw [same]
  rfl

/-- Where the text is changed, the call has returned a tree with the build-id of the report, and
every location comes from the files of this tree; without such a tree the text goes on as it is. -/
theorem symbolized_by_matching_tree (buildid : Text) (tree : FileTree Bytes) (text : Text) :
    let decoded := pool.symbolize formats outside version target (some buildid) tree text
    let left := (pool.ensureKernel formats.toFormats outside version target (some buildid) tree).2
    (decoded ≠ text →
        ∃ dest, pool.Obtains formats outside version target buildid tree dest ∧
          decoded = Annotate.annotate (treeResolver formats left dest) text) ∧
      ((¬ ∃ dest, pool.Obtains formats outside version target buildid tree dest) →
        decoded = text) := by
  have remembers := pool.symbolizer_remembers formats outside version target (some buildid) tree
  unfold symbolize symbolizer at *
  dsimp only at *
  cases called : pool.ensureKernel formats.toFormats outside version target (some buildid) tree with
  | mk answer left =>
    simp only [called] at remembers ⊢
    by_cases has : (Symbolizer.new formats left answer.toOption (some buildid)).haveSymbols = true
    · obtain ⟨dest, returned, isMatch⟩ := Symbolizer.matchesKernel_of_haveSymbols has
      have isOk : answer = .ok dest := by
        cases answer with
        | error e => simp [Except.toOption] at returned
        | ok other => exact congrArg Except.ok (Option.some.inj returned)
      have obtains : pool.Obtains formats outside version target buildid tree dest := by
        unfold Obtains
        rw [called]
        exact ⟨isOk, isMatch⟩
      refine ⟨fun _ => ⟨dest, obtains, ?_⟩, fun without => absurd ⟨dest, obtains⟩ without⟩
      rw [returned] at has remembers ⊢
      rw [if_pos has, Symbolizer.annotate_eq remembers, resolver_eq_treeResolver formats has]
    · rw [if_neg has]
      exact ⟨fun changed => absurd rfl changed, fun _ => rfl⟩

/-! ## Which kernels are served and kept -/

/-- The tree is served from the cache: whatever the source does, the call returns it. -/
def ServesCached (expectedBuildid : Option Text) (tree : FileTree Bytes) : Prop :=
  ∀ outside, (pool.ensureKernel formats.toFormats outside version target expectedBuildid tree).1 =
    .ok (pool.treeOf version target)

/-- The symbolizer over the tree of the pair keeps its kernel. -/
def KeepsKernel (expectedBuildid : Option Text) (tree : FileTree Bytes) : Prop :=
  (Symbolizer.new formats tree (some (pool.treeOf version target)) expectedBuildid).haveSymbols =
    true

/-- The tree is dropped and fetched again. -/
def Refetches (expectedBuildid : Option Text) (tree : FileTree Bytes) : Prop :=
  ∀ outside, pool.ensureKernel formats.toFormats outside version target expectedBuildid tree =
    pool.fetchKernel formats.toFormats outside version target
      (tree.orUnchanged (tree.removeDirAll (pool.treeOf version target)))

/-- The pair is accepted and has a tree. -/
def Cached (tree : FileTree Bytes) : Prop :=
  rejects version target = false ∧
    tree.pathExists (vmlinuxOf (pool.treeOf version target)) = true

/-- A cached tree is served only when its kernel is kept, and fetched again when it is not. -/
def Agree (expectedBuildid : Option Text) (tree : FileTree Bytes) : Prop :=
  pool.Cached version target tree →
    (pool.ServesCached formats version target expectedBuildid tree →
        pool.KeepsKernel formats version target expectedBuildid tree) ∧
      (¬ pool.KeepsKernel formats version target expectedBuildid tree →
        pool.Refetches formats version target expectedBuildid tree)

/-- The kernel has a build-id when one is expected, and loads unless the two differ. -/
def Readable (expectedBuildid : Option Text) (tree : FileTree Bytes) : Prop :=
  let vmlinux := vmlinuxOf (pool.treeOf version target)
  let loads := (Binary.load formats tree vmlinux).isSome = true
  match expectedBuildid with
  | none => loads
  | some expected =>
    ∃ got, fileBuildId formats.toFormats tree vmlinux = some got ∧
      (eqIgnoreAsciiCase got expected = true → loads)

variable {pool} {formats} {version target} {expectedBuildid : Option Text} {tree : FileTree Bytes}

theorem refetches_of_isStale (cached : pool.Cached version target tree)
    (stale : isStale formats.toFormats tree (pool.treeOf version target) expectedBuildid = true) :
    pool.Refetches formats version target expectedBuildid tree := by
  intro outside
  simp [ensureKernel, cached.1, cached.2, stale]

theorem servesCached_of_fits (cached : pool.Cached version target tree)
    (fits : isStale formats.toFormats tree (pool.treeOf version target) expectedBuildid = false) :
    pool.ServesCached formats version target expectedBuildid tree := by
  intro outside
  simp [ensureKernel, cached.1, cached.2, fits]

theorem download_unreachable (url : Text) : ∃ e, download unreachable url = .error e := by
  unfold download
  cases "file://".toList.isPrefixOf? url with
  | none => exact ⟨_, rfl⟩
  | some path => exact ⟨_, rfl⟩

theorem fetchKernel_unreachable (pool : SymbolPool) (formats : Formats) (version target : Text)
    (tree : FileTree Bytes) :
    ∃ e, (pool.fetchKernel formats unreachable version target tree).1 = .error e := by
  obtain ⟨e, failed⟩ := download_unreachable (pool.urlOf version target)
  refine ⟨e, ?_⟩
  unfold fetchKernel fetchTarball
  simp only [failed]

/-- A cached tree is served from the cache exactly when it is not stale. -/
theorem servesCached_iff (cached : pool.Cached version target tree) :
    pool.ServesCached formats version target expectedBuildid tree ↔
      isStale formats.toFormats tree (pool.treeOf version target) expectedBuildid = false := by
  constructor
  · intro serves
    by_contra stale
    rw [Bool.not_eq_false] at stale
    obtain ⟨e, failed⟩ := fetchKernel_unreachable pool formats.toFormats version target
      (tree.orUnchanged (tree.removeDirAll (pool.treeOf version target)))
    have served := serves unreachable
    rw [refetches_of_isStale cached stale unreachable, failed] at served
    contradiction
  · exact servesCached_of_fits cached

theorem keepsKernel_iff :
    pool.KeepsKernel formats version target expectedBuildid tree ↔
      (Binary.load formats tree (vmlinuxOf (pool.treeOf version target))).isSome = true ∧
        ∀ expected, expectedBuildid = some expected →
          MatchesKernel formats tree (pool.treeOf version target) expected :=
  Symbolizer.haveSymbols_new

/-- Both decide alike when every fresh kernel is kept. -/
theorem agree_iff_fresh_kept (cached : pool.Cached version target tree) :
    pool.Agree formats version target expectedBuildid tree ↔
      (isStale formats.toFormats tree (pool.treeOf version target) expectedBuildid = false →
        pool.KeepsKernel formats version target expectedBuildid tree) := by
  constructor
  · intro agree fits
    exact (agree cached).1 (servesCached_of_fits cached fits)
  · intro fresh _
    refine ⟨fun serves => fresh ((servesCached_iff cached).mp serves), fun drops => ?_⟩
    apply refetches_of_isStale cached
    by_contra fits
    exact drops (fresh (by simpa using fits))

theorem readable_iff_fresh_kept :
    pool.Readable formats version target expectedBuildid tree ↔
      (isStale formats.toFormats tree (pool.treeOf version target) expectedBuildid = false →
        pool.KeepsKernel formats version target expectedBuildid tree) := by
  unfold Readable isStale
  rw [keepsKernel_iff]
  unfold MatchesKernel
  cases expectedBuildid with
  | none => simp
  | some expected =>
    cases isGot : fileBuildId formats.toFormats tree (vmlinuxOf (pool.treeOf version target)) with
    | none => simp [isGot]
    | some got =>
      cases same : eqIgnoreAsciiCase got expected with
      | false => simp [isGot, same]
      | true => simp [isGot, same]

variable (pool) (formats) (version target) (expectedBuildid) (tree)

/-- The pool and the symbolizer agree about a cached tree exactly when its kernel is readable. -/
theorem agree_iff :
    pool.Agree formats version target expectedBuildid tree ↔
      (pool.Cached version target tree →
        pool.Readable formats version target expectedBuildid tree) := by
  by_cases cached : pool.Cached version target tree
  · rw [agree_iff_fresh_kept cached, ← readable_iff_fresh_kept]
    exact ⟨fun readable _ => readable, fun readable => readable cached⟩
  · exact ⟨fun _ isCached => absurd isCached cached, fun _ isCached => absurd isCached cached⟩

end SymbolPool

/-! ## A kernel without a build-id -/

/-- Every file is a kernel with the function `foo`; a file that begins with zero has no note, and
the other files are their own notes. -/
def parseKernel (data : Bytes) : Option Elf :=
  let foo : ElfSymbol := ⟨some "foo".toList, 0x1000, true⟩
  if data.head? = some 0 then some ⟨none, [foo]⟩ else some ⟨some data, [foo]⟩

def debugFormats : DebugFormats where
  toFormats := { plainFormats with buildIdNote := fun data => (parseKernel data).bind Elf.buildId }
  parse := parseKernel
  loader _ _ := some fun addr =>
    if addr = 0x1010 then
      some ⟨some "/build_dir/target-aarch64/linux-6.12.94/kernel/foo.c".toList, some 42⟩
    else none
  buildIdNote_eq _ := rfl

/-- A release with one tree and this kernel. -/
def kernelTree (kernel : Bytes) : FileTree Bytes :=
  let dest := releasePool.treeOf "25.12.5".toList "mediatek/filogic".toList
  let made := (FileTree.empty.createDirAll (dest ++ ["debug".toList])).bind fun tree =>
    tree.write (vmlinuxOf dest) kernel
  made.getD .empty

/-- A cached kernel without a build-id is served again and again, and discarded each time. -/
theorem noteless_kernel_served :
    ¬ releasePool.Agree debugFormats "25.12.5".toList "mediatek/filogic".toList
      (some "abcd".toList) (kernelTree [0]) := by
  intro agree
  have cached : releasePool.Cached "25.12.5".toList "mediatek/filogic".toList (kernelTree [0]) :=
    ⟨by decide +kernel, by decide +kernel⟩
  have keeps := (agree cached).1 (SymbolPool.servesCached_of_fits cached (by decide +kernel))
  revert keeps
  unfold SymbolPool.KeepsKernel
  decide +kernel

/-- A kernel with the build-id of the report, in the other case. -/
theorem matching_kernel_annotates :
    let text := "foo+0x10/0x20\n".toList
    let decoded := releasePool.symbolize debugFormats unreachable "25.12.5".toList
      "mediatek/filogic".toList (some "ABCD".toList) (kernelTree [0xab, 0xcd]) text
    decoded = "foo+0x10/0x20 (kernel/foo.c:42)\n".toList ∧
      ∃ dest, releasePool.Obtains debugFormats unreachable "25.12.5".toList
        "mediatek/filogic".toList "ABCD".toList (kernelTree [0xab, 0xcd]) dest := by
  have annotated : releasePool.symbolize debugFormats unreachable "25.12.5".toList
      "mediatek/filogic".toList (some "ABCD".toList) (kernelTree [0xab, 0xcd])
      "foo+0x10/0x20\n".toList = "foo+0x10/0x20 (kernel/foo.c:42)\n".toList := by
    decide +kernel
  refine ⟨annotated, ?_⟩
  obtain ⟨dest, obtains, -⟩ := (releasePool.symbolized_by_matching_tree debugFormats unreachable
    "25.12.5".toList "mediatek/filogic".toList "ABCD".toList (kernelTree [0xab, 0xcd])
    "foo+0x10/0x20\n".toList).1 (by rw [annotated]; decide)
  exact ⟨dest, obtains⟩

end UcrashReport.Symbols
