import UcrashReport.Decoder.PoolChanges

/-! # What a failed call leaves behind

A call that ends in an error has worked inside the directory of its pair only, whatever the tarball
holds: above that directory it may have made directories, beside it nothing changes. The tree of the
pair itself survives unless it was stale, in which case it is dropped before the new one is fetched.
Trees that lie in one another are left to the laws about where a pair leads.
-/

namespace UcrashReport.Symbols

open Rust Rust.Text BuildId

/-- A tree that a call would find: its `debug/vmlinux` exists. -/
def Usable (tree : FileTree Bytes) (dir : Location) : Prop :=
  tree.pathExists (vmlinuxOf dir) = true

/-- Everything that stands below `debug` of a tree stands there unchanged. -/
def Kept (tree tree' : FileTree Bytes) (dir : Location) : Prop :=
  ∀ loc, dir ++ ["debug".toList] <+: loc → tree.lookup loc ≠ none →
    tree'.lookup loc = tree.lookup loc

/-- Beside the directory of a path nothing is changed that was there. -/
def ChangesOnlyBelow (dest : Location) (tree tree' : FileTree Bytes) : Prop :=
  ∀ loc, (∀ root, tree.IsRoot dest root → ¬ root <+: loc) → tree.lookup loc ≠ none →
    tree'.lookup loc = tree.lookup loc

/-- What neither contains the directory nor lies in it is kept. -/
theorem ChangesOnlyBelow.kept {dest : Location} {tree tree' : FileTree Bytes}
    (changes : ChangesOnlyBelow dest tree tree') {dir : Location}
    (apart : ∀ root, tree.IsRoot dest root → ¬ root <+: dir ∧ ¬ dir ++ ["debug".toList] <+: root) :
    Kept tree tree' dir := by
  intro loc below present
  refine changes loc (fun root isRoot inside => ?_) present
  obtain ⟨notInside, notAround⟩ := apart root isRoot
  rcases List.prefix_or_prefix_of_prefix below inside with around | beneath
  · exact notAround around
  · rcases List.prefix_concat_iff.mp beneath with same | above
    · exact notAround (same ▸ List.prefix_rfl)
    · exact notInside above

namespace SymbolPool

variable (pool : SymbolPool)

/-- A fetch begins with what is there, or without what stands in the place of the tree. -/
theorem start_of_fetchTree {formats : Formats} {version target : Text} {expectedBuildid : Option Text}
    {tree start : FileTree Bytes}
    (begins : pool.fetchTree formats version target expectedBuildid tree = some start) :
    start = tree ∨
      ∃ root, tree.place (pool.treeOf version target) = some root ∧ start = tree.prune root := by
  unfold fetchTree at begins
  dsimp only at begins
  split_ifs at begins
  · obtain rfl := Option.some.inj begins
    cases removed : tree.removeDirAll (pool.treeOf version target) with
    | none => exact .inl rfl
    | some tree' =>
      obtain ⟨root, placed, -, rfl⟩ := FileTree.removeDirAll_eq_some removed
      exact .inr ⟨root, placed, rfl⟩
  · obtain rfl := Option.some.inj begins
    exact .inl rfl

theorem changesOnlyBelow_fetchTree {formats : Formats} {version target : Text}
    {expectedBuildid : Option Text} {tree start : FileTree Bytes}
    (begins : pool.fetchTree formats version target expectedBuildid tree = some start) :
    ChangesOnlyBelow (pool.treeOf version target) tree start := by
  intro loc beside _
  rcases pool.start_of_fetchTree begins with rfl | ⟨root, placed, rfl⟩
  · rfl
  · rw [FileTree.lookup_prune, if_neg fun both => beside root (.inl placed) both.2]

/-- A fetch that ends while it extracts has worked in the directory of the pair. -/
theorem changesOnlyBelow_extraction {formats : Formats} (tar : Unpacks formats.unpackIn)
    {outside : Outside} {version target : Text} {expectedBuildid : Option Text} {data : Bytes}
    {tree start left : FileTree Bytes} {whole : Bool}
    (outright : tree.Outright (pool.treeOf version target))
    (begins : pool.fetchTree formats version target expectedBuildid tree = some start)
    (extracted : extractTarball formats outside data (pool.treeOf version target) start =
      (left, whole)) : ChangesOnlyBelow (pool.treeOf version target) tree left := by
  intro loc beside present
  have dropped := pool.changesOnlyBelow_fetchTree begins loc beside present
  rw [lookup_extractTarball_outside tar extracted (fun root leads => ?_) (dropped ▸ present), dropped]
  rcases pool.start_of_fetchTree begins with rfl | ⟨place, placed, rfl⟩
  · exact ⟨outright root (.inr leads), beside root (.inr leads)⟩
  · have same : root = place :=
      Option.some.inj (leads.symm.trans (outright place (.inl placed)))
    subst same
    refine ⟨?_, beside root (.inl placed)⟩
    rw [FileTree.prune_congr (fun query outside => ?_)]
    · exact leads
    · rw [FileTree.lookup_prune, if_neg fun both => outside both.2]

/-- A failed call has worked below the directory of its pair. -/
theorem changesOnlyBelow_of_error {formats : Formats} (tar : Unpacks formats.unpackIn)
    {outside : Outside} {version target : Text} {expectedBuildid : Option Text}
    {tree tree' : FileTree Bytes} {e : Failure}
    (outright : tree.Outright (pool.treeOf version target))
    (outcome : pool.Ensured formats outside version target expectedBuildid tree (.error e) tree') :
    ChangesOnlyBelow (pool.treeOf version target) tree tree' := by
  cases outcome with
  | refused => exact fun _ _ _ => rfl
  | unfetched begins => exact pool.changesOnlyBelow_fetchTree begins
  | unextracted begins _ extracted =>
    exact pool.changesOnlyBelow_extraction tar outright begins extracted
  | noKernel begins _ extracted =>
    exact pool.changesOnlyBelow_extraction tar outright begins extracted

/-- A usable tree of the pair that is not stale is served or, when the pair is refused, left. -/
theorem unchanged_of_error {formats : Formats} {outside : Outside} {version target : Text}
    {expectedBuildid : Option Text} {tree tree' : FileTree Bytes} {e : Failure}
    (usable : Usable tree (pool.treeOf version target))
    (fits : isStale formats tree (pool.treeOf version target) expectedBuildid = false)
    (outcome : pool.Ensured formats outside version target expectedBuildid tree (.error e) tree') :
    tree' = tree := by
  have noFetch : ∀ start,
      pool.fetchTree formats version target expectedBuildid tree ≠ some start := by
    intro start begins
    unfold fetchTree at begins
    dsimp only at begins
    rw [if_pos (show tree.pathExists _ = true from usable), fits] at begins
    simp at begins
  cases outcome with
  | refused => rfl
  | unfetched begins => exact absurd begins (noFetch _)
  | unextracted begins => exact absurd begins (noFetch _)
  | noKernel begins => exact absurd begins (noFetch _)

/-- After an error, every file beside the directory of the pair is as before; every usable tree that
neither lies in that directory nor contains it is kept, and still usable if no link is on the way to
its kernel; and so is the usable tree of the pair itself unless it was stale. The path of the directory
may lead over links, but not through the directory itself. -/
theorem kept_of_ensureKernel_error {formats : Formats} (tar : Unpacks formats.unpackIn)
    (outside : Outside) (version target : Text) (expectedBuildid : Option Text)
    {tree : FileTree Bytes} {e : Failure} (outright : tree.Outright (pool.treeOf version target))
    (failed : (pool.ensureKernel formats outside version target expectedBuildid tree).1 =
      .error e) :
    let dest := pool.treeOf version target
    let tree' := (pool.ensureKernel formats outside version target expectedBuildid tree).2
    (∀ loc content, (∀ root, tree.IsRoot dest root → ¬ root <+: loc) →
        fileAt tree loc = some content → fileAt tree' loc = some content) ∧
      (∀ dir, Usable tree dir →
        (∀ root, tree.IsRoot dest root → ¬ root <+: dir ∧ ¬ dir ++ ["debug".toList] <+: root) →
        Kept tree tree' dir ∧ (tree.LinkFree (vmlinuxOf dir) → Usable tree' dir)) ∧
      (Usable tree dest → isStale formats tree dest expectedBuildid = false →
        Kept tree tree' dest ∧ Usable tree' dest) := by
  have outcome := pool.ensured formats outside version target expectedBuildid tree
  rw [failed] at outcome
  have changes := pool.changesOnlyBelow_of_error tar outright outcome
  refine ⟨?_, ?_, ?_⟩
  · intro loc content beside there
    have present := fileAt_eq_some.mp there
    rw [fileAt_congr (changes loc beside (by rw [present]; simp)), there]
  · intro dir usable apart
    have kept := changes.kept apart
    refine ⟨kept, fun kernelFree => ?_⟩
    have isKernel : dir ++ ["debug".toList] <+: vmlinuxOf dir :=
      ⟨["vmlinux".toList], by simp [vmlinuxOf]⟩
    rw [Usable, FileTree.pathExists, FileTree.stat_of_linkFree kernelFree] at usable
    obtain ⟨node, there⟩ := Option.isSome_iff_exists.mp usable
    have stays := (kept _ isKernel (by simp [there])).trans there
    have free' := FileTree.linkFree_of_lookup stays fun linked same =>
      kernelFree.noLink linked (same ▸ there)
    rw [Usable, FileTree.pathExists, FileTree.stat_of_linkFree free', stays, Option.isSome_some]
  · intro usable fits
    rw [pool.unchanged_of_error usable fits outcome]
    exact ⟨fun _ _ _ => rfl, usable⟩

end SymbolPool

/-! ## A stale tree and an unreachable source -/

/-- Nothing can be fetched. -/
def unreachable : Outside where
  now := 1751712000
  localSize _ := none
  localFile _ := none
  get _ := none
  stopAfter := none
  listing names := names
  listing_perm _ := .refl _

def releasePool : SymbolPool where
  dir := ["symbols".toList]
  releaseUrl := "https://downloads.openwrt.org/{version}/{target}/kernel-debug.tar.zst".toList
  snapshotUrl := []

/-- Trees of two targets of one release, with different kernels. -/
def releaseTrees : FileTree Bytes :=
  let filogic := releasePool.treeOf "25.12.5".toList "mediatek/filogic".toList
  let generic := releasePool.treeOf "25.12.5".toList "ath79/generic".toList
  let made := (FileTree.empty.createDirAll (filogic ++ ["debug".toList])).bind fun tree =>
    (tree.write (vmlinuxOf filogic) [0xab, 0xcd]).bind fun tree =>
      (tree.createDirAll (generic ++ ["debug".toList])).bind fun tree =>
        tree.write (vmlinuxOf generic) [0x12, 0x34]
  made.getD .empty

/-- A report with another build-id drops the tree of a release when the source is away. -/
theorem staleTree_lost :
    let dest := releasePool.treeOf "25.12.5".toList "mediatek/filogic".toList
    let call := releasePool.ensureKernel plainFormats unreachable "25.12.5".toList
      "mediatek/filogic".toList (some "ffff".toList) releaseTrees
    call.1 = .error .external ∧ Usable releaseTrees dest ∧ ¬ Kept releaseTrees call.2 dest := by
  refine ⟨by rfl, by unfold Usable; decide +kernel, fun kept => ?_⟩
  have same := kept
    (vmlinuxOf (releasePool.treeOf "25.12.5".toList "mediatek/filogic".toList))
    (by decide +kernel) (by decide +kernel)
  revert same
  decide +kernel

/-- The tree of the other target is still there. -/
theorem otherTree_kept :
    let tree' := (releasePool.ensureKernel plainFormats unreachable "25.12.5".toList
      "mediatek/filogic".toList (some "ffff".toList) releaseTrees).2
    let generic := releasePool.treeOf "25.12.5".toList "ath79/generic".toList
    Kept releaseTrees tree' generic ∧ Usable tree' generic := by
  have free : releaseTrees.LinkFree
      (releasePool.treeOf "25.12.5".toList "mediatek/filogic".toList) :=
    FileTree.linkFree_of_isDir (by decide +kernel)
  have genericFree : releaseTrees.LinkFree
      (vmlinuxOf (releasePool.treeOf "25.12.5".toList "ath79/generic".toList)) :=
    @FileTree.linkFree_of_isFile _ _ _ [0x12, 0x34] (by decide +kernel)
  have tar : Unpacks plainFormats.unpackIn := unpacks_unpackPlain
  obtain ⟨-, others, -⟩ := releasePool.kept_of_ensureKernel_error tar unreachable "25.12.5".toList
    "mediatek/filogic".toList (some "ffff".toList) free.outright rfl
  obtain ⟨kept, usable⟩ := others (releasePool.treeOf "25.12.5".toList "ath79/generic".toList)
    (by unfold Usable; decide +kernel) (fun root isRoot => by
      rw [free.eq_of_isRoot isRoot]
      decide +kernel)
  exact ⟨kept, usable genericFree⟩

end UcrashReport.Symbols
