import UcrashReport.Decoder.PoolChanges

/-! # Where calls work

A call works in the tree of its pair and in the index. A snapshot that lies two levels deep is where
a collection looks for one; it has no location in common with the index, with another snapshot or
with a tree of another version, and only its own calls change its stamp.
-/

namespace UcrashReport.Symbols

open Rust Rust.Text BuildId

namespace SymbolPool

variable (pool : SymbolPool)

def indexDir : Location := pool.dir ++ [".build-id".toList]

def snapshotDir : Location := pool.dir ++ ["kernel".toList, "SNAPSHOT".toList]

/-- A tree where a collection looks for one. -/
def IsSnapshotTree (dest : Location) : Prop :=
  ∃ target subtarget, dest = pool.snapshotDir ++ [target, subtarget]

/-- A tree beside the snapshots. -/
def IsPinnedTree (dest : Location) : Prop :=
  ∃ version rest, version ≠ "SNAPSHOT".toList ∧ dest = pool.kernelDir ++ version :: rest

/-- A pair whose tree is where the collection expects it. -/
def Collectable (version target : Text) : Prop :=
  if version = "SNAPSHOT".toList then pool.IsSnapshotTree (pool.treeOf version target)
  else pool.IsPinnedTree (pool.treeOf version target)

/-! ## Apart from one another -/

theorem eq_of_prefixes {left right loc : Location} (leftAbove : left <+: loc)
    (rightAbove : right <+: loc) (same : left.length = right.length) : left = right :=
  (List.prefix_of_prefix_length_le leftAbove rightAbove same.le).eq_of_length same

variable {pool}

theorem not_indexDir_prefix {loc : Location} (inKernel : pool.kernelDir <+: loc) :
    ¬ pool.indexDir <+: loc := by
  intro inIndex
  have same := eq_of_prefixes inKernel inIndex (by simp [kernelDir, indexDir])
  rw [kernelDir, indexDir, List.append_cancel_left_eq] at same
  revert same
  decide

theorem not_prefix_indexDir {loc : Location} (inKernel : pool.kernelDir <+: loc)
    (rest : List Text) : ¬ loc <+: pool.indexDir ++ rest := fun above =>
  not_indexDir_prefix (inKernel.trans above) (List.prefix_append ..)

theorem snapshotDir_eq : pool.snapshotDir = pool.kernelDir ++ ["SNAPSHOT".toList] := by
  simp [snapshotDir, kernelDir]

theorem IsSnapshotTree.inKernel {dest : Location} (snapshot : pool.IsSnapshotTree dest) :
    pool.kernelDir <+: dest := by
  obtain ⟨target, subtarget, rfl⟩ := snapshot
  rw [snapshotDir_eq, List.append_assoc]
  exact List.prefix_append ..

theorem IsPinnedTree.inKernel {dest : Location} (pinned : pool.IsPinnedTree dest) :
    pool.kernelDir <+: dest := by
  obtain ⟨version, rest, -, rfl⟩ := pinned
  exact List.prefix_append ..

theorem IsSnapshotTree.length {dest : Location} (snapshot : pool.IsSnapshotTree dest) :
    dest.length = pool.dir.length + 4 := by
  obtain ⟨target, subtarget, rfl⟩ := snapshot
  simp [snapshotDir]

/-- Two snapshots have no location in common. -/
theorem IsSnapshotTree.eq_of_prefixes {left right loc : Location}
    (leftSnapshot : pool.IsSnapshotTree left) (rightSnapshot : pool.IsSnapshotTree right)
    (leftAbove : left <+: loc) (rightAbove : right <+: loc) : left = right :=
  SymbolPool.eq_of_prefixes leftAbove rightAbove
    (leftSnapshot.length.trans rightSnapshot.length.symm)

/-- A pinned tree has no location in common with the snapshots. -/
theorem IsPinnedTree.not_snapshotDir_prefix {dest loc : Location}
    (pinned : pool.IsPinnedTree dest) (inside : dest <+: loc) : ¬ pool.snapshotDir <+: loc := by
  intro snapshot
  obtain ⟨version, rest, other, rfl⟩ := pinned
  have first : pool.kernelDir ++ [version] <+: loc :=
    List.IsPrefix.trans ⟨rest, by simp⟩ inside
  have same := SymbolPool.eq_of_prefixes first snapshot (by simp [snapshotDir_eq])
  rw [snapshotDir_eq, List.append_cancel_left_eq, List.singleton_inj] at same
  exact other same

theorem IsSnapshotTree.snapshotDir_prefix {dest : Location} (snapshot : pool.IsSnapshotTree dest) :
    pool.snapshotDir <+: dest := by
  obtain ⟨target, subtarget, rfl⟩ := snapshot
  exact List.prefix_append ..

/-- Every collectable pair leads inside the kernel directory. -/
theorem Collectable.inKernel {version target : Text} (collectable : pool.Collectable version target) :
    pool.kernelDir <+: pool.treeOf version target := by
  unfold Collectable at collectable
  split_ifs at collectable
  · exact collectable.inKernel
  · exact collectable.inKernel

/-- A snapshot and the tree of a collectable pair are the same or apart. -/
theorem Collectable.eq_of_prefixes {version target : Text} {dir loc : Location}
    (collectable : pool.Collectable version target) (snapshot : pool.IsSnapshotTree dir)
    (inTree : pool.treeOf version target <+: loc) (inDir : dir <+: loc) :
    pool.treeOf version target = dir := by
  unfold Collectable at collectable
  split_ifs at collectable
  · exact collectable.eq_of_prefixes snapshot inTree inDir
  · exact absurd (snapshot.snapshotDir_prefix.trans inDir)
      (collectable.not_snapshotDir_prefix inTree)

end SymbolPool

/-! ## In one tree -/

/-- Every change lies in the tree, but for directories on the way to it; there are no new links, and
nothing but a file is put in place of the stamp. -/
structure WorksBelow (dest : Location) (tree tree' : FileTree Bytes) : Prop where
  beside : ∀ loc, ¬ dest <+: loc →
    tree'.lookup loc = tree.lookup loc ∨
      tree.lookup loc = none ∧ tree'.lookup loc = some .dir ∧ loc <+: dest
  links : ∀ loc target, tree'.lookup loc = some (.link target) →
    tree.lookup loc = some (.link target)
  stamp : tree'.lookup (stampOf dest) = tree.lookup (stampOf dest) ∨
    tree'.lookup (stampOf dest) = none ∨
    ∃ content, tree'.lookup (stampOf dest) = some (.file content)

namespace WorksBelow

variable {dest : Location} {first second third : FileTree Bytes}

theorem refl (tree : FileTree Bytes) : WorksBelow dest tree tree :=
  ⟨fun _ _ => .inl rfl, fun _ _ isLink => isLink, .inl rfl⟩

theorem trans (left : WorksBelow dest first second) (right : WorksBelow dest second third) :
    WorksBelow dest first third where
  beside loc outTree := by
    rcases right.beside loc outTree with same | ⟨absent, isDir, onTheWay⟩
    · rw [same]
      exact left.beside loc outTree
    · rcases left.beside loc outTree with same | ⟨-, made, -⟩
      · exact .inr ⟨same ▸ absent, isDir, onTheWay⟩
      · rw [made] at absent
        contradiction
  links loc target isLink := left.links loc target (right.links loc target isLink)
  stamp := by
    rcases right.stamp with same | gone | isFile
    · rw [same]
      exact left.stamp
    · exact .inr (.inl gone)
    · exact .inr (.inr isFile)

end WorksBelow

theorem worksBelow_removeDirAll {dest : Location} {tree : FileTree Bytes}
    (direct : tree.Direct dest.dropLast) :
    WorksBelow dest tree (tree.orUnchanged (tree.removeDirAll dest)) where
  beside loc outTree :=
    .inl ((lookup_orUnchanged_removeDirAll direct loc).resolve_right fun gone => outTree gone.1)
  links loc target isLink := by
    rcases lookup_orUnchanged_removeDirAll direct loc with same | ⟨-, gone⟩
    · rwa [same] at isLink
    · rw [gone] at isLink
      contradiction
  stamp := (lookup_orUnchanged_removeDirAll direct (stampOf dest)).imp id fun gone => .inl gone.2

theorem worksBelow_createDirAll {dest : Location} {tree made : FileTree Bytes}
    (direct : tree.Direct dest) (making : tree.createDirAll dest = some made) :
    WorksBelow dest tree made := by
  have new := lookup_createDirAll direct making
  refine ⟨fun loc _ => ?_, fun loc target isLink => ?_, ?_⟩
  · rcases new loc with same | ⟨above, absent, isDir⟩
    · exact .inl same
    · exact .inr ⟨absent, isDir, above⟩
  · rcases new loc with same | ⟨-, -, isDir⟩
    · exact same ▸ isLink
    · rw [isDir] at isLink
      simp at isLink
  · rcases new (stampOf dest) with same | ⟨above, -, -⟩
    · exact .inl same
    · exfalso
      have shorter := above.length_le
      rw [stampOf, List.length_append, List.length_singleton] at shorter
      omega

theorem not_stampOf_prefix_memberLocation {dest : Location} {member : Member}
    (accepted : isAccepted member = true) : ¬ stampOf dest <+: memberLocation dest member := by
  intro above
  have same := SymbolPool.eq_of_prefixes above (memberLocation_debug dest accepted)
    (by simp [stampOf])
  rw [stampOf, List.append_cancel_left_eq] at same
  revert same
  decide

theorem worksBelow_unpackIn {formats : Formats} (tar : Unpacks formats.unpackIn) {dest : Location}
    {tree : FileTree Bytes} {member : Member} (accepted : isAccepted member = true)
    (plain : PlainAt tree dest member) :
    WorksBelow dest tree (formats.unpackIn dest tree member).1 := by
  have beside := tar.beside dest tree member plain
  have inside := dest_prefix_memberLocation dest member
  refine ⟨fun loc outTree => ?_, fun loc target => tar.links plain, ?_⟩
  · have different : loc ≠ memberLocation dest member := by
      rintro rfl
      exact outTree inside
    rcases beside loc different with same | ⟨above, absent, isDir⟩
    · exact .inl same
    · exact .inr ⟨absent, isDir,
        (List.prefix_or_prefix_of_prefix above inside).resolve_right outTree⟩
  · have apart : ¬ stampOf dest <+: memberLocation dest member :=
      not_stampOf_prefix_memberLocation accepted
    refine .inl ((beside _ ?_).resolve_right fun made => apart made.1)
    intro same
    exact apart (same ▸ List.prefix_rfl)

theorem worksBelow_unpackMembers {formats : Formats} (tar : Unpacks formats.unpackIn)
    {dest : Location} {tree : FileTree Bytes} {members : List Member}
    (plain : PlainMembers formats dest tree members) :
    WorksBelow dest tree (unpackMembers formats dest tree members).1 := by
  induction members generalizing tree with
  | nil => exact .refl tree
  | cons member rest ih =>
    cases unpacked tar dest tree member rest with
    | passed _ left _ _ touched =>
      rw [left]
      exact ih (plain.next touched fun _ => id)
    | put accepted _ left _ _ touched =>
      have here := plain.plainAt (touched ▸ List.mem_cons_self ..) accepted
      rw [left]
      exact (worksBelow_unpackIn tar accepted here).trans
        (ih (plain.next touched fun _ => tar.linkFree here))
    | failed accepted left _ _ touched =>
      have here := plain.plainAt (touched ▸ List.mem_cons_self ..) accepted
      rw [left]
      exact worksBelow_unpackIn tar accepted here

theorem worksBelow_extractTarball {formats : Formats} (tar : Unpacks formats.unpackIn)
    {outside : Outside} {data : Bytes} {dest : Location} {tree left : FileTree Bytes} {whole : Bool}
    (plain : PlainExtraction formats outside data dest tree)
    (extracted : extractTarball formats outside data dest tree = (left, whole)) :
    WorksBelow dest tree left := by
  rcases extractTarball_eq extracted with ⟨rfl, -, -, -⟩ | ⟨made, making, rfl, same, stuck, -⟩
  · exact .refl _
  · exact (worksBelow_createDirAll plain.direct making).trans
      (worksBelow_unpackMembers tar (plain.members making same stuck))

theorem worksBelow_writeStamp (outside : Outside) {dest : Location} {tree : FileTree Bytes}
    (direct : tree.Direct dest)
    (noLink : ∀ target, tree.lookup (stampOf dest) ≠ some (.link target)) :
    WorksBelow dest tree (SymbolPool.writeStamp outside dest tree) := by
  have new := lookup_writeStamp outside direct noLink
  refine ⟨fun loc outTree => ?_, fun loc target isLink => ?_, ?_⟩
  · refine .inl ((new loc).resolve_right ?_)
    rintro ⟨rfl, -⟩
    exact outTree (List.prefix_append ..)
  · rcases new loc with same | ⟨-, content, -, isFile⟩
    · rwa [same] at isLink
    · rw [isFile] at isLink
      simp at isLink
  · rcases new (stampOf dest) with same | ⟨-, content, -, isFile⟩
    · exact .inl same
    · exact .inr (.inr ⟨content, isFile⟩)

/-! ## In one tree and in the index -/

/-- Every change lies in the tree or in the index, but for directories on the way to them; links are
made in the index only, and nothing but a file is put in place of the stamp. -/
structure WorksIn (pool : SymbolPool) (dest : Location) (tree tree' : FileTree Bytes) : Prop where
  beside : ∀ loc, ¬ dest <+: loc → ¬ pool.indexDir <+: loc →
    tree'.lookup loc = tree.lookup loc ∨
      tree.lookup loc = none ∧ tree'.lookup loc = some .dir ∧
        (loc <+: dest ∨ loc <+: pool.indexDir)
  links : ∀ loc target, tree'.lookup loc = some (.link target) →
    tree.lookup loc = some (.link target) ∨ ∃ id, loc = debugLink pool.dir id
  stamp : tree'.lookup (stampOf dest) = tree.lookup (stampOf dest) ∨
    tree'.lookup (stampOf dest) = none ∨
    ∃ content, tree'.lookup (stampOf dest) = some (.file content)

namespace WorksIn

variable {pool : SymbolPool} {dest : Location} {first second third : FileTree Bytes}

theorem refl (tree : FileTree Bytes) : WorksIn pool dest tree tree :=
  ⟨fun _ _ _ => .inl rfl, fun _ _ isLink => .inl isLink, .inl rfl⟩

theorem trans (left : WorksIn pool dest first second) (right : WorksIn pool dest second third) :
    WorksIn pool dest first third where
  beside loc outTree outIndex := by
    rcases right.beside loc outTree outIndex with same | ⟨absent, isDir, onTheWay⟩
    · rw [same]
      exact left.beside loc outTree outIndex
    · rcases left.beside loc outTree outIndex with same | ⟨-, made, -⟩
      · exact .inr ⟨same ▸ absent, isDir, onTheWay⟩
      · rw [made] at absent
        contradiction
  links loc target isLink := by
    rcases right.links loc target isLink with before | indexed
    · exact left.links loc target before
    · exact .inr indexed
  stamp := by
    rcases right.stamp with same | gone | isFile
    · rw [same]
      exact left.stamp
    · exact .inr (.inl gone)
    · exact .inr (.inr isFile)

end WorksIn

/-- What lies in the tree lies in the tree or in the index. -/
theorem WorksBelow.worksIn {dest : Location} {tree tree' : FileTree Bytes}
    (works : WorksBelow dest tree tree') (pool : SymbolPool) : WorksIn pool dest tree tree' where
  beside loc outTree _ :=
    (works.beside loc outTree).imp id fun made => ⟨made.1, made.2.1, .inl made.2.2⟩
  links loc target isLink := .inl (works.links loc target isLink)
  stamp := works.stamp

/-- There is at most a file in place of the stamp. -/
def StampFree (tree : FileTree Bytes) (dest : Location) : Prop :=
  tree.lookup (stampOf dest) = none ∨
    ∃ content, tree.lookup (stampOf dest) = some (.file content)

theorem StampFree.noLink {tree : FileTree Bytes} {dest : Location} (free : StampFree tree dest)
    (target : Location) : tree.lookup (stampOf dest) ≠ some (.link target) := by
  intro isLink
  rcases free with absent | ⟨content, isFile⟩
  · simp [absent] at isLink
  · simp [isFile] at isLink

theorem WorksIn.stampFree {pool : SymbolPool} {dest : Location} {tree tree' : FileTree Bytes}
    (works : WorksIn pool dest tree tree') (free : StampFree tree dest) : StampFree tree' dest := by
  rcases works.stamp with same | changed
  · unfold StampFree
    rwa [same]
  · exact changed

theorem debugLink_eq (pool : SymbolPool) (id : Text) :
    debugLink pool.dir id = pool.indexDir ++ [id.take 2, id.drop 2 ++ ".debug".toList] := by
  simp [debugLink, SymbolPool.indexDir]

theorem indexDir_append (pool : SymbolPool) (id : Text) :
    pool.dir ++ [".build-id".toList, List.take 2 id] = pool.indexDir ++ [List.take 2 id] := by
  simp [SymbolPool.indexDir]

theorem indexDir_prefix_debugLink (pool : SymbolPool) (id : Text) :
    pool.indexDir <+: debugLink pool.dir id := by
  rw [debugLink_eq]
  exact List.prefix_append ..

/-! ## Links of the index -/

namespace SymbolPool

/-- No link is on the way to the pool, and below it there are no links but those of the index. -/
structure LinksIndexed (pool : SymbolPool) (tree : FileTree Bytes) : Prop where
  root : tree.LinkFree pool.dir
  links : ∀ loc target, pool.dir <+: loc → tree.lookup loc = some (.link target) →
    ∃ id, loc = debugLink pool.dir id

namespace LinksIndexed

variable {pool : SymbolPool} {tree : FileTree Bytes}

theorem linkFree (indexed : LinksIndexed pool tree) {loc : Location} (inPool : pool.dir <+: loc)
    (apart : ∀ id, ¬ debugLink pool.dir id <+: loc) : tree.LinkFree loc := by
  intro above leading target isLink
  rcases List.prefix_or_prefix_of_prefix leading inPool with higher | lower
  · exact indexed.root above higher target isLink
  · obtain ⟨id, rfl⟩ := indexed.links above target lower isLink
    exact apart id leading

/-- There are no links among the kernels. -/
theorem inKernel (indexed : LinksIndexed pool tree) {loc : Location}
    (inKernel : pool.kernelDir <+: loc) : tree.LinkFree loc :=
  indexed.linkFree ((List.prefix_append ..).trans inKernel) fun id above =>
    not_indexDir_prefix inKernel ((indexDir_prefix_debugLink pool id).trans above)

theorem inIndexDir (indexed : LinksIndexed pool tree) (name : Text) :
    tree.LinkFree (pool.dir ++ [".build-id".toList, name]) :=
  indexed.linkFree (List.prefix_append ..) fun id above => by
    have shorter := above.length_le
    simp [debugLink] at shorter

theorem linkFree_of_absent (indexed : LinksIndexed pool tree) {id : Text}
    (absent : tree.lookup (debugLink pool.dir id) = none) :
    tree.LinkFree (debugLink pool.dir id) := by
  have whole : debugLink pool.dir id =
      pool.dir ++ [".build-id".toList, id.take 2] ++ [id.drop 2 ++ ".debug".toList] := by
    simp [debugLink]
  refine .of_noLink (fun above leading strict => ?_) (by simp [absent])
  rw [whole] at leading strict
  exact indexed.inIndexDir _ above ((List.prefix_concat_iff.mp leading).resolve_left strict)

end LinksIndexed

end SymbolPool

theorem WorksIn.linksIndexed {pool : SymbolPool} {dest : Location} {tree tree' : FileTree Bytes}
    (works : WorksIn pool dest tree tree') (indexed : SymbolPool.LinksIndexed pool tree) :
    SymbolPool.LinksIndexed pool tree' where
  root above leading target isLink := by
    rcases works.links above target isLink with before | ⟨id, rfl⟩
    · exact indexed.root above leading target before
    · have shorter := leading.length_le
      simp [debugLink] at shorter
  links loc target inPool isLink :=
    (works.links loc target isLink).elim (indexed.links loc target inPool) id

/-- The index is beside the kernels. -/
theorem lookup_indexFile_of_inKernel {pool : SymbolPool} {loc : Location}
    (inKernel : pool.kernelDir <+: loc) (formats : Formats) (outside : Outside)
    {tree : FileTree Bytes} (indexed : SymbolPool.LinksIndexed pool tree) (file : Location) :
    (indexFile formats outside pool.dir tree file).1.lookup loc = tree.lookup loc := by
  rcases lookup_indexFile formats outside file (fun name => (indexed.inIndexDir name).direct) loc
    with same | ⟨id, ⟨above, -, -⟩ | ⟨here, -⟩⟩
  · exact same
  · rw [indexDir_append] at above
    exact absurd above (SymbolPool.not_prefix_indexDir inKernel _)
  · rw [here] at inKernel
    exact absurd (indexDir_prefix_debugLink pool id) (SymbolPool.not_indexDir_prefix inKernel)

theorem worksIn_indexFile {pool : SymbolPool} {dest : Location} (inKernel : pool.kernelDir <+: dest)
    (formats : Formats) (outside : Outside) {tree : FileTree Bytes}
    (indexed : SymbolPool.LinksIndexed pool tree) (file : Location) :
    WorksIn pool dest tree (indexFile formats outside pool.dir tree file).1 := by
  have new := lookup_indexFile formats outside file fun name => (indexed.inIndexDir name).direct
  refine ⟨fun loc _ outIndex => ?_, fun loc target isLink => ?_, ?_⟩
  · rcases new loc with same | ⟨id, ⟨above, absent, isDir⟩ | ⟨rfl, -⟩⟩
    · exact .inl same
    · rw [indexDir_append] at above
      rcases List.prefix_concat_iff.mp above with rfl | above
      · exact absurd (List.prefix_append ..) outIndex
      · exact .inr ⟨absent, isDir, .inr above⟩
    · exact absurd (indexDir_prefix_debugLink pool id) outIndex
  · rcases new loc with same | ⟨id, ⟨-, -, isDir⟩ | ⟨here, -⟩⟩
    · rw [same] at isLink
      exact .inl isLink
    · rw [isDir] at isLink
      simp at isLink
    · exact .inr ⟨id, here⟩
  · exact .inl (lookup_indexFile_of_inKernel (inKernel.trans (List.prefix_append ..)) formats outside
      indexed file)

theorem worksIn_indexBuildIds {pool : SymbolPool} {dest : Location}
    (inKernel : pool.kernelDir <+: dest) (formats : Formats) (outside : Outside)
    {tree : FileTree Bytes} (indexed : SymbolPool.LinksIndexed pool tree) :
    WorksIn pool dest tree (indexBuildIds formats outside dest pool.dir tree) := by
  unfold indexBuildIds
  exact indexFiles_induction (I := WorksIn pool dest tree)
    (fun middle file soFar => soFar.trans
      (worksIn_indexFile inKernel formats outside (soFar.linksIndexed indexed) file)) _ (.refl tree)

theorem lookup_indexBuildIds_of_inKernel {pool : SymbolPool} {loc : Location}
    (inKernel : pool.kernelDir <+: loc) (formats : Formats) (outside : Outside) (dest : Location)
    {tree : FileTree Bytes} (indexed : SymbolPool.LinksIndexed pool tree) :
    (indexBuildIds formats outside dest pool.dir tree).lookup loc = tree.lookup loc := by
  unfold indexBuildIds
  apply And.left (indexFiles_induction (I := fun tree' => tree'.lookup loc = tree.lookup loc ∧
    SymbolPool.LinksIndexed pool tree') ?_ _ ⟨rfl, indexed⟩)
  intro middle file ⟨soFar, indexed'⟩
  exact ⟨(lookup_indexFile_of_inKernel inKernel formats outside indexed' file).trans soFar,
    (worksIn_indexFile inKernel formats outside indexed' file).linksIndexed indexed'⟩

/-- A stamp can be written where there is a tree and nothing but a file in place of the stamp. -/
theorem lookup_stamp_writeStamp {outside : Outside} {dest : Location} {tree : FileTree Bytes}
    (written : outside.stampWritten = .whole) (isDir : tree.lookup dest = some .dir)
    (free : StampFree tree dest) :
    (SymbolPool.writeStamp outside dest tree).lookup (stampOf dest) =
      some (.file (utf8Encode (decimal outside.now))) := by
  have parent : (stampOf dest).dropLast = dest := by rw [stampOf, List.dropLast_concat]
  have below : stampOf dest ≠ [] := by simp [stampOf]
  obtain ⟨tree', writing⟩ := FileTree.write_of_free (utf8Encode (decimal outside.now))
    (parent.symm ▸ isDir) below free
  have direct : tree.Direct (stampOf dest).dropLast :=
    (FileTree.linkFree_of_isDir (parent.symm ▸ isDir)).direct
  rw [SymbolPool.writeStamp, written, Written.part, Option.bind_some, writing, FileTree.orUnchanged,
    Option.getD_some, FileTree.write_spec direct free.noLink writing, if_pos rfl]

/-! ## Whole calls -/

/-- Something stands at the end of the path, so directories lead there. -/
theorem isDir_of_pathExists_vmlinuxOf {tree : FileTree Bytes} {dest : Location}
    (free : tree.LinkFree (vmlinuxOf dest)) (present : tree.pathExists (vmlinuxOf dest) = true) :
    tree.lookup dest = some .dir := by
  rw [FileTree.pathExists, FileTree.stat_of_linkFree free] at present
  exact tree.lookup_of_prefix (Option.isSome_iff_ne_none.mp present) (List.prefix_append ..)
    (by simp [vmlinuxOf])

namespace SymbolPool

variable {pool : SymbolPool} {formats : Formats}

theorem worksBelow_fetchTree {call : Call} {tree start : FileTree Bytes}
    (direct : tree.Direct (pool.destOf call).dropLast)
    (begins : pool.fetchTree formats call.version call.target call.expectedBuildid tree =
      some start) : WorksBelow (pool.destOf call) tree start := by
  obtain ⟨-, ⟨rfl, -⟩ | ⟨rfl, -⟩⟩ := fetchTree_cases begins
  · exact .refl _
  · exact worksBelow_removeDirAll direct

/-- What a call extracts, if it extracts anything, are directories and regular files. -/
def ExtractsPlain (pool : SymbolPool) (formats : Formats) (tree : FileTree Bytes) (call : Call) :
    Prop :=
  ∀ start tarball, pool.extraction formats call tree = some (start, tarball) →
    PlainTarball formats tarball

theorem LinksIndexed.extraction (tar : Unpacks formats.unpackIn) {call : Call}
    {tree : FileTree Bytes} (indexed : LinksIndexed pool tree)
    (inKernel : pool.kernelDir <+: pool.destOf call) {tarball : Bytes}
    (plain : PlainTarball formats tarball) :
    PlainExtraction formats call.outside tarball (pool.destOf call) tree :=
  plain.extraction tar call.outside (indexed.inKernel inKernel).direct fun _ =>
    indexed.inKernel (inKernel.trans (List.prefix_append ..))

/-- Whatever a call comes to, it works in the tree of its pair; when it returns the tree, the tree
has its stamp, if it could be written and nothing else is in its place. -/
theorem worksIn_ensureKernel (tar : Unpacks formats.unpackIn) {call : Call} {tree : FileTree Bytes}
    (inKernel : pool.kernelDir <+: pool.destOf call) (indexed : LinksIndexed pool tree)
    (plain : pool.ExtractsPlain formats tree call) :
    let result := pool.ensureKernel formats call.outside call.version call.target
      call.expectedBuildid tree
    WorksIn pool (pool.destOf call) tree result.2 ∧ ∀ dest, result.1 = .ok dest →
      dest = pool.destOf call ∧ (call.outside.stampWritten = .whole → StampFree tree dest →
        result.2.lookup (stampOf dest) = some (.file (utf8Encode (decimal call.outside.now)))) := by
  intro result
  have outcome := pool.ensured formats call.outside call.version call.target
    call.expectedBuildid tree
  rw [show pool.ensureKernel formats call.outside call.version call.target call.expectedBuildid
    tree = result from rfl] at outcome
  clear_value result
  obtain ⟨answer, tree'⟩ := result
  have free := indexed.inKernel inKernel
  have parentFree := free.of_leading (List.dropLast_prefix (pool.destOf call))
  have stampFree : ∀ middle, LinksIndexed pool middle →
      ∀ target, middle.lookup (stampOf (pool.destOf call)) ≠ some (.link target) :=
    fun middle indexed' => (indexed'.inKernel (inKernel.trans (List.prefix_append ..))).noLink
  have vmlinuxFree : ∀ middle, LinksIndexed pool middle →
      middle.LinkFree (vmlinuxOf (pool.destOf call)) :=
    fun middle indexed' => indexed'.inKernel (inKernel.trans (List.prefix_append ..))
  -- What a fetch leaves before the index is written.
  have extracting : ∀ {start left : FileTree Bytes} {tarball : Bytes} {whole : Bool},
      pool.fetchTree formats call.version call.target call.expectedBuildid tree = some start →
      pool.fetchTarball formats call.outside call.version call.target = .ok tarball →
      extractTarball formats call.outside tarball (pool.destOf call) start = (left, whole) →
      WorksIn pool (pool.destOf call) tree left := by
    intro start left tarball whole begins fetched extracted
    have first := worksBelow_fetchTree parentFree.direct begins
    have extraction := LinksIndexed.extraction tar ((first.worksIn pool).linksIndexed indexed)
      inKernel (plain start tarball (extraction_eq_some begins fetched))
    exact (first.trans (worksBelow_extractTarball tar extraction extracted)).worksIn pool
  cases outcome with
  | refused => exact ⟨.refl _, fun _ failed => by contradiction⟩
  | served accepted present fits =>
    refine ⟨(worksBelow_writeStamp call.outside free.direct (stampFree tree indexed)).worksIn pool,
      ?_⟩
    rintro dest ⟨⟩
    exact ⟨rfl, fun written => lookup_stamp_writeStamp written
      (isDir_of_pathExists_vmlinuxOf (vmlinuxFree tree indexed) present)⟩
  | unfetched begins =>
    exact ⟨(worksBelow_fetchTree parentFree.direct begins).worksIn pool,
      fun _ failed => by contradiction⟩
  | unextracted begins fetched extracted =>
    exact ⟨extracting begins fetched extracted, fun _ failed => by contradiction⟩
  | noKernel begins fetched extracted =>
    exact ⟨extracting begins fetched extracted, fun _ failed => by contradiction⟩
  | complete begins fetched extracted present =>
    have left := extracting begins fetched extracted
    have leftIndexed := left.linksIndexed indexed
    have works := left.trans (worksIn_indexBuildIds inKernel formats call.outside leftIndexed)
    have worksIndexed := works.linksIndexed indexed
    have stamping := worksBelow_writeStamp call.outside (worksIndexed.inKernel inKernel).direct
      (stampFree _ worksIndexed)
    refine ⟨works.trans (stamping.worksIn pool), ?_⟩
    rintro dest ⟨⟩
    have kept := lookup_indexBuildIds_of_inKernel inKernel formats call.outside (pool.destOf call)
      leftIndexed
    exact ⟨rfl, fun written stampless => lookup_stamp_writeStamp written
      (kept.trans (isDir_of_pathExists_vmlinuxOf (vmlinuxFree _ leftIndexed) present))
      (works.stampFree stampless)⟩

end SymbolPool

/-! ## Other snapshots -/

/-- A call leaves the stamps of other snapshots alone. -/
theorem WorksIn.stamp_of_other {pool : SymbolPool} {version target : Text} {dir : Location}
    {tree tree' : FileTree Bytes} (works : WorksIn pool (pool.treeOf version target) tree tree')
    (collectable : pool.Collectable version target) (snapshot : pool.IsSnapshotTree dir)
    (other : pool.treeOf version target ≠ dir) :
    tree'.lookup (stampOf dir) = tree.lookup (stampOf dir) := by
  have inside : dir <+: stampOf dir := List.prefix_append ..
  have stampIn : pool.kernelDir <+: stampOf dir := snapshot.inKernel.trans inside
  rcases works.beside (stampOf dir)
    (fun above => other (collectable.eq_of_prefixes snapshot above inside))
    (SymbolPool.not_indexDir_prefix stampIn) with same | ⟨-, -, toTree | toIndex⟩
  · exact same
  · exact absurd (collectable.eq_of_prefixes snapshot List.prefix_rfl (inside.trans toTree)) other
  · exact absurd (toIndex.trans (List.prefix_append _ [])) (SymbolPool.not_prefix_indexDir stampIn [])

end UcrashReport.Symbols
