import UcrashReport.Decoder.Collections

/-! # The shape of the index

Below the pool the only links are those of the index, and they lead into the kernel directory; the
index has directories on two levels and links below them. In this shape every write of the index
succeeds: what is indexed is covered from then on, by the link of its build-id to something that
exists, and nothing that was covered is lost.
-/

namespace UcrashReport.Symbols

open Rust Rust.Text BuildId

structure IndexShape (pool : SymbolPool) (tree : FileTree Bytes) : Prop where
  root : tree.LinkFree pool.dir
  links : ∀ loc target, pool.dir <+: loc → tree.lookup loc = some (.link target) →
    ∃ id, loc = debugLink pool.dir id ∧ pool.kernelDir <+: target
  dirs : ∀ loc, pool.indexDir <+: loc → tree.lookup loc = some .dir →
    loc.length ≤ pool.dir.length + 2
  files : ∀ loc content, pool.indexDir <+: loc → tree.lookup loc ≠ some (.file content)

/-- The link of a build-id leads to something that exists. -/
def Covers (pool : SymbolPool) (tree : FileTree Bytes) (id : Text) : Prop :=
  ∃ target, tree.lookup (debugLink pool.dir id) = some (.link target) ∧ tree.lookup target ≠ none

theorem length_debugLink (pool : SymbolPool) (id : Text) :
    (debugLink pool.dir id).length = pool.dir.length + 3 := by
  simp [debugLink]

theorem dir_prefix_debugLink (pool : SymbolPool) (id : Text) : pool.dir <+: debugLink pool.dir id :=
  List.prefix_append ..

theorem SymbolPool.dir_prefix_of_inKernel {pool : SymbolPool} {loc : Location}
    (inKernel : pool.kernelDir <+: loc) : pool.dir <+: loc := (List.prefix_append ..).trans inKernel

namespace IndexShape

variable {pool : SymbolPool} {tree tree' : FileTree Bytes}

theorem linksIndexed (shape : IndexShape pool tree) : SymbolPool.LinksIndexed pool tree where
  root := shape.root
  links loc target inPool isLink := by
    obtain ⟨id, here, -⟩ := shape.links loc target inPool isLink
    exact ⟨id, here⟩

theorem targetInKernel (shape : IndexShape pool tree) {id : Text} {target : Location}
    (isLink : tree.lookup (debugLink pool.dir id) = some (.link target)) :
    pool.kernelDir <+: target := by
  obtain ⟨-, -, inKernel⟩ := shape.links _ target (dir_prefix_debugLink pool id) isLink
  exact inKernel

/-- What only removes keeps the shape. -/
theorem shrinks (shape : IndexShape pool tree) (shrinks : Shrinks tree tree') :
    IndexShape pool tree' where
  root := shrinks.linkFree shape.root
  links loc target inPool isLink := shape.links loc target inPool (shrinks.lookup_eq_some isLink)
  dirs loc inIndex isDir := shape.dirs loc inIndex (shrinks.lookup_eq_some isDir)
  files loc content inIndex isFile :=
    shape.files loc content inIndex (shrinks.lookup_eq_some isFile)

end IndexShape

/-- Work in a tree among the kernels does not touch the index. -/
theorem WorksBelow.lookup_index {pool : SymbolPool} {dest loc : Location}
    {tree tree' : FileTree Bytes} (works : WorksBelow dest tree tree')
    (inKernel : pool.kernelDir <+: dest) (inIndex : pool.indexDir <+: loc) :
    tree'.lookup loc = tree.lookup loc := by
  have outTree : ¬ dest <+: loc := fun above =>
    SymbolPool.not_indexDir_prefix (inKernel.trans above) inIndex
  refine (works.beside loc outTree).resolve_right ?_
  rintro ⟨-, -, onTheWay⟩
  exact SymbolPool.not_indexDir_prefix inKernel (inIndex.trans onTheWay)

theorem IndexShape.worksBelow {pool : SymbolPool} {dest : Location} {tree tree' : FileTree Bytes}
    (shape : IndexShape pool tree) (works : WorksBelow dest tree tree')
    (inKernel : pool.kernelDir <+: dest) : IndexShape pool tree' where
  root above leading target isLink := shape.root above leading target (works.links above target isLink)
  links loc target inPool isLink := shape.links loc target inPool (works.links loc target isLink)
  dirs loc inIndex isDir := shape.dirs loc inIndex (works.lookup_index inKernel inIndex ▸ isDir)
  files loc content inIndex isFile :=
    shape.files loc content inIndex (works.lookup_index inKernel inIndex ▸ isFile)

/-! ## Writing a link -/

section Indexing

variable {pool : SymbolPool} {formats : Formats} {tree : FileTree Bytes}

/-- Nothing but directories is on the way to a link, and at most a link is in its place. -/
theorem IndexShape.room (shape : IndexShape pool tree) (root : tree.lookup pool.dir = some .dir)
    (id : Text) :
    (∀ above, above <+: pool.indexDir ++ [id.take 2] →
        tree.lookup above = some .dir ∨ tree.lookup above = none) ∧
      (tree.lookup (debugLink pool.dir id) = none ∨
        ∃ target, tree.lookup (debugLink pool.dir id) = some (.link target)) := by
  constructor
  · intro above leading
    have inWay : pool.dir <+: pool.indexDir ++ [id.take 2] := by
      rw [SymbolPool.indexDir, List.append_assoc]
      exact List.prefix_append ..
    by_cases inIndex : pool.indexDir <+: above
    · cases there : tree.lookup above with
      | none => exact .inr rfl
      | some node =>
        cases node with
        | dir => exact .inl rfl
        | file content => exact absurd there (shape.files above content inIndex)
        | link target =>
          have inPool : pool.dir <+: above := (List.prefix_append ..).trans inIndex
          obtain ⟨other, rfl, -⟩ := shape.links above target inPool there
          have shorter := leading.length_le
          rw [length_debugLink] at shorter
          simp only [SymbolPool.indexDir, List.length_append, List.length_singleton] at shorter
          omega
    · -- Above the index stands the pool itself.
      have aboveIndex : above <+: pool.indexDir := by
        rcases List.prefix_concat_iff.mp leading with rfl | aboveIndex
        · exact absurd (List.prefix_append ..) inIndex
        · exact aboveIndex
      rcases List.prefix_concat_iff.mp aboveIndex with rfl | abovePool
      · exact absurd List.prefix_rfl inIndex
      · by_cases same : above = pool.dir
        · exact .inl (same ▸ root)
        · exact .inl (tree.lookup_of_prefix (by rw [root]; simp) abovePool same)
  · have inIndex := indexDir_prefix_debugLink pool id
    cases there : tree.lookup (debugLink pool.dir id) with
    | none => exact .inl rfl
    | some node =>
      cases node with
      | dir =>
        have shallow := shape.dirs _ inIndex there
        rw [length_debugLink] at shallow
        omega
      | file content => exact absurd there (shape.files _ content inIndex)
      | link target => exact .inr ⟨target, rfl⟩

/-- Nothing in the index is refused. -/
def WritesIndex (pool : SymbolPool) (outside : Outside) : Prop :=
  ∀ loc, pool.indexDir <+: loc → outside.refuses loc = false

/-- A file among the kernels is indexed by the link of its build-id, and nothing else changes but
for directories on the way. -/
theorem indexFile_spec {outside : Outside} (writes : WritesIndex pool outside)
    (shape : IndexShape pool tree) (root : tree.lookup pool.dir = some .dir) {file : Location}
    (inKernel : pool.kernelDir <+: file) {content : Bytes} {id : Text}
    (isFile : tree.lookup file = some (.file content))
    (hasId : (formats.buildIdNote content).map hexEncode = some id) (long : 4 ≤ byteLen id) :
    ∃ tree', indexFile formats outside pool.dir tree file = (tree', true) ∧
      ∀ loc, tree'.lookup loc =
        if loc = debugLink pool.dir id then some (.link file)
        else if loc <+: pool.indexDir ++ [id.take 2] then some .dir else tree.lookup loc := by
  obtain ⟨way, place⟩ := shape.room root id
  obtain ⟨made, making⟩ := FileTree.createDirAll_of_free way
  have indexed := shape.linksIndexed
  obtain ⟨-, after⟩ := FileTree.createDirAll_spec
    (indexDir_append pool id ▸ (indexed.inIndexDir (id.take 2)).direct) making
  have notOnWay : ¬ debugLink pool.dir id <+: pool.indexDir ++ [id.take 2] := by
    intro above
    have shorter := above.length_le
    rw [length_debugLink] at shorter
    simp only [SymbolPool.indexDir, List.length_append, List.length_singleton] at shorter
    omega
  have parent : (debugLink pool.dir id).dropLast = pool.indexDir ++ [id.take 2] := by
    rw [debugLink_dropLast, indexDir_append]
  have parentIsDir : made.lookup (debugLink pool.dir id).dropLast = some .dir := by
    rw [parent, after, if_pos List.prefix_rfl]
  have atLink := after (debugLink pool.dir id)
  rw [if_neg notOnWay] at atLink
  have cleared := FileTree.lookup_removeFile_of_link parentIsDir (by rwa [atLink])
  have fileKept : (made.orUnchanged (made.removeFile (debugLink pool.dir id))).lookup file =
      some (.file content) := by
    rw [cleared, if_neg, after, if_neg (SymbolPool.not_prefix_indexDir inKernel _), isFile]
    rintro rfl
    exact SymbolPool.not_indexDir_prefix inKernel (indexDir_prefix_debugLink pool id)
  have read : fileBuildId formats tree file = some id := by
    rw [fileBuildId, FileTree.read, FileTree.stat_of_linkFree (FileTree.linkFree_of_isFile isFile),
      isFile]
    exact hasId
  have room : (made.orUnchanged (made.removeFile (debugLink pool.dir id))).lookup
      (debugLink pool.dir id).dropLast = some .dir := by
    rw [cleared, if_neg, parentIsDir]
    rw [parent]
    rintro same
    exact notOnWay (same ▸ List.prefix_rfl)
  obtain ⟨tree', linked⟩ := FileTree.symlink_of_free file (by rw [cleared, if_pos rfl]) room
  have roomFree := FileTree.linkFree_of_isDir room
  refine ⟨tree', ?_, fun loc => ?_⟩
  · have canonical : (made.orUnchanged (made.removeFile (debugLink pool.dir id))).canonicalize
        file = some file :=
      FileTree.canonicalize_of_present (FileTree.linkFree_of_isFile fileKept) (by simp [fileKept])
    have dirAllowed := Outside.allow_eq_some.mpr
      ⟨writes (pool.indexDir ++ [id.take 2]) (List.prefix_append ..), making⟩
    have linkAllowed := Outside.allow_eq_some.mpr
      ⟨writes (debugLink pool.dir id) (indexDir_prefix_debugLink pool id), linked⟩
    rw [← indexDir_append] at dirAllowed
    simp only [indexFile, read, if_neg (not_lt.mpr long), dirAllowed, canonical, linkAllowed]
  · rw [(FileTree.symlink_spec roomFree.direct linked).2.2, cleared, after]
    split_ifs <;> rfl

/-- What the index still has after a part of it was written. -/
structure Extends (pool : SymbolPool) (tree tree' : FileTree Bytes) : Prop where
  shape : IndexShape pool tree'
  root : tree'.lookup pool.dir = some .dir
  covers : ∀ id, Covers pool tree id → Covers pool tree' id
  kernels : ∀ loc, pool.kernelDir <+: loc → tree'.lookup loc = tree.lookup loc

/-- A content that is indexed: its build-id is one of at least two bytes. -/
def HasId (formats : Formats) (content : Bytes) (id : Text) : Prop :=
  (formats.buildIdNote content).map hexEncode = some id ∧ 4 ≤ byteLen id

theorem extends_of_link {file : Location} {id : Text} {tree' : FileTree Bytes}
    (shape : IndexShape pool tree) (inKernel : pool.kernelDir <+: file)
    (present : tree.lookup file ≠ none)
    (spec : ∀ loc, tree'.lookup loc =
      if loc = debugLink pool.dir id then some (.link file)
      else if loc <+: pool.indexDir ++ [id.take 2] then some .dir else tree.lookup loc) :
    Extends pool tree tree' ∧ Covers pool tree' id := by
  have kernels : ∀ loc, pool.kernelDir <+: loc → tree'.lookup loc = tree.lookup loc := by
    intro loc kernel
    rw [spec, if_neg, if_neg (SymbolPool.not_prefix_indexDir kernel _)]
    rintro rfl
    exact SymbolPool.not_indexDir_prefix kernel (indexDir_prefix_debugLink pool id)
  have atLink := spec (debugLink pool.dir id)
  rw [if_pos rfl] at atLink
  have short : ∀ loc : Location, loc <+: pool.indexDir ++ [id.take 2] →
      loc.length ≤ pool.dir.length + 2 := by
    intro loc above
    have shorter := above.length_le
    simpa [SymbolPool.indexDir] using shorter
  refine ⟨⟨⟨fun above leading target isLink => ?_, fun loc target inPool isLink => ?_,
    fun loc inIndex isDir => ?_, fun loc content inIndex isFile => ?_⟩, ?_, fun other covered => ?_,
    kernels⟩, file, atLink, by rwa [kernels file inKernel]⟩
  · rw [spec] at isLink
    split_ifs at isLink with here higher
    · have shorter := leading.length_le
      rw [here, length_debugLink] at shorter
      omega
    · simp at isLink
    · exact shape.root above leading target isLink
  · rw [spec] at isLink
    split_ifs at isLink with here above
    · rw [Option.some.injEq, Node.link.injEq] at isLink
      exact ⟨id, here, isLink ▸ inKernel⟩
    · simp at isLink
    · exact shape.links loc target inPool isLink
  · rw [spec] at isDir
    split_ifs at isDir with here above
    · simp at isDir
    · exact short loc above
    · exact shape.dirs loc inIndex isDir
  · rw [spec] at isFile
    split_ifs at isFile with here above
    · simp at isFile
    · simp at isFile
    · exact shape.files loc content inIndex isFile
  · rw [spec, if_neg, if_pos]
    · rw [SymbolPool.indexDir, List.append_assoc]
      exact List.prefix_append ..
    · intro same
      have lengths := congrArg List.length same
      rw [length_debugLink] at lengths
      omega
  · obtain ⟨target, isLink, there⟩ := covered
    by_cases same : debugLink pool.dir other = debugLink pool.dir id
    · exact ⟨file, same ▸ atLink, by rwa [kernels file inKernel]⟩
    · refine ⟨target, ?_, by rwa [kernels target (shape.targetInKernel isLink)]⟩
      rw [spec, if_neg same, if_neg, isLink]
      intro above
      have shallow := short _ above
      rw [length_debugLink] at shallow
      omega

theorem Extends.refl (shape : IndexShape pool tree) (root : tree.lookup pool.dir = some .dir) :
    Extends pool tree tree := ⟨shape, root, fun _ covered => covered, fun _ _ => rfl⟩

theorem Extends.trans {first second third : FileTree Bytes} (left : Extends pool first second)
    (right : Extends pool second third) : Extends pool first third :=
  ⟨right.shape, right.root, fun id covered => right.covers id (left.covers id covered),
    fun loc inKernel => (right.kernels loc inKernel).trans (left.kernels loc inKernel)⟩

/-- Indexing a file goes through and covers the file, if it has an id. -/
theorem extends_indexFile (formats : Formats) {outside : Outside}
    (writes : WritesIndex pool outside) (shape : IndexShape pool tree)
    (root : tree.lookup pool.dir = some .dir) {file : Location}
    (inKernel : pool.kernelDir <+: file) :
    ∃ tree', indexFile formats outside pool.dir tree file = (tree', true) ∧
      Extends pool tree tree' ∧ ∀ content id, tree.lookup file = some (.file content) →
        HasId formats content id → Covers pool tree' id := by
  by_cases indexed : ∃ content id, tree.lookup file = some (.file content) ∧
      HasId formats content id
  · obtain ⟨content, id, isFile, hasId, long⟩ := indexed
    obtain ⟨tree', done, spec⟩ := indexFile_spec writes shape root inKernel isFile hasId long
    obtain ⟨extended, covered⟩ := extends_of_link shape inKernel (by simp [isFile]) spec
    refine ⟨tree', done, extended, fun content' id' isFile' hasId' => ?_⟩
    rw [isFile, Option.some.injEq, Node.file.injEq] at isFile'
    subst isFile'
    rw [hasId'.1, Option.some.injEq] at hasId
    exact hasId ▸ covered
  · refine ⟨tree, ?_, .refl shape root, fun content id isFile hasId =>
      absurd ⟨content, id, isFile, hasId⟩ indexed⟩
    unfold indexFile
    cases read : fileBuildId formats tree file with
    | none => rfl
    | some id =>
      obtain ⟨content, isRead, hasId⟩ := Option.bind_eq_some_iff.mp read
      have isFile : tree.lookup file = some (.file content) := by
        unfold FileTree.read at isRead
        rw [FileTree.stat_of_linkFree (shape.linksIndexed.inKernel inKernel)] at isRead
        split at isRead
        · next content' there => rw [there, Option.some.inj isRead]
        · contradiction
      have short : byteLen id < 4 := by
        by_contra long
        exact indexed ⟨content, id, isFile, hasId, by omega⟩
      simp only [if_pos short]

theorem extends_indexFiles (formats : Formats) {outside : Outside}
    (writes : WritesIndex pool outside) (shape : IndexShape pool tree)
    (root : tree.lookup pool.dir = some .dir) {files : List Location}
    (inKernel : ∀ file ∈ files, pool.kernelDir <+: file) :
    Extends pool tree (indexFiles formats outside pool.dir tree files) ∧
      ∀ file ∈ files, ∀ content id, tree.lookup file = some (.file content) →
        HasId formats content id → Covers pool (indexFiles formats outside pool.dir tree files) id := by
  induction files generalizing tree with
  | nil => exact ⟨.refl shape root, fun file member => by contradiction⟩
  | cons file rest ih =>
    obtain ⟨next, done, first, own⟩ :=
      extends_indexFile formats writes shape root (inKernel file (List.mem_cons_self ..))
    obtain ⟨later, others⟩ := ih first.shape first.root fun other member =>
      inKernel other (List.mem_cons_of_mem _ member)
    have goesOn : indexFiles formats outside pool.dir tree (file :: rest) =
        indexFiles formats outside pool.dir next rest := by
      simp only [indexFiles, done]
    rw [goesOn]
    refine ⟨first.trans later, fun other member content id isFile hasId => ?_⟩
    rcases List.mem_cons.mp member with rfl | inRest
    · exact later.covers id (own content id isFile hasId)
    · apply others other inRest content id _ hasId
      rw [first.kernels other (inKernel other member), isFile]

/-- A debug file of a tree: its kernel or one of its modules. -/
def IsDebugFileOf (dest file : Location) : Prop :=
  file = vmlinuxOf dest ∨ ∃ name, file = modulesOf dest ++ [name]

/-- Indexing a tree covers all its debug files. -/
theorem extends_indexBuildIds (formats : Formats) {outside : Outside}
    (writes : WritesIndex pool outside) (shape : IndexShape pool tree)
    (root : tree.lookup pool.dir = some .dir) {dest : Location}
    (inKernel : pool.kernelDir <+: dest) :
    Extends pool tree (indexBuildIds formats outside dest pool.dir tree) ∧
      ∀ file, IsDebugFileOf dest file → ∀ content id, tree.lookup file = some (.file content) →
        HasId formats content id →
          Covers pool (indexBuildIds formats outside dest pool.dir tree) id := by
  have inside : ∀ file ∈ vmlinuxOf dest ::
      (outside.listing ((tree.readDir (modulesOf dest)).getD [])).map
        fun name => modulesOf dest ++ [name], pool.kernelDir <+: file := by
    intro file member
    rcases List.mem_cons.mp member with rfl | isModule
    · exact inKernel.trans (List.prefix_append ..)
    · obtain ⟨name, -, rfl⟩ := List.mem_map.mp isModule
      exact inKernel.trans ((List.prefix_append ..).trans (List.prefix_append ..))
  unfold indexBuildIds
  obtain ⟨extended, covered⟩ := extends_indexFiles formats writes shape root inside
  refine ⟨extended, fun file isDebug content id isFile hasId => ?_⟩
  apply covered file _ content id isFile hasId
  rcases isDebug with rfl | ⟨name, rfl⟩
  · exact List.mem_cons_self ..
  · refine List.mem_cons_of_mem _ (List.mem_map.mpr ⟨name, ?_, rfl⟩)
    exact (outside.listing_perm _).mem_iff.mpr (FileTree.mem_readDir_of_lookup (by simp [isFile]))

end Indexing

end UcrashReport.Symbols
