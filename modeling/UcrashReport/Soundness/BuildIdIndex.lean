import Mathlib.Tactic.IntervalCases
import UcrashReport.Decoder.Collections
import UcrashReport.Machine.Run

/-! # The build-id index over runs of the pool

A link of the index leads to a kernel or a module of some tree. It is sound while its target is
gone or still carries the build-id under which it was linked. Removals and the index itself keep
every link sound; an extraction does as long as it does not put something else at the target of a
link that is still there. The condition on a call says exactly that, and under it a build-id is
never resolved to the file of another build, over every order of fetches, refetches and garbage
collections.
-/

namespace UcrashReport.Symbols

open Rust Rust.Text BuildId

/-- An id that a request can name: hex, in the lower case of the index. -/
def ValidId (id : Text) : Prop := 4 ≤ byteLen id ∧ id.all isAsciiHexdigit = true

/-- The build-id of a file content, as the index spells it. -/
def contentId (formats : Formats) (content : Bytes) : Option Text :=
  (formats.buildIdNote content).map hexEncode

/-- Every resolved build-id leads to a file with this build-id, up to case. -/
def IndexSound (pool : SymbolPool) (formats : Formats) (tree : FileTree Bytes) : Prop :=
  ∀ buildId link, resolve tree pool.dir buildId = some link →
    ∃ id, fileBuildId formats tree link = some id ∧ eqIgnoreAsciiCase id buildId = true

inductive PoolOp
  | ensureKernel (call : Call)
  | gc (outside : Outside) (retentionWeeks : ℕ)

namespace SymbolPool

variable (pool : SymbolPool) (formats : Formats)

def apply (tree : FileTree Bytes) : PoolOp → Option (FileTree Bytes)
  | .ensureKernel call =>
    some (pool.ensureKernel formats call.outside call.version call.target call.expectedBuildid
      tree).2
  | .gc outside retentionWeeks => some (pool.gc outside retentionWeeks tree)

/-- The members that the call unpacks into its tree. -/
def unpacks (call : Call) (start : FileTree Bytes) (tarball : Bytes) : List Member :=
  unpackedBy formats call.outside tarball (pool.destOf call) start

/-- The same, with the member at which the extraction ends. -/
def touches (call : Call) (start : FileTree Bytes) (tarball : Bytes) : List Member :=
  touchedBy formats call.outside tarball (pool.destOf call) start

end SymbolPool

/-- The condition on a call, in the tree that it finds. -/
structure Harmless (pool : SymbolPool) (formats : Formats) (tree : FileTree Bytes) (call : Call) :
    Prop where
  /-- What is extracted are directories and regular files. -/
  plain : ∀ start tarball, pool.extraction formats call tree = some (start, tarball) →
    ∀ member ∈ pool.touches formats call start tarball, isAccepted member = true →
      member.kind.isPlain = true
  /-- Nothing is extracted at or below the place of a link. -/
  offIndex : ∀ start tarball, pool.extraction formats call tree = some (start, tarball) →
    ∀ id, ValidId id →
      ((start.createDirAll (pool.destOf call)).isSome →
        ¬ debugLink pool.dir id <+: pool.destOf call) ∧
      ∀ member ∈ pool.touches formats call start tarball, isAccepted member = true →
        ¬ debugLink pool.dir id <+: memberLocation (pool.destOf call) member
  /-- What is extracted at or below the target of a link is a file there, with the id of the link. -/
  targets : ∀ start tarball, pool.extraction formats call tree = some (start, tarball) →
    ∀ id target, tree.lookup (debugLink pool.dir id) = some (.link target) →
      ((start.createDirAll (pool.destOf call)).isSome → ¬ target <+: pool.destOf call) ∧
      (∀ node, placed (pool.destOf call) (pool.unpacks formats call start tarball) target =
          some node →
        ∃ content, node = some content ∧ contentId formats content = some id) ∧
      ∀ member, stuckBy formats call.outside tarball (pool.destOf call) start = some member →
        ¬ target <+: memberLocation (pool.destOf call) member
  /-- The stamp of a call is not the target of a link. -/
  stamp : (pool.fetchTree formats call.version call.target call.expectedBuildid tree = none ∨
      ∃ start tarball, pool.extraction formats call tree = some (start, tarball) ∧
        pool.extractsWhole formats call start tarball = true) →
    ∀ id target, tree.lookup (debugLink pool.dir id) = some (.link target) →
      target ≠ stampOf (pool.destOf call)

/-- The condition on an operation; garbage collection is always harmless. -/
def HarmlessOp (pool : SymbolPool) (formats : Formats) (tree : FileTree Bytes) : PoolOp → Prop
  | .ensureKernel call => Harmless pool formats tree call
  | .gc _ _ => True

/-! ## The invariant -/

/-- A kernel or a module of some tree. -/
def IsDebugFile (loc : Location) : Prop :=
  ∃ dest, loc = vmlinuxOf dest ∨ ∃ name, loc = modulesOf dest ++ [name]

/-- The target of a link lies off the index, and is gone or has the build-id of the link. -/
structure TargetSound (pool : SymbolPool) (formats : Formats) (tree : FileTree Bytes) (id : Text)
    (target : Location) : Prop where
  form : IsDebugFile target
  offIndex : ∀ other, ValidId other → ¬ debugLink pool.dir other <+: target
  content : tree.lookup target = none ∨
    ∃ content, tree.lookup target = some (.file content) ∧ contentId formats content = some id

structure IndexInvariant (pool : SymbolPool) (formats : Formats) (tree : FileTree Bytes) :
    Prop where
  links : ∀ loc target, tree.lookup loc = some (.link target) →
    ∃ id, ValidId id ∧ loc = debugLink pool.dir id ∧ TargetSound pool formats tree id target
  reserved : ∀ id, ValidId id → tree.lookup (debugLink pool.dir id) = none ∨
    ∃ target, tree.lookup (debugLink pool.dir id) = some (.link target)

/-! ## Hex digits -/

def hexDigits : List Char := "0123456789abcdefABCDEF".toList

theorem mem_hexDigits {c : Char} (hex : isAsciiHexdigit c = true) : c ∈ hexDigits := by
  rw [← Char.ofNat_toNat c]
  unfold isAsciiHexdigit isAsciiDigit at hex
  simp only [Bool.or_eq_true, Bool.and_eq_true, decide_eq_true_eq] at hex
  generalize c.toNat = n at *
  rcases hex with (⟨lower, upper⟩ | ⟨lower, upper⟩) | ⟨lower, upper⟩
  · interval_cases n <;> decide
  · interval_cases n <;> decide
  · interval_cases n <;> decide

theorem hexDigits_toLower : ∀ c ∈ hexDigits, isAsciiHexdigit c.toLower = true ∧
    c.toLower.utf8Size = c.utf8Size ∧ c.toLower.toLower = c.toLower :=
  forall_mem_of_all (by decide)

theorem validId_toAsciiLowercase {s : Text} (long : ¬ byteLen s < 4)
    (hex : s.all isAsciiHexdigit = true) : ValidId (toAsciiLowercase s) := by
  have digit : ∀ c ∈ s, c ∈ hexDigits := fun c member =>
    mem_hexDigits (List.all_eq_true.mp hex c member)
  constructor
  · have same : byteLen (toAsciiLowercase s) = byteLen s := by
      unfold byteLen toAsciiLowercase
      rw [List.map_map]
      exact congrArg List.sum (List.map_congr_left fun c member =>
        (hexDigits_toLower c (digit c member)).2.1)
    omega
  · rw [List.all_eq_true]
    intro c member
    obtain ⟨d, isMember, rfl⟩ := List.mem_map.mp member
    exact (hexDigits_toLower d (digit d isMember)).1

theorem eqIgnoreAsciiCase_toAsciiLowercase {s : Text} (hex : s.all isAsciiHexdigit = true) :
    eqIgnoreAsciiCase (toAsciiLowercase s) s = true := by
  unfold eqIgnoreAsciiCase toAsciiLowercase
  rw [List.map_map, beq_iff_eq]
  exact List.map_congr_left fun c member =>
    (hexDigits_toLower c (mem_hexDigits (List.all_eq_true.mp hex c member))).2.2

theorem isAsciiHexdigit_hexEncode (data : Bytes) : (hexEncode data).all isAsciiHexdigit = true := by
  rw [List.all_eq_true]
  intro c member
  obtain ⟨n, small, rfl⟩ := mem_hexEncode member
  exact (hexDigit_spec n small).1

theorem validId_of_contentId {formats : Formats} {content : Bytes} {id : Text}
    (sameId : contentId formats content = some id) (long : 4 ≤ byteLen id) : ValidId id := by
  obtain ⟨note, -, rfl⟩ := Option.map_eq_some_iff.mp sameId
  exact ⟨long, isAsciiHexdigit_hexEncode note⟩

/-! ## Reading through the index -/

namespace IndexInvariant

variable {pool : SymbolPool} {formats : Formats} {tree tree' : FileTree Bytes}

theorem targetSound (invariant : IndexInvariant pool formats tree) {id : Text} {target : Location}
    (isLink : tree.lookup (debugLink pool.dir id) = some (.link target)) :
    TargetSound pool formats tree id target := by
  obtain ⟨id', -, same, sound⟩ := invariant.links _ target isLink
  rw [debugLink_injective same]
  exact sound

/-- Off the index there are no links. -/
theorem linkFree (invariant : IndexInvariant pool formats tree) {loc : Location}
    (offIndex : ∀ id, ValidId id → ¬ debugLink pool.dir id <+: loc) : tree.LinkFree loc := by
  intro above leading target isLink
  obtain ⟨id, valid, rfl, -⟩ := invariant.links above target isLink
  exact offIndex id valid leading

/-- A link leads to its target. -/
theorem destination (invariant : IndexInvariant pool formats tree) {loc target : Location}
    (isLink : tree.lookup loc = some (.link target)) : tree.destination loc = some target := by
  obtain ⟨id, -, -, sound⟩ := invariant.links loc target isLink
  exact FileTree.destination_of_link isLink (invariant.linkFree sound.offIndex)

/-- No link leads to a directory. -/
theorem direct (invariant : IndexInvariant pool formats tree) (loc : Location) :
    tree.Direct loc := by
  intro above _ target isLink
  obtain ⟨id, -, -, sound⟩ := invariant.links above target isLink
  rw [FileTree.stat, invariant.destination isLink, Option.bind_some]
  rcases sound.content with gone | ⟨content, isFile, -⟩
  · simp [gone]
  · simp [isFile]

/-- A sound index never leads to the file of another build. -/
theorem indexSound (invariant : IndexInvariant pool formats tree) :
    IndexSound pool formats tree := by
  intro buildId link resolved
  unfold resolve at resolved
  dsimp only at resolved
  split_ifs at resolved with rejected present
  rw [Option.some.injEq] at resolved
  subst resolved
  rw [Bool.or_eq_true, not_or, decide_eq_true_eq, Bool.not_eq_true', Bool.not_eq_false] at rejected
  obtain ⟨long, hex⟩ := rejected
  refine ⟨toAsciiLowercase buildId, ?_, eqIgnoreAsciiCase_toAsciiLowercase hex⟩
  rcases invariant.reserved _ (validId_toAsciiLowercase long hex) with absent | ⟨target, isLink⟩
  · rw [FileTree.pathExists, (invariant.direct _).stat_eq_lookup (by simp [absent]), absent] at present
    contradiction
  · have leads := invariant.destination isLink
    rcases (invariant.targetSound isLink).content with gone | ⟨content, isFile, sameId⟩
    · rw [FileTree.pathExists, FileTree.stat, leads, Option.bind_some, gone] at present
      contradiction
    · rw [fileBuildId, FileTree.read, FileTree.stat, leads, Option.bind_some, isFile]
      exact sameId

/-! ## Removals -/

theorem shrinks (invariant : IndexInvariant pool formats tree) (shrinks : Shrinks tree tree') :
    IndexInvariant pool formats tree' where
  links loc target isLink := by
    obtain ⟨id, valid, isIndex, sound⟩ := invariant.links loc target (shrinks.lookup_eq_some isLink)
    refine ⟨id, valid, isIndex, sound.form, sound.offIndex, ?_⟩
    rcases shrinks target with same | gone
    · rw [same]
      exact sound.content
    · exact .inl gone
  reserved id valid := by
    rcases shrinks (debugLink pool.dir id) with same | gone
    · rw [same]
      exact invariant.reserved id valid
    · exact .inl gone

end IndexInvariant

/-! ## Indexing -/

theorem isDebugFile_ne_debugLink {loc : Location} (form : IsDebugFile loc) (poolRoot : Location)
    (id : Text) : loc ≠ debugLink poolRoot id := by
  have short : (List.take 2 id).length ≤ 2 := by
    rw [List.length_take]
    omega
  rintro rfl
  obtain ⟨dest, kernel | ⟨name, module⟩⟩ := form
  · have parents := congrArg (fun l => l.reverse[1]?) kernel
    simp only [debugLink, vmlinuxOf, List.reverse_append, List.reverse_cons, List.reverse_nil,
      List.nil_append, List.cons_append, List.getElem?_cons_succ, List.getElem?_cons_zero,
      Option.some.injEq] at parents
    rw [parents] at short
    revert short
    decide
  · have parents := congrArg (fun l => l.reverse[1]?) module
    simp only [debugLink, modulesOf, List.append_assoc, List.reverse_append, List.reverse_cons,
      List.reverse_nil, List.nil_append, List.cons_append, List.getElem?_cons_succ,
      List.getElem?_cons_zero, Option.some.injEq] at parents
    rw [parents] at short
    revert short
    decide

/-- A kernel or a module does not lie directly below the index. -/
theorem isDebugFile_ne_indexDir {loc : Location} (form : IsDebugFile loc) (poolRoot : Location)
    (name : Text) : loc ≠ poolRoot ++ [".build-id".toList, name] := by
  rintro rfl
  obtain ⟨dest, kernel | ⟨file, module⟩⟩ := form
  · have parents := congrArg (fun l => l.reverse[1]?) kernel
    simp only [vmlinuxOf, List.reverse_append, List.reverse_cons, List.reverse_nil,
      List.nil_append, List.cons_append, List.getElem?_cons_succ, List.getElem?_cons_zero,
      Option.some.injEq] at parents
    revert parents
    decide
  · have parents := congrArg (fun l => l.reverse[1]?) module
    simp only [modulesOf, List.append_assoc, List.reverse_append, List.reverse_cons,
      List.reverse_nil, List.nil_append, List.cons_append, List.getElem?_cons_succ,
      List.getElem?_cons_zero, Option.some.injEq] at parents
    revert parents
    decide

section Indexing

variable {pool : SymbolPool} {formats : Formats} {tree tree' : FileTree Bytes}

/-- Making the directory of a link does not make a directory at the target of another one. -/
theorem IndexInvariant.createLinkDir (invariant : IndexInvariant pool formats tree) {id : Text}
    (making : tree.createDirAll (pool.dir ++ [".build-id".toList, id.take 2]) = some tree') :
    IndexInvariant pool formats tree' := by
  have new := lookup_createDirAll (invariant.direct _) making
  refine ⟨fun loc target isLink => ?_, fun other valid => ?_⟩
  · have before : tree.lookup loc = some (.link target) := by
      rcases new loc with same | ⟨-, -, isDir⟩
      · rwa [← same]
      · simp [isDir] at isLink
    obtain ⟨other, valid, rfl, sound⟩ := invariant.links loc target before
    refine ⟨other, valid, rfl, sound.form, sound.offIndex, ?_⟩
    rcases new target with same | ⟨above, absent, -⟩
    · rw [same]
      exact sound.content
    · exfalso
      have toLast : pool.dir ++ [".build-id".toList, id.take 2] =
        pool.dir ++ [".build-id".toList] ++ [id.take 2] := by simp
      rw [toLast] at above
      rcases List.prefix_concat_iff.mp above with same | above
      · exact isDebugFile_ne_indexDir sound.form pool.dir (id.take 2) (by rw [same, toLast])
      · have onTheWay : target <+: debugLink pool.dir other :=
          above.trans ⟨[other.take 2, other.drop 2 ++ ".debug".toList], by simp [debugLink]⟩
        have strict : target ≠ debugLink pool.dir other := isDebugFile_ne_debugLink sound.form _ _
        rw [tree.lookup_of_prefix (by rw [before]; simp) onTheWay strict] at absent
        contradiction
  · rcases new (debugLink pool.dir other) with same | ⟨above, -, -⟩
    · rw [same]
      exact invariant.reserved other valid
    · have shorter := above.length_le
      simp only [debugLink, List.length_append, List.length_cons, List.length_nil] at shorter
      omega

/-- A kernel or a module with a build-id is a regular file. -/
theorem IndexInvariant.isFile_of_fileBuildId (invariant : IndexInvariant pool formats tree)
    {id : Text} {file : Location} (form : IsDebugFile file)
    (buildId : fileBuildId formats tree file = some id) :
    ∃ content, tree.lookup file = some (.file content) ∧ contentId formats content = some id := by
  obtain ⟨content, isRead, sameId⟩ := Option.bind_eq_some_iff.mp buildId
  have noLink : ∀ target, tree.lookup file ≠ some (.link target) := by
    intro target isLink
    obtain ⟨other, -, here, -⟩ := invariant.links file target isLink
    exact isDebugFile_ne_debugLink form pool.dir other here
  unfold FileTree.read at isRead
  rw [(invariant.direct file).stat_eq_lookup noLink] at isRead
  split at isRead
  · next content' isFile =>
    rw [Option.some.injEq] at isRead
    subst isRead
    exact ⟨_, isFile, sameId⟩
  · contradiction

/-- A file that is there lies off the index. -/
theorem IndexInvariant.offIndex_of_isFile (invariant : IndexInvariant pool formats tree)
    {file : Location} {content : Bytes} (isFile : tree.lookup file = some (.file content))
    (id : Text) (valid : ValidId id) : ¬ debugLink pool.dir id <+: file := by
  intro above
  rcases invariant.reserved id valid with absent | ⟨target, isLink⟩
  · by_cases here : debugLink pool.dir id = file
    · simp [here, isFile] at absent
    · rw [tree.lookup_of_prefix (by simp [isFile]) above here] at absent
      contradiction
  · by_cases here : debugLink pool.dir id = file
    · simp [here, isFile] at isLink
    · rw [tree.lookup_of_prefix (by simp [isFile]) above here] at isLink
      simp at isLink

/-- A link that leads to a file with its build-id joins a sound index. -/
theorem IndexInvariant.symlink (invariant : IndexInvariant pool formats tree) {id : Text}
    {target : Location} {content : Bytes} (valid : ValidId id) (form : IsDebugFile target)
    (isFile : tree.lookup target = some (.file content))
    (sameId : contentId formats content = some id)
    (after : ∀ query, tree'.lookup query =
      if query = debugLink pool.dir id then some (.link target) else tree.lookup query) :
    IndexInvariant pool formats tree' := by
  have elsewhere : ∀ loc, IsDebugFile loc → tree'.lookup loc = tree.lookup loc := by
    intro loc form
    rw [after, if_neg (isDebugFile_ne_debugLink form pool.dir id)]
  refine ⟨fun loc target' isLink => ?_, fun other valid => ?_⟩
  · rw [after] at isLink
    split_ifs at isLink with here
    · rw [Option.some.injEq, Node.link.injEq] at isLink
      subst isLink
      exact ⟨id, valid, here, form, invariant.offIndex_of_isFile isFile,
        .inr ⟨content, by rw [elsewhere target form, isFile], sameId⟩⟩
    · obtain ⟨other, valid', isIndex, sound⟩ := invariant.links loc target' isLink
      refine ⟨other, valid', isIndex, sound.form, sound.offIndex, ?_⟩
      rw [elsewhere target' sound.form]
      exact sound.content
  · rw [after]
    split_ifs with here
    · exact .inr ⟨target, rfl⟩
    · exact invariant.reserved other valid

/-- Links that were there before, or that lead to one of these files. -/
def LinksTo (files : List Location) (tree tree' : FileTree Bytes) : Prop :=
  ∀ loc target, tree'.lookup loc = some (.link target) →
    tree.lookup loc = some (.link target) ∨ target ∈ files

/-- Indexing a file keeps the index sound, wherever it stops, and links to that file only. -/
theorem IndexInvariant.indexFile (invariant : IndexInvariant pool formats tree) (outside : Outside)
    {file : Location} (form : IsDebugFile file) :
    IndexInvariant pool formats (indexFile formats outside pool.dir tree file).1 ∧
      LinksTo [file] tree (indexFile formats outside pool.dir tree file).1 := by
  cases indexed : Symbols.indexFile formats outside pool.dir tree file with
  | mk tree' goesOn =>
    rcases indexFile_cases indexed with rfl | ⟨id, made, buildId, long, making, changed⟩
    · exact ⟨invariant, fun _ _ isLink => .inl isLink⟩
    · have new := lookup_createDirAll (invariant.direct _) making
      have withDir := invariant.createLinkDir making
      have cleared := withDir.shrinks (shrinks_removeFile made (debugLink pool.dir id))
      have clearedAt := @lookup_orUnchanged_removeFile made (debugLink pool.dir id)
        (withDir.direct _)
      have clearedLinks : ∀ loc target,
          (made.orUnchanged (made.removeFile (debugLink pool.dir id))).lookup loc =
            some (.link target) → tree.lookup loc = some (.link target) := by
        intro loc target isLink
        have inMade := (shrinks_removeFile made (debugLink pool.dir id)).lookup_eq_some isLink
        rcases new loc with same | ⟨-, -, isDir⟩
        · rwa [← same]
        · simp [isDir] at inMade
      rcases changed with rfl | ⟨target, canonical, linked⟩
      · exact ⟨cleared, fun loc target isLink => .inl (clearedLinks loc target isLink)⟩
      · obtain ⟨content, isFile, sameId⟩ := invariant.isFile_of_fileBuildId form buildId
        have stillFile : (made.orUnchanged (made.removeFile (debugLink pool.dir id))).lookup file =
            some (.file content) := by
          rcases clearedAt file with same | ⟨here, -⟩
          · rcases new file with same' | ⟨-, absent, -⟩
            · rw [same, same', isFile]
            · simp [isFile] at absent
          · exact absurd here (isDebugFile_ne_debugLink form pool.dir id)
        obtain rfl := FileTree.eq_of_canonicalize (FileTree.linkFree_of_isFile stillFile) canonical
        have valid := validId_of_contentId sameId long
        have after := (FileTree.symlink_spec (cleared.direct _) linked).2.2
        refine ⟨cleared.symlink valid form stillFile sameId after, fun loc target' isLink => ?_⟩
        rw [after] at isLink
        split_ifs at isLink with here
        · rw [Option.some.injEq, Node.link.injEq] at isLink
          exact .inr (List.mem_singleton.mpr isLink.symm)
        · exact .inl (clearedLinks loc target' isLink)

theorem IndexInvariant.indexFiles (invariant : IndexInvariant pool formats tree)
    (outside : Outside) {files : List Location} (forms : ∀ file ∈ files, IsDebugFile file) :
    IndexInvariant pool formats (indexFiles formats outside pool.dir tree files) ∧
      LinksTo files tree (indexFiles formats outside pool.dir tree files) := by
  induction files generalizing tree with
  | nil => exact ⟨invariant, fun _ _ isLink => .inl isLink⟩
  | cons file rest ih =>
    obtain ⟨next, linksNext⟩ := invariant.indexFile outside (forms file (List.mem_cons_self ..))
    have later := fun file member => forms file (List.mem_cons_of_mem _ member)
    unfold Symbols.indexFiles
    split
    · next indexed =>
      rw [indexed] at next linksNext
      obtain ⟨all, linksAll⟩ := ih next later
      refine ⟨all, fun loc target isLink => ?_⟩
      rcases linksAll loc target isLink with before | isLater
      · rcases linksNext loc target before with old | isFirst
        · exact .inl old
        · exact .inr (List.mem_cons.mpr (.inl (List.mem_singleton.mp isFirst)))
      · exact .inr (List.mem_cons_of_mem _ isLater)
    · next indexed =>
      rw [indexed] at next linksNext
      refine ⟨next, fun loc target isLink => ?_⟩
      rcases linksNext loc target isLink with old | isFirst
      · exact .inl old
      · exact .inr (List.mem_cons.mpr (.inl (List.mem_singleton.mp isFirst)))

/-- Indexing a tree keeps the index sound and links to nothing in place of the stamp. -/
theorem IndexInvariant.indexBuildIds (invariant : IndexInvariant pool formats tree)
    (outside : Outside) (dest : Location) :
    IndexInvariant pool formats (indexBuildIds formats outside dest pool.dir tree) ∧
      ∀ loc, (indexBuildIds formats outside dest pool.dir tree).lookup loc =
        some (.link (stampOf dest)) → tree.lookup loc = some (.link (stampOf dest)) := by
  have place : ∀ file ∈ vmlinuxOf dest ::
      (outside.listing ((tree.readDir (modulesOf dest)).getD [])).map
        fun name => modulesOf dest ++ [name],
      IsDebugFile file ∧ file ≠ stampOf dest := by
    intro file member
    rcases List.mem_cons.mp member with rfl | isModule
    · exact ⟨⟨dest, .inl rfl⟩, by simp [vmlinuxOf, stampOf]⟩
    · obtain ⟨name, -, rfl⟩ := List.mem_map.mp isModule
      exact ⟨⟨dest, .inr ⟨name, rfl⟩⟩, by simp [modulesOf, stampOf]⟩
  obtain ⟨indexed, links⟩ := invariant.indexFiles outside fun file member => (place file member).1
  refine ⟨indexed, fun loc isLink => ?_⟩
  rcases links loc _ isLink with old | isNew
  · exact old
  · exact absurd rfl (place _ isNew).2

end Indexing

/-! ## Extracting and stamping -/

/-- An extraction that the condition allows keeps the index sound. -/
theorem IndexInvariant.extractTarball {pool : SymbolPool} {formats : Formats}
    (tar : Unpacks formats.unpackIn) {tree start left : FileTree Bytes} {call : Call}
    {tarball : Bytes} {whole : Bool} (invariant : IndexInvariant pool formats start)
    (shrinks : Shrinks tree start) (harmless : Harmless pool formats tree call)
    (extracts : pool.extraction formats call tree = some (start, tarball))
    (extracted : extractTarball formats call.outside tarball (pool.destOf call) start =
      (left, whole)) :
    IndexInvariant pool formats left ∧ ∀ loc target, left.lookup loc = some (.link target) →
      start.lookup loc = some (.link target) := by
  rcases extractTarball_eq extracted with ⟨rfl, -, -, -⟩ | ⟨made, making, -⟩
  · exact ⟨invariant, fun _ _ isLink => isLink⟩
  · have makes : (start.createDirAll (pool.destOf call)).isSome := by rw [making]; rfl
    have plain : PlainExtraction formats call.outside tarball (pool.destOf call) start :=
      ⟨invariant.direct _, fun member isTouched accepted =>
        ⟨harmless.plain start tarball extracts member isTouched accepted,
          invariant.linkFree fun id valid =>
            (harmless.offIndex start tarball extracts id valid).2 member isTouched accepted⟩⟩
    have changes := lookup_extractTarball tar plain extracted
    have oldLink : ∀ loc target, left.lookup loc = some (.link target) →
        start.lookup loc = some (.link target) := by
      intro loc target isLink
      rcases changes loc with same | ⟨-, -, isDir⟩ | ⟨-, -, -, -, noLink, -⟩
      · rwa [← same]
      · simp [isDir] at isLink
      · exact absurd isLink (noLink target)
    refine ⟨⟨fun loc target isLink => ?_, fun id valid => ?_⟩, oldLink⟩
    · have before := oldLink loc target isLink
      obtain ⟨id, valid, rfl, sound⟩ := invariant.links loc target before
      refine ⟨id, valid, rfl, sound.form, sound.offIndex, ?_⟩
      obtain ⟨notAbove, files, unstuck⟩ := harmless.targets start tarball extracts id target
        (shrinks.lookup_eq_some before)
      rcases changes target with same | ⟨above, -, -⟩ | ⟨member, isTouched, accepted, leading, -⟩
      · rw [same]
        exact sound.content
      · exact absurd above (notAbove makes)
      · have new := fileAt_extractTarball tar plain extracted unstuck
        have isUnpacked : member ∈ unpackedBy formats call.outside tarball (pool.destOf call)
            start := by
          rcases List.mem_append.mp isTouched with done | stuck
          · exact done
          · exact absurd leading (unstuck member (Option.mem_toList.mp stuck))
        cases node : placed (pool.destOf call) (pool.unpacks formats call start tarball) target with
        | none => exact absurd node (placed_ne_none isUnpacked accepted leading)
        | some content? =>
          obtain ⟨content, rfl, sameId⟩ := files content? node
          rw [show placed (pool.destOf call) (unpackedBy formats call.outside tarball
            (pool.destOf call) start) target = some (some content) from node] at new
          exact .inr ⟨content, fileAt_eq_some.mp new, sameId⟩
    · obtain ⟨notAbove, notBelow⟩ := harmless.offIndex start tarball extracts id valid
      rcases changes (debugLink pool.dir id) with
        same | ⟨above, -, -⟩ | ⟨member, isTouched, accepted, leading, -⟩
      · rw [same]
        exact invariant.reserved id valid
      · exact absurd above (notAbove makes)
      · exact absurd leading (notBelow member isTouched accepted)

/-- A stamp that is not the target of a link keeps the index sound. -/
theorem IndexInvariant.writeStamp {pool : SymbolPool} {formats : Formats} {tree : FileTree Bytes}
    (invariant : IndexInvariant pool formats tree) (outside : Outside) {dest : Location}
    (noTarget : ∀ loc, tree.lookup loc ≠ some (.link (stampOf dest))) :
    IndexInvariant pool formats (SymbolPool.writeStamp outside dest tree) := by
  have notIndex : ∀ id, stampOf dest ≠ debugLink pool.dir id := fun id same =>
    (debugLink_apart pool.dir id).2 (by rw [← same]; simp [stampOf])
  have noLink : ∀ target, tree.lookup (stampOf dest) ≠ some (.link target) := by
    intro target isLink
    obtain ⟨id, -, same, -⟩ := invariant.links _ target isLink
    exact notIndex id same
  have changes := lookup_writeStamp outside (invariant.direct dest) noLink
  have elsewhere : ∀ loc, loc ≠ stampOf dest →
      (SymbolPool.writeStamp outside dest tree).lookup loc = tree.lookup loc := fun loc different =>
    (changes loc).resolve_right fun here => different here.1
  refine ⟨fun loc target isLink => ?_, fun id valid => ?_⟩
  · have before : tree.lookup loc = some (.link target) := by
      rcases changes loc with same | ⟨-, content, -, isFile⟩
      · rwa [← same]
      · simp [isFile] at isLink
    obtain ⟨id, valid, isIndex, sound⟩ := invariant.links loc target before
    refine ⟨id, valid, isIndex, sound.form, sound.offIndex, ?_⟩
    rw [elsewhere target fun same => noTarget loc (same ▸ before)]
    exact sound.content
  · rw [elsewhere _ (notIndex id).symm]
    exact invariant.reserved id valid

/-! ## Runs -/

namespace SymbolPool

variable {pool : SymbolPool} {formats : Formats}

theorem shrinks_fetchTree {call : Call} {tree start : FileTree Bytes}
    (begins : pool.fetchTree formats call.version call.target call.expectedBuildid tree =
      some start) : Shrinks tree start := by
  obtain ⟨-, ⟨rfl, -⟩ | ⟨rfl, -⟩⟩ := fetchTree_cases begins
  · exact .refl _
  · exact shrinks_removeDirAll tree _

/-- A harmless call keeps the index sound, whatever it comes to. -/
theorem indexInvariant_ensureKernel (tar : Unpacks formats.unpackIn) {tree : FileTree Bytes}
    {call : Call} (invariant : IndexInvariant pool formats tree)
    (harmless : Harmless pool formats tree call) :
    IndexInvariant pool formats (pool.ensureKernel formats call.outside call.version call.target
      call.expectedBuildid tree).2 := by
  have outcome := pool.ensured formats call.outside call.version call.target
    call.expectedBuildid tree
  generalize (pool.ensureKernel formats call.outside call.version call.target
    call.expectedBuildid tree).1 = answer at *
  generalize (pool.ensureKernel formats call.outside call.version call.target
    call.expectedBuildid tree).2 = tree' at *
  have linkIndexed : ∀ {t : FileTree Bytes}, Shrinks tree t → ∀ loc target,
      t.lookup loc = some (.link target) →
      ∃ id, tree.lookup (debugLink pool.dir id) = some (.link target) := by
    intro t shrinks loc target isLink
    have before := shrinks.lookup_eq_some isLink
    obtain ⟨id, -, rfl, -⟩ := invariant.links loc target before
    exact ⟨id, before⟩
  cases outcome with
  | refused => exact invariant
  | served accepted present fits =>
    apply invariant.writeStamp
    intro loc isLink
    obtain ⟨id, atIndex⟩ := linkIndexed (.refl tree) loc _ isLink
    exact harmless.stamp (.inl (by simp [fetchTree, accepted, present, fits])) id _ atIndex rfl
  | unfetched begins => exact invariant.shrinks (shrinks_fetchTree begins)
  | unextracted begins fetched extracted =>
    have shrinks := shrinks_fetchTree begins
    exact ((invariant.shrinks shrinks).extractTarball tar shrinks harmless
      (extraction_eq_some begins fetched) extracted).1
  | noKernel begins fetched extracted =>
    have shrinks := shrinks_fetchTree begins
    exact ((invariant.shrinks shrinks).extractTarball tar shrinks harmless
      (extraction_eq_some begins fetched) extracted).1
  | complete begins fetched extracted =>
    have shrinks := shrinks_fetchTree begins
    have extracts := extraction_eq_some begins fetched
    obtain ⟨left, oldLinks⟩ := (invariant.shrinks shrinks).extractTarball tar shrinks harmless
      extracts extracted
    obtain ⟨indexed, noNewStamp⟩ := left.indexBuildIds call.outside (pool.destOf call)
    apply indexed.writeStamp
    intro loc isLink
    obtain ⟨id, atIndex⟩ := linkIndexed shrinks loc _ (oldLinks loc _ (noNewStamp loc isLink))
    refine harmless.stamp (.inr ⟨_, _, extracts, ?_⟩) id _ atIndex rfl
    rw [extractsWhole, destOf, extracted]

theorem indexInvariant_apply (tar : Unpacks formats.unpackIn) {tree tree' : FileTree Bytes}
    {op : PoolOp} (invariant : IndexInvariant pool formats tree)
    (harmless : HarmlessOp pool formats tree op)
    (applied : pool.apply formats tree op = some tree') : IndexInvariant pool formats tree' := by
  cases op with
  | ensureKernel call =>
    rw [apply, Option.some.injEq] at applied
    exact applied ▸ indexInvariant_ensureKernel tar invariant harmless
  | gc outside retentionWeeks =>
    rw [apply, Option.some.injEq] at applied
    exact applied ▸ invariant.shrinks (shrinks_gc pool outside retentionWeeks tree)

/-- From a file tree without links and without an index, every run of fetches and collections in
which each call is harmless only reaches trees with a sound index. -/
theorem indexSound_of_run (tar : Unpacks formats.unpackIn) {start tree : FileTree Bytes}
    {ops : List PoolOp} (noLinks : ∀ loc target, start.lookup loc ≠ some (.link target))
    (noIndex : ∀ id, ValidId id → start.lookup (debugLink pool.dir id) = none)
    (meets : Machine.Meets (pool.apply formats) (HarmlessOp pool formats) start ops)
    (reached : Machine.run (pool.apply formats) start ops = some tree) :
    IndexSound pool formats tree := by
  have initial : IndexInvariant pool formats start :=
    ⟨fun loc target isLink => absurd isLink (noLinks loc target),
      fun id valid => .inl (noIndex id valid)⟩
  exact (Machine.invariant_of_run (I := IndexInvariant pool formats)
    (fun _ _ _ invariant harmless applied => indexInvariant_apply tar invariant harmless applied)
    initial meets reached).indexSound

end SymbolPool

/-! ## A refetch in place -/

/-- A tarball is one kernel with the content of the data; contents are their own notes. -/
def kernelFormats : Formats :=
  { plainFormats with
    unpack := fun data => ⟨[⟨"debug/vmlinux".toList, .regular data⟩], true⟩ }

def snapshotPool : SymbolPool where
  dir := ["symbols".toList]
  releaseUrl := []
  snapshotUrl := "file:///srv/{target}/kernel-debug.tar.zst".toList

/-- A call for a snapshot whose published kernel has the given build-id. -/
def snapshotCall (published : Bytes) (expectedBuildid : Text) : Call where
  outside :=
    { now := 1751712000
      localSize _ := some 2
      localFile _ := some published
      get _ := none
      stopAfter := none
      listing names := names
      listing_perm _ := .refl _ }
  version := "SNAPSHOT".toList
  target := "x86/64".toList
  expectedBuildid := some expectedBuildid

/-- The snapshot changes under a link: its build-id resolves to the kernel of the next build. -/
theorem refetched_link_unsound :
    ∃ tree, Machine.run (snapshotPool.apply kernelFormats) .empty
        [.ensureKernel (snapshotCall [0xaa, 0xbb] "aabb".toList),
          .ensureKernel (snapshotCall [0xcc, 0xdd] "ccdd".toList)] = some tree ∧
      ¬ IndexSound snapshotPool kernelFormats tree := by
  refine ⟨_, rfl, fun sound => ?_⟩
  obtain ⟨id, isId, same⟩ := sound "aabb".toList (debugLink snapshotPool.dir "aabb".toList)
    (by decide +kernel)
  rw [show fileBuildId kernelFormats _ (debugLink snapshotPool.dir "aabb".toList) =
    some "ccdd".toList by decide +kernel, Option.some.injEq] at isId
  subst isId
  revert same
  decide +kernel

/-- The index and the kernel directory are beside each other. -/
theorem not_debugLink_prefix (id : Text) {loc : Location}
    (inKernelDir : snapshotPool.kernelDir <+: loc) : ¬ debugLink snapshotPool.dir id <+: loc := by
  rintro ⟨rest, rfl⟩
  obtain ⟨rest', same⟩ := inKernelDir
  have second := congrArg (fun names => names[1]?) same
  simp only [SymbolPool.kernelDir, snapshotPool, debugLink, List.cons_append, List.nil_append,
    List.getElem?_cons_succ, List.getElem?_cons_zero, Option.some.injEq] at second
  revert second
  decide

theorem harmless_first_fetch :
    Harmless snapshotPool kernelFormats .empty (snapshotCall [0xaa, 0xbb] "aabb".toList) where
  plain start tarball extracts member touched _ := by
    have isKernel := mem_of_mem_touchedBy unpacks_unpackPlain touched
    rw [List.mem_singleton.mp isKernel]
    rfl
  offIndex _ _ _ id _ :=
    have inside : snapshotPool.kernelDir <+:
        snapshotPool.destOf (snapshotCall [0xaa, 0xbb] "aabb".toList) := by decide +kernel
    ⟨fun _ => not_debugLink_prefix id inside, fun _ _ _ =>
      not_debugLink_prefix id (inside.trans (dest_prefix_memberLocation _ _))⟩
  targets _ _ _ id target isLink := by
    rw [FileTree.lookup_empty _ (by simp [debugLink])] at isLink
    contradiction
  stamp _ id target isLink := by
    rw [FileTree.lookup_empty _ (by simp [debugLink])] at isLink
    contradiction

/-- A first fetch, and a collection after it. -/
theorem fetched_index_sound :
    ∃ tree, Machine.run (snapshotPool.apply kernelFormats) .empty
        [.ensureKernel (snapshotCall [0xaa, 0xbb] "aabb".toList),
          .gc (snapshotCall [] []).outside 4] = some tree ∧
      IndexSound snapshotPool kernelFormats tree := by
  have meets : Machine.Meets (snapshotPool.apply kernelFormats)
      (HarmlessOp snapshotPool kernelFormats) .empty
      [.ensureKernel (snapshotCall [0xaa, 0xbb] "aabb".toList),
        .gc (snapshotCall [] []).outside 4] :=
    ⟨harmless_first_fetch, fun _ _ => ⟨trivial, fun _ _ => trivial⟩⟩
  refine ⟨_, rfl, SymbolPool.indexSound_of_run unpacks_unpackPlain ?_ ?_ meets rfl⟩
  · intro loc target isLink
    by_cases root : loc = []
    · simp [root] at isLink
    · rw [FileTree.lookup_empty loc root] at isLink
      contradiction
  · exact fun id _ => FileTree.lookup_empty _ (by simp [debugLink])

end UcrashReport.Symbols
