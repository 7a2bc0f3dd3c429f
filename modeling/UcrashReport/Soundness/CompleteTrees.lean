import UcrashReport.Decoder.PoolChanges
import UcrashReport.Machine.Run

/-! # Only complete trees are served

A run of calls on one pool is followed together with the extractions that have come to their end.
Under a condition on each call, every directory with a completed extraction holds, as long as its
`debug/vmlinux` exists, exactly the files of one of these tarballs. The condition names what the
code leaves open: an interrupted extraction must not have reached `debug/vmlinux`, a complete one
must write over everything that an earlier one left, and trees must not lie in one another.
-/

namespace UcrashReport.Symbols

open Rust Rust.Text BuildId

/-- The pool after some calls, the tarballs that were extracted to their end, and the last answer. -/
structure PoolRun where
  tree : FileTree Bytes
  extracted : List (Location × List Member) := []
  answer : Option (Except Failure Location) := none

def debugOf (dest : Location) : Location := dest ++ ["debug".toList]

namespace SymbolPool

variable (pool : SymbolPool) (formats : Formats)

/-- The extraction that the call completes. -/
def completed (call : Call) (tree : FileTree Bytes) : List (Location × List Member) :=
  match pool.extraction formats call tree with
  | some (start, tarball) =>
    if pool.extractsWhole formats call start tarball then
      [(pool.destOf call, (formats.unpack tarball).members)]
    else []
  | none => []

def step (s : PoolRun) (call : Call) : Option PoolRun :=
  let result := pool.ensureKernel formats call.outside call.version call.target
    call.expectedBuildid s.tree
  some
    { tree := result.2
      extracted := pool.completed formats call s.tree ++ s.extracted
      answer := some result.1 }

end SymbolPool

/-- The files below `debug` are exactly those of the members. -/
def HoldsExactly (tree : FileTree Bytes) (dest : Location) (members : List Member) : Prop :=
  ∀ loc, debugOf dest <+: loc → fileAt tree loc = (placed dest members loc).join

/-- A tree that was just served holds exactly the files of one completely extracted tarball. -/
def ServesComplete (s : PoolRun) : Prop :=
  ∀ dest, s.answer = some (.ok dest) →
    ∃ members, (dest, members) ∈ s.extracted ∧ HoldsExactly s.tree dest members

/-- The condition on a call. -/
structure Orderly (pool : SymbolPool) (formats : Formats) (s : PoolRun) (call : Call) : Prop where
  /-- No link of the index is on the way to the tree. -/
  reached : SymbolPool.rejects call.version call.target = false →
    s.tree.LinkFree (debugOf (pool.destOf call))
  /-- What is extracted are directories and regular files. -/
  plain : ∀ start tarball, pool.extraction formats call s.tree = some (start, tarball) →
    ∀ member ∈ touchedBy formats call.outside tarball (pool.destOf call) start,
      isAccepted member = true → member.kind.isPlain = true
  /-- A tree that is served from the cache was extracted by an earlier call. -/
  cached : SymbolPool.rejects call.version call.target = false →
    pool.fetchTree formats call.version call.target call.expectedBuildid s.tree = none →
    ∃ members, (pool.destOf call, members) ∈ s.extracted
  /-- A call that changes its directory does not do so inside `debug` of another tree. -/
  apart : SymbolPool.rejects call.version call.target = false →
    s.tree.pathExists (vmlinuxOf (pool.destOf call)) = true ∨
      pool.extraction formats call s.tree ≠ none →
    ∀ entry ∈ s.extracted, entry.1 ≠ pool.destOf call →
      ¬ debugOf entry.1 <+: pool.destOf call
  /-- A call that extracts has neither the pool nor another tree inside its `debug`. -/
  around : ∀ start tarball, pool.extraction formats call s.tree = some (start, tarball) →
    ¬ debugOf (pool.destOf call) <+: pool.dir ∧
      ∀ entry ∈ s.extracted, entry.1 ≠ pool.destOf call →
        ¬ debugOf (pool.destOf call) <+: entry.1
  /-- A complete extraction writes over every file that is left from before. -/
  overwrites : ∀ start tarball, pool.extraction formats call s.tree = some (start, tarball) →
    pool.extractsWhole formats call start tarball = true →
    ∀ loc, debugOf (pool.destOf call) <+: loc → fileAt start loc ≠ none →
      placed (pool.destOf call) (formats.unpack tarball).members loc ≠ none
  /-- An extraction that ends early has not come to `debug/vmlinux`. -/
  interrupted : ∀ start tarball, pool.extraction formats call s.tree = some (start, tarball) →
    pool.extractsWhole formats call start tarball = false →
    ∀ member ∈ touchedBy formats call.outside tarball (pool.destOf call) start,
      isAccepted member = true →
        ¬ vmlinuxOf (pool.destOf call) <+: memberLocation (pool.destOf call) member

/-! ## What a call leaves untouched -/

/-- There are no links but those of the index. -/
def LinksApart (pool : SymbolPool) (tree : FileTree Bytes) : Prop :=
  ∀ loc target, tree.lookup loc = some (.link target) → ∃ id, loc = debugLink pool.dir id

/-- Nothing at or below `debug` of the directory is changed. -/
def Untouched (dir : Location) (tree tree' : FileTree Bytes) : Prop :=
  ∀ loc, debugOf dir <+: loc → tree'.lookup loc = tree.lookup loc

namespace Untouched

variable {dir : Location} {first second third : FileTree Bytes}

theorem refl (tree : FileTree Bytes) : Untouched dir tree tree := fun _ _ => rfl

theorem trans (left : Untouched dir first second) (right : Untouched dir second third) :
    Untouched dir first third :=
  fun loc below => (right loc below).trans (left loc below)

theorem holdsExactly (untouched : Untouched dir first second) {members : List Member}
    (holds : HoldsExactly first dir members) : HoldsExactly second dir members := by
  intro loc below
  rw [fileAt_congr (untouched loc below)]
  exact holds loc below

end Untouched

theorem debugOf_prefix_vmlinuxOf (dest : Location) : debugOf dest <+: vmlinuxOf dest :=
  ⟨["vmlinux".toList], by simp [debugOf, vmlinuxOf]⟩

/-- A `debug` directory above a location that ends in other names is above what they follow. -/
theorem debugOf_prefix_append_singleton {dir base : Location} {name : Text}
    (other : name ≠ "debug".toList) (leading : debugOf dir <+: base ++ [name]) :
    debugOf dir <+: base := by
  rcases List.prefix_concat_iff.mp leading with same | above
  · exact absurd (List.singleton_inj.mp (List.append_inj' same rfl).2).symm other
  · exact above

/-- The links of the index are no part of a tree that does not contain the pool. -/
theorem not_debugOf_prefix_debugLink {poolRoot dir : Location} (notAbove : ¬ debugOf dir <+: poolRoot)
    (id : Text) : ¬ debugOf dir <+: debugLink poolRoot id := by
  intro leading
  rw [show debugLink poolRoot id = poolRoot ++ [".build-id".toList] ++ [List.take 2 id] ++
    [List.drop 2 id ++ ".debug".toList] by simp [debugLink]] at leading
  have long : List.drop 2 id ++ ".debug".toList ≠ "debug".toList := by
    intro same
    have sizes := congrArg List.length same
    rw [List.length_append] at sizes
    have five : "debug".toList.length = 5 := by decide
    have six : ".debug".toList.length = 6 := by decide
    omega
  have short : List.take 2 id ≠ "debug".toList := by
    intro same
    have sizes := congrArg List.length same
    rw [List.length_take] at sizes
    have five : "debug".toList.length = 5 := by decide
    omega
  exact notAbove (debugOf_prefix_append_singleton (by decide)
    (debugOf_prefix_append_singleton short (debugOf_prefix_append_singleton long leading)))

/-! ## Links stay apart -/

namespace LinksApart

variable {pool : SymbolPool} {tree tree' : FileTree Bytes}

theorem linkFree (links : LinksApart pool tree) {loc : Location}
    (apart : ∀ id, ¬ debugLink pool.dir id <+: loc) : tree.LinkFree loc := by
  intro above leading target isLink
  obtain ⟨id, rfl⟩ := links above target isLink
  exact apart id leading

theorem inIndexDir (links : LinksApart pool tree) (name : Text) :
    tree.LinkFree (pool.dir ++ [".build-id".toList, name]) :=
  links.linkFree fun id above => by
    have shorter := above.length_le
    simp [debugLink] at shorter

theorem noLink_stampOf (links : LinksApart pool tree) (dest target : Location) :
    tree.lookup (stampOf dest) ≠ some (.link target) := by
  intro isLink
  obtain ⟨id, here⟩ := links _ target isLink
  exact (debugLink_apart pool.dir id).2 (by rw [← here]; simp [stampOf])

theorem noLink_vmlinuxOf (links : LinksApart pool tree) (dest target : Location) :
    tree.lookup (vmlinuxOf dest) ≠ some (.link target) := by
  intro isLink
  obtain ⟨id, here⟩ := links _ target isLink
  exact (debugLink_apart pool.dir id).1 (by rw [← here]; simp [vmlinuxOf])

/-- Behind `debug` no link is on the way to what is extracted. -/
theorem inDebug (links : LinksApart pool tree) {dest loc : Location}
    (free : tree.LinkFree (debugOf dest)) (notAbove : ¬ debugOf dest <+: pool.dir)
    (below : debugOf dest <+: loc) : tree.LinkFree loc := by
  intro above leading target isLink
  rcases List.prefix_or_prefix_of_prefix leading below with higher | lower
  · exact free above higher target isLink
  · obtain ⟨id, rfl⟩ := links above target isLink
    exact not_debugOf_prefix_debugLink notAbove id lower

theorem linkFree_vmlinuxOf (links : LinksApart pool tree) {dest : Location}
    (free : tree.LinkFree (debugOf dest)) : tree.LinkFree (vmlinuxOf dest) := by
  have whole : vmlinuxOf dest = debugOf dest ++ ["vmlinux".toList] := by simp [vmlinuxOf, debugOf]
  refine .of_noLink (fun above leading strict => ?_) fun target => links.noLink_vmlinuxOf dest target
  rw [whole] at leading strict
  exact free above ((List.prefix_concat_iff.mp leading).resolve_left strict)

theorem pathExists_vmlinuxOf (links : LinksApart pool tree) {dest : Location}
    (free : tree.LinkFree (debugOf dest)) :
    tree.pathExists (vmlinuxOf dest) = true ↔ tree.lookup (vmlinuxOf dest) ≠ none := by
  rw [FileTree.pathExists, FileTree.stat_of_linkFree (links.linkFree_vmlinuxOf free),
    Option.isSome_iff_ne_none]

theorem of_lookup (links : LinksApart pool tree)
    (new : ∀ loc target, tree'.lookup loc = some (.link target) →
      tree.lookup loc = some (.link target) ∨ ∃ id, loc = debugLink pool.dir id) :
    LinksApart pool tree' :=
  fun loc target isLink => (new loc target isLink).elim (links loc target) fun indexed => indexed

theorem removeDirAll (links : LinksApart pool tree) {dest : Location}
    (direct : tree.Direct dest.dropLast) :
    LinksApart pool (tree.orUnchanged (tree.removeDirAll dest)) := by
  refine links.of_lookup fun loc target isLink => .inl ?_
  rcases lookup_orUnchanged_removeDirAll direct loc with same | ⟨-, gone⟩
  · rw [← same, isLink]
  · rw [isLink] at gone
    contradiction

theorem extractTarball (links : LinksApart pool tree) {formats : Formats}
    (tar : Unpacks formats.unpackIn) {outside : Outside} {data : Bytes} {dest : Location}
    {left : FileTree Bytes} {whole : Bool} (plain : PlainExtraction formats outside data dest tree)
    (extracted : extractTarball formats outside data dest tree = (left, whole)) :
    LinksApart pool left := by
  refine links.of_lookup fun loc target isLink => .inl ?_
  rcases lookup_extractTarball tar plain extracted loc with
    same | ⟨-, -, isDir⟩ | ⟨-, -, -, -, noLink, -⟩
  · rw [← same, isLink]
  · simp [isDir] at isLink
  · exact absurd isLink (noLink target)

theorem indexFile (links : LinksApart pool tree) (formats : Formats) (outside : Outside)
    (file : Location) : LinksApart pool (indexFile formats outside pool.dir tree file).1 := by
  refine links.of_lookup fun loc target isLink => ?_
  rcases lookup_indexFile formats outside file (fun name => (links.inIndexDir name).direct) loc with
    same | ⟨id, ⟨-, -, isDir⟩ | ⟨here, -⟩⟩
  · rw [same] at isLink
    exact .inl isLink
  · simp [isDir] at isLink
  · exact .inr ⟨id, here⟩

theorem writeStamp (links : LinksApart pool tree) {outside : Outside} {dest : Location}
    (direct : tree.Direct dest) : LinksApart pool (SymbolPool.writeStamp outside dest tree) := by
  refine links.of_lookup fun loc target isLink => .inl ?_
  rcases lookup_writeStamp outside direct (links.noLink_stampOf dest) loc with
    same | ⟨-, content, -, isFile⟩
  · rw [← same, isLink]
  · simp [isFile] at isLink

end LinksApart

/-! ## Trees that are left alone -/

theorem untouched_writeStamp {dest dir : Location} {outside : Outside} {tree : FileTree Bytes}
    (direct : tree.Direct dest)
    (noLink : ∀ target, tree.lookup (stampOf dest) ≠ some (.link target))
    (beside : dir = dest ∨ ¬ debugOf dir <+: dest) :
    Untouched dir tree (SymbolPool.writeStamp outside dest tree) := by
  intro loc below
  rcases lookup_writeStamp outside direct noLink loc with same | ⟨rfl, -⟩
  · exact same
  · have leading := debugOf_prefix_append_singleton (by decide) below
    rcases beside with rfl | notAbove
    · have longer := leading.length_le
      rw [debugOf, List.length_append, List.length_singleton] at longer
      omega
    · exact absurd leading notAbove

/-- The index works beside every `debug` directory that does not contain the pool. -/
theorem untouched_indexFile {pool : SymbolPool} {dir : Location} {tree : FileTree Bytes}
    (links : LinksApart pool tree) (notAbove : ¬ debugOf dir <+: pool.dir) (formats : Formats)
    (outside : Outside) (file : Location) :
    Untouched dir tree (indexFile formats outside pool.dir tree file).1 := by
  intro loc below
  rcases lookup_indexFile formats outside file (fun name => (links.inIndexDir name).direct) loc with
    same | ⟨id, onTheWay | isLink⟩
  · exact same
  · exfalso
    have toLink : pool.dir ++ [".build-id".toList, List.take 2 id] <+: debugLink pool.dir id :=
      ⟨[List.drop 2 id ++ ".debug".toList], by simp [debugLink]⟩
    exact not_debugOf_prefix_debugLink notAbove id ((below.trans onTheWay.1).trans toLink)
  · exact absurd (isLink.1 ▸ below) (not_debugOf_prefix_debugLink notAbove id)

theorem untouched_indexBuildIds {pool : SymbolPool} {tree : FileTree Bytes}
    (links : LinksApart pool tree) (formats : Formats) (outside : Outside) (dest : Location) :
    LinksApart pool (indexBuildIds formats outside dest pool.dir tree) ∧
      ∀ dir, ¬ debugOf dir <+: pool.dir →
        Untouched dir tree (indexBuildIds formats outside dest pool.dir tree) := by
  unfold indexBuildIds
  refine indexFiles_induction (I := fun tree' => LinksApart pool tree' ∧
    ∀ dir, ¬ debugOf dir <+: pool.dir → Untouched dir tree tree') (fun middle file soFar => ?_) _
    ⟨links, fun dir _ => .refl tree⟩
  obtain ⟨links', untouched⟩ := soFar
  exact ⟨links'.indexFile formats outside file, fun dir notAbove =>
    (untouched dir notAbove).trans (untouched_indexFile links' notAbove formats outside file)⟩

/-- Two trees, none inside `debug` of the other, have nothing below `debug` in common. -/
theorem debugOf_disjoint {dir dest loc : Location} (different : dir ≠ dest)
    (notAbove : ¬ debugOf dir <+: dest) (notBelow : ¬ debugOf dest <+: dir)
    (below : debugOf dir <+: loc) : ¬ debugOf dest <+: loc := by
  intro inDebug
  rcases List.prefix_or_prefix_of_prefix below inDebug with outer | inner
  · rcases List.prefix_concat_iff.mp outer with same | above
    · exact different (List.append_inj' same rfl).1
    · exact notAbove above
  · rcases List.prefix_concat_iff.mp inner with same | above
    · exact different (List.append_inj' same rfl).1.symm
    · exact notBelow above

/-- An extraction leaves the other trees alone that neither contain its directory nor lie in its
`debug`. -/
theorem untouched_extractTarball {formats : Formats} (tar : Unpacks formats.unpackIn)
    {outside : Outside} {data : Bytes} {dest dir : Location} {tree left : FileTree Bytes}
    {whole : Bool} (plain : PlainExtraction formats outside data dest tree)
    (extracted : extractTarball formats outside data dest tree = (left, whole))
    (different : dir ≠ dest) (notAbove : ¬ debugOf dir <+: dest)
    (notBelow : ¬ debugOf dest <+: dir) : Untouched dir tree left := by
  intro loc below
  rcases lookup_extractTarball tar plain extracted loc with
    same | ⟨onTheWay, -⟩ | ⟨member, -, accepted, leading, -⟩
  · exact same
  · exact absurd (below.trans onTheWay) notAbove
  · exact absurd (memberLocation_debug dest accepted)
      (debugOf_disjoint different notAbove notBelow (below.trans leading))

/-! ## The invariant of a run -/

/-- Every directory with a completed extraction whose kernel exists holds the files of one of its
tarballs, and does not have the pool in its `debug`. -/
structure Complete (pool : SymbolPool) (s : PoolRun) : Prop where
  links : LinksApart pool s.tree
  apart : ∀ entry ∈ s.extracted, ¬ debugOf entry.1 <+: pool.dir
  holds : ∀ entry ∈ s.extracted, s.tree.lookup (vmlinuxOf entry.1) ≠ none →
    ∃ members, (entry.1, members) ∈ s.extracted ∧ HoldsExactly s.tree entry.1 members

/-- A directory whose `debug` was left alone keeps its kernel and its files. -/
theorem Complete.holds_of_untouched {pool : SymbolPool} {s : PoolRun} {tree : FileTree Bytes}
    (complete : Complete pool s) {entry : Location × List Member} (member : entry ∈ s.extracted)
    (untouched : Untouched entry.1 s.tree tree) (present : tree.lookup (vmlinuxOf entry.1) ≠ none) :
    ∃ members, (entry.1, members) ∈ s.extracted ∧ HoldsExactly tree entry.1 members := by
  rw [untouched _ (debugOf_prefix_vmlinuxOf entry.1)] at present
  obtain ⟨members, isLogged, holds⟩ := complete.holds entry member present
  exact ⟨members, isLogged, untouched.holdsExactly holds⟩

namespace SymbolPool

variable {pool : SymbolPool} {formats : Formats}

theorem dest_prefix_debugOf (dest : Location) : dest <+: debugOf dest := List.prefix_append ..

/-- Where a fetch begins there is no kernel. -/
theorem noKernel_of_fetchTree {call : Call} {tree start : FileTree Bytes}
    (links : LinksApart pool tree) (free : tree.LinkFree (debugOf (pool.destOf call)))
    (begins : pool.fetchTree formats call.version call.target call.expectedBuildid tree =
      some start) : start.lookup (vmlinuxOf (pool.destOf call)) = none := by
  obtain ⟨-, ⟨rfl, absent⟩ | ⟨rfl, present⟩⟩ := fetchTree_cases begins
  · by_contra there
    rw [(links.pathExists_vmlinuxOf free).mpr there] at absent
    contradiction
  · have there := (links.pathExists_vmlinuxOf free).mp present
    have inside : pool.destOf call <+: vmlinuxOf (pool.destOf call) := List.prefix_append ..
    have strict : pool.destOf call ≠ vmlinuxOf (pool.destOf call) := by simp [vmlinuxOf]
    have isDir := tree.lookup_of_prefix there inside strict
    rw [FileTree.removeDirAll_of_isDir isDir, FileTree.orUnchanged, Option.getD_some,
      FileTree.lookup_prune, if_pos]
    exact ⟨by simp [vmlinuxOf], inside⟩

theorem direct_dropLast {call : Call} {tree : FileTree Bytes}
    (free : tree.LinkFree (debugOf (pool.destOf call))) :
    tree.Direct (pool.destOf call).dropLast :=
  (free.of_leading ((List.dropLast_prefix _).trans (dest_prefix_debugOf _))).direct

theorem links_of_fetchTree {call : Call} {tree start : FileTree Bytes}
    (links : LinksApart pool tree) (free : tree.LinkFree (debugOf (pool.destOf call)))
    (begins : pool.fetchTree formats call.version call.target call.expectedBuildid tree =
      some start) :
    LinksApart pool start ∧ start.LinkFree (debugOf (pool.destOf call)) := by
  obtain ⟨-, ⟨rfl, -⟩ | ⟨rfl, -⟩⟩ := fetchTree_cases begins
  · exact ⟨links, free⟩
  · refine ⟨links.removeDirAll (direct_dropLast free), fun above leading target isLink => ?_⟩
    rcases lookup_orUnchanged_removeDirAll (direct_dropLast free) above with same | ⟨-, gone⟩
    · exact free above leading target (same ▸ isLink)
    · simp [gone] at isLink

/-- A stale tree is dropped as a whole: another one is left alone or loses its kernel. -/
theorem untouched_of_fetchTree {call : Call} {tree start : FileTree Bytes} {dir : Location}
    (free : tree.LinkFree (debugOf (pool.destOf call)))
    (begins : pool.fetchTree formats call.version call.target call.expectedBuildid tree =
      some start)
    (notAbove : tree.pathExists (vmlinuxOf (pool.destOf call)) = true →
      ¬ debugOf dir <+: pool.destOf call)
    (present : start.lookup (vmlinuxOf dir) ≠ none) : Untouched dir tree start := by
  obtain ⟨-, ⟨rfl, -⟩ | ⟨rfl, stale⟩⟩ := fetchTree_cases begins
  · exact .refl _
  · intro loc below
    rcases lookup_orUnchanged_removeDirAll (direct_dropLast free) loc with same | ⟨inside, -⟩
    · exact same
    · exfalso
      rcases List.prefix_or_prefix_of_prefix below inside with above | beneath
      · exact notAbove stale above
      · have kernelInside : pool.destOf call <+: vmlinuxOf dir :=
          beneath.trans (debugOf_prefix_vmlinuxOf dir)
        apply present
        cases removed : tree.removeDirAll (pool.destOf call) with
        | some tree' =>
          rw [FileTree.orUnchanged, Option.getD_some,
            FileTree.removeDirAll_spec (direct_dropLast free) removed, if_pos]
          exact ⟨by simp [vmlinuxOf], kernelInside⟩
        | none =>
          rw [removed, FileTree.orUnchanged, Option.getD_none] at present
          have isDir : tree.lookup (pool.destOf call) = some .dir := by
            apply tree.lookup_of_prefix present kernelInside
            intro same
            have sizes := congrArg List.length same
            have shorter := beneath.length_le
            simp only [vmlinuxOf, debugOf, List.length_append, List.length_cons,
              List.length_nil] at sizes shorter
            omega
          simp [FileTree.removeDirAll_of_isDir isDir] at removed

/-- The invariant does not mention the answer, and it survives what leaves every logged tree
alone. -/
theorem complete_of_untouched {s : PoolRun} {tree : FileTree Bytes}
    {answer : Option (Except Failure Location)} (complete : Complete pool s)
    (links : LinksApart pool tree)
    (untouched : ∀ entry ∈ s.extracted, Untouched entry.1 s.tree tree) :
    Complete pool ⟨tree, s.extracted, answer⟩ where
  links := links
  apart := complete.apart
  holds entry member present :=
    complete.holds_of_untouched member (untouched entry member) present

theorem completed_of_extracted {call : Call} {tree start left : FileTree Bytes} {tarball : Bytes}
    {whole : Bool}
    (begins : pool.fetchTree formats call.version call.target call.expectedBuildid tree =
      some start)
    (fetched : pool.fetchTarball formats call.outside call.version call.target = .ok tarball)
    (extracted : extractTarball formats call.outside tarball (pool.destOf call) start =
      (left, whole)) :
    pool.completed formats call tree =
      if whole then [(pool.destOf call, (formats.unpack tarball).members)] else [] := by
  simp only [completed, extraction_eq_some begins fetched, extractsWhole, extracted]

/-- The stale tree of a call is gone and the others are as before. -/
theorem complete_of_fetchTree {s : PoolRun} {call : Call} {start : FileTree Bytes}
    {answer : Option (Except Failure Location)} (complete : Complete pool s)
    (orderly : Orderly pool formats s call)
    (begins : pool.fetchTree formats call.version call.target call.expectedBuildid s.tree =
      some start) : Complete pool ⟨start, s.extracted, answer⟩ := by
  have accepted := (fetchTree_cases begins).1
  have free := orderly.reached accepted
  refine ⟨(links_of_fetchTree complete.links free begins).1, complete.apart,
    fun entry member present => ?_⟩
  by_cases same : entry.1 = pool.destOf call
  · rw [same] at present
    exact absurd (noKernel_of_fetchTree complete.links free begins) present
  · have untouched := untouched_of_fetchTree free begins (fun stale =>
      orderly.apart accepted (.inl stale) entry member same) present
    exact complete.holds_of_untouched member untouched present

/-- What an orderly call extracts is plain. -/
theorem plain_of_orderly {s : PoolRun} {call : Call} {start : FileTree Bytes} {tarball : Bytes}
    (links : LinksApart pool s.tree) (orderly : Orderly pool formats s call)
    (begins : pool.fetchTree formats call.version call.target call.expectedBuildid s.tree =
      some start)
    (extracts : pool.extraction formats call s.tree = some (start, tarball)) :
    PlainExtraction formats call.outside tarball (pool.destOf call) start := by
  obtain ⟨startLinks, free⟩ := links_of_fetchTree links
    (orderly.reached (fetchTree_cases begins).1) begins
  refine ⟨(free.of_leading (dest_prefix_debugOf _)).direct, fun member isTouched accepted => ?_⟩
  exact ⟨orderly.plain start tarball extracts member isTouched accepted,
    startLinks.inDebug free (orderly.around start tarball extracts).1
      (memberLocation_debug _ accepted)⟩

/-- A complete extraction leaves exactly its members, since it writes over what was there. -/
theorem holdsExactly_of_whole (tar : Unpacks formats.unpackIn) {s : PoolRun} {call : Call}
    {start left : FileTree Bytes} {tarball : Bytes} (orderly : Orderly pool formats s call)
    (extracts : pool.extraction formats call s.tree = some (start, tarball))
    (plain : PlainExtraction formats call.outside tarball (pool.destOf call) start)
    (extracted : extractTarball formats call.outside tarball (pool.destOf call) start =
      (left, true)) :
    HoldsExactly left (pool.destOf call) (formats.unpack tarball).members := by
  obtain ⟨all, unstuck⟩ := unpackedBy_of_whole tar extracted
  intro loc below
  rw [fileAt_extractTarball tar plain extracted (by simp [unstuck]), all]
  cases new : placed (pool.destOf call) (formats.unpack tarball).members loc with
  | some node => rfl
  | none =>
    have whole : pool.extractsWhole formats call start tarball = true := by
      rw [extractsWhole, extracted]
    rw [Option.getD_none, Option.join_none]
    by_contra there
    exact orderly.overwrites start tarball extracts whole loc below there new

/-- An extraction that ends early leaves no kernel. -/
theorem noKernel_of_interrupted (tar : Unpacks formats.unpackIn) {s : PoolRun} {call : Call}
    {start left : FileTree Bytes} {tarball : Bytes} (orderly : Orderly pool formats s call)
    (extracts : pool.extraction formats call s.tree = some (start, tarball))
    (plain : PlainExtraction formats call.outside tarball (pool.destOf call) start)
    (absent : start.lookup (vmlinuxOf (pool.destOf call)) = none)
    (extracted : extractTarball formats call.outside tarball (pool.destOf call) start =
      (left, false)) : left.lookup (vmlinuxOf (pool.destOf call)) = none := by
  have early : pool.extractsWhole formats call start tarball = false := by
    rw [extractsWhole, extracted]
  have notReached := orderly.interrupted start tarball extracts early
  rcases lookup_extractTarball tar plain extracted (vmlinuxOf (pool.destOf call)) with
    same | ⟨onTheWay, -⟩ | ⟨member, isTouched, accepted, leading, -⟩
  · rw [same, absent]
  · have shorter := onTheWay.length_le
    simp only [vmlinuxOf, List.length_append, List.length_cons, List.length_nil] at shorter
    omega
  · exact absurd leading (notReached member isTouched accepted)

/-- After an extraction the invariant holds with the extraction that was completed. -/
theorem complete_of_extraction (tar : Unpacks formats.unpackIn) {s : PoolRun} {call : Call}
    {start left : FileTree Bytes} {tarball : Bytes} {whole : Bool}
    {answer : Option (Except Failure Location)}
    (complete : Complete pool s) (orderly : Orderly pool formats s call)
    (begins : pool.fetchTree formats call.version call.target call.expectedBuildid s.tree =
      some start)
    (fetched : pool.fetchTarball formats call.outside call.version call.target = .ok tarball)
    (extracted : extractTarball formats call.outside tarball (pool.destOf call) start =
      (left, whole)) :
    Complete pool ⟨left, pool.completed formats call s.tree ++ s.extracted, answer⟩ := by
  have extracts := extraction_eq_some begins fetched
  have plain := plain_of_orderly complete.links orderly begins extracts
  have before : Complete pool ⟨start, s.extracted, none⟩ :=
    complete_of_fetchTree complete orderly begins
  have links := before.links.extractTarball tar plain extracted
  obtain ⟨poolOutside, noneBelow⟩ := orderly.around start tarball extracts
  have others : ∀ entry ∈ s.extracted, entry.1 ≠ pool.destOf call →
      left.lookup (vmlinuxOf entry.1) ≠ none →
      ∃ members, (entry.1, members) ∈ s.extracted ∧ HoldsExactly left entry.1 members := by
    intro entry member different present
    have notAbove := orderly.apart (fetchTree_cases begins).1 (.inr (by rw [extracts]; simp))
      entry member different
    exact before.holds_of_untouched member
      (untouched_extractTarball tar plain extracted different notAbove
        (noneBelow entry member different)) present
  have log := completed_of_extracted begins fetched extracted
  cases whole with
  | false =>
    rw [log, if_neg Bool.false_ne_true, List.nil_append]
    refine ⟨links, complete.apart, fun entry member present => ?_⟩
    by_cases same : entry.1 = pool.destOf call
    · have absent := noKernel_of_interrupted tar orderly extracts plain
        (noKernel_of_fetchTree complete.links (orderly.reached (fetchTree_cases begins).1) begins)
        extracted
      rw [same] at present
      exact absurd absent present
    · exact others entry member same present
  | true =>
    rw [log, if_pos rfl, List.singleton_append]
    refine ⟨links, ?_, fun entry member present => ?_⟩
    · intro entry member
      rcases List.mem_cons.mp member with rfl | member
      · exact poolOutside
      · exact complete.apart entry member
    · by_cases same : entry.1 = pool.destOf call
      · rw [same]
        exact ⟨_, List.mem_cons_self .., holdsExactly_of_whole tar orderly extracts plain extracted⟩
      · rcases List.mem_cons.mp member with rfl | member
        · exact absurd rfl same
        · obtain ⟨members, isLogged, holds⟩ := others entry member same present
          exact ⟨members, List.mem_cons_of_mem _ isLogged, holds⟩

/-- A tree that was just extracted is complete, and the index and the stamp leave it so. -/
theorem complete_of_fetched (tar : Unpacks formats.unpackIn) {s : PoolRun} {call : Call}
    {start left : FileTree Bytes} {tarball : Bytes} (complete : Complete pool s)
    (orderly : Orderly pool formats s call)
    (begins : pool.fetchTree formats call.version call.target call.expectedBuildid s.tree =
      some start)
    (fetched : pool.fetchTarball formats call.outside call.version call.target = .ok tarball)
    (extracted : extractTarball formats call.outside tarball (pool.destOf call) start =
      (left, true))
    (present : left.pathExists (vmlinuxOf (pool.destOf call)) = true) :
    let s' : PoolRun :=
      { tree := writeStamp call.outside (pool.destOf call)
          (indexBuildIds formats call.outside (pool.destOf call) pool.dir left)
        extracted := pool.completed formats call s.tree ++ s.extracted
        answer := some (.ok (pool.destOf call)) }
    Complete pool s' ∧ ServesComplete s' := by
  have extracts := extraction_eq_some begins fetched
  have accepted := (fetchTree_cases begins).1
  have plain := plain_of_orderly complete.links orderly begins extracts
  obtain ⟨poolOutside, -⟩ := orderly.around _ _ extracts
  have before : Complete pool ⟨left, pool.completed formats call s.tree ++ s.extracted, none⟩ :=
    complete_of_extraction tar complete orderly begins fetched extracted
  have startFree := (links_of_fetchTree complete.links (orderly.reached accepted) begins).2
  have leftFree : left.LinkFree (debugOf (pool.destOf call)) := by
    intro above leading target isLink
    rcases lookup_extractTarball tar plain extracted above with
      same | ⟨-, -, isDir⟩ | ⟨-, -, -, -, noLink, -⟩
    · exact startFree above leading target (same ▸ isLink)
    · simp [isDir] at isLink
    · exact noLink target isLink
  obtain ⟨indexed, beside⟩ := untouched_indexBuildIds before.links formats call.outside
    (pool.destOf call)
  -- The kernel stays, so that no link is on the way to the stamp.
  have kernel := (before.links.pathExists_vmlinuxOf leftFree).mp present
  rw [← beside _ poolOutside _ (debugOf_prefix_vmlinuxOf _)] at kernel
  have destFree : (indexBuildIds formats call.outside (pool.destOf call) pool.dir left).LinkFree
      (pool.destOf call) :=
    FileTree.linkFree_of_present kernel (List.prefix_append ..) (by simp [vmlinuxOf])
  rw [completed_of_extracted begins fetched extracted, if_pos rfl, List.singleton_append] at before ⊢
  have untouched : ∀ entry ∈ (pool.destOf call, (formats.unpack tarball).members) :: s.extracted,
      Untouched entry.1 left (writeStamp call.outside (pool.destOf call)
        (indexBuildIds formats call.outside (pool.destOf call) pool.dir left)) := by
    intro entry member
    refine (beside _ (before.apart entry member)).trans
      (untouched_writeStamp destFree.direct (indexed.noLink_stampOf _) ?_)
    by_cases same : entry.1 = pool.destOf call
    · exact .inl same
    · rcases List.mem_cons.mp member with rfl | old
      · exact absurd rfl same
      · exact .inr (orderly.apart accepted (.inr (by rw [extracts]; simp)) entry old same)
  refine ⟨complete_of_untouched before (indexed.writeStamp destFree.direct) untouched, ?_⟩
  intro dest isAnswer
  simp only [Option.some.injEq, Except.ok.injEq] at isAnswer
  subst isAnswer
  exact ⟨_, List.mem_cons_self .., (untouched _ (List.mem_cons_self ..)).holdsExactly
    (holdsExactly_of_whole tar orderly extracts plain extracted)⟩

/-- One call keeps the invariant and serves a complete tree. -/
theorem complete_step (tar : Unpacks formats.unpackIn) {s s' : PoolRun} {call : Call}
    (invariant : Complete pool s ∧ ServesComplete s) (orderly : Orderly pool formats s call)
    (stepped : pool.step formats s call = some s') : Complete pool s' ∧ ServesComplete s' := by
  obtain ⟨complete, -⟩ := invariant
  have outcome := pool.ensured formats call.outside call.version call.target
    call.expectedBuildid s.tree
  rw [step, Option.some.injEq] at stepped
  subst stepped
  generalize (pool.ensureKernel formats call.outside call.version call.target
    call.expectedBuildid s.tree).1 = answer at *
  generalize (pool.ensureKernel formats call.outside call.version call.target
    call.expectedBuildid s.tree).2 = tree at *
  cases outcome with
  | refused isRefused =>
    have noFetch : pool.completed formats call s.tree = [] := by
      simp [completed, extraction, fetchTree, isRefused]
    rw [noFetch, List.nil_append]
    exact ⟨complete_of_untouched complete complete.links fun _ _ => .refl _,
      fun dest isAnswer => by simp at isAnswer⟩
  | served accepted present fits =>
    have noFetch : pool.fetchTree formats call.version call.target call.expectedBuildid s.tree =
        none := by
      simp [fetchTree, accepted, present, fits]
    have noExtraction : pool.completed formats call s.tree = [] := by
      simp [completed, extraction, noFetch]
    rw [noExtraction, List.nil_append]
    have free := orderly.reached accepted
    have direct := (free.of_leading (dest_prefix_debugOf _)).direct
    have untouched : ∀ entry ∈ s.extracted, Untouched entry.1 s.tree
        (writeStamp call.outside (pool.destOf call) s.tree) := by
      intro entry member
      apply untouched_writeStamp direct (complete.links.noLink_stampOf _)
      by_cases same : entry.1 = pool.destOf call
      · exact .inl same
      · exact .inr (orderly.apart accepted (.inl present) entry member same)
    refine ⟨complete_of_untouched complete (complete.links.writeStamp direct) untouched, ?_⟩
    intro dest isAnswer
    simp only [Option.some.injEq, Except.ok.injEq] at isAnswer
    subst isAnswer
    obtain ⟨_, member⟩ := orderly.cached accepted noFetch
    obtain ⟨members, isLogged, holds⟩ := complete.holds _ member
      ((complete.links.pathExists_vmlinuxOf free).mp present)
    exact ⟨members, isLogged, (untouched _ member).holdsExactly holds⟩
  | unfetched begins noTarball =>
    have noExtraction : pool.completed formats call s.tree = [] := by
      simp [completed, extraction, begins, noTarball]
    rw [noExtraction, List.nil_append]
    exact ⟨complete_of_fetchTree complete orderly begins, fun dest isAnswer => by simp at isAnswer⟩
  | unextracted begins fetched extracted =>
    exact ⟨complete_of_extraction tar complete orderly begins fetched extracted,
      fun dest isAnswer => by simp at isAnswer⟩
  | noKernel begins fetched extracted =>
    exact ⟨complete_of_extraction tar complete orderly begins fetched extracted,
      fun dest isAnswer => by simp at isAnswer⟩
  | complete begins fetched extracted present =>
    exact complete_of_fetched tar complete orderly begins fetched extracted present

/-- In a run in which every call meets the condition, each tree that is served holds exactly the
files of one completely extracted tarball. -/
theorem servesComplete_of_run (tar : Unpacks formats.unpackIn) {start s : PoolRun}
    {calls : List Call} (links : LinksApart pool start.tree)
    (nothingYet : start.extracted = [] ∧ start.answer = none)
    (meets : Machine.Meets (pool.step formats) (Orderly pool formats) start calls)
    (reached : Machine.run (pool.step formats) start calls = some s) : ServesComplete s := by
  have initial : Complete pool start ∧ ServesComplete start := by
    refine ⟨⟨links, ?_, ?_⟩, ?_⟩
    · simp [nothingYet.1]
    · simp [nothingYet.1]
    · intro dest isAnswer
      simp [nothingYet.2] at isAnswer
  exact (Machine.invariant_of_run (I := fun s => Complete pool s ∧ ServesComplete s)
    (fun _ _ _ invariant orderly stepped => complete_step tar invariant orderly stepped)
    initial meets reached).2

end SymbolPool

/-! ## An interrupted extraction -/

def kernelAndModule : List Member :=
  [⟨"debug/vmlinux".toList, .regular [0xab, 0xcd]⟩,
    ⟨"debug/modules/ath10k.ko".toList, .regular [0x12, 0x34]⟩]

/-- Every tarball has the kernel first and then one module; contents are their own notes. -/
def moduleFormats : Formats := { plainFormats with unpack := fun _ => ⟨kernelAndModule, true⟩ }

def localPool : SymbolPool where
  dir := ["symbols".toList]
  releaseUrl := "file:///srv/{version}/{target}/kernel-debug.tar.zst".toList
  snapshotUrl := []

/-- A call that finds the tarball on the local disk. -/
def localCall (stopAfter : Option ℕ) : Call where
  outside :=
    { now := 1751712000
      localSize _ := some 1
      localFile _ := some [0]
      get _ := none
      stopAfter
      listing names := names
      listing_perm _ := .refl _ }
  version := "25.12.5".toList
  target := "ath79/generic".toList
  expectedBuildid := none

/-- After an extraction that ended behind the kernel, the next call serves what there is. -/
theorem interrupted_tree_served :
    ∃ s, Machine.run (localPool.step moduleFormats) ⟨.empty, [], none⟩
        [localCall (some 1), localCall none] = some s ∧ ¬ ServesComplete s := by
  refine ⟨_, rfl, fun serves => ?_⟩
  obtain ⟨members, logged, -⟩ :=
    serves (localPool.destOf (localCall none)) (by rfl)
  exact absurd logged List.not_mem_nil

def emptyPool : PoolRun := ⟨.empty, [], none⟩

theorem plain_kernelAndModule : ∀ member ∈ kernelAndModule, member.kind.isPlain = true := by decide

theorem orderly_fetch : Orderly localPool moduleFormats emptyPool (localCall none) where
  reached _ := FileTree.linkFree_empty _
  plain _ _ _ member touched _ :=
    plain_kernelAndModule member (mem_of_mem_touchedBy unpacks_unpackPlain touched)
  cached _ noFetch := absurd noFetch (by decide +kernel)
  apart _ _ _ member := absurd member List.not_mem_nil
  around _ _ _ := ⟨by decide +kernel, fun _ member => absurd member List.not_mem_nil⟩
  overwrites start tarball extracts _ loc below there := by
    have same : localPool.extraction moduleFormats (localCall none) emptyPool.tree =
        some (.empty, [0]) := rfl
    rw [same, Option.some.injEq, Prod.mk.injEq] at extracts
    rw [← extracts.1, fileAt, FileTree.lookup_empty] at there
    · exact absurd rfl there
    · rintro rfl
      have shorter := below.length_le
      simp [debugOf] at shorter
  interrupted start tarball extracts early := by
    have same : localPool.extraction moduleFormats (localCall none) emptyPool.tree =
        some (.empty, [0]) := rfl
    rw [same, Option.some.injEq, Prod.mk.injEq] at extracts
    rw [← extracts.1, ← extracts.2] at early
    exact absurd early (by decide +kernel)

/-- The pool after the first call. -/
def fetchedPool : PoolRun :=
  (localPool.step moduleFormats emptyPool (localCall none)).getD emptyPool

theorem extraction_cached :
    localPool.extraction moduleFormats (localCall none) fetchedPool.tree = none := by
  decide +kernel

theorem orderly_cached : Orderly localPool moduleFormats fetchedPool (localCall none) where
  reached _ := FileTree.linkFree_of_isDir (by decide +kernel)
  plain _ _ extracts := by simp [extraction_cached] at extracts
  cached _ _ := ⟨kernelAndModule, by decide +kernel⟩
  apart _ _ := by decide +kernel
  around _ _ extracts := by simp [extraction_cached] at extracts
  overwrites _ _ extracts := by simp [extraction_cached] at extracts
  interrupted _ _ extracts := by simp [extraction_cached] at extracts

/-- A first fetch and a call that is served from the cache. -/
theorem fetched_and_cached_tree_complete :
    ∃ s, Machine.run (localPool.step moduleFormats) emptyPool [localCall none, localCall none] =
        some s ∧ s.answer = some (.ok (localPool.destOf (localCall none))) ∧ ServesComplete s := by
  have meets : Machine.Meets (localPool.step moduleFormats) (Orderly localPool moduleFormats)
      emptyPool [localCall none, localCall none] := by
    refine ⟨orderly_fetch, fun s stepped => ⟨?_, fun _ _ => trivial⟩⟩
    rw [show s = fetchedPool from (Option.some.inj stepped).symm]
    exact orderly_cached
  exact ⟨_, rfl, rfl, SymbolPool.servesComplete_of_run unpacks_unpackPlain
    (fun loc target isLink => absurd isLink (FileTree.linkFree_empty loc loc List.prefix_rfl target))
    ⟨rfl, rfl⟩ meets rfl⟩

end UcrashReport.Symbols
