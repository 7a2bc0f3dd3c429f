import UcrashReport.Decoder.Unpacking

/-! # What a call changes in the pool

Every step of `ensureKernel` is described by what lookups find afterwards, on paths on which no link
leads to a directory. A plain extraction makes its directory, and then leaves the files of the last
member at each place; indexing a file changes its link and the directories on the way there.
-/

namespace UcrashReport.Symbols

open Rust Rust.Text BuildId

theorem Outside.allow_eq_some {outside : Outside} {path : Location}
    {made : Option (FileTree Bytes)} {left : FileTree Bytes} :
    outside.allow path made = some left ↔ outside.refuses path = false ∧ made = some left := by
  unfold Outside.allow
  split_ifs with refused <;> simp [refused]

/-! ## One extraction -/

section Extraction

variable {formats : Formats} {outside : Outside} {data : Bytes} {dest : Location}
  {tree left : FileTree Bytes} {whole : Bool}

/-- The members that an extraction comes to when nothing goes wrong with them. -/
def membersOf (formats : Formats) (outside : Outside) (data : Bytes) : List Member :=
  outside.stopAfter.elim (formats.unpack data).members fun n => (formats.unpack data).members.take n

/-- The members that an extraction has behind it when it ends. -/
def unpackedBy (formats : Formats) (outside : Outside) (data : Bytes) (dest : Location)
    (tree : FileTree Bytes) : List Member :=
  (outside.allow dest (tree.createDirAll dest)).elim [] fun made =>
    unpackedMembers formats dest made (membersOf formats outside data)

/-- The member that it ends at. -/
def stuckBy (formats : Formats) (outside : Outside) (data : Bytes) (dest : Location)
    (tree : FileTree Bytes) : Option Member :=
  (outside.allow dest (tree.createDirAll dest)).bind fun made =>
    stuckMember formats dest made (membersOf formats outside data)

def touchedBy (formats : Formats) (outside : Outside) (data : Bytes) (dest : Location)
    (tree : FileTree Bytes) : List Member :=
  unpackedBy formats outside data dest tree ++ (stuckBy formats outside data dest tree).toList

/-- No link is on the way to the directory or to what is unpacked, which is directories and files. -/
structure PlainExtraction (formats : Formats) (outside : Outside) (data : Bytes) (dest : Location)
    (tree : FileTree Bytes) : Prop where
  direct : tree.Direct dest
  plain : ∀ member ∈ touchedBy formats outside data dest tree, isAccepted member = true →
    member.kind.isPlain = true ∧ tree.LinkFree (memberLocation dest member)

theorem mem_of_mem_touchedBy (tar : Unpacks formats.unpackIn) {member : Member}
    (isMember : member ∈ touchedBy formats outside data dest tree) :
    member ∈ (formats.unpack data).members := by
  unfold touchedBy unpackedBy stuckBy at isMember
  cases making : outside.allow dest (tree.createDirAll dest) with
  | none => simp [making] at isMember
  | some made =>
    rw [making] at isMember
    have taken : member ∈ membersOf formats outside data := mem_of_mem_touchedMembers tar isMember
    unfold membersOf at taken
    cases stop : outside.stopAfter with
    | none => simpa [stop] using taken
    | some n =>
      rw [stop] at taken
      exact List.mem_of_mem_take taken

/-- What a plain tarball puts where no link is. -/
theorem PlainTarball.extraction (tar : Unpacks formats.unpackIn)
    (plain : PlainTarball formats data) (outside : Outside) (direct : tree.Direct dest)
    (free : ∀ rest, tree.LinkFree (dest ++ rest)) :
    PlainExtraction formats outside data dest tree where
  direct := direct
  plain member isMember accepted :=
    ⟨plain member (mem_of_mem_touchedBy tar isMember) accepted, free _⟩

/-- An extraction does not begin, or makes its directory and unpacks there. -/
theorem extractTarball_eq
    (extracted : extractTarball formats outside data dest tree = (left, whole)) :
    (left = tree ∧ whole = false ∧ unpackedBy formats outside data dest tree = [] ∧
        stuckBy formats outside data dest tree = none) ∨
      ∃ made, tree.createDirAll dest = some made ∧
        left = (unpackMembers formats dest made (membersOf formats outside data)).1 ∧
        unpackedBy formats outside data dest tree =
          unpackedMembers formats dest made (membersOf formats outside data) ∧
        stuckBy formats outside data dest tree =
          stuckMember formats dest made (membersOf formats outside data) ∧
        (whole = true → outside.stopAfter = none ∧
          (unpackMembers formats dest made (formats.unpack data).members).2 = true) := by
  unfold extractTarball at extracted
  unfold unpackedBy stuckBy
  cases making : outside.allow dest (tree.createDirAll dest) with
  | none =>
    rw [making, Prod.mk.injEq] at extracted
    exact .inl ⟨extracted.1.symm, extracted.2.symm, rfl, rfl⟩
  | some made =>
    refine .inr ⟨made, (Outside.allow_eq_some.mp making).2, ?_, rfl, rfl, ?_⟩
    · cases stop : outside.stopAfter with
      | none =>
        simp only [making, stop, Prod.mk.injEq] at extracted
        simp only [membersOf, stop, Option.elim_none]
        exact extracted.1.symm
      | some n =>
        simp only [making, stop, Prod.mk.injEq] at extracted
        simp only [membersOf, stop, Option.elim_some]
        exact extracted.1.symm
    · rintro rfl
      cases stop : outside.stopAfter with
      | none =>
        simp only [making, stop, Prod.mk.injEq, Bool.and_eq_true] at extracted
        exact ⟨rfl, extracted.2.1⟩
      | some n => simp [making, stop] at extracted

/-- A location is as before, or was made a directory on the way. -/
theorem lookup_createDirAll {made : FileTree Bytes} (direct : tree.Direct dest)
    (making : tree.createDirAll dest = some made) (loc : Location) :
    made.lookup loc = tree.lookup loc ∨
      loc <+: dest ∧ tree.lookup loc = none ∧ made.lookup loc = some .dir := by
  obtain ⟨free, after⟩ := FileTree.createDirAll_spec direct making
  have new := after loc
  split_ifs at new with above
  · rcases free loc above with isDir | absent
    · exact .inl (new.trans isDir.symm)
    · exact .inr ⟨above, absent, new⟩
  · exact .inl new

theorem linkFree_createDirAll {made : FileTree Bytes} (direct : tree.Direct dest)
    (making : tree.createDirAll dest = some made) {loc : Location} (free : tree.LinkFree loc) :
    made.LinkFree loc := by
  intro above leading target isLink
  rcases lookup_createDirAll direct making above with same | ⟨-, -, isDir⟩
  · exact free above leading target (same ▸ isLink)
  · simp [isDir] at isLink

theorem fileAt_createDirAll {made : FileTree Bytes} (direct : tree.Direct dest)
    (making : tree.createDirAll dest = some made) (loc : Location) :
    fileAt made loc = fileAt tree loc := by
  rcases lookup_createDirAll direct making loc with same | ⟨-, absent, isDir⟩
  · exact fileAt_congr same
  · rw [fileAt, fileAt, isDir, absent]

theorem PlainExtraction.members {made : FileTree Bytes} {members : List Member}
    (plain : PlainExtraction formats outside data dest tree)
    (making : tree.createDirAll dest = some made)
    (unpacked : unpackedBy formats outside data dest tree = unpackedMembers formats dest made members)
    (stuck : stuckBy formats outside data dest tree = stuckMember formats dest made members) :
    PlainMembers formats dest made members := by
  intro member isMember accepted
  unfold touchedMembers at isMember
  rw [← unpacked, ← stuck] at isMember
  obtain ⟨isPlain, free⟩ := plain.plain member isMember accepted
  exact ⟨isPlain, linkFree_createDirAll plain.direct making free⟩

/-- The files after an extraction, complete or not. -/
theorem fileAt_extractTarball (tar : Unpacks formats.unpackIn)
    (plain : PlainExtraction formats outside data dest tree)
    (extracted : extractTarball formats outside data dest tree = (left, whole)) {loc : Location}
    (unstuck : ∀ member, stuckBy formats outside data dest tree = some member →
      ¬ loc <+: memberLocation dest member) :
    fileAt left loc =
      (placed dest (unpackedBy formats outside data dest tree) loc).getD (fileAt tree loc) := by
  rcases extractTarball_eq extracted with ⟨rfl, -, nothing, -⟩ | ⟨made, making, rfl, same, stuck, -⟩
  · rw [nothing]
    rfl
  · rw [same, fileAt_unpackMembers tar (plain.members making same stuck) (stuck ▸ unstuck),
      fileAt_createDirAll plain.direct making]

/-- A complete extraction unpacks every member. -/
theorem unpackedBy_of_whole (tar : Unpacks formats.unpackIn)
    (extracted : extractTarball formats outside data dest tree = (left, true)) :
    unpackedBy formats outside data dest tree = (formats.unpack data).members ∧
      stuckBy formats outside data dest tree = none := by
  rcases extractTarball_eq extracted with ⟨-, impossible, -, -⟩ | ⟨made, -, -, same, stuck, whole⟩
  · contradiction
  · obtain ⟨unstopped, finished⟩ := whole rfl
    have all : membersOf formats outside data = (formats.unpack data).members := by
      rw [membersOf, unstopped, Option.elim_none]
    rw [same, stuck, all]
    exact of_unpackMembers_whole tar finished

/-- A location after an extraction is as before, or was made a directory on the way down, or lies at
or above the place of a member. There it is no link, and nothing only where the extraction ended. -/
theorem lookup_extractTarball (tar : Unpacks formats.unpackIn)
    (plain : PlainExtraction formats outside data dest tree)
    (extracted : extractTarball formats outside data dest tree = (left, whole)) (loc : Location) :
    left.lookup loc = tree.lookup loc ∨
      (loc <+: dest ∧ tree.lookup loc = none ∧ left.lookup loc = some .dir) ∨
      ∃ member ∈ touchedBy formats outside data dest tree, isAccepted member = true ∧
        loc <+: memberLocation dest member ∧
        (∀ target, left.lookup loc ≠ some (.link target)) ∧
        (left.lookup loc = none → stuckBy formats outside data dest tree = some member ∧
          loc = memberLocation dest member) := by
  rcases extractTarball_eq extracted with ⟨rfl, -, -, -⟩ | ⟨made, making, rfl, same, stuck, -⟩
  · exact .inl rfl
  · rcases lookup_unpackMembers tar (plain.members making same stuck) loc with unchanged | found
    · rw [unchanged]
      exact (lookup_createDirAll plain.direct making loc).imp id .inl
    · refine .inr (.inr ?_)
      rwa [touchedBy, same, stuck]

/-- Whatever the tarball holds, an extraction changes nothing that was there but what lies below the
directory that its path leads to, if the path does not pass through it. -/
theorem lookup_extractTarball_outside (tar : Unpacks formats.unpackIn)
    (extracted : extractTarball formats outside data dest tree = (left, whole)) {loc : Location}
    (beside : ∀ root, tree.destination dest = some root →
      (tree.prune root).destination dest = some root ∧ ¬ root <+: loc)
    (present : tree.lookup loc ≠ none) : left.lookup loc = tree.lookup loc := by
  rcases extractTarball_eq extracted with ⟨rfl, -, -, -⟩ | ⟨made, making, rfl, -, -, -⟩
  · rfl
  · obtain ⟨makes, isDir⟩ := FileTree.createDirAll_makes making
    obtain ⟨root, leads, there⟩ := Option.bind_eq_some_iff.mp isDir
    rw [makes.destination_eq] at leads
    obtain ⟨outright, outside⟩ := beside root leads
    rw [lookup_unpackMembers_outside tar there _ _ fun inside => outside inside.1]
    · exact makes.lookup_of_present present
    · rw [(makes.prune root).destination_eq]
      exact outright

end Extraction

/-! ## The index and the stamp -/

section Index

variable {formats : Formats} {outside : Outside} {poolRoot : Location} {tree tree' : FileTree Bytes}

/-- What indexing one file can come to. -/
theorem indexFile_cases {file : Location} {goesOn : Bool}
    (indexed : indexFile formats outside poolRoot tree file = (tree', goesOn)) :
    tree' = tree ∨ ∃ id made, fileBuildId formats tree file = some id ∧ 4 ≤ byteLen id ∧
      tree.createDirAll (poolRoot ++ [".build-id".toList, id.take 2]) = some made ∧
      (tree' = made.orUnchanged (made.removeFile (debugLink poolRoot id)) ∨
        ∃ target,
          (made.orUnchanged (made.removeFile (debugLink poolRoot id))).canonicalize file =
            some target ∧
          (made.orUnchanged (made.removeFile (debugLink poolRoot id))).symlink target
            (debugLink poolRoot id) = some tree') := by
  unfold indexFile at indexed
  cases buildId : fileBuildId formats tree file with
  | none =>
    rw [buildId, Prod.mk.injEq] at indexed
    exact .inl indexed.1.symm
  | some id =>
    simp only [buildId] at indexed
    split_ifs at indexed with short
    · rw [Prod.mk.injEq] at indexed
      exact .inl indexed.1.symm
    · cases making : outside.allow (poolRoot ++ [".build-id".toList, id.take 2])
        (tree.createDirAll (poolRoot ++ [".build-id".toList, id.take 2])) with
      | none =>
        rw [making, Prod.mk.injEq] at indexed
        exact .inl indexed.1.symm
      | some made =>
        refine .inr ⟨id, made, rfl, by omega, (Outside.allow_eq_some.mp making).2, ?_⟩
        simp only [making] at indexed
        generalize made.orUnchanged (made.removeFile (debugLink poolRoot id)) = cleared at *
        cases canonical : cleared.canonicalize file with
        | none =>
          rw [canonical, Prod.mk.injEq] at indexed
          exact .inl indexed.1.symm
        | some target =>
          simp only [canonical] at indexed
          cases linked : outside.allow (debugLink poolRoot id)
            (cleared.symlink target (debugLink poolRoot id)) with
          | none =>
            rw [linked, Prod.mk.injEq] at indexed
            exact .inl indexed.1.symm
          | some tree'' =>
            rw [linked, Prod.mk.injEq] at indexed
            exact .inr ⟨target, rfl, by rw [(Outside.allow_eq_some.mp linked).2, indexed.1]⟩

theorem lookup_orUnchanged_removeFile {loc : Location} (direct : tree.Direct loc.dropLast)
    (query : Location) :
    (tree.orUnchanged (tree.removeFile loc)).lookup query = tree.lookup query ∨
      (query = loc ∧ (tree.orUnchanged (tree.removeFile loc)).lookup query = none) := by
  cases removed : tree.removeFile loc with
  | none => exact .inl rfl
  | some tree' =>
    rw [FileTree.orUnchanged, Option.getD_some]
    have after := FileTree.removeFile_spec direct removed query
    split_ifs at after with here
    · exact .inr ⟨here, after⟩
    · exact .inl after

theorem lookup_orUnchanged_removeDirAll {loc : Location} (direct : tree.Direct loc.dropLast)
    (query : Location) :
    (tree.orUnchanged (tree.removeDirAll loc)).lookup query = tree.lookup query ∨
      (loc <+: query ∧ (tree.orUnchanged (tree.removeDirAll loc)).lookup query = none) := by
  cases removed : tree.removeDirAll loc with
  | none => exact .inl rfl
  | some tree' =>
    rw [FileTree.orUnchanged, Option.getD_some]
    have after := FileTree.removeDirAll_spec direct removed query
    split_ifs at after with inside
    · exact .inr ⟨inside.2, after⟩
    · exact .inl after

theorem debugLink_dropLast (poolRoot : Location) (id : Text) :
    (debugLink poolRoot id).dropLast = poolRoot ++ [".build-id".toList, id.take 2] := by
  have split : debugLink poolRoot id =
      poolRoot ++ [".build-id".toList, id.take 2] ++ [id.drop 2 ++ ".debug".toList] := by
    simp [debugLink]
  rw [split, List.dropLast_concat]

/-- Clearing the place of a link changes at most that place. -/
theorem lookup_cleared {id : Text} (free : tree.LinkFree (debugLink poolRoot id).dropLast)
    (query : Location) :
    (tree.orUnchanged (tree.removeFile (debugLink poolRoot id))).lookup query = tree.lookup query ∨
      (query = debugLink poolRoot id ∧
        (tree.orUnchanged (tree.removeFile (debugLink poolRoot id))).lookup query = none) :=
  lookup_orUnchanged_removeFile free.direct query

theorem linkFree_cleared {id : Text} (free : tree.LinkFree (debugLink poolRoot id).dropLast)
    {loc : Location} (free' : tree.LinkFree loc) :
    (tree.orUnchanged (tree.removeFile (debugLink poolRoot id))).LinkFree loc := by
  intro above leading target isLink
  rcases lookup_cleared free above with same | ⟨-, gone⟩
  · exact free' above leading target (same ▸ isLink)
  · simp [gone] at isLink

/-- Indexing a file changes at most the directories on the way to its link, where nothing was, and
the link. -/
theorem lookup_indexFile (formats : Formats) (outside : Outside) (file : Location)
    (direct : ∀ name, tree.Direct (poolRoot ++ [".build-id".toList, name])) (loc : Location) :
    let tree' := (indexFile formats outside poolRoot tree file).1
    tree'.lookup loc = tree.lookup loc ∨ ∃ id,
      (loc <+: poolRoot ++ [".build-id".toList, List.take 2 id] ∧ tree.lookup loc = none ∧
          tree'.lookup loc = some .dir) ∨
        loc = debugLink poolRoot id ∧
          (tree'.lookup loc = none ∨ ∃ target, tree'.lookup loc = some (.link target)) := by
  intro tree'
  have indexed : indexFile formats outside poolRoot tree file =
      (tree', (indexFile formats outside poolRoot tree file).2) := rfl
  clear_value tree'
  rcases indexFile_cases indexed with rfl | ⟨id, made, -, -, making, changed⟩
  · exact .inl rfl
  · have new := lookup_createDirAll (direct (id.take 2)) making
    have free : made.LinkFree (debugLink poolRoot id).dropLast := by
      rw [debugLink_dropLast]
      exact linkFree_createDirAll (direct _) making
        (FileTree.linkFree_of_createDirAll (direct _) making)
    have cleared := lookup_cleared free loc
    have clearedFree := linkFree_cleared free free
    generalize made.orUnchanged (made.removeFile (debugLink poolRoot id)) = middle at *
    by_cases isLink : loc = debugLink poolRoot id
    · subst isLink
      rcases changed with rfl | ⟨target, -, linked⟩
      · rcases cleared with same | ⟨-, gone⟩
        · rw [same]
          refine .inl ((new _).resolve_right ?_)
          rintro ⟨above, -⟩
          have shorter := above.length_le
          simp [debugLink] at shorter
        · exact .inr ⟨id, .inr ⟨rfl, .inl gone⟩⟩
      · have there := (FileTree.symlink_spec clearedFree.direct linked).2.2 (debugLink poolRoot id)
        rw [if_pos rfl] at there
        exact .inr ⟨id, .inr ⟨rfl, .inr ⟨target, there⟩⟩⟩
    · have middleSame : middle.lookup loc = made.lookup loc :=
        cleared.resolve_right fun gone => isLink gone.1
      have same : tree'.lookup loc = made.lookup loc := by
        rcases changed with rfl | ⟨target, -, linked⟩
        · exact middleSame
        · rw [(FileTree.symlink_spec clearedFree.direct linked).2.2, if_neg isLink, middleSame]
      rw [same]
      exact (new loc).imp_right fun made => ⟨id, .inl made⟩

/-- What every file that is indexed preserves, the whole index preserves. -/
theorem indexFiles_induction {I : FileTree Bytes → Prop}
    (step : ∀ tree file, I tree → I (indexFile formats outside poolRoot tree file).1)
    (files : List Location) (start : I tree) :
    I (indexFiles formats outside poolRoot tree files) := by
  induction files generalizing tree with
  | nil => exact start
  | cons file rest ih =>
    have next := step tree file start
    unfold indexFiles
    split
    · next indexed => exact ih (by rwa [indexed] at next)
    · next indexed => rwa [indexed] at next

end Index

theorem debugLink_getLast (poolRoot : Location) (id : Text) :
    (debugLink poolRoot id).getLast? = some (id.drop 2 ++ ".debug".toList) := by
  simp [debugLink]

/-- The links of the index are named otherwise. -/
theorem debugLink_apart (poolRoot : Location) (id : Text) :
    (debugLink poolRoot id).getLast? ≠ some "vmlinux".toList ∧
      (debugLink poolRoot id).getLast? ≠ some "last_used".toList := by
  have last : (id.drop 2 ++ ".debug".toList).getLast? = some 'g' := by
    rw [List.getLast?_append_of_ne_nil _ (by decide)]
    decide
  rw [debugLink_getLast]
  constructor
  · intro same
    rw [Option.some.inj same] at last
    revert last
    decide
  · intro same
    rw [Option.some.inj same] at last
    revert last
    decide

/-- A stamp changes one location; what is written there may be cut off. -/
theorem lookup_writeStamp (outside : Outside) {dest : Location} {tree : FileTree Bytes}
    (direct : tree.Direct dest)
    (noLink : ∀ target, tree.lookup (stampOf dest) ≠ some (.link target)) (loc : Location) :
    (SymbolPool.writeStamp outside dest tree).lookup loc = tree.lookup loc ∨
      loc = stampOf dest ∧ ∃ content,
        outside.stampWritten.part (utf8Encode (decimal outside.now)) = some content ∧
          (SymbolPool.writeStamp outside dest tree).lookup loc = some (.file content) := by
  have parent : tree.Direct (stampOf dest).dropLast := by rwa [stampOf, List.dropLast_concat]
  unfold SymbolPool.writeStamp
  cases written : (outside.stampWritten.part (utf8Encode (decimal outside.now))).bind fun content =>
    tree.write (stampOf dest) content with
  | none => exact .inl rfl
  | some tree' =>
    obtain ⟨content, isPart, writing⟩ := Option.bind_eq_some_iff.mp written
    rw [FileTree.orUnchanged, Option.getD_some]
    have new := FileTree.write_spec parent noLink writing loc
    split_ifs at new with here
    · exact .inr ⟨here, content, isPart, new⟩
    · exact .inl new

/-! ## One call -/

/-- The arguments of one call of `ensureKernel` and what it finds outside. -/
structure Call where
  outside : Outside
  version : Text
  target : Text
  expectedBuildid : Option Text

namespace SymbolPool

variable (pool : SymbolPool)

/-- The tree in which a call begins to fetch, if it does: without a stale tree of the pair. -/
def fetchTree (formats : Formats) (version target : Text) (expectedBuildid : Option Text)
    (tree : FileTree Bytes) : Option (FileTree Bytes) :=
  let dest := pool.treeOf version target
  if rejects version target then none
  else if tree.pathExists (vmlinuxOf dest) then
    if !isStale formats tree dest expectedBuildid then none
    else some (tree.orUnchanged (tree.removeDirAll dest))
  else some tree

/-- Everything that a call can come to. -/
inductive Ensured (formats : Formats) (outside : Outside) (version target : Text)
    (expectedBuildid : Option Text) (tree : FileTree Bytes) :
    Except Failure Location → FileTree Bytes → Prop
  | refused (isRefused : rejects version target = true) :
      Ensured formats outside version target expectedBuildid tree
        (.error (.bail "invalid version/target".toList)) tree
  | served (accepted : rejects version target = false)
      (present : tree.pathExists (vmlinuxOf (pool.treeOf version target)) = true)
      (fits : isStale formats tree (pool.treeOf version target) expectedBuildid = false) :
      Ensured formats outside version target expectedBuildid tree
        (.ok (pool.treeOf version target))
        (writeStamp outside (pool.treeOf version target) tree)
  | unfetched {start : FileTree Bytes} {e : Failure}
      (begins : pool.fetchTree formats version target expectedBuildid tree = some start)
      (noTarball : pool.fetchTarball formats outside version target = .error e) :
      Ensured formats outside version target expectedBuildid tree (.error e) start
  | unextracted {start left : FileTree Bytes} {tarball : Bytes}
      (begins : pool.fetchTree formats version target expectedBuildid tree = some start)
      (fetched : pool.fetchTarball formats outside version target = .ok tarball)
      (extracted : extractTarball formats outside tarball (pool.treeOf version target) start =
        (left, false)) :
      Ensured formats outside version target expectedBuildid tree (.error .external) left
  | noKernel {start left : FileTree Bytes} {tarball : Bytes}
      (begins : pool.fetchTree formats version target expectedBuildid tree = some start)
      (fetched : pool.fetchTarball formats outside version target = .ok tarball)
      (extracted : extractTarball formats outside tarball (pool.treeOf version target) start =
        (left, true))
      (absent : left.pathExists (vmlinuxOf (pool.treeOf version target)) = false) :
      Ensured formats outside version target expectedBuildid tree
        (.error (.bail "tarball did not contain debug/vmlinux".toList)) left
  | complete {start left : FileTree Bytes} {tarball : Bytes}
      (begins : pool.fetchTree formats version target expectedBuildid tree = some start)
      (fetched : pool.fetchTarball formats outside version target = .ok tarball)
      (extracted : extractTarball formats outside tarball (pool.treeOf version target) start =
        (left, true))
      (present : left.pathExists (vmlinuxOf (pool.treeOf version target)) = true) :
      Ensured formats outside version target expectedBuildid tree
        (.ok (pool.treeOf version target))
        (writeStamp outside (pool.treeOf version target)
          (indexBuildIds formats outside (pool.treeOf version target) pool.dir left))

/-- A fetch comes to one of the last four outcomes. -/
theorem ensured_fetchKernel {formats : Formats} {outside : Outside} {version target : Text}
    {expectedBuildid : Option Text} {tree start : FileTree Bytes}
    (begins : pool.fetchTree formats version target expectedBuildid tree = some start) :
    pool.Ensured formats outside version target expectedBuildid tree
      (pool.fetchKernel formats outside version target start).1
      (pool.fetchKernel formats outside version target start).2 := by
  unfold fetchKernel
  cases fetched : pool.fetchTarball formats outside version target with
  | error e => exact .unfetched begins fetched
  | ok tarball =>
    simp only [extractAndFinish]
    cases extracted : extractTarball formats outside tarball (pool.treeOf version target) start with
    | mk left whole =>
      cases whole with
      | false => exact .unextracted begins fetched extracted
      | true =>
        simp only [finishExtract]
        cases present : left.pathExists (vmlinuxOf (pool.treeOf version target)) with
        | false => exact .noKernel begins fetched extracted present
        | true => exact .complete begins fetched extracted present

theorem ensured (formats : Formats) (outside : Outside) (version target : Text)
    (expectedBuildid : Option Text) (tree : FileTree Bytes) :
    pool.Ensured formats outside version target expectedBuildid tree
      (pool.ensureKernel formats outside version target expectedBuildid tree).1
      (pool.ensureKernel formats outside version target expectedBuildid tree).2 := by
  unfold ensureKernel
  dsimp only
  split_ifs with isRefused present fits
  · exact .refused isRefused
  · exact .served (by simpa using isRefused) present (by simpa using fits)
  · exact pool.ensured_fetchKernel (by simp [fetchTree, isRefused, present, fits])
  · exact pool.ensured_fetchKernel (by simp [fetchTree, isRefused, present])

/-! ## The extraction of a call -/

variable (formats : Formats)

def destOf (call : Call) : Location := pool.treeOf call.version call.target

/-- The tree in which the call extracts and the tarball that it extracts, if it comes to that. -/
def extraction (call : Call) (tree : FileTree Bytes) : Option (FileTree Bytes × Bytes) :=
  (pool.fetchTree formats call.version call.target call.expectedBuildid tree).bind fun start =>
    match pool.fetchTarball formats call.outside call.version call.target with
    | .ok tarball => some (start, tarball)
    | .error _ => none

/-- The extraction of the call comes to the end of its tarball. -/
def extractsWhole (call : Call) (start : FileTree Bytes) (tarball : Bytes) : Bool :=
  (extractTarball formats call.outside tarball (pool.destOf call) start).2

variable {pool} {formats}

/-- The tree in which a fetch begins: nothing was there, or the stale tree is gone. -/
theorem fetchTree_cases {call : Call} {tree start : FileTree Bytes}
    (begins : pool.fetchTree formats call.version call.target call.expectedBuildid tree =
      some start) :
    rejects call.version call.target = false ∧
      ((start = tree ∧ tree.pathExists (vmlinuxOf (pool.destOf call)) = false) ∨
        (start = tree.orUnchanged (tree.removeDirAll (pool.destOf call)) ∧
          tree.pathExists (vmlinuxOf (pool.destOf call)) = true)) := by
  unfold fetchTree at begins
  dsimp only at begins
  split_ifs at begins with isRefused present fits
  · rw [Option.some.injEq] at begins
    exact ⟨by simpa using isRefused, .inr ⟨begins.symm, present⟩⟩
  · rw [Option.some.injEq] at begins
    exact ⟨by simpa using isRefused, .inl ⟨begins.symm, by simpa [destOf] using present⟩⟩

theorem extraction_eq_some {call : Call} {tree start : FileTree Bytes} {tarball : Bytes}
    (begins : pool.fetchTree formats call.version call.target call.expectedBuildid tree =
      some start)
    (fetched : pool.fetchTarball formats call.outside call.version call.target = .ok tarball) :
    pool.extraction formats call tree = some (start, tarball) := by
  rw [extraction, begins, Option.bind_some, fetched]

end SymbolPool

end UcrashReport.Symbols
