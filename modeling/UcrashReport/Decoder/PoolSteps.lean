import UcrashReport.Decoder.Collections
import UcrashReport.Machine.Process

/-! # The pool step by step

The decode loop and the collector work on one pool at the same time. `ensureStep` takes one step of
`ensureKernel` on the file system, `gcStep` one step of `gc`; alone, each of them comes to what the
whole function does.
-/

namespace UcrashReport.Symbols

open Rust Rust.Text BuildId

/-- What a call does next. -/
inductive FetchStage
  | begin
  | compare
  | drop
  | download
  | prepare (tarball : Bytes)
  | unpack (members : List Member) (intact : Bool)
  | finish
  | list
  | index (files : List Location)
  | stamp

/-- What a collection does next. The walks have directories still to be listed and entries that were
found; `remove` and `unlink` follow when the check before them said so. -/
inductive GcStage
  | begin
  | walk (pending : List Text) (found : List Location)
  | trees (dirs : List Location)
  | remove (dir : Location) (rest : List Location)
  | beginLinks
  | walkLinks (pending : List Text) (found : List Location)
  | links (links : List Location)
  | unlink (link : Location) (rest : List Location)

/-- The clock and the configured retention when a collection begins. -/
structure Pass where
  outside : Outside
  retentionWeeks : ℕ

namespace SymbolPool

variable (pool : SymbolPool) (formats : Formats)

def ensureStep (call : Call) (tree : FileTree Bytes) :
    FetchStage → FileTree Bytes × (Except Failure Location ⊕ FetchStage)
  | .begin =>
    if rejects call.version call.target then
      (tree, .inl (.error (.bail "invalid version/target".toList)))
    else if tree.pathExists (vmlinuxOf (pool.destOf call)) then (tree, .inr .compare)
    else (tree, .inr .download)
  | .compare =>
    if !isStale formats tree (pool.destOf call) call.expectedBuildid then (tree, .inr .stamp)
    else (tree, .inr .drop)
  | .drop => (tree.orUnchanged (tree.removeDirAll (pool.destOf call)), .inr .download)
  | .download =>
    match pool.fetchTarball formats call.outside call.version call.target with
    | .error e => (tree, .inl (.error e))
    | .ok tarball => (tree, .inr (.prepare tarball))
  | .prepare tarball =>
    match call.outside.allow (pool.destOf call) (tree.createDirAll (pool.destOf call)) with
    | none => (tree, .inl (.error .external))
    | some made =>
      let archive := formats.unpack tarball
      match call.outside.stopAfter with
      | some n => (made, .inr (.unpack (archive.members.take n) false))
      | none => (made, .inr (.unpack archive.members archive.intact))
  | .unpack [] intact =>
    if intact then (tree, .inr .finish) else (tree, .inl (.error .external))
  | .unpack (member :: rest) intact =>
    if hasDebugPrefix member then
      match formats.unpackIn (pool.destOf call) tree member with
      | (tree, true) => (tree, .inr (.unpack rest intact))
      | (tree, false) => (tree, .inl (.error .external))
    else (tree, .inr (.unpack rest intact))
  | .finish =>
    if tree.pathExists (vmlinuxOf (pool.destOf call)) then (tree, .inr .list)
    else (tree, .inl (.error (.bail "tarball did not contain debug/vmlinux".toList)))
  | .list =>
    let modules := call.outside.listing ((tree.readDir (modulesOf (pool.destOf call))).getD [])
    (tree, .inr (.index (vmlinuxOf (pool.destOf call) ::
      modules.map fun name => modulesOf (pool.destOf call) ++ [name])))
  | .index [] => (tree, .inr .stamp)
  | .index (file :: rest) =>
    match indexFile formats call.outside pool.dir tree file with
    | (tree, true) => (tree, .inr (.index rest))
    | (tree, false) => (tree, .inr .stamp)
  | .stamp => (writeStamp call.outside (pool.destOf call) tree, .inl (.ok (pool.destOf call)))

/-- One directory of a walk. -/
def listed (outside : Outside) (tree : FileTree Bytes) (root : Location) (first : Text) :
    List Location :=
  (outside.listing ((tree.readDir (root ++ [first])).getD [])).map fun second =>
    root ++ [first, second]

def gcStep (pass : Pass) (tree : FileTree Bytes) : GcStage → FileTree Bytes × (Unit ⊕ GcStage)
  | .begin => (tree, .inr (.walk (pass.outside.listing ((tree.readDir pool.snapshotDir).getD [])) []))
  | .walk [] found => (tree, .inr (.trees found))
  | .walk (first :: pending) found =>
    (tree, .inr (.walk pending (found ++ listed pass.outside tree pool.snapshotDir first)))
  | .trees [] => (tree, .inr .beginLinks)
  | .trees (dir :: rest) =>
    if lastUsed tree dir < cutoffOf pass.outside pass.retentionWeeks then
      (tree, .inr (.remove dir rest))
    else (tree, .inr (.trees rest))
  | .remove dir rest => (tree.orUnchanged (tree.removeDirAll dir), .inr (.trees rest))
  | .beginLinks =>
    (tree, .inr (.walkLinks (pass.outside.listing ((tree.readDir pool.indexDir).getD [])) []))
  | .walkLinks [] found => (tree, .inr (.links found))
  | .walkLinks (first :: pending) found =>
    (tree, .inr (.walkLinks pending (found ++ listed pass.outside tree pool.indexDir first)))
  | .links [] => (tree, .inl ())
  | .links (link :: rest) =>
    if tree.isSymlink link && !tree.pathExists link then (tree, .inr (.unlink link rest))
    else (tree, .inr (.links rest))
  | .unlink link rest => (tree.orUnchanged (tree.removeFile link), .inr (.links rest))

/-! ## Alone -/

variable {pool} {formats}

section Ensure

variable {call : Call} {tree : FileTree Bytes}

theorem completes_stamp :
    Machine.Completes (pool.ensureStep formats call) tree .stamp (.ok (pool.destOf call))
      (writeStamp call.outside (pool.destOf call) tree) := .answer rfl

/-- The index is written and then the stamp. -/
theorem completes_index (files : List Location) :
    Machine.Completes (pool.ensureStep formats call) tree (.index files) (.ok (pool.destOf call))
      (writeStamp call.outside (pool.destOf call)
        (indexFiles formats call.outside pool.dir tree files)) := by
  induction files generalizing tree with
  | nil => exact .next rfl completes_stamp
  | cons file rest ih =>
    unfold indexFiles
    cases indexed : indexFile formats call.outside pool.dir tree file with
    | mk next goesOn =>
      cases goesOn with
      | true => exact .next (by simp only [ensureStep, indexed]) ih
      | false => exact .next (by simp only [ensureStep, indexed]) completes_stamp

theorem completes_finish :
    let result := pool.finishExtract formats call.outside (pool.destOf call) tree
    Machine.Completes (pool.ensureStep formats call) tree .finish result.1 result.2 := by
  intro result
  simp only [result, finishExtract]
  split_ifs with present
  · have finished : pool.ensureStep formats call tree .finish = (tree, .inr .list) := by
      simp only [ensureStep, if_pos present]
    exact .next finished (.next (m := tree) rfl (completes_index _))
  · exact .answer (by simp only [ensureStep, if_neg present])

variable (pool formats call) in
/-- The members are unpacked one after another. -/
theorem completes_unpack (members : List Member) (intact : Bool) :
    let left := unpackMembers formats (pool.destOf call) tree members
    let result :=
      if left.2 && intact then
        pool.finishExtract formats call.outside (pool.destOf call) left.1
      else (.error .external, left.1)
    Machine.Completes (pool.ensureStep formats call) tree (.unpack members intact) result.1
      result.2 := by
  induction members generalizing tree with
  | nil =>
    cases intact with
    | true => exact .next (m := tree) rfl completes_finish
    | false => exact .answer rfl
  | cons member rest ih =>
    unfold unpackMembers
    by_cases prefixed : hasDebugPrefix member = true
    · rw [if_pos prefixed]
      cases unpacked : formats.unpackIn (pool.destOf call) tree member with
      | mk next done =>
        cases done with
        | false =>
          have failed : pool.ensureStep formats call tree (.unpack (member :: rest) intact) =
              (next, .inl (.error .external)) := by
            simp only [ensureStep, if_pos prefixed, unpacked]
          exact .answer failed
        | true =>
          have taken : pool.ensureStep formats call tree (.unpack (member :: rest) intact) =
              (next, .inr (.unpack rest intact)) := by
            simp only [ensureStep, if_pos prefixed, unpacked]
          exact .next taken ih
    · have skipped : pool.ensureStep formats call tree (.unpack (member :: rest) intact) =
          (tree, .inr (.unpack rest intact)) := by
        simp only [ensureStep, if_neg prefixed]
      rw [if_neg prefixed]
      exact .next skipped ih

theorem completes_prepare (tarball : Bytes) :
    let result := pool.extractAndFinish formats call.outside tarball (pool.destOf call) tree
    Machine.Completes (pool.ensureStep formats call) tree (.prepare tarball) result.1 result.2 := by
  intro result
  simp only [result, extractAndFinish, extractTarball]
  cases making : call.outside.allow (pool.destOf call) (tree.createDirAll (pool.destOf call)) with
  | none => exact .answer (by simp only [ensureStep, making])
  | some made =>
    cases stops : call.outside.stopAfter with
    | some n =>
      have prepared : pool.ensureStep formats call tree (.prepare tarball) =
          (made, .inr (.unpack ((formats.unpack tarball).members.take n) false)) := by
        simp only [ensureStep, making, stops]
      have unpacks := @completes_unpack pool formats call made
        ((formats.unpack tarball).members.take n) false
      simp only [Bool.and_false, Bool.false_eq_true, if_false] at unpacks
      exact .next prepared unpacks
    | none =>
      have prepared : pool.ensureStep formats call tree (.prepare tarball) =
          (made, .inr (.unpack (formats.unpack tarball).members (formats.unpack tarball).intact)) := by
        simp only [ensureStep, making, stops]
      have unpacks := @completes_unpack pool formats call made
        (formats.unpack tarball).members (formats.unpack tarball).intact
      refine .next prepared ?_
      dsimp only at unpacks ⊢
      cases whole :
          (unpackMembers formats (pool.destOf call) made (formats.unpack tarball).members).2 &&
            (formats.unpack tarball).intact with
      | true => simpa only [whole, if_true] using unpacks
      | false => simpa only [whole, Bool.false_eq_true, if_false] using unpacks

theorem completes_download :
    let result := pool.fetchKernel formats call.outside call.version call.target tree
    Machine.Completes (pool.ensureStep formats call) tree .download result.1 result.2 := by
  intro result
  simp only [result, fetchKernel]
  cases fetched : pool.fetchTarball formats call.outside call.version call.target with
  | error e => exact .answer (by simp only [ensureStep, fetched])
  | ok tarball =>
    have downloaded : pool.ensureStep formats call tree .download =
        (tree, .inr (.prepare tarball)) := by
      simp only [ensureStep, fetched]
    exact .next downloaded (completes_prepare tarball)

/-- Alone, the steps of a call come to what the whole call comes to. -/
theorem completes_ensureKernel (call : Call) (tree : FileTree Bytes) :
    let result := pool.ensureKernel formats call.outside call.version call.target
      call.expectedBuildid tree
    Machine.Completes (pool.ensureStep formats call) tree .begin result.1 result.2 := by
  intro result
  have sameDest : pool.treeOf call.version call.target = pool.destOf call := rfl
  simp only [result, ensureKernel, sameDest]
  split_ifs with isRefused present fits
  · exact .answer (by simp only [ensureStep, if_pos isRefused])
  · have found : pool.ensureStep formats call tree .begin = (tree, .inr .compare) := by
      simp only [ensureStep, if_neg isRefused, if_pos present]
    have served : pool.ensureStep formats call tree .compare = (tree, .inr .stamp) := by
      simp only [ensureStep, if_pos fits]
    exact .next found (.next served completes_stamp)
  · have found : pool.ensureStep formats call tree .begin = (tree, .inr .compare) := by
      simp only [ensureStep, if_neg isRefused, if_pos present]
    have stale : pool.ensureStep formats call tree .compare = (tree, .inr .drop) := by
      simp only [ensureStep, if_neg fits]
    exact .next found (.next stale (.next rfl completes_download))
  · have absent : pool.ensureStep formats call tree .begin = (tree, .inr .download) := by
      simp only [ensureStep, if_neg isRefused, if_neg present]
    exact .next absent completes_download

end Ensure

section Collect

variable {pass : Pass} {tree tree' : FileTree Bytes}

theorem completes_links (links : List Location) :
    Machine.Completes (pool.gcStep pass) tree (.links links) () (links.foldl gcLink tree) := by
  induction links generalizing tree with
  | nil => exact .answer rfl
  | cons link rest ih =>
    rw [List.foldl_cons, gcLink]
    split_ifs with dangling
    · have checked : pool.gcStep pass tree (.links (link :: rest)) =
          (tree, .inr (.unlink link rest)) := by
        simp only [gcStep, if_pos dangling]
      exact .next checked (.next rfl ih)
    · have checked : pool.gcStep pass tree (.links (link :: rest)) =
          (tree, .inr (.links rest)) := by
        simp only [gcStep, if_neg dangling]
      exact .next checked ih

theorem completes_walkLinks (pending : List Text) (found : List Location) :
    Machine.Completes (pool.gcStep pass) tree (.walkLinks pending found) ()
      ((found ++ pending.flatMap (listed pass.outside tree pool.indexDir)).foldl gcLink tree) := by
  induction pending generalizing found with
  | nil =>
    rw [List.flatMap_nil, List.append_nil]
    exact .next rfl (completes_links found)
  | cons first pending ih =>
    rw [List.flatMap_cons, ← List.append_assoc]
    exact .next rfl (ih _)

theorem completes_beginLinks :
    Machine.Completes (pool.gcStep pass) tree .beginLinks ()
      ((walkTwoLevels pass.outside tree pool.indexDir).foldl gcLink tree) :=
  .next rfl (completes_walkLinks _ [])

/-- Each directory is checked and, when its stamp is old, removed. -/
theorem completes_trees (dirs : List Location) :
    let left := dirs.foldl (gcTree (cutoffOf pass.outside pass.retentionWeeks)) tree
    Machine.Completes (pool.gcStep pass) tree (.trees dirs) ()
      ((walkTwoLevels pass.outside left pool.indexDir).foldl gcLink left) := by
  induction dirs generalizing tree with
  | nil => exact .next rfl completes_beginLinks
  | cons dir dirs ih =>
    rw [List.foldl_cons, gcTree]
    split_ifs with old
    · have checked : pool.gcStep pass tree (.trees (dir :: dirs)) =
          (tree, .inr (.remove dir dirs)) := by
        simp only [gcStep, if_pos old]
      exact .next checked (.next rfl ih)
    · have checked : pool.gcStep pass tree (.trees (dir :: dirs)) =
          (tree, .inr (.trees dirs)) := by
        simp only [gcStep, if_neg old]
      exact .next checked ih

theorem completes_walk (pending : List Text) (found : List Location) :
    let dirs := found ++ pending.flatMap (listed pass.outside tree pool.snapshotDir)
    let left := dirs.foldl (gcTree (cutoffOf pass.outside pass.retentionWeeks)) tree
    Machine.Completes (pool.gcStep pass) tree (.walk pending found) ()
      ((walkTwoLevels pass.outside left pool.indexDir).foldl gcLink left) := by
  induction pending generalizing found with
  | nil =>
    rw [List.flatMap_nil, List.append_nil]
    exact .next rfl (completes_trees found)
  | cons first pending ih =>
    rw [List.flatMap_cons, ← List.append_assoc]
    exact .next rfl (ih _)

/-- Alone, the steps of a collection come to what the whole collection comes to. -/
theorem completes_gc (pass : Pass) (tree : FileTree Bytes) :
    Machine.Completes (pool.gcStep pass) tree .begin ()
      (pool.gc pass.outside pass.retentionWeeks tree) :=
  .next rfl (completes_walk _ [])

end Collect

/-! ## One step -/

section Steps

variable {call : Call} {tree : FileTree Bytes}

/-- What a step of a call may do to the tree. -/
inductive FetchChange (pool : SymbolPool) (formats : Formats) (call : Call)
    (tree : FileTree Bytes) : FetchStage → FileTree Bytes → Prop
  | same {stage : FetchStage} : FetchChange pool formats call tree stage tree
  | drop : FetchChange pool formats call tree .drop
      (tree.orUnchanged (tree.removeDirAll (pool.destOf call)))
  | prepare {tarball : Bytes} {made : FileTree Bytes}
      (making : tree.createDirAll (pool.destOf call) = some made) :
      FetchChange pool formats call tree (.prepare tarball) made
  | unpack {member : Member} {rest : List Member} {intact : Bool}
      (prefixed : hasDebugPrefix member = true) :
      FetchChange pool formats call tree (.unpack (member :: rest) intact)
        (formats.unpackIn (pool.destOf call) tree member).1
  | index {file : Location} {rest : List Location} :
      FetchChange pool formats call tree (.index (file :: rest))
        (indexFile formats call.outside pool.dir tree file).1
  | stamp : FetchChange pool formats call tree .stamp
      (writeStamp call.outside (pool.destOf call) tree)

theorem fetchChange (pool : SymbolPool) (formats : Formats) (call : Call)
    (tree : FileTree Bytes) (stage : FetchStage) :
    FetchChange pool formats call tree stage (pool.ensureStep formats call tree stage).1 := by
  cases stage with
  | begin =>
    simp only [ensureStep]
    split_ifs <;> exact .same
  | compare =>
    simp only [ensureStep]
    split_ifs <;> exact .same
  | drop => exact .drop
  | download =>
    simp only [ensureStep]
    split <;> exact .same
  | prepare tarball =>
    simp only [ensureStep]
    cases making : call.outside.allow (pool.destOf call) (tree.createDirAll (pool.destOf call)) with
    | none => exact .same
    | some made =>
      cases call.outside.stopAfter <;> exact .prepare (Outside.allow_eq_some.mp making).2
  | unpack members intact =>
    cases members with
    | nil =>
      simp only [ensureStep]
      split_ifs <;> exact .same
    | cons member rest =>
      simp only [ensureStep]
      split_ifs with prefixed
      · have change : FetchChange pool formats call tree (.unpack (member :: rest) intact)
          (formats.unpackIn (pool.destOf call) tree member).1 := .unpack prefixed
        split <;> next unpacked => rwa [unpacked] at change
      · exact .same
  | finish =>
    simp only [ensureStep]
    split_ifs <;> exact .same
  | list => exact .same
  | index files =>
    cases files with
    | nil => exact .same
    | cons file rest =>
      have change : FetchChange pool formats call tree (.index (file :: rest))
          (indexFile formats call.outside pool.dir tree file).1 := .index
      simp only [ensureStep]
      split <;> next indexed => rwa [indexed] at change
  | stamp => exact .stamp

/-- A call returns its tree when it has written the stamp. -/
theorem ensureStep_ok {stage : FetchStage} {dest : Location}
    (answered : (pool.ensureStep formats call tree stage).2 = .inl (.ok dest)) :
    stage = .stamp ∧ dest = pool.destOf call := by
  revert answered
  -- Every other stage goes on or fails.
  fun_cases ensureStep pool formats call tree stage <;> simp [eq_comm]

/-- What a stage is about to unpack are directories and regular files. -/
def PlainStage (formats : Formats) : FetchStage → Prop
  | .prepare tarball => PlainTarball formats tarball
  | .unpack members _ => ∀ member ∈ members, isAccepted member = true → member.kind.isPlain = true
  | _ => True

/-- What the download of a call brings are directories and regular files. -/
def FetchesPlain (pool : SymbolPool) (formats : Formats) (call : Call) : Prop :=
  ∀ tarball, pool.fetchTarball formats call.outside call.version call.target = .ok tarball →
    PlainTarball formats tarball

/-- A call that fetches a plain tarball comes to plain stages only. -/
theorem plainStage_ensureStep {stage later : FetchStage}
    (fetches : stage = .download → pool.FetchesPlain formats call)
    (plain : PlainStage formats stage)
    (goesOn : (pool.ensureStep formats call tree stage).2 = .inr later) :
    PlainStage formats later := by
  cases stage with
  | begin =>
    simp only [ensureStep] at goesOn
    split_ifs at goesOn <;> cases goesOn <;> trivial
  | compare =>
    simp only [ensureStep] at goesOn
    split_ifs at goesOn <;> cases goesOn <;> trivial
  | drop =>
    cases goesOn
    trivial
  | download =>
    simp only [ensureStep] at goesOn
    split at goesOn
    · contradiction
    · next tarball fetched =>
      cases goesOn
      exact fetches rfl tarball fetched
  | prepare tarball =>
    simp only [ensureStep] at goesOn
    split at goesOn
    · contradiction
    · split at goesOn <;> cases goesOn
      · exact fun member taken => plain member (List.mem_of_mem_take taken)
      · exact plain
  | unpack members intact =>
    cases members with
    | nil =>
      simp only [ensureStep] at goesOn
      split_ifs at goesOn
      cases goesOn
      trivial
    | cons member rest =>
      have others : PlainStage formats (.unpack rest intact) := fun other inRest =>
        plain other (List.mem_cons_of_mem _ inRest)
      simp only [ensureStep] at goesOn
      split_ifs at goesOn
      · split at goesOn <;> cases goesOn
        exact others
      · cases goesOn
        exact others
  | finish =>
    simp only [ensureStep] at goesOn
    split_ifs at goesOn
    cases goesOn
    trivial
  | list =>
    cases goesOn
    trivial
  | index files =>
    cases files with
    | nil =>
      cases goesOn
      trivial
    | cons file rest =>
      simp only [ensureStep] at goesOn
      split at goesOn <;> cases goesOn <;> trivial
  | stamp => contradiction

/-- Where no link is on the way, a member that is unpacked is skipped or put at its place. -/
theorem unpackIn_cases (tar : Unpacks formats.unpackIn)
    (inKernel : pool.kernelDir <+: pool.destOf call) (indexed : LinksIndexed pool tree)
    {member : Member} {rest : List Member} {intact : Bool}
    (plain : PlainStage formats (.unpack (member :: rest) intact))
    (prefixed : hasDebugPrefix member = true) :
    (formats.unpackIn (pool.destOf call) tree member).1 = tree ∨
      isAccepted member = true ∧ PlainAt tree (pool.destOf call) member := by
  by_cases accepted : isAccepted member = true
  · refine .inr ⟨accepted, .of_isAccepted accepted
      (plain member (List.mem_cons_self ..) accepted) ?_⟩
    exact indexed.inKernel (inKernel.trans (List.prefix_append ..))
  · exact .inl (by rw [tar.skips_of_not_isAccepted _ _ prefixed accepted])

/-- A step of a call works in the tree of its pair and in the index. -/
theorem FetchChange.worksIn (tar : Unpacks formats.unpackIn) {stage : FetchStage}
    {left : FileTree Bytes} (change : FetchChange pool formats call tree stage left)
    (inKernel : pool.kernelDir <+: pool.destOf call) (indexed : LinksIndexed pool tree)
    (plain : PlainStage formats stage) : WorksIn pool (pool.destOf call) tree left := by
  have free := indexed.inKernel inKernel
  cases change with
  | same => exact .refl tree
  | drop =>
    exact (worksBelow_removeDirAll (free.of_leading (List.dropLast_prefix _)).direct).worksIn pool
  | prepare making => exact (worksBelow_createDirAll free.direct making).worksIn pool
  | unpack prefixed =>
    rcases unpackIn_cases tar inKernel indexed plain prefixed with same | ⟨accepted, here⟩
    · rw [same]
      exact .refl tree
    · exact (worksBelow_unpackIn tar accepted here).worksIn pool
  | index => exact worksIn_indexFile inKernel formats call.outside indexed _
  | stamp =>
    exact (worksBelow_writeStamp call.outside free.direct
      (indexed.stampFree inKernel).noLink).worksIn pool

/-- Only the first and the last stage of a refetch change the stamp. -/
theorem FetchChange.lookup_stamp (tar : Unpacks formats.unpackIn) {stage : FetchStage}
    {left : FileTree Bytes} (change : FetchChange pool formats call tree stage left)
    (inKernel : pool.kernelDir <+: pool.destOf call) (indexed : LinksIndexed pool tree)
    (plain : PlainStage formats stage) (noDrop : stage ≠ .drop) (noStamp : stage ≠ .stamp) :
    left.lookup (stampOf (pool.destOf call)) = tree.lookup (stampOf (pool.destOf call)) := by
  cases change with
  | same => rfl
  | drop => contradiction
  | prepare making =>
    refine (lookup_createDirAll (indexed.inKernel inKernel).direct making _).resolve_right ?_
    rintro ⟨above, -⟩
    have shorter := above.length_le
    rw [stampOf, List.length_append, List.length_singleton] at shorter
    omega
  | unpack prefixed =>
    rcases unpackIn_cases tar inKernel indexed plain prefixed with same | ⟨accepted, here⟩
    · rw [same]
    · have apart := @not_stampOf_prefix_memberLocation (pool.destOf call) _ accepted
      refine (tar.beside _ tree _ here _ ?_).resolve_right fun made => apart made.1
      intro same
      exact apart (same ▸ List.prefix_rfl)
  | index =>
    exact lookup_indexFile_of_inKernel (inKernel.trans (List.prefix_append ..)) formats call.outside
      indexed _
  | stamp => contradiction

end Steps

/-- What a step of a collection may do to the tree. -/
inductive GcChange (tree : FileTree Bytes) : GcStage → FileTree Bytes → Prop
  | same {stage : GcStage} : GcChange tree stage tree
  | remove {dir : Location} {rest : List Location} :
      GcChange tree (.remove dir rest) (tree.orUnchanged (tree.removeDirAll dir))
  | unlink {link : Location} {rest : List Location} :
      GcChange tree (.unlink link rest) (tree.orUnchanged (tree.removeFile link))

theorem gcChange (pool : SymbolPool) (pass : Pass) (tree : FileTree Bytes) (stage : GcStage) :
    GcChange tree stage (pool.gcStep pass tree stage).1 := by
  cases stage with
  | begin => exact .same
  | beginLinks => exact .same
  | walk pending found => cases pending <;> exact .same
  | walkLinks pending found => cases pending <;> exact .same
  | trees dirs =>
    cases dirs with
    | nil => exact .same
    | cons dir rest =>
      simp only [gcStep]
      split_ifs <;> exact .same
  | links links =>
    cases links with
    | nil => exact .same
    | cons link rest =>
      simp only [gcStep]
      split_ifs <;> exact .same
  | remove dir rest => exact .remove
  | unlink link rest => exact .unlink

/-- A collection goes to directories where snapshots are, and to places in the index. -/
def Formed (pool : SymbolPool) : GcStage → Prop
  | .begin | .beginLinks => True
  | .walk _ dirs | .trees dirs => ∀ dir ∈ dirs, pool.IsSnapshotTree dir
  | .remove dir rest => ∀ other ∈ dir :: rest, pool.IsSnapshotTree other
  | .walkLinks _ links | .links links => ∀ link ∈ links, pool.IsIndexPlace link
  | .unlink link rest => ∀ other ∈ link :: rest, pool.IsIndexPlace other

theorem mem_listed {outside : Outside} {tree : FileTree Bytes} {root loc : Location} {first : Text}
    (member : loc ∈ listed outside tree root first) :
    ∃ second, loc = root ++ [first, second] := by
  obtain ⟨second, -, rfl⟩ := List.mem_map.mp member
  exact ⟨second, rfl⟩

theorem formed_gcStep {pass : Pass} {tree : FileTree Bytes} {stage later : GcStage}
    (formed : Formed pool stage) (stepped : (pool.gcStep pass tree stage).2 = .inr later) :
    Formed pool later := by
  cases stage with
  | begin =>
    cases stepped
    simp [Formed]
  | beginLinks =>
    cases stepped
    simp [Formed]
  | walk pending found =>
    cases pending with
    | nil =>
      cases stepped
      exact formed
    | cons first pending =>
      cases stepped
      intro dir member
      rcases List.mem_append.mp member with before | new
      · exact formed dir before
      · obtain ⟨second, rfl⟩ := mem_listed new
        exact ⟨first, second, rfl⟩
  | walkLinks pending found =>
    cases pending with
    | nil =>
      cases stepped
      exact formed
    | cons first pending =>
      cases stepped
      intro link member
      rcases List.mem_append.mp member with before | new
      · exact formed link before
      · obtain ⟨second, rfl⟩ := mem_listed new
        exact ⟨first, second, rfl⟩
  | trees dirs =>
    cases dirs with
    | nil =>
      cases stepped
      trivial
    | cons dir rest =>
      simp only [gcStep] at stepped
      split_ifs at stepped
      · cases stepped
        exact formed
      · cases stepped
        exact fun other member => formed other (List.mem_cons_of_mem dir member)
  | links links =>
    cases links with
    | nil => simp [gcStep] at stepped
    | cons link rest =>
      simp only [gcStep] at stepped
      split_ifs at stepped
      · cases stepped
        exact formed
      · cases stepped
        exact fun other member => formed other (List.mem_cons_of_mem link member)
  | remove dir rest =>
    cases stepped
    exact fun other member => formed other (List.mem_cons_of_mem dir member)
  | unlink link rest =>
    cases stepped
    exact fun other member => formed other (List.mem_cons_of_mem link member)

end SymbolPool

end UcrashReport.Symbols
