import UcrashReport.Decoder.IndexShape
import UcrashReport.Server.Debuginfod
import UcrashReport.Soundness.CollectionRaces

/-! # What debuginfod serves

The server reads the symbol pool at any time, between any two steps of a fetch and a collection. The
links of the index lead to the kernels and modules of kernel trees, and nothing else stands in the
index, so that whatever build-id is asked for, what is served is a debug file that was unpacked.
-/

namespace UcrashReport.Symbols

open Rust Rust.Text BuildId Api

/-- The only links are those of the index, to debug files of trees in the kernel directory; the index
has no files. -/
structure DebugIndex (pool : SymbolPool) (tree : FileTree Bytes) : Prop where
  root : tree.LinkFree pool.dir
  links : ∀ loc target, pool.dir <+: loc → tree.lookup loc = some (.link target) →
    (∃ id, loc = debugLink pool.dir id) ∧
      ∃ dest, pool.kernelDir <+: dest ∧ IsDebugFileOf dest target
  files : ∀ loc content, pool.indexDir <+: loc → tree.lookup loc ≠ some (.file content)

theorem isPrefix_of_isDebugFileOf {dest file : Location} (isDebug : IsDebugFileOf dest file) :
    dest <+: file := by
  rcases isDebug with rfl | ⟨name, rfl⟩
  · exact List.prefix_append ..
  · exact (List.prefix_append ..).trans (List.prefix_append ..)

namespace DebugIndex

variable {pool : SymbolPool} {tree tree' : FileTree Bytes} (index : DebugIndex pool tree)

include index

theorem linksIndexed : SymbolPool.LinksIndexed pool tree where
  root := index.root
  links loc target inPool isLink := (index.links loc target inPool isLink).1

theorem shrinks (shrinks : Shrinks tree tree') : DebugIndex pool tree' where
  root := shrinks.linkFree index.root
  links loc target inPool isLink := index.links loc target inPool (shrinks.lookup_eq_some isLink)
  files loc content inIndex isFile :=
    index.files loc content inIndex (shrinks.lookup_eq_some isFile)

theorem worksBelow {dest : Location} (works : WorksBelow dest tree tree')
    (inKernel : pool.kernelDir <+: dest) : DebugIndex pool tree' where
  root above leading target isLink := index.root above leading target (works.links above target isLink)
  links loc target inPool isLink := index.links loc target inPool (works.links loc target isLink)
  files loc content inIndex isFile :=
    index.files loc content inIndex (works.lookup_index inKernel inIndex ▸ isFile)

theorem createDirAll {loc : Location} {made : FileTree Bytes} (direct : tree.Direct loc)
    (making : tree.createDirAll loc = some made) : DebugIndex pool made := by
  have before : ∀ query node, node ≠ .dir → made.lookup query = some node →
      tree.lookup query = some node := by
    intro query node noDir there
    rcases lookup_createDirAll direct making query with same | ⟨-, -, isDir⟩
    · rwa [← same]
    · rw [isDir] at there
      exact absurd (Option.some.inj there).symm noDir
  exact ⟨linkFree_createDirAll direct making index.root,
    fun query target inPool isLink =>
      index.links query target inPool (before query _ (by simp) isLink),
    fun query content inIndex isFile =>
      index.files query content inIndex (before query _ (by simp) isFile)⟩

/-- Indexing a debug file links to this file. -/
theorem indexFile (formats : Formats) (outside : Outside) {dest file : Location}
    (inKernel : pool.kernelDir <+: dest) (isDebug : IsDebugFileOf dest file) :
    DebugIndex pool (indexFile formats outside pool.dir tree file).1 := by
  cases indexed : Symbols.indexFile formats outside pool.dir tree file with
  | mk tree' goesOn =>
    rcases indexFile_cases indexed with rfl | ⟨id, made, -, -, making, changed⟩
    · exact index
    · have cleared := (index.createDirAll (index.linksIndexed.inIndexDir _).direct making).shrinks
        (shrinks_removeFile made (debugLink pool.dir id))
      generalize made.orUnchanged (made.removeFile (debugLink pool.dir id)) = middle at *
      rcases changed with rfl | ⟨target, canonical, linked⟩
      · exact cleared
      · have free := cleared.linksIndexed.inKernel
          (inKernel.trans (isPrefix_of_isDebugFileOf isDebug))
        obtain rfl := FileTree.eq_of_canonicalize free canonical
        have parentFree := cleared.linksIndexed.inIndexDir (id.take 2)
        rw [← debugLink_dropLast] at parentFree
        obtain ⟨-, -, after⟩ := FileTree.symlink_spec parentFree.direct linked
        refine ⟨fun above leading target' isLink => ?_, fun loc target' inPool isLink => ?_,
          fun loc content inIndex isFile => ?_⟩
        · rw [after] at isLink
          split_ifs at isLink with here
          · have shorter := leading.length_le
            rw [here, length_debugLink] at shorter
            omega
          · exact cleared.root above leading target' isLink
        · rw [after] at isLink
          split_ifs at isLink with here
          · rw [Option.some.injEq, Node.link.injEq] at isLink
            exact isLink ▸ ⟨⟨id, here⟩, dest, inKernel, isDebug⟩
          · exact cleared.links loc target' inPool isLink
        · rw [after] at isFile
          split_ifs at isFile
          · simp at isFile
          · exact cleared.files loc content inIndex isFile

end DebugIndex

/-! ## Steps -/

namespace SymbolPool

variable {pool : SymbolPool} {formats : Formats} {s s' : SharedPool}

theorem debugIndex_of_fetchChange (tar : Unpacks formats.unpackIn) {call : Call}
    {tree left : FileTree Bytes} {stage : FetchStage}
    (index : DebugIndex pool tree) (change : FetchChange pool formats call tree stage left)
    (inKernel : pool.kernelDir <+: pool.destOf call) (plain : PlainStage formats stage)
    (files : ∀ files, stage = .index files → ∀ file ∈ files, IsDebugFileOf (pool.destOf call) file) :
    DebugIndex pool left := by
  have free := index.linksIndexed.inKernel inKernel
  cases change with
  | same => exact index
  | drop => exact index.shrinks (shrinks_removeDirAll tree _)
  | prepare making => exact index.createDirAll free.direct making
  | unpack prefixed =>
    rcases unpackIn_cases tar inKernel index.linksIndexed plain prefixed with
      same | ⟨accepted, here⟩
    · rwa [same]
    · exact index.worksBelow (worksBelow_unpackIn tar accepted here) inKernel
  | @index file rest =>
    exact index.indexFile formats call.outside inKernel (files _ rfl file List.mem_cons_self)
  | stamp =>
    exact index.worksBelow (worksBelow_writeStamp call.outside free.direct
      (index.linksIndexed.stampFree inKernel).noLink) inKernel

theorem shrinks_gcChange {tree left : FileTree Bytes} {stage : GcStage}
    (change : GcChange tree stage left) : Shrinks tree left := by
  cases change with
  | same => exact .refl tree
  | remove => exact shrinks_removeDirAll tree _
  | unlink => exact shrinks_removeFile tree _

/-- Where a call goes on: it is accepted, and what it indexes are the debug files of its tree. -/
theorem ensureStep_next {call : Call} {tree : FileTree Bytes} {stage later : FetchStage}
    (stepped : (pool.ensureStep formats call tree stage).2 = .inr later) :
    later ≠ .begin ∧ (stage = .begin → rejects call.version call.target = false) ∧
      ∀ files, later = .index files → (∃ file, stage = .index (file :: files)) ∨
        ∀ file ∈ files, IsDebugFileOf (pool.destOf call) file := by
  cases stage with
  | begin =>
    rw [ensureStep] at stepped
    split_ifs at stepped with rejected present <;> cases stepped <;> simp [rejected]
  | compare =>
    rw [ensureStep] at stepped
    split_ifs at stepped <;> cases stepped <;> simp
  | drop =>
    cases stepped
    simp
  | download =>
    rw [ensureStep] at stepped
    split at stepped <;> cases stepped
    simp
  | prepare tarball =>
    rw [ensureStep] at stepped
    cases making : call.outside.allow (pool.destOf call) (tree.createDirAll (pool.destOf call)) with
    | none => simp [making] at stepped
    | some made =>
      rw [making] at stepped
      cases stop : call.outside.stopAfter <;> (rw [stop] at stepped; cases stepped; simp)
  | unpack members intact =>
    cases members with
    | nil =>
      rw [ensureStep] at stepped
      split_ifs at stepped
      cases stepped
      simp
    | cons member rest =>
      rw [ensureStep] at stepped
      split_ifs at stepped
      · split at stepped <;> cases stepped
        simp
      · cases stepped
        simp
  | finish =>
    rw [ensureStep] at stepped
    split_ifs at stepped
    cases stepped
    simp
  | list =>
    cases stepped
    refine ⟨by simp, by simp, fun files same => .inr fun file member => ?_⟩
    rw [← FetchStage.index.inj same] at member
    rcases List.mem_cons.mp member with rfl | isModule
    · exact .inl rfl
    · obtain ⟨name, -, rfl⟩ := List.mem_map.mp isModule
      exact .inr ⟨name, rfl⟩
  | index files =>
    cases files with
    | nil =>
      cases stepped
      simp
    | cons file rest =>
      rw [ensureStep] at stepped
      split at stepped <;> cases stepped
      · exact ⟨by simp, by simp, fun files same => .inl ⟨file, by rw [FetchStage.index.inj same]⟩⟩
      · simp
  | stamp => contradiction

/-- An accepted call is for a tree in the kernel directory, and what it fetches are directories and
regular files. -/
def InKernel (pool : SymbolPool) (formats : Formats) (s : SharedPool) : PoolMove → Prop
  | .call call => rejects call.version call.target = false → pool.kernelDir <+: pool.destOf call
  | .fetch => ∀ call, s.fetching = some (call, .download) → pool.FetchesPlain formats call
  | .tick _ | .collect => True

/-- The index of the pool, and of what the decode loop has come to. -/
structure Serving (pool : SymbolPool) (formats : Formats) (s : SharedPool) : Prop where
  index : DebugIndex pool s.tree
  plain : ∀ call stage, s.fetching = some (call, stage) → PlainStage formats stage
  accepted : ∀ call stage, s.fetching = some (call, stage) →
    rejects call.version call.target = false → pool.kernelDir <+: pool.destOf call
  begun : ∀ call stage, s.fetching = some (call, stage) → stage ≠ .begin →
    rejects call.version call.target = false
  files : ∀ call files, s.fetching = some (call, .index files) →
    ∀ file ∈ files, IsDebugFileOf (pool.destOf call) file

theorem Serving.share (tar : Unpacks formats.unpackIn) {move : PoolMove}
    (serving : Serving pool formats s) (inKernel : InKernel pool formats s move)
    (stepped : pool.share formats s move = some s') : Serving pool formats s' := by
  cases move with
  | call call =>
    rw [share_call stepped]
    refine ⟨serving.index, fun other stage begins => ?_, fun other stage begins => ?_,
      fun other stage begins noBegin => ?_, fun other files begins => ?_⟩
    · obtain ⟨-, rfl⟩ := Prod.mk.inj (Option.some.inj begins)
      trivial
    · obtain ⟨rfl, -⟩ := Prod.mk.inj (Option.some.inj begins)
      exact inKernel
    · exact absurd (Prod.mk.inj (Option.some.inj begins)).2.symm noBegin
    · simp at begins
  | fetch =>
    obtain ⟨⟨call, stage⟩, atStage, rfl⟩ := Option.map_eq_some_iff.mp stepped
    have change := fetchChange pool formats call s.tree stage
    -- A step that changes something is one of an accepted call.
    have index : DebugIndex pool (pool.ensureStep formats call s.tree stage).1 := by
      by_cases begins : stage = .begin
      · subst begins
        generalize (pool.ensureStep formats call s.tree .begin).1 = left at change
        cases change
        exact serving.index
      · have inKernel := serving.accepted call stage atStage
          (serving.begun call stage atStage begins)
        refine debugIndex_of_fetchChange tar serving.index change inKernel
          (serving.plain call stage atStage) fun files same => ?_
        exact serving.files call files (same ▸ atStage)
    dsimp only
    cases next : (pool.ensureStep formats call s.tree stage).2 with
    | inl answer => exact ⟨index, by simp, by simp, by simp, by simp⟩
    | inr later =>
      obtain ⟨noBegin, accepted, indexing⟩ := ensureStep_next next
      refine ⟨index, fun other stage' now => ?_, fun other stage' now => ?_,
        fun other stage' now _ => ?_, fun other files now => ?_⟩
      · obtain ⟨-, rfl⟩ := Prod.mk.inj (Option.some.inj now)
        exact plainStage_ensureStep (fun isDownload => inKernel call (isDownload ▸ atStage))
          (serving.plain call stage atStage) next
      · obtain ⟨rfl, -⟩ := Prod.mk.inj (Option.some.inj now)
        exact serving.accepted call stage atStage
      · obtain ⟨rfl, -⟩ := Prod.mk.inj (Option.some.inj now)
        by_cases begins : stage = .begin
        · exact accepted begins
        · exact serving.begun call stage atStage begins
      · obtain ⟨rfl, same⟩ := Prod.mk.inj (Option.some.inj now)
        rcases indexing files same with ⟨file, rfl⟩ | isDebug
        · exact fun other member =>
            serving.files call _ atStage other (List.mem_cons_of_mem file member)
        · exact isDebug
  | tick pass =>
    rw [share_tick stepped]
    exact ⟨serving.index, serving.plain, serving.accepted, serving.begun, serving.files⟩
  | collect =>
    obtain ⟨pass, stage, -, tree, fetching, -⟩ := share_collect stepped
    have index := serving.index.shrinks (shrinks_gcChange (gcChange pool pass s.tree stage))
    refine ⟨tree ▸ index, ?_, ?_, ?_, ?_⟩
    · rw [fetching]
      exact serving.plain
    · rw [fetching]
      exact serving.accepted
    · rw [fetching]
      exact serving.begun
    · rw [fetching]
      exact serving.files

end SymbolPool

/-! ## A request between the steps -/

end UcrashReport.Symbols
