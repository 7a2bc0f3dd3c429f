import UcrashReport.Decoder.PoolSteps
import UcrashReport.Soundness.SnapshotRetention

/-! # Collections beside calls

The decode loop and the collector take their steps in any order. A collection removes no file of a
tree that is being extracted, nor of one that was returned with a recent stamp since the collection
began, as long as no call for a tree is under way between the moment a collection finds its stamp old
and its removal, and a tree that was returned keeps its stamp. A stamp is written last, so that a tree
under extraction looks as if it was never used: a collection that reads the stamp then removes it.
-/

namespace UcrashReport.Symbols

open Rust Rust.Text BuildId

/-- The pool, the call that the decode loop has come to and the collection under way, with the trees
that calls returned since it began with stamps that are recent enough for it. -/
structure SharedPool where
  tree : FileTree Bytes
  fetching : Option (Call × FetchStage) := none
  collecting : Option (Pass × GcStage) := none
  returned : List Location := []

/-- The decode loop begins a call or takes its next step, the timer begins a collection or it takes
its next step. -/
inductive PoolMove
  | call (call : Call)
  | fetch
  | tick (pass : Pass)
  | collect

namespace Pass

def cutoff (pass : Pass) : ℤ := SymbolPool.cutoffOf pass.outside pass.retentionWeeks

end Pass

namespace FetchStage

/-- From the first member on until the stamp is written. -/
def extracting : FetchStage → Bool
  | unpack _ _ | finish | list | index _ | stamp => true
  | _ => false

end FetchStage

namespace SymbolPool

variable (pool : SymbolPool) (formats : Formats)

/-- A call that returns its tree during a collection, with a stamp that is recent enough for it. -/
def returnedAfter (s : SharedPool) (tree : FileTree Bytes) :
    Except Failure Location → List Location
  | .ok dest =>
    match s.collecting with
    | some (pass, _) =>
      if pass.cutoff ≤ lastUsed tree dest then dest :: s.returned else s.returned
    | none => s.returned
  | .error _ => s.returned

def share (s : SharedPool) : PoolMove → Option SharedPool
  | .call call =>
    match s.fetching with
    | some _ => none
    | none => some { s with fetching := some (call, .begin) }
  | .fetch =>
    s.fetching.map fun (call, stage) =>
      let after := pool.ensureStep formats call s.tree stage
      match after.2 with
      | .inr later => { s with tree := after.1, fetching := some (call, later) }
      | .inl answer =>
        { s with tree := after.1, fetching := none, returned := returnedAfter s after.1 answer }
  | .tick pass =>
    match s.collecting with
    | some _ => none
    | none => some { s with collecting := some (pass, .begin), returned := [] }
  | .collect =>
    s.collecting.map fun (pass, stage) =>
      let after := pool.gcStep pass s.tree stage
      match after.2 with
      | .inr later => { s with tree := after.1, collecting := some (pass, later) }
      | .inl () => { s with tree := after.1, collecting := none }

/-- A tree that a collection must leave alone: one under extraction, or one that was returned. -/
def Protects (s : SharedPool) (dest : Location) : Prop :=
  dest ∈ s.returned ∨
    ∃ call stage, s.fetching = some (call, stage) ∧ stage.extracting = true ∧
      dest = pool.destOf call

/-- The files of the protected trees are still there. -/
def SparesProtected (s s' : SharedPool) : Prop :=
  ∀ dest, pool.Protects s dest → ∀ loc, dest <+: loc → fileAt s'.tree loc = fileAt s.tree loc

/-- The condition on a step. A call goes to a tree where the collection expects it, and not while
the tree is about to be removed; what it fetches are directories and regular files; it neither drops
a snapshot that was returned during the collection nor stamps it with an earlier time or with a part
of one; and no call is under way for a tree whose stamp is found old. -/
def TakesTurns (s : SharedPool) : PoolMove → Prop
  | .call call =>
    pool.Collectable call.version call.target ∧
      ∀ pass dir rest, s.collecting = some (pass, .remove dir rest) → pool.destOf call ≠ dir
  | .fetch =>
    ∀ call stage, s.fetching = some (call, stage) →
      (stage = .download → pool.FetchesPlain formats call) ∧
      (pool.IsSnapshotTree (pool.destOf call) → pool.destOf call ∈ s.returned →
        stage ≠ .drop ∧
          (stage = .stamp → call.outside.now < 2 ^ 63 ∧
            lastUsed s.tree (pool.destOf call) ≤ call.outside.now ∧
            ∀ length, call.outside.stampWritten ≠ .cut length))
  | .tick _ => True
  | .collect =>
    ∀ pass dir rest, s.collecting = some (pass, .trees (dir :: rest)) →
      lastUsed s.tree dir < pass.cutoff →
        ∀ call stage, s.fetching = some (call, stage) → pool.destOf call ≠ dir

end SymbolPool

/-! ## Without interruption -/

namespace SymbolPool

variable {pool : SymbolPool} {formats : Formats}

/-- A call that nothing interrupts does what `ensureKernel` does. -/
theorem share_ensureKernel (s : SharedPool) (idle : s.fetching = none) (call : Call) :
    ∃ n, Machine.run (pool.share formats) s (.call call :: List.replicate n .fetch) =
      some
        { s with
          tree := (pool.ensureKernel formats call.outside call.version call.target
            call.expectedBuildid s.tree).2
          returned := returnedAfter s
            (pool.ensureKernel formats call.outside call.version call.target
              call.expectedBuildid s.tree).2
            (pool.ensureKernel formats call.outside call.version call.target
              call.expectedBuildid s.tree).1 } := by
  have begins : pool.share formats s (.call call) =
      some { s with fetching := some (call, .begin) } := by
    simp only [share, idle]
  obtain ⟨n, reached⟩ := Machine.Completes.run (pool.share formats) .fetch
    (fun tree stage => { s with tree, fetching := some (call, stage) })
    (fun tree answer =>
      { s with tree, fetching := none, returned := returnedAfter s tree answer })
    (fun tree stage => by
      simp only [share, Option.map_some]
      cases (pool.ensureStep formats call tree stage).2 with
      | inr later => rfl
      | inl answer => cases answer <;> rfl)
    (completes_ensureKernel call s.tree)
  refine ⟨n, Machine.run_cons.mpr ⟨_, begins, reached.trans ?_⟩⟩
  rw [← idle]

/-- A collection that nothing interrupts does what `gc` does. -/
theorem share_gc (s : SharedPool) (idle : s.collecting = none) (pass : Pass) :
    ∃ n, Machine.run (pool.share formats) s (.tick pass :: List.replicate n .collect) =
      some { s with tree := pool.gc pass.outside pass.retentionWeeks s.tree, returned := [] } := by
  have begins : pool.share formats s (.tick pass) =
      some { s with collecting := some (pass, .begin), returned := [] } := by
    simp only [share, idle]
  obtain ⟨n, reached⟩ := Machine.Completes.run (pool.share formats) .collect
    (fun tree stage => { s with tree, collecting := some (pass, stage), returned := [] })
    (fun tree _ => { s with tree, collecting := none, returned := [] })
    (fun tree stage => by
      simp only [share, Option.map_some]
      cases (pool.gcStep pass tree stage).2 <;> rfl)
    (completes_gc pass s.tree)
  refine ⟨n, Machine.run_cons.mpr ⟨_, begins, reached.trans ?_⟩⟩
  rw [← idle]

end SymbolPool

/-! ## The invariant -/

structure Guarded (pool : SymbolPool) (formats : Formats) (s : SharedPool) : Prop where
  indexed : SymbolPool.LinksIndexed pool s.tree
  plain : ∀ call stage, s.fetching = some (call, stage) → SymbolPool.PlainStage formats stage
  fetching : ∀ call stage, s.fetching = some (call, stage) →
    pool.Collectable call.version call.target
  returned : ∀ dest ∈ s.returned, ∃ call : Call, pool.Collectable call.version call.target ∧
    dest = pool.destOf call
  formed : ∀ pass stage, s.collecting = some (pass, stage) → SymbolPool.Formed pool stage
  recent : ∀ pass stage, s.collecting = some (pass, stage) → ∀ dest ∈ s.returned,
    pool.IsSnapshotTree dest → pass.cutoff ≤ SymbolPool.lastUsed s.tree dest
  /-- Nobody uses a tree that is about to be removed. -/
  removing : ∀ pass dir rest, s.collecting = some (pass, .remove dir rest) →
    dir ∉ s.returned ∧ ∀ call stage, s.fetching = some (call, stage) → pool.destOf call ≠ dir

namespace SymbolPool

variable {pool : SymbolPool} {formats : Formats} {s s' : SharedPool}

/-! ## Steps of the decode loop -/

theorem share_call {call : Call} (stepped : pool.share formats s (.call call) = some s') :
    s' = { s with fetching := some (call, .begin) } := by
  simp only [share] at stepped
  split at stepped
  · contradiction
  · exact (Option.some.inj stepped).symm

theorem share_fetch (stepped : pool.share formats s .fetch = some s') :
    ∃ call stage, s.fetching = some (call, stage) ∧
      s'.tree = (pool.ensureStep formats call s.tree stage).1 ∧ s'.collecting = s.collecting ∧
        ((∃ later, (pool.ensureStep formats call s.tree stage).2 = .inr later ∧
            s'.fetching = some (call, later) ∧ s'.returned = s.returned) ∨
          ∃ answer, (pool.ensureStep formats call s.tree stage).2 = .inl answer ∧
            s'.fetching = none ∧ s'.returned = returnedAfter s s'.tree answer) := by
  obtain ⟨⟨call, stage⟩, atStage, rfl⟩ := Option.map_eq_some_iff.mp stepped
  refine ⟨call, stage, atStage, ?_⟩
  dsimp only
  split
  · next later goesOn => exact ⟨rfl, rfl, .inl ⟨later, goesOn, rfl, rfl⟩⟩
  · next answer answered => exact ⟨rfl, rfl, .inr ⟨answer, answered, rfl, rfl⟩⟩

theorem share_tick {pass : Pass} (stepped : pool.share formats s (.tick pass) = some s') :
    s' = { s with collecting := some (pass, .begin), returned := [] } := by
  simp only [share] at stepped
  split at stepped
  · contradiction
  · exact (Option.some.inj stepped).symm

theorem share_collect (stepped : pool.share formats s .collect = some s') :
    ∃ pass stage, s.collecting = some (pass, stage) ∧
      s'.tree = (pool.gcStep pass s.tree stage).1 ∧ s'.fetching = s.fetching ∧
      s'.returned = s.returned ∧
        (s'.collecting = none ∨ ∃ later, (pool.gcStep pass s.tree stage).2 = .inr later ∧
          s'.collecting = some (pass, later)) := by
  obtain ⟨⟨pass, stage⟩, atStage, rfl⟩ := Option.map_eq_some_iff.mp stepped
  refine ⟨pass, stage, atStage, ?_⟩
  dsimp only
  split
  · next later goesOn => exact ⟨rfl, rfl, rfl, .inr ⟨later, goesOn, rfl⟩⟩
  · exact ⟨rfl, rfl, rfl, .inl rfl⟩

theorem guarded_call {call : Call} (guarded : Guarded pool formats s)
    (turns : pool.TakesTurns formats s (.call call))
    (stepped : pool.share formats s (.call call) = some s') :
    Guarded pool formats s' := by
  obtain ⟨collectable, apart⟩ := turns
  rw [share_call stepped]
  refine ⟨guarded.indexed, fun call' stage begins => ?_, fun call' stage begins => ?_,
    guarded.returned, guarded.formed,
    guarded.recent, fun pass dir rest removes => ⟨(guarded.removing pass dir rest removes).1,
      fun call' stage begins => ?_⟩⟩
  · rw [Option.some.injEq, Prod.mk.injEq] at begins
    exact begins.2 ▸ trivial
  · rw [Option.some.injEq, Prod.mk.injEq] at begins
    exact begins.1 ▸ collectable
  · rw [Option.some.injEq, Prod.mk.injEq] at begins
    exact begins.1 ▸ apart pass dir rest removes

/-- A stamp that is written as a whole, or not at all, is read as no earlier time. -/
theorem lastUsed_writeStamp {outside : Outside} {dest : Location} {tree : FileTree Bytes}
    (free : tree.LinkFree (stampOf dest)) (clock : outside.now < 2 ^ 63)
    (later : lastUsed tree dest ≤ outside.now) (uncut : ∀ length, outside.stampWritten ≠ .cut length) :
    lastUsed tree dest ≤ lastUsed (writeStamp outside dest tree) dest := by
  have direct := (free.of_leading (prefix_stampOf dest)).direct
  have works := worksBelow_writeStamp outside direct free.noLink
  rcases lookup_writeStamp outside direct free.noLink (stampOf dest) with
    same | ⟨-, content, part, isFile⟩
  · have free' : (writeStamp outside dest tree).LinkFree (stampOf dest) :=
      fun above leading target isLink => free above leading target (works.links above target isLink)
    rw [lastUsed_congr free free' same]
  · cases written : outside.stampWritten with
    | whole =>
      rw [written, Written.part, Option.some.injEq] at part
      subst part
      exact later.trans (lastUsed_of_stamp clock isFile).ge
    | cut length => exact absurd written (uncut length)
    | unopened => simp [written, Written.part] at part

/-- A step of a call that meets the condition leaves the snapshots that were returned recent. -/
theorem recent_ensureStep (tar : Unpacks formats.unpackIn) {call : Call} {stage : FetchStage}
    (guarded : Guarded pool formats s) (atStage : s.fetching = some (call, stage))
    (turns : pool.TakesTurns formats s .fetch) {dest : Location}
    (member : dest ∈ s.returned) (snapshot : pool.IsSnapshotTree dest) :
    lastUsed s.tree dest ≤
      lastUsed (pool.ensureStep formats call s.tree stage).1 dest := by
  have collectable := guarded.fetching call stage atStage
  have inKernel : pool.kernelDir <+: pool.destOf call := collectable.inKernel
  have change := fetchChange pool formats call s.tree stage
  have works := change.worksIn tar inKernel guarded.indexed (guarded.plain call stage atStage)
  have free := guarded.indexed.stampFree snapshot.inKernel
  have free' := (works.linksIndexed guarded.indexed).stampFree snapshot.inKernel
  by_cases own : pool.destOf call = dest
  · subst own
    obtain ⟨noDrop, clock⟩ := (turns call stage atStage).2 snapshot member
    by_cases stamps : stage = .stamp
    · subst stamps
      obtain ⟨small, later, uncut⟩ := clock rfl
      exact lastUsed_writeStamp free small later uncut
    · rw [lastUsed_congr free free' (change.lookup_stamp tar inKernel guarded.indexed
        (guarded.plain call stage atStage) noDrop stamps)]
  · rw [lastUsed_congr free free' (works.stamp_of_other collectable snapshot own)]

theorem mem_returnedAfter {tree : FileTree Bytes} {answer : Except Failure Location}
    {dest : Location} (member : dest ∈ returnedAfter s tree answer) :
    dest ∈ s.returned ∨ answer = .ok dest ∧ ∀ pass stage, s.collecting = some (pass, stage) →
      pass.cutoff ≤ lastUsed tree dest := by
  cases answer with
  | error e => exact .inl member
  | ok made =>
    simp only [returnedAfter] at member
    split at member
    · next pass stage atStage =>
      split_ifs at member with recent
      · rcases List.mem_cons.mp member with rfl | before
        · refine .inr ⟨rfl, fun pass' stage' same => ?_⟩
          rw [atStage, Option.some.injEq, Prod.mk.injEq] at same
          exact same.1 ▸ recent
        · exact .inl before
      · exact .inl member
    · exact .inl member

theorem guarded_fetch (tar : Unpacks formats.unpackIn) (guarded : Guarded pool formats s)
    (turns : pool.TakesTurns formats s .fetch)
    (stepped : pool.share formats s .fetch = some s') : Guarded pool formats s' := by
  obtain ⟨call, stage, atStage, treeAfter, samePass, outcome⟩ := share_fetch stepped
  have collectable := guarded.fetching call stage atStage
  have inKernel : pool.kernelDir <+: pool.destOf call := collectable.inKernel
  have plain := guarded.plain call stage atStage
  have works := (fetchChange pool formats call s.tree stage).worksIn tar inKernel guarded.indexed
    plain
  have stillFetching : ∀ call' stage', s'.fetching = some (call', stage') → call' = call := by
    intro call' stage' fetching
    rcases outcome with ⟨later, -, goesOn, -⟩ | ⟨answer, -, ends, -⟩
    · rw [goesOn, Option.some.injEq, Prod.mk.injEq] at fetching
      exact fetching.1.symm
    · rw [ends] at fetching
      contradiction
  -- A tree that is returned now is that of the call, and its stamp is recent.
  have returns : ∀ dest ∈ s'.returned, dest ∈ s.returned ∨ dest = pool.destOf call ∧
      ∀ pass stage, s.collecting = some (pass, stage) → pass.cutoff ≤ lastUsed s'.tree dest := by
    intro dest member
    rcases outcome with ⟨later, -, -, same⟩ | ⟨answer, answered, -, after⟩
    · exact .inl (same ▸ member)
    · rcases mem_returnedAfter (after ▸ member) with before | ⟨rfl, recent⟩
      · exact .inl before
      · exact .inr ⟨(ensureStep_ok answered).2, recent⟩
  refine ⟨treeAfter ▸ works.linksIndexed guarded.indexed, fun call' stage' fetching => ?_,
    fun call' stage' fetching => ?_, fun dest member => ?_, fun pass stage collecting => ?_,
    fun pass stage collecting dest member snapshot => ?_, fun pass dir rest removes => ⟨?_, ?_⟩⟩
  · rcases outcome with ⟨later, goesOn, after, -⟩ | ⟨answer, -, ends, -⟩
    · rw [after, Option.some.injEq, Prod.mk.injEq] at fetching
      exact fetching.2 ▸ plainStage_ensureStep (turns call stage atStage).1 plain goesOn
    · rw [ends] at fetching
      contradiction
  · exact stillFetching call' stage' fetching ▸ collectable
  · rcases returns dest member with before | ⟨rfl, -⟩
    · exact guarded.returned dest before
    · exact ⟨call, collectable, rfl⟩
  · exact guarded.formed pass stage (samePass ▸ collecting)
  · rw [samePass] at collecting
    rcases returns dest member with before | ⟨-, recent⟩
    · rw [treeAfter]
      exact (guarded.recent pass stage collecting dest before snapshot).trans
        (recent_ensureStep tar guarded atStage turns before snapshot)
    · exact recent pass stage collecting
  · obtain ⟨notReturned, apart⟩ := guarded.removing pass dir rest (samePass ▸ removes)
    intro member
    rcases returns dir member with before | ⟨same, -⟩
    · exact notReturned before
    · exact apart call stage atStage same.symm
  · intro call' stage' fetching
    rw [stillFetching call' stage' fetching]
    exact (guarded.removing pass dir rest (samePass ▸ removes)).2 call stage atStage

/-! ## Steps of the collector -/

theorem guarded_tick {pass : Pass} (guarded : Guarded pool formats s)
    (stepped : pool.share formats s (.tick pass) = some s') : Guarded pool formats s' := by
  rw [share_tick stepped]
  refine ⟨guarded.indexed, guarded.plain, guarded.fetching, by simp,
    fun pass' stage begins => ?_, by simp,
    fun pass' dir rest removes => ?_⟩
  · rw [Option.some.injEq, Prod.mk.injEq] at begins
    exact begins.2 ▸ trivial
  · rw [Option.some.injEq, Prod.mk.injEq] at removes
    exact absurd removes.2 (by simp)

/-- A location that a step of the collector changes lies in the tree that it removes or in the
index. -/
theorem lookup_gcStep {pass : Pass} {stage : GcStage} {tree : FileTree Bytes}
    (indexed : LinksIndexed pool tree) (formed : Formed pool stage) (loc : Location) :
    (pool.gcStep pass tree stage).1.lookup loc = tree.lookup loc ∨
      (∃ dir rest, stage = .remove dir rest ∧ pool.IsSnapshotTree dir ∧ dir <+: loc) ∨
        pool.indexDir <+: loc := by
  have change := gcChange pool pass tree stage
  generalize (pool.gcStep pass tree stage).1 = left at change ⊢
  cases change with
  | same => exact .inl rfl
  | @remove dir rest =>
    have snapshot := formed dir (List.mem_cons_self ..)
    have free := indexed.inKernel snapshot.inKernel
    rcases lookup_orUnchanged_removeDirAll (free.of_leading (List.dropLast_prefix dir)).direct loc
      with same | ⟨above, -⟩
    · exact .inl same
    · exact .inr (.inl ⟨dir, rest, rfl, snapshot, above⟩)
  | @unlink link rest =>
    have place := formed link (List.mem_cons_self ..)
    rcases lookup_orUnchanged_removeFile (indexed.parentFree place).direct loc with
      same | ⟨rfl, -⟩
    · exact .inl same
    · obtain ⟨first, second, rfl⟩ := place
      exact .inr (.inr (List.prefix_append ..))

theorem shrinks_gcStep {pass : Pass} {stage : GcStage} {tree : FileTree Bytes} :
    Shrinks tree (pool.gcStep pass tree stage).1 := by
  have change := gcChange pool pass tree stage
  generalize (pool.gcStep pass tree stage).1 = left at change ⊢
  cases change with
  | same => exact .refl tree
  | remove => exact shrinks_removeDirAll tree _
  | unlink => exact shrinks_removeFile tree _

/-- A tree that is not about to be removed keeps what it has. -/
theorem lookup_gcStep_of_collectable {pass : Pass} {stage : GcStage} (guarded : Guarded pool formats s)
    (atStage : s.collecting = some (pass, stage)) {call : Call}
    (collectable : pool.Collectable call.version call.target)
    (stays : ∀ dir rest, stage = .remove dir rest → pool.destOf call ≠ dir) {loc : Location}
    (inside : pool.destOf call <+: loc) :
    (pool.gcStep pass s.tree stage).1.lookup loc = s.tree.lookup loc := by
  rcases @lookup_gcStep pool pass stage s.tree guarded.indexed
    (guarded.formed pass stage atStage) loc with
    same | ⟨dir, rest, rfl, snapshot, above⟩ | inIndex
  · exact same
  · exact absurd (collectable.eq_of_prefixes snapshot inside above) (stays dir rest rfl)
  · have inKernel : pool.kernelDir <+: pool.destOf call := collectable.inKernel
    exact absurd inIndex (SymbolPool.not_indexDir_prefix (inKernel.trans inside))

/-- A directory is removed next when its stamp was just found old. -/
theorem gcStep_remove {pass : Pass} {stage : GcStage} {tree : FileTree Bytes} {dir : Location}
    {rest : List Location} (removes : (pool.gcStep pass tree stage).2 = .inr (.remove dir rest)) :
    stage = .trees (dir :: rest) ∧ lastUsed tree dir < pass.cutoff := by
  revert removes
  fun_cases gcStep pool pass tree stage <;> simp
  · next first others old =>
    rintro rfl rfl
    exact ⟨⟨rfl, rfl⟩, old⟩

theorem guarded_collect (guarded : Guarded pool formats s) (turns : pool.TakesTurns formats s .collect)
    (stepped : pool.share formats s .collect = some s') : Guarded pool formats s' := by
  obtain ⟨pass, stage, atStage, treeAfter, sameCall, sameReturned, outcome⟩ :=
    share_collect stepped
  have goesOn : ∀ pass' stage', s'.collecting = some (pass', stage') →
      pass' = pass ∧ (pool.gcStep pass s.tree stage).2 = .inr stage' := by
    intro pass' stage' collecting
    rcases outcome with ends | ⟨later, stepped, after⟩
    · rw [ends] at collecting
      contradiction
    · rw [after, Option.some.injEq, Prod.mk.injEq] at collecting
      exact ⟨collecting.1.symm, collecting.2 ▸ stepped⟩
  have keepsStamp : ∀ dest ∈ s.returned, pool.IsSnapshotTree dest →
      lastUsed s'.tree dest = lastUsed s.tree dest := by
    intro dest member snapshot
    obtain ⟨call, collectable, rfl⟩ := guarded.returned dest member
    have free := guarded.indexed.stampFree snapshot.inKernel
    rw [treeAfter]
    apply lastUsed_congr free (shrinks_gcStep.linkFree free)
    apply lookup_gcStep_of_collectable guarded atStage collectable _ (List.prefix_append ..)
    rintro dir rest rfl same
    exact (guarded.removing pass dir rest atStage).1 (same ▸ member)
  refine ⟨treeAfter ▸ guarded.indexed.shrinks shrinks_gcStep, ?_, ?_, ?_,
    fun pass' stage' collecting => ?_, fun pass' stage' collecting dest member snapshot => ?_,
    fun pass' dir rest collecting => ?_⟩
  · rw [sameCall]
    exact guarded.plain
  · rw [sameCall]
    exact guarded.fetching
  · rw [sameReturned]
    exact guarded.returned
  · exact formed_gcStep (guarded.formed pass stage atStage) (goesOn pass' stage' collecting).2
  · rw [sameReturned] at member
    rw [keepsStamp dest member snapshot, (goesOn pass' stage' collecting).1]
    exact guarded.recent pass stage atStage dest member snapshot
  · obtain ⟨rfl, old⟩ := gcStep_remove (goesOn pass' _ collecting).2
    rw [sameReturned, sameCall]
    refine ⟨fun member => ?_, turns pass dir rest atStage old⟩
    have snapshot := guarded.formed pass _ atStage dir (List.mem_cons_self ..)
    have recent := guarded.recent pass _ atStage dir member snapshot
    omega

/-! ## Runs -/

theorem guarded_share (tar : Unpacks formats.unpackIn) {move : PoolMove}
    (guarded : Guarded pool formats s) (turns : pool.TakesTurns formats s move)
    (stepped : pool.share formats s move = some s') : Guarded pool formats s' := by
  cases move with
  | call call => exact guarded_call guarded turns stepped
  | fetch => exact guarded_fetch tar guarded turns stepped
  | tick pass => exact guarded_tick guarded stepped
  | collect => exact guarded_collect guarded turns stepped

/-- The collector leaves alone what nobody may lose. -/
theorem sparesProtected_of_guarded (guarded : Guarded pool formats s)
    (stepped : pool.share formats s .collect = some s') : pool.SparesProtected s s' := by
  obtain ⟨pass, stage, atStage, treeAfter, -⟩ := share_collect stepped
  intro dest protects loc inside
  apply fileAt_congr
  rw [treeAfter]
  rcases protects with member | ⟨call, fetch, fetching, -, rfl⟩
  · obtain ⟨call, collectable, rfl⟩ := guarded.returned dest member
    apply lookup_gcStep_of_collectable guarded atStage collectable _ inside
    rintro dir rest rfl same
    exact (guarded.removing pass dir rest atStage).1 (same ▸ member)
  · apply lookup_gcStep_of_collectable guarded atStage (guarded.fetching call fetch fetching) _
      inside
    rintro dir rest rfl
    exact (guarded.removing pass dir rest atStage).2 call fetch fetching

/-- After any moves that take turns, no step of the collector removes a file of a tree that is being
extracted or of one that was returned with a recent stamp. -/
theorem sparesProtected_of_run (tar : Unpacks formats.unpackIn) {start : FileTree Bytes}
    {moves : List PoolMove} (indexed : LinksIndexed pool start)
    (meets : Machine.Meets (pool.share formats) (pool.TakesTurns formats) { tree := start } moves)
    (reached : Machine.run (pool.share formats) { tree := start } moves = some s)
    (stepped : pool.share formats s .collect = some s') : pool.SparesProtected s s' := by
  have initial : Guarded pool formats { tree := start } :=
    ⟨indexed, by simp, by simp, by simp, by simp, by simp, by simp⟩
  have guarded := Machine.invariant_of_run (I := Guarded pool formats)
    (fun _ _ _ guarded turns stepped => guarded_share tar guarded turns stepped) initial meets
    reached
  exact sparesProtected_of_guarded guarded stepped

end SymbolPool

/-! ## Schedules -/

def mirrorSnapshot : Call := mirrorCall "SNAPSHOT".toList "x86/64".toList

/-- A collection of the given time. -/
def passAt (now : ℕ) : Pass := ⟨{ mirrorSnapshot.outside with now }, 4⟩

/-- The call is about to unpack its tarball. -/
def fetchStarted : List PoolMove :=
  [.call mirrorSnapshot, .fetch, .fetch, .fetch]

/-- The kernel is unpacked and a collection looks for a stamp. -/
def collectedDuringExtraction : List PoolMove :=
  fetchStarted ++ [.fetch, .tick (passAt 1751712000), .collect, .collect, .collect, .collect]

/-- A tree under extraction has no stamp yet: the collection removes the kernel that was just
unpacked. -/
theorem extraction_collected :
    ∃ s s', Machine.run (mirrorPool.share kernelFormats) { tree := .empty }
        collectedDuringExtraction = some s ∧
      mirrorPool.share kernelFormats s .collect = some s' ∧
      ¬ mirrorPool.SparesProtected s s' := by
  refine ⟨_, _, rfl, rfl, fun spares => ?_⟩
  have kept := spares (mirrorPool.destOf mirrorSnapshot) (.inr ⟨_, _, rfl, rfl, rfl⟩)
    (vmlinuxOf (mirrorPool.destOf mirrorSnapshot)) (List.prefix_append ..)
  revert kept
  decide +kernel

/-- Nine weeks later a call returns the tree with a new stamp, after a collection found the old one
and before it removes the tree. -/
example :
    ∃ s s', Machine.run (mirrorPool.share kernelFormats) { tree := .empty }
        ([.call mirrorSnapshot] ++ List.replicate 10 .fetch ++ [.tick (passAt 1757154800)] ++
          List.replicate 4 .collect ++
          [.call { mirrorSnapshot with outside := (passAt 1757154800).outside }] ++
          List.replicate 3 .fetch) = some s ∧
      mirrorPool.share kernelFormats s .collect = some s' ∧
      s.returned = [mirrorPool.destOf mirrorSnapshot] ∧ ¬ mirrorPool.SparesProtected s s' := by
  refine ⟨_, _, rfl, rfl, by decide +kernel, fun spares => ?_⟩
  have kept := spares (mirrorPool.destOf mirrorSnapshot) (.inl (by decide +kernel))
    (vmlinuxOf (mirrorPool.destOf mirrorSnapshot)) (List.prefix_append ..)
  revert kept
  decide +kernel

/-- A kernel is unpacked, and a collection walks. -/
def walkDuringExtraction : List PoolMove :=
  fetchStarted ++ [.tick (passAt 1751712000), .collect, .collect]

theorem extraction_spared :
    ∃ s s', Machine.run (mirrorPool.share kernelFormats) { tree := .empty } walkDuringExtraction =
        some s ∧
      mirrorPool.share kernelFormats s .collect = some s' ∧ mirrorPool.SparesProtected s s' := by
  have runs : ((Machine.run (mirrorPool.share kernelFormats) { tree := .empty }
      walkDuringExtraction).bind fun s => mirrorPool.share kernelFormats s .collect).isSome =
        true := by decide +kernel
  obtain ⟨s', both⟩ := Option.isSome_iff_exists.mp runs
  obtain ⟨s, reached, stepped⟩ := Option.bind_eq_some_iff.mp both
  refine ⟨s, s', reached, stepped, SymbolPool.sparesProtected_of_run unpacks_unpackPlain ?_ ?_
    reached stepped⟩
  · exact ⟨FileTree.linkFree_empty _, fun loc target _ isLink =>
      absurd isLink ((FileTree.linkFree_empty loc).noLink target)⟩
  · -- No tree is returned, and no stamp is read.
    have fetches : ∀ s : SharedPool, s.returned = [] →
        mirrorPool.TakesTurns kernelFormats s .fetch :=
      fun s none call stage _ => ⟨fun _ tarball _ => plainTarball_kernel tarball,
        fun _ member => by simp [none] at member⟩
    have collects : ∀ (s : SharedPool) (pass : Pass) (stage : GcStage),
        s.collecting = some (pass, stage) → (∀ dirs, stage ≠ .trees dirs) →
          mirrorPool.TakesTurns kernelFormats s .collect := by
      intro s pass stage atStage noTrees pass' dir rest atTrees
      rw [atStage, Option.some.injEq, Prod.mk.injEq] at atTrees
      exact absurd atTrees.2 (noTrees _)
    refine .cons rfl ⟨placed_mirror_snapshot.collectable, by simp⟩ (.cons rfl (fetches _ rfl)
      (.cons rfl (fetches _ rfl) (.cons rfl (fetches _ rfl) (.cons rfl trivial
        (.cons rfl (collects _ _ _ rfl (by simp)) (.cons rfl (collects _ _ _ rfl (by simp))
          trivial))))))

end UcrashReport.Symbols
