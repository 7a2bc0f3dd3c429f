import UcrashReport.Soundness.BuildIdIndex

/-! # Exactly the old snapshots are collected

A pool is followed over calls that return their trees, together with these calls. When every snapshot
lies two levels deep and every other tree beside the snapshots, the stamp of a snapshot is the time
of its last use, and a collection after the run removes the snapshots that were last used before the
cutoff as a whole, no file of any other tree, and every link that would lead nowhere.
-/

namespace UcrashReport.Symbols

open Rust Rust.Text BuildId

/-- The pool and the calls that returned a tree, the last one first. -/
structure UsedPool where
  tree : FileTree Bytes
  calls : List Call := []

namespace Call

def isSnapshot (call : Call) : Bool := call.version = "SNAPSHOT".toList

end Call

namespace SymbolPool

variable (pool : SymbolPool) (formats : Formats)

/-- A call that returns a tree. -/
def use (s : UsedPool) (call : Call) : Option UsedPool :=
  match pool.ensureKernel formats call.outside call.version call.target call.expectedBuildid
    s.tree with
  | (.ok _, tree) => some ⟨tree, call :: s.calls⟩
  | (.error _, _) => none

/-- The time of the last call that returned the tree. -/
def lastUse (calls : List Call) (dest : Location) : Option ℕ :=
  (calls.find? fun call => pool.destOf call = dest).map fun call => call.outside.now

/-- The collection after the calls. -/
structure CollectsExactly (s : UsedPool) (outside : Outside) (retentionWeeks : ℕ) : Prop where
  /-- A snapshot that was last used before the cutoff is deleted. -/
  old : ∀ call ∈ s.calls, call.isSnapshot = true →
    ∀ t, pool.lastUse s.calls (pool.destOf call) = some t →
      (t : ℤ) < cutoffOf outside retentionWeeks →
      ∀ loc, pool.destOf call <+: loc →
        (pool.gc outside retentionWeeks s.tree).lookup loc = none
  /-- A snapshot that was used since keeps its files. -/
  fresh : ∀ call ∈ s.calls, call.isSnapshot = true →
    ∀ t, pool.lastUse s.calls (pool.destOf call) = some t →
      cutoffOf outside retentionWeeks ≤ t →
      ∀ loc, pool.destOf call <+: loc →
        fileAt (pool.gc outside retentionWeeks s.tree) loc = fileAt s.tree loc
  /-- A tree of another version keeps its files. -/
  pinned : ∀ call ∈ s.calls, call.isSnapshot = false →
    ∀ loc, pool.destOf call <+: loc →
      fileAt (pool.gc outside retentionWeeks s.tree) loc = fileAt s.tree loc
  /-- Every link of the index leads somewhere. -/
  noDangling : ∀ loc target, pool.indexDir <+: loc →
    (pool.gc outside retentionWeeks s.tree).lookup loc = some (.link target) →
    (pool.gc outside retentionWeeks s.tree).pathExists loc = true

/-- The condition on a call: its tree is where the collection expects it, the clock counts in 64 bits,
and the stamp is written as a whole. -/
structure Placed (call : Call) : Prop where
  collectable : pool.Collectable call.version call.target
  clock : call.outside.now < 2 ^ 63
  written : call.outside.stampWritten = .whole

end SymbolPool

/-! ## The stamps of a run -/

/-- The stamp of every snapshot is the time of its last use. -/
structure Stamped (pool : SymbolPool) (s : UsedPool) : Prop where
  indexed : SymbolPool.LinksIndexed pool s.tree
  free : ∀ dir, pool.IsSnapshotTree dir → StampFree s.tree dir
  placed : ∀ call ∈ s.calls, pool.Placed call
  stamps : ∀ dir t, pool.IsSnapshotTree dir → pool.lastUse s.calls dir = some t →
    t < 2 ^ 63 ∧ s.tree.lookup (stampOf dir) = some (.file (utf8Encode (decimal t)))

namespace SymbolPool

variable {pool : SymbolPool} {formats : Formats}

theorem use_eq_some {s s' : UsedPool} {call : Call} (used : pool.use formats s call = some s') :
    ∃ dest, (pool.ensureKernel formats call.outside call.version call.target call.expectedBuildid
        s.tree).1 = .ok dest ∧
      s' = ⟨(pool.ensureKernel formats call.outside call.version call.target call.expectedBuildid
        s.tree).2, call :: s.calls⟩ := by
  unfold use at used
  split at used
  · next dest tree returned =>
    rw [Option.some.injEq] at used
    exact ⟨dest, by rw [returned], by rw [returned, used]⟩
  · contradiction

theorem lastUse_cons (call : Call) (calls : List Call) (dir : Location) :
    pool.lastUse (call :: calls) dir =
      if pool.destOf call = dir then some call.outside.now else pool.lastUse calls dir := by
  unfold lastUse
  rw [List.find?_cons]
  split_ifs with same
  · simp [same]
  · simp [same]

/-- A call stamps its own tree and leaves the stamps of the others alone. -/
theorem stamped_use (tar : Unpacks formats.unpackIn) {s s' : UsedPool} {call : Call}
    (stamped : Stamped pool s) (placed : pool.Placed call)
    (plain : pool.ExtractsPlain formats s.tree call) (used : pool.use formats s call = some s') :
    Stamped pool s' := by
  obtain ⟨dest, returned, rfl⟩ := use_eq_some used
  have inKernel : pool.kernelDir <+: pool.destOf call := placed.collectable.inKernel
  obtain ⟨works, stamps⟩ := worksIn_ensureKernel tar inKernel stamped.indexed plain
  obtain ⟨rfl, stamp⟩ := stamps dest returned
  refine ⟨works.linksIndexed stamped.indexed, fun dir snapshot => ?_, fun other member => ?_,
    fun dir t snapshot last => ?_⟩
  · by_cases own : pool.destOf call = dir
    · subst own
      exact works.stampFree (stamped.free _ snapshot)
    · unfold StampFree
      rw [works.stamp_of_other placed.collectable snapshot own]
      exact stamped.free dir snapshot
  · rcases List.mem_cons.mp member with rfl | earlier
    · exact placed
    · exact stamped.placed other earlier
  · rw [lastUse_cons] at last
    split_ifs at last with own
    · subst own
      rw [Option.some.injEq] at last
      subst last
      exact ⟨placed.clock, stamp placed.written (stamped.free _ snapshot)⟩
    · obtain ⟨small, before⟩ := stamped.stamps dir t snapshot last
      exact ⟨small, (works.stamp_of_other placed.collectable snapshot own).trans before⟩

/-! ## The collection after a run -/

theorem isSnapshotTree_of_placed {call : Call} (placed : pool.Placed call)
    (snapshot : call.isSnapshot = true) : pool.IsSnapshotTree (pool.destOf call) := by
  have collectable := placed.collectable
  unfold Collectable at collectable
  rwa [if_pos (of_decide_eq_true snapshot)] at collectable

theorem isPinnedTree_of_placed {call : Call} (placed : pool.Placed call)
    (pinned : call.isSnapshot = false) : pool.IsPinnedTree (pool.destOf call) := by
  have collectable := placed.collectable
  unfold Collectable at collectable
  rwa [if_neg (of_decide_eq_false pinned)] at collectable

/-- With the stamps of all uses the collection is exact. -/
theorem collectsExactly_of_stamped {s : UsedPool} (stamped : Stamped pool s) (outside : Outside)
    (retentionWeeks : ℕ) : pool.CollectsExactly s outside retentionWeeks where
  old call member isSnapshot t last early loc inside := by
    have snapshot := isSnapshotTree_of_placed (stamped.placed call member) isSnapshot
    obtain ⟨small, stamp⟩ := stamped.stamps _ t snapshot last
    have there : s.tree.lookup (stampOf (pool.destOf call)) ≠ none := by
      rw [stamp]
      simp
    have isDir : s.tree.lookup (pool.destOf call) = some .dir :=
      s.tree.lookup_of_prefix there (List.prefix_append ..) (by simp [stampOf])
    exact lookup_gc_of_old stamped.indexed snapshot isDir
      (by rwa [lastUsed_of_stamp small stamp]) inside
  fresh call member isSnapshot t last late loc inside := by
    have snapshot := isSnapshotTree_of_placed (stamped.placed call member) isSnapshot
    obtain ⟨small, stamp⟩ := stamped.stamps _ t snapshot last
    apply fileAt_gc stamped.indexed
    intro dir other above
    rw [← snapshot.eq_of_prefixes other inside above, lastUsed_of_stamp small stamp]
    omega
  pinned call member isPinned loc inside := by
    have pinned := isPinnedTree_of_placed (stamped.placed call member) isPinned
    apply fileAt_gc stamped.indexed
    intro dir snapshot above
    exact absurd (snapshot.snapshotDir_prefix.trans above) (pinned.not_snapshotDir_prefix inside)
  noDangling loc target inIndex isLink :=
    pathExists_of_link_gc stamped.indexed ((List.prefix_append ..).trans inIndex) isLink

/-- From an empty pool: after any calls with placed trees, every collection is exact. -/
theorem collectsExactly_of_run (tar : Unpacks formats.unpackIn) {start s : UsedPool}
    {calls : List Call}
    (empty : ∀ loc, pool.dir <+: loc → loc ≠ pool.dir → start.tree.lookup loc = none)
    (rootFree : start.tree.LinkFree pool.dir) (noCalls : start.calls = [])
    (meets : Machine.Meets (pool.use formats)
      (fun s call => pool.Placed call ∧ pool.ExtractsPlain formats s.tree call) start calls)
    (reached : Machine.run (pool.use formats) start calls = some s) (outside : Outside)
    (retentionWeeks : ℕ) : pool.CollectsExactly s outside retentionWeeks := by
  have initial : Stamped pool start := by
    refine ⟨⟨rootFree, fun loc target inPool isLink => ?_⟩, fun dir snapshot => .inl ?_, ?_, ?_⟩
    · by_cases root : loc = pool.dir
      · exact absurd (root ▸ isLink) (rootFree.noLink target)
      · rw [empty loc inPool root] at isLink
        contradiction
    · apply empty
      · exact ((List.prefix_append ..).trans snapshot.inKernel).trans (List.prefix_append ..)
      · intro same
        have lengths := congrArg List.length same
        rw [stampOf, List.length_append, snapshot.length] at lengths
        omega
    · simp [noCalls]
    · simp [noCalls, lastUse]
  have stamped := Machine.invariant_of_run (I := Stamped pool)
    (fun _ _ _ stamped meets used => stamped_use tar stamped meets.1 meets.2 used) initial meets
    reached
  exact collectsExactly_of_stamped stamped outside retentionWeeks

end SymbolPool

/-! ## A target of one component -/

/-- Releases and snapshots from one local mirror. -/
def mirrorPool : SymbolPool :=
  { snapshotPool with releaseUrl := snapshotPool.snapshotUrl }

def mirrorCall (version target : Text) : Call :=
  { snapshotCall [0xaa, 0xbb] "aabb".toList with version, target }

/-- The tree of a target of one component is taken for one of several: its `debug` has no stamp and
is deleted right after the call. -/
theorem shallow_snapshot_collected :
    ∃ s, Machine.run (mirrorPool.use kernelFormats) ⟨.empty, []⟩
        [mirrorCall "SNAPSHOT".toList "x86".toList] = some s ∧
      ¬ mirrorPool.CollectsExactly s (mirrorCall [] []).outside 4 := by
  refine ⟨_, rfl, fun collects => ?_⟩
  have kept := collects.fresh (mirrorCall "SNAPSHOT".toList "x86".toList) (List.mem_cons_self ..)
    (by decide) 1751712000 (by decide +kernel) (by decide +kernel)
    (vmlinuxOf (mirrorPool.destOf (mirrorCall "SNAPSHOT".toList "x86".toList)))
    (List.prefix_append ..)
  revert kept
  decide +kernel

theorem placed_mirror_snapshot :
    mirrorPool.Placed (mirrorCall "SNAPSHOT".toList "x86/64".toList) where
  collectable := by
    unfold SymbolPool.Collectable
    rw [if_pos (by decide)]
    exact ⟨"x86".toList, "64".toList, by decide +kernel⟩
  clock := by decide
  written := rfl

theorem placed_mirror_release :
    mirrorPool.Placed (mirrorCall "25.12.5".toList "ath79/generic".toList) where
  collectable := by
    unfold SymbolPool.Collectable
    rw [if_neg (by decide)]
    exact ⟨"25.12.5".toList, ["ath79".toList, "generic".toList], by decide, by decide +kernel⟩
  clock := by decide
  written := rfl

/-- A tarball with one kernel is plain. -/
theorem plainTarball_kernel (tarball : Bytes) : PlainTarball kernelFormats tarball := by
  intro member isMember _
  rw [List.mem_singleton.mp isMember]
  rfl

/-- A snapshot and a release, collected at any time. -/
theorem snapshot_and_release_collected :
    ∃ s, Machine.run (mirrorPool.use kernelFormats) ⟨.empty, []⟩
        [mirrorCall "SNAPSHOT".toList "x86/64".toList,
          mirrorCall "25.12.5".toList "ath79/generic".toList] = some s ∧
      ∀ outside, mirrorPool.CollectsExactly s outside 4 := by
  have runs : (Machine.run (mirrorPool.use kernelFormats) ⟨.empty, []⟩
      [mirrorCall "SNAPSHOT".toList "x86/64".toList,
        mirrorCall "25.12.5".toList "ath79/generic".toList]).isSome = true := by decide +kernel
  obtain ⟨s, reached⟩ := Option.isSome_iff_exists.mp runs
  refine ⟨s, reached, fun outside =>
    SymbolPool.collectsExactly_of_run unpacks_unpackPlain ?_ (FileTree.linkFree_empty _) rfl ?_
      reached outside 4⟩
  · exact fun loc inPool _ => FileTree.lookup_empty loc fun root => by
      subst root
      exact absurd inPool (by decide)
  · refine Machine.meets_of_forall fun call member s => ⟨?_, fun _ tarball _ =>
      plainTarball_kernel tarball⟩
    rcases List.mem_cons.mp member with rfl | later
    · exact placed_mirror_snapshot
    · exact List.mem_singleton.mp later ▸ placed_mirror_release

end UcrashReport.Symbols
