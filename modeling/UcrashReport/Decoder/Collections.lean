import UcrashReport.Decoder.PoolLayout

/-! # What a collection removes

A collection removes directories two levels below the snapshots, those whose stamps are old, and then
the links that lead nowhere. Directories at one depth do not change each other's stamps, so that it
makes no difference in which order they are visited; and removing a link that leads nowhere leaves
every other link leading where it led.
-/

namespace UcrashReport.Symbols

open Rust Rust.Text BuildId

/-! ## Removals -/

/-- Some locations may have become empty; the others are as before. -/
def Shrinks (tree tree' : FileTree Bytes) : Prop :=
  ∀ loc, tree'.lookup loc = tree.lookup loc ∨ tree'.lookup loc = none

theorem Shrinks.refl (tree : FileTree Bytes) : Shrinks tree tree := fun _ => .inl rfl

theorem Shrinks.trans {first second third : FileTree Bytes} (left : Shrinks first second)
    (right : Shrinks second third) : Shrinks first third := by
  intro loc
  rcases right loc with same | gone
  · rw [same]
    exact left loc
  · exact .inr gone

theorem Shrinks.foldl {step : FileTree Bytes → Location → FileTree Bytes}
    (shrinks : ∀ tree loc, Shrinks tree (step tree loc)) (locs : List Location)
    (tree : FileTree Bytes) : Shrinks tree (locs.foldl step tree) := by
  induction locs generalizing tree with
  | nil => exact .refl tree
  | cons loc rest ih => exact (shrinks tree loc).trans (ih (step tree loc))

theorem shrinks_prune (tree : FileTree Bytes) (loc : Location) : Shrinks tree (tree.prune loc) := by
  intro query
  rw [tree.lookup_prune]
  split_ifs
  · exact .inr rfl
  · exact .inl rfl

theorem shrinks_removeDirAll (tree : FileTree Bytes) (path : Location) :
    Shrinks tree (tree.orUnchanged (tree.removeDirAll path)) := by
  cases removed : tree.removeDirAll path with
  | none => exact .refl tree
  | some tree' =>
    obtain ⟨loc, -, -, rfl⟩ := FileTree.removeDirAll_eq_some removed
    exact shrinks_prune tree loc

theorem shrinks_removeFile (tree : FileTree Bytes) (path : Location) :
    Shrinks tree (tree.orUnchanged (tree.removeFile path)) := by
  cases removed : tree.removeFile path with
  | none => exact .refl tree
  | some tree' =>
    obtain ⟨loc, -, -, -, rfl⟩ := FileTree.removeFile_eq_some removed
    exact shrinks_prune tree loc

namespace SymbolPool

theorem shrinks_gcTree (cutoff : ℤ) (tree : FileTree Bytes) (dir : Location) :
    Shrinks tree (gcTree cutoff tree dir) := by
  unfold gcTree
  split_ifs
  · exact shrinks_removeDirAll tree dir
  · exact .refl tree

theorem shrinks_gcLink (tree : FileTree Bytes) (link : Location) :
    Shrinks tree (gcLink tree link) := by
  unfold gcLink
  split_ifs
  · exact shrinks_removeFile tree link
  · exact .refl tree

end SymbolPool

theorem shrinks_gc (pool : SymbolPool) (outside : Outside) (retentionWeeks : ℕ)
    (tree : FileTree Bytes) : Shrinks tree (pool.gc outside retentionWeeks tree) := by
  unfold SymbolPool.gc
  exact (Shrinks.foldl (SymbolPool.shrinks_gcTree _) _ tree).trans
    (Shrinks.foldl SymbolPool.shrinks_gcLink _ _)

theorem Shrinks.lookup_eq_some {tree tree' : FileTree Bytes} (shrinks : Shrinks tree tree')
    {loc : Location} {node : Node Bytes} (there : tree'.lookup loc = some node) :
    tree.lookup loc = some node := by
  rcases shrinks loc with same | gone
  · rwa [← same]
  · rw [gone] at there
    contradiction

theorem Shrinks.linkFree {tree tree' : FileTree Bytes} (shrinks : Shrinks tree tree')
    {loc : Location} (free : tree.LinkFree loc) : tree'.LinkFree loc :=
  fun above leading target isLink => free above leading target (shrinks.lookup_eq_some isLink)

/-! ## Stamps -/

theorem foldl_digits_cast (s : Text) (n : ℕ) :
    s.foldl (fun (n : ℤ) c => 10 * n + (c.toNat - 48 : ℕ)) n = (Nat.ofDigitChars 10 s n : ℕ) := by
  induction s generalizing n with
  | nil => simp
  | cons c cs ih =>
    rw [List.foldl_cons, Nat.ofDigitChars_cons, ← ih]
    push_cast
    rfl

theorem parseI64_decimal {n : ℕ} (small : n < 2 ^ 63) : parseI64 (decimal n) = some (n : ℤ) := by
  have digits : ∀ c ∈ decimal n, isAsciiDigit c = true := fun c => isAsciiDigit_of_mem_decimal
  have value : (decimal n).foldl (fun (n : ℤ) c => 10 * n + (c.toNat - 48 : ℕ)) 0 = n := by
    have cast := foldl_digits_cast (decimal n) 0
    rw [decimal_eq, Nat.ofDigitChars_toDigits (by decide) (by decide)] at cast
    rw [decimal_eq]
    exact_mod_cast cast
  have nonempty := decimal_ne_nil n
  have all : (decimal n).all isAsciiDigit = true := List.all_eq_true.mpr digits
  unfold parseI64
  split
  next negative rest shape =>
  split at shape
  · next minus => exact absurd (digits '-' (by simp [minus])) (by decide)
  · next plus => exact absurd (digits '+' (by simp [plus])) (by decide)
  · rw [Prod.mk.injEq] at shape
    obtain ⟨rfl, rfl⟩ := shape
    dsimp only
    rw [if_neg (by simp [nonempty, all]), value, if_neg Bool.false_ne_true, if_pos (by omega)]

/-! ## Old directories -/

namespace SymbolPool

variable {outside : Outside} {cutoff : ℤ} {tree : FileTree Bytes}

/-- A directory that is not old, or not above the location, leaves it alone. -/
theorem lookup_gcTree {dir loc : Location} (free : tree.LinkFree dir)
    (kept : dir <+: loc → tree.lookup dir = some .dir → ¬ lastUsed tree dir < cutoff) :
    (gcTree cutoff tree dir).lookup loc = tree.lookup loc := by
  have placed : tree.place dir = some dir :=
    FileTree.place_of_linkFree (free.of_leading (List.dropLast_prefix dir))
  unfold gcTree
  split_ifs with old
  · cases there : tree.lookup dir with
    | none => simp [FileTree.removeDirAll, placed, there, FileTree.orUnchanged]
    | some node =>
      cases node with
      | dir =>
        exact (lookup_orUnchanged_removeDirAll
          (free.of_leading (List.dropLast_prefix dir)).direct loc).resolve_right fun gone =>
            kept gone.1 there old
      | file content => simp [FileTree.removeDirAll, placed, there, FileTree.orUnchanged]
      | link target => exact absurd there (free.noLink target)
  · rfl

/-- A stamp is read from what is in its place. -/
theorem lastUsed_congr {tree' : FileTree Bytes} {dir : Location}
    (free : tree.LinkFree (stampOf dir)) (free' : tree'.LinkFree (stampOf dir))
    (same : tree'.lookup (stampOf dir) = tree.lookup (stampOf dir)) :
    lastUsed tree' dir = lastUsed tree dir := by
  have read : tree'.read (stampOf dir) = tree.read (stampOf dir) := by
    unfold FileTree.read
    rw [FileTree.stat_of_linkFree free', FileTree.stat_of_linkFree free, same]
  unfold lastUsed
  rw [read]

/-- A stamp that was written is read as its time. -/
theorem lastUsed_of_stamp {dir : Location} {t : ℕ} (small : t < 2 ^ 63)
    (stamp : tree.lookup (stampOf dir) = some (.file (utf8Encode (decimal t)))) :
    lastUsed tree dir = t := by
  have read : tree.read (stampOf dir) = some (utf8Encode (decimal t)) := by
    unfold FileTree.read
    rw [FileTree.stat_of_linkFree (FileTree.linkFree_of_isFile stamp), stamp]
  have visible : ∀ c ∈ decimal t, isWhitespace c = false := fun c member =>
    isWhitespace_of_isAsciiDigit (isAsciiDigit_of_mem_decimal member)
  rw [lastUsed, read, Option.bind_some, utf8Decode_utf8Encode, Option.bind_some,
    trim_of_visible visible, parseI64_decimal small, Option.getD_some]

theorem eq_of_prefix_stampOf {left right : Location} (above : left <+: stampOf right)
    (same : left.length = right.length) : left = right :=
  eq_of_prefixes above (List.prefix_append ..) same

theorem prefix_stampOf (dir : Location) : dir <+: stampOf dir := List.prefix_append ..

/-- Removing one directory does not change the stamp of another. -/
theorem lastUsed_gcTree {dir other : Location} (sameLength : dir.length = other.length)
    (dirFree : tree.LinkFree dir) (free : tree.LinkFree (stampOf other))
    (kept : dir = other → tree.lookup dir = some .dir → ¬ lastUsed tree dir < cutoff) :
    lastUsed (gcTree cutoff tree dir) other = lastUsed tree other :=
  lastUsed_congr free ((shrinks_gcTree cutoff tree dir).linkFree free)
    (lookup_gcTree dirFree fun above => kept (eq_of_prefix_stampOf above sameLength))

/-- Places at one depth with no link on the way to their stamps. -/
structure Visitable (tree : FileTree Bytes) (dirs : List Location) (depth : ℕ) : Prop where
  lengths : ∀ dir ∈ dirs, dir.length = depth
  stampFree : ∀ dir ∈ dirs, tree.LinkFree (stampOf dir)

theorem Visitable.dirFree {dirs : List Location} {depth : ℕ} (visitable : Visitable tree dirs depth)
    {dir : Location} (member : dir ∈ dirs) : tree.LinkFree dir :=
  (visitable.stampFree dir member).of_leading (prefix_stampOf dir)

theorem Visitable.tail {dir : Location} {rest : List Location} {depth : ℕ}
    (visitable : Visitable tree (dir :: rest) depth) :
    Visitable (gcTree cutoff tree dir) rest depth where
  lengths other member := visitable.lengths other (List.mem_cons_of_mem _ member)
  stampFree other member := (shrinks_gcTree cutoff tree dir).linkFree
    (visitable.stampFree other (List.mem_cons_of_mem _ member))

/-- What is in none of the old directories is kept. -/
theorem lookup_foldl_gcTree {dirs : List Location} {depth : ℕ} {loc : Location}
    (visitable : Visitable tree dirs depth)
    (kept : ∀ dir ∈ dirs, dir <+: loc → tree.lookup dir = some .dir →
      ¬ lastUsed tree dir < cutoff) :
    (dirs.foldl (gcTree cutoff) tree).lookup loc = tree.lookup loc := by
  induction dirs generalizing tree with
  | nil => rfl
  | cons dir rest ih =>
    have first : dir ∈ dir :: rest := List.mem_cons_self ..
    rw [List.foldl_cons, ih visitable.tail]
    · exact lookup_gcTree (visitable.dirFree first) (kept dir first)
    · intro other member above isDir
      have inDirs := List.mem_cons_of_mem dir member
      have wasDir := (shrinks_gcTree cutoff tree dir).lookup_eq_some isDir
      rw [lastUsed_gcTree ((visitable.lengths dir first).trans (visitable.lengths other inDirs).symm)
        (visitable.dirFree first) (visitable.stampFree other inDirs)]
      · exact kept other inDirs above wasDir
      · rintro rfl
        exact kept dir inDirs above

/-- An old directory is removed with everything in it. -/
theorem lookup_foldl_gcTree_of_old {dirs : List Location} {depth : ℕ} {dir loc : Location}
    (visitable : Visitable tree dirs depth) (member : dir ∈ dirs)
    (isDir : tree.lookup dir = some .dir) (old : lastUsed tree dir < cutoff) (inside : dir <+: loc)
    (below : loc ≠ []) : (dirs.foldl (gcTree cutoff) tree).lookup loc = none := by
  induction dirs generalizing tree with
  | nil => contradiction
  | cons first rest ih =>
    rw [List.foldl_cons]
    by_cases same : first = dir
    · subst same
      have removed : (gcTree cutoff tree first).lookup loc = none := by
        unfold gcTree
        rw [if_pos old, FileTree.removeDirAll_of_isDir isDir, FileTree.orUnchanged, Option.getD_some,
          FileTree.lookup_prune, if_pos ⟨below, inside⟩]
      rcases Shrinks.foldl (shrinks_gcTree cutoff) rest (gcTree cutoff tree first) loc with
        unchanged | gone
      · exact unchanged.trans removed
      · exact gone
    · have later := (List.mem_cons.mp member).resolve_left (Ne.symm same)
      have sameLength : first.length = dir.length :=
        (visitable.lengths first (List.mem_cons_self ..)).trans
          (visitable.lengths dir member).symm
      have free := visitable.dirFree (List.mem_cons_self ..)
      apply ih visitable.tail later
      · rw [lookup_gcTree free fun above => absurd (above.eq_of_length sameLength) same, isDir]
      · rwa [lastUsed_gcTree sameLength free (visitable.stampFree dir member)
          fun isSame => absurd isSame same]

/-! ## Links that lead nowhere -/

theorem fileAt_gcLink (tree : FileTree Bytes) (link loc : Location) :
    fileAt (gcLink tree link) loc = fileAt tree loc := by
  unfold gcLink
  split_ifs with dangling
  · cases removed : tree.removeFile link with
    | none => rfl
    | some tree' =>
      obtain ⟨place, placed, -, noDir, rfl⟩ := FileTree.removeFile_eq_some removed
      obtain ⟨isSymlink, -⟩ := Bool.and_eq_true_iff.mp dangling
      rw [FileTree.isSymlink, FileTree.lstat, placed, Option.bind_some] at isSymlink
      rw [FileTree.orUnchanged, Option.getD_some]
      unfold fileAt
      rw [tree.lookup_prune_of_not_dir noDir]
      split_ifs with here
      · subst here
        cases there : tree.lookup loc with
        | none => rfl
        | some node =>
          cases node with
          | dir => rfl
          | link target => rfl
          | file content => simp [there, Node.isLink] at isSymlink
      · rfl
  · rfl

theorem fileAt_foldl_gcLink (links : List Location) (tree : FileTree Bytes) (loc : Location) :
    fileAt (links.foldl gcLink tree) loc = fileAt tree loc := by
  induction links generalizing tree with
  | nil => rfl
  | cons link rest ih => rw [List.foldl_cons, ih, fileAt_gcLink]

theorem gcLink_cases {link : Location} (parentFree : tree.LinkFree link.dropLast) :
    gcLink tree link = tree ∧
        ((∀ target, tree.lookup link ≠ some (.link target)) ∨ tree.pathExists link = true) ∨
      ∃ target, tree.lookup link = some (.link target) ∧ tree.pathExists link = false ∧
        gcLink tree link = tree.prune link := by
  unfold gcLink FileTree.isSymlink FileTree.lstat
  rw [FileTree.place_of_linkFree parentFree, Option.bind_some]
  cases there : tree.lookup link with
  | none => simp
  | some node =>
    cases node with
    | dir => simp [Node.isLink]
    | file content => simp [Node.isLink]
    | link target =>
      cases present : tree.pathExists link with
      | true => simp
      | false => simp [Node.isLink, FileTree.removeFile_of_isLink there, FileTree.orUnchanged]

theorem pathExists_gcLink {link loc : Location} (parentFree : tree.LinkFree link.dropLast)
    (present : tree.pathExists loc = true) : (gcLink tree link).pathExists loc = true := by
  rcases gcLink_cases parentFree with ⟨same, -⟩ | ⟨target, isLink, dangling, pruned⟩
  · rwa [same]
  · rw [pruned]
    exact FileTree.pathExists_prune_dangling isLink dangling present

theorem pathExists_foldl_gcLink {loc : Location} {links : List Location}
    (parentFree : ∀ link ∈ links, tree.LinkFree link.dropLast)
    (present : tree.pathExists loc = true) : (links.foldl gcLink tree).pathExists loc = true := by
  induction links generalizing tree with
  | nil => exact present
  | cons link rest ih =>
    refine ih (fun other member => ?_)
      (pathExists_gcLink (parentFree link (List.mem_cons_self ..)) present)
    exact (shrinks_gcLink tree link).linkFree (parentFree other (List.mem_cons_of_mem _ member))

/-- A link that was visited and is still there leads somewhere. -/
theorem pathExists_of_visited {links : List Location} {link target : Location}
    (parentFree : ∀ link ∈ links, tree.LinkFree link.dropLast) (member : link ∈ links)
    (isLink : (links.foldl gcLink tree).lookup link = some (.link target)) :
    (links.foldl gcLink tree).pathExists link = true := by
  induction links generalizing tree with
  | nil => contradiction
  | cons first rest ih =>
    rw [List.foldl_cons] at isLink ⊢
    have free := parentFree first (List.mem_cons_self ..)
    have laterFree : ∀ other ∈ rest, (gcLink tree first).LinkFree other.dropLast :=
      fun other member => (shrinks_gcLink tree first).linkFree
        (parentFree other (List.mem_cons_of_mem _ member))
    rcases List.mem_cons.mp member with rfl | later
    · have stays := (Shrinks.foldl shrinks_gcLink rest (gcLink tree link)).lookup_eq_some isLink
      rcases gcLink_cases free with ⟨same, noLink | present⟩ | ⟨target', before, -, pruned⟩
      · rw [same] at stays
        exact absurd stays (noLink target)
      · exact pathExists_foldl_gcLink laterFree (pathExists_gcLink free present)
      · rw [pruned, tree.lookup_prune_of_not_dir (by simp [before]), if_pos rfl] at stays
        contradiction
    · exact ih laterFree later isLink

/-! ## Two levels -/

theorem mem_walkTwoLevels_form {root loc : Location}
    (member : loc ∈ walkTwoLevels outside tree root) :
    ∃ first second, loc = root ++ [first, second] := by
  obtain ⟨first, -, inFirst⟩ := List.mem_flatMap.mp member
  obtain ⟨second, -, rfl⟩ := List.mem_map.mp inFirst
  exact ⟨first, second, rfl⟩

/-- Whatever stands two levels below is visited. -/
theorem mem_walkTwoLevels {root : Location} {first second : Text}
    (present : tree.lookup (root ++ [first, second]) ≠ none) :
    root ++ [first, second] ∈ walkTwoLevels outside tree root := by
  have toFirst : root ++ [first, second] = root ++ [first] ++ [second] := by simp
  have above : tree.lookup (root ++ [first]) ≠ none := by
    rw [tree.lookup_of_prefix present ⟨[second], by simp⟩ (by simp)]
    simp
  refine List.mem_flatMap.mpr ⟨first, (outside.listing_perm _).mem_iff.mpr
    (FileTree.mem_readDir_of_lookup above), ?_⟩
  refine List.mem_map.mpr ⟨second, (outside.listing_perm _).mem_iff.mpr
    (FileTree.mem_readDir_of_lookup ?_), rfl⟩
  rwa [toFirst] at present

/-! ## Whole collections -/

variable {pool : SymbolPool} {retentionWeeks : ℕ}

/-- The time before which a last use is too old. -/
def cutoffOf (outside : Outside) (retentionWeeks : ℕ) : ℤ :=
  outside.now - retentionWeeks * 7 * 86400

/-- The tree without the old snapshots, before the links are visited. -/
def gcTrees (pool : SymbolPool) (outside : Outside) (retentionWeeks : ℕ) (tree : FileTree Bytes) :
    FileTree Bytes :=
  (walkTwoLevels outside tree pool.snapshotDir).foldl (gcTree (cutoffOf outside retentionWeeks)) tree

theorem gc_eq (pool : SymbolPool) (outside : Outside) (retentionWeeks : ℕ)
    (tree : FileTree Bytes) :
    pool.gc outside retentionWeeks tree =
      (walkTwoLevels outside (pool.gcTrees outside retentionWeeks tree) pool.indexDir).foldl gcLink
        (pool.gcTrees outside retentionWeeks tree) := rfl

theorem LinksIndexed.stampFree (indexed : LinksIndexed pool tree) {dir : Location}
    (inKernel : pool.kernelDir <+: dir) : tree.LinkFree (stampOf dir) :=
  indexed.inKernel (inKernel.trans (prefix_stampOf dir))

theorem LinksIndexed.shrinks {tree' : FileTree Bytes} (indexed : LinksIndexed pool tree)
    (shrinks : Shrinks tree tree') : LinksIndexed pool tree' where
  root := shrinks.linkFree indexed.root
  links loc target inPool isLink := indexed.links loc target inPool (shrinks.lookup_eq_some isLink)

theorem shrinks_gcTrees (pool : SymbolPool) (outside : Outside) (retentionWeeks : ℕ)
    (tree : FileTree Bytes) : Shrinks tree (pool.gcTrees outside retentionWeeks tree) :=
  Shrinks.foldl (shrinks_gcTree _) _ tree

theorem walk_snapshotDir_spec {dir : Location}
    (member : dir ∈ walkTwoLevels outside tree pool.snapshotDir) : pool.IsSnapshotTree dir :=
  mem_walkTwoLevels_form member

theorem LinksIndexed.visitable (indexed : LinksIndexed pool tree) (outside : Outside) :
    Visitable tree (walkTwoLevels outside tree pool.snapshotDir) (pool.dir.length + 4) where
  lengths _ member := (walk_snapshotDir_spec member).length
  stampFree _ member := indexed.stampFree (walk_snapshotDir_spec member).inKernel

/-- A place where a collection looks for a link. -/
def IsIndexPlace (pool : SymbolPool) (link : Location) : Prop :=
  ∃ first second, link = pool.indexDir ++ [first, second]

theorem LinksIndexed.parentFree (indexed : LinksIndexed pool tree) {link : Location}
    (place : pool.IsIndexPlace link) : tree.LinkFree link.dropLast := by
  obtain ⟨first, second, rfl⟩ := place
  have parent : (pool.indexDir ++ [first, second]).dropLast =
      pool.dir ++ [".build-id".toList, first] := by
    simp [indexDir, List.dropLast_append_of_ne_nil]
  rw [parent]
  exact indexed.inIndexDir first

/-- What is in no old snapshot is kept. -/
theorem lookup_gcTrees (indexed : LinksIndexed pool tree) {loc : Location}
    (kept : ∀ dir, pool.IsSnapshotTree dir → dir <+: loc → tree.lookup dir = some .dir →
      ¬ lastUsed tree dir < cutoffOf outside retentionWeeks) :
    (pool.gcTrees outside retentionWeeks tree).lookup loc = tree.lookup loc :=
  lookup_foldl_gcTree (indexed.visitable outside)
    (fun dir member => kept dir (walk_snapshotDir_spec member))

theorem fileAt_gc (indexed : LinksIndexed pool tree) {loc : Location}
    (kept : ∀ dir, pool.IsSnapshotTree dir → dir <+: loc →
      ¬ lastUsed tree dir < cutoffOf outside retentionWeeks) :
    fileAt (pool.gc outside retentionWeeks tree) loc = fileAt tree loc := by
  rw [gc_eq, fileAt_foldl_gcLink,
    fileAt_congr (lookup_gcTrees indexed fun dir snapshot above _ => kept dir snapshot above)]

/-- An old snapshot is removed as a whole. -/
theorem lookup_gc_of_old (indexed : LinksIndexed pool tree) {dir loc : Location}
    (snapshot : pool.IsSnapshotTree dir) (isDir : tree.lookup dir = some .dir)
    (old : lastUsed tree dir < cutoffOf outside retentionWeeks) (inside : dir <+: loc) :
    (pool.gc outside retentionWeeks tree).lookup loc = none := by
  have below : loc ≠ [] := by
    rintro rfl
    have shorter := inside.length_le
    rw [snapshot.length, List.length_nil] at shorter
    omega
  have visited : dir ∈ walkTwoLevels outside tree pool.snapshotDir := by
    obtain ⟨target, subtarget, rfl⟩ := snapshot
    exact mem_walkTwoLevels (by simp [isDir])
  have removed : (pool.gcTrees outside retentionWeeks tree).lookup loc = none :=
    lookup_foldl_gcTree_of_old (indexed.visitable outside) visited isDir old inside below
  rw [gc_eq]
  rcases Shrinks.foldl shrinks_gcLink _ _ loc with same | gone
  · exact same.trans removed
  · exact gone

/-- No link of the index leads nowhere. -/
theorem pathExists_of_link_gc (indexed : LinksIndexed pool tree) {loc target : Location}
    (inPool : pool.dir <+: loc)
    (isLink : (pool.gc outside retentionWeeks tree).lookup loc = some (.link target)) :
    (pool.gc outside retentionWeeks tree).pathExists loc = true := by
  rw [gc_eq] at isLink ⊢
  have shrinks := shrinks_gcTrees pool outside retentionWeeks tree
  apply pathExists_of_visited (fun link member =>
    (indexed.shrinks shrinks).parentFree (mem_walkTwoLevels_form member)) _ isLink
  have before := (Shrinks.foldl shrinks_gcLink _ _).lookup_eq_some isLink
  obtain ⟨id, rfl⟩ := indexed.links loc target inPool (shrinks.lookup_eq_some before)
  rw [debugLink_eq] at before ⊢
  apply mem_walkTwoLevels
  rw [before]
  simp

end SymbolPool

end UcrashReport.Symbols
