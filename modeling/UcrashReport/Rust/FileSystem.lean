import UcrashReport.Rust.Links

/-! # The operations of `std::fs`

Operations take paths and follow the links on the way. They return no tree when the call fails; a
failed call changes nothing. Their laws are about paths on which no link leads to a directory: there
they change what stands at the path itself.
-/

namespace Rust.FileTree

variable {γ : Type*}

/-- `mkdir`. -/
def createDir (tree : FileTree γ) (path : Location) : Option (FileTree γ) :=
  (tree.place path).bind fun loc => tree.create loc .dir

/-- The directories of a path, one below the other. The first one that cannot be made ends it: below
a directory that was just made nothing is in the way. -/
def createDirsFrom (tree : FileTree γ) (base : Location) : List Text → Option (FileTree γ)
  | [] => some tree
  | name :: rest =>
    if tree.stat (base ++ [name]) = some .dir then createDirsFrom tree (base ++ [name]) rest
    else
      (tree.createDir (base ++ [name])).bind fun made =>
        createDirsFrom made (base ++ [name]) rest

/-- `fs::create_dir_all`. -/
def createDirAll (tree : FileTree γ) (path : Location) : Option (FileTree γ) :=
  tree.createDirsFrom [] path

/-- `fs::write`: the file that the path leads to is made or replaced. -/
def write (tree : FileTree γ) (path : Location) (content : γ) : Option (FileTree γ) :=
  (tree.destination path).bind fun last =>
    if tree.lookup last = some .dir then none else (tree.prune last).create last (.file content)

/-- `fs::remove_file`: a file, or a link itself. -/
def removeFile (tree : FileTree γ) (path : Location) : Option (FileTree γ) :=
  (tree.place path).bind fun loc =>
    match tree.lookup loc with
    | some (.file _) | some (.link _) => some (tree.prune loc)
    | _ => none

/-- `fs::remove_dir_all`: a directory with its contents, or a link itself. -/
def removeDirAll (tree : FileTree γ) (path : Location) : Option (FileTree γ) :=
  (tree.place path).bind fun loc =>
    match tree.lookup loc with
    | some .dir | some (.link _) => some (tree.prune loc)
    | _ => none

/-- `os::unix::fs::symlink`. -/
def symlink (tree : FileTree γ) (target path : Location) : Option (FileTree γ) :=
  (tree.place path).bind fun loc => tree.create loc (.link target)

/-- `fs::read_dir`: the names in a directory. -/
def readDir (tree : FileTree γ) (path : Location) : Option (List Text) :=
  (tree.destination path).bind fun last =>
    if tree.lookup last = some .dir then
      some (tree.entries.filterMap fun entry => childName last entry.1)
    else none

/-- An operation whose failure the program ignores. -/
def orUnchanged (tree : FileTree γ) (changed : Option (FileTree γ)) : FileTree γ :=
  changed.getD tree

/-! ## Directories that are made -/

section Making

variable {tree tree' : FileTree γ}

/-- Directories were made where nothing stood. -/
def Makes (tree tree' : FileTree γ) : Prop :=
  ∀ loc, tree'.lookup loc = tree.lookup loc ∨
    tree.lookup loc = none ∧ tree'.lookup loc = some .dir

theorem Makes.refl (tree : FileTree γ) : Makes tree tree := fun _ => .inl rfl

theorem Makes.trans {first second third : FileTree γ} (left : Makes first second)
    (right : Makes second third) : Makes first third := by
  intro loc
  rcases right loc with same | ⟨absent, isDir⟩
  · rw [same]
    exact left loc
  · rcases left loc with same | ⟨-, made⟩
    · exact .inr ⟨same ▸ absent, isDir⟩
    · rw [made] at absent
      contradiction

theorem Makes.lookup_of_present (makes : Makes tree tree') {loc : Location}
    (present : tree.lookup loc ≠ none) : tree'.lookup loc = tree.lookup loc :=
  (makes loc).resolve_right fun made => present made.1

theorem Makes.prune (makes : Makes tree tree') (root : Location) :
    Makes (tree.prune root) (tree'.prune root) := by
  intro loc
  rw [lookup_prune, lookup_prune]
  split_ifs
  · exact .inl rfl
  · exact makes loc

theorem Makes.link_iff (makes : Makes tree tree') (loc target : Location) :
    tree'.lookup loc = some (.link target) ↔ tree.lookup loc = some (.link target) := by
  rcases makes loc with same | ⟨absent, isDir⟩
  · rw [same]
  · simp [absent, isDir]

theorem Makes.destination_eq (makes : Makes tree tree') (path : Location) :
    tree'.destination path = tree.destination path := destination_congr makes.link_iff path

theorem makes_of_create {loc : Location} (created : tree.create loc .dir = some tree') :
    Makes tree tree' := by
  obtain ⟨absent, -, after⟩ := create_eq_some created
  intro query
  rw [after]
  split_ifs with here
  · exact .inr ⟨here ▸ absent, rfl⟩
  · exact .inl rfl

/-- A directory is made where the path ends, and the path leads to it. -/
theorem createDir_spec {path : Location} (made : tree.createDir path = some tree') :
    Makes tree tree' ∧ tree'.stat path = some .dir := by
  obtain ⟨loc, placed, created⟩ := Option.bind_eq_some_iff.mp made
  have makes := makes_of_create created
  obtain ⟨absent, -, after⟩ := create_eq_some created
  refine ⟨makes, ?_⟩
  obtain rfl | ⟨front, name, rfl⟩ := List.eq_nil_or_concat' path
  · obtain rfl := Option.some.inj placed
    simp at absent
  · unfold place at placed
    rw [List.getLast?_concat, List.dropLast_concat] at placed
    obtain ⟨dir, leads, rfl⟩ := Option.map_eq_some_iff.mp placed
    have isDir := after (dir ++ [name])
    rw [if_pos rfl] at isDir
    have whole : tree'.destination (front ++ [name]) = some (dir ++ [name]) :=
      chase_concat (by simp [isDir]) ((makes.destination_eq front).trans leads)
    rw [stat, whole, Option.bind_some, isDir]

theorem createDirsFrom_makes {base : Location} {rest : List Text}
    (isDir : tree.stat base = some .dir) (made : tree.createDirsFrom base rest = some tree') :
    Makes tree tree' ∧ tree'.stat (base ++ rest) = some .dir := by
  induction rest generalizing tree base with
  | nil =>
    obtain rfl := Option.some.inj made
    exact ⟨.refl _, by rwa [List.append_nil]⟩
  | cons name rest ih =>
    have whole : base ++ name :: rest = base ++ [name] ++ rest := by simp
    rw [whole]
    unfold createDirsFrom at made
    split_ifs at made with there
    · exact ih there made
    · obtain ⟨middle, first, made⟩ := Option.bind_eq_some_iff.mp made
      obtain ⟨makes, isDir'⟩ := createDir_spec first
      obtain ⟨later, leads⟩ := ih isDir' made
      exact ⟨makes.trans later, leads⟩

/-- `create_dir_all` makes directories only, and the path leads to one. -/
theorem createDirAll_makes {path : Location} (made : tree.createDirAll path = some tree') :
    Makes tree tree' ∧ tree'.stat path = some .dir :=
  createDirsFrom_makes (stat_of_linkFree linkFree_nil) made

theorem create_of_free {loc : Location} (absent : tree.lookup loc = none)
    (parent : tree.lookup loc.dropLast = some .dir) (node : Node γ) :
    ∃ tree', tree.create loc node = some tree' := by
  unfold create
  rw [dif_pos ⟨absent, parent⟩]
  exact ⟨_, rfl⟩

/-- What is made where nothing stood leaves no link on a path through it. -/
theorem linkFree_of_made {loc : Location} (absent : tree.lookup loc = none)
    (made : tree.create loc .dir = some tree') (rest : Location) : tree'.LinkFree (loc ++ rest) := by
  obtain ⟨-, -, after⟩ := create_eq_some made
  have isDir : tree'.lookup loc = some .dir := by rw [after, if_pos rfl]
  intro above leading
  rcases List.prefix_or_prefix_of_prefix leading (List.prefix_append loc rest) with higher | lower
  · exact (linkFree_of_isDir isDir).of_leading higher |>.noLink
  · by_cases here : above = loc
    · simp [here, isDir]
    · have nothing := tree.lookup_below_of_not_dir (by simp [absent]) lower (Ne.symm here)
      rw [after, if_neg here, nothing]
      simp

theorem between_cons {base rest loc : Location} {name : Text} :
    base <+: loc ∧ loc <+: base ++ name :: rest ↔
      loc = base ∨ base ++ [name] <+: loc ∧ loc <+: base ++ [name] ++ rest := by
  rw [List.append_assoc, List.singleton_append]
  constructor
  · rintro ⟨⟨suffix, rfl⟩, above⟩
    cases suffix with
    | nil => exact .inl (List.append_nil base)
    | cons head suffix =>
      have same := (List.cons_prefix_cons.mp ((List.prefix_append_right_inj base).mp above)).1
      subst same
      exact .inr ⟨⟨suffix, by simp⟩, above⟩
  · rintro (rfl | ⟨below, above⟩)
    · exact ⟨List.prefix_rfl, List.prefix_append ..⟩
    · exact ⟨(List.prefix_append ..).trans below, above⟩

theorem createDirsFrom_spec {base : Location} {rest : List Text}
    (isDir : tree.lookup base = some .dir) (direct : tree.Direct (base ++ rest))
    (made : tree.createDirsFrom base rest = some tree') :
    (∀ loc, base <+: loc → loc <+: base ++ rest →
        tree.lookup loc = some .dir ∨ tree.lookup loc = none) ∧
      ∀ query, tree'.lookup query =
        if base <+: query ∧ query <+: base ++ rest then some .dir else tree.lookup query := by
  induction rest generalizing tree base with
  | nil =>
    rw [createDirsFrom, Option.some.injEq] at made
    subst made
    have only : ∀ loc : Location, base <+: loc → loc <+: base ++ [] → loc = base := by
      intro loc below above
      rw [List.append_nil] at above
      exact above.eq_of_length_le below.length_le
    refine ⟨fun loc below above => .inl (only loc below above ▸ isDir), fun query => ?_⟩
    split_ifs with between
    · rw [only query between.1 between.2, isDir]
    · rfl
  | cons name rest ih =>
    have whole : base ++ name :: rest = base ++ [name] ++ rest := by simp
    have first : tree.Direct (base ++ [name]) :=
      direct.of_leading (whole ▸ List.prefix_append ..)
    unfold createDirsFrom at made
    split_ifs at made with leads
    · have there : tree.lookup (base ++ [name]) = some .dir := by
        rw [← stat_of_linkFree (first.linkFree_of_isDir leads), leads]
      obtain ⟨free, after⟩ := ih there (whole ▸ direct) made
      refine ⟨fun loc lower upper => ?_, fun query => ?_⟩
      · rcases between_cons.mp ⟨lower, upper⟩ with rfl | ⟨lower, upper⟩
        · exact .inl isDir
        · exact free loc lower upper
      · rw [after, if_congr between_cons rfl rfl]
        by_cases here : query = base
        · subst here
          simp [isDir]
        · simp [here]
    · obtain ⟨middle, making, made⟩ := Option.bind_eq_some_iff.mp made
      obtain ⟨loc, placed, created⟩ := Option.bind_eq_some_iff.mp making
      obtain ⟨absent, parent, new⟩ := create_eq_some created
      obtain rfl := (first.of_leading (List.dropLast_prefix _)).eq_of_place placed parent
      obtain ⟨free, after⟩ :=
        ih (by rw [new, if_pos rfl]) (linkFree_of_made absent created rest).direct made
      refine ⟨fun loc lower upper => ?_, fun query => ?_⟩
      · rcases between_cons.mp ⟨lower, upper⟩ with rfl | ⟨lower, upper⟩
        · exact .inl isDir
        · by_cases here : loc = base ++ [name]
          · exact .inr (here ▸ absent)
          · have := free loc lower upper
            rwa [new, if_neg here] at this
      · rw [after, if_congr between_cons rfl rfl, new]
        by_cases here : query = base
        · subst here
          simp [isDir]
        · by_cases next : query = base ++ [name]
          · simp [next]
          · simp [here, next]

/-- `create_dir_all` makes the location and what is above it directories, where nothing stood. -/
theorem createDirAll_spec {loc : Location} (direct : tree.Direct loc)
    (made : tree.createDirAll loc = some tree') :
    (∀ above, above <+: loc → tree.lookup above = some .dir ∨ tree.lookup above = none) ∧
      ∀ query, tree'.lookup query = if query <+: loc then some .dir else tree.lookup query := by
  obtain ⟨free, after⟩ := createDirsFrom_spec rfl direct made
  exact ⟨fun above leading => free above List.nil_prefix leading,
    fun query => by rw [after]; simp⟩

/-- A path on which `create_dir_all` succeeds passes no link, unless one leads to a directory. -/
theorem linkFree_of_createDirAll {loc : Location} (direct : tree.Direct loc)
    (made : tree.createDirAll loc = some tree') : tree.LinkFree loc := by
  intro above leading
  rcases (createDirAll_spec direct made).1 above leading with isDir | absent
  · simp [isDir]
  · simp [absent]

theorem createDirsFrom_of_free {base : Location} {rest : List Text}
    (isDir : tree.lookup base = some .dir)
    (free : ∀ loc, base <+: loc → loc <+: base ++ rest →
      tree.lookup loc = some .dir ∨ tree.lookup loc = none) :
    ∃ tree', tree.createDirsFrom base rest = some tree' := by
  induction rest generalizing tree base with
  | nil => exact ⟨tree, rfl⟩
  | cons name rest ih =>
    have whole : base ++ name :: rest = base ++ [name] ++ rest := by simp
    have later : ∀ loc, base ++ [name] <+: loc → base <+: loc := fun loc above =>
      (List.prefix_append ..).trans above
    unfold createDirsFrom
    rcases free (base ++ [name]) (List.prefix_append ..) ⟨rest, whole.symm⟩ with there | absent
    · rw [if_pos ((stat_of_linkFree (linkFree_of_isDir there)).trans there)]
      exact ih there fun loc lower upper => free loc (later loc lower) (whole ▸ upper)
    · have parentFree : tree.LinkFree (base ++ [name]) :=
        .of_noLink (fun above leading strict => (linkFree_of_isDir isDir).of_leading
          ((List.prefix_concat_iff.mp leading).resolve_left strict) |>.noLink) (by simp [absent])
      have placed : tree.place (base ++ [name]) = some (base ++ [name]) :=
        place_of_linkFree (parentFree.of_leading (List.dropLast_prefix _))
      obtain ⟨made, created⟩ := create_of_free absent (by rwa [List.dropLast_concat]) .dir
      obtain ⟨-, -, new⟩ := create_eq_some created
      rw [if_neg (by simp [stat_of_linkFree parentFree, absent]), createDir, placed,
        Option.bind_some, created, Option.bind_some]
      apply ih (by rw [new, if_pos rfl])
      intro loc lower upper
      rw [new]
      split_ifs
      · exact .inl rfl
      · exact free loc (later loc lower) (whole ▸ upper)

/-- `create_dir_all` succeeds where nothing but directories is in the way. -/
theorem createDirAll_of_free {loc : Location}
    (free : ∀ above, above <+: loc → tree.lookup above = some .dir ∨ tree.lookup above = none) :
    ∃ tree', tree.createDirAll loc = some tree' :=
  createDirsFrom_of_free rfl fun above _ leading => free above leading

end Making

/-! ## Files, removals and links -/

section Changing

variable {tree tree' : FileTree γ}

/-- `fs::write` changes the one location that the path leads to. -/
theorem write_eq_some {path : Location} {content : γ}
    (written : tree.write path content = some tree') :
    ∃ last, tree.destination path = some last ∧ tree.lookup last ≠ some .dir ∧
      tree.lookup last.dropLast = some .dir ∧
      ∀ query, tree'.lookup query =
        if query = last then some (.file content) else tree.lookup query := by
  obtain ⟨last, leads, changed⟩ := Option.bind_eq_some_iff.mp written
  split_ifs at changed with isDir
  obtain ⟨-, parent, new⟩ := create_eq_some changed
  refine ⟨last, leads, isDir, ?_, fun query => ?_⟩
  · rw [lookup_prune_of_not_dir tree isDir] at parent
    split_ifs at parent
    exact parent
  · rw [new, lookup_prune_of_not_dir tree isDir]
    split_ifs <;> rfl

theorem write_spec {path : Location} {content : γ} (direct : tree.Direct path.dropLast)
    (noLink : ∀ target, tree.lookup path ≠ some (.link target))
    (written : tree.write path content = some tree') (query : Location) :
    tree'.lookup query = if query = path then some (.file content) else tree.lookup query := by
  obtain ⟨last, leads, -, parent, after⟩ := write_eq_some written
  rw [← direct.eq_of_destination noLink leads parent, after]

/-- A file can be written into a directory, over nothing or another file. -/
theorem write_of_free {path : Location} (content : γ) (parent : tree.lookup path.dropLast = some .dir)
    (below : path ≠ []) (free : tree.lookup path = none ∨ ∃ old, tree.lookup path = some (.file old)) :
    ∃ tree', tree.write path content = some tree' := by
  have noLink : ∀ target, tree.lookup path ≠ some (.link target) := by
    rcases free with absent | ⟨old, isFile⟩
    · simp [absent]
    · simp [isFile]
  have noDir : tree.lookup path ≠ some .dir := by
    rcases free with absent | ⟨old, isFile⟩
    · simp [absent]
    · simp [isFile]
  have linkFree : tree.LinkFree path := by
    refine .of_noLink (fun above leading strict => ?_) noLink
    refine (linkFree_of_isDir parent) above ?_
    obtain rfl | ⟨front, name, rfl⟩ := List.eq_nil_or_concat' path
    · contradiction
    · rw [List.dropLast_concat]
      exact (List.prefix_concat_iff.mp leading).resolve_left strict
  have different : path.dropLast ≠ path := by
    intro same
    have shorter := congrArg List.length same
    have positive := List.length_pos_iff.mpr below
    rw [List.length_dropLast] at shorter
    omega
  rw [write, destination_of_linkFree linkFree, Option.bind_some, if_neg noDir]
  apply create_of_free
  · rw [lookup_prune_of_not_dir tree noDir, if_pos rfl]
  · rw [lookup_prune_of_not_dir tree noDir, if_neg different, parent]

theorem dropLast_isDir {loc : Location} (present : tree.lookup loc ≠ none) :
    tree.lookup loc.dropLast = some .dir := by
  obtain rfl | ⟨front, name, rfl⟩ := List.eq_nil_or_concat' loc
  · rfl
  · rw [List.dropLast_concat]
    exact tree.lookup_of_prefix present (List.prefix_append ..) (by simp)

/-- `fs::remove_file` removes one node, which is no directory. -/
theorem removeFile_eq_some {path : Location} (removed : tree.removeFile path = some tree') :
    ∃ loc, tree.place path = some loc ∧ tree.lookup loc ≠ none ∧ tree.lookup loc ≠ some .dir ∧
      tree' = tree.prune loc := by
  obtain ⟨loc, placed, removed⟩ := Option.bind_eq_some_iff.mp removed
  refine ⟨loc, placed, ?_⟩
  split at removed
  · next there =>
    cases removed
    simp [there]
  · next there =>
    cases removed
    simp [there]
  · contradiction

theorem removeFile_spec {path : Location} (direct : tree.Direct path.dropLast)
    (removed : tree.removeFile path = some tree') (query : Location) :
    tree'.lookup query = if query = path then none else tree.lookup query := by
  obtain ⟨loc, placed, present, noDir, rfl⟩ := removeFile_eq_some removed
  rw [← direct.eq_of_place placed (dropLast_isDir present)]
  exact lookup_prune_of_not_dir tree noDir query

/-- `fs::remove_dir_all` removes what stands in place of the path, with everything below. -/
theorem removeDirAll_eq_some {path : Location} (removed : tree.removeDirAll path = some tree') :
    ∃ loc, tree.place path = some loc ∧ tree.lookup loc ≠ none ∧ tree' = tree.prune loc := by
  obtain ⟨loc, placed, removed⟩ := Option.bind_eq_some_iff.mp removed
  refine ⟨loc, placed, ?_⟩
  split at removed
  · next there =>
    cases removed
    simp [there]
  · next there =>
    cases removed
    simp [there]
  · contradiction

theorem removeDirAll_spec {path : Location} (direct : tree.Direct path.dropLast)
    (removed : tree.removeDirAll path = some tree') (query : Location) :
    tree'.lookup query = if query ≠ [] ∧ path <+: query then none else tree.lookup query := by
  obtain ⟨loc, placed, present, rfl⟩ := removeDirAll_eq_some removed
  rw [← direct.eq_of_place placed (dropLast_isDir present)]
  exact lookup_prune tree loc query

/-- A directory is removed. -/
theorem removeDirAll_of_isDir {loc : Location} (isDir : tree.lookup loc = some .dir) :
    tree.removeDirAll loc = some (tree.prune loc) := by
  rw [removeDirAll, place_of_present (by simp [isDir]), Option.bind_some, isDir]

/-- A link is removed. -/
theorem removeFile_of_isLink {loc target : Location}
    (isLink : tree.lookup loc = some (.link target)) :
    tree.removeFile loc = some (tree.prune loc) := by
  rw [removeFile, place_of_present (by simp [isLink]), Option.bind_some, isLink]

/-- Nothing stands where a link was removed, or where nothing stood before. -/
theorem lookup_removeFile_of_link {loc : Location} (parent : tree.lookup loc.dropLast = some .dir)
    (place : tree.lookup loc = none ∨ ∃ target, tree.lookup loc = some (.link target))
    (query : Location) : (tree.orUnchanged (tree.removeFile loc)).lookup query =
      if query = loc then none else tree.lookup query := by
  rcases place with absent | ⟨target, isLink⟩
  · have kept : tree.removeFile loc = none := by
      rw [removeFile, place_of_linkFree (linkFree_of_isDir parent), Option.bind_some, absent]
    rw [kept, orUnchanged, Option.getD_none]
    split_ifs with here
    · rw [here, absent]
    · rfl
  · rw [removeFile_of_isLink isLink, orUnchanged, Option.getD_some]
    exact tree.lookup_prune_of_not_dir (by simp [isLink]) query

theorem symlink_spec {target path : Location} (direct : tree.Direct path.dropLast)
    (linked : tree.symlink target path = some tree') :
    tree.lookup path = none ∧ tree.lookup path.dropLast = some .dir ∧
      ∀ query, tree'.lookup query =
        if query = path then some (.link target) else tree.lookup query := by
  obtain ⟨loc, placed, created⟩ := Option.bind_eq_some_iff.mp linked
  obtain ⟨absent, parent, after⟩ := create_eq_some created
  obtain rfl := direct.eq_of_place placed parent
  exact ⟨absent, parent, after⟩

/-- A link can be made in a directory, where nothing stands. -/
theorem symlink_of_free {path : Location} (target : Location) (absent : tree.lookup path = none)
    (parent : tree.lookup path.dropLast = some .dir) :
    ∃ tree', tree.symlink target path = some tree' := by
  rw [symlink, place_of_linkFree (linkFree_of_isDir parent), Option.bind_some]
  exact create_of_free absent parent _

/-! ## Listings -/

/-- `read_dir` lists exactly the names that are present in the directory. -/
theorem mem_readDir {path : Location} {listed : List Text}
    (read : tree.readDir path = some listed) :
    ∃ last, tree.destination path = some last ∧
      ∀ name, name ∈ listed ↔ tree.lookup (last ++ [name]) ≠ none := by
  obtain ⟨last, leads, listing⟩ := Option.bind_eq_some_iff.mp read
  split_ifs at listing
  cases listing
  refine ⟨last, leads, fun name => ?_⟩
  have below : last ++ [name] ≠ [] := by simp
  rw [List.mem_filterMap, lookup, lookupEntries, if_neg below, ne_eq, List.lookup_eq_none_iff]
  simp only [childName_eq_some, not_forall, bne_iff_ne, ne_eq]
  constructor
  · rintro ⟨entry, member, same⟩
    exact ⟨entry, member, fun different => different same.symm⟩
  · rintro ⟨entry, member, same⟩
    exact ⟨entry, member, (not_not.mp same).symm⟩

/-- What is present in a directory is listed. -/
theorem mem_readDir_of_lookup {dir : Location} {name : Text}
    (present : tree.lookup (dir ++ [name]) ≠ none) : name ∈ (tree.readDir dir).getD [] := by
  have isDir : tree.lookup dir = some .dir :=
    tree.lookup_of_prefix present (List.prefix_append ..) (by simp)
  have leads : tree.destination dir = some dir := destination_of_linkFree (linkFree_of_isDir isDir)
  cases read : tree.readDir dir with
  | none => simp [readDir, leads, isDir] at read
  | some listed =>
    obtain ⟨last, leads', members⟩ := mem_readDir read
    rw [leads, Option.some.injEq] at leads'
    exact (members name).mpr (leads' ▸ present)

end Changing

end Rust.FileTree
