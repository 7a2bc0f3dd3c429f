import UcrashReport.Rust.FileTree

/-! # Where a path leads

A path names a location through the links that stand on its way. `walk` goes down name by name and
starts again at the target of a link; a path is followed through so many links and no more. Where no
link is on the way a path leads to itself. What a path leads to depends on the links alone, so that
new files and directories do not change it, and it depends on nothing below where it leads if it does
not pass there.
-/

namespace Rust.FileTree

variable {γ : Type*} {tree tree' : FileTree γ}

/-- The most links that the system follows for one path. -/
def maxLinks : ℕ := 40

/-- Down from a location that has been reached. A name that is missing stands where it is said to. -/
def walk (tree : FileTree γ) (follow : Location → Option Location) :
    Location → List Text → Option Location
  | base, [] => some base
  | base, name :: rest =>
    match tree.lookup (base ++ [name]) with
    | some (.link target) => follow (target ++ rest)
    | _ => walk tree follow (base ++ [name]) rest

/-- Where a path leads through fewer than so many links. -/
def chase (tree : FileTree γ) : ℕ → Location → Option Location
  | 0, _ => none
  | n + 1, path => tree.walk (tree.chase n) [] path

/-- Where a path leads, present or not. -/
def destination (tree : FileTree γ) (path : Location) : Option Location :=
  tree.chase (maxLinks + 1) path

/-- Where the last name of a path stands: a link in its place is not followed. -/
def place (tree : FileTree γ) (path : Location) : Option Location :=
  match path.getLast? with
  | some name => (tree.destination path.dropLast).map fun dir => dir ++ [name]
  | none => some []

/-- `canonicalize`: the destination, which must be present. -/
def canonicalize (tree : FileTree γ) (path : Location) : Option Location :=
  (tree.destination path).filter fun last => (tree.lookup last).isSome

/-- `stat`: the node that the path leads to. -/
def stat (tree : FileTree γ) (path : Location) : Option (Node γ) :=
  (tree.destination path).bind tree.lookup

/-- `lstat`: the node at the end of the path. -/
def lstat (tree : FileTree γ) (path : Location) : Option (Node γ) :=
  (tree.place path).bind tree.lookup

/-- `Path::exists`. -/
def pathExists (tree : FileTree γ) (path : Location) : Bool := (tree.stat path).isSome

/-- `Path::is_symlink`. -/
def isSymlink (tree : FileTree γ) (path : Location) : Bool := (tree.lstat path).any Node.isLink

/-- `fs::read`. -/
def read (tree : FileTree γ) (path : Location) : Option γ :=
  match tree.stat path with
  | some (.file content) => some content
  | _ => none

/-! ## Paths without links -/

/-- No link stands at the location or above it. -/
def LinkFree (tree : FileTree γ) (loc : Location) : Prop :=
  ∀ above, above <+: loc → ∀ target, tree.lookup above ≠ some (.link target)

theorem LinkFree.of_leading {above loc : Location} (free : tree.LinkFree loc)
    (leading : above <+: loc) : tree.LinkFree above :=
  fun higher leading' => free higher (leading'.trans leading)

theorem LinkFree.noLink {loc : Location} (free : tree.LinkFree loc) (target : Location) :
    tree.lookup loc ≠ some (.link target) := free loc List.prefix_rfl target

theorem linkFree_nil : tree.LinkFree [] := by
  intro above leading target
  rw [List.prefix_nil.mp leading, lookup_root]
  simp

theorem linkFree_empty (loc : Location) : (.empty : FileTree γ).LinkFree loc := by
  intro above _ target isLink
  by_cases root : above = []
  · simp [root] at isLink
  · rw [lookup_empty above root] at isLink
    contradiction

/-- Above what is present there are only directories. -/
theorem linkFree_of_present {loc below : Location} (present : tree.lookup below ≠ none)
    (leading : loc <+: below) (strict : loc ≠ below) : tree.LinkFree loc := by
  intro above leading' target
  rw [tree.lookup_of_prefix present (leading'.trans leading)]
  · simp
  · rintro rfl
    exact strict (leading.eq_of_length_le leading'.length_le)

theorem LinkFree.of_noLink {loc : Location} (free : ∀ above, above <+: loc → above ≠ loc →
      ∀ target, tree.lookup above ≠ some (.link target))
    (noLink : ∀ target, tree.lookup loc ≠ some (.link target)) : tree.LinkFree loc := by
  intro above leading
  by_cases same : above = loc
  · exact same ▸ noLink
  · exact free above leading same

theorem linkFree_of_lookup {loc : Location} {node : Node γ} (there : tree.lookup loc = some node)
    (noLink : ∀ target, node ≠ .link target) : tree.LinkFree loc := by
  have present : tree.lookup loc ≠ none := by simp [there]
  refine .of_noLink (fun above leading strict => ?_) fun target => ?_
  · exact (linkFree_of_present present leading strict).noLink
  · rw [there]
    exact fun same => noLink target (Option.some.inj same)

theorem linkFree_of_isDir {loc : Location} (isDir : tree.lookup loc = some .dir) :
    tree.LinkFree loc := linkFree_of_lookup isDir (by simp)

theorem linkFree_of_isFile {loc : Location} {content : γ}
    (isFile : tree.lookup loc = some (.file content)) : tree.LinkFree loc :=
  linkFree_of_lookup isFile (by simp)

/-- A walk goes on behind names that are no links. -/
theorem walk_append {follow : Location → Option Location} {base front : Location}
    (rest : Location) (free : tree.LinkFree (base ++ front)) :
    tree.walk follow base (front ++ rest) = tree.walk follow (base ++ front) rest := by
  induction front generalizing base with
  | nil => rw [List.nil_append, List.append_nil]
  | cons name front ih =>
    have whole : base ++ name :: front = base ++ [name] ++ front := by simp
    rw [whole] at free ⊢
    rw [List.cons_append, walk]
    split
    · next target isLink =>
      exact absurd isLink ((free.of_leading (List.prefix_append ..)).noLink target)
    · exact ih free

theorem chase_of_linkFree {path : Location} (free : tree.LinkFree path) (n : ℕ) :
    tree.chase (n + 1) path = some path := by
  have walked := @walk_append _ tree (tree.chase n) [] path [] free
  rwa [List.append_nil, List.nil_append] at walked

/-- Where no link is on the way, a path leads to itself. -/
theorem destination_of_linkFree {path : Location} (free : tree.LinkFree path) :
    tree.destination path = some path := chase_of_linkFree free maxLinks

theorem stat_of_linkFree {path : Location} (free : tree.LinkFree path) :
    tree.stat path = tree.lookup path := by
  rw [stat, destination_of_linkFree free, Option.bind_some]

theorem canonicalize_of_present {path : Location} (free : tree.LinkFree path)
    (present : tree.lookup path ≠ none) : tree.canonicalize path = some path := by
  rw [canonicalize, destination_of_linkFree free, Option.filter_some,
    Option.isSome_iff_ne_none.mpr present, if_pos rfl]

theorem eq_of_canonicalize {path last : Location} (free : tree.LinkFree path)
    (canonical : tree.canonicalize path = some last) : last = path := by
  rw [canonicalize, destination_of_linkFree free] at canonical
  exact (Option.some.inj (Option.filter_eq_some_iff.mp canonical).1).symm

theorem place_of_linkFree {path : Location} (free : tree.LinkFree path.dropLast) :
    tree.place path = some path := by
  unfold place
  cases last : path.getLast? with
  | none => rw [List.getLast?_eq_none_iff.mp last]
  | some name =>
    dsimp only
    rw [destination_of_linkFree free, Option.map_some, List.dropLast_append_getLast? name last]

/-- What is present at a location is in place there. -/
theorem place_of_present {loc : Location} (present : tree.lookup loc ≠ none) :
    tree.place loc = some loc := by
  apply place_of_linkFree
  rcases eq_or_ne loc [] with rfl | below
  · exact linkFree_nil
  · refine linkFree_of_present present (List.dropLast_prefix loc) fun same => ?_
    have shorter := congrArg List.length same
    have positive := List.length_pos_iff.mpr below
    rw [List.length_dropLast] at shorter
    omega

/-! ## What a path leads to -/

theorem walk_linkFree {follow : Location → Option Location}
    (leads : ∀ path last, follow path = some last → tree.LinkFree last) {base last : Location}
    {rest : List Text} (free : tree.LinkFree base)
    (walked : tree.walk follow base rest = some last) : tree.LinkFree last := by
  induction rest generalizing base with
  | nil => exact Option.some.inj walked ▸ free
  | cons name rest ih =>
    rw [walk] at walked
    split at walked
    · exact leads _ last walked
    · next noLink =>
      refine ih (.of_noLink (fun above leading strict => ?_) noLink) walked
      exact free above ((List.prefix_concat_iff.mp leading).resolve_left strict)

/-- A path never ends at a link, nor below one. -/
theorem chase_linkFree {n : ℕ} {path last : Location} (chased : tree.chase n path = some last) :
    tree.LinkFree last := by
  induction n generalizing path last with
  | zero => contradiction
  | succ n ih => exact walk_linkFree (fun _ _ => ih) linkFree_nil chased

theorem walk_mono {follow follow' : Location → Option Location}
    (more : ∀ path last, follow path = some last → follow' path = some last) {base last : Location}
    {rest : List Text} (walked : tree.walk follow base rest = some last) :
    tree.walk follow' base rest = some last := by
  induction rest generalizing base with
  | nil => exact walked
  | cons name rest ih =>
    rw [walk] at walked ⊢
    split at walked
    · exact more _ last walked
    · exact ih walked

/-- More links may be followed than there are. -/
theorem chase_of_le {n m : ℕ} {path last : Location} (chased : tree.chase n path = some last)
    (more : n ≤ m) : tree.chase m path = some last := by
  induction n generalizing m path last with
  | zero => contradiction
  | succ n ih =>
    cases m with
    | zero => omega
    | succ m => exact walk_mono (fun _ _ chased' => ih chased' (Nat.le_of_succ_le_succ more)) chased

/-- Below what is no directory a walk finds nothing to follow. -/
theorem walk_of_not_dir {follow : Location → Option Location} {base : Location} (rest : List Text)
    (noDir : tree.lookup base ≠ some .dir) : tree.walk follow base rest = some (base ++ rest) := by
  induction rest generalizing base with
  | nil => rw [walk, List.append_nil]
  | cons name rest ih =>
    have absent : tree.lookup (base ++ [name]) = none :=
      tree.lookup_below_of_not_dir noDir (List.prefix_append ..) (by simp)
    rw [walk, absent]
    exact (ih (by simp [absent])).trans (by simp)

theorem walk_split {follow : Location → Option Location} {rest last : Location}
    (splits : ∀ front, follow (front ++ rest) = some last → ∃ middle, follow front = some middle ∧
      (tree.lookup middle ≠ some .dir → last = middle ++ rest))
    {base front : Location} (walked : tree.walk follow base (front ++ rest) = some last) :
    ∃ middle, tree.walk follow base front = some middle ∧
      (tree.lookup middle ≠ some .dir → last = middle ++ rest) := by
  induction front generalizing base with
  | nil =>
    refine ⟨base, rfl, fun noDir => ?_⟩
    rw [List.nil_append, walk_of_not_dir rest noDir] at walked
    exact (Option.some.inj walked).symm
  | cons name front ih =>
    rw [List.cons_append, walk] at walked
    rw [walk]
    split at walked
    · rw [← List.append_assoc] at walked
      exact splits _ walked
    · exact ih walked

/-- A path leads through where its front leads. When that is no directory, the rest stands below it
as it is said to. -/
theorem chase_split {n : ℕ} {front rest last : Location}
    (chased : tree.chase n (front ++ rest) = some last) :
    ∃ middle, tree.chase n front = some middle ∧
      (tree.lookup middle ≠ some .dir → last = middle ++ rest) := by
  induction n generalizing front with
  | zero => contradiction
  | succ n ih => exact walk_split (fun _ => ih) chased

/-- The front of a path that leads to something leads to a directory, unless it is all of it. -/
theorem chase_front {n : ℕ} {front rest last : Location}
    (chased : tree.chase n (front ++ rest) = some last) (present : tree.lookup last ≠ none) :
    ∃ middle, tree.chase n front = some middle ∧ tree.lookup middle ≠ none ∧
      (rest ≠ [] → tree.lookup middle = some .dir) := by
  obtain ⟨middle, leads, below⟩ := chase_split chased
  by_cases isDir : tree.lookup middle = some .dir
  · exact ⟨middle, leads, by simp [isDir], fun _ => isDir⟩
  · obtain rfl := below isDir
    by_cases whole : rest = []
    · subst whole
      exact ⟨middle, leads, by rwa [List.append_nil] at present, absurd rfl⟩
    · exact absurd (tree.lookup_below_of_not_dir isDir (List.prefix_append ..) (by simpa using whole))
        present

theorem walk_concat {follow : Location → Option Location} {last : Location} {name : Text}
    (goesOn : ∀ path, follow path = some last → follow (path ++ [name]) = some (last ++ [name]))
    (noLink : ∀ target, tree.lookup (last ++ [name]) ≠ some (.link target)) {base path : Location}
    (walked : tree.walk follow base path = some last) :
    tree.walk follow base (path ++ [name]) = some (last ++ [name]) := by
  induction path generalizing base with
  | nil =>
    obtain rfl := Option.some.inj walked
    rw [List.nil_append, walk]
    split
    · next target isLink => exact absurd isLink (noLink target)
    · rfl
  | cons first path ih =>
    rw [walk] at walked
    rw [List.cons_append, walk]
    split at walked
    · rw [← List.append_assoc]
      exact goesOn _ walked
    · exact ih walked

/-- One more name, which is no link. -/
theorem chase_concat {n : ℕ} {path last : Location} {name : Text}
    (noLink : ∀ target, tree.lookup (last ++ [name]) ≠ some (.link target))
    (chased : tree.chase n path = some last) :
    tree.chase n (path ++ [name]) = some (last ++ [name]) := by
  induction n generalizing path with
  | zero => contradiction
  | succ n ih => exact walk_concat (fun _ => ih) noLink chased

/-- A link leads where its target leads. -/
theorem chase_of_link {loc target : Location} (isLink : tree.lookup loc = some (.link target))
    (n : ℕ) : tree.chase (n + 1) loc = tree.chase n target := by
  obtain rfl | ⟨parent, name, rfl⟩ := List.eq_nil_or_concat' loc
  · simp at isLink
  · have present : tree.lookup (parent ++ [name]) ≠ none := by simp [isLink]
    have free : tree.LinkFree ([] ++ parent) :=
      linkFree_of_present present (List.prefix_append ..) (by simp)
    rw [chase, walk_append [name] free, walk, List.nil_append, isLink]
    dsimp only
    rw [List.append_nil]

theorem destination_of_link {loc target : Location}
    (isLink : tree.lookup loc = some (.link target)) (free : tree.LinkFree target) :
    tree.destination loc = some target :=
  (chase_of_link isLink maxLinks).trans (chase_of_linkFree free 39)

/-! ## Changes that keep the links -/

theorem walk_congr {follow follow' : Location → Option Location}
    (links : ∀ loc target, tree'.lookup loc = some (.link target) ↔
      tree.lookup loc = some (.link target))
    (same : ∀ path, follow' path = follow path) (base : Location) (rest : List Text) :
    tree'.walk follow' base rest = tree.walk follow base rest := by
  induction rest generalizing base with
  | nil => rfl
  | cons name rest ih =>
    rw [walk, walk]
    split
    · next target isLink => rw [(links _ target).mp isLink, same]
    · next noLink' =>
      split
      · next target isLink => exact absurd ((links _ target).mpr isLink) (noLink' target)
      · exact ih _

/-- Where paths lead depends on the links alone. -/
theorem chase_congr (links : ∀ loc target, tree'.lookup loc = some (.link target) ↔
      tree.lookup loc = some (.link target)) (n : ℕ) (path : Location) :
    tree'.chase n path = tree.chase n path := by
  induction n generalizing path with
  | zero => rfl
  | succ n ih => exact walk_congr links ih [] path

theorem destination_congr (links : ∀ loc target, tree'.lookup loc = some (.link target) ↔
      tree.lookup loc = some (.link target)) (path : Location) :
    tree'.destination path = tree.destination path := chase_congr links _ path

/-! ## Removals -/

/-- A path that leads to something does not pass a link that leads nowhere. -/
theorem chase_prune_dangling {link target : Location}
    (isLink : tree.lookup link = some (.link target)) (dangling : tree.pathExists link = false)
    {n : ℕ} (few : n ≤ maxLinks + 1) {path last : Location} (chased : tree.chase n path = some last)
    (present : tree.lookup last ≠ none) : (tree.prune link).chase n path = some last := by
  have elsewhere : ∀ query, query ≠ link → (tree.prune link).lookup query = tree.lookup query := by
    intro query different
    rw [tree.lookup_prune_of_not_dir (by simp [isLink]), if_neg different]
  induction n generalizing path with
  | zero => contradiction
  | succ n ih =>
    have goesDown : ∀ (rest : List Text) (base : Location),
        tree.walk (tree.chase n) base rest = some last →
          (tree.prune link).walk ((tree.prune link).chase n) base rest = some last := by
      intro rest
      induction rest with
      | nil => exact fun base walked => walked
      | cons name rest ih' =>
        intro base walked
        rw [walk] at walked ⊢
        by_cases here : base ++ [name] = link
        · exfalso
          rw [here, isLink] at walked
          obtain ⟨middle, leads, there, -⟩ := chase_front walked present
          have whole : tree.destination link = some middle :=
            (chase_of_link isLink maxLinks).trans (chase_of_le leads (by omega))
          rw [pathExists, stat, whole, Option.bind_some] at dangling
          exact there (by simpa using dangling)
        · rw [elsewhere _ here]
          split at walked
          · exact ih (by omega) walked
          · exact ih' _ walked
    exact goesDown path [] chased

/-- Dropping a link that leads nowhere leaves every other path leading where it led. -/
theorem pathExists_prune_dangling {link target path : Location}
    (isLink : tree.lookup link = some (.link target)) (dangling : tree.pathExists link = false)
    (present : tree.pathExists path = true) : (tree.prune link).pathExists path = true := by
  unfold pathExists stat at present ⊢
  obtain ⟨node, found⟩ := Option.isSome_iff_exists.mp present
  obtain ⟨last, chased, there⟩ := Option.bind_eq_some_iff.mp found
  have chased' := chase_prune_dangling isLink dangling le_rfl chased (by simp [there])
  have different : last ≠ link := by
    rintro rfl
    exact (chase_linkFree chased).noLink target isLink
  rw [destination, chased', Option.bind_some, tree.lookup_prune_of_not_dir (by simp [isLink]),
    if_neg different, there, Option.isSome_some]

/-! ## Paths that do not pass what they lead to -/

/-- A path that leads somewhere also when nothing stands there leads there whatever stands below. -/
theorem chase_of_outside {root : Location} (same : ∀ loc, ¬ root <+: loc →
      tree'.lookup loc = tree.lookup loc)
    (noLink : ∀ target, tree'.lookup root ≠ some (.link target)) {n : ℕ} {path : Location}
    (leads : (tree.prune root).chase n path = some root) : tree'.chase n path = some root := by
  induction n generalizing path with
  | zero => contradiction
  | succ n ih =>
    have goesDown : ∀ (rest : List Text) (base : Location),
        (tree.prune root).walk ((tree.prune root).chase n) base rest = some root →
          tree'.walk (tree'.chase n) base rest = some root := by
      intro rest
      induction rest with
      | nil => exact fun base walked => walked
      | cons name rest ih' =>
        intro base walked
        have here := tree.lookup_prune root (base ++ [name])
        rw [walk] at walked ⊢
        by_cases inside : root <+: base ++ [name]
        · rw [if_pos ⟨by simp, inside⟩] at here
          rw [here] at walked
          dsimp only at walked
          rw [walk_of_not_dir rest (by simp [here]), Option.some.injEq] at walked
          -- Behind the root nothing would be found: the path ends here.
          have whole : base ++ [name] = root :=
            (inside.eq_of_length_le (walked ▸ (List.prefix_append _ rest).length_le)).symm
          obtain rfl : rest = [] := by
            rw [whole] at walked
            exact List.append_right_eq_self.mp walked
          rw [whole]
          split
          · next target isLink => exact absurd isLink (noLink target)
          · rw [walk]
        · rw [if_neg fun both => inside both.2] at here
          rw [same _ inside]
          rw [here] at walked
          split at walked
          · exact ih walked
          · exact ih' _ walked
    exact goesDown path [] leads

theorem prune_congr {root : Location} (same : ∀ loc, ¬ root <+: loc →
      tree'.lookup loc = tree.lookup loc) (path : Location) :
    (tree'.prune root).destination path = (tree.prune root).destination path := by
  refine destination_congr (fun loc target => ?_) path
  rw [lookup_prune, lookup_prune]
  by_cases inside : root <+: loc
  · by_cases below : loc = []
    · simp [below]
    · rw [if_pos ⟨below, inside⟩, if_pos ⟨below, inside⟩]
  · rw [if_neg fun both => inside both.2, if_neg fun both => inside both.2, same loc inside]

/-- Where the directory of a path is: in the place of the path, and where the path leads. -/
def IsRoot (tree : FileTree γ) (path root : Location) : Prop :=
  tree.place path = some root ∨ tree.destination path = some root

/-- The path of a directory does not pass through the directory itself. -/
def Outright (tree : FileTree γ) (path : Location) : Prop :=
  ∀ root, tree.IsRoot path root → (tree.prune root).destination path = some root

theorem LinkFree.eq_of_isRoot {path root : Location} (free : tree.LinkFree path)
    (isRoot : tree.IsRoot path root) : root = path := by
  rcases isRoot with placed | leads
  · rw [place_of_linkFree (free.of_leading (List.dropLast_prefix path)), Option.some.injEq] at placed
    exact placed.symm
  · rw [destination_of_linkFree free, Option.some.injEq] at leads
    exact leads.symm

theorem LinkFree.outright {path : Location} (free : tree.LinkFree path) : tree.Outright path := by
  intro root isRoot
  rw [free.eq_of_isRoot isRoot]
  refine destination_of_linkFree fun above leading target isLink => ?_
  rw [lookup_prune] at isLink
  split_ifs at isLink
  exact free above leading target isLink

/-! ## Direct paths -/

/-- No link on the way leads to a directory. -/
def Direct (tree : FileTree γ) (path : Location) : Prop :=
  ∀ above, above <+: path → ∀ target, tree.lookup above = some (.link target) →
    tree.stat above ≠ some .dir

theorem LinkFree.direct {path : Location} (free : tree.LinkFree path) : tree.Direct path :=
  fun above leading target isLink => absurd isLink (free above leading target)

theorem Direct.of_leading {above path : Location} (direct : tree.Direct path)
    (leading : above <+: path) : tree.Direct above :=
  fun higher leading' => direct higher (leading'.trans leading)

/-- A direct path that leads to something passes no link but at its end. -/
theorem Direct.above {path : Location} (direct : tree.Direct path) (present : tree.stat path ≠ none)
    {above : Location} (leading : above <+: path) (strict : above ≠ path) (target : Location) :
    tree.lookup above ≠ some (.link target) := by
  intro isLink
  obtain ⟨node, found⟩ := Option.ne_none_iff_exists'.mp present
  obtain ⟨last, leads, there⟩ := Option.bind_eq_some_iff.mp found
  obtain ⟨rest, rfl⟩ := leading
  obtain ⟨middle, toMiddle, -, isDir⟩ := chase_front leads (by simp [there])
  apply direct above (List.prefix_append ..) target isLink
  rw [stat, show tree.destination above = some middle from toMiddle, Option.bind_some]
  exact isDir (by simpa using strict)

theorem Direct.linkFree {path : Location} (direct : tree.Direct path)
    (present : tree.stat path ≠ none) (noLink : ∀ target, tree.lookup path ≠ some (.link target)) :
    tree.LinkFree path :=
  .of_noLink (fun _ => direct.above present) noLink

theorem Direct.linkFree_of_isDir {path : Location} (direct : tree.Direct path)
    (isDir : tree.stat path = some .dir) : tree.LinkFree path :=
  direct.linkFree (by simp [isDir]) fun target isLink =>
    direct path List.prefix_rfl target isLink isDir

/-- A direct path that does not end at a link leads to what stands there. -/
theorem Direct.stat_eq_lookup {path : Location} (direct : tree.Direct path)
    (noLink : ∀ target, tree.lookup path ≠ some (.link target)) :
    tree.stat path = tree.lookup path := by
  by_cases absent : tree.stat path = none
  · rw [absent]
    by_contra there
    obtain ⟨node, there⟩ := Option.ne_none_iff_exists'.mp (Ne.symm there)
    have free := linkFree_of_lookup there fun target same => noLink target (same ▸ there)
    rw [stat_of_linkFree free, there] at absent
    contradiction
  · exact stat_of_linkFree (direct.linkFree absent noLink)

/-- Where something can stand at the end of a path that is direct so far, it stands there. -/
theorem Direct.eq_of_place {path loc : Location} (direct : tree.Direct path.dropLast)
    (placed : tree.place path = some loc) (parent : tree.lookup loc.dropLast = some .dir) :
    loc = path := by
  obtain rfl | ⟨front, name, rfl⟩ := List.eq_nil_or_concat' path
  · exact (Option.some.inj placed).symm
  · unfold place at placed
    rw [List.dropLast_concat] at direct
    rw [List.getLast?_concat, List.dropLast_concat] at placed
    obtain ⟨dir, leads, rfl⟩ := Option.map_eq_some_iff.mp placed
    rw [List.dropLast_concat] at parent
    have isDir : tree.stat front = some .dir := by rw [stat, leads, Option.bind_some, parent]
    rw [destination_of_linkFree (direct.linkFree_of_isDir isDir)] at leads
    rw [Option.some.inj leads]

theorem Direct.eq_of_destination {path last : Location} (direct : tree.Direct path.dropLast)
    (noLink : ∀ target, tree.lookup path ≠ some (.link target))
    (leads : tree.destination path = some last) (parent : tree.lookup last.dropLast = some .dir) :
    last = path := by
  obtain rfl | ⟨front, name, rfl⟩ := List.eq_nil_or_concat' path
  · exact (Option.some.inj leads).symm
  · rw [List.dropLast_concat] at direct
    obtain ⟨middle, toMiddle, below⟩ := chase_split leads
    have isDir : tree.lookup middle = some .dir := by
      by_contra noDir
      rw [below noDir, List.dropLast_concat] at parent
      exact noDir parent
    have leadsToDir : tree.stat front = some .dir := by
      rw [stat, show tree.destination front = some middle from toMiddle, Option.bind_some, isDir]
    have frontFree := direct.linkFree_of_isDir leadsToDir
    have free : tree.LinkFree (front ++ [name]) := .of_noLink (fun above leading strict =>
      frontFree above ((List.prefix_concat_iff.mp leading).resolve_left strict)) noLink
    rw [destination_of_linkFree free] at leads
    exact (Option.some.inj leads).symm

end Rust.FileTree
