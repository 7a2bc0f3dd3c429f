import UcrashReport.Rust.Path

/-! # A file tree with symbolic links

The part of a file system that `std::fs` works on: directories, regular files with a content, and
symbolic links to locations. A location is where something really stands; it is present only below
directories, and every value of the type carries the proof.
-/

namespace Rust

inductive Node (γ : Type*)
  | dir
  | file (content : γ)
  | link (target : Location)
deriving DecidableEq, Repr

namespace Node

variable {γ : Type*}

def isLink : Node γ → Bool
  | link _ => true
  | _ => false

instance decidableEqDir : (node : Option (Node γ)) → Decidable (node = some .dir)
  | some .dir => isTrue rfl
  | some (.file _) => isFalse (by simp)
  | some (.link _) => isFalse (by simp)
  | none => isFalse (by simp)

end Node

/-- The root is a directory without an entry of its own. -/
def lookupEntries {γ : Type*} (entries : List (Location × Node γ)) (loc : Location) :
    Option (Node γ) :=
  if loc = [] then some .dir else entries.lookup loc

structure FileTree (γ : Type*) where
  entries : List (Location × Node γ) := []
  closed : ∀ loc name, (lookupEntries entries (loc ++ [name])).isSome →
    lookupEntries entries loc = some .dir

namespace FileTree

variable {γ : Type*}

/-- `lstat`: the node at a location. -/
def lookup (tree : FileTree γ) (loc : Location) : Option (Node γ) :=
  lookupEntries tree.entries loc

def empty : FileTree γ where
  closed := by simp [lookupEntries]

@[simp] theorem lookup_root (tree : FileTree γ) : tree.lookup [] = some .dir := rfl

theorem lookup_empty (loc : Location) (below : loc ≠ []) :
    (empty : FileTree γ).lookup loc = none := by
  simp [lookup, lookupEntries, empty, below]

/-! ## The two ways a tree changes -/

theorem lookupEntries_cons {entries : List (Location × Node γ)} {loc : Location}
    (absent : lookupEntries entries loc = none) (node : Node γ) (query : Location) :
    lookupEntries ((loc, node) :: entries) query =
      if query = loc then some node else lookupEntries entries query := by
  have below : loc ≠ [] := by
    rintro rfl
    contradiction
  unfold lookupEntries
  by_cases root : query = []
  · simp [root, Ne.symm below]
  · by_cases same : query = loc
    · simp [same, below]
    · simp [root, same, List.lookup_cons, beq_eq_false_iff_ne.mpr same]

/-- A new node under an existing directory: `mkdir`, `open` with `O_EXCL`, `symlink`. -/
def create (tree : FileTree γ) (loc : Location) (node : Node γ) : Option (FileTree γ) :=
  if free : tree.lookup loc = none ∧ tree.lookup loc.dropLast = some .dir then
    some
      { entries := (loc, node) :: tree.entries
        closed := by
          intro parent name present
          rw [lookupEntries_cons free.1] at present ⊢
          by_cases same : parent ++ [name] = loc
          · have notSame : parent ≠ loc := by
              rintro rfl
              simp at same
            rw [if_neg notSame]
            have here := free.2
            rw [← same, List.dropLast_concat] at here
            exact here
          · rw [if_neg same] at present
            have above := tree.closed parent name present
            have notSame : parent ≠ loc := by
              rintro rfl
              rw [lookup, above] at free
              simp at free
            rw [if_neg notSame, above] }
  else none

theorem lookup_filter_entries (entries : List (Location × Node γ)) (loc query : Location) :
    lookupEntries (entries.filter fun entry => !loc.isPrefixOf entry.1) query =
      if query ≠ [] ∧ loc <+: query then none else lookupEntries entries query := by
  unfold lookupEntries
  by_cases root : query = []
  · simp [root]
  · simp only [root, if_false, ne_eq, not_false_eq_true, true_and]
    induction entries with
    | nil => simp
    | cons entry rest ih =>
      by_cases inside : loc <+: entry.1
      · have dropped : (!loc.isPrefixOf entry.1) = false := by
          simpa using List.isPrefixOf_iff_prefix.mpr inside
        rw [List.filter_cons_of_neg (by simp [dropped]), ih]
        split_ifs with below
        · rfl
        · have different : query ≠ entry.1 := by
            rintro rfl
            exact below inside
          rw [List.lookup_cons, beq_eq_false_iff_ne.mpr different]
      · have kept : (!loc.isPrefixOf entry.1) = true := by
          rw [Bool.not_eq_true', Bool.eq_false_iff]
          exact fun leading => inside (List.isPrefixOf_iff_prefix.mp leading)
        rw [List.filter_cons_of_pos (by exact kept), List.lookup_cons, List.lookup_cons]
        by_cases same : query = entry.1
        · subst same
          simp [inside]
        · simp only [beq_eq_false_iff_ne.mpr same]
          exact ih

/-- The location and everything below it disappears; the root itself cannot. -/
def prune (tree : FileTree γ) (loc : Location) : FileTree γ where
  entries := tree.entries.filter fun entry => !loc.isPrefixOf entry.1
  closed := by
    intro parent name present
    rw [lookup_filter_entries] at present ⊢
    split_ifs at present with inside
    · contradiction
    · have outside : ¬ (parent ≠ [] ∧ loc <+: parent) := by
        rintro ⟨-, leading⟩
        exact inside ⟨by simp, leading.trans (List.prefix_append ..)⟩
      rw [if_neg outside]
      exact tree.closed parent name present

theorem lookup_prune (tree : FileTree γ) (loc query : Location) :
    (tree.prune loc).lookup query =
      if query ≠ [] ∧ loc <+: query then none else tree.lookup query :=
  lookup_filter_entries tree.entries loc query

theorem create_eq_some {tree tree' : FileTree γ} {loc : Location} {node : Node γ}
    (created : tree.create loc node = some tree') :
    tree.lookup loc = none ∧ tree.lookup loc.dropLast = some .dir ∧
      ∀ query, tree'.lookup query = if query = loc then some node else tree.lookup query := by
  unfold create at created
  split_ifs at created with free
  rw [Option.some.injEq] at created
  subst created
  exact ⟨free.1, free.2, lookupEntries_cons free.1 node⟩

/-- Above a present location there are only directories. -/
theorem lookup_of_prefix (tree : FileTree γ) {loc below : Location}
    (present : tree.lookup below ≠ none) (leading : loc <+: below) (strict : loc ≠ below) :
    tree.lookup loc = some .dir := by
  obtain ⟨rest, rfl⟩ := leading
  induction rest using List.reverseRecOn with
  | nil => simp at strict
  | append_singleton rest name ih =>
    rw [← List.append_assoc] at present
    have above := tree.closed _ _ (Option.isSome_iff_ne_none.mpr present)
    by_cases last : rest = []
    · rwa [last, List.append_nil] at above
    · exact ih (by rw [lookup, above]; simp) (by simpa using last)

/-- Below anything but a directory there is nothing. -/
theorem lookup_below_of_not_dir (tree : FileTree γ) {loc below : Location}
    (noDir : tree.lookup loc ≠ some .dir) (leading : loc <+: below) (strict : loc ≠ below) :
    tree.lookup below = none := by
  by_contra present
  exact noDir (tree.lookup_of_prefix present leading strict)

/-- Removing what is no directory removes one node. -/
theorem lookup_prune_of_not_dir (tree : FileTree γ) {loc : Location}
    (noDir : tree.lookup loc ≠ some .dir) (query : Location) :
    (tree.prune loc).lookup query = if query = loc then none else tree.lookup query := by
  have below : loc ≠ [] := by
    rintro rfl
    exact noDir rfl
  rw [lookup_prune]
  by_cases same : query = loc
  · simp [same, below]
  · rw [if_neg same]
    split_ifs with inside
    · exact (tree.lookup_below_of_not_dir noDir inside.2 (Ne.symm same)).symm
    · rfl

/-- The name under which an entry stands in a directory. -/
def childName (dir loc : Location) : Option Text :=
  match dir.isPrefixOf? loc with
  | some [name] => some name
  | _ => none

theorem childName_eq_some {dir loc : Location} {name : Text} :
    childName dir loc = some name ↔ loc = dir ++ [name] := by
  unfold childName
  constructor
  · intro found
    split at found
    · next found' =>
      cases found
      exact (List.isPrefixOf?_eq_some_iff_append_eq.mp found').symm
    · contradiction
  · rintro rfl
    rw [List.isPrefixOf?_eq_some_iff_append_eq.mpr rfl]

end FileTree

end Rust
