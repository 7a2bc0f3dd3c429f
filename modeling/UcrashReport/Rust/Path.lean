import UcrashReport.Rust.Text

/-! # Paths as component lists

A path string is read the way `std::path::Path` reads it: empty components and `.` components
disappear, a leading slash is the root component, and joining an absolute path replaces what came
before it. A location is a path that starts at the root, as the list of the names below it.
-/

namespace Rust

namespace Path

inductive Component
  | rootDir
  | curDir
  | parentDir
  | normal (name : Text)
deriving DecidableEq, Repr

/-- A piece between slashes; `.` and nothing at all are no components. -/
def ofPiece (piece : Text) : Option Component :=
  if piece = [] ∨ piece = ".".toList then none
  else if piece = "..".toList then some .parentDir
  else some (.normal piece)

def pieces (path : Text) : List Text := path.splitOnP (· == '/')

def isAbsolute (path : Text) : Bool := Text.startsWith "/".toList path

/-- `Path::components`: a `.` is kept only at the start of a relative path. -/
def components (path : Text) : List Component :=
  let rest := (pieces path).filterMap ofPiece
  if isAbsolute path then .rootDir :: rest
  else if (pieces path).head? = some ".".toList then .curDir :: rest
  else rest

/-- The names among the components. -/
def names (path : Text) : List Text :=
  (components path).filterMap fun component =>
    match component with
    | .normal name => some name
    | _ => none

/-- `Path::starts_with`, by whole components. -/
def startsWith (base path : Text) : Bool := (components base).isPrefixOf (components path)

end Path

/-- A place in the file tree: the names from the root down. -/
abbrev Location := List Text

namespace Location

open Rust.Path

def enter (loc : Location) : Component → Location
  | .rootDir => []
  | .curDir => loc
  | .parentDir => loc.dropLast
  | .normal name => loc ++ [name]

/-- `Path::join` on a location: an absolute path replaces it. -/
def join (base : Location) (path : Text) : Location := (components path).foldl enter base

end Location

namespace Path

/-! ## Components of a string -/

theorem prefix_of_head?_splitOnP {p : Char → Bool} {s first : Text}
    (head : (s.splitOnP p).head? = some first) : first <+: s := by
  induction s generalizing first with
  | nil =>
    rw [List.splitOnP_nil, List.head?_cons, Option.some.injEq] at head
    rw [← head]
  | cons c cs ih =>
    rw [List.splitOnP_cons_eq_if_modifyHead] at head
    split_ifs at head with separator
    · rw [List.head?_cons, Option.some.injEq] at head
      exact head ▸ List.nil_prefix
    · obtain ⟨piece, pieces, split⟩ := List.exists_cons_of_ne_nil (List.splitOnP_ne_nil p cs)
      rw [split, List.modifyHead_cons, List.head?_cons, Option.some.injEq] at head
      rw [← head]
      exact List.cons_prefix_cons.mpr ⟨rfl, ih (by rw [split, List.head?_cons])⟩

/-- Every piece lies inside the text. -/
theorem infix_of_mem_splitOnP {p : Char → Bool} {s piece : Text}
    (member : piece ∈ s.splitOnP p) : piece <:+: s := by
  induction s generalizing piece with
  | nil =>
    rw [List.splitOnP_nil, List.mem_singleton] at member
    rw [member]
  | cons c cs ih =>
    obtain ⟨first, rest, split⟩ := List.exists_cons_of_ne_nil (List.splitOnP_ne_nil p (c :: cs))
    rw [split] at member
    rcases List.mem_cons.mp member with rfl | later
    · exact (prefix_of_head?_splitOnP (by rw [split, List.head?_cons])).isInfix
    · have inTail : piece ∈ cs.splitOnP p := by
        rw [List.splitOnP_cons_eq_if_modifyHead] at split
        split_ifs at split with separator
        · rw [← (List.cons.inj split).2] at later
          exact later
        · obtain ⟨first', rest', split'⟩ :=
            List.exists_cons_of_ne_nil (List.splitOnP_ne_nil p cs)
          rw [split', List.modifyHead_cons] at split
          rw [← (List.cons.inj split).2] at later
          rw [split']
          exact List.mem_cons_of_mem _ later
      exact List.infix_cons_iff.mpr (.inr (ih inTail))

theorem mem_components_of_parentDir {path : Text} (member : .parentDir ∈ components path) :
    "..".toList <:+: path := by
  have inPieces : .parentDir ∈ (pieces path).filterMap ofPiece := by
    unfold components at member
    split_ifs at member
    · simpa using member
    · simpa using member
    · exact member
  obtain ⟨piece, isPiece, parent⟩ := List.mem_filterMap.mp inPieces
  unfold ofPiece at parent
  split_ifs at parent with dot dots
  · exact dots ▸ infix_of_mem_splitOnP isPiece
  · simp only [Option.some.injEq, reduceCtorEq] at parent

/-- Only the first component can be the root. -/
theorem rootDir_not_mem_filterMap (parts : List Text) :
    .rootDir ∉ parts.filterMap ofPiece := by
  intro member
  obtain ⟨piece, -, root⟩ := List.mem_filterMap.mp member
  unfold ofPiece at root
  split_ifs at root <;> simp only [Option.some.injEq, reduceCtorEq] at root

theorem foldl_enter_of_relative {parts : List Component} (noRoot : .rootDir ∉ parts)
    (noParent : .parentDir ∉ parts) (base : Location) :
    parts.foldl Location.enter base = base ++ parts.filterMap fun component =>
      match component with
      | .normal name => some name
      | _ => none := by
  induction parts generalizing base with
  | nil => simp
  | cons part parts ih =>
    rw [List.mem_cons, not_or] at noRoot noParent
    rw [List.foldl_cons, ih noRoot.2 noParent.2]
    cases part with
    | rootDir => exact absurd rfl noRoot.1
    | curDir => simp [Location.enter]
    | parentDir => exact absurd rfl noParent.1
    | normal name => simp [Location.enter]

/-- Without a parent component a relative path adds its names and an absolute one replaces the
base by them. -/
theorem join_eq {path : Text} (noParent : .parentDir ∉ components path) (base : Location) :
    base.join path = (if isAbsolute path then [] else base) ++ names path := by
  have noRoot := rootDir_not_mem_filterMap (pieces path)
  unfold Location.join names
  by_cases absolute : isAbsolute path
  · have shape : components path = .rootDir :: (pieces path).filterMap ofPiece := by
      simp [components, absolute]
    rw [shape] at noParent ⊢
    rw [List.foldl_cons, foldl_enter_of_relative noRoot (fun member =>
      noParent (List.mem_cons_of_mem _ member))]
    simp [absolute, Location.enter]
  · have noRoot' : .rootDir ∉ components path := by
      unfold components
      rw [if_neg absolute]
      split_ifs
      · simpa using noRoot
      · exact noRoot
    rw [foldl_enter_of_relative noRoot' noParent, if_neg absolute]

/-- A string without slashes that is none of the special names is one name. -/
theorem join_name {name : Text} (nonempty : name ≠ []) (noSlash : '/' ∉ name)
    (noDot : name ≠ ".".toList) (noDots : name ≠ "..".toList) (base : Location) :
    base.join name = base ++ [name] := by
  have whole : pieces name = [name] :=
    List.splitOnP_eq_singleton fun c member => by
      simpa using fun same : c = '/' => noSlash (same ▸ member)
  have relative : isAbsolute name = false := by
    rw [Bool.eq_false_iff]
    intro absolute
    obtain ⟨rest, rfl⟩ := Text.startsWith_iff.mp absolute
    exact noSlash (List.mem_cons_self ..)
  have shape : components name = [.normal name] := by
    have first : (pieces name).head? ≠ some ".".toList := by simpa [whole] using noDot
    unfold components
    rw [relative, if_neg Bool.false_ne_true, if_neg first, whole]
    simp only [List.filterMap_cons, List.filterMap_nil, ofPiece, if_neg noDots,
      if_neg (not_or.mpr ⟨nonempty, noDot⟩)]
  simp [Location.join, shape, Location.enter]

end Path

end Rust
