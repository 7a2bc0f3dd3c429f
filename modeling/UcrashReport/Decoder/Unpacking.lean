import UcrashReport.Decoder.Symbols

/-! # Unpacking a tarball

The tar library puts the members of a tarball into a directory one by one. Its code is elsewhere;
`Unpacks` has what it documents and the pool relies on, and `unpackPlain` is a library with these
laws that refuses links. Unpacking directories and files on whose way no link stands puts each of
them at its place, with directories above, and leaves everything else alone; the files are then those
of the last member at each place, and what was left where no member goes.
-/

namespace UcrashReport.Symbols

open Rust Rust.Text BuildId

/-- The content of the regular file at a location. -/
def fileAt (tree : FileTree Bytes) (loc : Location) : Option Bytes :=
  match tree.lookup loc with
  | some (.file content) => some content
  | _ => none

theorem fileAt_congr {tree tree' : FileTree Bytes} {loc : Location}
    (same : tree'.lookup loc = tree.lookup loc) : fileAt tree' loc = fileAt tree loc := by
  rw [fileAt, same, fileAt]

theorem fileAt_eq_some {tree : FileTree Bytes} {loc : Location} {content : Bytes} :
    fileAt tree loc = some content ↔ tree.lookup loc = some (.file content) := by
  unfold fileAt
  constructor
  · intro found
    split at found
    · next there => rw [there, Option.some.inj found]
    · contradiction
  · intro there
    rw [there]

/-! ## The members of a tarball -/

namespace MemberKind

/-- The content of a regular member. -/
def content? : MemberKind → Option Bytes
  | regular content => some content
  | directory | symlink _ | hardLink _ | other => none

/-- A directory or a regular file. -/
def isPlain : MemberKind → Bool
  | directory | regular _ => true
  | symlink _ | hardLink _ | other => false

end MemberKind

def hasParent (member : Member) : Bool := (Path.components member.path).contains .parentDir

/-- Below `debug`, and without a parent component. -/
def isAccepted (member : Member) : Bool := hasDebugPrefix member && !hasParent member

def memberLocation (dest : Location) (member : Member) : Location :=
  dest ++ Path.names member.path

/-- What is taken from the tarball are directories and regular files. -/
def PlainTarball (formats : Formats) (tarball : Bytes) : Prop :=
  ∀ member ∈ (formats.unpack tarball).members, isAccepted member = true → member.kind.isPlain = true

theorem dest_prefix_memberLocation (dest : Location) (member : Member) :
    dest <+: memberLocation dest member := List.prefix_append ..

/-- Every accepted member lies strictly below the directory that it is unpacked into. -/
theorem memberLocation_debug (dest : Location) {member : Member}
    (accepted : isAccepted member = true) :
    dest ++ ["debug".toList] <+: memberLocation dest member := by
  obtain ⟨starts, -⟩ := Bool.and_eq_true_iff.mp accepted
  obtain ⟨rest, same⟩ := List.isPrefixOf_iff_prefix.mp starts
  have first : Path.components "debug".toList = [.normal "debug".toList] := by decide
  rw [first] at same
  unfold memberLocation Path.names
  rw [List.prefix_append_right_inj, ← same, List.singleton_append, List.filterMap_cons]
  exact List.prefix_append ["debug".toList] _

/-! ## The tar library -/

/-- A directory or a regular file to be put where no link is on the way. -/
structure PlainAt (tree : FileTree Bytes) (dest : Location) (member : Member) : Prop where
  noParent : hasParent member = false
  named : Path.names member.path ≠ []
  isPlain : member.kind.isPlain = true
  linkFree : tree.LinkFree (memberLocation dest member)

/-- What `Entry::unpack_in` documents. -/
structure Unpacks (unpackIn : Location → FileTree Bytes → Member → FileTree Bytes × Bool) :
    Prop where
  /-- It avoids writing outside of the directory, whatever the member is and wherever links lead. -/
  inside : ∀ dest tree member root loc, tree.canonicalize dest = some root →
    ¬ (root <+: loc ∧ root ≠ loc) → (unpackIn dest tree member).1.lookup loc = tree.lookup loc
  /-- A member with a parent component is skipped. -/
  skips : ∀ dest tree member, hasParent member = true → unpackIn dest tree member = (tree, true)
  /-- The place of the member is its path appended to the directory. Intermediate directories are
  created if needed, also when the member itself cannot be unpacked. -/
  beside : ∀ dest tree member, PlainAt tree dest member → ∀ loc, loc ≠ memberLocation dest member →
    (unpackIn dest tree member).1.lookup loc = tree.lookup loc ∨
      loc <+: memberLocation dest member ∧ tree.lookup loc = none ∧
        (unpackIn dest tree member).1.lookup loc = some .dir
  /-- A directory or a file never becomes a link. -/
  noLink : ∀ dest tree member, PlainAt tree dest member → ∀ target,
    (unpackIn dest tree member).1.lookup (memberLocation dest member) ≠ some (.link target)
  directory : ∀ dest tree member, PlainAt tree dest member → member.kind = .directory →
    (unpackIn dest tree member).2 = true →
    (unpackIn dest tree member).1.lookup (memberLocation dest member) = some .dir
  /-- The entire contents are written. -/
  regular : ∀ dest tree member content, PlainAt tree dest member → member.kind = .regular content →
    (unpackIn dest tree member).2 = true →
    (unpackIn dest tree member).1.lookup (memberLocation dest member) = some (.file content)

/-! ## A library for directories and files -/

/-- A file in the way is replaced. -/
def putPlain (tree : FileTree Bytes) (loc : Location) : MemberKind → Option (FileTree Bytes)
  | .directory => if tree.lookup loc = some .dir then some tree else tree.create loc .dir
  | .regular content =>
    if tree.lookup loc = some .dir then none else (tree.prune loc).create loc (.file content)
  | _ => none

def unpackPlain (dest : Location) (tree : FileTree Bytes) (member : Member) :
    FileTree Bytes × Bool :=
  if hasParent member || Path.names member.path = [] then (tree, true)
  else
    let loc := memberLocation dest member
    -- A link on the way is refused.
    if tree.canonicalize dest = some dest ∧ tree.destination loc = some loc then
      match (tree.createDirAll loc.dropLast).bind fun made => putPlain made loc member.kind with
      | some left => (left, true)
      | none => (tree, false)
    else (tree, false)

theorem putPlain_spec {tree left : FileTree Bytes} {loc : Location} {kind : MemberKind}
    (put : putPlain tree loc kind = some left) :
    (∀ query, query ≠ loc → left.lookup query = tree.lookup query) ∧
      (kind = .directory ∧ left.lookup loc = some .dir ∨
        ∃ content, kind = .regular content ∧ left.lookup loc = some (.file content)) := by
  cases kind with
  | directory =>
    rw [putPlain] at put
    split_ifs at put with there
    · obtain rfl := Option.some.inj put
      exact ⟨fun _ _ => rfl, .inl ⟨rfl, there⟩⟩
    · obtain ⟨-, -, after⟩ := FileTree.create_eq_some put
      exact ⟨fun query different => by rw [after, if_neg different],
        .inl ⟨rfl, by rw [after, if_pos rfl]⟩⟩
  | regular content =>
    rw [putPlain] at put
    split_ifs at put with there
    obtain ⟨-, -, after⟩ := FileTree.create_eq_some put
    refine ⟨fun query different => ?_, .inr ⟨content, rfl, by rw [after, if_pos rfl]⟩⟩
    rw [after, if_neg different, tree.lookup_prune_of_not_dir there, if_neg different]
  | symlink | hardLink | other => contradiction

/-- A member is skipped, fails without a trace, or is put at its place. -/
theorem unpackPlain_cases (dest : Location) (tree : FileTree Bytes) (member : Member) :
    (unpackPlain dest tree member).1 = tree ∧
        ((unpackPlain dest tree member).2 = true →
          hasParent member = true ∨ Path.names member.path = []) ∨
      tree.canonicalize dest = some dest ∧ Path.names member.path ≠ [] ∧
        (∀ query, query ≠ memberLocation dest member →
          (unpackPlain dest tree member).1.lookup query = tree.lookup query ∨
            query <+: memberLocation dest member ∧ tree.lookup query = none ∧
              (unpackPlain dest tree member).1.lookup query = some .dir) ∧
        (member.kind = .directory ∧
            (unpackPlain dest tree member).1.lookup (memberLocation dest member) = some .dir ∨
          ∃ content, member.kind = .regular content ∧
            (unpackPlain dest tree member).1.lookup (memberLocation dest member) =
              some (.file content)) := by
  unfold unpackPlain
  dsimp only
  split_ifs with skipped direct
  · exact .inl ⟨rfl, fun _ => by simpa using skipped⟩
  · split
    · next left unpacked =>
      obtain ⟨made, making, put⟩ := Option.bind_eq_some_iff.mp unpacked
      have linkFree := FileTree.chase_linkFree direct.2
      obtain ⟨free, after⟩ := FileTree.createDirAll_spec
        (linkFree.of_leading (List.dropLast_prefix _)).direct making
      obtain ⟨beside, here⟩ := putPlain_spec put
      refine .inr ⟨direct.1, fun unnamed => skipped (by simp [unnamed]), fun query different => ?_,
        here⟩
      have new := after query
      rw [beside query different]
      split_ifs at new with above
      · rcases free query above with isDir | absent
        · exact .inl (new.trans isDir.symm)
        · exact .inr ⟨above.trans (List.dropLast_prefix _), absent, new⟩
      · exact .inl new
    · exact .inl ⟨rfl, by simp⟩
  · exact .inl ⟨rfl, by simp⟩

theorem unpacks_unpackPlain : Unpacks unpackPlain where
  inside dest tree member root loc canonical outside := by
    rcases unpackPlain_cases dest tree member with ⟨same, -⟩ | ⟨isRoot, named, beside, -⟩
    · rw [same]
    · rw [canonical] at isRoot
      obtain rfl := Option.some.inj isRoot
      have strict : root ≠ memberLocation root member := by
        simpa [memberLocation] using named
      have different : loc ≠ memberLocation root member := by
        rintro rfl
        exact outside ⟨dest_prefix_memberLocation root member, strict⟩
      refine (beside loc different).resolve_right ?_
      rintro ⟨above, absent, -⟩
      have present : tree.lookup root ≠ none :=
        Option.isSome_iff_ne_none.mp (Option.filter_eq_some_iff.mp canonical).2
      -- What is above the directory is there already.
      have onTheWay : loc <+: root := by
        rcases List.prefix_or_prefix_of_prefix above (dest_prefix_memberLocation root member) with
          higher | lower
        · exact higher
        · by_cases same : root = loc
          · exact same ▸ List.prefix_rfl
          · exact absurd ⟨lower, same⟩ outside
      by_cases same : loc = root
      · exact present (same ▸ absent)
      · rw [tree.lookup_of_prefix present onTheWay same] at absent
        contradiction
  skips dest tree member skipped := by simp [unpackPlain, skipped]
  beside dest tree member plain loc different := by
    rcases unpackPlain_cases dest tree member with ⟨same, -⟩ | ⟨-, -, beside, -⟩
    · rw [same]
      exact .inl rfl
    · exact beside loc different
  noLink dest tree member plain target := by
    rcases unpackPlain_cases dest tree member with
      ⟨same, -⟩ | ⟨-, -, -, ⟨-, isDir⟩ | ⟨content, -, isFile⟩⟩
    · rw [same]
      exact plain.linkFree.noLink target
    · simp [isDir]
    · simp [isFile]
  directory dest tree member plain kind done := by
    rcases unpackPlain_cases dest tree member with
      ⟨-, skipped⟩ | ⟨-, -, -, ⟨-, isDir⟩ | ⟨content, kind', -⟩⟩
    · rcases skipped done with isParent | unnamed
      · simp [plain.noParent] at isParent
      · exact absurd unnamed plain.named
    · exact isDir
    · simp [kind] at kind'
  regular dest tree member content plain kind done := by
    rcases unpackPlain_cases dest tree member with
      ⟨-, skipped⟩ | ⟨-, -, -, ⟨kind', -⟩ | ⟨content', kind', isFile⟩⟩
    · rcases skipped done with isParent | unnamed
      · simp [plain.noParent] at isParent
      · exact absurd unnamed plain.named
    · simp [kind] at kind'
    · rw [kind, MemberKind.regular.injEq] at kind'
      rw [isFile, kind']

/-- Tarballs hold nothing, contents are their own digests and build-id notes. -/
def plainFormats : Formats where
  sha256 data := data
  unpack _ := ⟨[], true⟩
  unpackIn := unpackPlain
  buildIdNote data := some data
  bodyText _ := []
  toLowercase := toAsciiLowercase
  toLowercase_ascii _ _ := rfl

/-! ## One member -/

section Members

variable {formats : Formats} {dest : Location} {tree : FileTree Bytes}

theorem hasDebugPrefix_of_isAccepted {member : Member} (accepted : isAccepted member = true) :
    hasDebugPrefix member = true := (Bool.and_eq_true_iff.mp accepted).1

theorem PlainAt.of_isAccepted {member : Member} (accepted : isAccepted member = true)
    (isPlain : member.kind.isPlain = true)
    (linkFree : tree.LinkFree (memberLocation dest member)) : PlainAt tree dest member where
  noParent := by simpa using (Bool.and_eq_true_iff.mp accepted).2
  named unnamed := by
    have longer := (memberLocation_debug dest accepted).length_le
    rw [memberLocation, unnamed, List.append_nil, List.length_append, List.length_singleton] at longer
    omega
  isPlain := isPlain
  linkFree := linkFree

/-- A member with the prefix that is not accepted is skipped. -/
theorem Unpacks.skips_of_not_isAccepted (tar : Unpacks formats.unpackIn) (dest : Location)
    (tree : FileTree Bytes) {member : Member} (prefixed : hasDebugPrefix member = true)
    (skipped : ¬ isAccepted member = true) :
    formats.unpackIn dest tree member = (tree, true) := by
  apply tar.skips
  by_contra noParent
  exact skipped (by simp [isAccepted, prefixed, Bool.not_eq_true _ ▸ noParent])

/-- Unpacking makes no link. -/
theorem Unpacks.links (tar : Unpacks formats.unpackIn) {member : Member}
    (plain : PlainAt tree dest member) {loc target : Location}
    (isLink : (formats.unpackIn dest tree member).1.lookup loc = some (.link target)) :
    tree.lookup loc = some (.link target) := by
  by_cases here : loc = memberLocation dest member
  · exact absurd (here ▸ isLink) (tar.noLink dest tree member plain target)
  · rcases tar.beside dest tree member plain loc here with same | ⟨-, -, isDir⟩
    · exact same ▸ isLink
    · simp [isDir] at isLink

theorem Unpacks.linkFree (tar : Unpacks formats.unpackIn) {member : Member}
    (plain : PlainAt tree dest member) {loc : Location} (free : tree.LinkFree loc) :
    (formats.unpackIn dest tree member).1.LinkFree loc :=
  fun above leading target isLink => free above leading target (tar.links plain isLink)

/-- What was unpacked is there. -/
theorem Unpacks.present (tar : Unpacks formats.unpackIn) {member : Member}
    (plain : PlainAt tree dest member) (done : (formats.unpackIn dest tree member).2 = true) :
    (formats.unpackIn dest tree member).1.lookup (memberLocation dest member) ≠ none := by
  cases kind : member.kind with
  | directory => simp [tar.directory dest tree member plain kind done]
  | regular content => simp [tar.regular dest tree member content plain kind done]
  | symlink | hardLink | other => simpa [kind, MemberKind.isPlain] using plain.isPlain

/-- What one member makes of a location: nothing, a file with a content, or no file. -/
def placedBy (dest : Location) (member : Member) (loc : Location) : Option (Option Bytes) :=
  if isAccepted member then
    if loc = memberLocation dest member then some member.kind.content?
    else if loc <+: memberLocation dest member then some none
    else none
  else none

/-- What the members make of a location, the last one that concerns it. -/
def placed (dest : Location) : List Member → Location → Option (Option Bytes)
  | [], _ => none
  | member :: rest, loc => (placed dest rest loc).or (placedBy dest member loc)

/-- An unpacked member concerns its location and every location above it. -/
theorem placed_ne_none {dest loc : Location} {members : List Member} {member : Member}
    (isMember : member ∈ members) (accepted : isAccepted member = true)
    (leading : loc <+: memberLocation dest member) : placed dest members loc ≠ none := by
  have concerns : placedBy dest member loc ≠ none := by
    unfold placedBy
    rw [if_pos accepted]
    split_ifs <;> simp
  induction members with
  | nil => contradiction
  | cons first rest ih =>
    unfold placed
    rw [ne_eq, Option.or_eq_none_iff, not_and_or]
    rcases List.mem_cons.mp isMember with rfl | later
    · exact .inr concerns
    · exact .inl (ih later)

theorem fileAt_unpackIn (tar : Unpacks formats.unpackIn) {member : Member}
    (accepted : isAccepted member = true) (plain : PlainAt tree dest member)
    (done : (formats.unpackIn dest tree member).2 = true) (loc : Location) :
    fileAt (formats.unpackIn dest tree member).1 loc =
      (placedBy dest member loc).getD (fileAt tree loc) := by
  unfold placedBy
  rw [if_pos accepted]
  by_cases same : loc = memberLocation dest member
  · subst same
    rw [if_pos rfl, Option.getD_some]
    cases kind : member.kind with
    | directory =>
      rw [fileAt, tar.directory dest tree member plain kind done, MemberKind.content?]
    | regular content =>
      rw [fileAt, tar.regular dest tree member content plain kind done, MemberKind.content?]
    | symlink | hardLink | other => simpa [kind, MemberKind.isPlain] using plain.isPlain
  · rw [if_neg same]
    split_ifs with above
    · have isDir := FileTree.lookup_of_prefix _ (tar.present plain done) above same
      rw [fileAt, isDir, Option.getD_some]
    · have new := (tar.beside dest tree member plain loc same).resolve_right fun made => above made.1
      rw [fileAt_congr new, Option.getD_none]

/-! ## All members -/

/-- The members that the loop has behind it when it ends. -/
def unpackedMembers (formats : Formats) (dest : Location) : FileTree Bytes → List Member → List Member
  | _, [] => []
  | tree, member :: rest =>
    if hasDebugPrefix member then
      match formats.unpackIn dest tree member with
      | (tree, true) => member :: unpackedMembers formats dest tree rest
      | (_, false) => []
    else member :: unpackedMembers formats dest tree rest

/-- The member that cannot be unpacked. -/
def stuckMember (formats : Formats) (dest : Location) : FileTree Bytes → List Member → Option Member
  | _, [] => none
  | tree, member :: rest =>
    if hasDebugPrefix member then
      match formats.unpackIn dest tree member with
      | (tree, true) => stuckMember formats dest tree rest
      | (_, false) => some member
    else stuckMember formats dest tree rest

/-- The members that the loop has come to. -/
def touchedMembers (formats : Formats) (dest : Location) (tree : FileTree Bytes)
    (members : List Member) : List Member :=
  unpackedMembers formats dest tree members ++ (stuckMember formats dest tree members).toList

/-- What the loop does with its first member. -/
inductive Unpacked (formats : Formats) (dest : Location) (tree : FileTree Bytes) (member : Member)
    (rest : List Member) : Prop
  /-- It has another prefix, or the library skips it. -/
  | passed (skipped : ¬ isAccepted member = true)
      (left : unpackMembers formats dest tree (member :: rest) =
        unpackMembers formats dest tree rest)
      (unpacked : unpackedMembers formats dest tree (member :: rest) =
        member :: unpackedMembers formats dest tree rest)
      (stuck : stuckMember formats dest tree (member :: rest) = stuckMember formats dest tree rest)
      (touched : touchedMembers formats dest tree (member :: rest) =
        member :: touchedMembers formats dest tree rest)
  | put (accepted : isAccepted member = true)
      (done : (formats.unpackIn dest tree member).2 = true)
      (left : unpackMembers formats dest tree (member :: rest) =
        unpackMembers formats dest (formats.unpackIn dest tree member).1 rest)
      (unpacked : unpackedMembers formats dest tree (member :: rest) =
        member :: unpackedMembers formats dest (formats.unpackIn dest tree member).1 rest)
      (stuck : stuckMember formats dest tree (member :: rest) =
        stuckMember formats dest (formats.unpackIn dest tree member).1 rest)
      (touched : touchedMembers formats dest tree (member :: rest) =
        member :: touchedMembers formats dest (formats.unpackIn dest tree member).1 rest)
  | failed (accepted : isAccepted member = true)
      (left : unpackMembers formats dest tree (member :: rest) =
        ((formats.unpackIn dest tree member).1, false))
      (unpacked : unpackedMembers formats dest tree (member :: rest) = [])
      (stuck : stuckMember formats dest tree (member :: rest) = some member)
      (touched : touchedMembers formats dest tree (member :: rest) = [member])

theorem unpacked (tar : Unpacks formats.unpackIn) (dest : Location) (tree : FileTree Bytes)
    (member : Member) (rest : List Member) : Unpacked formats dest tree member rest := by
  by_cases accepted : isAccepted member = true
  · have prefixed := hasDebugPrefix_of_isAccepted accepted
    cases result : formats.unpackIn dest tree member with
    | mk left done =>
      cases done with
      | true =>
        have unpacked : unpackedMembers formats dest tree (member :: rest) =
            member :: unpackedMembers formats dest left rest := by
          simp only [unpackedMembers, if_pos prefixed, result]
        have stuck : stuckMember formats dest tree (member :: rest) =
            stuckMember formats dest left rest := by
          simp only [stuckMember, if_pos prefixed, result]
        refine .put accepted (by rw [result]) ?_ ?_ ?_ ?_
        · simp only [unpackMembers, if_pos prefixed, result]
        · rw [unpacked, result]
        · rw [stuck, result]
        · rw [touchedMembers, unpacked, stuck, List.cons_append, result, touchedMembers]
      | false =>
        have unpacked : unpackedMembers formats dest tree (member :: rest) = [] := by
          simp only [unpackedMembers, if_pos prefixed, result]
        have stuck : stuckMember formats dest tree (member :: rest) = some member := by
          simp only [stuckMember, if_pos prefixed, result]
        refine .failed accepted ?_ unpacked stuck ?_
        · simp only [unpackMembers, if_pos prefixed, result]
        · rw [touchedMembers, unpacked, stuck, List.nil_append, Option.toList_some]
  · have both : unpackMembers formats dest tree (member :: rest) =
          unpackMembers formats dest tree rest ∧
        unpackedMembers formats dest tree (member :: rest) =
          member :: unpackedMembers formats dest tree rest ∧
        stuckMember formats dest tree (member :: rest) = stuckMember formats dest tree rest := by
      by_cases prefixed : hasDebugPrefix member = true
      · have result := Unpacks.skips_of_not_isAccepted tar dest tree prefixed accepted
        simp only [unpackMembers, unpackedMembers, stuckMember, if_pos prefixed, result, and_self]
      · simp only [unpackMembers, unpackedMembers, stuckMember, if_neg prefixed, and_self]
    obtain ⟨left, unpacked, stuck⟩ := both
    refine .passed accepted left unpacked stuck ?_
    rw [touchedMembers, unpacked, stuck, List.cons_append, touchedMembers]

theorem mem_of_mem_touchedMembers (tar : Unpacks formats.unpackIn) {members : List Member}
    {member : Member} (isMember : member ∈ touchedMembers formats dest tree members) :
    member ∈ members := by
  induction members generalizing tree with
  | nil => exact absurd isMember List.not_mem_nil
  | cons first rest ih =>
    cases unpacked tar dest tree first rest with
    | passed _ _ _ _ touched =>
      rw [touched] at isMember
      exact List.mem_cons.mpr ((List.mem_cons.mp isMember).imp id ih)
    | put _ _ _ _ _ touched =>
      rw [touched] at isMember
      exact List.mem_cons.mpr ((List.mem_cons.mp isMember).imp id ih)
    | failed _ _ _ _ touched =>
      rw [touched] at isMember
      exact List.mem_cons.mpr (.inl (List.mem_singleton.mp isMember))

/-- What the loop comes to are directories and regular files, and no link is on the way to them. -/
def PlainMembers (formats : Formats) (dest : Location) (tree : FileTree Bytes)
    (members : List Member) : Prop :=
  ∀ member ∈ touchedMembers formats dest tree members, isAccepted member = true →
    member.kind.isPlain = true ∧ tree.LinkFree (memberLocation dest member)

theorem PlainMembers.plainAt {members : List Member} {member : Member}
    (plain : PlainMembers formats dest tree members)
    (isMember : member ∈ touchedMembers formats dest tree members)
    (accepted : isAccepted member = true) : PlainAt tree dest member :=
  .of_isAccepted accepted (plain member isMember accepted).1 (plain member isMember accepted).2

/-- The members that are left stay plain. -/
theorem PlainMembers.next {tree' : FileTree Bytes} {member : Member} {members rest : List Member}
    (plain : PlainMembers formats dest tree members)
    (touched : touchedMembers formats dest tree members =
      member :: touchedMembers formats dest tree' rest)
    (free : ∀ loc, tree.LinkFree loc → tree'.LinkFree loc) :
    PlainMembers formats dest tree' rest := by
  intro other isMember accepted
  obtain ⟨isPlain, linkFree⟩ := plain other (touched ▸ List.mem_cons_of_mem _ isMember) accepted
  exact ⟨isPlain, free _ linkFree⟩

/-- The files after unpacking: those of the last member at each place, and what was left. Of the place
of a member that cannot be unpacked nothing is known. -/
theorem fileAt_unpackMembers (tar : Unpacks formats.unpackIn) {members : List Member}
    (plain : PlainMembers formats dest tree members) {loc : Location}
    (unstuck : ∀ member, stuckMember formats dest tree members = some member →
      ¬ loc <+: memberLocation dest member) :
    fileAt (unpackMembers formats dest tree members).1 loc =
      (placed dest (unpackedMembers formats dest tree members) loc).getD (fileAt tree loc) := by
  induction members generalizing tree with
  | nil => rfl
  | cons member rest ih =>
    cases unpacked tar dest tree member rest with
    | passed skipped left unpacked stuck touched =>
      rw [left, unpacked, ih (plain.next touched fun _ => id) (stuck ▸ unstuck)]
      simp [placed, placedBy, skipped]
    | put accepted done left unpacked stuck touched =>
      have here := plain.plainAt (touched ▸ List.mem_cons_self ..) accepted
      have first := fileAt_unpackIn tar accepted here done loc
      rw [left, unpacked, ih (plain.next touched fun _ => tar.linkFree here) (stuck ▸ unstuck), placed,
        first]
      cases placed dest (unpackedMembers formats dest (formats.unpackIn dest tree member).1 rest)
        loc <;> rfl
    | failed accepted left unpacked stuck touched =>
      have here := plain.plainAt (touched ▸ List.mem_cons_self ..) accepted
      have apart := unstuck member stuck
      have different : loc ≠ memberLocation dest member := by
        rintro rfl
        exact apart List.prefix_rfl
      rw [left, unpacked]
      exact fileAt_congr ((tar.beside dest tree member here loc different).resolve_right fun made =>
        apart made.1)

theorem of_unpackMembers_whole (tar : Unpacks formats.unpackIn) {members : List Member}
    (whole : (unpackMembers formats dest tree members).2 = true) :
    unpackedMembers formats dest tree members = members ∧
      stuckMember formats dest tree members = none := by
  induction members generalizing tree with
  | nil => exact ⟨rfl, rfl⟩
  | cons member rest ih =>
    cases unpacked tar dest tree member rest with
    | passed _ left unpacked stuck =>
      obtain ⟨all, none⟩ := ih (left ▸ whole)
      exact ⟨by rw [unpacked, all], by rw [stuck, none]⟩
    | put _ _ left unpacked stuck =>
      obtain ⟨all, none⟩ := ih (left ▸ whole)
      exact ⟨by rw [unpacked, all], by rw [stuck, none]⟩
    | failed _ left => simp [left] at whole

/-- Every location is as before, or lies at or above the place of a member that the loop has come to.
There it is no link, and nothing only if the member could not be unpacked. -/
theorem lookup_unpackMembers (tar : Unpacks formats.unpackIn) {members : List Member}
    (plain : PlainMembers formats dest tree members) (loc : Location) :
    (unpackMembers formats dest tree members).1.lookup loc = tree.lookup loc ∨
      ∃ member ∈ touchedMembers formats dest tree members, isAccepted member = true ∧
        loc <+: memberLocation dest member ∧
        (∀ target, (unpackMembers formats dest tree members).1.lookup loc ≠ some (.link target)) ∧
        ((unpackMembers formats dest tree members).1.lookup loc = none →
          stuckMember formats dest tree members = some member ∧ loc = memberLocation dest member) := by
  induction members generalizing tree with
  | nil => exact .inl rfl
  | cons member rest ih =>
    cases unpacked tar dest tree member rest with
    | passed skipped left unpacked stuck touched =>
      rw [left, stuck, touched]
      exact (ih (plain.next touched fun _ => id)).imp id fun ⟨other, isMember, found⟩ =>
        ⟨other, List.mem_cons_of_mem _ isMember, found⟩
    | put accepted done left unpacked stuck touched =>
      have here := plain.plainAt (touched ▸ List.mem_cons_self ..) accepted
      rw [left, stuck, touched]
      rcases ih (plain.next touched fun _ => tar.linkFree here) with same | ⟨other, isMember, found⟩
      · rw [same]
        by_cases isPlace : loc = memberLocation dest member
        · subst isPlace
          exact .inr ⟨member, List.mem_cons_self .., accepted, List.prefix_rfl,
            tar.noLink dest tree member here, fun absent => absurd absent (tar.present here done)⟩
        · rcases tar.beside dest tree member here loc isPlace with same | ⟨above, -, isDir⟩
          · exact .inl same
          · exact .inr ⟨member, List.mem_cons_self .., accepted, above, by simp [isDir],
              by simp [isDir]⟩
      · exact .inr ⟨other, List.mem_cons_of_mem _ isMember, found⟩
    | failed accepted left unpacked stuck touched =>
      have here := plain.plainAt (touched ▸ List.mem_cons_self ..) accepted
      rw [left, stuck, touched]
      by_cases isPlace : loc = memberLocation dest member
      · subst isPlace
        exact .inr ⟨member, List.mem_singleton.mpr rfl, accepted, List.prefix_rfl,
          tar.noLink dest tree member here, fun _ => ⟨rfl, rfl⟩⟩
      · rcases tar.beside dest tree member here loc isPlace with same | ⟨above, -, isDir⟩
        · exact .inl same
        · exact .inr ⟨member, List.mem_singleton.mpr rfl, accepted, above, by simp [isDir],
            by simp [isDir]⟩

/-- Whatever the members are, unpacking changes nothing but what lies below the directory that the path
leads to, if the path does not pass through it. -/
theorem lookup_unpackMembers_outside (tar : Unpacks formats.unpackIn) {root : Location}
    (isDir : tree.lookup root = some .dir) (outright : (tree.prune root).destination dest = some root)
    (members : List Member) {loc : Location} (outside : ¬ (root <+: loc ∧ root ≠ loc)) :
    (unpackMembers formats dest tree members).1.lookup loc = tree.lookup loc := by
  induction members generalizing tree with
  | nil => rfl
  | cons member rest ih =>
    have leads : tree.destination dest = some root :=
      FileTree.chase_of_outside (fun _ _ => rfl) (by simp [isDir]) outright
    have kept : ∀ query, ¬ (root <+: query ∧ root ≠ query) →
        (formats.unpackIn dest tree member).1.lookup query = tree.lookup query := fun query =>
      tar.inside dest tree member root query (by simp [FileTree.canonicalize, leads, isDir])
    cases unpacked tar dest tree member rest with
    | passed skipped left =>
      rw [left]
      exact ih isDir outright
    | put accepted done left =>
      have there := (kept root fun strict => strict.2 rfl).trans isDir
      rw [left, ih there, kept loc outside]
      rw [FileTree.prune_congr fun query beside => kept query fun strict => beside strict.1]
      exact outright
    | failed accepted left =>
      rw [left]
      exact kept loc outside

end Members

end UcrashReport.Symbols
