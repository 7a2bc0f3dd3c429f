import UcrashReport.Rust.Text

/-! # Fields

A text of fields with a separator between them. Wherever such a text is cut, the cut goes through a
field; a part of it that consists of fields itself has the fields in between in common.
-/

namespace Rust.Text

variable {sep : Char}

/-- The fields with the separator between them. -/
def join (sep : Char) (fields : List Text) : Text := [sep].intercalate fields

/-- Fields that end with the separator. -/
def ended (sep : Char) (fields : List Text) : Text := fields.flatMap (· ++ [sep])

/-- Fields that begin with the separator. -/
def begun (sep : Char) (fields : List Text) : Text := fields.flatMap (sep :: ·)

@[simp] theorem join_nil : join sep [] = [] := rfl

@[simp] theorem join_singleton (field : Text) : join sep [field] = field := by
  simp [join, List.intercalate]

@[simp] theorem join_cons_cons (field other : Text) (fields : List Text) :
    join sep (field :: other :: fields) = field ++ sep :: join sep (other :: fields) := by
  simp [join, List.intercalate]

@[simp] theorem ended_cons (field : Text) (fields : List Text) :
    ended sep (field :: fields) = field ++ sep :: ended sep fields := by
  simp [ended]

@[simp] theorem begun_cons (field : Text) (fields : List Text) :
    begun sep (field :: fields) = sep :: (field ++ begun sep fields) := by
  simp [begun]

theorem join_cons (field : Text) (fields : List Text) :
    join sep (field :: fields) = field ++ begun sep fields := by
  induction fields generalizing field with
  | nil => simp [begun]
  | cons other fields ih => rw [join_cons_cons, ih, begun_cons]

theorem ended_append_join (first : List Text) (field : Text) (rest : List Text) :
    ended sep first ++ join sep (field :: rest) = join sep (first ++ field :: rest) := by
  induction first with
  | nil => rfl
  | cons other first ih =>
    rw [ended_cons, List.append_assoc, List.cons_append, ih]
    cases first with
    | nil => simp
    | cons next first => simp

/-- Some of the fields, and those on their two sides. -/
theorem join_append (first : List Text) {middle : List Text} (nonempty : middle ≠ [])
    (rest : List Text) :
    join sep (first ++ (middle ++ rest)) =
      ended sep first ++ (join sep middle ++ begun sep rest) := by
  obtain ⟨field, middle, rfl⟩ := List.exists_cons_of_ne_nil nonempty
  rw [List.cons_append, ← ended_append_join, join_cons, join_cons, begun, begun, begun,
    List.flatMap_append, List.append_assoc]

/-- The first fields, at least one of them, begin the text. -/
theorem join_take_isPrefix (fields : List Text) {n : ℕ} (positive : 0 < n) :
    join sep (fields.take n) <+: join sep fields := by
  cases fields with
  | nil => simp
  | cons field fields =>
    obtain ⟨n, rfl⟩ : ∃ k, n = k + 1 := ⟨n - 1, by omega⟩
    refine ⟨begun sep (fields.drop n), ?_⟩
    rw [List.take_succ_cons, join_cons, join_cons, List.append_assoc, begun, begun, begun,
      ← List.flatMap_append, List.take_append_drop]

/-- Two separators with nothing in between. -/
theorem ended_append_sep (first : List Text) {rest : List Text} (nonempty : rest ≠ []) :
    ended sep first ++ sep :: join sep rest = join sep (first ++ [] :: rest) := by
  rw [← ended_append_join]
  cases rest with
  | nil => contradiction
  | cons => simp

theorem ended_eq {fields : List Text} (nonempty : fields ≠ []) :
    ended sep fields = join sep fields ++ [sep] := by
  have whole : join sep ([] ++ (fields ++ [[]])) =
      ended sep [] ++ (join sep fields ++ begun sep [[]]) := join_append [] nonempty [[]]
  rw [List.nil_append, ← ended_append_join, join_singleton, List.append_nil] at whole
  exact whole

/-- Fields on the two sides of an empty one. -/
theorem join_around {first : List Text} (nonempty : first ≠ []) {rest : List Text}
    (nonempty' : rest ≠ []) :
    join sep (first ++ [] :: rest) = join sep first ++ [sep, sep] ++ join sep rest := by
  rw [← ended_append_sep first nonempty', ended_eq nonempty]
  simp

theorem mem_join {fields : List Text} {c : Char} (member : c ∈ join sep fields) :
    c = sep ∨ ∃ field ∈ fields, c ∈ field := by
  induction fields with
  | nil => contradiction
  | cons field fields ih =>
    cases fields with
    | nil => exact .inr ⟨field, by simp, by simpa using member⟩
    | cons other fields =>
      rw [join_cons_cons, List.mem_append, List.mem_cons] at member
      rcases member with here | rfl | later
      · exact .inr ⟨field, List.mem_cons_self, here⟩
      · exact .inl rfl
      · exact (ih later).imp_right fun ⟨other, member, inField⟩ => ⟨other, .tail field member, inField⟩

/-- Between the fields there are separators. -/
theorem length_le_count_join (fields : List Text) :
    fields.length ≤ (join sep fields).count sep + 1 := by
  induction fields with
  | nil => simp
  | cons field fields ih =>
    cases fields with
    | nil => simp
    | cons other fields =>
      rw [join_cons_cons, List.count_append, List.count_cons_self, List.length_cons]
      omega

/-- No field contains the separator. -/
def Free (sep : Char) (fields : List Text) : Prop := ∀ field ∈ fields, sep ∉ field

theorem join_eq_nil {fields : List Text} (visible : ∀ field ∈ fields, field ≠ [])
    (empty : join sep fields = []) : fields = [] := by
  cases fields with
  | nil => rfl
  | cons field fields =>
    rw [join_cons, List.append_eq_nil_iff] at empty
    exact absurd empty.1 (visible field List.mem_cons_self)

theorem join_injective {fields fields' : List Text} (nonempty : fields ≠ []) (nonempty' : fields' ≠ [])
    (free : Free sep fields) (free' : Free sep fields') (same : join sep fields = join sep fields') :
    fields = fields' := by
  rw [← List.splitOn_intercalate sep free nonempty, ← List.splitOn_intercalate sep free' nonempty']
  exact congrArg (List.splitOn sep) same

/-- A cut at a separator is fixed by the number of separators before it. -/
theorem append_sep_injective {α : Type*} [BEq α] [LawfulBEq α] {sep : α}
    {left left' right right' : List α} (count : left.count sep = left'.count sep)
    (same : left ++ sep :: right = left' ++ sep :: right') : left = left' ∧ right = right' := by
  induction left generalizing left' with
  | nil =>
    cases left' with
    | nil => exact ⟨rfl, (List.cons.inj same).2⟩
    | cons c left' =>
      obtain ⟨rfl, -⟩ := List.cons.inj same
      simp at count
  | cons c left ih =>
    cases left' with
    | nil =>
      obtain ⟨rfl, -⟩ := List.cons.inj same
      simp at count
    | cons c' left' =>
      obtain ⟨rfl, rest⟩ := List.cons.inj same
      rw [List.count_cons, List.count_cons, Nat.add_right_cancel_iff] at count
      obtain ⟨rfl, rfl⟩ := ih count rest
      exact ⟨rfl, rfl⟩

/-- Fields are fixed by their joined text and the number of separators in each of them. -/
theorem join_injective_of_count {fields fields' : List Text}
    (counts : fields.map (List.count sep) = fields'.map (List.count sep))
    (same : join sep fields = join sep fields') : fields = fields' := by
  induction fields generalizing fields' with
  | nil => simpa using counts.symm
  | cons field fields ih =>
    cases fields' with
    | nil => simp at counts
    | cons field' fields' =>
      obtain ⟨here, later⟩ := List.cons.inj counts
      cases fields with
      | nil =>
        obtain rfl : fields' = [] := by simpa using later.symm
        simpa using same
      | cons other fields =>
        cases fields' with
        | nil => simp at later
        | cons other' fields' =>
          rw [join_cons_cons, join_cons_cons] at same
          obtain ⟨rfl, rest⟩ := append_sep_injective here same
          rw [ih later rest]

/-- A cut goes through a field. -/
theorem cut_of_join {fields : List Text} (nonempty : fields ≠ []) {left right : Text}
    (same : join sep fields = left ++ right) :
    ∃ first a b rest, left = ended sep first ++ a ∧ right = b ++ begun sep rest ∧
      fields = first ++ (a ++ b) :: rest := by
  induction fields generalizing left with
  | nil => contradiction
  | cons field fields ih =>
    cases fields with
    | nil =>
      rw [join_singleton] at same
      exact ⟨[], left, right, [], rfl, by simp [begun], by rw [same]; rfl⟩
    | cons other fields =>
      rw [join_cons_cons, List.append_eq_append_iff] at same
      rcases same with ⟨more, rfl, rest⟩ | ⟨more, rfl, rest⟩
      · cases more with
        | nil =>
          refine ⟨[], field, [], other :: fields, by simp [ended], ?_, by simp⟩
          rw [List.nil_append] at rest
          rw [← rest, begun_cons, ← join_cons, List.nil_append]
        | cons c more =>
          rw [List.cons_append, List.cons.injEq] at rest
          obtain ⟨rfl, rest⟩ := rest
          obtain ⟨first, a, b, last, rfl, rfl, same⟩ := ih (List.cons_ne_nil _ _) rest
          exact ⟨field :: first, a, b, last, by simp, rfl, by rw [same]; rfl⟩
      · refine ⟨[], left, more, other :: fields, by simp [ended], ?_, rfl⟩
        rw [rest, begun_cons, ← join_cons]

/-- A part that is a text of at least two fields has all of them but the outer two in common, and of
these it has an end and a beginning. -/
theorem fields_of_infix {fields : List Text} (nonempty : fields ≠ []) (free : Free sep fields)
    {left right first last : Text} {middle : List Text} (freeFirst : sep ∉ first)
    (freeMiddle : Free sep middle) (freeLast : sep ∉ last)
    (same : join sep fields = left ++ (join sep (first :: (middle ++ [last])) ++ right)) :
    ∃ before a b after, left = ended sep before ++ a ∧ right = b ++ begun sep after ∧
      fields = before ++ (a ++ first) :: (middle ++ (last ++ b) :: after) := by
  obtain ⟨before, a, b, rest, rfl, second, rfl⟩ := cut_of_join nonempty same
  rw [← join_cons] at second
  obtain ⟨inner, c, d, after, taken, rfl, split⟩ :=
    cut_of_join (List.cons_ne_nil b rest) second.symm
  have freeInner : Free sep (inner ++ [c]) := by
    intro field member
    have inFields : ∀ other ∈ b :: rest, sep ∉ other := by
      intro other inRest
      rcases List.mem_cons.mp inRest with rfl | later
      · exact fun member => free (a ++ other) (by simp) (List.mem_append_right a member)
      · exact free other (by simp [later])
    rcases List.mem_append.mp member with inInner | isLast
    · exact inFields field (by rw [split]; simp [inInner])
    · rw [List.mem_singleton.mp isLast]
      exact fun member => inFields (c ++ d) (by rw [split]; simp) (List.mem_append_left d member)
  have takenFields : join sep (inner ++ [c]) = join sep (first :: (middle ++ [last])) := by
    rw [taken, ← ended_append_join, join_singleton]
  have freeTaken : Free sep (first :: (middle ++ [last])) := by
    intro field member
    rcases List.mem_cons.mp member with rfl | member
    · exact freeFirst
    · rcases List.mem_append.mp member with inMiddle | isLast
      · exact freeMiddle field inMiddle
      · exact List.mem_singleton.mp isLast ▸ freeLast
  have sameFields : inner ++ [c] = first :: middle ++ [last] :=
    join_injective (by simp) (by simp) freeInner freeTaken takenFields
  obtain ⟨rfl, sameLast⟩ := List.append_inj' sameFields rfl
  obtain rfl := List.singleton_inj.mp sameLast
  obtain ⟨rfl, rfl⟩ := List.cons.inj split
  exact ⟨before, a, d, after, rfl, rfl, rfl⟩

end Rust.Text
