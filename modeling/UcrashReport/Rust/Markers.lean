import UcrashReport.Rust.Text

/-! # Cuts at markers

A text that is cut at one marker after another is what stands before the earliest of them. The order
of the cuts does not matter when no marker begins inside another one, since then a cut goes through
no marker.
-/

namespace Rust.Text

variable {markers : List Text} {marker s t : Text}

/-- The text up to the place where one of the markers begins, or all of it. -/
def beforeAny (markers : List Text) : Text → Text
  | [] => []
  | c :: cs =>
    if markers.any (startsWith · (c :: cs)) then [] else c :: beforeAny markers cs

theorem beforeAny_of_begins {c : Char} {cs : Text} (member : marker ∈ markers)
    (begins : marker <+: c :: cs) : beforeAny markers (c :: cs) = [] := by
  have here : markers.any (startsWith · (c :: cs)) = true :=
    List.any_eq_true.mpr ⟨marker, member, startsWith_iff.mpr begins⟩
  rw [beforeAny, if_pos here]

theorem beforeAny_cons {c : Char} {cs : Text} (clear : ∀ marker ∈ markers, ¬ marker <+: c :: cs) :
    beforeAny markers (c :: cs) = c :: beforeAny markers cs := by
  have nowhere : ¬ markers.any (startsWith · (c :: cs)) = true := by
    intro here
    obtain ⟨marker, member, begins⟩ := List.any_eq_true.mp here
    exact clear marker member (startsWith_iff.mp begins)
  rw [beforeAny, if_neg nowhere]

/-- The part of a text before the earliest place where a marker begins, or all of the text. -/
structure IsBefore (markers : List Text) (s front : Text) : Prop where
  stops : ∃ rest, s = front ++ rest ∧ (rest = [] ∨ ∃ marker ∈ markers, marker <+: rest)
  earliest : ∀ u v, s = u ++ v → u.length < front.length → ∀ marker ∈ markers, ¬ marker <+: v

theorem isBefore_beforeAny (markers : List Text) (s : Text) :
    IsBefore markers s (beforeAny markers s) := by
  induction s with
  | nil => exact ⟨⟨[], rfl, .inl rfl⟩, fun u v _ short => absurd short (Nat.not_lt_zero _)⟩
  | cons c cs ih =>
    by_cases begins : ∃ marker ∈ markers, marker <+: c :: cs
    · obtain ⟨marker, member, begins⟩ := begins
      rw [beforeAny_of_begins member begins]
      exact ⟨⟨c :: cs, rfl, .inr ⟨marker, member, begins⟩⟩,
        fun u v _ short => absurd short (Nat.not_lt_zero _)⟩
    · have clear : ∀ marker ∈ markers, ¬ marker <+: c :: cs := fun marker member here =>
        begins ⟨marker, member, here⟩
      rw [beforeAny_cons clear]
      constructor
      · obtain ⟨rest, same, stops⟩ := ih.stops
        exact ⟨rest, congrArg (c :: ·) same, stops⟩
      · intro u v same short
        cases u with
        | nil => exact (show c :: cs = v from same) ▸ clear
        | cons d u =>
          rw [List.cons_append, List.cons.injEq] at same
          exact ih.earliest u v same.2 (Nat.lt_of_succ_lt_succ short)

theorem IsBefore.eq_beforeAny {front : Text} (isBefore : IsBefore markers s front) :
    front = beforeAny markers s := by
  induction s generalizing front with
  | nil =>
    obtain ⟨rest, same, -⟩ := isBefore.stops
    exact (List.append_eq_nil_iff.mp same.symm).1
  | cons c cs ih =>
    obtain ⟨rest, same, stops⟩ := isBefore.stops
    cases front with
    | nil =>
      obtain rfl : c :: cs = rest := same
      obtain ⟨marker, member, begins⟩ := stops.resolve_left (List.cons_ne_nil c cs)
      rw [beforeAny_of_begins member begins]
    | cons d front =>
      obtain ⟨rfl, rfl⟩ := List.cons.inj same
      rw [beforeAny_cons (isBefore.earliest [] _ rfl (Nat.succ_pos _))]
      refine congrArg (c :: ·) (ih ⟨⟨rest, rfl, stops⟩, fun u v same short => ?_⟩)
      exact isBefore.earliest (c :: u) v (congrArg (c :: ·) same) (Nat.succ_lt_succ short)

/-- Only which markers there are counts. -/
theorem beforeAny_congr {others : List Text} (same : ∀ marker, marker ∈ markers ↔ marker ∈ others)
    (s : Text) : beforeAny markers s = beforeAny others s := by
  have any (s : Text) : markers.any (startsWith · s) = others.any (startsWith · s) := by
    rw [Bool.eq_iff_iff, List.any_eq_true, List.any_eq_true]
    simp only [same]
  induction s with
  | nil => rfl
  | cons c cs ih => rw [beforeAny, beforeAny, any, ih]

@[simp] theorem beforeAny_nil (s : Text) : beforeAny [] s = s := by
  induction s with
  | nil => rfl
  | cons c cs ih => rw [beforeAny_cons (by simp), ih]

/-! ## One cut after another -/

/-- No marker begins inside another one, and none is empty. -/
def Crisp (markers : List Text) : Prop :=
  ∀ marker ∈ markers, marker ≠ [] ∧
    ∀ other ∈ markers, ∀ c ∈ marker.tail, other.head? ≠ some c

instance (markers : List Text) : Decidable (Crisp markers) :=
  decidable_of_iff
    (markers.all (fun marker => !marker.isEmpty &&
      markers.all fun other => marker.tail.all fun c => other.head? != some c) = true)
    (by simp [Crisp])

theorem Crisp.subset {others : List Text} (crisp : Crisp markers) (inside : others ⊆ markers) :
    Crisp others := fun marker member =>
  ⟨(crisp marker (inside member)).1, fun other inOthers =>
    (crisp marker (inside member)).2 other (inside inOthers)⟩

/-- A text in which no marker begins stays whole. -/
theorem prefix_beforeAny {u : Text} (nonempty : ∀ marker ∈ markers, marker ≠ [])
    (clear : ∀ marker ∈ markers, ∀ c ∈ u, marker.head? ≠ some c) (leads : u <+: s) :
    u <+: beforeAny markers s := by
  induction u generalizing s with
  | nil => exact List.nil_prefix
  | cons c u ih =>
    obtain ⟨rest, rfl⟩ := leads
    have stays : ∀ marker ∈ markers, ¬ marker <+: c :: (u ++ rest) := by
      rintro marker member ⟨more, same⟩
      obtain ⟨d, ds, rfl⟩ := List.exists_cons_of_ne_nil (nonempty marker member)
      obtain ⟨rfl, -⟩ := List.cons.inj same
      exact clear _ member d List.mem_cons_self rfl
    rw [List.cons_append, beforeAny_cons stays, List.cons_prefix_cons]
    refine ⟨rfl, ih (fun marker member d later => ?_) (List.prefix_append u rest)⟩
    exact clear marker member d (.tail c later)

theorem beforeAny_isPrefix (markers : List Text) (s : Text) : beforeAny markers s <+: s := by
  obtain ⟨rest, same, -⟩ := (isBefore_beforeAny markers s).stops
  exact ⟨rest, same.symm⟩

/-- A cut more is a marker more. -/
theorem beforeAny_beforeAny (crisp : Crisp (marker :: markers)) (s : Text) :
    beforeAny [marker] (beforeAny markers s) = beforeAny (marker :: markers) s := by
  induction s with
  | nil => rfl
  | cons c cs ih =>
    by_cases begins : ∃ other ∈ markers, other <+: c :: cs
    · obtain ⟨other, member, begins⟩ := begins
      rw [beforeAny_of_begins member begins, beforeAny_of_begins (.tail marker member) begins]
      rfl
    · have clear : ∀ other ∈ markers, ¬ other <+: c :: cs := fun other member here =>
        begins ⟨other, member, here⟩
      rw [beforeAny_cons clear]
      -- The earlier cut is behind the marker when there is one here.
      have kept : marker <+: c :: beforeAny markers cs ↔ marker <+: c :: cs := by
        constructor
        · intro here
          exact here.trans (List.cons_prefix_cons.mpr ⟨rfl, beforeAny_isPrefix markers cs⟩)
        · intro here
          obtain ⟨d, ds, rfl⟩ := List.exists_cons_of_ne_nil (crisp marker List.mem_cons_self).1
          obtain ⟨rfl, later⟩ := List.cons_prefix_cons.mp here
          refine List.cons_prefix_cons.mpr ⟨rfl, prefix_beforeAny ?_ ?_ later⟩
          · exact fun other member => (crisp other (.tail _ member)).1
          · exact fun other member e inTail =>
              (crisp _ List.mem_cons_self).2 other (.tail _ member) e inTail
      by_cases here : marker <+: c :: cs
      · rw [beforeAny_of_begins List.mem_cons_self here,
          beforeAny_of_begins List.mem_cons_self (kept.mpr here)]
      · rw [beforeAny_cons (by simpa using kept.not.mpr here), ih, beforeAny_cons]
        exact List.forall_mem_cons.mpr ⟨here, clear⟩

/-- All the cuts together. -/
theorem foldl_beforeAny (crisp : Crisp markers) (s : Text) :
    markers.foldl (fun out marker => beforeAny [marker] out) s = beforeAny markers s := by
  induction markers using List.reverseRecOn with
  | nil => exact (beforeAny_nil s).symm
  | append_singleton markers marker ih =>
    have reordered : Crisp (marker :: markers) := crisp.subset (by simp)
    rw [List.foldl_append, ih (crisp.subset (by simp)), List.foldl_cons, List.foldl_nil,
      beforeAny_beforeAny reordered]
    exact beforeAny_congr (by simp [or_comm]) s

/-- Cutting a text behind which a marker begins, or nothing is. -/
theorem beforeAny_append (crisp : Crisp markers) {base rest : Text}
    (unmarked : ∀ marker ∈ markers, ¬ marker <:+: base)
    (stops : rest = [] ∨ ∃ marker ∈ markers, marker <+: rest) :
    beforeAny markers (base ++ rest) = base := by
  refine (IsBefore.eq_beforeAny ?_).symm
  refine ⟨⟨rest, rfl, stops⟩, fun u v same short marker member begins => ?_⟩
  obtain ⟨w, rfl, rfl⟩ : ∃ w, base = u ++ w ∧ v = w ++ rest := by
    obtain ⟨w, left, right⟩ | ⟨w, left, right⟩ := List.append_eq_append_iff.mp same
    · rw [left, List.length_append] at short
      omega
    · exact ⟨w, left, right⟩
  have within : ¬ marker <+: w := fun inside =>
    unmarked marker member (inside.isInfix.trans (List.suffix_append u w).isInfix)
  obtain inside | ⟨more, rfl⟩ := List.prefix_or_prefix_of_prefix begins (List.prefix_append w rest)
  · exact within inside
  · -- The marker goes on behind the base, where another one begins.
    rw [List.prefix_append_right_inj] at begins
    obtain ⟨c, more, rfl⟩ := List.exists_cons_of_ne_nil (l := more) (by
      rintro rfl
      exact within (by simp))
    obtain ⟨rest, rfl⟩ := begins
    obtain ⟨other, inMarkers, begins⟩ := stops.resolve_left (List.cons_ne_nil _ _)
    obtain ⟨d, ds, rfl⟩ := List.exists_cons_of_ne_nil (crisp other inMarkers).1
    obtain ⟨rfl, -⟩ := List.cons_prefix_cons.mp begins
    obtain ⟨e, w, rfl⟩ := List.exists_cons_of_ne_nil (l := w) (by
      rintro rfl
      simp at short)
    exact (crisp _ member).2 _ inMarkers d (by simp) rfl

end Rust.Text
