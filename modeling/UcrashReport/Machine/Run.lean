import Mathlib.Algebra.Order.BigOperators.Group.List
import Mathlib.Algebra.Order.Ring.Nat
import Mathlib.Data.List.Basic

/-! # Runs of a machine with guarded steps

A machine is a partial step function on states and labels. A run takes its labels one after
another; a condition on single steps extends to a run when every step that is taken meets it. What
a step preserves under the condition holds at the end of every run that meets it, and since a
prefix of a run is a run, in every state that is reached. The steps of one kind that a run takes can
be counted.
-/

namespace Machine

variable {σ α : Type*}

/-- The state after the labels, if every one of them can be taken. -/
def run (step : σ → α → Option σ) : σ → List α → Option σ
  | s, [] => some s
  | s, a :: rest => (step s a).bind fun s' => run step s' rest

/-- Every step of the run meets the condition, in the state in which it is taken. -/
def Meets (step : σ → α → Option σ) (condition : σ → α → Prop) : σ → List α → Prop
  | _, [] => True
  | s, a :: rest => condition s a ∧ ∀ s' ∈ step s a, Meets step condition s' rest

variable {step : σ → α → Option σ} {condition : σ → α → Prop}

instance decidableMeets [∀ s a, Decidable (condition s a)] :
    ∀ (s : σ) (labels : List α), Decidable (Meets step condition s labels)
  | _, [] => inferInstanceAs (Decidable True)
  | s, a :: rest =>
    have := fun s' => decidableMeets s' rest
    inferInstanceAs (Decidable (condition s a ∧ ∀ s' ∈ step s a, Meets step condition s' rest))

theorem run_cons {s t : σ} {a : α} {rest : List α} :
    run step s (a :: rest) = some t ↔ ∃ mid, step s a = some mid ∧ run step mid rest = some t := by
  rw [run, Option.bind_eq_some_iff]

theorem run_append {s t : σ} {first second : List α} :
    run step s (first ++ second) = some t ↔
      ∃ mid, run step s first = some mid ∧ run step mid second = some t := by
  induction first generalizing s with
  | nil => simp [run]
  | cons a rest ih =>
    rw [List.cons_append, run_cons]
    constructor
    · rintro ⟨next, stepped, reached⟩
      obtain ⟨mid, left, right⟩ := ih.mp reached
      exact ⟨mid, run_cons.mpr ⟨next, stepped, left⟩, right⟩
    · rintro ⟨mid, left, right⟩
      obtain ⟨next, stepped, left⟩ := run_cons.mp left
      exact ⟨next, stepped, ih.mpr ⟨mid, left, right⟩⟩

/-- A condition that the labels alone fulfil. -/
theorem meets_of_forall {s : σ} {labels : List α} (always : ∀ a ∈ labels, ∀ s, condition s a) :
    Meets step condition s labels := by
  induction labels generalizing s with
  | nil => trivial
  | cons a rest ih =>
    exact ⟨always a List.mem_cons_self s, fun s' _ =>
      ih fun b member => always b (List.mem_cons_of_mem a member)⟩

theorem Meets.cons {s s' : σ} {a : α} {rest : List α} (stepped : step s a = some s')
    (now : condition s a) (later : Meets step condition s' rest) :
    Meets step condition s (a :: rest) := by
  refine ⟨now, fun other reached => ?_⟩
  rw [Option.mem_def, stepped, Option.some.injEq] at reached
  exact reached ▸ later

theorem Meets.imp {weaker : σ → α → Prop} (implies : ∀ s a, condition s a → weaker s a) {s : σ}
    {labels : List α} (meets : Meets step condition s labels) : Meets step weaker s labels := by
  induction labels generalizing s with
  | nil => trivial
  | cons a rest ih =>
    exact ⟨implies s a meets.1, fun s' stepped => ih (meets.2 s' stepped)⟩

theorem Meets.and {condition' : σ → α → Prop} {s : σ} {labels : List α}
    (first : Meets step condition s labels) (second : Meets step condition' s labels) :
    Meets step (fun s a => condition s a ∧ condition' s a) s labels := by
  induction labels generalizing s with
  | nil => trivial
  | cons a rest ih =>
    exact ⟨⟨first.1, second.1⟩, fun s' stepped => ih (first.2 s' stepped) (second.2 s' stepped)⟩

theorem Meets.of_append {s : σ} {first second : List α}
    (meets : Meets step condition s (first ++ second)) : Meets step condition s first := by
  induction first generalizing s with
  | nil => trivial
  | cons a rest ih => exact ⟨meets.1, fun s' stepped => ih (meets.2 s' stepped)⟩

/-- An invariant that every step meeting the condition preserves holds along every run whose
steps all meet it. -/
theorem invariant_of_run {I : σ → Prop}
    (preserved : ∀ s a s', I s → condition s a → step s a = some s' → I s')
    {s t : σ} {labels : List α} (start : I s) (meets : Meets step condition s labels)
    (reached : run step s labels = some t) : I t := by
  induction labels generalizing s with
  | nil =>
    rw [run, Option.some.injEq] at reached
    exact reached ▸ start
  | cons a rest ih =>
    obtain ⟨mid, stepped, reached⟩ := run_cons.mp reached
    have next := preserved s a mid start meets.1 stepped
    exact ih next (meets.2 mid stepped) reached

/-- What an invariant makes of the condition on every step. -/
theorem Meets.of_invariant {I : σ → Prop} {stronger : σ → α → Prop}
    (preserved : ∀ s a s', I s → condition s a → step s a = some s' → I s')
    (implies : ∀ s a, I s → condition s a → stronger s a) {s : σ} {labels : List α} (start : I s)
    (meets : Meets step condition s labels) : Meets step stronger s labels := by
  induction labels generalizing s with
  | nil => trivial
  | cons a rest ih =>
    exact ⟨implies s a start meets.1, fun s' stepped =>
      ih (preserved s a s' start meets.1 stepped) (meets.2 s' stepped)⟩

/-- An invariant that every step preserves. -/
theorem invariant_of_every_run {I : σ → Prop}
    (preserved : ∀ s a s', I s → step s a = some s' → I s')
    {s t : σ} {labels : List α} (start : I s) (reached : run step s labels = some t) :
    I t :=
  invariant_of_run (fun s a s' holds (_ : True) stepped => preserved s a s' holds stepped) start
    (meets_of_forall fun _ _ _ => trivial) reached

/-! ## Counting steps -/

/-- How many steps of the run are of the kind. -/
def count (step : σ → α → Option σ) (kind : σ → α → σ → Bool) : σ → List α → ℕ
  | _, [] => 0
  | s, a :: rest =>
    match step s a with
    | none => 0
    | some s' => (if kind s a s' then 1 else 0) + count step kind s' rest

variable {kind : σ → α → σ → Bool}

theorem count_append {s t : σ} {first second : List α} (reached : run step s first = some t) :
    count step kind s (first ++ second) = count step kind s first + count step kind t second := by
  induction first generalizing s with
  | nil =>
    rw [run, Option.some.injEq] at reached
    simp [count, reached]
  | cons a rest ih =>
    obtain ⟨mid, stepped, reached⟩ := run_cons.mp reached
    simp only [List.cons_append, count, stepped]
    rw [ih reached]
    omega

/-- An invariant on the state and the number of steps of a kind so far. -/
theorem counted_invariant_of_run (kind : σ → α → σ → Bool) {I : σ → ℕ → Prop}
    (preserved : ∀ s a s' n, I s n → step s a = some s' →
      I s' (n + if kind s a s' then 1 else 0))
    {s t : σ} {n : ℕ} {labels : List α} (start : I s n)
    (reached : run step s labels = some t) : I t (n + count step kind s labels) := by
  induction labels generalizing s n with
  | nil =>
    rw [run, Option.some.injEq] at reached
    exact reached ▸ start
  | cons a rest ih =>
    obtain ⟨mid, stepped, reached⟩ := run_cons.mp reached
    have next := ih (preserved s a mid n start stepped) reached
    simpa only [count, stepped, Nat.add_assoc] using next

/-- When every step of one kind is of some kind of a list, there are at most as many of them as of all
the kinds in the list together. -/
theorem count_le_sum {κ : Type*} {kinds : κ → σ → α → σ → Bool} {keys : List κ} {I : σ → Prop} {s t : σ}
    {labels : List α} (preserved : ∀ s a s', I s → step s a = some s' → I s')
    (covered : ∀ s a s' rest, I s → step s a = some s' → run step s' rest = some t →
      kind s a s' = true → ∃ k ∈ keys, kinds k s a s' = true)
    (start : I s) (reached : run step s labels = some t) :
    count step kind s labels ≤ (keys.map fun k => count step (kinds k) s labels).sum := by
  induction labels generalizing s with
  | nil => simp [count]
  | cons a rest ih =>
    obtain ⟨mid, stepped, reached⟩ := run_cons.mp reached
    have later := ih (preserved s a mid start stepped) reached
    have now : (if kind s a mid then 1 else 0) ≤
        (keys.map fun k => if kinds k s a mid then 1 else 0).sum := by
      split_ifs with isKind
      · obtain ⟨k, member, ofKind⟩ := covered s a mid rest start stepped reached isKind
        have one := List.single_le_sum (fun _ _ => Nat.zero_le _) _
          (List.mem_map_of_mem (f := fun k => if kinds k s a mid then 1 else 0) member)
        simpa [ofKind] using one
      · exact Nat.zero_le _
    simp only [count, stepped, List.sum_map_add]
    omega

end Machine
