import UcrashReport.Machine.Run
import Mathlib.Data.List.Induction

/-! # What happened in a run

A condition may speak of a step that was taken: of the labels before it, the state in which it was
taken and its label. It was met once when some step of the run meets it, and another condition has
held since then when all later steps meet that one. All this is told from the last step and the run
before it, and an invariant may mention the run so far.
-/

namespace Machine

variable {σ α : Type*} {step : σ → α → Option σ} {start : σ}

/-- Some step of the run is as described, and every later one meets the condition. -/
def Since (step : σ → α → Option σ) (start : σ) (condition : σ → α → Prop)
    (occasion : List α → σ → α → Prop) (labels : List α) : Prop :=
  ∃ before a after s, labels = before ++ a :: after ∧ run step start before = some s ∧
    occasion before s a ∧ ∀ s' ∈ step s a, Meets step condition s' after

variable {condition : σ → α → Prop} {occasion : List α → σ → α → Prop}

theorem meets_snoc {s t : σ} {a : α} {labels : List α} (reached : run step s labels = some t) :
    Meets step condition s (labels ++ [a]) ↔ Meets step condition s labels ∧ condition t a := by
  induction labels generalizing s with
  | nil =>
    rw [run, Option.some.injEq] at reached
    simp [Meets, reached]
  | cons b rest ih =>
    obtain ⟨mid, stepped, reached⟩ := run_cons.mp reached
    simp only [List.cons_append, Meets, stepped, Option.mem_def, Option.some.injEq, forall_eq',
      ih reached, and_assoc]

theorem run_snoc {s t : σ} {a : α} {labels : List α} :
    run step s (labels ++ [a]) = some t ↔ ∃ mid, run step s labels = some mid ∧ step mid a = some t := by
  rw [run_append]
  simp [run]

/-- The condition is met in the state in which a step within the run is taken. -/
theorem Meets.middle {s t : σ} {a : α} {before after : List α}
    (meets : Meets step condition s (before ++ a :: after)) (reached : run step s before = some t) :
    condition t a := by
  rw [List.append_cons] at meets
  exact ((meets_snoc reached).mp meets.of_append).2

theorem not_since_nil : ¬ Since step start condition occasion [] := by
  rintro ⟨before, a, after, s, split, -⟩
  simp at split

/-- It was the last step, or it was before and the last step meets the condition. -/
theorem since_snoc {s : σ} {a : α} {labels : List α} (reached : run step start labels = some s) :
    Since step start condition occasion (labels ++ [a]) ↔
      occasion labels s a ∨ condition s a ∧ Since step start condition occasion labels := by
  constructor
  · rintro ⟨before, b, after, mid, split, there, met, later⟩
    rcases List.eq_nil_or_concat' after with rfl | ⟨after, c, rfl⟩
    · obtain ⟨rfl, same⟩ := List.append_inj' split rfl
      obtain rfl : a = b := List.singleton_inj.mp same
      rw [reached, Option.some.injEq] at there
      exact .inl (there ▸ met)
    · rw [← List.cons_append, ← List.append_assoc] at split
      obtain ⟨rfl, same⟩ := List.append_inj' split rfl
      obtain rfl : a = c := List.singleton_inj.mp same
      obtain ⟨mid', there', rest⟩ := run_append.mp reached
      rw [there, Option.some.injEq] at there'
      subst there'
      obtain ⟨next, first, rest⟩ := run_cons.mp rest
      obtain ⟨before', last⟩ := (meets_snoc rest).mp (later next first)
      refine .inr ⟨last, before, b, after, mid, rfl, there, met, fun other stepped => ?_⟩
      rw [Option.mem_def, first, Option.some.injEq] at stepped
      exact stepped ▸ before'
  · rintro (met | ⟨last, before, b, after, mid, rfl, there, met, later⟩)
    · exact ⟨labels, a, [], s, rfl, reached, met, fun _ _ => trivial⟩
    · obtain ⟨mid', there', rest⟩ := run_append.mp reached
      rw [there, Option.some.injEq] at there'
      subst there'
      obtain ⟨next, first, rest⟩ := run_cons.mp rest
      refine ⟨before, b, after ++ [a], mid, by simp, there, met, fun other stepped => ?_⟩
      rw [Option.mem_def, first, Option.some.injEq] at stepped
      subst stepped
      exact (meets_snoc rest).mpr ⟨later next first, last⟩

/-- An invariant on the labels so far and the state, under a condition on the steps. -/
theorem history_of_run {I : List α → σ → Prop} {t : σ} {labels : List α} (first : I [] start)
    (preserved : ∀ before s a s', run step start before = some s → I before s → condition s a →
      step s a = some s' → I (before ++ [a]) s')
    (meets : Meets step condition start labels) (reached : run step start labels = some t) :
    I labels t := by
  induction labels using List.reverseRecOn generalizing t with
  | nil =>
    rw [run, Option.some.injEq] at reached
    exact reached ▸ first
  | append_singleton before a ih =>
    obtain ⟨mid, there, stepped⟩ := run_snoc.mp reached
    obtain ⟨earlier, last⟩ := (meets_snoc there).mp meets
    exact preserved before mid a t there (ih earlier there) last stepped

/-! ## Events -/

/-- The events of the steps of a run, one after the other. -/
def events {β : Type*} (step : σ → α → Option σ) (event : σ → α → Option β) : σ → List α → List β
  | _, [] => []
  | s, a :: rest =>
    match step s a with
    | none => []
    | some s' => (event s a).toList ++ events step event s' rest

theorem events_snoc {β : Type*} {event : σ → α → Option β} {s t t' : σ} {labels : List α} {a : α}
    (reached : run step s labels = some t) (stepped : step t a = some t') :
    events step event s (labels ++ [a]) = events step event s labels ++ (event t a).toList := by
  induction labels generalizing s with
  | nil =>
    rw [run, Option.some.injEq] at reached
    simp [events, reached, stepped]
  | cons b rest ih =>
    obtain ⟨mid, first, reached⟩ := run_cons.mp reached
    simp only [List.cons_append, events, first]
    rw [ih reached, List.append_assoc]

end Machine
