import UcrashReport.Machine.Run

/-! # A machine within another

A machine may be a part of a larger one: some labels of the larger one are labels of the part, and all
others leave the part as it is, up to what they may change of it. What the steps of the part preserve,
and those changes too, holds in every run of the larger machine; and the steps that the part takes
there can be counted.
-/

namespace Machine

variable {σ α τ β : Type*}

/-- Every step of the larger machine is one of the part, or changes of the part what it may. -/
def Hosts (outer : τ → β → Option τ) (inner : σ → α → Option σ) (view : τ → σ) (label : β → Option α)
    (beside : σ → σ → Prop) : Prop :=
  ∀ t b t', outer t b = some t' →
    (∃ a, label b = some a ∧ inner (view t) a = some (view t')) ∨
      label b = none ∧ beside (view t) (view t')

/-- The step is one of the part, of that kind. -/
def withinKind (view : τ → σ) (label : β → Option α) (kind : σ → α → σ → Bool) (t : τ) (b : β) (t' : τ) :
    Bool :=
  (label b).any fun a => kind (view t) a (view t')

/-- A machine is a part of itself. -/
theorem hosts_self (inner : σ → α → Option σ) : Hosts inner inner id some Eq :=
  fun _ a _ stepped => .inl ⟨a, rfl, stepped⟩

section Hosts

variable {outer : τ → β → Option τ} {inner : σ → α → Option σ} {view : τ → σ} {label : β → Option α}
  {beside : σ → σ → Prop}

theorem withinKind_of_label {kind : σ → α → σ → Bool} {t t' : τ} {a : α} {b : β}
    (labelled : label b = some a) :
    withinKind view label kind t b t' = kind (view t) a (view t') := by
  rw [withinKind, labelled, Option.any_some]

theorem withinKind_of_none {kind : σ → α → σ → Bool} {t t' : τ} {b : β} (unlabelled : label b = none) :
    withinKind view label kind t b t' = false := by
  rw [withinKind, unlabelled, Option.any_none]

variable (hosts : Hosts outer inner view label beside)

include hosts

theorem Hosts.mono {beside' : σ → σ → Prop} (weaker : ∀ s s', beside s s' → beside' s s') :
    Hosts outer inner view label beside' := by
  intro t b t' stepped
  rcases hosts t b t' stepped with taken | ⟨unlabelled, changed⟩
  · exact .inl taken
  · exact .inr ⟨unlabelled, weaker _ _ changed⟩

/-- What a step of the part and every other step preserve, a step of the larger machine preserves. -/
theorem Hosts.preserved {I : σ → Prop} (preserved : ∀ s a s', I s → inner s a = some s' → I s')
    (kept : ∀ s s', I s → beside s s' → I s') {t t' : τ} {b : β} (before : I (view t))
    (stepped : outer t b = some t') : I (view t') := by
  rcases hosts t b t' stepped with ⟨a, -, taken⟩ | ⟨-, changed⟩
  · exact preserved _ a _ before taken
  · exact kept _ _ before changed

theorem Hosts.invariant_of_run {I : σ → Prop}
    (preserved : ∀ s a s', I s → inner s a = some s' → I s') (kept : ∀ s s', I s → beside s s' → I s')
    {t t' : τ} {labels : List β} (start : I (view t)) (reached : run outer t labels = some t') :
    I (view t') :=
  invariant_of_every_run (I := fun t => I (view t))
    (fun _ _ _ before stepped => hosts.preserved preserved kept before stepped) start reached

/-- An invariant on the part and the number of its steps of a kind so far. -/
theorem Hosts.counted_invariant_of_run (kind : σ → α → σ → Bool) {I : σ → ℕ → Prop}
    (preserved : ∀ s a s' n, I s n → inner s a = some s' → I s' (n + if kind s a s' then 1 else 0))
    (kept : ∀ s s' n, I s n → beside s s' → I s' n) {t t' : τ} {n : ℕ} {labels : List β}
    (start : I (view t) n) (reached : run outer t labels = some t') :
    I (view t') (n + count outer (withinKind view label kind) t labels) := by
  refine Machine.counted_invariant_of_run (withinKind view label kind) (I := fun t n => I (view t) n)
    (fun t b t' n before stepped => ?_) start reached
  rcases hosts t b t' stepped with ⟨a, labelled, taken⟩ | ⟨unlabelled, changed⟩
  · rw [withinKind_of_label labelled]
    exact preserved _ a _ n before taken
  · rw [withinKind_of_none unlabelled]
    exact kept _ _ n before changed

end Hosts

end Machine
