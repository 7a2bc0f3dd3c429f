import UcrashReport.Machine.Run

/-! # Processes

A process works on a memory that others may work on as well: each of its steps changes the memory
and either leads to the next stage or answers. Alone, it goes from stage to stage until it answers.
A machine that takes the steps of a process when it is scheduled comes to the same answer in a run
that schedules nothing else.
-/

namespace Machine

variable {σ κ ρ : Type*}

/-- Alone, the process comes from a memory and a stage to an answer and a memory. -/
inductive Completes (step : σ → κ → σ × (ρ ⊕ κ)) : σ → κ → ρ → σ → Prop
  | answer {s t : σ} {stage : κ} {result : ρ} (stepped : step s stage = (t, .inl result)) :
      Completes step s stage result t
  | next {s m t : σ} {stage later : κ} {result : ρ}
      (stepped : step s stage = (m, .inr later)) (rest : Completes step m later result t) :
      Completes step s stage result t

variable {step : σ → κ → σ × (ρ ⊕ κ)} {s t : σ} {stage : κ} {result : ρ}

/-- A machine that only schedules the process comes to its answer. -/
theorem Completes.run {τ α : Type*} (machine : τ → α → Option τ) (label : α) (inside : σ → κ → τ)
    (answered : σ → ρ → τ)
    (scheduled : ∀ s stage, machine (inside s stage) label =
      some ((step s stage).2.elim (answered (step s stage).1) (inside (step s stage).1)))
    (completes : Completes step s stage result t) :
    ∃ n, Machine.run machine (inside s stage) (List.replicate n label) =
      some (answered t result) := by
  induction completes with
  | @answer s t stage result stepped =>
    have taken := scheduled s stage
    rw [stepped] at taken
    exact ⟨1, run_cons.mpr ⟨_, taken, rfl⟩⟩
  | @next s m t stage later result stepped rest ih =>
    obtain ⟨n, reached⟩ := ih
    have taken := scheduled s stage
    rw [stepped] at taken
    exact ⟨n + 1, run_cons.mpr ⟨_, taken, reached⟩⟩

end Machine
