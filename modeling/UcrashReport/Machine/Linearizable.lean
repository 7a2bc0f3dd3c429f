import Mathlib.Data.List.Nodup
import Mathlib.Logic.Function.Basic

/-! # Linearizable histories

Callers of a shared object see when their calls begin and what they are answered. Such a history is
linearizable when some order of the calls, one after another, explains all answers and the final
state, and never has a call before one that was answered before it began. A call that takes effect
in one atomic step between its beginning and its answer is put where that step is; the laws extend a
linearized history by one such step.
-/

namespace Linearizable

variable {σ Op Res : Type*}

/-- What callers see of their calls. -/
inductive Event (Op Res : Type*)
  | invoke (call : ℕ) (op : Op)
  | respond (call : ℕ) (result : Res)
deriving DecidableEq, Repr

/-- A call in a sequential order. -/
structure Entry (Op Res : Type*) where
  call : ℕ
  op : Op
  result : Res
deriving DecidableEq, Repr

/-- The calls lead from one state of the object to another, one after another. -/
def Sequential (apply : σ → Op → Res → σ → Prop) : σ → List (Entry Op Res) → σ → Prop
  | s, [], t => s = t
  | s, entry :: rest, u => ∃ t, apply s entry.op entry.result t ∧ Sequential apply t rest u

variable {apply : σ → Op → Res → σ → Prop}

theorem sequential_append {s u : σ} {first second : List (Entry Op Res)} :
    Sequential apply s (first ++ second) u ↔
      ∃ t, Sequential apply s first t ∧ Sequential apply t second u := by
  induction first generalizing s with
  | nil => simp [Sequential]
  | cons entry rest ih =>
    rw [List.cons_append, Sequential]
    constructor
    · rintro ⟨next, step, run⟩
      obtain ⟨t, left, right⟩ := ih.mp run
      exact ⟨t, ⟨next, step, left⟩, right⟩
    · rintro ⟨t, ⟨next, step, left⟩, right⟩
      exact ⟨next, step, ih.mpr ⟨t, left, right⟩⟩

/-- What every call of the order preserves, all of them together preserve. -/
theorem Sequential.invariant {I : σ → Prop} {s t : σ} {order : List (Entry Op Res)}
    (run : Sequential apply s order t)
    (preserved : ∀ entry ∈ order, ∀ s s', I s → apply s entry.op entry.result s' → I s')
    (start : I s) : I t := by
  induction order generalizing s with
  | nil => exact run ▸ start
  | cons entry rest ih =>
    obtain ⟨mid, step, run⟩ := run
    refine ih run (fun other member => ?_) (preserved entry List.mem_cons_self s mid start step)
    exact preserved other (List.mem_cons_of_mem entry member)

theorem Sequential.applied {s t : σ} {order : List (Entry Op Res)} (run : Sequential apply s order t)
    {entry : Entry Op Res} (member : entry ∈ order) :
    ∃ before after, apply before entry.op entry.result after := by
  obtain ⟨left, right, rfl⟩ := List.append_of_mem member
  obtain ⟨before, -, after, applied, -⟩ := sequential_append.mp run
  exact ⟨before, after, applied⟩

/-- The first call is answered before the second one begins. -/
def Precedes (history : List (Event Op Res)) (first second : ℕ) : Prop :=
  ∃ result op, [Event.respond first result, .invoke second op].Sublist history

theorem not_precedes_of_silent {history : List (Event Op Res)} {first second : ℕ}
    (silent : ∀ result, .respond first result ∉ history) : ¬ Precedes history first second := by
  rintro ⟨result, op, both⟩
  exact silent result (both.subset List.mem_cons_self)

/-- An event that does not begin the second call adds nothing before it. -/
theorem precedes_of_append {history : List (Event Op Res)} {event : Event Op Res} {first second : ℕ}
    (other : ∀ op, event ≠ .invoke second op)
    (precedes : Precedes (history ++ [event]) first second) : Precedes history first second := by
  obtain ⟨result, op, both⟩ := precedes
  obtain ⟨left, right, split, inHistory, inLast⟩ := List.sublist_append_iff.mp both
  refine ⟨result, op, ?_⟩
  rcases List.sublist_singleton.mp inLast with rfl | rfl
  · rw [split, List.append_nil]
    exact inHistory
  · have last := congrArg List.getLast? split
    rw [List.getLast?_append, List.getLast?_singleton] at last
    exact absurd (Option.some.inj last).symm (other op)

/-- The order explains the history and leads to the state. -/
structure LinearizedBy (apply : σ → Op → Res → σ → Prop) (start : σ)
    (history : List (Event Op Res)) (order : List (Entry Op Res)) (final : σ) : Prop where
  sequential : Sequential apply start order final
  once : (order.map Entry.call).Nodup
  invoked : ∀ entry ∈ order, .invoke entry.call entry.op ∈ history
  answered : ∀ call result, .respond call result ∈ history →
    ∃ entry ∈ order, entry.call = call ∧ entry.result = result
  respects : order.Pairwise fun first second => ¬ Precedes history second.call first.call

/-! ## Calls with one atomic step -/

/-- How far a call has come: it takes effect in one step between its beginning and its answer. -/
inductive Phase (Op Res : Type*)
  | idle
  | invoked (op : Op)
  | effective (op : Op) (result : Res)
  | answered

/-- The history of the calls is linearized by the order of their atomic steps. -/
structure Observed (apply : σ → Op → Res → σ → Prop) (start : σ) (phase : ℕ → Phase Op Res)
    (history : List (Event Op Res)) (order : List (Entry Op Res)) (final : σ) : Prop where
  linearized : LinearizedBy apply start history order final
  idle : ∀ call, phase call = .idle →
    (∀ op, .invoke call op ∉ history) ∧ (∀ result, .respond call result ∉ history) ∧
      call ∉ order.map Entry.call
  invoked : ∀ call op, phase call = .invoked op → .invoke call op ∈ history ∧
    (∀ result, .respond call result ∉ history) ∧ call ∉ order.map Entry.call
  effective : ∀ call op result, phase call = .effective op result →
    .invoke call op ∈ history ∧ ⟨call, op, result⟩ ∈ order

theorem Observed.empty (start : σ) : Observed apply start (fun _ => .idle) [] [] start where
  linearized := ⟨rfl, by simp, by simp, by simp, .nil⟩
  idle := by simp
  invoked := by simp
  effective := by simp

variable {start final : σ} {phase : ℕ → Phase Op Res} {history : List (Event Op Res)}
  {order : List (Entry Op Res)} (observed : Observed apply start phase history order final)
  {call : ℕ}

include observed

theorem Observed.invoke (idle : phase call = .idle) (op : Op) :
    Observed apply start (Function.update phase call (.invoked op)) (history ++ [.invoke call op])
      order final where
  linearized := by
    obtain ⟨-, -, notIn⟩ := observed.idle call idle
    refine ⟨observed.linearized.sequential, observed.linearized.once, fun entry member => ?_,
      fun other result responded => ?_, ?_⟩
    · exact List.mem_append_left _ (observed.linearized.invoked entry member)
    · exact observed.linearized.answered other result (by simpa using responded)
    · refine observed.linearized.respects.imp_of_mem fun {first second} member _ before precedes => ?_
      refine before (precedes_of_append (fun op' same => notIn ?_) precedes)
      rw [Event.invoke.injEq] at same
      exact List.mem_map.mpr ⟨first, member, same.1.symm⟩
  idle other now := by
    rcases eq_or_ne other call with rfl | different
    · simp at now
    · rw [Function.update_of_ne different] at now
      simpa [different] using observed.idle other now
  invoked other op' now := by
    rcases eq_or_ne other call with rfl | different
    · rw [Function.update_self, Phase.invoked.injEq] at now
      obtain ⟨-, silent, notIn⟩ := observed.idle other idle
      exact ⟨by simp [now], by simpa using silent, notIn⟩
    · rw [Function.update_of_ne different] at now
      simpa [different] using observed.invoked other op' now
  effective other op' result now := by
    rcases eq_or_ne other call with rfl | different
    · simp at now
    · rw [Function.update_of_ne different] at now
      simpa [different] using observed.effective other op' result now

/-- The call takes effect. -/
theorem Observed.effect {op : Op} (invoked : phase call = .invoked op) {result : Res} {final' : σ}
    (applied : apply final op result final') :
    Observed apply start (Function.update phase call (.effective op result)) history
      (order ++ [⟨call, op, result⟩]) final' where
  linearized := by
    obtain ⟨begun, silent, notIn⟩ := observed.invoked call op invoked
    refine ⟨sequential_append.mpr ⟨final, observed.linearized.sequential, final', applied, rfl⟩, ?_,
      fun entry member => ?_, fun other result' responded => ?_, ?_⟩
    · rw [List.map_append, List.map_singleton, List.nodup_append]
      refine ⟨observed.linearized.once, List.nodup_singleton _, ?_⟩
      rintro other member _ last rfl
      have same : other = call := List.mem_singleton.mp last
      exact notIn (same ▸ member)
    · rcases List.mem_append.mp member with before | last
      · exact observed.linearized.invoked entry before
      · rw [List.mem_singleton.mp last]
        exact begun
    · obtain ⟨entry, member, same⟩ := observed.linearized.answered other result' responded
      exact ⟨entry, List.mem_append_left _ member, same⟩
    · refine List.pairwise_append.mpr ⟨observed.linearized.respects, List.pairwise_singleton _ _, ?_⟩
      intro first _ second last
      rw [List.mem_singleton.mp last]
      exact not_precedes_of_silent silent
  idle other now := by
    rcases eq_or_ne other call with rfl | different
    · simp at now
    · rw [Function.update_of_ne different] at now
      simpa [different] using observed.idle other now
  invoked other op' now := by
    rcases eq_or_ne other call with rfl | different
    · simp at now
    · rw [Function.update_of_ne different] at now
      simpa [different] using observed.invoked other op' now
  effective other op' result' now := by
    rcases eq_or_ne other call with rfl | different
    · rw [Function.update_self, Phase.effective.injEq] at now
      obtain ⟨rfl, rfl⟩ := now
      exact ⟨(observed.invoked other op invoked).1, by simp⟩
    · rw [Function.update_of_ne different] at now
      obtain ⟨begun, member⟩ := observed.effective other op' result' now
      exact ⟨begun, List.mem_append_left _ member⟩

theorem Observed.respond {op : Op} {result : Res} (effective : phase call = .effective op result) :
    Observed apply start (Function.update phase call .answered) (history ++ [.respond call result])
      order final where
  linearized := by
    refine ⟨observed.linearized.sequential, observed.linearized.once, fun entry member => ?_,
      fun other result' responded => ?_, ?_⟩
    · exact List.mem_append_left _ (observed.linearized.invoked entry member)
    · rcases List.mem_append.mp responded with before | last
      · exact observed.linearized.answered other result' before
      · rw [List.mem_singleton, Event.respond.injEq] at last
        obtain ⟨rfl, rfl⟩ := last
        exact ⟨_, (observed.effective other op result' effective).2, rfl, rfl⟩
    · exact observed.linearized.respects.imp fun before precedes =>
        before (precedes_of_append (by simp) precedes)
  idle other now := by
    rcases eq_or_ne other call with rfl | different
    · simp at now
    · rw [Function.update_of_ne different] at now
      simpa [different] using observed.idle other now
  invoked other op' now := by
    rcases eq_or_ne other call with rfl | different
    · simp at now
    · rw [Function.update_of_ne different] at now
      simpa [different] using observed.invoked other op' now
  effective other op' result' now := by
    rcases eq_or_ne other call with rfl | different
    · simp at now
    · rw [Function.update_of_ne different] at now
      simpa using observed.effective other op' result' now

end Linearizable
