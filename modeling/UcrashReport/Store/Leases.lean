import Mathlib.Algebra.Order.Ring.Nat
import Mathlib.Data.List.Basic
import Mathlib.Logic.Function.Basic

/-! # Leases

A lease gives a key to a holder up to a deadline. Leases are granted and revoked, which goes into a
log, newest event first, and some time after their deadline they are purged, which does not. By a
clock that does not go back a key may be used by whom the log says, whenever leases are purged.
-/

namespace Store.Leases

variable {κ ω : Type*}

inductive Event (κ ω : Type*)
  | granted (k : κ) (holder : ω) (deadline : ℤ)
  | revoked (k : κ)
deriving DecidableEq, Repr

/-- The key that an event is about. -/
def Event.key : Event κ ω → κ
  | granted k _ _ | revoked k => k

/-- The last event about the key grants it. -/
def Granted (log : List (Event κ ω)) (k : κ) (holder : ω) (deadline : ℤ) : Prop :=
  ∃ newer older, log = newer ++ .granted k holder deadline :: older ∧ ∀ event ∈ newer, event.key ≠ k

variable {log : List (Event κ ω)} {event : Event κ ω} {k : κ} {holder : ω} {deadline : ℤ}

theorem not_granted_nil : ¬ Granted [] k holder deadline := by
  rintro ⟨newer, older, split, -⟩
  simp at split

theorem granted_cons :
    Granted (event :: log) k holder deadline ↔
      event = .granted k holder deadline ∨ event.key ≠ k ∧ Granted log k holder deadline := by
  constructor
  · rintro ⟨newer, older, split, others⟩
    cases newer with
    | nil => exact .inl (List.cons.inj split).1
    | cons first newer =>
      obtain ⟨rfl, rest⟩ := List.cons.inj split
      exact .inr ⟨others _ List.mem_cons_self, newer, older, rest,
        fun event member => others event (List.mem_cons_of_mem _ member)⟩
  · rintro (rfl | ⟨different, newer, older, rfl, others⟩)
    · exact ⟨[], log, rfl, by simp⟩
    · exact ⟨event :: newer, older, rfl, by simpa using ⟨different, others⟩⟩

/-- The same of a log of other events, some of which are about keys. -/
theorem granted_filterMap {α : Type*} {about : α → Option (Event κ ω)} {events : List α} :
    Granted (events.filterMap about) k holder deadline ↔
      ∃ newer event older, events = newer ++ event :: older ∧
        about event = some (.granted k holder deadline) ∧
        ∀ other ∈ newer, ∀ said ∈ about other, said.key ≠ k := by
  induction events with
  | nil => simp [not_granted_nil]
  | cons first events ih =>
    have split : Granted ((first :: events).filterMap about) k holder deadline ↔
        about first = some (.granted k holder deadline) ∨
          (∀ said ∈ about first, said.key ≠ k) ∧
            Granted (events.filterMap about) k holder deadline := by
      cases said : about first with
      | none => simp [said]
      | some event => simp [said, granted_cons]
    rw [split, ih]
    constructor
    · rintro (now | ⟨others, newer, event, older, rfl, granted, silent⟩)
      · exact ⟨[], first, events, rfl, now, by simp⟩
      · refine ⟨first :: newer, event, older, rfl, granted, ?_⟩
        rw [List.forall_mem_cons]
        exact ⟨others, silent⟩
    · rintro ⟨newer, event, older, same, granted, silent⟩
      cases newer with
      | nil =>
        obtain ⟨rfl, -⟩ := List.cons.inj same
        exact .inl granted
      | cons other newer =>
        obtain ⟨rfl, rest⟩ := List.cons.inj same
        rw [List.forall_mem_cons] at silent
        exact .inr ⟨silent.1, newer, event, older, rest, granted, silent.2⟩

/-- The keys that are held, by whom and up to when. -/
abbrev Held (κ ω : Type*) := κ → Option (ω × ℤ)

/-- Who may use the key now. -/
def Held.holder? (held : Held κ ω) (now : ℤ) (k : κ) : Option ω :=
  ((held k).filter fun lease => now < lease.2).map (·.1)

/-- What is held is as the log says, save for leases that have run out by the clock. -/
structure Explains (log : List (Event κ ω)) (clock : ℤ) (held : Held κ ω) : Prop where
  granted : ∀ k holder deadline, held k = some (holder, deadline) → Granted log k holder deadline
  held : ∀ k holder deadline, Granted log k holder deadline →
    held k = some (holder, deadline) ∨ deadline < clock

variable {held : Held κ ω} {clock : ℤ}

theorem Explains.empty (clock : ℤ) : Explains [] clock fun _ : κ => (none : Option (ω × ℤ)) where
  granted _ _ _ none := by simp at none
  held _ _ _ granted := absurd granted not_granted_nil

theorem Explains.wait (explains : Explains log clock held) {clock' : ℤ} (later : clock ≤ clock') :
    Explains log clock' held where
  granted := explains.granted
  held k holder deadline granted :=
    (explains.held k holder deadline granted).imp_right fun out => Int.lt_of_lt_of_le out later

/-- Some leases that have run out are forgotten. -/
theorem Explains.purge (explains : Explains log clock held) {held' : Held κ ω}
    (fewer : ∀ k, held' k = held k ∨ held' k = none ∧ ∀ lease ∈ held k, lease.2 < clock) :
    Explains log clock held' where
  granted k holder deadline now := by
    rcases fewer k with same | ⟨gone, -⟩
    · exact explains.granted k holder deadline (same ▸ now)
    · simp [gone] at now
  held k holder deadline granted := by
    rcases explains.held k holder deadline granted with before | out
    · rcases fewer k with same | ⟨-, out⟩
      · exact .inl (same.trans before)
      · exact .inr (out (holder, deadline) before)
    · exact .inr out

theorem Explains.granted_of_holder? (explains : Explains log clock held) {now : ℤ}
    (holds : held.holder? now k = some holder) :
    ∃ deadline, Granted log k holder deadline ∧ now < deadline := by
  rw [Held.holder?, Option.map_eq_some_iff] at holds
  obtain ⟨⟨holder, deadline⟩, found, rfl⟩ := holds
  rw [Option.filter_eq_some_iff] at found
  exact ⟨deadline, explains.granted k holder deadline found.1, by simpa using found.2⟩

/-- A key may be used by the holder of its last lease, up to the deadline. -/
theorem Explains.holder?_iff (explains : Explains log clock held) {now : ℤ} (later : clock ≤ now) :
    held.holder? now k = some holder ↔ ∃ deadline, Granted log k holder deadline ∧ now < deadline := by
  refine ⟨explains.granted_of_holder?, ?_⟩
  rintro ⟨deadline, granted, inTime⟩
  rw [Held.holder?, Option.map_eq_some_iff]
  refine ⟨(holder, deadline), ?_, rfl⟩
  rw [Option.filter_eq_some_iff]
  refine ⟨(explains.held k holder deadline granted).resolve_right ?_, by simpa using inTime⟩
  omega

variable [DecidableEq κ]

theorem Explains.grant (explains : Explains log clock held) (k : κ) (holder : ω) (deadline : ℤ) :
    Explains (.granted k holder deadline :: log) clock
      (Function.update held k (some (holder, deadline))) where
  granted k' holder' deadline' now := by
    rw [granted_cons]
    rcases eq_or_ne k' k with rfl | different
    · rw [Function.update_self, Option.some.injEq, Prod.mk.injEq] at now
      obtain ⟨rfl, rfl⟩ := now
      exact .inl rfl
    · rw [Function.update_of_ne different] at now
      exact .inr ⟨different.symm, explains.granted k' holder' deadline' now⟩
  held k' holder' deadline' granted := by
    rcases granted_cons.mp granted with same | ⟨different, before⟩
    · rw [Event.granted.injEq] at same
      obtain ⟨rfl, rfl, rfl⟩ := same
      exact .inl (Function.update_self ..)
    · have other : k' ≠ k := fun same => different same.symm
      rw [Function.update_of_ne other]
      exact explains.held k' holder' deadline' before

theorem Explains.revoke (explains : Explains log clock held) (k : κ) :
    Explains (.revoked k :: log) clock (Function.update held k none) where
  granted k' holder deadline now := by
    rw [granted_cons]
    rcases eq_or_ne k' k with rfl | different
    · simp at now
    · rw [Function.update_of_ne different] at now
      exact .inr ⟨different.symm, explains.granted k' holder deadline now⟩
  held k' holder deadline granted := by
    rcases granted_cons.mp granted with same | ⟨different, before⟩
    · contradiction
    · have other : k' ≠ k := fun same => different same.symm
      rw [Function.update_of_ne other]
      exact explains.held k' holder deadline before

end Store.Leases
