import UcrashReport.Machine.Past
import UcrashReport.Store.Table

/-! # Upserts

`INSERT … ON CONFLICT (tag) DO UPDATE`: a row is inserted unless one of its tag is there, and then
that one is refreshed. A table that only upserts change says of each tag what the rows that were
offered come to: the first one, refreshed by the last one.
-/

namespace Store

variable {κ ρ τ : Type*} [DecidableEq τ]

/-! ## One upsert -/

/-- The row of a tag. -/
def tagged (tag : ρ → τ) (rows : List ρ) (t : τ) : Option ρ := rows.find? fun row => tag row = t

theorem tagged_eq_some {tag : ρ → τ} {rows : List ρ} {t : τ} {row : ρ}
    (found : tagged tag rows t = some row) : row ∈ rows ∧ tag row = t :=
  ⟨List.mem_of_find?_eq_some found, by simpa using List.find?_some found⟩

/-- How a row is refreshed by one that is offered later: its tag stays, and only the last one that was
offered counts. -/
structure Refreshes (tag : ρ → τ) (refresh : ρ → ρ → ρ) : Prop where
  tag : ∀ known row, tag (refresh known row) = tag known
  self : ∀ row, refresh row row = row
  again : ∀ known row later, refresh (refresh known row) later = refresh known later

/-- What an upsert does, as lookups by tag see it. -/
structure Upserts (tag : ρ → τ) (refresh : ρ → ρ → ρ) (row : ρ) (rows rows' : List ρ) : Prop where
  lookup : ∀ t, tagged tag rows' t =
    if tag row = t then some ((tagged tag rows t).elim row fun known => refresh known row)
    else tagged tag rows t
  distinct : (rows.map tag).Nodup → (rows'.map tag).Nodup

namespace Table

variable {key : ρ → κ} [DecidableEq κ] {tag : ρ → τ} {refresh : ρ → ρ → ρ} {table : Table κ ρ key}

/-- The row of the tag is refreshed. -/
theorem upserts_update (refreshes : Refreshes tag refresh) {known row : ρ}
    (there : tagged tag table.rows (tag row) = some known)
    (keeps : ∀ other, key (refresh other row) = key other) :
    Upserts tag refresh row table.rows
      (table.update (key known) (fun other => refresh other row) keeps).rows where
  lookup t := by
    obtain ⟨member, sameTag⟩ := tagged_eq_some there
    have mapped : tagged tag (table.update (key known) (fun other => refresh other row) keeps).rows t =
        (tagged tag table.rows t).map fun other =>
          if key other = key known then refresh other row else other := by
      rw [tagged, update, List.find?_map, tagged]
      congr 1
      refine congrArg (fun test => List.find? test table.rows) (funext fun other => ?_)
      rw [Function.comp_apply]
      split_ifs
      · rw [refreshes.tag]
      · rfl
    rw [mapped]
    split_ifs with same
    · rw [← same, there, Option.map_some, if_pos rfl, Option.elim_some]
    · cases found : tagged tag table.rows t with
      | none => rfl
      | some other =>
        obtain ⟨member', sameTag'⟩ := tagged_eq_some found
        have different : key other ≠ key known := fun sameKey => same <| by
          rw [← sameTag, ← List.inj_on_of_nodup_map table.unique member' member sameKey, sameTag']
        rw [Option.map_some, if_neg different]
  distinct distinct := by
    have same : (table.update (key known) (fun other => refresh other row) keeps).rows.map tag =
        table.rows.map tag := by
      rw [update, List.map_map]
      refine List.map_congr_left fun other _ => ?_
      rw [Function.comp_apply]
      split_ifs
      · exact refreshes.tag other row
      · rfl
    rwa [same]

/-- The row is inserted. -/
theorem upserts_insert {row : ρ} (absent : tagged tag table.rows (tag row) = none)
    {table' : Table κ ρ key} (inserted : table.insert row = some table') :
    Upserts tag refresh row table.rows table'.rows := by
  rw [insert] at inserted
  split_ifs at inserted with free
  rw [Option.some.injEq] at inserted
  subst inserted
  refine ⟨fun t => ?_, fun distinct => ?_⟩
  · rw [tagged, List.find?_append]
    split_ifs with same
    · subst same
      rw [tagged] at absent
      simp [tagged, absent]
    · simp [tagged, same]
  · rw [List.map_append, List.nodup_append]
    refine ⟨distinct, by simp, ?_⟩
    rintro t inRows t' isNew rfl
    obtain ⟨other, member, rfl⟩ := List.mem_map.mp inRows
    rw [List.map_singleton, List.mem_singleton] at isNew
    exact absurd isNew (by simpa using List.find?_eq_none.mp absent other member)

end Table

/-! ## A whole run -/

/-- What the rows that were offered come to for one tag. -/
def summary (tag : ρ → τ) (refresh : ρ → ρ → ρ) (offered : List ρ) (t : τ) : Option ρ :=
  (tagged tag offered t).bind fun first => (tagged tag offered.reverse t).map (refresh first)

variable {tag : ρ → τ} {refresh : ρ → ρ → ρ} (refreshes : Refreshes tag refresh)

include refreshes

theorem summary_snoc (offered : List ρ) (row : ρ) (t : τ) :
    summary tag refresh (offered ++ [row]) t =
      if tag row = t then
        some ((summary tag refresh offered t).elim row fun known => refresh known row)
      else summary tag refresh offered t := by
  have last : tagged tag (offered ++ [row]).reverse t =
      if tag row = t then some row else tagged tag offered.reverse t := by
    rw [List.reverse_append, List.reverse_singleton, List.singleton_append, tagged, List.find?_cons]
    split_ifs with same <;> simp [same, tagged]
  rw [summary, last, tagged, List.find?_append, ← tagged]
  split_ifs with same
  · cases first : tagged tag offered t with
    | none => simp [summary, first, same, refreshes.self]
    | some known =>
      have later : (tagged tag offered.reverse t).isSome := by
        obtain ⟨member, sameTag⟩ := tagged_eq_some first
        rw [tagged, List.find?_isSome]
        exact ⟨known, List.mem_reverse.mpr member, by simpa using sameTag⟩
      obtain ⟨row', found⟩ := Option.isSome_iff_exists.mp later
      simp [summary, first, found, refreshes.again]
  · rw [summary]
    simp [same]

/-- A table that starts empty and that only upserts change. -/
theorem tagged_of_run {σ α : Type*} {step : σ → α → Option σ} {start s : σ} {labels : List α}
    {event : σ → α → Option ρ} (rows : σ → List ρ) (first : rows start = [])
    (kept : ∀ s a s', step s a = some s' → event s a = none → rows s' = rows s)
    (upserted : ∀ s a s' row, step s a = some s' → event s a = some row →
      Upserts tag refresh row (rows s) (rows s'))
    (reached : Machine.run step start labels = some s) :
    ((rows s).map tag).Nodup ∧
      ∀ t, tagged tag (rows s) t = summary tag refresh (Machine.events step event start labels) t := by
  have always : Machine.Meets step (fun _ _ => True) start labels :=
    Machine.meets_of_forall fun _ _ _ => trivial
  refine Machine.history_of_run (I := fun before s => ((rows s).map tag).Nodup ∧ ∀ t,
    tagged tag (rows s) t = summary tag refresh (Machine.events step event start before) t)
    (by rw [first]; exact ⟨List.nodup_nil, fun _ => rfl⟩) (fun before s a s' there same _ stepped => ?_)
    always reached
  rw [Machine.events_snoc there stepped]
  cases happened : event s a with
  | none => rwa [kept s a s' stepped happened, Option.toList_none, List.append_nil]
  | some row =>
    have upserts := upserted s a s' row stepped happened
    refine ⟨upserts.distinct same.1, fun t => ?_⟩
    rw [Option.toList_some, summary_snoc refreshes, ← same.2]
    exact upserts.lookup t

end Store
