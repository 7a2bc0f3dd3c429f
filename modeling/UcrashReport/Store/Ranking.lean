import Mathlib.Algebra.BigOperators.Group.List.Lemmas
import Mathlib.Algebra.Order.BigOperators.Group.List
import Mathlib.Algebra.Order.Ring.Nat
import Mathlib.Data.List.Dedup
import Mathlib.Data.List.Sort

/-! # Ranked and grouped rows

The first rows by rank, highest first, and the numbers of rows by a column or of distinct values in
one: `ORDER BY … DESC LIMIT n`, `COUNT(*) … GROUP BY` and `COUNT(DISTINCT …)`. In what order equally
ranked rows come is of no importance to the laws.
-/

namespace Store.Ranking

variable {α β κ : Type*}

/-! ## The first rows -/

section Top

variable [LinearOrder β] (rank : α → β) (n : ℕ) (rows : List α)

def top : List α := (rows.insertionSort fun a b => rank b ≤ rank a).take n

variable {rank n rows}

theorem pairwise_top : (top rank n rows).Pairwise fun a b => rank b ≤ rank a := by
  have total : Std.Total fun a b => rank b ≤ rank a := ⟨fun a b => le_total (rank b) (rank a)⟩
  have trans : IsTrans α fun a b => rank b ≤ rank a := ⟨fun _ _ _ first second => second.trans first⟩
  exact (List.pairwise_insertionSort _ rows).sublist (List.take_sublist n _)

theorem mem_of_mem_top {row : α} (member : row ∈ top rank n rows) : row ∈ rows :=
  (List.mem_insertionSort _).mp (List.mem_of_mem_take member)

theorem length_top : (top rank n rows).length = min n rows.length := by
  rw [top, List.length_take, List.length_insertionSort]

/-- What is left out ranks no higher than what is not, and something is left out only when there are
too many rows. -/
theorem rank_le_of_not_mem_top {row : α} (member : row ∈ rows) (out : row ∉ top rank n rows) :
    (top rank n rows).length = n ∧ ∀ other ∈ top rank n rows, rank row ≤ rank other := by
  have total : Std.Total fun a b => rank b ≤ rank a := ⟨fun a b => le_total (rank b) (rank a)⟩
  have trans : IsTrans α fun a b => rank b ≤ rank a := ⟨fun _ _ _ first second => second.trans first⟩
  have sorted := List.pairwise_insertionSort (fun a b => rank b ≤ rank a) rows
  have inSorted := (List.mem_insertionSort fun a b => rank b ≤ rank a).mpr member
  rw [← List.take_append_drop n (rows.insertionSort _)] at sorted inSorted
  have left : row ∈ (rows.insertionSort fun a b => rank b ≤ rank a).drop n :=
    (List.mem_append.mp inSorted).resolve_left out
  constructor
  · have some := List.length_pos_of_mem left
    rw [List.length_drop, List.length_insertionSort] at some
    rw [length_top]
    omega
  · intro other inTop
    exact (List.pairwise_append.mp sorted).2.2 other inTop row left

theorem perm_top (few : rows.length ≤ n) : (top rank n rows).Perm rows := by
  rw [top, List.take_of_length_le (by rwa [List.length_insertionSort])]
  exact List.perm_insertionSort _ rows

theorem nodup_map_top {key : α → κ} (unique : (rows.map key).Nodup) :
    ((top rank n rows).map key).Nodup :=
  ((List.perm_insertionSort _ rows).map key).nodup_iff.mpr unique |>.sublist
    ((List.take_sublist n _).map key)

/-- The sum of a column is no greater over the first rows, and the same if there are not too many. -/
theorem sum_top_le (column : α → ℕ) :
    ((top rank n rows).map column).sum ≤ (rows.map column).sum := by
  have le := ((List.take_sublist n (rows.insertionSort fun a b => rank b ≤ rank a)).map
    column).sum_le_sum fun _ _ => Nat.zero_le _
  rwa [((List.perm_insertionSort _ rows).map column).sum_eq] at le

theorem sum_top (column : α → ℕ) (few : rows.length ≤ n) :
    ((top rank n rows).map column).sum = (rows.map column).sum :=
  ((perm_top few).map column).sum_eq

end Top

/-! ## Counting -/

section Count

variable [DecidableEq κ] (key : α → κ) (rows : List α)

/-- The values of a column with the numbers of their rows. -/
def tally : List (κ × ℕ) := (rows.map key).dedup.map fun k => (k, rows.countP fun row => key row = k)

variable {key rows}

/-- Every row is counted once. -/
theorem sum_tally : ((tally key rows).map Prod.snd).sum = rows.length := by
  have counts : (tally key rows).map Prod.snd =
      (rows.map key).dedup.map fun k => (rows.map key).count k := by
    rw [tally, List.map_map]
    refine List.map_congr_left fun k _ => ?_
    rw [Function.comp_apply, List.count, List.countP_map]
    exact List.countP_congr fun row _ => by simp
  rw [counts, List.sum_map_count_dedup_eq_length, List.length_map]

theorem count_eq_sum (keys : List κ) (k : κ) :
    keys.count k = (keys.map fun other => if decide (some k = some other) = true then 1 else 0).sum := by
  induction keys with
  | nil => rfl
  | cons other keys ih =>
    rw [List.count_cons, List.map_cons, List.sum_cons, ih, Nat.add_comm]
    by_cases same : other = k
    · simp [same]
    · simp [same, Ne.symm same]

/-- Rows that have one of the keys are counted by their keys. -/
theorem sum_countP {keys : List κ} (unique : keys.Nodup) (key : α → Option κ) (rows : List α) :
    (keys.map fun k => rows.countP fun row => key row = some k).sum =
      rows.countP fun row => (key row).any fun k => k ∈ keys := by
  induction rows with
  | nil => simp
  | cons row rows ih =>
    simp only [List.countP_cons, List.sum_map_add, ih]
    congr 1
    cases key row with
    | none => simp
    | some k =>
      rw [Option.any_some, ← count_eq_sum, List.Nodup.count unique]
      simp

end Count

end Store.Ranking
