import UcrashReport.Rust.Language

/-! # The preferred run

Of the runs at a position the first one is the match. A run that takes the preferred branch
everywhere is the first one, as long as what follows it has a run; where a branch fails, the next
one is taken. The rules here are for expressions without groups.
-/

namespace Rust.Regex

variable {isWord : Char → Bool} {before : Option Char} {u v s rest : Text}

/-- The first run takes this part of the text and leaves the rest. -/
def Prefers (isWord : Char → Bool) (re : Regex) (before : Option Char) (taken rest : Text) : Prop :=
  matchAt isWord re before (taken ++ rest) = some ⟨taken, rest, []⟩

/-- There is no run. -/
def Fails (isWord : Char → Bool) (re : Regex) (before : Option Char) (s : Text) : Prop :=
  ∀ m, m ∉ runs isWord re before s

theorem Fails.matchAt_eq_none {re : Regex} (fails : Fails isWord re before s) :
    matchAt isWord re before s = none := by
  rw [matchAt, List.head?_eq_none_iff, List.eq_nil_iff_forall_not_mem]
  exact fails

theorem Fails.runs_eq_nil {re : Regex} (fails : Fails isWord re before s) :
    runs isWord re before s = [] := List.eq_nil_iff_forall_not_mem.mpr fails

theorem Fails.seq_left {first second : Regex} (fails : Fails isWord first before s) :
    Fails isWord (seq first second) before s := by
  intro m member
  obtain ⟨left, inFirst, -⟩ := mem_runs_seq.mp member
  exact fails left inFirst

theorem Prefers.exists_runs {re : Regex} (prefers : Prefers isWord re before u rest) :
    ∃ more, runs isWord re before (u ++ rest) = ⟨u, rest, []⟩ :: more := by
  rw [Prefers, matchAt] at prefers
  exact List.head?_eq_some_iff.mp prefers

/-! ## Sequences -/

theorem runs_seq_assoc (first second third : Regex) (before : Option Char) (s : Text) :
    runs isWord (seq (seq first second) third) before s =
      runs isWord (seq first (seq second third)) before s := by
  simp only [runs]
  rw [List.flatMap_assoc]
  refine List.flatMap_congr fun m _ => ?_
  rw [List.map_flatMap, List.flatMap_map]
  refine List.flatMap_congr fun m' _ => ?_
  rw [List.map_map, Match.andThen, List.getLast?_append, Option.or_assoc]
  exact List.map_congr_left fun m'' _ => Match.andThen_assoc m m' m''

theorem runs_seq_alt (preferred other next : Regex) (before : Option Char) (s : Text) :
    runs isWord (seq (alt preferred other) next) before s =
      runs isWord (alt (seq preferred next) (seq other next)) before s := by
  simp only [runs, List.flatMap_append]

theorem runs_seq_empty (next : Regex) (before : Option Char) (s : Text) :
    runs isWord (seq empty next) before s = runs isWord next before s := by
  have same : Match.andThen ⟨[], s, []⟩ = id := by
    funext m
    simp [Match.andThen]
  simp [runs, same]

namespace Prefers

theorem congr {re other : Regex} (same : ∀ s, runs isWord re before s = runs isWord other before s)
    (here : Prefers isWord other before u rest) : Prefers isWord re before u rest := by
  rwa [Prefers, matchAt, same]

theorem empty : Prefers isWord empty before [] rest := rfl

theorem set {test : Char → Bool} {c : Char} (accepted : test c = true) :
    Prefers isWord (set test) before [c] rest := by
  rw [Prefers, matchAt, List.singleton_append, runs, if_pos accepted]
  rfl

theorem seq {first second : Regex} (left : Prefers isWord first before u (v ++ rest))
    (right : Prefers isWord second (u.getLast?.or before) v rest) :
    Prefers isWord (seq first second) before (u ++ v) rest := by
  obtain ⟨more, runsFirst⟩ := left.exists_runs
  obtain ⟨more', runsSecond⟩ := right.exists_runs
  rw [Prefers, matchAt, List.append_assoc, runs, runsFirst, List.flatMap_cons, runsSecond]
  simp [Match.andThen]

theorem alt_left {preferred other : Regex} (here : Prefers isWord preferred before u rest) :
    Prefers isWord (alt preferred other) before u rest := by
  obtain ⟨more, runsHere⟩ := here.exists_runs
  rw [Prefers, matchAt, runs, runsHere]
  rfl

theorem alt_right {preferred other : Regex} (fails : Fails isWord preferred before (u ++ rest))
    (here : Prefers isWord other before u rest) :
    Prefers isWord (alt preferred other) before u rest := by
  obtain ⟨more, runsHere⟩ := here.exists_runs
  rw [Prefers, matchAt, runs, fails.runs_eq_nil, runsHere]
  rfl

theorem boundary (edge : before.any isWord ≠ rest.head?.any isWord) :
    Prefers isWord boundary before [] rest := by
  rw [Prefers, matchAt, List.nil_append, runs, if_pos edge]
  rfl

end Prefers

/-- More rounds than characters are as good as that many. -/
theorem repeated_of_length_le {inner : Regex} {n : ℕ} (before : Option Char) (s : Text)
    (enough : s.length ≤ n) :
    repeated (runs isWord inner) n before s = repeated (runs isWord inner) s.length before s := by
  induction length : s.length using Nat.strong_induction_on generalizing n before s with
  | _ k ih =>
    subst length
    have shorter (m : Match) (member : m ∈ (runs isWord inner before s).filter (·.taken ≠ [])) :
        m.rest.length < s.length := by
      obtain ⟨inRuns, progress⟩ := List.mem_filter.mp member
      have text := congrArg List.length (runs_spec inner before s m inRuns)
      have positive := List.length_pos_iff.mpr (of_decide_eq_true progress)
      rw [List.length_append] at text
      omega
    have rounds (k : ℕ) (enough : s.length ≤ k + 1) :
        repeated (runs isWord inner) (k + 1) before s =
          ((runs isWord inner before s).filter (·.taken ≠ [])).flatMap (fun m =>
            (repeated (runs isWord inner) m.rest.length (m.taken.getLast?.or before) m.rest).map
              m.andThen) ++ [⟨[], s, []⟩] := by
      rw [repeated]
      congr 1
      refine List.flatMap_congr fun m member => ?_
      have short := shorter m member
      rw [ih m.rest.length short _ _ (by omega) rfl]
    cases n with
    | zero => rw [Nat.le_zero.mp enough]
    | succ n =>
      rw [rounds n enough]
      cases more : s.length with
      | zero =>
        have none : (runs isWord inner before s).filter (·.taken ≠ []) = [] := by
          rw [List.eq_nil_iff_forall_not_mem]
          intro m member
          have := shorter m member
          omega
        rw [none, repeated]
        rfl
      | succ k => rw [rounds k (by omega)]

namespace Prefers

theorem star_nil {inner : Regex} (fails : Fails isWord inner before rest) :
    Prefers isWord (star inner) before [] rest := by
  rw [Prefers, matchAt, List.nil_append, runs]
  cases rest.length with
  | zero => rfl
  | succ n =>
    rw [repeated, fails.runs_eq_nil]
    rfl

theorem star_cons {inner : Regex} (progress : u ≠ [])
    (round : Prefers isWord inner before u (v ++ rest))
    (rounds : Prefers isWord (star inner) (u.getLast?.or before) v rest) :
    Prefers isWord (star inner) before (u ++ v) rest := by
  obtain ⟨more, runsRound⟩ := round.exists_runs
  have positive := List.length_pos_iff.mpr progress
  obtain ⟨n, fuel⟩ : ∃ n, (u ++ v ++ rest).length = n + 1 :=
    ⟨(u ++ v ++ rest).length - 1, by simp only [List.length_append]; omega⟩
  have enough : (v ++ rest).length ≤ n := by
    simp only [List.length_append] at fuel ⊢
    omega
  rw [Prefers, matchAt, runs, fuel, repeated, List.append_assoc, runsRound,
    List.filter_cons_of_pos (by simpa using progress), List.flatMap_cons,
    repeated_of_length_le _ _ enough]
  rw [Prefers, matchAt, runs] at rounds
  obtain ⟨more', runsRounds⟩ := List.head?_eq_some_iff.mp rounds
  rw [runsRounds]
  simp [Match.andThen]

end Prefers

theorem Fails.set {test : Char → Bool} (rejected : ∀ c, s.head? = some c → test c = false) :
    Fails isWord (set test) before s := by
  intro m member
  cases s with
  | nil => simp [runs] at member
  | cons c cs =>
    rw [runs, if_neg (by simp [rejected c rfl])] at member
    contradiction

/-- As many characters as there are, up to a bound. -/
theorem Prefers.upTo_set {test : Char → Bool} {n : ℕ} (accepted : ∀ c ∈ u, test c = true)
    (short : u.length ≤ n) (stops : ∀ c, rest.head? = some c → test c = false) :
    Prefers isWord (upTo n (Regex.set test)) before u rest := by
  induction u generalizing n before with
  | nil =>
    cases n with
    | zero => exact .empty
    | succ n => exact .alt_right (Fails.set stops).seq_left .empty
  | cons c cs ih =>
    cases n with
    | zero => simp at short
    | succ n =>
      rw [List.forall_mem_cons] at accepted
      have first : Prefers isWord (Regex.set test) before [c] (cs ++ rest) := .set accepted.1
      exact .alt_left (first.seq (ih accepted.2 (by simpa using short)))

/-- A text that begins otherwise than every text of an expression. -/
theorem Fails.of_head {re : Regex} {test : Char → Bool}
    (begins : ∀ t, re.Takes t → ∃ c cs, t = c :: cs ∧ test c = true)
    (rejected : ∀ c, s.head? = some c → test c = false) : Fails isWord re before s := by
  intro m member
  obtain ⟨c, cs, taken, accepted⟩ := begins m.taken (takes_of_mem_runs m member)
  have text := runs_spec re before s m member
  rw [taken] at text
  rw [rejected c (by rw [← text]; rfl)] at accepted
  contradiction

namespace Prefers

/-- A round more of a bounded repetition. -/
theorem seq_upTo_succ {inner next : Regex} {n : ℕ}
    (here : Prefers isWord (Regex.seq inner (Regex.seq (upTo n inner) next)) before u rest) :
    Prefers isWord (Regex.seq (upTo (n + 1) inner) next) before u rest := by
  obtain ⟨more, runsHere⟩ := here.exists_runs
  rw [Prefers, matchAt, upTo, opt, runs_seq_alt, runs, runs_seq_assoc, runsHere]
  rfl

/-- No round more. -/
theorem seq_upTo_of_fails {inner next : Regex} {n : ℕ}
    (fails : Fails isWord (Regex.seq inner (Regex.seq (upTo n inner) next)) before (u ++ rest))
    (here : Prefers isWord next before u rest) :
    Prefers isWord (Regex.seq (upTo (n + 1) inner) next) before u rest := by
  obtain ⟨more, runsHere⟩ := here.exists_runs
  rw [Prefers, matchAt, upTo, opt, runs_seq_alt, runs, runs_seq_assoc, fails.runs_eq_nil,
    runs_seq_empty, runsHere]
  rfl

/-- As many rounds as parts, and what follows them. -/
theorem seq_times {inner next : Regex} {parts : List Text} {n : ℕ} (length : parts.length = n)
    (rounds : ∀ before rest, ∀ part ∈ parts, Prefers isWord inner before part rest)
    (here : ∀ before, Prefers isWord next before v rest) (before : Option Char) :
    Prefers isWord (Regex.seq (times n inner) next) before (parts.flatten ++ v) rest := by
  induction parts generalizing n before with
  | nil =>
    subst length
    exact (here before).congr (runs_seq_empty next before)
  | cons part parts ih =>
    subst length
    have later := fun before => ih rfl
      (fun before rest other member => rounds before rest other (.tail part member)) before
    rw [List.flatten_cons, List.append_assoc]
    refine Prefers.congr (runs_seq_assoc inner (times parts.length inner) next before) ?_
    exact (rounds before _ part List.mem_cons_self).seq (later _)

/-- What begins and ends at boundaries. -/
theorem bounded {parts : List Regex} (opens : before.any isWord ≠ (u ++ rest).head?.any isWord)
    (here : Prefers isWord (sequence (parts ++ [Regex.boundary])) before u rest) :
    Prefers isWord (bounded parts) before u rest := by
  have opened : Prefers isWord Regex.boundary before [] (u ++ rest) := .boundary opens
  exact opened.seq here

end Prefers

end Rust.Regex
