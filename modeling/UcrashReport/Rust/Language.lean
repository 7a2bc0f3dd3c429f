import UcrashReport.Rust.Fields
import UcrashReport.Rust.Regex
import Mathlib.Data.List.Forall2

/-! # What expressions take and prefer

Apart from its boundaries an expression is a set of texts. A run takes one of them, and where there
are no boundaries every one that the text begins with is taken by some run. Which of the runs comes
first is found by following the preferred parts.
-/

namespace Rust.Regex

open Rust.Text

variable {isWord : Char → Bool}

/-! ## The texts of an expression -/

/-- The texts that an expression takes where its boundaries allow it. -/
def Takes : Regex → Text → Prop
  | empty, t => t = []
  | set test, t => ∃ c, test c = true ∧ t = [c]
  | seq first second, t => ∃ u v, Takes first u ∧ Takes second v ∧ t = u ++ v
  | alt preferred other, t => Takes preferred t ∨ Takes other t
  | star inner, t => ∃ parts : List Text, (∀ part ∈ parts, Takes inner part) ∧ t = parts.flatten
  | boundary, t => t = []
  | group _ inner, t => Takes inner t

theorem takes_of_mem_runs {re : Regex} {before : Option Char} {s : Text} :
    ∀ m ∈ runs isWord re before s, re.Takes m.taken := by
  induction re generalizing before s with
  | empty => simp [runs, Takes]
  | set test =>
    intro m member
    cases s with
    | nil => simp [runs] at member
    | cons c cs =>
      rw [runs] at member
      split_ifs at member with accepted
      · rw [List.mem_singleton] at member
        subst member
        exact ⟨c, accepted, rfl⟩
      · simp at member
  | seq first second ihFirst ihSecond =>
    intro m member
    obtain ⟨left, inFirst, right, inSecond, taken⟩ := taken_seq member
    exact ⟨_, _, ihFirst left inFirst, ihSecond right inSecond, taken⟩
  | alt preferred other ihPreferred ihOther =>
    intro m member
    rw [runs, List.mem_append] at member
    exact member.imp (ihPreferred m) (ihOther m)
  | star inner ih =>
    refine @forall_mem_repeated _ (fun m => (star inner).Takes m.taken) ?_ ?_ ?_ s.length before s
    · exact fun s => ⟨[], by simp, rfl⟩
    · rintro first second ⟨parts, inner, left⟩ ⟨parts', inner', right⟩
      refine ⟨parts ++ parts', fun part member => ?_, by simp [Match.andThen, left, right]⟩
      exact (List.mem_append.mp member).elim (inner part) (inner' part)
    · exact fun before s m member => ⟨[m.taken], by simpa using ih m member, by simp⟩
  | boundary =>
    intro m member
    rw [runs] at member
    split_ifs at member
    · simp_all [Takes]
    · simp at member
  | group index inner ih =>
    intro m member
    rw [runs, List.mem_map] at member
    obtain ⟨m', member, rfl⟩ := member
    exact ih m' member

/-- An expression without boundaries. -/
def Unbounded : Regex → Prop
  | empty | set _ => True
  | seq first second => Unbounded first ∧ Unbounded second
  | alt preferred other => Unbounded preferred ∧ Unbounded other
  | star inner => Unbounded inner
  | boundary => False
  | group _ inner => Unbounded inner

theorem mem_runs_of_takes {re : Regex} (unbounded : re.Unbounded) {t : Text} (takes : re.Takes t)
    (before : Option Char) (rest : Text) :
    ∃ m ∈ runs isWord re before (t ++ rest), m.taken = t ∧ m.rest = rest := by
  induction re generalizing before t rest with
  | empty => exact ⟨⟨[], rest, []⟩, by simp [runs, show t = [] from takes], takes.symm, rfl⟩
  | set test =>
    obtain ⟨c, accepted, rfl⟩ := takes
    exact ⟨⟨[c], rest, []⟩, by simp [runs, accepted], rfl, rfl⟩
  | seq first second ihFirst ihSecond =>
    obtain ⟨u, v, left, right, rfl⟩ := takes
    obtain ⟨m, inFirst, rfl, same⟩ := ihFirst unbounded.1 left before (v ++ rest)
    obtain ⟨m', inSecond, rfl, rfl⟩ := ihSecond unbounded.2 right (m.taken.getLast?.or before) rest
    rw [← List.append_assoc] at inFirst
    exact ⟨m.andThen m', mem_runs_seq.mpr ⟨m, inFirst, m', same ▸ inSecond, rfl⟩, rfl, rfl⟩
  | alt preferred other ihPreferred ihOther =>
    rcases takes with takes | takes
    · obtain ⟨m, member, same⟩ := ihPreferred unbounded.1 takes before rest
      exact ⟨m, List.mem_append_left _ member, same⟩
    · obtain ⟨m, member, same⟩ := ihOther unbounded.2 takes before rest
      exact ⟨m, List.mem_append_right _ member, same⟩
  | star inner ih =>
    obtain ⟨parts, inner', rfl⟩ := takes
    have rounds : ∀ (parts : List Text), (∀ part ∈ parts, inner.Takes part) →
        ∀ (n : ℕ) (before : Option Char), parts.flatten.length ≤ n →
        ∃ m ∈ repeated (runs isWord inner) n before (parts.flatten ++ rest),
          m.taken = parts.flatten ∧ m.rest = rest := by
      intro parts
      induction parts with
      | nil =>
        intro _ n before _
        refine ⟨⟨[], rest, []⟩, ?_, rfl, rfl⟩
        cases n <;> simp [repeated]
      | cons part parts ihParts =>
        intro all n before fuel
        have later := ihParts fun other member => all other (.tail part member)
        rw [List.flatten_cons, List.length_append] at fuel
        rcases eq_or_ne part [] with rfl | progress
        · exact later n before (by simpa using fuel)
        · have positive := List.length_pos_iff.mpr progress
          obtain ⟨n, rfl⟩ : ∃ n', n = n' + 1 := ⟨n - 1, by omega⟩
          obtain ⟨m, member, rfl, same⟩ :=
            ih unbounded (all part List.mem_cons_self) before (parts.flatten ++ rest)
          obtain ⟨m', member', taken, rfl⟩ := later n (m.taken.getLast?.or before) (by omega)
          refine ⟨m.andThen m', ?_, by simp [Match.andThen, taken], rfl⟩
          rw [List.flatten_cons, List.append_assoc, repeated, List.mem_append, List.mem_flatMap]
          refine .inl ⟨m, List.mem_filter.mpr ⟨member, by simpa using progress⟩, ?_⟩
          exact List.mem_map_of_mem (same ▸ member')
    exact rounds parts inner' _ before (by simp)
  | boundary => exact unbounded.elim
  | group index inner ih =>
    obtain ⟨m, member, taken, same⟩ := ih unbounded takes before rest
    exact ⟨{ m with groups := m.groups ++ [(index, m.taken)] }, List.mem_map_of_mem member, taken,
      same⟩

/-! ## Derived expressions -/

theorem takes_char {c : Char} {t : Text} : (char c).Takes t ↔ t = [c] := by
  simp [char, Takes]

theorem takes_opt {inner : Regex} {t : Text} : (opt inner).Takes t ↔ inner.Takes t ∨ t = [] :=
  Iff.rfl

theorem takes_times {inner : Regex} {n : ℕ} {t : Text} :
    (times n inner).Takes t ↔ ∃ parts : List Text, parts.length = n ∧
      (∀ part ∈ parts, inner.Takes part) ∧ t = parts.flatten := by
  induction n generalizing t with
  | zero => simp [times, Takes, List.length_eq_zero_iff]
  | succ n ih =>
    rw [times, Takes]
    constructor
    · rintro ⟨u, v, first, rest, rfl⟩
      obtain ⟨parts, length, all, rfl⟩ := ih.mp rest
      exact ⟨u :: parts, by simp [length], by simpa using ⟨first, all⟩, rfl⟩
    · rintro ⟨parts, length, all, rfl⟩
      cases parts with
      | nil => simp at length
      | cons part parts =>
        refine ⟨part, parts.flatten, all part List.mem_cons_self, ih.mpr ?_, rfl⟩
        exact ⟨parts, by simpa using length, fun other member => all other (.tail part member), rfl⟩

theorem takes_upTo {inner : Regex} {n : ℕ} {t : Text} :
    (upTo n inner).Takes t ↔ ∃ parts : List Text, parts.length ≤ n ∧
      (∀ part ∈ parts, inner.Takes part) ∧ t = parts.flatten := by
  induction n generalizing t with
  | zero => simp [upTo, Takes, List.length_eq_zero_iff]
  | succ n ih =>
    rw [upTo, takes_opt, Takes]
    constructor
    · rintro (⟨u, v, first, rest, rfl⟩ | rfl)
      · obtain ⟨parts, length, all, rfl⟩ := ih.mp rest
        exact ⟨u :: parts, by simp [length], by simpa using ⟨first, all⟩, rfl⟩
      · exact ⟨[], by simp, by simp, rfl⟩
    · rintro ⟨parts, length, all, rfl⟩
      cases parts with
      | nil => exact .inr rfl
      | cons part parts =>
        refine .inl ⟨part, parts.flatten, all part List.mem_cons_self, ih.mpr ?_, rfl⟩
        exact ⟨parts, by simpa using length, fun other member => all other (.tail part member), rfl⟩

theorem takes_between {inner : Regex} {least most : ℕ} (order : least ≤ most) {t : Text} :
    (between least most inner).Takes t ↔ ∃ parts : List Text, least ≤ parts.length ∧
      parts.length ≤ most ∧ (∀ part ∈ parts, inner.Takes part) ∧ t = parts.flatten := by
  rw [between, Takes]
  constructor
  · rintro ⟨u, v, first, rest, rfl⟩
    obtain ⟨parts, length, all, rfl⟩ := takes_times.mp first
    obtain ⟨parts', length', all', rfl⟩ := takes_upTo.mp rest
    refine ⟨parts ++ parts', by simp; omega, by simp; omega, fun part member => ?_, by simp⟩
    exact (List.mem_append.mp member).elim (all part) (all' part)
  · rintro ⟨parts, atLeast, atMost, all, rfl⟩
    refine ⟨(parts.take least).flatten, (parts.drop least).flatten, takes_times.mpr ?_,
      takes_upTo.mpr ?_, by rw [← List.flatten_append, List.take_append_drop]⟩
    · exact ⟨_, by rw [List.length_take]; omega,
        fun part member => all part (List.mem_of_mem_take member), rfl⟩
    · exact ⟨_, by simp; omega, fun part member => all part (List.mem_of_mem_drop member), rfl⟩

/-- Repetitions of a set are the texts of this length over it. -/
theorem exists_parts_iff {test : Char → Bool} {t : Text} (length : ℕ → Prop) :
    (∃ parts : List Text, length parts.length ∧ (∀ part ∈ parts, (set test).Takes part) ∧
      t = parts.flatten) ↔ length t.length ∧ ∀ c ∈ t, test c = true := by
  have flat : ∀ parts : List Text, (∀ part ∈ parts, (set test).Takes part) →
      parts.flatten.length = parts.length ∧ ∀ c ∈ parts.flatten, test c = true := by
    intro parts
    induction parts with
    | nil => simp
    | cons part parts ih =>
      intro all
      obtain ⟨c, accepted, rfl⟩ := all _ List.mem_cons_self
      obtain ⟨same, inSet⟩ := ih fun other member => all other (.tail _ member)
      refine ⟨by simp [← same], fun d member => ?_⟩
      rcases List.mem_cons.mp member with rfl | later
      · exact accepted
      · exact inSet d later
  constructor
  · rintro ⟨parts, fits, all, rfl⟩
    obtain ⟨same, inSet⟩ := flat parts all
    exact ⟨same ▸ fits, inSet⟩
  · rintro ⟨fits, all⟩
    have singles : ∀ t : Text, t = (t.map fun c => [c]).flatten := by
      intro t
      induction t with
      | nil => rfl
      | cons c cs ih => exact congrArg (c :: ·) ih
    refine ⟨t.map fun c => [c], by simpa using fits, ?_, singles t⟩
    intro part member
    obtain ⟨c, inText, rfl⟩ := List.mem_map.mp member
    exact ⟨c, all c inText, rfl⟩

theorem takes_times_set {test : Char → Bool} {n : ℕ} {t : Text} :
    (times n (set test)).Takes t ↔ t.length = n ∧ ∀ c ∈ t, test c = true :=
  takes_times.trans (exists_parts_iff (· = n))

theorem takes_between_set {test : Char → Bool} {least most : ℕ} (order : least ≤ most) {t : Text} :
    (between least most (set test)).Takes t ↔
      (least ≤ t.length ∧ t.length ≤ most) ∧ ∀ c ∈ t, test c = true := by
  rw [takes_between order, ← exists_parts_iff fun n => least ≤ n ∧ n ≤ most]
  simp only [and_assoc]

/-- Expressions with a separator between them take the fields that they take one by one. -/
theorem takes_sequence_intersperse {c : Char} {res : List Regex} {t : Text} :
    (sequence (res.intersperse (char c))).Takes t ↔
      ∃ fields, List.Forall₂ Takes res fields ∧ t = join c fields := by
  induction res generalizing t with
  | nil => simp [sequence, Takes]
  | cons re res ih =>
    cases res with
    | nil =>
      change (seq re empty).Takes t ↔ _
      simp [Takes, List.forall₂_cons_left_iff]
    | cons other res =>
      change (seq re (seq (char c) (sequence ((other :: res).intersperse (char c))))).Takes t ↔ _
      simp only [Takes, ih, takes_char]
      constructor
      · rintro ⟨u, _, first, ⟨_, _, rfl, ⟨fields, rest, rfl⟩, rfl⟩, rfl⟩
        refine ⟨u :: fields, .cons first rest, ?_⟩
        cases rest with
        | cons => simp
      · rintro ⟨fields, all, rfl⟩
        cases all with
        | @cons _ field _ fields first rest =>
          refine ⟨field, c :: join c fields, first, ⟨[c], _, rfl, ⟨fields, rest, rfl⟩, rfl⟩, ?_⟩
          cases rest with
          | cons => simp

theorem takes_group {index : ℕ} {inner : Regex} {t : Text} :
    (group index inner).Takes t ↔ inner.Takes t := Iff.rfl

theorem takes_plus_set {test : Char → Bool} {t : Text} :
    (plus (set test)).Takes t ↔ t ≠ [] ∧ ∀ c ∈ t, test c = true := by
  have star_iff {t : Text} : (star (set test)).Takes t ↔ ∀ c ∈ t, test c = true := by
    have parts := @exists_parts_iff test t fun _ => True
    simpa [Takes] using parts
  constructor
  · rintro ⟨u, v, ⟨c, accepted, rfl⟩, rest, rfl⟩
    refine ⟨by simp, ?_⟩
    simpa [accepted] using star_iff.mp rest
  · rintro ⟨nonempty, all⟩
    cases t with
    | nil => contradiction
    | cons c cs =>
      refine ⟨[c], cs, ⟨c, all c List.mem_cons_self, rfl⟩, star_iff.mpr ?_, rfl⟩
      exact fun d member => all d (List.mem_cons_of_mem c member)

/-! ## Boundaries at both ends -/

theorem Match.andThen_assoc (first second third : Match) :
    (first.andThen second).andThen third = first.andThen (second.andThen third) := by
  simp [Match.andThen]

/-- The runs of two sequences are those of the first, each followed by those of the second. -/
theorem runs_sequence_append (first second : List Regex) (before : Option Char) (s : Text) :
    runs isWord (sequence (first ++ second)) before s =
      (runs isWord (sequence first) before s).flatMap fun m =>
        (runs isWord (sequence second) (m.taken.getLast?.or before) m.rest).map m.andThen := by
  induction first generalizing before s with
  | nil =>
    have neutral : Match.andThen ⟨[], s, []⟩ = id := by
      funext m
      simp [Match.andThen]
    simp [sequence, runs, neutral]
  | cons re first ih =>
    change runs isWord (seq re (sequence (first ++ second))) before s =
      (runs isWord (seq re (sequence first)) before s).flatMap _
    rw [runs, runs, List.flatMap_assoc]
    refine List.flatMap_congr fun m _ => ?_
    rw [ih, List.map_flatMap, List.flatMap_map]
    refine List.flatMap_congr fun m' _ => ?_
    rw [List.map_map, Match.andThen, List.getLast?_append, Option.or_assoc]
    exact List.map_congr_left fun m'' _ => (Match.andThen_assoc m m' m'').symm

/-- A run of two sequences is a run of the first and one of the second. -/
theorem mem_runs_sequence_append {first second : List Regex} {before : Option Char} {s : Text}
    {m : Match} :
    m ∈ runs isWord (sequence (first ++ second)) before s ↔
      ∃ left ∈ runs isWord (sequence first) before s,
        ∃ right ∈ runs isWord (sequence second) (left.taken.getLast?.or before) left.rest,
          left.andThen right = m := by
  rw [runs_sequence_append]
  simp

/-- A match, and after it one of an expression that may be absent. -/
def Match.attach (isWord : Char → Bool) (re : Regex) (before : Option Char) (m : Match) : Match :=
  m.andThen ((matchAt isWord re (m.taken.getLast?.or before) m.rest).getD ⟨[], m.rest, []⟩)

/-- An optional last part never gives up a match of the parts before it. -/
theorem matchAt_sequence_opt (parts : List Regex) (re : Regex) (before : Option Char) (s : Text) :
    matchAt isWord (sequence (parts ++ [opt re])) before s =
      (matchAt isWord (sequence parts) before s).map (Match.attach isWord re before) := by
  have last (before : Option Char) (s : Text) :
      (runs isWord (sequence [opt re]) before s).head? =
        some ((matchAt isWord re before s).getD ⟨[], s, []⟩) := by
    have whole (m : Match) : m.andThen ⟨[], m.rest, []⟩ = m := by simp [Match.andThen]
    have runs_eq : runs isWord (sequence [opt re]) before s =
        runs isWord re before s ++ [⟨[], s, []⟩] := by
      change runs isWord (seq (alt re empty) empty) before s = _
      simp [runs, whole]
    rw [runs_eq, List.head?_append, matchAt]
    cases (runs isWord re before s).head? <;> rfl
  rw [matchAt, runs_sequence_append, List.head?_flatMap]
  have each (m : Match) : ((runs isWord (sequence [opt re]) (m.taken.getLast?.or before) m.rest).map
      m.andThen).head? = some (Match.attach isWord re before m) := by
    rw [List.head?_map, last]
    rfl
  simp only [each]
  rw [matchAt]
  cases runs isWord (sequence parts) before s <;> rfl

/-- A sequence between two boundaries. -/
def bounded (parts : List Regex) : Regex := sequence (boundary :: (parts ++ [boundary]))

theorem takes_bounded {parts : List Regex} {t : Text} :
    (bounded parts).Takes t ↔ (sequence parts).Takes t := by
  have last {t : Text} :
      (sequence (parts ++ [boundary])).Takes t ↔ (sequence parts).Takes t := by
    induction parts generalizing t with
    | nil =>
      change (seq boundary empty).Takes t ↔ empty.Takes t
      simp [Takes]
    | cons re parts ih =>
      change (seq re (sequence (parts ++ [boundary]))).Takes t ↔ (seq re (sequence parts)).Takes t
      simp only [Takes, ih]
  change (seq boundary (sequence (parts ++ [boundary]))).Takes t ↔ _
  simp only [Takes, last]
  simp

theorem mem_runs_bounded {parts : List Regex} {before : Option Char} {s : Text} {m : Match} :
    m ∈ runs isWord (bounded parts) before s ↔
      before.any isWord ≠ s.head?.any isWord ∧ m ∈ runs isWord (sequence parts) before s ∧
        (m.taken.getLast?.or before).any isWord ≠ m.rest.head?.any isWord := by
  change m ∈ runs isWord (seq boundary (sequence (parts ++ [boundary]))) before s ↔ _
  rw [mem_runs_seq]
  have one (before : Option Char) (s : Text) (m : Match) :
      m ∈ runs isWord boundary before s ↔
        before.any isWord ≠ s.head?.any isWord ∧ m = ⟨[], s, []⟩ := by
    rw [runs]
    split_ifs with here <;> simp_all
  have last (before : Option Char) (s : Text) (m : Match) :
      m ∈ runs isWord (sequence [boundary]) before s ↔
        before.any isWord ≠ s.head?.any isWord ∧ m = ⟨[], s, []⟩ := by
    change m ∈ runs isWord (seq boundary empty) before s ↔ _
    rw [mem_runs_seq, ← one]
    simp only [one]
    simp [runs, Match.andThen, eq_comm]
  constructor
  · rintro ⟨first, inFirst, second, inSecond, rfl⟩
    obtain ⟨opens, rfl⟩ := (one _ _ _).mp inFirst
    obtain ⟨middle, inMiddle, third, inThird, rfl⟩ := mem_runs_sequence_append.mp inSecond
    obtain ⟨closes, rfl⟩ := (last _ _ _).mp inThird
    refine ⟨opens, ?_, ?_⟩
    · simpa [Match.andThen] using inMiddle
    · simpa [Match.andThen] using closes
  · rintro ⟨opens, inMiddle, closes⟩
    refine ⟨⟨[], s, []⟩, (one _ _ _).mpr ⟨opens, rfl⟩, m, ?_, by simp [Match.andThen]⟩
    refine mem_runs_sequence_append.mpr ⟨m, by simpa using inMiddle, ⟨[], m.rest, []⟩, ?_, ?_⟩
    · exact (last _ _ _).mpr ⟨by simpa using closes, rfl⟩
    · simp [Match.andThen]

/-- What lies between two boundaries is taken where there are boundaries. -/
theorem exists_mem_runs_bounded {parts : List Regex} (unbounded : (sequence parts).Unbounded)
    {t rest : Text} {before : Option Char} (takes : (sequence parts).Takes t)
    (opens : before.any isWord ≠ (t ++ rest).head?.any isWord)
    (closes : (t.getLast?.or before).any isWord ≠ rest.head?.any isWord) :
    ∃ m ∈ runs isWord (bounded parts) before (t ++ rest), m.taken = t := by
  obtain ⟨m, member, taken, same⟩ := mem_runs_of_takes unbounded takes before rest
  refine ⟨m, mem_runs_bounded.mpr ⟨opens, member, ?_⟩, taken⟩
  rwa [taken, same]

/-! ## Groups -/

def Ungrouped : Regex → Prop
  | empty | set _ | boundary => True
  | seq first second => Ungrouped first ∧ Ungrouped second
  | alt preferred other => Ungrouped preferred ∧ Ungrouped other
  | star inner => Ungrouped inner
  | group _ _ => False

theorem groups_eq_nil {re : Regex} (ungrouped : re.Ungrouped) {before : Option Char} {s : Text} :
    ∀ m ∈ runs isWord re before s, m.groups = [] := by
  induction re generalizing before s with
  | empty => simp [runs]
  | set test =>
    intro m member
    cases s with
    | nil => simp [runs] at member
    | cons c cs =>
      rw [runs] at member
      split_ifs at member <;> simp_all
  | seq first second ihFirst ihSecond =>
    intro m member
    obtain ⟨left, inFirst, right, inSecond, rfl⟩ := mem_runs_seq.mp member
    simp [Match.andThen, ihFirst ungrouped.1 left inFirst, ihSecond ungrouped.2 right inSecond]
  | alt preferred other ihPreferred ihOther =>
    intro m member
    rw [runs, List.mem_append] at member
    exact member.elim (ihPreferred ungrouped.1 m) (ihOther ungrouped.2 m)
  | star inner ih =>
    refine @forall_mem_repeated _ (fun m => m.groups = []) (by simp) ?_ ?_ s.length before s
    · intro first second left right
      simp [Match.andThen, left, right]
    · exact fun before s => ih ungrouped
  | boundary =>
    intro m member
    rw [runs] at member
    split_ifs at member <;> simp_all
  | group index inner => exact ungrouped.elim

/-! ## Texts without matches -/

/-- A text that nothing in it is taken from is kept. -/
theorem replaceFrom_of_no_infix {re : Regex} {new : Match → Text} {s : Text}
    (untaken : ∀ t, t <:+: s → ¬ re.Takes t) (before : Option Char) :
    replaceFrom isWord re new 0 before s = s := by
  induction s generalizing before with
  | nil => rfl
  | cons c cs ih =>
    have here : matchAt isWord re before (c :: cs) = none := by
      rw [matchAt, List.head?_eq_none_iff, List.eq_nil_iff_forall_not_mem]
      intro m member
      have text := runs_spec re before (c :: cs) m member
      exact untaken m.taken ⟨[], m.rest, text⟩ (takes_of_mem_runs m member)
    rw [replaceFrom_of_matchAt_none here, ih fun t inside => untaken t (inside.trans ?_)]
    exact (List.suffix_cons c cs).isInfix

/-! ## Boundaries between fields -/

section Words

variable {sep : Char} {before : Option Char} {fields : List Text} {part : Text}

/-- Where no word goes on, a part of a word that was cut off is empty. -/
theorem opens_field (words : ∀ c ∈ part, isWord c = true)
    (opens : ((ended sep fields ++ part).getLast?.or before).any isWord = false) :
    part = [] ∧ (fields = [] → before.any isWord = false) := by
  cases last : part.getLast? with
  | some c =>
    rw [List.getLast?_append, last] at opens
    rw [Option.some_or, Option.some_or, Option.any_some, words c (List.mem_of_getLast? last)]
      at opens
    contradiction
  | none =>
    obtain rfl := List.getLast?_eq_none_iff.mp last
    refine ⟨rfl, ?_⟩
    rintro rfl
    exact opens

theorem closes_field {tail : Text} (words : ∀ c ∈ part, isWord c = true)
    (closes : ((part ++ begun sep fields) ++ tail).head?.any isWord = false) :
    part = [] ∧ (fields = [] → tail.head?.any isWord = false) := by
  cases part with
  | cons c cs =>
    have word := words c List.mem_cons_self
    simp [word] at closes
  | nil =>
    refine ⟨rfl, ?_⟩
    rintro rfl
    exact closes

theorem getLast?_join_append {first : Text} {middle : List Text} {last : Text} :
    (join sep (first :: (middle ++ [last]))).getLast? = last.getLast?.or (some sep) := by
  rw [← List.cons_append, ← ended_append_join, join_singleton, List.getLast?_append]
  cases last.getLast? with
  | some c => rfl
  | none =>
    obtain ⟨before, other, same⟩ := List.eq_nil_or_concat (first :: middle) |>.resolve_left (by simp)
    rw [Option.none_or, Option.none_or, same, ended, List.concat_eq_append, List.flatMap_append]
    simp

/-- Fields of words begin and end with a word, when the outer ones are not empty. -/
theorem word_of_join (words : ∀ field ∈ fields, ∀ c ∈ field, isWord c = true)
    (nonempty : fields ≠ []) (filled : ∀ field ∈ fields, field ≠ []) (before : Option Char)
    (tail : Text) :
    (join sep fields ++ tail).head?.any isWord = true ∧
      ((join sep fields).getLast?.or before).any isWord = true := by
  constructor
  · cases fields with
    | nil => contradiction
    | cons first fields =>
      cases first with
      | nil => exact absurd rfl (filled [] List.mem_cons_self)
      | cons c cs =>
        rw [join_cons]
        exact words (c :: cs) List.mem_cons_self c List.mem_cons_self
  · obtain ⟨fields, last, rfl⟩ := (List.eq_nil_or_concat fields).resolve_left nonempty
    rw [List.concat_eq_append] at words filled ⊢
    have notEmpty := filled last (by simp)
    rw [← ended_append_join, join_singleton, List.getLast?_append,
      List.getLast?_eq_some_getLast notEmpty]
    exact words last (by simp) _ (List.getLast_mem notEmpty)

/-- A run between boundaries that takes fields, the first one of which is not empty, begins with a
whole field of a text of words. It ends with a whole field, unless its last field is empty; then a
word begins after it. -/
theorem fields_of_run {parts : List Regex} {u v tail first last : Text} {middle : List Text} {m : Match}
    (nonempty : fields ≠ []) (free : Free sep fields) (noWord : isWord sep = false)
    (words : ∀ field ∈ fields, ∀ c ∈ field, isWord c = true)
    (freeFirst : sep ∉ first) (freeMiddle : Free sep middle) (freeLast : sep ∉ last)
    (starts : first ≠ []) (same : join sep fields = u ++ v)
    (inRuns : m ∈ runs isWord (bounded parts) (u.getLast?.or before) (v ++ tail))
    (inside : m.taken <+: v) (taken : m.taken = join sep (first :: (middle ++ [last]))) :
    ∃ pre b post, u = ended sep pre ∧ v = m.taken ++ (b ++ begun sep post) ∧
      fields = pre ++ first :: (middle ++ (last ++ b) :: post) ∧
      (pre = [] → before.any isWord = false) ∧
      (last ≠ [] → b = [] ∧ (post = [] → tail.head?.any isWord = false)) ∧
      (last = [] → ((b ++ begun sep post) ++ tail).head?.any isWord = true) := by
  obtain ⟨w, rfl⟩ := inside
  obtain ⟨opens, -, closes⟩ := mem_runs_bounded.mp inRuns
  have text := runs_spec _ _ _ m inRuns
  rw [List.append_assoc, List.append_cancel_left_eq] at text
  rw [taken] at same
  obtain ⟨pre, a, b, post, rfl, rfl, split⟩ :=
    fields_of_infix nonempty free freeFirst freeMiddle freeLast same
  have wordsFirst : ∀ c ∈ a ++ first, isWord c = true := words _ (by simp [split])
  have wordsLast : ∀ c ∈ last ++ b, isWord c = true := words _ (by simp [split])
  have head : (m.taken ++ (b ++ begun sep post) ++ tail).head?.any isWord = true := by
    cases first with
    | nil => contradiction
    | cons c cs =>
      rw [taken, join_cons]
      simp [wordsFirst c (by simp)]
  rw [head, ne_eq, Bool.not_eq_true] at opens
  obtain ⟨rfl, outer⟩ := opens_field (fun c member => wordsFirst c (by simp [member])) opens
  refine ⟨pre, b, post, by simp, rfl, by simpa using split, outer, fun nonempty => ?_, ?_⟩
  · have word : (m.taken.getLast?.or ((ended sep pre ++ []).getLast?.or before)).any isWord = true := by
      rw [taken, getLast?_join_append, List.getLast?_eq_some_getLast nonempty]
      exact wordsLast _ (List.mem_append_left b (List.getLast_mem nonempty))
    rw [word, text] at closes
    exact closes_field (fun c member => wordsLast c (by simp [member])) (by simpa using closes.symm)
  · rintro rfl
    have separator :
        (m.taken.getLast?.or ((ended sep pre ++ []).getLast?.or before)).any isWord = false := by
      rw [taken, getLast?_join_append]
      exact noWord
    rw [separator, text] at closes
    simpa using closes.symm

end Words

end Rust.Regex
