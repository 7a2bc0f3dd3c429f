import UcrashReport.Rust.Text

/-! # Regular expressions

Backtracking regular expressions with the preference of Perl: the runs of an expression at a
position are listed in the order in which they are preferred, and the first one is its match there.
Which characters belong to words is a parameter, as it depends on the version of Unicode.

A character that an expression can neither match nor take for a part of a word separates a text:
what is found on one side of it does not depend on the other side.
-/

namespace Rust

open Rust.Text

inductive Regex
  | empty
  | set (test : Char → Bool)
  | seq (first second : Regex)
  | alt (preferred other : Regex)
  | star (inner : Regex)
  | boundary
  | group (index : ℕ) (inner : Regex)

/-- The classes that expressions name by an escape, as far as ASCII fixes them. -/
structure CharClasses where
  isWord : Char → Bool
  isDigit : Char → Bool
  isWord_ascii : ∀ c, c.toNat < 128 → isWord c = (isAsciiAlphanumeric c || c == '_')
  isDigit_ascii : ∀ c, c.toNat < 128 → isDigit c = isAsciiDigit c

def CharClasses.ascii : CharClasses where
  isWord c := isAsciiAlphanumeric c || c == '_'
  isDigit := isAsciiDigit
  isWord_ascii _ _ := rfl
  isDigit_ascii _ _ := rfl

theorem CharClasses.isWord_of_isAsciiAlphanumeric (classes : CharClasses) {c : Char}
    (alphanumeric : isAsciiAlphanumeric c = true) : classes.isWord c = true := by
  have isAscii : c.toNat < 128 := by
    simp only [isAsciiAlphanumeric, isAsciiDigit, Bool.or_eq_true, Bool.and_eq_true,
      decide_eq_true_eq] at alphanumeric
    omega
  rw [classes.isWord_ascii c isAscii, alphanumeric, Bool.true_or]

theorem CharClasses.isWord_of_isAsciiHexdigit (classes : CharClasses) {c : Char}
    (hexdigit : isAsciiHexdigit c = true) : classes.isWord c = true := by
  apply classes.isWord_of_isAsciiAlphanumeric
  simp only [isAsciiHexdigit, isAsciiAlphanumeric, isAsciiDigit, Bool.or_eq_true,
    Bool.and_eq_true, decide_eq_true_eq] at hexdigit ⊢
  omega

namespace Regex

/-- A run of an expression: what it takes of the text, what it leaves, and its groups. -/
structure Match where
  taken : Text
  rest : Text
  groups : List (ℕ × Text) := []
deriving DecidableEq, Repr

namespace Match

def andThen (first second : Match) : Match where
  taken := first.taken ++ second.taken
  rest := second.rest
  groups := first.groups ++ second.groups

/-- The text of a group; `[]` when it took no part in the match. -/
def group (m : Match) (index : ℕ) : Text := ((m.groups.lookup index).getD [])

def extend (tail : Text) (m : Match) : Match := { m with rest := m.rest ++ tail }

end Match

/-! ## Derived expressions -/

def char (c : Char) : Regex := set (· == c)

def range (first last : Char) : Regex :=
  set fun c => first.toNat ≤ c.toNat && c.toNat ≤ last.toNat

def literal : Text → Regex
  | [] => empty
  | c :: cs => seq (char c) (literal cs)

def sequence (parts : List Regex) : Regex := parts.foldr seq empty

def opt (inner : Regex) : Regex := alt inner empty

def plus (inner : Regex) : Regex := seq inner (star inner)

def times : ℕ → Regex → Regex
  | 0, _ => empty
  | n + 1, inner => seq inner (times n inner)

def upTo : ℕ → Regex → Regex
  | 0, _ => empty
  | n + 1, inner => opt (seq inner (upTo n inner))

/-- `inner{least,most}`, as many as possible. -/
def between (least most : ℕ) (inner : Regex) : Regex :=
  seq (times least inner) (upTo (most - least) inner)

/-! ## Runs -/

/-- The repetitions of a step, longest first; a round that takes nothing does not count. -/
def repeated (step : Option Char → Text → List Match) : ℕ → Option Char → Text → List Match
  | 0, _, s => [⟨[], s, []⟩]
  | n + 1, before, s =>
    ((step before s).filter fun m => m.taken ≠ []).flatMap
        (fun m => (repeated step n (m.taken.getLast?.or before) m.rest).map m.andThen)
      ++ [⟨[], s, []⟩]

/-- The runs of an expression at a position between the character before it, if any, and the text
that follows. -/
def runs (isWord : Char → Bool) : Regex → Option Char → Text → List Match
  | empty, _, s => [⟨[], s, []⟩]
  | set _, _, [] => []
  | set test, _, c :: cs => if test c then [⟨[c], cs, []⟩] else []
  | seq first second, before, s =>
    (runs isWord first before s).flatMap fun m =>
      (runs isWord second (m.taken.getLast?.or before) m.rest).map m.andThen
  | alt preferred other, before, s => runs isWord preferred before s ++ runs isWord other before s
  | star inner, before, s => repeated (runs isWord inner) s.length before s
  | boundary, before, s =>
    if before.any isWord ≠ s.head?.any isWord then [⟨[], s, []⟩] else []
  | group index inner, before, s =>
    (runs isWord inner before s).map fun m =>
      { m with groups := m.groups ++ [(index, m.taken)] }

/-- The match at a position. -/
def matchAt (isWord : Char → Bool) (re : Regex) (before : Option Char) (s : Text) : Option Match :=
  (runs isWord re before s).head?

/-- The leftmost match. -/
def findFrom (isWord : Char → Bool) (re : Regex) : Option Char → Text → Option Match
  | before, [] => matchAt isWord re before []
  | before, c :: cs =>
    (matchAt isWord re before (c :: cs)).or (findFrom isWord re (some c) cs)

def captures (isWord : Char → Bool) (re : Regex) (s : Text) : Option Match :=
  findFrom isWord re none s

/-- The text with its matches replaced, from left to right; `skip` characters of a match are still
to be passed. For expressions that match no empty text. -/
def replaceFrom (isWord : Char → Bool) (re : Regex) (new : Match → Text) :
    ℕ → Option Char → Text → Text
  | _, _, [] => []
  | skip + 1, _, c :: cs => replaceFrom isWord re new skip (some c) cs
  | 0, before, c :: cs =>
    match (matchAt isWord re before (c :: cs)).filter fun m => m.taken ≠ [] with
    | some m => new m ++ replaceFrom isWord re new (m.taken.length - 1) (some c) cs
    | none => c :: replaceFrom isWord re new 0 (some c) cs

def replaceAll (isWord : Char → Bool) (re : Regex) (new : Match → Text) (s : Text) : Text :=
  replaceFrom isWord re new 0 none s

variable {isWord : Char → Bool}

/-! ## What a run takes -/

private theorem repeated_spec {step : Option Char → Text → List Match}
    (spec : ∀ before s, ∀ m ∈ step before s, m.taken ++ m.rest = s) (n : ℕ) (before : Option Char)
    (s : Text) : ∀ m ∈ repeated step n before s, m.taken ++ m.rest = s := by
  induction n generalizing before s with
  | zero => simp [repeated]
  | succ n ih =>
    intro m member
    rw [repeated, List.mem_append, List.mem_flatMap] at member
    rcases member with ⟨first, inStep, member⟩ | member
    · obtain ⟨second, inRest, rfl⟩ := List.mem_map.mp member
      have left := spec before s first (List.mem_of_mem_filter inStep)
      have right := ih _ _ second inRest
      rw [Match.andThen, List.append_assoc, right, left]
    · rw [List.mem_singleton] at member
      simp [member]

theorem runs_spec (re : Regex) (before : Option Char) (s : Text) :
    ∀ m ∈ runs isWord re before s, m.taken ++ m.rest = s := by
  induction re generalizing before s with
  | empty => simp [runs]
  | set test =>
    intro m member
    cases s with
    | nil => simp [runs] at member
    | cons c cs =>
      rw [runs] at member
      split_ifs at member
      · simp_all
      · simp at member
  | seq first second ihFirst ihSecond =>
    intro m member
    rw [runs, List.mem_flatMap] at member
    obtain ⟨left, inFirst, member⟩ := member
    obtain ⟨right, inSecond, rfl⟩ := List.mem_map.mp member
    rw [Match.andThen, List.append_assoc, ihSecond _ _ right inSecond, ihFirst _ _ left inFirst]
  | alt preferred other ihPreferred ihOther =>
    intro m member
    rw [runs, List.mem_append] at member
    exact member.elim (ihPreferred before s m) (ihOther before s m)
  | star inner ih => exact repeated_spec ih s.length before s
  | boundary =>
    intro m member
    rw [runs] at member
    split_ifs at member
    · simp_all
    · simp at member
  | group index inner ih =>
    intro m member
    rw [runs, List.mem_map] at member
    obtain ⟨m', member, rfl⟩ := member
    exact ih before s m' member

theorem mem_runs_seq {first second : Regex} {before : Option Char} {s : Text} {m : Match} :
    m ∈ runs isWord (seq first second) before s ↔
      ∃ left ∈ runs isWord first before s,
        ∃ right ∈ runs isWord second (left.taken.getLast?.or before) left.rest,
          left.andThen right = m := by
  simp [runs]

theorem taken_seq {first second : Regex} {before : Option Char} {s : Text} {m : Match}
    (member : m ∈ runs isWord (seq first second) before s) :
    ∃ left ∈ runs isWord first before s,
      ∃ right ∈ runs isWord second (left.taken.getLast?.or before) left.rest,
        m.taken = left.taken ++ right.taken := by
  obtain ⟨left, inFirst, right, inSecond, rfl⟩ := mem_runs_seq.mp member
  exact ⟨left, inFirst, right, inSecond, rfl⟩

theorem taken_literal {pat : Text} {before : Option Char} {s : Text} :
    ∀ m ∈ runs isWord (literal pat) before s, m.taken = pat := by
  induction pat generalizing before s with
  | nil => simp [literal, runs]
  | cons c cs ih =>
    intro m member
    rw [literal, mem_runs_seq] at member
    obtain ⟨left, inChar, right, inRest, rfl⟩ := member
    have tail := ih right inRest
    cases s with
    | nil => simp [char, runs] at inChar
    | cons d ds =>
      rw [char, runs] at inChar
      split_ifs at inChar with same
      · simp_all [Match.andThen]
      · simp at inChar

/-- What holds of the rounds holds of their repetitions. -/
theorem forall_mem_repeated {step : Option Char → Text → List Match}
    {property : Match → Prop} (nil : ∀ s, property ⟨[], s, []⟩)
    (andThen : ∀ first second, property first → property second → property (first.andThen second))
    (round : ∀ before s, ∀ m ∈ step before s, property m) (n : ℕ) (before : Option Char)
    (s : Text) : ∀ m ∈ repeated step n before s, property m := by
  induction n generalizing before s with
  | zero => simpa [repeated] using nil s
  | succ n ih =>
    intro m member
    rw [repeated, List.mem_append, List.mem_flatMap] at member
    rcases member with ⟨first, inStep, member⟩ | member
    · obtain ⟨second, inRest, rfl⟩ := List.mem_map.mp member
      exact andThen _ _ (round before s first (List.mem_of_mem_filter inStep))
        (ih _ _ second inRest)
    · rw [List.mem_singleton] at member
      exact member ▸ nil s

theorem Match.groups_andThen {first second : Match} (left : ∀ g ∈ first.groups, g.2 <:+: first.taken)
    (right : ∀ g ∈ second.groups, g.2 <:+: second.taken) :
    ∀ g ∈ (first.andThen second).groups, g.2 <:+: (first.andThen second).taken := by
  intro g inGroups
  rcases List.mem_append.mp inGroups with inGroups | inGroups
  · exact (left g inGroups).trans (List.prefix_append _ _).isInfix
  · exact (right g inGroups).trans (List.suffix_append _ _).isInfix

/-- The groups of a run are parts of what it takes. -/
theorem groups_isInfix (re : Regex) (before : Option Char) (s : Text) :
    ∀ m ∈ runs isWord re before s, ∀ g ∈ m.groups, g.2 <:+: m.taken := by
  induction re generalizing before s with
  | empty => simp [runs]
  | set test =>
    intro m member g inGroups
    cases s with
    | nil => simp [runs] at member
    | cons c cs =>
      rw [runs] at member
      split_ifs at member
      · simp_all
      · simp at member
  | seq first second ihFirst ihSecond =>
    intro m member
    obtain ⟨left, inFirst, right, inSecond, rfl⟩ := mem_runs_seq.mp member
    exact Match.groups_andThen (ihFirst _ _ left inFirst) (ihSecond _ _ right inSecond)
  | alt preferred other ihPreferred ihOther =>
    intro m member
    rw [runs, List.mem_append] at member
    exact member.elim (ihPreferred before s m) (ihOther before s m)
  | star inner ih =>
    exact forall_mem_repeated (by simp) (fun _ _ => Match.groups_andThen) ih s.length before s
  | boundary =>
    intro m member g inGroups
    rw [runs] at member
    split_ifs at member
    · simp_all
    · simp at member
  | group index inner ih =>
    intro m member g inGroups
    rw [runs, List.mem_map] at member
    obtain ⟨m', member, rfl⟩ := member
    rcases List.mem_append.mp inGroups with inGroups | inGroups
    · exact ih before s m' member g inGroups
    · rw [List.mem_singleton] at inGroups
      simp [inGroups]

theorem mem_group {m : Match} {index : ℕ} {c : Char} (member : c ∈ m.group index) :
    ∃ g ∈ m.groups, c ∈ g.2 := by
  unfold Match.group at member
  cases found : m.groups.lookup index with
  | none => simp [found] at member
  | some s =>
    rw [found, Option.getD_some] at member
    obtain ⟨left, right, groups, -⟩ := List.lookup_eq_some_iff.mp found
    exact ⟨(index, s), by simp [groups], member⟩

theorem matchAt_spec {re : Regex} {before : Option Char} {s : Text} {m : Match}
    (found : matchAt isWord re before s = some m) : m ∈ runs isWord re before s :=
  List.mem_of_mem_head? found

/-- A found match is a run at some position, and the text around it is left. -/
theorem findFrom_spec {re : Regex} {before : Option Char} {s : Text} {m : Match}
    (found : findFrom isWord re before s = some m) :
    ∃ left last, s = left ++ (m.taken ++ m.rest) ∧ m ∈ runs isWord re last (m.taken ++ m.rest) := by
  induction s generalizing before with
  | nil =>
    have member := matchAt_spec found
    have text := runs_spec re before [] m member
    exact ⟨[], before, text.symm, by rwa [text]⟩
  | cons c cs ih =>
    rw [findFrom, Option.or_eq_some_iff] at found
    rcases found with here | ⟨-, later⟩
    · have member := matchAt_spec here
      have text := runs_spec re before (c :: cs) m member
      exact ⟨[], before, text.symm, by rwa [text]⟩
    · obtain ⟨left, last, text, member⟩ := ih later
      exact ⟨c :: left, last, by rw [List.cons_append, ← text], member⟩

/-! ## Separators -/

/-- No set of the expression contains the character. -/
def Avoids (c : Char) : Regex → Prop
  | empty => True
  | set test => test c = false
  | seq first second => Avoids c first ∧ Avoids c second
  | alt preferred other => Avoids c preferred ∧ Avoids c other
  | star inner => Avoids c inner
  | boundary => True
  | group _ inner => Avoids c inner

/-- Where a step can take nothing, there are no rounds, whatever fuel is left. -/
theorem repeated_stuck {step : Option Char → Text → List Match} {before : Option Char}
    {s : Text} (stuck : ∀ m ∈ step before s, m.taken = []) (n : ℕ) :
    repeated step n before s = [⟨[], s, []⟩] := by
  cases n with
  | zero => rfl
  | succ n =>
    have none : (step before s).filter (fun m => m.taken ≠ []) = [] := by
      rw [List.filter_eq_nil_iff]
      intro m member
      simp [stuck m member]
    rw [repeated, none]
    rfl

theorem Avoids.not_mem {c : Char} {re : Regex} (avoids : re.Avoids c) (before : Option Char)
    (s : Text) : ∀ m ∈ runs isWord re before s, c ∉ m.taken := by
  induction re generalizing before s with
  | empty => simp [runs]
  | set test =>
    intro m member
    cases s with
    | nil => simp [runs] at member
    | cons d ds =>
      rw [runs] at member
      split_ifs at member with accepted
      · rw [List.mem_singleton] at member
        subst member
        rw [List.mem_singleton]
        rintro rfl
        have rejected : test c = false := avoids
        rw [rejected] at accepted
        contradiction
      · simp at member
  | seq first second ihFirst ihSecond =>
    intro m member
    obtain ⟨left, inFirst, right, inSecond, rfl⟩ := mem_runs_seq.mp member
    rw [Match.andThen, List.mem_append, not_or]
    exact ⟨ihFirst avoids.1 _ _ left inFirst, ihSecond avoids.2 _ _ right inSecond⟩
  | alt preferred other ihPreferred ihOther =>
    intro m member
    rw [runs, List.mem_append] at member
    exact member.elim (ihPreferred avoids.1 before s m) (ihOther avoids.2 before s m)
  | star inner ih =>
    refine forall_mem_repeated (by simp) ?_ (ih avoids) s.length before s
    intro first second left right
    rw [Match.andThen, List.mem_append, not_or]
    exact ⟨left, right⟩
  | boundary =>
    intro m member
    rw [runs] at member
    split_ifs at member
    · simp_all
    · simp at member
  | group index inner ih =>
    intro m member
    rw [runs, List.mem_map] at member
    obtain ⟨m', member, rfl⟩ := member
    exact ih avoids before s m' member

/-- A number of characters that every match has at least. -/
def minLength : Regex → ℕ
  | empty => 0
  | set _ => 1
  | seq first second => minLength first + minLength second
  | alt preferred other => min (minLength preferred) (minLength other)
  | star _ => 0
  | boundary => 0
  | group _ inner => minLength inner

theorem minLength_le (re : Regex) (before : Option Char) (s : Text) :
    ∀ m ∈ runs isWord re before s, re.minLength ≤ m.taken.length := by
  induction re generalizing before s with
  | empty => simp [minLength]
  | set test =>
    intro m member
    cases s with
    | nil => simp [runs] at member
    | cons c cs =>
      rw [runs] at member
      split_ifs at member
      · simp_all [minLength]
      · simp at member
  | seq first second ihFirst ihSecond =>
    intro m member
    obtain ⟨left, inFirst, right, inSecond, rfl⟩ := mem_runs_seq.mp member
    have := ihFirst _ _ left inFirst
    have := ihSecond _ _ right inSecond
    simp only [minLength, Match.andThen, List.length_append]
    omega
  | alt preferred other ihPreferred ihOther =>
    intro m member
    rw [runs, List.mem_append] at member
    rcases member with member | member
    · exact (Nat.min_le_left _ _).trans (ihPreferred before s m member)
    · exact (Nat.min_le_right _ _).trans (ihOther before s m member)
  | star inner ih => simp [minLength]
  | boundary => simp [minLength]
  | group index inner ih =>
    intro m member
    rw [runs, List.mem_map] at member
    obtain ⟨m', member, rfl⟩ := member
    exact ih before s m' member

/-- No match starts where a character that it cannot take comes too early. -/
theorem Avoids.matchAt_eq_none {c : Char} {re : Regex} (avoids : re.Avoids c) {left : Text}
    (short : left.length < re.minLength) (before : Option Char) (tail : Text) :
    matchAt isWord re before (left ++ c :: tail) = none := by
  rw [matchAt, List.head?_eq_none_iff, List.eq_nil_iff_forall_not_mem]
  intro m member
  have text := runs_spec re before _ m member
  have long : left.length < m.taken.length :=
    lt_of_lt_of_le short (minLength_le re before _ m member)
  have taken : left <+: m.taken :=
    List.prefix_of_prefix_length_le (List.prefix_append left (c :: tail))
      (text ▸ List.prefix_append m.taken m.rest) long.le
  obtain ⟨more, taken⟩ := taken
  rw [← taken, List.append_assoc, List.append_cancel_left_eq] at text
  cases more with
  | nil => simp [← taken] at long
  | cons d more =>
    obtain ⟨rfl, -⟩ := List.cons.inj text
    exact avoids.not_mem before _ m member (taken ▸ by simp)

theorem repeated_extend {step : Option Char → Text → List Match} {tail : Text}
    (spec : ∀ before s, ∀ m ∈ step before s, m.taken ++ m.rest = s)
    (extend : ∀ before s, step before (s ++ tail) = (step before s).map (Match.extend tail))
    (bound : ℕ) : ∀ (before : Option Char) (s : Text) (n k : ℕ), s.length ≤ bound →
      s.length ≤ n → s.length ≤ k →
      repeated step n before (s ++ tail) = (repeated step k before s).map (Match.extend tail) := by
  have atEnd (before : Option Char) (n k : ℕ) : repeated step n before ([] ++ tail) =
      (repeated step k before []).map (Match.extend tail) := by
    have stuck : ∀ m ∈ step before [], m.taken = [] := fun m member =>
      (List.append_eq_nil_iff.mp (spec before [] m member)).1
    have stuck' : ∀ m ∈ step before ([] ++ tail), m.taken = [] := by
      intro m member
      rw [extend, List.mem_map] at member
      obtain ⟨m', member, rfl⟩ := member
      exact stuck m' member
    rw [repeated_stuck stuck, repeated_stuck stuck']
    rfl
  induction bound with
  | zero =>
    intro before s n k short _ _
    obtain rfl := List.length_eq_zero_iff.mp (Nat.le_zero.mp short)
    exact atEnd before n k
  | succ bound ih =>
    intro before s n k short fuel fuel'
    cases s with
    | nil => exact atEnd before n k
    | cons c cs =>
      obtain ⟨n, rfl⟩ : ∃ n', n = n' + 1 := ⟨n - 1, by simp at fuel; omega⟩
      obtain ⟨k, rfl⟩ : ∃ k', k = k' + 1 := ⟨k - 1, by simp at fuel'; omega⟩
      rw [repeated, repeated, extend, List.filter_map, List.map_append, List.flatMap_map,
        List.map_flatMap]
      congr 1
      refine List.flatMap_congr fun m member => ?_
      have progress : m.taken ≠ [] := of_decide_eq_true (List.mem_filter.mp member).2
      have text := spec before (c :: cs) m (List.mem_of_mem_filter member)
      have shorter : m.rest.length < (c :: cs).length := by
        rw [← text, List.length_append]
        have := List.length_pos_iff.mpr progress
        omega
      have rest : repeated step n (m.taken.getLast?.or before) (m.rest ++ tail) =
          (repeated step k (m.taken.getLast?.or before) m.rest).map (Match.extend tail) :=
        ih _ m.rest n k (by omega) (by omega) (by omega)
      change List.map (Match.extend tail m).andThen
        (repeated step n (m.taken.getLast?.or before) (m.rest ++ tail)) = _
      rw [rest, List.map_map, List.map_map]
      rfl

/-- What an expression finds before a separator is what it finds at the end of a text. -/
theorem runs_append {c : Char} (noWord : isWord c = false) {re : Regex} (avoids : re.Avoids c)
    (before : Option Char) (s tail : Text) :
    runs isWord re before (s ++ c :: tail) =
      (runs isWord re before s).map (Match.extend (c :: tail)) := by
  induction re generalizing before s with
  | empty => rfl
  | set test =>
    cases s with
    | nil =>
      have rejected : test c = false := avoids
      simp [runs, rejected]
    | cons d ds =>
      rw [List.cons_append, runs, runs]
      split_ifs <;> rfl
  | seq first second ihFirst ihSecond =>
    rw [runs, runs, ihFirst avoids.1, List.flatMap_map, List.map_flatMap]
    refine List.flatMap_congr fun m _ => ?_
    change List.map (Match.extend (c :: tail) m).andThen
      (runs isWord second (m.taken.getLast?.or before) (m.rest ++ c :: tail)) = _
    rw [ihSecond avoids.2, List.map_map, List.map_map]
    rfl
  | alt preferred other ihPreferred ihOther =>
    rw [runs, runs, ihPreferred avoids.1, ihOther avoids.2, List.map_append]
  | star inner ih =>
    rw [runs, runs]
    exact repeated_extend (fun before s => runs_spec inner before s) (ih avoids) s.length before s _ _
      le_rfl (by simp) le_rfl
  | boundary =>
    have head : (s ++ c :: tail).head?.any isWord = s.head?.any isWord := by
      cases s with
      | nil => simpa using noWord
      | cons d ds => rfl
    rw [runs, runs, head]
    split_ifs <;> rfl
  | group index inner ih =>
    rw [runs, runs, ih avoids, List.map_map, List.map_map]
    rfl

/-- Of the text before a position only the question whether a word ends there counts. -/
theorem runs_congr_before {before before' : Option Char}
    (same : before.any isWord = before'.any isWord) (re : Regex) (s : Text) :
    runs isWord re before s = runs isWord re before' s := by
  have carry (before before' : Option Char) (same : before.any isWord = before'.any isWord)
      (taken : Text) :
      (taken.getLast?.or before).any isWord = (taken.getLast?.or before').any isWord := by
    cases taken.getLast? with
    | none => exact same
    | some c => rfl
  induction re generalizing before before' s with
  | empty => rfl
  | set test => cases s <;> rfl
  | seq first second ihFirst ihSecond =>
    rw [runs, runs, ihFirst same]
    refine List.flatMap_congr fun m _ => ?_
    rw [ihSecond (carry _ _ same m.taken)]
  | alt preferred other ihPreferred ihOther => rw [runs, runs, ihPreferred same, ihOther same]
  | star inner ih =>
    have rounds (n : ℕ) : ∀ (before before' : Option Char),
        before.any isWord = before'.any isWord → ∀ s,
        repeated (runs isWord inner) n before s = repeated (runs isWord inner) n before' s := by
      induction n with
      | zero => intros; rfl
      | succ n ihRounds =>
        intro before before' same s
        rw [repeated, repeated, ih same]
        congr 1
        refine List.flatMap_congr fun m _ => ?_
        rw [ihRounds _ _ (carry _ _ same m.taken)]
    exact rounds _ _ _ same s
  | boundary => rw [runs, runs, same]
  | group index inner ih => rw [runs, runs, ih same]

/-! ## Replacement -/

theorem replaceFrom_congr_before {before before' : Option Char}
    (same : before.any isWord = before'.any isWord) (re : Regex) (new : Match → Text) (s : Text) :
    replaceFrom isWord re new 0 before s = replaceFrom isWord re new 0 before' s := by
  cases s with
  | nil => rfl
  | cons c cs => rw [replaceFrom, replaceFrom, matchAt, matchAt, runs_congr_before same]

/-- Where no match starts the character is copied. -/
theorem replaceFrom_of_matchAt_none {re : Regex} {new : Match → Text} {before : Option Char}
    {c : Char} {cs : Text} (none : matchAt isWord re before (c :: cs) = none) :
    replaceFrom isWord re new 0 before (c :: cs) = c :: replaceFrom isWord re new 0 (some c) cs := by
  rw [replaceFrom, none]
  rfl

private theorem replaced_cases {re : Regex} {before : Option Char} {c : Char} {cs : Text} {m : Match}
    (found : ((matchAt isWord re before (c :: cs)).filter fun m => m.taken ≠ []) = some m) :
    m ∈ runs isWord re before (c :: cs) ∧ ∃ more, m.taken = c :: more ∧ more ++ m.rest = cs := by
  obtain ⟨here, progress⟩ := Option.filter_eq_some_iff.mp found
  have member := matchAt_spec here
  have text := runs_spec re before (c :: cs) m member
  refine ⟨member, ?_⟩
  cases taken : m.taken with
  | nil => simp [taken] at progress
  | cons d more =>
    rw [taken, List.cons_append, List.cons.injEq] at text
    obtain ⟨rfl, text⟩ := text
    exact ⟨more, rfl, text⟩

/-- A separator splits a replacement: both sides are done on their own. -/
theorem replaceFrom_append {c : Char} (noWord : isWord c = false) {re : Regex}
    (avoids : re.Avoids c) {new : Match → Text} {tail : Text}
    (ignores : ∀ m : Match, new (m.extend (c :: tail)) = new m) (skip : ℕ) (before : Option Char)
    (s : Text) (fits : skip ≤ s.length) :
    replaceFrom isWord re new skip before (s ++ c :: tail) =
      replaceFrom isWord re new skip before s ++ c :: replaceFrom isWord re new 0 none tail := by
  induction s generalizing skip before with
  | nil =>
    obtain rfl := Nat.le_zero.mp fits
    have separator : ((matchAt isWord re before (c :: tail)).filter fun m => m.taken ≠ []) = none := by
      rw [matchAt, ← List.nil_append (c :: tail), runs_append noWord avoids, List.head?_map]
      cases found : (runs isWord re before []).head? with
      | none => rfl
      | some m =>
        have text := runs_spec re before [] m (List.mem_of_mem_head? found)
        simp [Match.extend, (List.append_eq_nil_iff.mp text).1]
    have copied : replaceFrom isWord re new 0 before (c :: tail) =
        c :: replaceFrom isWord re new 0 (some c) tail := by
      rw [replaceFrom, separator]
    have restart : replaceFrom isWord re new 0 (some c) tail =
        replaceFrom isWord re new 0 none tail :=
      replaceFrom_congr_before (by simpa using noWord) re new tail
    rw [List.nil_append, copied, restart]
    rfl
  | cons d ds ih =>
    cases skip with
    | succ skip => exact ih skip (some d) (by simpa using fits)
    | zero =>
      have same : ((matchAt isWord re before (d :: ds ++ c :: tail)).filter fun m => m.taken ≠ []) =
          ((matchAt isWord re before (d :: ds)).filter fun m => m.taken ≠ []).map
            (Match.extend (c :: tail)) := by
        rw [matchAt, matchAt, runs_append noWord avoids, List.head?_map, Option.filter_map]
        rfl
      rw [List.cons_append] at same ⊢
      rw [replaceFrom, replaceFrom, same]
      cases found : (matchAt isWord re before (d :: ds)).filter fun m => m.taken ≠ [] with
      | none => exact congrArg (d :: ·) (ih 0 (some d) (Nat.zero_le _))
      | some m =>
        obtain ⟨-, more, taken, text⟩ := replaced_cases found
        have fits' : m.taken.length - 1 ≤ ds.length := by
          rw [taken, ← text]
          simp
        change new (m.extend (c :: tail)) ++ replaceFrom isWord re new (m.taken.length - 1) (some d)
          (ds ++ c :: tail) = _
        rw [ignores, ih _ (some d) fits', List.append_assoc]

theorem replaceAll_append {c : Char} (noWord : isWord c = false) {re : Regex}
    (avoids : re.Avoids c) {new : Match → Text}
    (ignores : ∀ tail (m : Match), new (m.extend tail) = new m) (s tail : Text) :
    replaceAll isWord re new (s ++ c :: tail) =
      replaceAll isWord re new s ++ c :: replaceAll isWord re new tail :=
  replaceFrom_append noWord avoids (ignores _) 0 none s (Nat.zero_le _)

/-- Every character of the result comes from the text or from a replacement. -/
theorem forall_mem_replaceFrom {property : Char → Prop} {re : Regex} {new : Match → Text}
    (replaced : ∀ m : Match, (∀ c ∈ m.taken, property c) → (∀ g ∈ m.groups, g.2 <:+: m.taken) →
      ∀ c ∈ new m, property c)
    (skip : ℕ) (before : Option Char) (s : Text) (holds : ∀ c ∈ s, property c) :
    ∀ c ∈ replaceFrom isWord re new skip before s, property c := by
  induction s generalizing skip before with
  | nil => cases skip <;> simp [replaceFrom]
  | cons d ds ih =>
    have rest : ∀ c ∈ ds, property c := fun c member => holds c (List.mem_cons_of_mem d member)
    cases skip with
    | succ skip => exact ih skip (some d) rest
    | zero =>
      intro c member
      rw [replaceFrom] at member
      cases found : (matchAt isWord re before (d :: ds)).filter fun m => m.taken ≠ [] with
      | none =>
        rw [found] at member
        rcases List.mem_cons.mp member with rfl | member
        · exact holds c List.mem_cons_self
        · exact ih 0 (some d) rest c member
      | some m =>
        rw [found] at member
        rcases List.mem_append.mp member with member | member
        · obtain ⟨inRuns, more, taken, text⟩ := replaced_cases found
          refine replaced m (fun e inTaken => holds e ?_) (groups_isInfix re before _ m inRuns) c member
          rw [← text, ← List.cons_append, ← taken]
          exact List.mem_append_left _ inTaken
        · exact ih _ (some d) rest c member

/-- When every replacement keeps the match or is long, the result is the text or is long. -/
theorem replaceFrom_eq_or_long {least : ℕ} {re : Regex} {new : Match → Text}
    (replaced : ∀ m : Match, new m = m.taken ∨ least ≤ (new m).length)
    (skip : ℕ) (before : Option Char) (s : Text) :
    replaceFrom isWord re new skip before s = s.drop skip ∨
      least ≤ (replaceFrom isWord re new skip before s).length := by
  induction s generalizing skip before with
  | nil => cases skip <;> simp [replaceFrom]
  | cons d ds ih =>
    cases skip with
    | succ skip => exact ih skip (some d)
    | zero =>
      rw [replaceFrom]
      cases found : (matchAt isWord re before (d :: ds)).filter fun m => m.taken ≠ [] with
      | none =>
        rcases ih 0 (some d) with same | long
        · exact .inl (by simp [same])
        · exact .inr (by simp only [List.length_cons]; omega)
      | some m =>
        obtain ⟨-, more, taken, text⟩ := replaced_cases found
        simp only [List.length_append]
        rcases replaced m with kept | long
        · rcases ih (m.taken.length - 1) (some d) with same | long
          · refine .inl ?_
            rw [same, kept, taken, ← text]
            simp
          · exact .inr (by omega)
        · exact .inr (by omega)

end Regex

end Rust
