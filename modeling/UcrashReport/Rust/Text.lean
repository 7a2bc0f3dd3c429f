import Mathlib.Algebra.Order.Ring.Nat
import Mathlib.Data.List.DropRight
import Mathlib.Data.List.Infix
import Mathlib.Data.List.Basic

/-! # String slices as character lists

The standard string functions of Rust, on lists of characters. Whitespace is the Unicode
`White_Space` property, as `char::is_whitespace` has it, and lengths that the language counts in
bytes are counted in bytes here. Splitting functions return the first (or last) occurrence only;
the laws below say where that occurrence lies when a text is extended, which is what a
line-oriented parser needs when it compares a line with the same line carrying a suffix.
-/

namespace Rust

/-- A string slice: its characters in order. -/
abbrev Text := List Char

abbrev Bytes := List UInt8

namespace Text

/-! ## Character classes -/

/-- `char::is_whitespace`: the code points with the property `White_Space`. -/
def isWhitespace (c : Char) : Bool :=
  let n := c.toNat
  (9 ≤ n && n ≤ 13) || n == 32 || n == 133 || n == 160 || n == 5760 ||
    (8192 ≤ n && n ≤ 8202) || n == 8232 || n == 8233 || n == 8239 || n == 8287 || n == 12288

/-- `char::is_ascii_digit`. -/
def isAsciiDigit (c : Char) : Bool := 48 ≤ c.toNat && c.toNat ≤ 57

/-- `char::is_ascii_hexdigit`. -/
def isAsciiHexdigit (c : Char) : Bool :=
  isAsciiDigit c || (65 ≤ c.toNat && c.toNat ≤ 70) || (97 ≤ c.toNat && c.toNat ≤ 102)

/-- `char::is_ascii_alphanumeric`. -/
def isAsciiAlphanumeric (c : Char) : Bool :=
  isAsciiDigit c || (65 ≤ c.toNat && c.toNat ≤ 90) || (97 ≤ c.toNat && c.toNat ≤ 122)

/-- `str::len`, which counts UTF-8 bytes. -/
def byteLen (s : Text) : ℕ := (s.map Char.utf8Size).sum

/-- Lower case on the ASCII letters, every other character unchanged. -/
def toAsciiLowercase (s : Text) : Text := s.map Char.toLower

/-- `str::eq_ignore_ascii_case`. -/
def eqIgnoreAsciiCase (s t : Text) : Bool := toAsciiLowercase s == toAsciiLowercase t

/-- A number as it is formatted. -/
def decimal (n : ℕ) : Text := (Nat.repr n).toList

/-- A condition on a fixed text, evaluated on its characters only. -/
theorem forall_mem_of_all {property : Char → Prop} [DecidablePred property] {s : Text}
    (all : s.all (fun c => decide (property c)) = true) : ∀ c ∈ s, property c := by
  simpa using all

theorem forall_eq_some_of_all {property : Char → Prop} [DecidablePred property] {o : Option Char}
    (all : o.all (fun c => decide (property c)) = true) : ∀ c, o = some c → property c := by
  rintro c rfl
  simpa using all

/-! ## UTF-8 -/

def utf8Encode (s : Text) : Bytes := (String.ofList s).toUTF8.data.toList

def utf8Decode (data : Bytes) : Option Text :=
  (String.fromUTF8? ⟨data.toArray⟩).map String.toList

/-! ## Trimming -/

def trimStart (s : Text) : Text := s.dropWhile isWhitespace

def trimEnd (s : Text) : Text := s.rdropWhile isWhitespace

def trim (s : Text) : Text := trimEnd (trimStart s)

/-- `str::trim_matches` with a character predicate: both ends. -/
def trimMatches (p : Char → Bool) (s : Text) : Text := (s.dropWhile p).rdropWhile p

/-- `str::trim_end_matches` with one character. -/
def trimEndMatches (c : Char) (s : Text) : Text := s.rdropWhile (· == c)

def stripPrefixes (pat : Text) : ℕ → Text → Text
  | 0, s => s
  | n + 1, s =>
    match pat.isPrefixOf? s with
    | some rest => stripPrefixes pat n rest
    | none => s

/-- `str::trim_start_matches` with a string: every leading copy of the pattern. -/
def trimStartMatches (pat s : Text) : Text := stripPrefixes pat s.length s

/-! ## Searching -/

def startsWith (pat s : Text) : Bool := pat.isPrefixOf s

def endsWith (pat s : Text) : Bool := pat.isSuffixOf s

/-- `str::split_once`: around the first occurrence. -/
def splitOnce (pat : Text) : Text → Option (Text × Text)
  | [] => if pat = [] then some ([], []) else none
  | c :: cs =>
    match pat.isPrefixOf? (c :: cs) with
    | some rest => some ([], rest)
    | none => (splitOnce pat cs).map fun parts => (c :: parts.1, parts.2)

/-- `str::rsplit_once`: around the last occurrence. -/
def rsplitOnce (pat : Text) : Text → Option (Text × Text)
  | [] => if pat = [] then some ([], []) else none
  | c :: cs =>
    match rsplitOnce pat cs with
    | some parts => some (c :: parts.1, parts.2)
    | none => (pat.isPrefixOf? (c :: cs)).map fun rest => ([], rest)

/-- `str::contains` with a string pattern. -/
def contains (pat s : Text) : Bool := (splitOnce pat s).isSome

/-! ## Lines and words -/

/-- `str::split_inclusive('\n')`: every piece keeps its line feed. -/
def splitInclusive : Text → List Text
  | [] => []
  | c :: cs =>
    if c = '\n' then [c] :: splitInclusive cs
    else
      match splitInclusive cs with
      | [] => [[c]]
      | piece :: pieces => (c :: piece) :: pieces

/-- A line feed at the end of a piece, and a carriage return before it, are not part of the line. -/
def stripLineEnd (piece : Text) : Text :=
  if piece.getLast? = some '\n' then
    if piece.dropLast.getLast? = some '\r' then piece.dropLast.dropLast else piece.dropLast
  else piece

/-- `str::lines`. -/
def lines (s : Text) : List Text := (splitInclusive s).map stripLineEnd

/-- `str::split_whitespace`. -/
def splitWhitespace (s : Text) : List Text := (s.splitOnP isWhitespace).filter (· ≠ [])

/-! ## Numbers -/

theorem decimal_eq (n : ℕ) : decimal n = Nat.toDigits 10 n := by
  rw [decimal, Nat.repr_eq_ofList_toDigits, String.toList_ofList]

theorem decimal_ne_nil (n : ℕ) : decimal n ≠ [] := decimal_eq n ▸ Nat.toDigits_ne_nil

theorem isAsciiDigit_of_mem_decimal {n : ℕ} {c : Char} (member : c ∈ decimal n) :
    isAsciiDigit c = true := by
  rw [decimal_eq] at member
  have digit := Nat.isDigit_of_mem_toDigits (by decide) (by decide) member
  rw [Char.isDigit, Bool.and_eq_true, decide_eq_true_eq, decide_eq_true_eq, ge_iff_le,
    UInt32.le_iff_toNat_le, UInt32.le_iff_toNat_le] at digit
  rw [isAsciiDigit, Bool.and_eq_true, decide_eq_true_eq, decide_eq_true_eq]
  exact digit

theorem isWhitespace_of_isAsciiDigit {c : Char} (digit : isAsciiDigit c = true) :
    isWhitespace c = false := by
  simp only [isAsciiDigit, Bool.and_eq_true, decide_eq_true_eq] at digit
  rw [Bool.eq_false_iff]
  intro blank
  simp only [isWhitespace, Bool.or_eq_true, Bool.and_eq_true, decide_eq_true_eq, beq_iff_eq]
    at blank
  omega

theorem isWhitespace_of_isAsciiHexdigit {c : Char} (digit : isAsciiHexdigit c = true) :
    isWhitespace c = false := by
  simp only [isAsciiHexdigit, isAsciiDigit, Bool.or_eq_true, Bool.and_eq_true,
    decide_eq_true_eq] at digit
  rw [Bool.eq_false_iff]
  intro blank
  simp only [isWhitespace, Bool.or_eq_true, Bool.and_eq_true, decide_eq_true_eq, beq_iff_eq]
    at blank
  omega

theorem utf8Decode_utf8Encode (s : Text) : utf8Decode (utf8Encode s) = some s := by
  unfold utf8Decode utf8Encode String.fromUTF8?
  have same : (⟨((String.ofList s).toUTF8.data.toList).toArray⟩ : ByteArray) =
      (String.ofList s).toUTF8 := rfl
  rw [same, String.toUTF8_eq_toByteArray, dif_pos (String.ofList s).isValidUTF8,
    Option.map_some, String.fromUTF8]
  exact congrArg some String.toList_ofList

theorem eq_utf8Encode_of_utf8Decode {data : Bytes} {s : Text} (decoded : utf8Decode data = some s) :
    data = utf8Encode s := by
  obtain ⟨whole, read, rfl⟩ := Option.map_eq_some_iff.mp decoded
  rw [String.fromUTF8?] at read
  split_ifs at read with valid
  rw [← Option.some.inj read, utf8Encode, String.ofList_toList]
  rfl

/-- The readable beginning of an encoded text is the beginning of the text. -/
theorem isPrefix_of_utf8Decode {data : Bytes} {s whole : Text} (decoded : utf8Decode data = some s)
    (part : data <+: utf8Encode whole) : s <+: whole := by
  obtain ⟨rest, split⟩ := part
  rw [eq_utf8Encode_of_utf8Decode decoded, utf8Encode, utf8Encode] at split
  refine List.isPrefix_of_utf8Encode_append_eq_utf8Encode ⟨rest.toArray⟩ ?_
  apply ByteArray.ext
  apply Array.ext'
  simpa using split

theorem length_le_byteLen (s : Text) : s.length ≤ byteLen s := by
  induction s with
  | nil => rfl
  | cons c cs ih =>
    have positive := c.utf8Size_pos
    rw [byteLen, List.map_cons, List.sum_cons, List.length_cons, ← byteLen]
    omega

/-! ## Occurrences in a longer text -/

theorem contains_iff {pat s : Text} : contains pat s = true ↔ pat <:+: s := by
  induction s with
  | nil =>
    by_cases empty : pat = [] <;> simp [contains, splitOnce, empty]
  | cons c cs ih =>
    rw [List.infix_cons_iff, ← ih]
    cases found : pat.isPrefixOf? (c :: cs) with
    | some rest =>
      have leading : pat <+: c :: cs := ⟨rest, List.isPrefixOf?_eq_some_iff_append_eq.mp found⟩
      simp [contains, splitOnce, found, leading]
    | none =>
      have notLeading : ¬ pat <+: c :: cs := by
        rintro ⟨rest, same⟩
        rw [List.isPrefixOf?_eq_some_iff_append_eq.mpr same] at found
        contradiction
      simp [contains, splitOnce, found, notLeading]

theorem startsWith_iff {pat s : Text} : startsWith pat s = true ↔ pat <+: s :=
  List.isPrefixOf_iff_prefix

theorem endsWith_iff {pat s : Text} : endsWith pat s = true ↔ pat <:+ s :=
  List.isSuffixOf_iff_suffix

theorem splitOnce_spec {pat s left right : Text} (split : splitOnce pat s = some (left, right)) :
    s = left ++ (pat ++ right) := by
  induction s generalizing left with
  | nil =>
    simp only [splitOnce, Option.ite_none_right_eq_some, Option.some.injEq, Prod.mk.injEq] at split
    obtain ⟨rfl, rfl, rfl⟩ := split
    rfl
  | cons c cs ih =>
    simp only [splitOnce] at split
    split at split
    · next found =>
      cases split
      exact (List.isPrefixOf?_eq_some_iff_append_eq.mp found).symm
    · obtain ⟨⟨left', right'⟩, tail, same⟩ := Option.map_eq_some_iff.mp split
      cases same
      rw [ih tail, List.cons_append]

theorem rsplitOnce_spec {pat s left right : Text} (split : rsplitOnce pat s = some (left, right)) :
    s = left ++ (pat ++ right) := by
  induction s generalizing left with
  | nil =>
    simp only [rsplitOnce, Option.ite_none_right_eq_some, Option.some.injEq, Prod.mk.injEq] at split
    obtain ⟨rfl, rfl, rfl⟩ := split
    rfl
  | cons c cs ih =>
    simp only [rsplitOnce] at split
    split at split
    · next tail =>
      cases split
      rw [ih tail, List.cons_append]
    · obtain ⟨rest, found, same⟩ := Option.map_eq_some_iff.mp split
      cases same
      exact (List.isPrefixOf?_eq_some_iff_append_eq.mp found).symm

/-- A pattern whose first character is absent from the left part lies in the right part. -/
theorem infix_append_of_head {pat left right : Text} (nonempty : pat ≠ [])
    (head : ∀ c ∈ left, pat.head? ≠ some c) : pat <:+: left ++ right ↔ pat <:+: right := by
  refine ⟨fun found => ?_, List.infix_append_of_infix_right⟩
  induction left with
  | nil => exact found
  | cons c cs ih =>
    rcases List.infix_cons_iff.mp found with ⟨rest, same⟩ | later
    · cases pat with
      | nil => exact absurd rfl nonempty
      | cons d ds =>
        obtain ⟨rfl, -⟩ := List.cons.inj same
        exact absurd rfl (head d (List.mem_cons_self ..))
    · exact ih (fun d member => head d (List.mem_cons_of_mem _ member)) later

/-- A pattern whose last character is absent from the right part lies in the left part. -/
theorem infix_append_of_last {pat left right : Text} (nonempty : pat ≠ [])
    (last : ∀ c ∈ right, pat.getLast? ≠ some c) : pat <:+: left ++ right ↔ pat <:+: left := by
  rw [← List.reverse_infix, List.reverse_append,
    infix_append_of_head (by simpa using nonempty), List.reverse_infix]
  intro c member
  rw [List.head?_reverse]
  exact last c (List.mem_reverse.mp member)

/-- A character that the pattern does not contain separates its occurrences. -/
theorem infix_append_cons_of_not_mem {pat left right : Text} {c : Char} (absent : c ∉ pat) :
    pat <:+: left ++ c :: right ↔ pat <:+: left ∨ pat <:+: right := by
  constructor
  · intro found
    rcases List.infix_append_iff_ne_nil.mp found with inLeft | inRight | straddling
    · exact .inl inLeft
    · rcases List.infix_cons_iff.mp inRight with ⟨rest, same⟩ | inRight
      · cases pat with
        | nil => exact .inl List.nil_infix
        | cons d ds =>
          obtain ⟨rfl, -⟩ := List.cons.inj same
          exact absurd (List.mem_cons_self ..) absent
      · exact .inr inRight
    · obtain ⟨first, second, -, nonempty, same, -, rest, leading⟩ := straddling
      cases second with
      | nil => exact absurd rfl nonempty
      | cons d ds =>
        obtain ⟨rfl, -⟩ := List.cons.inj leading
        exact absurd (same ▸ List.mem_append_right _ (List.mem_cons_self ..)) absent
  · rintro (inLeft | inRight)
    · exact List.infix_append_of_infix_left inLeft
    · exact List.infix_append_of_infix_right (List.infix_cons_iff.mpr (.inr inRight))

/-! ## Trimmed texts -/

theorem trimStart_spec (s : Text) :
    ∃ blank, s = blank ++ trimStart s ∧ ∀ c ∈ blank, isWhitespace c = true :=
  ⟨s.takeWhile isWhitespace, List.takeWhile_append_dropWhile.symm,
    fun _ member => List.mem_takeWhile_imp member⟩

theorem trimEnd_spec (s : Text) :
    ∃ blank, s = trimEnd s ++ blank ∧ ∀ c ∈ blank, isWhitespace c = true :=
  ⟨s.rtakeWhile isWhitespace, List.rdropWhile_append_rtakeWhile.symm,
    fun _ member => List.mem_rtakeWhile_imp member⟩

theorem trimStart_suffix (s : Text) : trimStart s <:+ s := List.dropWhile_suffix _

theorem trimEnd_isPrefix (s : Text) : trimEnd s <+: s := List.rdropWhile_prefix _ s

theorem trimEnd_of_last {s : Text} (last : ∀ c, s.getLast? = some c → isWhitespace c = false) :
    trimEnd s = s := by
  rw [trimEnd, List.rdropWhile_eq_self_iff]
  intro nonempty
  simp [last _ (List.getLast?_eq_some_getLast nonempty)]

/-- A text with visible characters at both ends stays as it is. -/
theorem trim_of_ends {s : Text} (head : ∀ c, s.head? = some c → isWhitespace c = false)
    (last : ∀ c, s.getLast? = some c → isWhitespace c = false) : trim s = s := by
  have start : trimStart s = s := by
    cases s with
    | nil => rfl
    | cons c cs => rw [trimStart, List.dropWhile_cons_of_neg (by simp [head c rfl])]
  rw [trim, start, trimEnd_of_last last]

theorem trim_of_visible {s : Text} (visible : ∀ c ∈ s, isWhitespace c = false) : trim s = s := by
  exact trim_of_ends (fun c head => visible c (List.mem_of_head? head))
    fun c last => visible c (List.mem_of_getLast? last)

theorem trim_isInfix (s : Text) : trim s <:+: s :=
  (trimEnd_isPrefix _).isInfix.trans (trimStart_suffix s).isInfix

theorem stripPrefixes_suffix (pat : Text) (n : ℕ) (s : Text) : stripPrefixes pat n s <:+ s := by
  induction n generalizing s with
  | zero => exact List.suffix_rfl
  | succ n ih =>
    simp only [stripPrefixes]
    split
    · next rest found =>
      exact (ih rest).trans ⟨pat, List.isPrefixOf?_eq_some_iff_append_eq.mp found⟩
    · exact List.suffix_rfl

theorem trimStartMatches_suffix (pat s : Text) : trimStartMatches pat s <:+ s :=
  stripPrefixes_suffix pat s.length s

/-- Trimming does not touch a pattern that neither begins nor ends with whitespace. -/
theorem contains_trim {pat : Text} (nonempty : pat ≠ [])
    (head : ∀ c, pat.head? = some c → isWhitespace c = false)
    (last : ∀ c, pat.getLast? = some c → isWhitespace c = false) (s : Text) :
    contains pat (trim s) = contains pat s := by
  obtain ⟨leading, start, blankStart⟩ := trimStart_spec s
  obtain ⟨trailing, finish, blankEnd⟩ := trimEnd_spec (trimStart s)
  rw [Bool.eq_iff_iff, contains_iff, contains_iff]
  conv_rhs => rw [start, infix_append_of_head nonempty (fun c member found => by
    simpa [head c found] using blankStart c member), finish,
    infix_append_of_last nonempty (fun c member found => by
      simpa [last c found] using blankEnd c member)]
  rfl

/-! ## The first and the last occurrence -/

/-- Where a character that the pattern does not contain follows, the pattern must fit before it. -/
theorem isPrefixOf?_append_cons {pat u : Text} {c : Char} (absent : c ∉ pat) (v : Text) :
    pat.isPrefixOf? (u ++ c :: v) = (pat.isPrefixOf? u).map (· ++ c :: v) := by
  induction u generalizing pat with
  | nil =>
    cases pat with
    | nil => rfl
    | cons d ds =>
      have different : d ≠ c := fun same => absent (same ▸ List.mem_cons_self)
      simp [List.isPrefixOf?, different]
  | cons e u ih =>
    cases pat with
    | nil => rfl
    | cons d ds =>
      rw [List.cons_append, List.isPrefixOf?, List.isPrefixOf?]
      split_ifs
      · exact ih fun member => absent (List.mem_cons_of_mem d member)
      · rfl

theorem startsWith_append_cons {pat u : Text} {c : Char} (absent : c ∉ pat) (v : Text) :
    startsWith pat (u ++ c :: v) = startsWith pat u := by
  have prefixes (s : Text) : startsWith pat s = (pat.isPrefixOf? s).isSome := by
    rw [Bool.eq_iff_iff, startsWith_iff, Option.isSome_iff_exists]
    exact exists_congr fun rest => List.isPrefixOf?_eq_some_iff_append_eq.symm
  rw [prefixes, prefixes, isPrefixOf?_append_cons absent, Option.isSome_map]

theorem splitOnce_append {pat s left right : Text} (split : splitOnce pat s = some (left, right))
    (t : Text) : splitOnce pat (s ++ t) = some (left, right ++ t) := by
  induction s generalizing left with
  | nil =>
    simp only [splitOnce, Option.ite_none_right_eq_some, Option.some.injEq, Prod.mk.injEq] at split
    obtain ⟨rfl, rfl, rfl⟩ := split
    cases t <;> rfl
  | cons c cs ih =>
    rw [splitOnce] at split
    rw [List.cons_append, splitOnce]
    cases found : pat.isPrefixOf? (c :: cs) with
    | some rest =>
      rw [found] at split
      obtain ⟨rfl, rfl⟩ : [] = left ∧ rest = right := by simpa using split
      have longer : pat.isPrefixOf? (c :: (cs ++ t)) = some (rest ++ t) := by
        rw [List.isPrefixOf?_eq_some_iff_append_eq] at found ⊢
        rw [← List.append_assoc, found, List.cons_append]
      rw [longer]
    | none =>
      rw [found] at split
      obtain ⟨⟨left', right'⟩, tail, same⟩ := Option.map_eq_some_iff.mp split
      cases same
      -- The pattern fits into `cs`, so it is too short to reach beyond `c :: cs`.
      have fits : pat.length ≤ (c :: cs).length := by
        have text := splitOnce_spec tail
        simp only [text, List.length_cons, List.length_append]
        omega
      have longer : pat.isPrefixOf? (c :: (cs ++ t)) = none := by
        rw [Option.eq_none_iff_forall_ne_some]
        intro rest same
        have leading : pat <+: c :: cs :=
          List.prefix_of_prefix_length_le ⟨rest, List.isPrefixOf?_eq_some_iff_append_eq.mp same⟩
            (List.prefix_append (c :: cs) t) fits
        obtain ⟨rest', same'⟩ := leading
        rw [List.isPrefixOf?_eq_some_iff_append_eq.mpr same'] at found
        contradiction
      rw [longer, ih tail]
      rfl

theorem splitOnce_eq_none_iff {pat s : Text} : splitOnce pat s = none ↔ ¬ pat <:+: s := by
  rw [← contains_iff, contains, Option.not_isSome_iff_eq_none]

/-- A character that the pattern does not contain separates the places where it is searched. -/
theorem splitOnce_append_cons {pat u : Text} {c : Char} (nonempty : pat ≠ []) (absent : c ∉ pat)
    (v : Text) :
    splitOnce pat (u ++ c :: v) =
      match splitOnce pat u with
      | some (left, right) => some (left, right ++ c :: v)
      | none => (splitOnce pat v).map fun parts => (u ++ c :: parts.1, parts.2) := by
  cases split : splitOnce pat u with
  | some parts => exact splitOnce_append split (c :: v)
  | none =>
    induction u with
    | nil =>
      cases pat with
      | nil => contradiction
      | cons d ds =>
        have different : d ≠ c := fun same => absent (same ▸ List.mem_cons_self)
        simp [splitOnce, List.isPrefixOf?, different]
    | cons e u ih =>
      rw [splitOnce] at split
      cases found : pat.isPrefixOf? (e :: u) with
      | some rest => simp [found] at split
      | none =>
        have notHere : pat.isPrefixOf? (e :: (u ++ c :: v)) = none := by
          rw [← List.cons_append, isPrefixOf?_append_cons absent, found]
          rfl
        rw [found, Option.map_eq_none_iff] at split
        have later := ih split
        dsimp only at later
        rw [List.cons_append, splitOnce, notHere, later, Option.map_map]
        rfl

theorem rsplitOnce_eq_none_iff {pat s : Text} : rsplitOnce pat s = none ↔ ¬ pat <:+: s := by
  induction s with
  | nil => by_cases empty : pat = [] <;> simp [rsplitOnce, empty]
  | cons c cs ih =>
    rw [rsplitOnce, List.infix_cons_iff, not_or, ← ih]
    cases later : rsplitOnce pat cs with
    | some parts => simp
    | none =>
      have leading : (pat.isPrefixOf? (c :: cs)).isSome ↔ pat <+: c :: cs := by
        rw [Option.isSome_iff_exists]
        exact exists_congr fun rest => List.isPrefixOf?_eq_some_iff_append_eq
      rw [← leading]
      cases pat.isPrefixOf? (c :: cs) <;> simp

/-- A pattern whose first character does not occur before it is split off there. -/
theorem splitOnce_of_not_mem {c : Char} {cs left : Text} (absent : c ∉ left) (right : Text) :
    splitOnce (c :: cs) (left ++ (c :: cs ++ right)) = some (left, right) := by
  induction left with
  | nil =>
    have here : (c :: cs).isPrefixOf? (c :: (cs ++ right)) = some right :=
      List.isPrefixOf?_eq_some_iff_append_eq.mpr rfl
    rw [List.nil_append, List.cons_append, splitOnce, here]
  | cons d ds ih =>
    have different : c ≠ d := fun same => absent (same ▸ List.mem_cons_self)
    have later : (c :: cs).isPrefixOf? (d :: (ds ++ (c :: cs ++ right))) = none := by
      simp [List.isPrefixOf?, different]
    rw [List.cons_append, splitOnce, later, ih fun member => absent (List.mem_cons_of_mem d member)]
    rfl

theorem splitOnce_singleton {c : Char} {left : Text} (absent : c ∉ left) (right : Text) :
    splitOnce [c] (left ++ c :: right) = some (left, right) := splitOnce_of_not_mem absent right

/-- The last occurrence is the one after which no other starts. -/
theorem rsplitOnce_append {c : Char} {cs right : Text} (last : ¬ (c :: cs) <:+: cs ++ right)
    (left : Text) : rsplitOnce (c :: cs) (left ++ (c :: cs ++ right)) = some (left, right) := by
  induction left with
  | nil =>
    have here : (c :: cs).isPrefixOf? (c :: (cs ++ right)) = some right :=
      List.isPrefixOf?_eq_some_iff_append_eq.mpr rfl
    rw [List.nil_append, List.cons_append, rsplitOnce, rsplitOnce_eq_none_iff.mpr last, here]
    rfl
  | cons d left ih => rw [List.cons_append, rsplitOnce, ih]

/-- A pattern that begins nowhere in the left part is found as it is in the right part. -/
theorem splitOnce_append_of_clear {pat left right : Text}
    (clear : ∀ u v, left = u ++ v → v ≠ [] → ¬ pat <+: v ++ right) :
    splitOnce pat (left ++ right) =
      (splitOnce pat right).map fun parts => (left ++ parts.1, parts.2) := by
  induction left with
  | nil => simp
  | cons c left ih =>
    have here : pat.isPrefixOf? (c :: (left ++ right)) = none := by
      rw [Option.eq_none_iff_forall_ne_some]
      intro rest found
      exact clear [] (c :: left) rfl (List.cons_ne_nil c left)
        ⟨rest, List.isPrefixOf?_eq_some_iff_append_eq.mp found⟩
    have later := ih fun u v same nonempty => clear (c :: u) v (congrArg (c :: ·) same) nonempty
    rw [List.cons_append, splitOnce, here, later, Option.map_map]
    rfl

/-! ## Trimming around a visible character -/

theorem isWhitespace_space : isWhitespace ' ' = true := by decide

theorem trimStart_cons_of_visible {c : Char} (visible : isWhitespace c = false) (s : Text) :
    trimStart (c :: s) = c :: s := by
  rw [trimStart, List.dropWhile_cons_of_neg (by simp [visible])]

theorem trim_space_cons (s : Text) : trim (' ' :: s) = trim s := by
  rw [trim, trim, trimStart, trimStart, List.dropWhile_cons_of_pos isWhitespace_space]

theorem trimStart_replicate (n : ℕ) (s : Text) :
    trimStart (List.replicate n ' ' ++ s) = trimStart s := by
  induction n with
  | zero => rfl
  | succ n ih =>
    rw [List.replicate_succ, List.cons_append, trimStart,
      List.dropWhile_cons_of_pos isWhitespace_space]
    exact ih

theorem trimStart_append_cons {c : Char} (visible : isWhitespace c = false) (u v : Text) :
    trimStart (u ++ c :: v) = trimStart u ++ c :: v := by
  unfold trimStart
  rw [List.dropWhile_append]
  split_ifs with blank
  · simp [List.isEmpty_iff.mp blank, visible]
  · rfl

theorem trimEnd_append_cons {c : Char} (visible : isWhitespace c = false) (u v : Text) :
    trimEnd (u ++ c :: v) = u ++ c :: trimEnd v := by
  unfold trimEnd List.rdropWhile
  rw [List.reverse_append, List.reverse_cons, List.append_assoc, List.dropWhile_append]
  split_ifs with blank
  · simp [List.isEmpty_iff.mp blank, visible]
  · simp

theorem trimEnd_append_of_last {u : Text} {c : Char} (last : u.getLast? = some c)
    (visible : isWhitespace c = false) (v : Text) : trimEnd (u ++ v) = u ++ trimEnd v := by
  have shape := List.dropLast_append_getLast? c last
  rw [← shape, List.append_assoc, List.singleton_append, trimEnd_append_cons visible]
  simp

theorem trimEnd_append_blank {blank : Text} (isBlank : ∀ c ∈ blank, isWhitespace c = true)
    (s : Text) : trimEnd (s ++ blank) = trimEnd s := by
  unfold trimEnd List.rdropWhile
  have dropped : blank.reverse.dropWhile isWhitespace = [] := by
    rw [List.dropWhile_eq_nil_iff]
    exact fun c member => isBlank c (List.mem_reverse.mp member)
  rw [List.reverse_append, List.dropWhile_append, dropped]
  rfl

theorem trim_between_blank {leading trailing : Text}
    (blankBefore : ∀ c ∈ leading, isWhitespace c = true)
    (blankBehind : ∀ c ∈ trailing, isWhitespace c = true) (s : Text) :
    trim (leading ++ s ++ trailing) = trim s := by
  have start : trimStart (leading ++ (s ++ trailing)) = trimStart (s ++ trailing) :=
    List.dropWhile_append_of_pos blankBefore
  have nothing : trimStart trailing = [] := List.dropWhile_eq_nil_iff.mpr blankBehind
  rw [List.append_assoc, trim, trim, start, trimStart, List.dropWhile_append]
  split_ifs with blank
  · rw [trimStart, List.isEmpty_iff.mp blank]
    exact congrArg trimEnd nothing
  · exact trimEnd_append_blank blankBehind _

theorem stripPrefixes_append_cons {pat : Text} {c : Char} (absent : c ∉ pat) (n : ℕ) (u v : Text) :
    stripPrefixes pat n (u ++ c :: v) = stripPrefixes pat n u ++ c :: v := by
  induction n generalizing u with
  | zero => rfl
  | succ n ih =>
    rw [stripPrefixes, stripPrefixes, isPrefixOf?_append_cons absent]
    cases pat.isPrefixOf? u with
    | none => rfl
    | some rest => exact ih rest

/-- Every round shortens the text, so its length is fuel enough. -/
theorem stripPrefixes_of_length_le {pat : Text} (nonempty : pat ≠ []) {n : ℕ} {s : Text}
    (enough : s.length ≤ n) : stripPrefixes pat n s = trimStartMatches pat s := by
  have fuel (bound : ℕ) : ∀ (s : Text) (n k : ℕ), s.length ≤ bound → s.length ≤ n → s.length ≤ k →
      stripPrefixes pat n s = stripPrefixes pat k s := by
    have atEnd (n : ℕ) : stripPrefixes pat n [] = [] := by
      cases n with
      | zero => rfl
      | succ n =>
        cases pat with
        | nil => contradiction
        | cons d ds => rfl
    induction bound with
    | zero =>
      intro s n k short _ _
      obtain rfl := List.length_eq_zero_iff.mp (Nat.le_zero.mp short)
      rw [atEnd, atEnd]
    | succ bound ih =>
      intro s n k short left right
      cases s with
      | nil => rw [atEnd, atEnd]
      | cons c cs =>
        obtain ⟨n, rfl⟩ : ∃ n', n = n' + 1 := ⟨n - 1, by simp at left; omega⟩
        obtain ⟨k, rfl⟩ : ∃ k', k = k' + 1 := ⟨k - 1, by simp at right; omega⟩
        rw [stripPrefixes, stripPrefixes]
        cases found : pat.isPrefixOf? (c :: cs) with
        | none => rfl
        | some rest =>
          have text := List.isPrefixOf?_eq_some_iff_append_eq.mp found
          have lengths : pat.length + rest.length = (c :: cs).length := by
            rw [← text, List.length_append]
          have := List.length_pos_iff.mpr nonempty
          exact ih rest n k (by omega) (by omega) (by omega)
  exact fuel s.length s n s.length le_rfl enough le_rfl

/-- A text that does not begin like the pattern is not trimmed. -/
theorem stripPrefixes_of_head {p c : Char} {ps cs : Text} (different : p ≠ c) (n : ℕ) :
    stripPrefixes (p :: ps) n (c :: cs) = c :: cs := by
  cases n with
  | zero => rfl
  | succ n => simp [stripPrefixes, List.isPrefixOf?, different]

theorem trimStartMatches_append_cons {pat : Text} {c : Char} (nonempty : pat ≠ [])
    (absent : c ∉ pat) (u v : Text) :
    trimStartMatches pat (u ++ c :: v) = trimStartMatches pat u ++ c :: v := by
  rw [trimStartMatches, stripPrefixes_append_cons absent,
    stripPrefixes_of_length_le nonempty (by simp)]

/-! ## Words -/

theorem splitWhitespace_append_cons {c : Char} (blank : isWhitespace c = true) (u v : Text) :
    splitWhitespace (u ++ c :: v) = splitWhitespace u ++ splitWhitespace v := by
  rw [splitWhitespace, List.splitOnP_append_cons u v blank, List.filter_append]
  rfl

theorem splitWhitespace_of_visible {s : Text} (nonempty : s ≠ [])
    (visible : ∀ c ∈ s, isWhitespace c = false) : splitWhitespace s = [s] := by
  rw [splitWhitespace, List.splitOnP_eq_singleton]
  · simp [nonempty]
  · simpa using visible

theorem splitWhitespace_blank_append {blank : Text} (isBlank : ∀ c ∈ blank, isWhitespace c = true)
    (s : Text) : splitWhitespace (blank ++ s) = splitWhitespace s := by
  induction blank with
  | nil => rfl
  | cons c cs ih =>
    have head := splitWhitespace_append_cons (isBlank c List.mem_cons_self) [] (cs ++ s)
    rw [List.nil_append] at head
    rw [List.cons_append, head, ih fun d member => isBlank d (List.mem_cons_of_mem c member)]
    rfl

theorem splitWhitespace_append_blank {blank : Text} (isBlank : ∀ c ∈ blank, isWhitespace c = true)
    (s : Text) : splitWhitespace (s ++ blank) = splitWhitespace s := by
  cases blank with
  | nil => rw [List.append_nil]
  | cons c cs =>
    have tail := splitWhitespace_blank_append
      (fun d member => isBlank d (List.mem_cons_of_mem c member)) []
    rw [List.append_nil] at tail
    rw [splitWhitespace_append_cons (isBlank c List.mem_cons_self), tail]
    exact List.append_nil _

theorem splitWhitespace_trim (s : Text) : splitWhitespace (trim s) = splitWhitespace s := by
  obtain ⟨leading, start, blankStart⟩ := trimStart_spec s
  obtain ⟨trailing, finish, blankEnd⟩ := trimEnd_spec (trimStart s)
  conv_rhs => rw [start, splitWhitespace_blank_append blankStart, finish,
    splitWhitespace_append_blank blankEnd]
  rfl

/-! ## Whole lines -/

/-- A text made of complete lines: it is empty or ends with a line feed. -/
def WholeLines (s : Text) : Prop := s = [] ∨ s.getLast? = some '\n'

theorem splitInclusive_cons_newline (s : Text) :
    splitInclusive ('\n' :: s) = ['\n'] :: splitInclusive s := by simp [splitInclusive]

theorem splitInclusive_cons_of_ne {c : Char} (different : c ≠ '\n') {s piece : Text}
    {pieces : List Text} (split : splitInclusive s = piece :: pieces) :
    splitInclusive (c :: s) = (c :: piece) :: pieces := by
  rw [splitInclusive, if_neg different, split]

theorem exists_splitInclusive_cons (c : Char) (s : Text) :
    ∃ piece pieces, splitInclusive (c :: s) = piece :: pieces := by
  by_cases newline : c = '\n'
  · exact ⟨_, _, newline ▸ splitInclusive_cons_newline s⟩
  · cases split : splitInclusive s with
    | nil => exact ⟨[c], [], by simp [splitInclusive, newline, split]⟩
    | cons piece pieces => exact ⟨_, _, splitInclusive_cons_of_ne newline split⟩

theorem WholeLines.of_cons {c : Char} {s : Text} (whole : WholeLines (c :: s)) :
    WholeLines s := by
  rcases whole with empty | last
  · contradiction
  · cases s with
    | nil => exact .inl rfl
    | cons d ds => exact .inr (by simpa using last)

theorem splitInclusive_append {a : Text} (whole : WholeLines a) (b : Text) :
    splitInclusive (a ++ b) = splitInclusive a ++ splitInclusive b := by
  induction a with
  | nil => rfl
  | cons c cs ih =>
    have rest := ih whole.of_cons
    by_cases newline : c = '\n'
    · simp only [newline, List.cons_append, splitInclusive_cons_newline, rest]
    · cases cs with
      | nil => exact absurd (by simpa [WholeLines] using whole) newline
      | cons d ds =>
        obtain ⟨piece, pieces, split⟩ := exists_splitInclusive_cons d ds
        rw [split] at rest
        rw [List.cons_append, splitInclusive_cons_of_ne newline (rest.trans List.cons_append),
          splitInclusive_cons_of_ne newline split, List.cons_append]

theorem lines_append {a : Text} (whole : WholeLines a) (b : Text) :
    lines (a ++ b) = lines a ++ lines b := by
  simp [lines, splitInclusive_append whole]

/-- A carriage return at the end of a line that a line feed ends is dropped. -/
def stripReturn (line : Text) : Text :=
  if line.getLast? = some '\r' then line.dropLast else line

theorem splitInclusive_line {line : Text} (single : '\n' ∉ line) (rest : Text) :
    splitInclusive (line ++ '\n' :: rest) = (line ++ ['\n']) :: splitInclusive rest := by
  induction line with
  | nil => exact splitInclusive_cons_newline rest
  | cons c cs ih =>
    have different : c ≠ '\n' := fun same => single (same ▸ List.mem_cons_self ..)
    exact splitInclusive_cons_of_ne different
      (ih (fun member => single (List.mem_cons_of_mem _ member)))

theorem lines_line {line : Text} (single : '\n' ∉ line) (rest : Text) :
    lines (line ++ '\n' :: rest) = stripReturn line :: lines rest := by
  simp [lines, splitInclusive_line single, stripLineEnd, stripReturn]

/-- What `stripReturn` drops is whitespace. -/
theorem stripReturn_spec (line : Text) :
    ∃ blank, line = stripReturn line ++ blank ∧ ∀ c ∈ blank, isWhitespace c = true := by
  unfold stripReturn
  split_ifs with last
  · refine ⟨['\r'], (List.dropLast_append_getLast? _ last).symm, ?_⟩
    simp only [List.mem_singleton, forall_eq]
    decide
  · exact ⟨[], by simp⟩

theorem stripReturn_append {left right : Text} (last : left.getLast? ≠ some '\r') :
    stripReturn (left ++ right) = left ++ stripReturn right := by
  cases right with
  | nil => simp [stripReturn, last]
  | cons c cs =>
    simp only [stripReturn, List.getLast?_append_of_ne_nil _ (List.cons_ne_nil c cs)]
    split_ifs
    · rw [List.dropLast_append_of_ne_nil (List.cons_ne_nil c cs)]
    · rfl

theorem splitInclusive_of_not_mem {s : Text} (nonempty : s ≠ []) (single : '\n' ∉ s) :
    splitInclusive s = [s] := by
  induction s with
  | nil => contradiction
  | cons c cs ih =>
    have different : c ≠ '\n' := fun same => single (same ▸ List.mem_cons_self)
    by_cases atEnd : cs = []
    · simp [splitInclusive, different, atEnd]
    · exact splitInclusive_cons_of_ne different
        (ih atEnd fun member => single (List.mem_cons_of_mem c member))

theorem lines_of_not_mem {s : Text} (nonempty : s ≠ []) (single : '\n' ∉ s) : lines s = [s] := by
  have last : s.getLast? ≠ some '\n' := fun last => single (List.mem_of_getLast? last)
  simp [lines, splitInclusive_of_not_mem nonempty single, stripLineEnd, last]

theorem not_mem_stripReturn {c : Char} {line : Text} (absent : c ∉ line) :
    c ∉ stripReturn line := by
  obtain ⟨blank, text, -⟩ := stripReturn_spec line
  rw [text] at absent
  exact fun member => absent (List.mem_append_left _ member)

/-- An induction over the lines of a text. -/
theorem lines_induction {motive : Text → Prop} (nil : motive [])
    (rest : ∀ s, s ≠ [] → '\n' ∉ s → motive s)
    (line : ∀ line s, '\n' ∉ line → motive s → motive (line ++ '\n' :: s)) (s : Text) :
    motive s := by
  induction bound : s.length using Nat.strong_induction_on generalizing s with
  | _ n ih =>
    by_cases several : '\n' ∈ s
    · obtain ⟨first, s, rfl, single⟩ := List.eq_append_cons_of_mem several
      refine line first s single (ih s.length ?_ s rfl)
      rw [← bound, List.length_append, List.length_cons]
      omega
    · by_cases empty : s = []
      · exact empty ▸ nil
      · exact rest s empty several

theorem not_mem_of_mem_lines {s line : Text} (member : line ∈ lines s) : '\n' ∉ line := by
  induction s using lines_induction with
  | nil => simp [lines, splitInclusive] at member
  | rest s nonempty single =>
    rw [lines_of_not_mem nonempty single, List.mem_singleton] at member
    exact member ▸ single
  | line first s single ih =>
    rw [lines_line single, List.mem_cons] at member
    rcases member with rfl | member
    · exact not_mem_stripReturn single
    · exact ih member

/-- Lines that are written one after another are read back, up to a carriage return at the end. -/
theorem lines_flatMap {all : List Text} (single : ∀ line ∈ all, '\n' ∉ line) :
    lines (all.flatMap fun line => line ++ ['\n']) = all.map stripReturn := by
  induction all with
  | nil => rfl
  | cons line all ih =>
    have rest := ih fun other member => single other (List.mem_cons_of_mem line member)
    rw [List.flatMap_cons, List.append_assoc, List.singleton_append,
      lines_line (single line List.mem_cons_self), rest, List.map_cons]

/-- With a carriage return at every end, all lines are read back. -/
theorem lines_flatMap_return {all : List Text} (single : ∀ line ∈ all, '\n' ∉ line) :
    lines (all.flatMap fun line => line ++ ['\r', '\n']) = all := by
  have shape : (all.flatMap fun line => line ++ ['\r', '\n']) =
      (all.map fun line => line ++ ['\r']).flatMap fun line => line ++ ['\n'] := by
    simp [List.flatMap_map]
  have single' : ∀ line ∈ all.map fun line => line ++ ['\r'], '\n' ∉ line := by
    intro line member
    obtain ⟨bare, inAll, rfl⟩ := List.mem_map.mp member
    simp [single bare inAll]
  have kept (line : Text) : stripReturn (line ++ ['\r']) = line := by simp [stripReturn]
  rw [shape, lines_flatMap single', List.map_map, Function.comp_def]
  simp only [kept, List.map_id']

end Text

end Rust
