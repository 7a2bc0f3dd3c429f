import UcrashReport.Decoder.Scrub
import UcrashReport.Rust.Fields
import UcrashReport.Rust.Language
import UcrashReport.Rust.Tokens

/-! # Addresses

The texts that scrubbing looks for, and what the expressions take of them.
-/

namespace UcrashReport.Scrub

open Rust Rust.Text Regex

theorem isWord_colon (classes : CharClasses) : classes.isWord ':' = false :=
  (classes.isWord_ascii ':' (by decide)).trans (by decide)

theorem isWord_dot (classes : CharClasses) : classes.isWord '.' = false :=
  (classes.isWord_ascii '.' (by decide)).trans (by decide)

theorem not_mem_of_forall {p : Char → Bool} {c : Char} (rejected : p c = false) {t : Text}
    (all : ∀ d ∈ t, p d = true) : c ∉ t := by
  intro member
  have accepted := all c member
  rw [rejected] at accepted
  contradiction

/-- What scrubbing sees of a token. -/
structure Piece (classes : CharClasses) (sep : Char) (fields : List Text) (tail : Text) : Prop where
  nonempty : fields ≠ []
  free : Free sep fields
  words : ∀ field ∈ fields, ∀ c ∈ field, classes.isWord c = true
  avoids : ∀ d ∈ tail.head?, macRe.Avoids d ∧ (ipv4Re classes).Avoids d ∧ ipv6Re.Avoids d

variable {classes : CharClasses}

/-! ## MAC addresses -/

def IsHexByte (t : Text) : Prop := t.length = 2 ∧ ∀ c ∈ t, isAsciiHexdigit c = true

/-- Six colon-separated groups of two hex digits. -/
def IsMac (t : Text) : Prop :=
  ∃ bytes : List Text, bytes.length = 6 ∧ (∀ byte ∈ bytes, IsHexByte byte) ∧ t = join ':' bytes

def macParts : List Regex :=
  [group 1 (sequence [hexByte, char ':', hexByte, char ':', hexByte]), char ':', hexByte, char ':',
    hexByte, char ':', hexByte]

theorem macRe_eq : macRe = bounded macParts := rfl

theorem takes_hexByte {t : Text} : hexByte.Takes t ↔ IsHexByte t := takes_times_set

theorem takes_macParts {t : Text} : (sequence macParts).Takes t ↔ IsMac t := by
  have vendor {t : Text} :
      (group 1 (sequence [hexByte, char ':', hexByte, char ':', hexByte])).Takes t ↔
        ∃ fields, List.Forall₂ Takes [hexByte, hexByte, hexByte] fields ∧ t = join ':' fields :=
    @takes_sequence_intersperse ':' [hexByte, hexByte, hexByte] t
  have whole : (sequence macParts).Takes t ↔ ∃ fields, List.Forall₂ Takes
      [group 1 (sequence [hexByte, char ':', hexByte, char ':', hexByte]), hexByte, hexByte,
        hexByte] fields ∧ t = join ':' fields :=
    @takes_sequence_intersperse ':' [group 1 (sequence [hexByte, char ':', hexByte, char ':',
      hexByte]), hexByte, hexByte, hexByte] t
  simp only [whole, List.forall₂_cons_left_iff, List.forall₂_nil_left_iff, vendor, takes_hexByte]
  constructor
  · rintro ⟨_, ⟨_, _, ⟨_, ⟨b₁, _, h₁, ⟨b₂, _, h₂, ⟨b₃, _, h₃, rfl, rfl⟩, rfl⟩, rfl⟩, rfl⟩,
      ⟨b₄, _, h₄, ⟨b₅, _, h₅, ⟨b₆, _, h₆, rfl, rfl⟩, rfl⟩, rfl⟩, rfl⟩, rfl⟩
    exact ⟨[b₁, b₂, b₃, b₄, b₅, b₆], rfl, by simp [*], by simp⟩
  · rintro ⟨bytes, length, all, rfl⟩
    match bytes, length, all with
    | [b₁, b₂, b₃, b₄, b₅, b₆], _, all =>
      refine ⟨_, ⟨join ':' [b₁, b₂, b₃], _, ⟨_, ⟨b₁, _, ?_, ⟨b₂, _, ?_, ⟨b₃, _, ?_, rfl, rfl⟩, rfl⟩,
        rfl⟩, rfl⟩, ⟨b₄, _, ?_, ⟨b₅, _, ?_, ⟨b₆, _, ?_, rfl, rfl⟩, rfl⟩, rfl⟩, rfl⟩, by simp⟩
      all_goals exact all _ (by simp)

theorem group_of_mac {before : Option Char} {s : Text} {m : Match}
    (member : m ∈ runs classes.isWord macRe before s) : m.group 1 = m.taken.take 8 := by
  rw [macRe_eq, mem_runs_bounded] at member
  obtain ⟨left, inVendor, right, inRest, rfl⟩ := mem_runs_seq.mp member.2.1
  rw [runs, List.mem_map] at inVendor
  obtain ⟨vendor, inVendor, rfl⟩ := inVendor
  have ungrouped : vendor.groups = [] :=
    groups_eq_nil (by simp [Regex.sequence, Ungrouped, hexByte, hexDigit, times, char]) vendor
      inVendor
  have takes : ∃ fields, List.Forall₂ Takes [hexByte, hexByte, hexByte] fields ∧
      vendor.taken = join ':' fields :=
    (@takes_sequence_intersperse ':' [hexByte, hexByte, hexByte] _).mp
      (takes_of_mem_runs vendor inVendor)
  simp only [List.forall₂_cons_left_iff, List.forall₂_nil_left_iff, takes_hexByte] at takes
  obtain ⟨_, ⟨b₁, _, h₁, ⟨b₂, _, h₂, ⟨b₃, _, h₃, rfl, rfl⟩, rfl⟩, rfl⟩, taken⟩ := takes
  have length : vendor.taken.length = 8 := by
    simp [taken, h₁.1, h₂.1, h₃.1]
  simp [Match.group, Match.andThen, ungrouped, ← length]

theorem mem_join_of_length {sep : Char} {fields : List Text} (several : 2 ≤ fields.length) :
    sep ∈ join sep fields := by
  rcases fields with _ | ⟨first, _ | ⟨second, fields⟩⟩
  · simp at several
  · simp at several
  · simp

theorem colon_mem_of_mac (before : Option Char) (s : Text) :
    ∀ m ∈ runs classes.isWord macRe before s, ':' ∈ m.taken := by
  intro m member
  rw [macRe_eq] at member
  obtain ⟨bytes, length, -, taken⟩ :=
    takes_macParts.mp (takes_of_mem_runs m (mem_runs_bounded.mp member).2.1)
  rw [taken]
  exact mem_join_of_length (by omega)

/-- What stands for the last three bytes. -/
def maskedBytes : List Text := ["xx".toList, "xx".toList, "xx".toList]

/-- Six bytes keep the first three of them. -/
theorem take_join_bytes {bytes : List Text} (length : bytes.length = 6)
    (hexBytes : ∀ byte ∈ bytes, IsHexByte byte) :
    (join ':' bytes).take 8 ++ ":xx:xx:xx".toList = join ':' (bytes.take 3 ++ maskedBytes) := by
  match bytes, length with
  | [b₁, b₂, b₃, b₄, b₅, b₆], _ =>
    have eight : (join ':' [b₁, b₂, b₃]).length = 8 := by
      simp [(hexBytes b₁ (by simp)).1, (hexBytes b₂ (by simp)).1, (hexBytes b₃ (by simp)).1]
    have rest : join ':' [b₁, b₂, b₃, b₄, b₅, b₆] =
        join ':' [b₁, b₂, b₃] ++ ':' :: join ':' [b₄, b₅, b₆] := by simp
    rw [rest, ← eight, List.take_left]
    simp [maskedBytes]

/-- A match is six whole groups. -/
theorem mac_run {fields : List Text} {u v tail : Text} {before : Option Char} {m : Match}
    (piece : Piece classes ':' fields tail) (same : join ':' fields = u ++ v)
    (inRuns : m ∈ runs classes.isWord macRe (u.getLast?.or before) (v ++ tail)) :
    ∃ pre bytes post, fields = pre ++ (bytes ++ post) ∧ bytes.length = 6 ∧
      (∀ byte ∈ bytes, IsHexByte byte) ∧ u = ended ':' pre ∧ m.taken = join ':' bytes ∧
      v = m.taken ++ begun ':' post ∧ (pre = [] → before.any classes.isWord = false) ∧
      (post = [] → tail.head?.any classes.isWord = false) := by
  have inside := Avoids.taken_isPrefix (fun d first => (piece.avoids d first).1) inRuns
  rw [macRe_eq] at inRuns
  obtain ⟨bytes, length, all, taken⟩ :=
    takes_macParts.mp (takes_of_mem_runs m (mem_runs_bounded.mp inRuns).2.1)
  have free (byte : Text) (member : byte ∈ bytes) : ':' ∉ byte :=
    not_mem_of_forall (by decide) (all byte member).2
  have filled (byte : Text) (member : byte ∈ bytes) : byte ≠ [] := by
    rintro rfl
    exact absurd (all [] member).1 (by decide)
  match bytes, length, all, taken, free, filled with
  | [b₁, b₂, b₃, b₄, b₅, b₆], length, all, taken, free, filled =>
    have freeMiddle : Free ':' [b₂, b₃, b₄, b₅] := fun byte member =>
      free byte (.tail b₁ (List.mem_append_left [b₆] member))
    obtain ⟨pre, b, post, left, right, split, outer, closes, -⟩ :=
      fields_of_run piece.nonempty piece.free (isWord_colon classes) piece.words
        (free b₁ (by simp)) freeMiddle (free b₆ (by simp)) (filled b₁ (by simp)) same inRuns inside
        taken
    obtain ⟨rfl, outer'⟩ := closes (filled b₆ (by simp))
    exact ⟨pre, [b₁, b₂, b₃, b₄, b₅, b₆], post, by simpa using split, rfl, all, left, taken, right,
      outer, outer'⟩

/-! ## IPv4 addresses -/

/-- A number up to 255 in one to three digits, perhaps with zeros in front. -/
structure IsByteNumber (t : Text) : Prop where
  length : 1 ≤ t.length ∧ t.length ≤ 3
  digits : ∀ c ∈ t, isAsciiDigit c = true
  small : Nat.ofDigitChars 10 t 0 ≤ 255

/-- Four dotted numbers up to 255. -/
def IsQuad (t : Text) : Prop :=
  ∃ octets : List Text, octets.length = 4 ∧ (∀ o ∈ octets, IsByteNumber o) ∧ t = join '.' octets

/-- Three digits of which the first is a zero. -/
def IsPadded (octet : Text) : Prop := octet.length = 3 ∧ octet.head? = some '0'

instance (octet : Text) : Decidable (IsPadded octet) := inferInstanceAs (Decidable (_ ∧ _))

/-- Some number between the dots has three digits of which the first is a zero. -/
def HasPadded (t : Text) : Prop := ∃ octet ∈ t.splitOn '.', IsPadded octet

instance (t : Text) : Decidable (HasPadded t) :=
  inferInstanceAs (Decidable (∃ octet ∈ t.splitOn '.', IsPadded octet))

theorem IsByteNumber.ne_nil {t : Text} (number : IsByteNumber t) : t ≠ [] := by
  rintro rfl
  exact absurd number.length.1 (by decide)

theorem IsByteNumber.dot_free {t : Text} (number : IsByteNumber t) : '.' ∉ t :=
  not_mem_of_forall (by decide) number.digits

theorem hasPadded_join {octets : List Text} (nonempty : octets ≠ [])
    (numbers : ∀ o ∈ octets, IsByteNumber o) :
    HasPadded (join '.' octets) ↔ ∃ o ∈ octets, IsPadded o := by
  have split : (join '.' octets).splitOn '.' = octets :=
    List.splitOn_intercalate '.' (fun o member => (numbers o member).dot_free) nonempty
  rw [HasPadded, split]

def ipv4Parts (classes : CharClasses) : List Regex :=
  [group 1 (octet classes), char '.', group 2 (octet classes), char '.', group 3 (octet classes),
    char '.', group 4 (octet classes)]

theorem ipv4Re_eq : ipv4Re classes = bounded (ipv4Parts classes) := rfl

theorem isDigit_of_isAsciiDigit {c : Char} (digit : isAsciiDigit c = true) :
    classes.isDigit c = true := by
  have isAscii : c.toNat < 128 := by
    simp only [isAsciiDigit, Bool.and_eq_true, decide_eq_true_eq] at digit
    omega
  rw [classes.isDigit_ascii c isAscii, digit]

theorem takes_octet_iff {t : Text} :
    (octet classes).Takes t ↔
      (∃ c, ('0'.toNat ≤ c.toNat ∧ c.toNat ≤ '5'.toNat) ∧ t = ['2', '5', c]) ∨
      (∃ c d, ('0'.toNat ≤ c.toNat ∧ c.toNat ≤ '4'.toNat) ∧ classes.isDigit d = true ∧
        t = ['2', c, d]) ∨
      ∃ u v d, (u = ['1'] ∨ u = []) ∧ (v = [] ∨ ∃ c, classes.isDigit c = true ∧ v = [c]) ∧
        classes.isDigit d = true ∧ t = u ++ (v ++ [d]) := by
  simp only [octet, Regex.sequence, List.foldr, Takes, takes_char, takes_opt, range, Bool.and_eq_true,
    decide_eq_true_eq]
  refine or_congr ?_ (or_congr ?_ ?_)
  · constructor
    · rintro ⟨_, _, rfl, ⟨_, _, rfl, ⟨_, _, ⟨c, bounds, rfl⟩, rfl, rfl⟩, rfl⟩, rfl⟩
      exact ⟨c, bounds, rfl⟩
    · rintro ⟨c, bounds, rfl⟩
      exact ⟨_, _, rfl, ⟨_, _, rfl, ⟨_, _, ⟨c, bounds, rfl⟩, rfl, rfl⟩, rfl⟩, rfl⟩
  · constructor
    · rintro ⟨_, _, rfl, ⟨_, _, ⟨c, bounds, rfl⟩, ⟨_, _, ⟨d, digit, rfl⟩, rfl, rfl⟩, rfl⟩, rfl⟩
      exact ⟨c, d, bounds, digit, rfl⟩
    · rintro ⟨c, d, bounds, digit, rfl⟩
      exact ⟨_, _, rfl, ⟨_, _, ⟨c, bounds, rfl⟩, ⟨_, _, ⟨d, digit, rfl⟩, rfl, rfl⟩, rfl⟩, rfl⟩
  · constructor
    · rintro ⟨u, _, first, ⟨v, _, second, ⟨_, _, ⟨d, digit, rfl⟩, rfl, rfl⟩, rfl⟩, rfl⟩
      exact ⟨u, v, d, first, second.symm, digit, rfl⟩
    · rintro ⟨u, v, d, first, second, digit, rfl⟩
      exact ⟨u, _, first, ⟨v, _, second.symm, ⟨_, _, ⟨d, digit, rfl⟩, rfl, rfl⟩, rfl⟩, rfl⟩

/-- An octet is made of digits. -/
theorem digits_of_takes_octet {t : Text} (takes : (octet classes).Takes t) :
    t ≠ [] ∧ ∀ c ∈ t, classes.isDigit c = true := by
  have digit {c : Char} (low : 48 ≤ c.toNat) (high : c.toNat ≤ 57) : classes.isDigit c = true :=
    isDigit_of_isAsciiDigit (by simp [isAsciiDigit, low, high])
  have one : classes.isDigit '1' = true := digit (by decide) (by decide)
  have two : classes.isDigit '2' = true := digit (by decide) (by decide)
  have five : classes.isDigit '5' = true := digit (by decide) (by decide)
  rcases takes_octet_iff.mp takes with
    ⟨c, ⟨low, high⟩, rfl⟩ | ⟨c, d, ⟨low, high⟩, last, rfl⟩ | ⟨u, v, d, first, second, last, rfl⟩
  · have : classes.isDigit c = true := digit low (high.trans (by decide))
    simp [*]
  · have : classes.isDigit c = true := digit low (high.trans (by decide))
    simp [*]
  · rcases first with rfl | rfl <;> rcases second with rfl | ⟨c, middle, rfl⟩ <;> simp [*]

/-- The expression takes a number up to 255 unless it is filled up with zeros to three digits. -/
theorem takes_octet_iff_of_number {t : Text} (number : IsByteNumber t) :
    (octet classes).Takes t ↔ ¬ IsPadded t := by
  obtain ⟨length, digits, small⟩ := number
  rw [takes_octet_iff]
  constructor
  · rintro (⟨c, -, rfl⟩ | ⟨c, d, -, -, rfl⟩ | ⟨u, v, d, first, second, -, rfl⟩) ⟨three, zero⟩
    · simp at zero
    · simp at zero
    · rcases first with rfl | rfl
      · simp at zero
      · rcases second with rfl | ⟨c, -, rfl⟩ <;> simp at three
  · intro unpadded
    have digit (c : Char) (member : c ∈ t) : classes.isDigit c = true :=
      isDigit_of_isAsciiDigit (digits c member)
    match t, length with
    | [d], _ => exact .inr (.inr ⟨[], [], d, .inr rfl, .inl rfl, digit d (by simp), rfl⟩)
    | [c, d], _ =>
      exact .inr (.inr ⟨[], [c], d, .inr rfl, .inr ⟨c, digit c (by simp), rfl⟩, digit d (by simp),
        rfl⟩)
    | [b, c, d], _ =>
      have bounds (e : Char) (member : e ∈ [b, c, d]) : 48 ≤ e.toNat ∧ e.toNat ≤ 57 := by
        simpa [isAsciiDigit] using digits e member
      have boundsB := bounds b (by simp)
      have boundsC := bounds c (by simp)
      have boundsD := bounds d (by simp)
      have zero : '0'.toNat = 48 := rfl
      have value : 100 * (b.toNat - 48) + 10 * (c.toNat - 48) + (d.toNat - 48) ≤ 255 := by
        simp only [Nat.ofDigitChars_cons, Nat.ofDigitChars_nil, zero] at small
        omega
      have notZero : b.toNat ≠ 48 := fun same =>
        unpadded ⟨rfl, by rw [show b = '0' from Char.toNat_inj.mp same]; rfl⟩
      -- The first digit is 1 or 2, and behind 2 the second one is 5 at most.
      rcases (show b.toNat = 49 ∨ b.toNat = 50 by omega) with one | two
      · rw [show b = '1' from Char.toNat_inj.mp one]
        exact .inr (.inr ⟨['1'], [c], d, .inl rfl, .inr ⟨c, digit c (by simp), rfl⟩,
          digit d (by simp), rfl⟩)
      · rw [show b = '2' from Char.toNat_inj.mp two]
        by_cases five : c.toNat = 53
        · rw [show c = '5' from Char.toNat_inj.mp five]
          exact .inl ⟨d, ⟨boundsD.1, show d.toNat ≤ 53 by omega⟩, rfl⟩
        · exact .inr (.inl ⟨c, d, ⟨boundsC.1, show c.toNat ≤ 52 by omega⟩, digit d (by simp), rfl⟩)

theorem takes_ipv4Parts {t : Text} :
    (sequence (ipv4Parts classes)).Takes t ↔
      ∃ octets : List Text, octets.length = 4 ∧ (∀ o ∈ octets, (octet classes).Takes o) ∧
        t = join '.' octets := by
  have whole : (sequence (ipv4Parts classes)).Takes t ↔ ∃ fields, List.Forall₂ Takes
      [group 1 (octet classes), group 2 (octet classes), group 3 (octet classes),
        group 4 (octet classes)] fields ∧ t = join '.' fields :=
    @takes_sequence_intersperse '.' [group 1 (octet classes), group 2 (octet classes),
      group 3 (octet classes), group 4 (octet classes)] t
  simp only [whole, List.forall₂_cons_left_iff, List.forall₂_nil_left_iff, takes_group]
  constructor
  · rintro ⟨_, ⟨o₁, _, h₁, ⟨o₂, _, h₂, ⟨o₃, _, h₃, ⟨o₄, _, h₄, rfl, rfl⟩, rfl⟩, rfl⟩, rfl⟩, rfl⟩
    exact ⟨[o₁, o₂, o₃, o₄], rfl, by simp [*], rfl⟩
  · rintro ⟨octets, length, all, rfl⟩
    match octets, length, all with
    | [o₁, o₂, o₃, o₄], _, all =>
      refine ⟨_, ⟨o₁, _, ?_, ⟨o₂, _, ?_, ⟨o₃, _, ?_, ⟨o₄, _, ?_, rfl, rfl⟩, rfl⟩, rfl⟩, rfl⟩, rfl⟩
      all_goals exact all _ (by simp)

theorem unbounded_ipv4Parts : (sequence (ipv4Parts classes)).Unbounded := by
  have one : (octet classes).Unbounded := by
    simp [octet, Regex.sequence, Unbounded, char, range, opt]
  exact ⟨one, trivial, one, trivial, one, trivial, one, trivial⟩

/-- A match of a text of digits is four whole octets. -/
theorem ipv4_run {fields : List Text} {u v tail : Text} {before : Option Char} {m : Match}
    (piece : Piece classes '.' fields tail) (same : join '.' fields = u ++ v)
    (inRuns : m ∈ runs classes.isWord (ipv4Re classes) (u.getLast?.or before) (v ++ tail)) :
    ∃ pre octets post, fields = pre ++ (octets ++ post) ∧ octets.length = 4 ∧
      (∀ o ∈ octets, (octet classes).Takes o) ∧ u = ended '.' pre ∧
      m.taken = join '.' octets ∧ v = m.taken ++ begun '.' post ∧
      (pre = [] → before.any classes.isWord = false) ∧
      (post = [] → tail.head?.any classes.isWord = false) := by
  have inside := Avoids.taken_isPrefix (fun d first => (piece.avoids d first).2.1) inRuns
  rw [ipv4Re_eq] at inRuns
  obtain ⟨octets, length, all, taken⟩ :=
    takes_ipv4Parts.mp (takes_of_mem_runs m (mem_runs_bounded.mp inRuns).2.1)
  have noDigit : classes.isDigit '.' = false := (classes.isDigit_ascii '.' (by decide)).trans (by decide)
  have free (o : Text) (member : o ∈ octets) : '.' ∉ o :=
    not_mem_of_forall noDigit (digits_of_takes_octet (all o member)).2
  have filled (o : Text) (member : o ∈ octets) : o ≠ [] := (digits_of_takes_octet (all o member)).1
  match octets, length, all, taken, free, filled with
  | [o₁, o₂, o₃, o₄], length, all, taken, free, filled =>
    have freeMiddle : Free '.' [o₂, o₃] := fun o member =>
      free o (.tail o₁ (List.mem_append_left [o₄] member))
    obtain ⟨pre, b, post, left, right, split, outer, closes, -⟩ :=
      fields_of_run piece.nonempty piece.free (isWord_dot classes) piece.words
        (free o₁ (by simp)) freeMiddle (free o₄ (by simp)) (filled o₁ (by simp)) same inRuns inside
        taken
    obtain ⟨rfl, outer'⟩ := closes (filled o₄ (by simp))
    exact ⟨pre, [o₁, o₂, o₃, o₄], post, by simpa using split, rfl, all, left, taken, right, outer,
      outer'⟩

/-! ## IPv6 addresses -/

def IsGroup (t : Text) : Prop :=
  (1 ≤ t.length ∧ t.length ≤ 4) ∧ ∀ c ∈ t, isAsciiHexdigit c = true

theorem takes_hexGroup {t : Text} : hexGroup.Takes t ↔ IsGroup t := takes_between_set (by decide)

theorem IsGroup.ne_nil {t : Text} (isGroup : IsGroup t) : t ≠ [] := by
  rintro rfl
  exact absurd isGroup.1.1 (by decide)

theorem IsHexByte.isGroup {t : Text} (isByte : IsHexByte t) : IsGroup t := by
  obtain ⟨length, digits⟩ := isByte
  exact ⟨by omega, digits⟩

theorem IsGroup.colon_free {t : Text} (isGroup : IsGroup t) : ':' ∉ t :=
  not_mem_of_forall (by decide) isGroup.2

def fullParts : List Regex := [between 5 7 (seq hexGroup (char ':')), hexGroup]

def shortParts : List Regex :=
  [hexGroup, char ':', star (seq hexGroup (char ':')), char ':',
    opt (seq hexGroup (star (seq (char ':') hexGroup)))]

theorem ipv6Re_eq : ipv6Re = alt (bounded fullParts) (bounded shortParts) := rfl

/-- Groups that end with a colon, one after another. -/
theorem exists_ended_of_parts {parts : List Text}
    (all : ∀ part ∈ parts, (seq hexGroup (char ':')).Takes part) :
    ∃ gs : List Text, gs.length = parts.length ∧ (∀ g ∈ gs, IsGroup g) ∧
      parts.flatten = ended ':' gs := by
  induction parts with
  | nil => exact ⟨[], rfl, by simp, rfl⟩
  | cons part parts ih =>
    obtain ⟨g, colon, first, second, rfl⟩ := all _ List.mem_cons_self
    obtain rfl := takes_char.mp second
    obtain ⟨gs, length, groups, same⟩ := ih fun other member => all other (.tail _ member)
    refine ⟨g :: gs, by simp [length], ?_, by simp [same]⟩
    intro other member
    rcases List.mem_cons.mp member with rfl | later
    · exact takes_hexGroup.mp first
    · exact groups other later

theorem exists_begun_of_parts {parts : List Text}
    (all : ∀ part ∈ parts, (seq (char ':') hexGroup).Takes part) :
    ∃ gs : List Text, (∀ g ∈ gs, IsGroup g) ∧ parts.flatten = begun ':' gs := by
  induction parts with
  | nil => exact ⟨[], by simp, rfl⟩
  | cons part parts ih =>
    obtain ⟨colon, g, first, second, rfl⟩ := all _ List.mem_cons_self
    obtain rfl := takes_char.mp first
    obtain ⟨gs, groups, same⟩ := ih fun other member => all other (.tail _ member)
    refine ⟨g :: gs, ?_, by simp [same]⟩
    intro other member
    rcases List.mem_cons.mp member with rfl | later
    · exact takes_hexGroup.mp second
    · exact groups other later

theorem groups_of_takes_full {t : Text} (takes : (sequence fullParts).Takes t) :
    ∃ gs : List Text, 6 ≤ gs.length ∧ gs.length ≤ 8 ∧ (∀ g ∈ gs, IsGroup g) ∧ t = join ':' gs := by
  obtain ⟨u, _, first, ⟨g, _, last, rfl, rfl⟩, rfl⟩ := takes
  obtain ⟨parts, atLeast, atMost, all, rfl⟩ := (takes_between (by decide)).mp first
  obtain ⟨gs, length, groups, same⟩ := exists_ended_of_parts all
  refine ⟨gs ++ [g], by simp; omega, by simp; omega, fun other member => ?_, ?_⟩
  · rcases List.mem_append.mp member with before | here
    · exact groups other before
    · exact List.mem_singleton.mp here ▸ takes_hexGroup.mp last
  · rw [same, ← ended_append_join, join_singleton, List.append_nil]

theorem groups_of_takes_short {t : Text} (takes : (sequence shortParts).Takes t) :
    ∃ gs hs : List Text, gs ≠ [] ∧ (∀ g ∈ gs, IsGroup g) ∧ (∀ h ∈ hs, IsGroup h) ∧
      t = ended ':' gs ++ ':' :: join ':' hs := by
  obtain ⟨g, _, first, ⟨c₁, _, colon₁, ⟨u, _, ⟨parts, all, rfl⟩, ⟨c₂, _, colon₂,
    ⟨v, _, rest, rfl, rfl⟩, rfl⟩, rfl⟩, rfl⟩, rfl⟩ := takes
  obtain rfl := takes_char.mp colon₁
  obtain rfl := takes_char.mp colon₂
  obtain ⟨gs, -, groups, same⟩ := exists_ended_of_parts all
  have groups' : ∀ other ∈ g :: gs, IsGroup other := by
    intro other member
    rcases List.mem_cons.mp member with rfl | later
    · exact takes_hexGroup.mp first
    · exact groups other later
  rcases rest with ⟨h, _, last, ⟨parts', all', rfl⟩, rfl⟩ | rfl
  · obtain ⟨hs, groupsAfter, same'⟩ := exists_begun_of_parts all'
    refine ⟨g :: gs, h :: hs, by simp, groups', ?_, ?_⟩
    · intro other member
      rcases List.mem_cons.mp member with rfl | later
      · exact takes_hexGroup.mp last
      · exact groupsAfter other later
    · rw [same, same', join_cons]
      simp
  · exact ⟨g :: gs, [], by simp, groups', by simp, by simp [same]⟩

/-- A match in a token of words between colons: at least six groups, or groups around an empty
field, or groups before an empty field and a word that begins right after it. -/
inductive Ipv6Run (classes : CharClasses) (before : Option Char) (fields : List Text)
    (u v tail taken : Text) : Prop
  | full (pre gs post : List Text) (split : fields = pre ++ (gs ++ post)) (long : 6 ≤ gs.length)
      (short : gs.length ≤ 8) (groups : ∀ g ∈ gs, IsGroup g) (left : u = ended ':' pre)
      (taken_eq : taken = join ':' gs) (right : v = taken ++ begun ':' post)
      (outer : pre = [] → before.any classes.isWord = false)
      (outer' : post = [] → tail.head?.any classes.isWord = false)
  | short (pre gs hs post : List Text) (split : fields = pre ++ (gs ++ [] :: (hs ++ post)))
      (nonempty : gs ≠ []) (nonempty' : hs ≠ []) (groups : ∀ g ∈ gs, IsGroup g)
      (groups' : ∀ h ∈ hs, IsGroup h) (left : u = ended ':' pre)
      (taken_eq : taken = join ':' (gs ++ [] :: hs)) (right : v = taken ++ begun ':' post)
      (outer : pre = [] → before.any classes.isWord = false)
      (outer' : post = [] → tail.head?.any classes.isWord = false)
  | cut (pre gs : List Text) (b : Text) (post : List Text)
      (split : fields = pre ++ (gs ++ [] :: b :: post)) (nonempty : gs ≠ [])
      (groups : ∀ g ∈ gs, IsGroup g) (left : u = ended ':' pre)
      (taken_eq : taken = join ':' (gs ++ [[], []])) (right : v = taken ++ (b ++ begun ':' post))
      (outer : pre = [] → before.any classes.isWord = false)
      (word : ((b ++ begun ':' post) ++ tail).head?.any classes.isWord = true)

/-- A match of the long form is six groups at least. -/
theorem full_run {fields : List Text} {u v tail : Text} {before : Option Char} {m : Match}
    (piece : Piece classes ':' fields tail) (same : join ':' fields = u ++ v)
    (inRuns : m ∈ runs classes.isWord (bounded fullParts) (u.getLast?.or before) (v ++ tail)) :
    ∃ pre gs post, fields = pre ++ (gs ++ post) ∧ 6 ≤ gs.length ∧ gs.length ≤ 8 ∧
      (∀ g ∈ gs, IsGroup g) ∧ u = ended ':' pre ∧ m.taken = join ':' gs ∧
      v = m.taken ++ begun ':' post ∧ (pre = [] → before.any classes.isWord = false) ∧
      (post = [] → tail.head?.any classes.isWord = false) := by
  have inside := Avoids.taken_isPrefix (fun d first => (piece.avoids d first).2.2)
    (show m ∈ runs classes.isWord ipv6Re _ _ from List.mem_append_left _ inRuns)
  obtain ⟨gs, long, short, groups, taken⟩ :=
    groups_of_takes_full (takes_of_mem_runs m (mem_runs_bounded.mp inRuns).2.1)
  cases gs with
  | nil => simp at long
  | cons g gs =>
    obtain ⟨middle, g', rfl⟩ : ∃ middle g', gs = middle ++ [g'] := by
      obtain ⟨middle, g', same⟩ :=
        (List.eq_nil_or_concat gs).resolve_left (by rintro rfl; simp at long)
      exact ⟨middle, g', by rw [same, List.concat_eq_append]⟩
    obtain ⟨pre, b, post, left, right, split, outer, closes, -⟩ :=
      fields_of_run piece.nonempty piece.free (isWord_colon classes) piece.words
        (groups g (by simp)).colon_free
        (fun other member => (groups other (by simp [member])).colon_free)
        (groups g' (by simp)).colon_free (groups g (by simp)).ne_nil same inRuns inside taken
    obtain ⟨rfl, outer'⟩ := closes (groups g' (by simp)).ne_nil
    exact ⟨pre, g :: (middle ++ [g']), post, by simpa using split, long, short, groups, left, taken,
      right, outer, outer'⟩

theorem ipv6_run {fields : List Text} {u v tail : Text} {before : Option Char} {m : Match}
    (piece : Piece classes ':' fields tail) (same : join ':' fields = u ++ v)
    (inRuns : m ∈ runs classes.isWord ipv6Re (u.getLast?.or before) (v ++ tail)) :
    Ipv6Run classes before fields u v tail m.taken := by
  have inside := Avoids.taken_isPrefix (fun d first => (piece.avoids d first).2.2) inRuns
  rw [ipv6Re_eq, runs, List.mem_append] at inRuns
  rcases inRuns with inRuns | inRuns
  · obtain ⟨pre, gs, post, split, long, short, groups, left, taken, right, outer, outer'⟩ :=
      full_run piece same inRuns
    exact .full pre gs post split long short groups left taken right outer outer'
  · obtain ⟨gs, hs, nonempty, groups, groups', taken⟩ :=
      groups_of_takes_short (takes_of_mem_runs m (mem_runs_bounded.mp inRuns).2.1)
    cases gs with
    | nil => contradiction
    | cons g gs =>
      have freeGroups : Free ':' gs := fun other member => (groups other (.tail g member)).colon_free
      rcases List.eq_nil_or_concat hs with rfl | ⟨hs, h, rfl⟩
      · have taken' : m.taken = join ':' (g :: ((gs ++ [[]]) ++ [[]])) := by
          rw [taken, List.append_assoc, ← List.cons_append]
          exact ended_append_join (g :: gs) [] [[]]
        have freeMiddle : Free ':' (gs ++ [[]]) := by
          intro field member
          rcases List.mem_append.mp member with before | here
          · exact freeGroups field before
          · simp_all
        obtain ⟨pre, b, post, left, right, split, outer, -, word⟩ :=
          fields_of_run piece.nonempty piece.free (isWord_colon classes) piece.words
            (groups g (by simp)).colon_free freeMiddle (by simp) (groups g (by simp)).ne_nil same
            inRuns inside taken'
        exact .cut pre (g :: gs) b post (by simpa using split) nonempty groups left
          (by simpa using taken') right outer (word rfl)
      · rw [List.concat_eq_append] at groups' taken
        have taken' : m.taken = join ':' (g :: ((gs ++ [] :: hs) ++ [h])) := by
          rw [taken, ended_append_sep _ (by simp)]
          simp
        have freeMiddle : Free ':' (gs ++ [] :: hs) := by
          intro field member
          rcases List.mem_append.mp member with before | here
          · exact freeGroups field before
          · rcases List.mem_cons.mp here with rfl | after
            · simp
            · exact (groups' field (by simp [after])).colon_free
        have isGroup := groups' h (by simp)
        obtain ⟨pre, b, post, left, right, split, outer, closes, -⟩ :=
          fields_of_run piece.nonempty piece.free (isWord_colon classes) piece.words
            (groups g (by simp)).colon_free freeMiddle isGroup.colon_free
            (groups g (by simp)).ne_nil same inRuns inside taken'
        obtain ⟨rfl, outer'⟩ := closes isGroup.ne_nil
        exact .short pre (g :: gs) (hs ++ [h]) post (by simpa using split) nonempty (by simp) groups
          groups' left (by simpa using taken') right outer outer'

end UcrashReport.Scrub
