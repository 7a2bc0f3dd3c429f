import UcrashReport.Common.FrameLines
import UcrashReport.Decoder.Addresses
import UcrashReport.Decoder.Annotate
import UcrashReport.Soundness.LogTransport
import Mathlib.Data.List.Chain

/-! # Scrubbed trace lines

Scrubbing goes line by line, and a text without dotted quads, double colons and runs of six groups
is kept as it is. A trace line has colons only in its header and in its location: a timestamp and
the offsets have too few dots for a quad, and the numbers in the suffixes of a symbol never stand
side by side.
-/

namespace UcrashReport.Scrub

open Rust Rust.Text Regex Signature

variable {classes : CharClasses}

/-! ## Texts without addresses -/

/-- One to three digits. -/
def IsOctet (classes : CharClasses) (t : Text) : Prop :=
  (t ≠ [] ∧ t.length ≤ 3) ∧ ∀ c ∈ t, classes.isDigit c = true

/-- A text with no dotted quad, no double colon and no run of six colon-separated groups. -/
structure Inert (classes : CharClasses) (s : Text) : Prop where
  quads : ∀ octets : List Text, octets.length = 4 → (∀ o ∈ octets, IsOctet classes o) →
    ¬ join '.' octets <:+: s
  colons : ¬ "::".toList <:+: s
  runs : ∀ groups : List Text, groups.length = 6 → (∀ g ∈ groups, IsGroup g) →
    ¬ join ':' groups <:+: s

theorem isOctet_of_takes {t : Text} (takes : (octet classes).Takes t) : IsOctet classes t := by
  obtain ⟨nonempty, digits⟩ := digits_of_takes_octet takes
  refine ⟨⟨nonempty, ?_⟩, digits⟩
  rcases takes_octet_iff.mp takes with
    ⟨c, -, rfl⟩ | ⟨c, d, -, -, rfl⟩ | ⟨u, v, d, first, second, -, rfl⟩
  · simp
  · simp
  · rcases first with rfl | rfl <;> rcases second with rfl | ⟨c, -, rfl⟩ <;> simp

/-- Of at least six groups the first six are such a run. -/
theorem Inert.no_groups {s t : Text} (inert : Inert classes s) (inside : t <:+: s)
    {groups : List Text} (long : 6 ≤ groups.length) (isGroup : ∀ g ∈ groups, IsGroup g)
    (shape : t = join ':' groups) : False := by
  have taken : (groups.take 6).length = 6 := by rw [List.length_take]; omega
  have leading : join ':' (groups.take 6) <+: t := by
    rw [shape]
    exact join_take_isPrefix groups (by omega)
  exact inert.runs (groups.take 6) taken (fun g member => isGroup g (List.mem_of_mem_take member))
    (leading.isInfix.trans inside)

/-- Scrubbing keeps a text without addresses. -/
theorem scrub_of_inert {s : Text} (inert : Inert classes s) : scrub classes s = s := by
  have mac : replaceAll classes.isWord macRe maskMac s = s := by
    refine replaceFrom_of_no_infix (fun t inside takes => ?_) none
    obtain ⟨bytes, length, all, shape⟩ := takes_macParts.mp (takes_bounded.mp takes)
    exact inert.no_groups inside length.ge (fun b member => (all b member).isGroup) shape
  have ipv4 : replaceAll classes.isWord (ipv4Re classes) maskIpv4 s = s := by
    refine replaceFrom_of_no_infix (fun t inside takes => ?_) none
    obtain ⟨octets, length, all, rfl⟩ := takes_ipv4Parts.mp (takes_bounded.mp takes)
    exact inert.quads octets length (fun o member => isOctet_of_takes (all o member)) inside
  have ipv6 : replaceAll classes.isWord ipv6Re maskIpv6 s = s := by
    refine replaceFrom_of_no_infix (fun t inside takes => ?_) none
    rcases takes with full | short
    · obtain ⟨groups, long, -, all, shape⟩ := groups_of_takes_full (takes_bounded.mp full)
      exact inert.no_groups inside long all shape
    · obtain ⟨gs, hs, nonempty, -, -, rfl⟩ := groups_of_takes_short (takes_bounded.mp short)
      obtain ⟨front, g, rfl⟩ := (List.eq_nil_or_concat gs).resolve_left nonempty
      refine inert.colons (List.IsInfix.trans ⟨ended ':' front ++ g, join ':' hs, ?_⟩ inside)
      simp [ended]
  rw [scrub, mac, ipv4, ipv6]

/-! ## Putting texts together -/

theorem inert_of_counts {s : Text} (colons : ¬ "::".toList <:+: s) (few : s.count ':' ≤ 4)
    (dots : s.count '.' ≤ 2) : Inert classes s := by
  have separators {sep : Char} {fields : List Text} (inside : join sep fields <:+: s) :
      fields.length ≤ s.count sep + 1 :=
    (length_le_count_join fields).trans (Nat.add_le_add_right (inside.sublist.count_le sep) 1)
  refine ⟨fun octets length _ inside => ?_, colons, fun groups length _ inside => ?_⟩
  · have := separators inside
    omega
  · have := separators inside
    omega

theorem inert_of_no_colon {s : Text} (absent : ':' ∉ s) (dots : s.count '.' ≤ 2) :
    Inert classes s := by
  refine inert_of_counts (fun inside => absent (inside.subset (by decide))) ?_ dots
  rw [List.count_eq_zero.mpr absent]
  omega

/-- A character that is no part of an address may stand between two texts. -/
theorem Inert.append_cons {u v : Text} {c : Char} (separates : Separates c)
    (left : Inert classes u) (right : Inert classes v) : Inert classes (u ++ c :: v) := by
  have noHexdigit := separates.isAsciiHexdigit_eq
  have noDigit : classes.isDigit c = false := by
    rw [classes.isDigit_ascii c separates.1]
    rw [isAsciiHexdigit, Bool.or_eq_false_iff, Bool.or_eq_false_iff] at noHexdigit
    exact noHexdigit.1.1
  obtain ⟨-, -, -, noColon, noDot⟩ := separates
  refine ⟨fun octets length all inside => ?_, fun inside => ?_, fun groups length all inside => ?_⟩
  · have absent : c ∉ join '.' octets := by
      intro member
      rcases mem_join member with same | ⟨o, inOctets, inOctet⟩
      · exact noDot same
      · exact not_mem_of_forall noDigit (all o inOctets).2 inOctet
    rcases (infix_append_cons_of_not_mem absent).mp inside with inLeft | inRight
    · exact left.quads octets length all inLeft
    · exact right.quads octets length all inRight
  · have absent : c ∉ "::".toList := by simpa using noColon
    rcases (infix_append_cons_of_not_mem absent).mp inside with inLeft | inRight
    · exact left.colons inLeft
    · exact right.colons inRight
  · have absent : c ∉ join ':' groups := by
      intro member
      rcases mem_join member with same | ⟨g, inGroups, inGroup⟩
      · exact noColon same
      · exact not_mem_of_forall noHexdigit (all g inGroups).2 inGroup
    rcases (infix_append_cons_of_not_mem absent).mp inside with inLeft | inRight
    · exact left.runs groups length all inLeft
    · exact right.runs groups length all inRight

theorem inert_nil : Inert classes [] := inert_of_no_colon (by simp) (by simp)

theorem Inert.of_infix {s t : Text} (inert : Inert classes s) (inside : t <:+: s) :
    Inert classes t where
  quads octets length all found := inert.quads octets length all (found.trans inside)
  colons found := inert.colons (found.trans inside)
  runs groups length all found := inert.runs groups length all (found.trans inside)

theorem Inert.cons {v : Text} {c : Char} (separates : Separates c) (right : Inert classes v) :
    Inert classes (c :: v) := inert_nil.append_cons separates right

theorem Inert.append {u v : Text} (starts : ∀ c ∈ v.head?, Separates c) (left : Inert classes u)
    (right : Inert classes v) : Inert classes (u ++ v) := by
  cases v with
  | nil => rwa [List.append_nil]
  | cons c v =>
    exact left.append_cons (starts c rfl) (right.of_infix (List.suffix_cons c v).isInfix)

/-! ## Symbols -/

/-- What a compiler appends to the name of a function. -/
inductive CompilerSuffix
  | constprop (n : Digits)
  | isra (n : Digits)
  | part (n : Digits)
  | cold

/-- The words of a suffix, each behind a dot. -/
def CompilerSuffix.words : CompilerSuffix → List Text
  | constprop n => ["constprop".toList, n.text]
  | isra n => ["isra".toList, n.text]
  | part n => ["part".toList, n.text]
  | cold => ["cold".toList]

/-- Two texts that are not both numbers. -/
def NotBothNumbers (classes : CharClasses) (first second : Text) : Prop :=
  ¬ ((∀ c ∈ first, classes.isDigit c = true) ∧ ∀ c ∈ second, classes.isDigit c = true)

/-- A suffix begins with a word that is no number. -/
theorem CompilerSuffix.words_eq (classes : CharClasses) (suffix : CompilerSuffix) :
    ∃ word rest, suffix.words = word :: rest ∧ (rest = [] ∨ ∃ number, rest = [number]) ∧
      ¬ ∀ c ∈ word, classes.isDigit c = true := by
  have letter {c : Char} {cs : Text} (isAscii : c.toNat < 128) (noDigit : isAsciiDigit c = false) :
      ¬ ∀ d ∈ c :: cs, classes.isDigit d = true := by
    intro all
    have digit := all c List.mem_cons_self
    rw [classes.isDigit_ascii c isAscii, noDigit] at digit
    contradiction
  cases suffix with
  | constprop n => exact ⟨_, _, rfl, .inr ⟨_, rfl⟩, letter (by decide) (by decide)⟩
  | isra n => exact ⟨_, _, rfl, .inr ⟨_, rfl⟩, letter (by decide) (by decide)⟩
  | part n => exact ⟨_, _, rfl, .inr ⟨_, rfl⟩, letter (by decide) (by decide)⟩
  | cold => exact ⟨_, _, rfl, .inl rfl, letter (by decide) (by decide)⟩

theorem isChain_words (classes : CharClasses) (suffixes : List CompilerSuffix) :
    (suffixes.flatMap CompilerSuffix.words).IsChain (NotBothNumbers classes) := by
  induction suffixes with
  | nil => exact .nil
  | cons suffix suffixes ih =>
    obtain ⟨word, rest, words, short, noNumber⟩ := suffix.words_eq classes
    rw [List.flatMap_cons, words, List.cons_append, List.isChain_cons]
    refine ⟨fun next _ both => noNumber both.1, ?_⟩
    rcases short with rfl | ⟨number, rfl⟩
    · exact ih
    · rw [List.singleton_append, List.isChain_cons]
      refine ⟨fun next first both => ?_, ih⟩
      -- The word after a number begins the next suffix.
      cases suffixes with
      | nil => contradiction
      | cons following suffixes =>
        obtain ⟨word', rest', words', -, noNumber'⟩ := following.words_eq classes
        rw [List.flatMap_cons, words', List.cons_append, List.head?_cons, Option.mem_some_iff]
          at first
        exact noNumber' (first ▸ both.2)

/-- A frame whose symbol has suffixes of the compiler only. -/
structure CompiledFrame extends TraceFrame where
  compilerSuffixes : List CompilerSuffix
  suffixes_eq : symbol.suffixes.map Word.text = compilerSuffixes.flatMap CompilerSuffix.words

namespace CompiledFrame

variable (f : CompiledFrame)

theorem inert_symbol : Inert classes f.symbol.text := by
  have absent : ':' ∉ f.symbol.text := fun member => absurd (f.symbol.chars ':' member) (by decide)
  have shape : f.symbol.text =
      join '.' (f.symbol.name.text :: f.compilerSuffixes.flatMap CompilerSuffix.words) := by
    rw [join_cons, ← f.suffixes_eq, begun, List.flatMap_map]
    rfl
  have free : Free '.' (f.symbol.name.text :: f.compilerSuffixes.flatMap CompilerSuffix.words) := by
    intro field member
    rw [← f.suffixes_eq, List.mem_cons, List.mem_map] at member
    rcases member with rfl | ⟨word, -, rfl⟩
    · intro dot
      rcases List.mem_cons.mp dot with first | rest
      · exact absurd (first ▸ f.symbol.name.first_char) (by decide)
      · exact absurd (f.symbol.name.rest_chars '.' rest) (by decide)
    · exact fun dot => absurd (word.chars '.' dot) (by decide)
  refine ⟨fun octets length all inside => ?_, fun inside => absent (inside.subset (by decide)),
    fun groups length all inside => ?_⟩
  · obtain ⟨o₁, o₂, o₃, o₄, rfl⟩ := List.length_eq_four.mp length
    have dotless (o : Text) (member : o ∈ [o₁, o₂, o₃, o₄]) : '.' ∉ o :=
      not_mem_of_forall ((classes.isDigit_ascii '.' (by decide)).trans (by decide)) (all o member).2
    have freeMiddle : Free '.' [o₂, o₃] :=
      fun o member => dotless o (.tail o₁ (List.mem_append_left [o₄] member))
    obtain ⟨left, right, same⟩ := inside
    rw [shape, List.append_assoc] at same
    have cut : join '.' (f.symbol.name.text :: f.compilerSuffixes.flatMap CompilerSuffix.words) =
        left ++ (join '.' (o₁ :: ([o₂, o₃] ++ [o₄])) ++ right) := same.symm
    -- The two numbers in the middle are words of the symbol, side by side.
    obtain ⟨before, a, b, after, -, -, split⟩ :=
      fields_of_infix (List.cons_ne_nil _ _) free (dotless o₁ (by simp)) freeMiddle
        (dotless o₄ (by simp)) cut
    obtain ⟨pre, post, adjacent⟩ :
        ∃ pre post, f.compilerSuffixes.flatMap CompilerSuffix.words =
          pre ++ ([o₂, o₃] ++ post) := by
      cases before with
      | nil =>
        obtain ⟨-, words⟩ := List.cons.inj split
        exact ⟨[], (o₄ ++ b) :: after, words⟩
      | cons name before =>
        obtain ⟨-, words⟩ := List.cons.inj split
        exact ⟨before ++ [a ++ o₁], (o₄ ++ b) :: after, by rw [words]; simp⟩
    have chain := isChain_words classes f.compilerSuffixes
    rw [adjacent] at chain
    have notBoth := List.isChain_pair.mp chain.right_of_append.left_of_append
    exact notBoth ⟨(all o₂ (by simp)).2, (all o₃ (by simp)).2⟩
  · exact absent (inside.subset (mem_join_of_length (by omega)))

theorem inert_entry : Inert classes f.entry := by
  have shape : f.entry = f.symbol.text ++ '+' :: ("0x".toList ++ (f.offset.text ++ '/' ::
      ("0x".toList ++ f.size.text))) := by simp [TraceFrame.entry]
  have number (digits : HexDigits) : Inert classes ("0x".toList ++ digits.text) := by
    have absent {c : Char} (noDigit : isAsciiHexdigit c = false) (noRadix : c ∉ "0x".toList) :
        c ∉ "0x".toList ++ digits.text := by
      rw [List.mem_append, not_or]
      exact ⟨noRadix, not_mem_of_forall noDigit digits.digits⟩
    apply inert_of_no_colon (absent (by decide) (by decide))
    rw [List.count_eq_zero.mpr (absent (by decide) (by decide))]
    omega
  rw [shape, ← List.append_assoc "0x".toList]
  exact f.inert_symbol.append_cons (by decide)
    ((number f.offset).append_cons (by decide) (number f.size))

end CompiledFrame

/-! ## Trace lines -/

/-- A source location behind a frame. -/
structure FrameLocation where
  path : Text
  line : ℕ

/-- `path:line`. -/
def FrameLocation.text (loc : FrameLocation) : Text := loc.path ++ ':' :: decimal loc.line

inductive TraceContent
  | header (capital : Bool)
  /-- `---[ end trace ID ]---`. -/
  | ending (id : HexDigits)
  | frame (f : CompiledFrame) (location : Option FrameLocation)

namespace TraceContent

def text : TraceContent → Text
  | header capital => if capital then "Call Trace:".toList else "Call trace:".toList
  | ending id => "---[ end trace ".toList ++ (id.text ++ " ]---".toList)
  | frame f location =>
    f.line ++ (location.map fun loc => Annotate.suffix loc.text).getD []

def location : TraceContent → Option FrameLocation
  | frame _ location => location
  | _ => none

end TraceContent

/-- The kernel indents the frames of a trace behind the log prefix. -/
structure TraceLine where
  log : Option LogPrefix
  indent : ℕ
  content : TraceContent

def TraceLine.text (line : TraceLine) : Text :=
  (line.log.map LogPrefix.text).getD [] ++ (List.replicate line.indent ' ' ++ line.content.text)

theorem inert_suffix {location : Text} (inert : Inert classes location) :
    Inert classes (Annotate.suffix location) := by
  have shape : Annotate.suffix location = ' ' :: '(' :: (location ++ ')' :: []) := by
    simp [Annotate.suffix]
  rw [shape]
  exact ((inert.append_cons (by decide) inert_nil).cons (by decide)).cons (by decide)

theorem inert_word {word : Text} (chars : ∀ c ∈ word, isIdentifierChar c = true) :
    Inert classes word := by
  apply inert_of_no_colon (not_mem_of_forall (by decide) chars)
  rw [List.count_eq_zero.mpr (not_mem_of_forall (by decide) chars)]
  omega

theorem CompiledFrame.inert_line (f : CompiledFrame) {tail : Text}
    (starts : ∀ c ∈ tail.head?, Separates c) (inert : Inert classes tail) :
    Inert classes (f.line ++ tail) := by
  have bracketed {opening closing : Char} (opens : Separates opening) (closes : Separates closing)
      {word rest : Text} (chars : ∀ c ∈ word, isIdentifierChar c = true)
      (inert : Inert classes rest) :
      Inert classes (' ' :: opening :: (word ++ [closing]) ++ rest) := by
    have shape : ' ' :: opening :: (word ++ [closing]) ++ rest =
        ' ' :: opening :: (word ++ closing :: rest) := by simp
    rw [shape]
    exact (((inert_word chars).append_cons closes inert).cons opens).cons (by decide)
  have marked : Inert classes (f.markerText ++ tail) ∧
      ∀ c ∈ (f.markerText ++ tail).head?, Separates c := by
    unfold TraceFrame.markerText
    split
    · next marker _ =>
      refine ⟨bracketed (by decide) (by decide) marker.chars inert, ?_⟩
      rintro c ⟨⟩
      decide
    · exact ⟨inert, starts⟩
  have named : Inert classes (f.moduleText ++ (f.markerText ++ tail)) ∧
      ∀ c ∈ (f.moduleText ++ (f.markerText ++ tail)).head?, Separates c := by
    unfold TraceFrame.moduleText
    split
    · next name _ =>
      refine ⟨bracketed (by decide) (by decide) name.chars marked.1, ?_⟩
      rintro c ⟨⟩
      decide
    · exact marked
  have body : Inert classes (f.entry ++ (f.moduleText ++ (f.markerText ++ tail))) :=
    f.inert_entry.append named.2 named.1
  have shape : f.line ++ tail =
      (if f.questionable then "? ".toList else []) ++
        (f.entry ++ (f.moduleText ++ (f.markerText ++ tail))) := by
    simp [TraceFrame.line]
  rw [shape]
  split_ifs
  · exact (body.cons (by decide)).cons (by decide)
  · exact body

theorem inert_content {content : TraceContent}
    (located : ∀ loc ∈ content.location, Inert classes loc.text) :
    Inert classes content.text := by
  cases content with
  | header capital =>
    cases capital with
    | true => exact inert_of_counts (by decide) (by decide) (by decide)
    | false => exact inert_of_counts (by decide) (by decide) (by decide)
  | ending id =>
    have digits : Inert classes id.text :=
      inert_word fun c member => isIdentifierChar_of_isAsciiHexdigit (id.digits c member)
    have before : Inert classes "---[ end trace".toList :=
      inert_of_no_colon (by decide) (by decide)
    have behind : Inert classes "]---".toList := inert_of_no_colon (by decide) (by decide)
    exact before.append_cons (by decide) (digits.append_cons (by decide) behind)
  | frame f location =>
    cases location with
    | none => exact f.inert_line (by simp) inert_nil
    | some loc =>
      refine f.inert_line ?_ (inert_suffix (located loc rfl))
      rintro c ⟨⟩
      decide

theorem inert_indent (indent : ℕ) {line : Text} (inert : Inert classes line) :
    Inert classes (List.replicate indent ' ' ++ line) := by
  induction indent with
  | zero => exact inert
  | succ n ih => exact ih.cons (by decide)

theorem inert_log (log : LogPrefix) {line : Text} (inert : Inert classes line) :
    Inert classes (log.text ++ line) := by
  have digits (number : Digits) : Inert classes number.text := by
    apply inert_of_no_colon (not_mem_of_forall (by decide) number.digits)
    rw [List.count_eq_zero.mpr (not_mem_of_forall (by decide) number.digits)]
    omega
  have stamp (blanks : ℕ) (time : Timestamp) :
      Inert classes (List.replicate blanks ' ' ++ time.text) := by
    have dot (number : Digits) : number.text.count '.' = 0 :=
      List.count_eq_zero.mpr (not_mem_of_forall (by decide) number.digits)
    apply inert_of_no_colon
    · rw [List.mem_append, List.mem_replicate, not_or]
      exact ⟨fun both => absurd both.2 (by decide), Timestamp.not_mem_text (by decide) (by decide)⟩
    · rw [List.count_append, List.count_replicate, Timestamp.text, List.count_append,
        List.count_cons, dot, dot]
      simp
  have dmesg (spaces : ℕ) (time : Timestamp) : Inert classes (bracketed spaces time ++ line) := by
    have shape : bracketed spaces time ++ line =
        '[' :: ((List.replicate spaces ' ' ++ time.text) ++ ']' :: ' ' :: line) := by
      simp [bracketed]
    rw [shape]
    exact ((stamp spaces time).append_cons (by decide) (inert.cons (by decide))).cons (by decide)
  have behindLevel (level : Digits) {rest : Text} (inert : Inert classes rest) :
      Inert classes ('<' :: (level.text ++ '>' :: rest)) :=
    ((digits level).append_cons (by decide) inert).cons (by decide)
  cases log with
  | dmesg spaces time => exact dmesg spaces time
  | record level spaces time =>
    have shape : (LogPrefix.record level spaces time).text ++ line =
        '<' :: (level.text ++ '>' :: (bracketed spaces time ++ line)) := by
      simp [LogPrefix.text]
    rw [shape]
    exact behindLevel level (dmesg spaces time)
  | backend level time =>
    have shape : (LogPrefix.backend level time).text ++ line =
        '<' :: (level.text ++ '>' :: (' ' :: (time.text ++ ' ' :: line))) := by
      simp [LogPrefix.text]
    rw [shape]
    exact behindLevel level (((stamp 0 time).append_cons (by decide) inert).cons (by decide))

/-! ## Scrubbing a trace -/

theorem scrub_join_lines {lines : List Text} (nonempty : lines ≠ []) :
    scrub classes (join '\n' lines) = join '\n' (lines.map (scrub classes)) := by
  induction lines with
  | nil => contradiction
  | cons line lines ih =>
    cases lines with
    | nil => simp
    | cons next lines =>
      rw [List.map_cons, List.map_cons, join_cons_cons, join_cons_cons,
        scrub_append (by decide), ih (List.cons_ne_nil next lines), List.map_cons]

/-- Scrubbing goes line by line and keeps every trace line whose location has no address in it. -/
theorem scrub_trace (classes : CharClasses) :
    (∀ text : Text,
        scrub classes text = join '\n' ((text.splitOn '\n').map (scrub classes))) ∧
      ∀ line : TraceLine, (∀ loc ∈ line.content.location, Inert classes loc.text) →
        scrub classes line.text = line.text := by
  constructor
  · intro text
    have cut : join '\n' (text.splitOn '\n') = text := List.intercalate_splitOn '\n'
    conv_lhs => rw [← cut]
    exact scrub_join_lines (by simp)
  · intro line located
    have content : Inert classes (List.replicate line.indent ' ' ++ line.content.text) :=
      inert_indent line.indent (inert_content located)
    rw [TraceLine.text]
    cases line.log with
    | none => exact scrub_of_inert content
    | some log => exact scrub_of_inert (inert_log log content)

/-- `foo.constprop.0+0x10/0x20` from a module. -/
def fooFrame : CompiledFrame where
  symbol :=
    { name := ⟨'f', "oo".toList, by decide, by decide, forall_mem_of_all (by decide)⟩
      suffixes := [⟨"constprop".toList, by decide, forall_mem_of_all (by decide)⟩,
        ⟨"0".toList, by decide, forall_mem_of_all (by decide)⟩] }
  offset := ⟨"10".toList, by decide, forall_mem_of_all (by decide)⟩
  size := ⟨"20".toList, by decide, forall_mem_of_all (by decide)⟩
  module := some ⟨"act_mirred".toList, by decide, forall_mem_of_all (by decide)⟩
  marker := none
  questionable := false
  compilerSuffixes := [.constprop ⟨"0".toList, by decide, forall_mem_of_all (by decide)⟩]
  suffixes_eq := rfl

theorem scrub_trace_foo :
    scrub .ascii
        "[ 7136.62]  foo.constprop.0+0x10/0x20 [act_mirred] (net/sched/act.c:55)".toList =
      "[ 7136.62]  foo.constprop.0+0x10/0x20 [act_mirred] (net/sched/act.c:55)".toList := by
  refine (scrub_trace .ascii).2
    ⟨some (.dmesg 1 ⟨⟨"7136".toList, by decide, forall_mem_of_all (by decide)⟩,
      ⟨"62".toList, by decide, forall_mem_of_all (by decide)⟩⟩), 1,
      .frame fooFrame (some ⟨"net/sched/act.c".toList, 55⟩)⟩ ?_
  rintro loc ⟨⟩
  exact inert_of_counts (by decide) (by decide) (by decide)

/-- With its line number a path of five groups is a hardware address. -/
theorem location_masked :
    ∃ line : TraceLine,
      line.text = "foo.constprop.0+0x10/0x20 [act_mirred] (00:11:22:33:44:55)".toList ∧
        (∀ loc ∈ line.content.location, Inert .ascii loc.path) ∧
        scrub .ascii line.text =
          "foo.constprop.0+0x10/0x20 [act_mirred] (00:11:22:xx:xx:xx)".toList := by
  refine ⟨⟨none, 0, .frame fooFrame (some ⟨"00:11:22:33:44".toList, 55⟩)⟩, by decide +kernel, ?_,
    by decide +kernel⟩
  rintro loc ⟨⟩
  exact inert_of_counts (by decide) (by decide) (by decide)

end UcrashReport.Scrub
