import UcrashReport.Common.Signature

/-! # Frame lines as the kernel prints them

A frame is printed as its symbol with offset and size, the module in brackets and a marker in
parentheses, behind a question mark when it may be stale. Reading such a line gives the frame back.
-/

namespace UcrashReport.Signature

open Rust Rust.Text

/-! ## The parts of a line -/

/-- What an identifier consists of. -/
def isIdentifierChar (c : Char) : Bool := isAsciiAlphanumeric c || c == '_'

/-- A C identifier: no digit comes first. -/
structure Identifier where
  first : Char
  rest : Text
  first_char : isIdentifierChar first = true
  first_no_digit : isAsciiDigit first = false
  rest_chars : ∀ c ∈ rest, isIdentifierChar c = true

def Identifier.text (name : Identifier) : Text := name.first :: name.rest

/-- One or more identifier characters, as in a module name or behind a dot. -/
structure Word where
  text : Text
  nonempty : text ≠ []
  chars : ∀ c ∈ text, isIdentifierChar c = true

/-- The digits of a decimal number. -/
structure Digits where
  text : Text
  nonempty : text ≠ []
  digits : ∀ c ∈ text, isAsciiDigit c = true

structure HexDigits where
  text : Text
  nonempty : text ≠ []
  digits : ∀ c ∈ text, isAsciiHexdigit c = true

/-- A symbol: a C identifier, and the suffixes of the compiler behind dots. -/
structure TraceSymbol where
  name : Identifier
  suffixes : List Word

def TraceSymbol.text (symbol : TraceSymbol) : Text :=
  symbol.name.text ++ symbol.suffixes.flatMap fun suffix => '.' :: suffix.text

/-- A marker such as `P`. -/
structure FrameMarker where
  first : Char
  second : Option Char
  first_capital : 65 ≤ first.toNat ∧ first.toNat ≤ 90
  second_capital : ∀ c, second = some c → 65 ≤ c.toNat ∧ c.toNat ≤ 90

def FrameMarker.text (marker : FrameMarker) : Text := marker.first :: marker.second.toList

/-- A frame of a call trace. -/
structure TraceFrame where
  symbol : TraceSymbol
  offset : HexDigits
  size : HexDigits
  module : Option Word
  marker : Option FrameMarker
  questionable : Bool

namespace TraceFrame

/-- `symbol+0xoff/0xsize`. -/
def entry (f : TraceFrame) : Text :=
  f.symbol.text ++ "+0x".toList ++ f.offset.text ++ "/0x".toList ++ f.size.text

def moduleText (f : TraceFrame) : Text :=
  match f.module with
  | some name => ' ' :: '[' :: (name.text ++ [']'])
  | none => []

def markerText (f : TraceFrame) : Text :=
  match f.marker with
  | some marker => ' ' :: '(' :: (marker.text ++ [')'])
  | none => []

/-- The frame as it is printed. -/
def line (f : TraceFrame) : Text :=
  (if f.questionable then "? ".toList else []) ++ (f.entry ++ (f.moduleText ++ f.markerText))

/-- The frame as it is read. -/
def frame (f : TraceFrame) : Frame := ⟨f.entry, f.module.map Word.text, f.questionable⟩

end TraceFrame

/-! ## Their characters -/

/-- A character of a symbol with its offset. -/
def isEntryChar (c : Char) : Bool := isIdentifierChar c || c == '.' || c == '+' || c == '/'

theorem isIdentifierChar_of_isAsciiHexdigit {c : Char} (digit : isAsciiHexdigit c = true) :
    isIdentifierChar c = true := by
  simp only [isAsciiHexdigit, isAsciiDigit, Bool.or_eq_true, Bool.and_eq_true,
    decide_eq_true_eq] at digit
  simp only [isIdentifierChar, isAsciiAlphanumeric, isAsciiDigit, Bool.or_eq_true, Bool.and_eq_true,
    decide_eq_true_eq, beq_iff_eq]
  omega

theorem isEntryChar_of_isIdentifierChar {c : Char} (word : isIdentifierChar c = true) :
    isEntryChar c = true := by simp [isEntryChar, word]

theorem isWhitespace_of_isEntryChar {c : Char} (inEntry : isEntryChar c = true) :
    isWhitespace c = false := by
  rw [Bool.eq_false_iff]
  intro blank
  simp only [isEntryChar, isIdentifierChar, Bool.or_eq_true, beq_iff_eq] at inEntry
  rcases inEntry with (((inName | rfl) | rfl) | rfl) | rfl
  · simp only [isAsciiAlphanumeric, isAsciiDigit, isWhitespace, Bool.or_eq_true, Bool.and_eq_true,
      decide_eq_true_eq, beq_iff_eq] at blank inName
    omega
  all_goals contradiction

theorem TraceSymbol.chars (symbol : TraceSymbol) : ∀ c ∈ symbol.text, isEntryChar c = true := by
  intro c member
  rw [text, List.mem_append, Identifier.text, List.mem_cons, List.mem_flatMap] at member
  rcases member with (rfl | inRest) | ⟨suffix, -, inSuffix⟩
  · exact isEntryChar_of_isIdentifierChar symbol.name.first_char
  · exact isEntryChar_of_isIdentifierChar (symbol.name.rest_chars c inRest)
  · rcases List.mem_cons.mp inSuffix with rfl | inWord
    · decide
    · exact isEntryChar_of_isIdentifierChar (suffix.chars c inWord)

theorem FrameMarker.chars (marker : FrameMarker) :
    ∀ c ∈ marker.text, isIdentifierChar c = true := by
  intro c member
  rw [text, List.mem_cons, Option.mem_toList] at member
  have capital : 65 ≤ c.toNat ∧ c.toNat ≤ 90 := by
    rcases member with rfl | second
    · exact marker.first_capital
    · exact marker.second_capital c second
  simp [isIdentifierChar, isAsciiAlphanumeric, capital]

namespace TraceFrame

variable (f : TraceFrame)

theorem entry_chars : ∀ c ∈ f.entry, isEntryChar c = true := by
  have hex (digits : HexDigits) : ∀ c ∈ digits.text, isEntryChar c = true := fun c member =>
    isEntryChar_of_isIdentifierChar (isIdentifierChar_of_isAsciiHexdigit (digits.digits c member))
  have offset : ∀ c ∈ "+0x".toList, isEntryChar c = true := forall_mem_of_all (by decide)
  have size : ∀ c ∈ "/0x".toList, isEntryChar c = true := forall_mem_of_all (by decide)
  intro c member
  simp only [entry, List.mem_append] at member
  rcases member with (((inSymbol | inPlus) | inOffset) | inSlash) | inSize
  · exact f.symbol.chars c inSymbol
  · exact offset c inPlus
  · exact hex f.offset c inOffset
  · exact size c inSlash
  · exact hex f.size c inSize

/-- A line without a question mark begins with the first letter of the symbol. -/
theorem entry_eq_cons : ∃ cs, f.entry = f.symbol.name.first :: cs := by
  simp [entry, TraceSymbol.text, Identifier.text]

theorem not_mem_entry {c : Char} (other : isEntryChar c = false) : c ∉ f.entry := by
  intro member
  rw [f.entry_chars c member] at other
  contradiction

/-- The characters of a line that are no entry characters. -/
theorem mem_line {c : Char} (member : c ∈ f.line) :
    isEntryChar c = true ∨ c ∈ "? []()".toList := by
  have inBrackets (name : Word) (inside : c ∈ name.text) : isEntryChar c = true :=
    isEntryChar_of_isIdentifierChar (name.chars c inside)
  have inMarker (marker : FrameMarker) (inside : c ∈ marker.text) : isEntryChar c = true :=
    isEntryChar_of_isIdentifierChar (marker.chars c inside)
  rw [line, List.mem_append, List.mem_append, List.mem_append] at member
  rcases member with inFlag | inEntry | inModule | inMark
  · split_ifs at inFlag
    · refine .inr ?_
      rcases List.mem_cons.mp inFlag with rfl | inFlag
      · decide
      · rw [List.mem_singleton.mp inFlag]
        decide
    · contradiction
  · exact .inl (f.entry_chars c inEntry)
  · unfold moduleText at inModule
    split at inModule
    · next name _ =>
      simp only [List.mem_cons, List.mem_append, List.not_mem_nil, or_false] at inModule
      rcases inModule with rfl | rfl | inside | rfl
      · exact .inr (by decide)
      · exact .inr (by decide)
      · exact .inl (inBrackets name inside)
      · exact .inr (by decide)
    · contradiction
  · unfold markerText at inMark
    split at inMark
    · next marker _ =>
      simp only [List.mem_cons, List.mem_append, List.not_mem_nil, or_false] at inMark
      rcases inMark with rfl | rfl | inside | rfl
      · exact .inr (by decide)
      · exact .inr (by decide)
      · exact .inl (inMarker marker inside)
      · exact .inr (by decide)
    · contradiction

theorem not_mem_line {c : Char} (noEntry : isEntryChar c = false) (other : c ∉ "? []()".toList) :
    c ∉ f.line := by
  intro member
  rcases f.mem_line member with inEntry | inOther
  · rw [noEntry] at inEntry
    contradiction
  · exact other inOther

/-! ## Reading a line -/

theorem entry_last : ∃ c, f.entry.getLast? = some c ∧ isIdentifierChar c = true := by
  have nonempty := f.size.nonempty
  refine ⟨f.size.text.getLast nonempty, ?_, ?_⟩
  · rw [entry, List.getLast?_append_of_ne_nil _ nonempty, List.getLast?_eq_some_getLast nonempty]
  · exact isIdentifierChar_of_isAsciiHexdigit (f.size.digits _ (List.getLast_mem nonempty))

/-- Before the marker the line ends with a digit or a bracket. -/
theorem unmarked_last : ∃ c, (f.entry ++ f.moduleText).getLast? = some c ∧
    isWhitespace c = false ∧ c ≠ ')' := by
  unfold moduleText
  split
  · exact ⟨']', by simp [List.getLast?_append, List.getLast?_cons], by decide, by decide⟩
  · obtain ⟨c, last, digit⟩ := f.entry_last
    rw [List.append_nil]
    refine ⟨c, last, isWhitespace_of_isEntryChar (isEntryChar_of_isIdentifierChar digit), ?_⟩
    rintro rfl
    contradiction

theorem line_last : ∃ c, f.line.getLast? = some c ∧ isWhitespace c = false := by
  obtain ⟨c, last, visible, -⟩ := f.unmarked_last
  have nonempty : f.entry ++ f.moduleText ≠ [] := by
    intro empty
    rw [empty] at last
    contradiction
  rw [line, ← List.append_assoc f.entry]
  cases marked : f.marker with
  | some marker =>
    have text : f.markerText = ' ' :: '(' :: (marker.text ++ [')']) := by rw [markerText, marked]
    rw [text]
    exact ⟨')', by simp [List.getLast?_append, List.getLast?_cons], by decide⟩
  | none =>
    have text : f.markerText = [] := by rw [markerText, marked]
    rw [text, List.append_nil, List.getLast?_append_of_ne_nil _ nonempty]
    exact ⟨c, last, visible⟩

/-- A line begins with a question mark or with the first letter of the symbol. -/
theorem line_head : ∃ c cs, f.line = c :: cs ∧ isWhitespace c = false ∧ c ≠ '<' ∧ c ≠ '[' ∧
    isAsciiDigit c = false ∧ c ≠ '.' := by
  obtain ⟨cs, shape⟩ := f.entry_eq_cons
  cases questionable : f.questionable with
  | true =>
    refine ⟨'?', ' ' :: (f.entry ++ (f.moduleText ++ f.markerText)), ?_, by decide⟩
    rw [line, questionable]
    rfl
  | false =>
    have word := f.symbol.name.first_char
    refine ⟨f.symbol.name.first, cs ++ (f.moduleText ++ f.markerText), ?_,
      isWhitespace_of_isEntryChar (isEntryChar_of_isIdentifierChar word), ?_, ?_,
      f.symbol.name.first_no_digit, ?_⟩
    · rw [line, questionable, shape]
      rfl
    all_goals
      intro same
      rw [same] at word
      contradiction

theorem trim_line : trim f.line = f.line := by
  obtain ⟨c, cs, shape, visible, -⟩ := f.line_head
  obtain ⟨d, last, visible'⟩ := f.line_last
  apply trim_of_ends
  · rintro _ head
    rw [shape] at head
    cases head
    exact visible
  · rintro _ last'
    rw [last] at last'
    cases last'
    exact visible'

theorem strip_line : stripPrintkPrefix f.line = f.line := by
  obtain ⟨c, cs, shape, visible, noLevel, noBracket, noDigit, noDot⟩ := f.line_head
  conv_rhs => rw [← f.trim_line]
  rw [shape, stripPrintkPrefix_of_word visible noLevel noBracket noDigit noDot]

theorem not_header : isTraceHeader f.line = false := by
  have colon : ':' ∉ f.line := f.not_mem_line (by decide) (by decide)
  rw [Bool.eq_false_iff]
  intro header
  rw [isTraceHeader, Bool.or_eq_true, startsWith_iff, startsWith_iff] at header
  rcases header with leading | leading
  · exact colon (leading.subset (by decide))
  · exact colon (leading.subset (by decide))

theorem not_ending : isTraceEnd f.line = false := by
  have dash : '-' ∉ f.line := f.not_mem_line (by decide) (by decide)
  obtain ⟨c, cs, shape, -⟩ := f.line_head
  rw [Bool.eq_false_iff]
  intro ending
  rw [isTraceEnd, Bool.or_eq_true, contains_iff] at ending
  rcases ending with inside | empty
  · exact dash (inside.subset (by decide))
  · rw [shape] at empty
    contradiction

theorem unquestioned_line :
    unquestioned f.line = f.entry ++ (f.moduleText ++ f.markerText) := by
  obtain ⟨cs, shape⟩ := f.entry_eq_cons
  have other : '?' ≠ f.symbol.name.first := by
    intro same
    have word := f.symbol.name.first_char
    rw [← same] at word
    contradiction
  have body (n : ℕ) : stripPrefixes "? ".toList n (f.entry ++ (f.moduleText ++ f.markerText)) =
      f.entry ++ (f.moduleText ++ f.markerText) := by
    rw [shape]
    exact stripPrefixes_of_head other n
  have stripped : trimStartMatches "? ".toList f.line =
      f.entry ++ (f.moduleText ++ f.markerText) := by
    rw [trimStartMatches, line]
    cases f.questionable with
    | true => exact body _
    | false => exact body _
  have ends : trim (f.entry ++ (f.moduleText ++ f.markerText)) =
      f.entry ++ (f.moduleText ++ f.markerText) :=
    trim_line { f with questionable := false }
  rw [unquestioned, stripped, ends]

theorem byteLen_marker (marker : FrameMarker) : byteLen (marker.text ++ [')']) ≤ 3 := by
  have size {c : Char} (capital : 65 ≤ c.toNat ∧ c.toNat ≤ 90) : c.utf8Size = 1 := by
    rw [Char.utf8Size_eq_one_iff, UInt32.le_iff_toNat_le]
    exact capital.2.trans (by decide)
  have first := size marker.first_capital
  have close : ')'.utf8Size = 1 := by decide
  cases second : marker.second with
  | none =>
    have text : marker.text = [marker.first] := by rw [FrameMarker.text, second]; rfl
    simp [text, byteLen, first, close]
  | some c =>
    have text : marker.text = [marker.first, c] := by rw [FrameMarker.text, second]; rfl
    simp [text, byteLen, first, close, size (marker.second_capital c second)]

theorem stripFrameMarkers_unmarked (n : ℕ) :
    stripFrameMarkers n (f.entry ++ f.moduleText) = f.entry ++ f.moduleText := by
  obtain ⟨c, last, -, other⟩ := f.unmarked_last
  have open_ : endsWith ")".toList (f.entry ++ f.moduleText) = false := by
    rw [Bool.eq_false_iff]
    intro closed
    obtain ⟨front, text⟩ := endsWith_iff.mp closed
    rw [← text] at last
    simp [List.getLast?_append] at last
    exact other last.symm
  cases n with
  | zero => rfl
  | succ n => rw [stripFrameMarkers, open_, if_neg Bool.false_ne_true]

/-- The marker is taken off, the rest of the line stays. -/
theorem stripFrameMarkers_line {n : ℕ} (positive : 0 < n) :
    stripFrameMarkers n (f.entry ++ (f.moduleText ++ f.markerText)) = f.entry ++ f.moduleText := by
  rw [← List.append_assoc]
  obtain ⟨n, rfl⟩ : ∃ k, n = k + 1 := ⟨n - 1, by omega⟩
  unfold markerText
  split
  · next marker _ =>
    have closed : endsWith ")".toList
        (f.entry ++ f.moduleText ++ ' ' :: '(' :: (marker.text ++ [')'])) = true :=
      endsWith_iff.mpr ⟨f.entry ++ f.moduleText ++ ' ' :: '(' :: marker.text, by simp⟩
    have inside : ' ' ∉ '(' :: (marker.text ++ [')']) := by
      have solid : ' ' ∉ marker.text := fun member => absurd (marker.chars ' ' member) (by decide)
      simp [solid]
    have split : rsplitOnce " (".toList
        (f.entry ++ f.moduleText ++ ' ' :: '(' :: (marker.text ++ [')'])) =
          some (f.entry ++ f.moduleText, marker.text ++ [')']) :=
      rsplitOnce_append (fun found => inside (found.subset (by decide))) _
    obtain ⟨c, last, visible, -⟩ := f.unmarked_last
    have trimmed : trimEnd (f.entry ++ f.moduleText) = f.entry ++ f.moduleText := by
      apply trimEnd_of_last
      intro d last'
      rw [last] at last'
      cases last'
      exact visible
    rw [stripFrameMarkers, if_pos closed, split]
    dsimp only
    rw [if_pos (byteLen_marker marker), trimmed, stripFrameMarkers_unmarked]
  · rw [List.append_nil, stripFrameMarkers_unmarked]

theorem splitModule_entry :
    splitModule (f.entry ++ f.moduleText) = (f.entry, f.module.map Word.text) := by
  have solid : ' ' ∉ f.entry := f.not_mem_entry (by decide)
  unfold moduleText
  split
  · next name named =>
    have split : splitOnce " [".toList (f.entry ++ ' ' :: '[' :: (name.text ++ [']'])) =
        some (f.entry, name.text ++ [']']) := splitOnce_of_not_mem solid _
    have closed : trimEndMatches ']' (name.text ++ [']']) = name.text := by
      rw [trimEndMatches, List.rdropWhile_concat_pos _ _ _ (by decide),
        List.rdropWhile_eq_self_iff]
      intro nonempty
      have word := name.chars _ (List.getLast_mem nonempty)
      rw [beq_iff_eq]
      intro same
      rw [same] at word
      contradiction
    rw [splitModule, split]
    dsimp only
    rw [closed, named]
    rfl
  · next unnamed =>
    have plain : splitOnce " [".toList (f.entry ++ []) = none := by
      rw [List.append_nil, splitOnce_eq_none_iff]
      exact fun found => solid (found.subset (by decide))
    rw [splitModule, plain, unnamed, List.append_nil]
    rfl

/-- A printed frame is read back. -/
theorem parseFrame_line : parseFrame f.line = some f.frame := by
  obtain ⟨cs, shape⟩ := f.entry_eq_cons
  have positive : 0 < (f.entry ++ (f.moduleText ++ f.markerText)).length := by
    rw [shape]
    simp
  have offset : contains "+0x".toList f.entry = true := by
    rw [contains_iff]
    exact ⟨f.symbol.text, f.offset.text ++ "/0x".toList ++ f.size.text, by simp [entry]⟩
  have flag : startsWith "? ".toList f.line = f.questionable := by
    cases questionable : f.questionable with
    | true =>
      rw [startsWith_iff, line, questionable, if_pos rfl]
      exact List.prefix_append _ _
    | false =>
      have word := f.symbol.name.first_char
      rw [Bool.eq_false_iff, Ne, startsWith_iff, line, questionable, if_neg Bool.false_ne_true,
        shape]
      rintro ⟨rest, same⟩
      have first := (List.cons.inj same).1
      rw [← first] at word
      contradiction
  simp only [parseFrame, f.unquestioned_line, f.stripFrameMarkers_line positive,
    f.splitModule_entry, offset, if_true, flag]
  rfl

/-! ## Markers in a line -/

/-- What stands in a line with a bracketed part stands before it or inside it. -/
theorem infix_bracketed {pat : Text} (nonempty : pat ≠ []) (last : pat.getLast? ≠ some ' ')
    {opening closing : Char} (noOpening : opening ∉ pat) (noClosing : closing ∉ pat)
    (before inside : Text) :
    pat <:+: before ++ ' ' :: opening :: (inside ++ [closing]) ↔
      pat <:+: before ∨ pat <:+: inside := by
  have none : ¬ pat <:+: [] := by simpa using nonempty
  have blank : pat <:+: before ++ [' '] ↔ pat <:+: before :=
    infix_append_of_last nonempty fun c member => List.mem_singleton.mp member ▸ last
  have shape : before ++ ' ' :: opening :: (inside ++ [closing]) =
      (before ++ [' ']) ++ opening :: (inside ++ closing :: []) := by simp
  rw [shape, infix_append_cons_of_not_mem noOpening, infix_append_cons_of_not_mem noClosing, blank,
    or_iff_left none]

theorem infix_line {pat : Text} (nonempty : pat ≠ []) (head : ∀ c ∈ "? ".toList, pat.head? ≠ some c)
    (last : pat.getLast? ≠ some ' ') (brackets : ∀ c ∈ "[]()".toList, c ∉ pat) :
    pat <:+: f.line ↔ pat <:+: f.entry ∨ (∃ name, f.module = some name ∧ pat <:+: name.text) ∨
      ∃ marker, f.marker = some marker ∧ pat <:+: marker.text := by
  have flagged : pat <:+: f.line ↔ pat <:+: f.entry ++ (f.moduleText ++ f.markerText) := by
    apply infix_append_of_head nonempty
    intro c member
    split_ifs at member
    · exact head c member
    · contradiction
  have marked : pat <:+: f.entry ++ (f.moduleText ++ f.markerText) ↔
      pat <:+: f.entry ++ f.moduleText ∨ ∃ marker, f.marker = some marker ∧ pat <:+: marker.text := by
    rw [← List.append_assoc]
    unfold markerText
    split
    · next marker found =>
      rw [infix_bracketed nonempty last (brackets '(' (by decide)) (brackets ')' (by decide))]
      simp [found]
    · next found => simp [found]
  have named : pat <:+: f.entry ++ f.moduleText ↔
      pat <:+: f.entry ∨ ∃ name, f.module = some name ∧ pat <:+: name.text := by
    unfold moduleText
    split
    · next name found =>
      rw [infix_bracketed nonempty last (brackets '[' (by decide)) (brackets ']' (by decide))]
      simp [found]
    · next found => simp [found]
  rw [flagged, marked, named, or_assoc]

/-- The name of a function or module begins an exception on its own. -/
def NamesOops : Prop :=
  "Oops".toList <:+: f.symbol.text ∨ ∃ name, f.module = some name ∧ "Oops".toList <:+: name.text

theorem oops_infix_entry : "Oops".toList <:+: f.entry ↔ "Oops".toList <:+: f.symbol.text := by
  have shape : f.entry =
      f.symbol.text ++ ("+0x".toList ++ f.offset.text ++ "/0x".toList ++ f.size.text) := by
    simp [entry]
  have numeric : ∀ c ∈ "+0x".toList ++ f.offset.text ++ "/0x".toList ++ f.size.text,
      isAsciiHexdigit c = true ∨ c ∈ "+/x".toList := by
    have offset : ∀ c ∈ "+0x".toList, isAsciiHexdigit c = true ∨ c ∈ "+/x".toList :=
      forall_mem_of_all (by decide)
    have size : ∀ c ∈ "/0x".toList, isAsciiHexdigit c = true ∨ c ∈ "+/x".toList :=
      forall_mem_of_all (by decide)
    intro c member
    simp only [List.mem_append] at member
    rcases member with ((inPlus | inOffset) | inSlash) | inSize
    · exact offset c inPlus
    · exact .inl (f.offset.digits c inOffset)
    · exact size c inSlash
    · exact .inl (f.size.digits c inSize)
  rw [shape]
  apply infix_append_of_last (by decide)
  intro c member last
  have letter : 's' = c := Option.some.inj last
  rcases numeric c member with digit | other
  · rw [← letter] at digit
    contradiction
  · rw [← letter] at other
    revert other
    decide

/-- The only exception marker that a frame line can hold is the word without blanks and colons. -/
theorem hasMarker_line : hasMarker f.line = true ↔ f.NamesOops := by
  have solid : ∀ m ∈ markers, m = "Oops".toList ∨ ' ' ∈ m ∨ ':' ∈ m := by decide +kernel
  have inName {m : Text} (member : m ∈ markers) {name : Text}
      (chars : ∀ c ∈ name, isEntryChar c = true) (inside : m <:+: name) : m = "Oops".toList := by
    rcases solid m member with same | blank | colon
    · exact same
    · exact absurd (chars ' ' (inside.subset blank)) (by decide)
    · exact absurd (chars ':' (inside.subset colon)) (by decide)
  have word (name : Word) : ∀ c ∈ name.text, isEntryChar c = true :=
    fun c member => isEntryChar_of_isIdentifierChar (name.chars c member)
  have capitals (marker : FrameMarker) : ∀ c ∈ marker.text, isEntryChar c = true :=
    fun c member => isEntryChar_of_isIdentifierChar (marker.chars c member)
  have heads : ∀ m ∈ markers, ∀ c ∈ "? ".toList, m.head? ≠ some c :=
    forall_markers_of_all (by decide)
  have brackets : ∀ m ∈ markers, ∀ c ∈ "[]()".toList, c ∉ m := forall_markers_of_all (by decide)
  have lasts : ∀ m ∈ markers, m.getLast? ≠ some ' ' := by decide +kernel
  have oops : "Oops".toList ∈ markers := by decide
  have short (marker : FrameMarker) : ¬ "Oops".toList <:+: marker.text := by
    intro inside
    have bound := inside.length_le
    have length : marker.text.length ≤ 2 := by
      rw [FrameMarker.text]
      cases marker.second <;> simp
    have four : "Oops".toList.length = 4 := by decide
    omega
  have oopsLine := f.infix_line (marker_nonempty _ oops) (heads _ oops) (lasts _ oops)
    (brackets _ oops)
  rw [hasMarker_iff, NamesOops, ← f.oops_infix_entry]
  constructor
  · rintro ⟨m, member, inside⟩
    have parts := (f.infix_line (marker_nonempty m member) (heads m member) (lasts m member)
      (brackets m member)).mp inside
    have same : m = "Oops".toList := by
      rcases parts with inEntry | ⟨name, -, inModule⟩ | ⟨marker, -, inMark⟩
      · exact inName member f.entry_chars inEntry
      · exact inName member (word name) inModule
      · exact inName member (capitals marker) inMark
    rw [same] at parts
    rcases parts with inEntry | inModule | ⟨marker, -, inMark⟩
    · exact .inl inEntry
    · exact .inr inModule
    · exact absurd inMark (short marker)
  · intro named
    refine ⟨"Oops".toList, oops, oopsLine.mpr ?_⟩
    rcases named with inEntry | inModule
    · exact .inl inEntry
    · exact .inr (.inl inModule)

end TraceFrame

end UcrashReport.Signature
