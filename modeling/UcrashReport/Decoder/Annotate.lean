import UcrashReport.Rust.Regex

/-! # Annotation of trace lines

A line with an offset `symbol+0xoff/0xsize` gets the source location of its first such offset
appended, if the symbols know it. How an address is resolved is a parameter.
-/

namespace UcrashReport.Annotate

open Rust Rust.Text Regex

def isSymbolChar (c : Char) : Bool := isAsciiAlphanumeric c || c == '_' || c == '.'

def isModuleChar (c : Char) : Bool := isAsciiAlphanumeric c || c == '_' || c == '-'

/-- `symbol+0xoff/0xsize`, with the module when one follows. -/
def traceRe : Regex :=
  sequence
    [group 1 (plus (set isSymbolChar)),
      literal "+".toList,
      group 2 (seq (literal "0x".toList) (plus (set isAsciiHexdigit))),
      literal "/0x".toList,
      plus (set isAsciiHexdigit),
      opt (sequence
        [plus (set isWhitespace), char '[', group 3 (plus (set isModuleChar)), char ']'])]

def hexValue (c : Char) : ℕ :=
  if isAsciiDigit c then c.toNat - 48
  else if c.toNat ≤ 70 then c.toNat - 55
  else c.toNat - 87

/-- `u64::from_str_radix` in base 16; a value out of range is an error. -/
def parseHexU64 (digits : Text) : Option ℕ :=
  if digits = [] || !digits.all isAsciiHexdigit then none
  else
    let value := digits.foldl (fun n c => 16 * n + hexValue c) 0
    if value < 2 ^ 64 then some value else none

/-- What the symbols are asked about a line. -/
structure Query where
  symbol : Text
  offset : ℕ
  module : Option Text
deriving DecidableEq, Repr

/-- The expression has no word boundary, so no character needs to count as a part of a word. -/
def query (line : Text) : Option Query :=
  (captures (fun _ => false) traceRe line).map fun c =>
    { symbol := c.group 1
      offset := (parseHexU64 (trimStartMatches "0x".toList (c.group 2))).getD 0
      module := c.groups.lookup 3 }

/-- `Symbolizer::resolve`: the location of a symbol and offset, in a module or in the kernel. -/
abbrev Resolver := Text → ℕ → Option Text → Option Text

def location (resolve : Resolver) (line : Text) : Option Text :=
  (query line).bind fun q => resolve q.symbol q.offset q.module

/-- What `annotate` appends for a location. -/
def suffix (loc : Text) : Text := " (".toList ++ loc ++ ")".toList

def annotateLine (resolve : Resolver) (line : Text) : Text :=
  line ++ ((location resolve line).map suffix).getD []

def annotate (resolve : Resolver) (text : Text) : Text :=
  (lines text).flatMap fun line => annotateLine resolve line ++ ['\n']

/-- A location of the form `path:line`. -/
structure SourceLocation where
  path : Text
  line : ℕ
  nonempty : path ≠ []
  visible : ∀ c ∈ path, isWhitespace c = false

namespace SourceLocation

def text (loc : SourceLocation) : Text := loc.path ++ ':' :: decimal loc.line

theorem text_visible (loc : SourceLocation) : ∀ c ∈ loc.text, isWhitespace c = false := by
  intro c member
  rw [text, List.mem_append, List.mem_cons] at member
  rcases member with inPath | rfl | inLine
  · exact loc.visible c inPath
  · decide
  · exact isWhitespace_of_isAsciiDigit (isAsciiDigit_of_mem_decimal inLine)

theorem three_le_length_text (loc : SourceLocation) : 3 ≤ loc.text.length := by
  have path := List.length_pos_iff.mpr loc.nonempty
  have line := List.length_pos_iff.mpr (decimal_ne_nil loc.line)
  rw [text, List.length_append, List.length_cons]
  omega

end SourceLocation

/-- A line is asked about only when it has a hex offset. -/
theorem offset_of_query {line : Text} {q : Query} (asked : query line = some q) :
    ∃ left right, line = left ++ '+' :: '0' :: 'x' :: right := by
  obtain ⟨m, found, -⟩ := Option.map_eq_some_iff.mp asked
  obtain ⟨left, last, text, member⟩ := findFrom_spec found
  simp only [traceRe, Regex.sequence, List.foldr] at member
  obtain ⟨symbol, -, tail, inTail, taken⟩ := taken_seq member
  obtain ⟨sign, inSign, tail', inTail', taken'⟩ := taken_seq inTail
  obtain ⟨offset, inOffset, size, -, taken''⟩ := taken_seq inTail'
  have offsetTaken : ∃ digits, offset.taken = "0x".toList ++ digits := by
    rw [runs, List.mem_map] at inOffset
    obtain ⟨inner, inOffset, rfl⟩ := inOffset
    obtain ⟨radix, inRadix, digits, -, taken⟩ := taken_seq inOffset
    exact ⟨digits.taken, by rw [taken, taken_literal radix inRadix]⟩
  obtain ⟨digits, offsetTaken⟩ := offsetTaken
  refine ⟨left ++ symbol.taken, digits ++ size.taken ++ m.rest, ?_⟩
  rw [text, taken, taken', taken'', taken_literal sign inSign, offsetTaken]
  simp

/-- Only a line with a hex offset is annotated. -/
theorem offset_of_location {resolve : Resolver} {line loc : Text}
    (resolved : location resolve line = some loc) :
    ∃ left right, line = left ++ '+' :: '0' :: 'x' :: right := by
  obtain ⟨q, asked, -⟩ := Option.bind_eq_some_iff.mp resolved
  exact offset_of_query asked

end UcrashReport.Annotate
