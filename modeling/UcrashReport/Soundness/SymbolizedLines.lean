import UcrashReport.Decoder.Scrub
import UcrashReport.Soundness.AnnotatedLines

/-! # The lines of a symbolized text

The decoded text is the scrubbed text with scrubbed locations behind some of its lines. Line ends
separate what is masked, and a carriage return that a line feed follows makes no difference to the
parser, so the two texts are compared line by line.
-/

namespace UcrashReport.Signature

open Rust Rust.Text Annotate Scrub

variable {classes : CharClasses}

/-! ## Carriage returns -/

theorem trimStart_return (s : Text) :
    trimStart (s ++ ['\r']) = trimStart s ∨ trimStart (s ++ ['\r']) = trimStart s ++ ['\r'] := by
  rw [trimStart, trimStart, List.dropWhile_append]
  split_ifs with blank
  · rw [List.isEmpty_iff.mp blank]
    exact .inl (by decide)
  · exact .inr rfl

theorem afterHead_return {pat : Text} (nonempty : pat ≠ []) (absent : '\r' ∉ pat)
    (accepts : Text → Bool) (s : Text) :
    afterHead pat accepts (s ++ ['\r']) = (afterHead pat accepts s).map (· ++ ['\r']) := by
  have whole := @splitOnce_append_cons pat s '\r' nonempty absent []
  have nothing : splitOnce pat [] = none :=
    splitOnce_eq_none_iff.mpr (by simpa using nonempty)
  rw [afterHead, afterHead, whole, nothing]
  cases splitOnce pat s with
  | some parts =>
    dsimp only
    cases accepted : accepts parts.1 <;> simp [Option.filter, accepted]
  | none => rfl

theorem stripLevel_return (s : Text) :
    stripLevel (s ++ ['\r']) = stripLevel s ∨ stripLevel (s ++ ['\r']) = stripLevel s ++ ['\r'] := by
  rw [stripLevel_eq, stripLevel_eq, isPrefixOf?_append_cons (by decide)]
  cases "<".toList.isPrefixOf? s with
  | none => exact .inr rfl
  | some rest =>
    simp only [Option.map_some, Option.bind_some]
    rw [afterHead_return (by decide) (by decide)]
    cases afterHead ">".toList isLevel rest with
    | none => exact .inr rfl
    | some rest' => exact trimStart_return rest'

theorem trim_return (s : Text) : trim (s ++ ['\r']) = trim s := by
  have blank : ∀ c ∈ ['\r'], isWhitespace c = true := forall_mem_of_all (by decide)
  rcases trimStart_return s with same | more
  · rw [trim, trim, same]
  · rw [trim, trim, more, trimEnd_append_blank blank]

theorem stripTimestamp_return (s : Text) :
    stripTimestamp (s ++ ['\r']) = stripTimestamp s := by
  rw [stripTimestamp_eq, stripTimestamp_eq, isPrefixOf?_append_cons (by decide)]
  cases "[".toList.isPrefixOf? s with
  | some rest =>
    simp only [Option.map_some]
    rw [afterHead_return (by decide) (by decide)]
    cases afterHead "]".toList (fun ts => isTime (trim ts)) rest with
    | none => exact trim_return s
    | some rest' => exact trim_return rest'
  | none =>
    simp only [Option.map_none]
    rw [afterHead_return (by decide) (by decide)]
    cases afterHead " ".toList (fun first => decide ('.' ∈ first) && isTime first) s with
    | none => exact trim_return s
    | some rest' => exact trim_return rest'

theorem stripPrintkPrefix_return (s : Text) :
    stripPrintkPrefix (s ++ ['\r']) = stripPrintkPrefix s := by
  have level (s : Text) : stripTimestamp (stripLevel (s ++ ['\r'])) =
      stripTimestamp (stripLevel s) := by
    rcases stripLevel_return s with same | more
    · rw [same]
    · rw [more, stripTimestamp_return]
  rw [stripPrintkPrefix, stripPrintkPrefix]
  rcases trimStart_return s with same | more
  · rw [same]
  · rw [more, level]

theorem stripReturn_eq_or (line : Text) :
    line = stripReturn line ∨ line = stripReturn line ++ ['\r'] := by
  unfold stripReturn
  split_ifs with last
  · exact .inr (List.dropLast_append_getLast? _ last).symm
  · exact .inl rfl

theorem stripPrintkPrefix_stripReturn (line : Text) :
    stripPrintkPrefix (stripReturn line) = stripPrintkPrefix line := by
  rcases stripReturn_eq_or line with same | more
  · rw [← same]
  · conv_rhs => rw [more, stripPrintkPrefix_return]

/-! ## Scrubbed lines -/

/-- A line as the parser sees it. -/
def plainLine (classes : CharClasses) (line : Text) : Text := stripPrintkPrefix (scrub classes line)

theorem plainLine_stripReturn (line : Text) :
    plainLine classes (stripReturn line) = plainLine classes line := by
  rcases stripReturn_eq_or line with same | more
  · rw [← same]
  · conv_rhs => rw [more, plainLine, scrub_append (by decide), scrub_nil, stripPrintkPrefix_return]
    rfl

theorem newline_not_mem_scrub {s : Text} (single : '\n' ∉ s) : '\n' ∉ scrub classes s := by
  intro member
  have other : ∀ c ∈ s, c ≠ '\n' := by
    rintro c inLine rfl
    exact single inLine
  exact @forall_mem_scrub classes (· ≠ '\n') (by decide) (by decide) (by decide) s other _ member rfl

theorem map_lines_scrub (s : Text) :
    (lines (scrub classes s)).map stripPrintkPrefix = (lines s).map (plainLine classes) := by
  induction s using lines_induction with
  | nil => rfl
  | rest s nonempty single =>
    rw [lines_of_not_mem nonempty single,
      lines_of_not_mem (scrub_ne_nil nonempty) (newline_not_mem_scrub single)]
    rfl
  | line first s single ih =>
    rw [scrub_append (by decide), lines_line (newline_not_mem_scrub single), lines_line single,
      List.map_cons, List.map_cons, ih, stripPrintkPrefix_stripReturn, plainLine_stripReturn]
    rfl

/-! ## Lines with a location -/

/-- What the symbols know: the location of a symbol and offset, in a module or in the kernel. -/
abbrev KnownLocations := Text → ℕ → Option Text → Option SourceLocation

def KnownLocations.resolver (known : KnownLocations) : Resolver :=
  fun symbol offset module => (known symbol offset module).map SourceLocation.text

/-- The location of a line. -/
def KnownLocations.at (known : KnownLocations) (line : Text) : Option SourceLocation :=
  (query line).bind fun q => known q.symbol q.offset q.module

/-- A line with its location, as the parser sees it. -/
def locatedLine (classes : CharClasses) (known : KnownLocations) (line : Text) : Text :=
  stripPrintkPrefix (scrub classes (annotateLine known.resolver line))

theorem location_resolver (known : KnownLocations) (line : Text) :
    location known.resolver line = (known.at line).map SourceLocation.text := by
  rw [location, KnownLocations.at]
  cases query line <;> rfl

theorem newline_not_mem_annotateLine (known : KnownLocations) {line : Text}
    (single : '\n' ∉ line) : '\n' ∉ annotateLine known.resolver line := by
  rw [annotateLine, location_resolver]
  cases known.at line with
  | none => simpa using single
  | some loc =>
    have visible : '\n' ∉ loc.text := fun member => absurd (loc.text_visible _ member) (by decide)
    simp [suffix, single, visible]

theorem scrub_flatMap (f : Text → Text) (all : List Text) :
    scrub classes (all.flatMap fun line => f line ++ ['\n']) =
      all.flatMap fun line => scrub classes (f line) ++ ['\n'] := by
  induction all with
  | nil => rfl
  | cons line all ih =>
    rw [List.flatMap_cons, List.flatMap_cons, List.append_assoc, List.singleton_append,
      scrub_append (by decide), ih, List.append_assoc, List.singleton_append]

theorem map_lines_annotate (known : KnownLocations) (text : Text) :
    (lines (scrub classes (annotate known.resolver text))).map stripPrintkPrefix =
      (lines text).map (locatedLine classes known) := by
  have shape : (lines text).flatMap (fun line =>
        scrub classes (annotateLine known.resolver line) ++ ['\n']) =
      ((lines text).map fun line => scrub classes (annotateLine known.resolver line)).flatMap
        fun line => line ++ ['\n'] := by
    rw [List.flatMap_map]
  have single : ∀ line ∈ (lines text).map fun line =>
      scrub classes (annotateLine known.resolver line), '\n' ∉ line := by
    intro line member
    obtain ⟨bare, inText, rfl⟩ := List.mem_map.mp member
    exact newline_not_mem_scrub (newline_not_mem_annotateLine known (not_mem_of_mem_lines inText))
  rw [annotate, scrub_flatMap, shape, lines_flatMap single, List.map_map, List.map_map]
  refine List.map_congr_left fun line _ => ?_
  exact stripPrintkPrefix_stripReturn _

/-- A line without a location is seen as it is. -/
theorem locatedLine_of_none {known : KnownLocations} {line : Text} (nowhere : known.at line = none) :
    locatedLine classes known line = plainLine classes line := by
  rw [locatedLine, annotateLine, location_resolver, nowhere]
  simp [plainLine]

/-- A location is seen scrubbed, behind the line. -/
theorem appended_locatedLine {known : KnownLocations} {line : Text} {loc : SourceLocation}
    (located : known.at line = some loc) :
    Appended (scrub classes loc.text) (plainLine classes line) (locatedLine classes known line) := by
  have resolved : location known.resolver line = some loc.text := by
    rw [location_resolver, located]
    rfl
  obtain ⟨left, right, shape⟩ := offset_of_location resolved
  obtain ⟨rest, radix⟩ := @scrub_hexPrefix classes right
  have body : scrub classes line = scrub classes left ++ '+' :: '0' :: 'x' :: rest := by
    rw [shape, scrub_append (by decide), radix]
  have behind : suffix loc.text = ' ' :: '(' :: (loc.text ++ ')' :: []) := by simp [suffix]
  have behind' : scrub classes (suffix loc.text) = suffix (scrub classes loc.text) := by
    rw [behind, scrub_cons (by decide), scrub_cons (by decide), scrub_append (by decide), scrub_nil]
    simp [suffix]
  have whole : scrub classes (annotateLine known.resolver line) =
      scrub classes line ++ suffix (scrub classes loc.text) := by
    rw [annotateLine, resolved, Option.map_some, Option.getD_some, ← behind', behind,
      scrub_append (by decide), @scrub_cons classes ' ' (by decide)]
  rw [plainLine, locatedLine, whole, body]
  apply appended_stripPrintkPrefix
  · exact forall_mem_scrub (by decide) (by decide) (by decide) loc.text_visible
  · exact three_le_scrub loc.three_le_length_text

end UcrashReport.Signature
