import UcrashReport.Common.FrameLines

/-! # The transport of a kernel log

The same crash reaches the parser through `dmesg`, as a raw pstore record or through a pstore
backend, and each of them puts a prefix of its own before every line. `logged` inserts one prefix a
line and leaves the line ends where they are; reading the result is reading the bare text.
-/

namespace UcrashReport.Signature

open Rust Rust.Text

/-- A printk timestamp: seconds and their fraction. -/
structure Timestamp where
  seconds : Digits
  fraction : Digits

namespace Timestamp

def text (t : Timestamp) : Text := t.seconds.text ++ '.' :: t.fraction.text

theorem mem_text {t : Timestamp} {c : Char} (member : c ∈ t.text) :
    isAsciiDigit c = true ∨ c = '.' := by
  rw [text, List.mem_append, List.mem_cons] at member
  rcases member with seconds | dot | fraction
  · exact .inl (t.seconds.digits c seconds)
  · exact .inr dot
  · exact .inl (t.fraction.digits c fraction)

theorem all_text (t : Timestamp) : t.text.all (fun c => isAsciiDigit c || c == '.') = true := by
  rw [List.all_eq_true]
  intro c member
  rcases mem_text member with digit | dot
  · simp [digit]
  · simp [dot]

theorem visible_text (t : Timestamp) : ∀ c ∈ t.text, isWhitespace c = false := by
  intro c member
  rcases mem_text member with digit | rfl
  · exact isWhitespace_of_isAsciiDigit digit
  · decide

/-- Only digits and the dot occur in a timestamp. -/
theorem not_mem_text {t : Timestamp} {c : Char} (noDigit : isAsciiDigit c = false)
    (noDot : c ≠ '.') : c ∉ t.text := by
  intro member
  rcases mem_text member with digit | dot
  · rw [noDigit] at digit
    contradiction
  · exact noDot dot

/-- A timestamp begins with a digit of its seconds. -/
theorem text_eq_cons (t : Timestamp) : ∃ c cs, t.text = c :: cs ∧ isAsciiDigit c = true := by
  obtain ⟨seconds, nonempty, digits⟩ := t.seconds
  cases shape : t.seconds.text with
  | nil => exact absurd shape t.seconds.nonempty
  | cons c cs =>
    refine ⟨c, cs ++ '.' :: t.fraction.text, by rw [text, shape, List.cons_append], ?_⟩
    exact t.seconds.digits c (shape ▸ List.mem_cons_self)

end Timestamp

/-- What a log puts before a line. -/
inductive LogPrefix where
  /-- `[<spaces>SEC.USEC] `, as `dmesg` prints it. -/
  | dmesg (spaces : ℕ) (time : Timestamp)
  /-- `<LEVEL>[<spaces>SEC.USEC] `, as pstore records hold it. -/
  | record (level : Digits) (spaces : ℕ) (time : Timestamp)
  /-- `<LEVEL> SEC.USEC `, as some pstore backends write it. -/
  | backend (level : Digits) (time : Timestamp)

/-- The timestamp in brackets and the blank behind it. -/
def bracketed (spaces : ℕ) (time : Timestamp) : Text :=
  '[' :: (List.replicate spaces ' ' ++ time.text ++ [']', ' '])

def LogPrefix.text : LogPrefix → Text
  | dmesg spaces time => bracketed spaces time
  | record level spaces time => '<' :: (level.text ++ '>' :: bracketed spaces time)
  | backend level time => '<' :: (level.text ++ '>' :: ' ' :: (time.text ++ [' ']))

/-- A text as a log carries it: every line behind the prefix chosen for it. -/
def logged (prefixes : List LogPrefix) (text : Text) : Text :=
  (List.zipWith (fun p line => p.text ++ line) prefixes (splitInclusive text)).flatten

/-! ## Stripping one prefix -/

theorem stripTimestamp_bracketed (spaces : ℕ) (time : Timestamp) (line : Text) :
    stripTimestamp (bracketed spaces time ++ line) = trim line := by
  have inside : ']' ∉ List.replicate spaces ' ' ++ time.text := by
    rw [List.mem_append, List.mem_replicate]
    rintro (⟨-, blank⟩ | member)
    · exact absurd blank (by decide)
    · exact Timestamp.not_mem_text (by decide) (by decide) member
  have shape : bracketed spaces time ++ line =
      '[' :: ((List.replicate spaces ' ' ++ time.text) ++ ']' :: ' ' :: line) := by
    simp [bracketed]
  have opened : "[".toList.isPrefixOf?
      ('[' :: ((List.replicate spaces ' ' ++ time.text) ++ ']' :: ' ' :: line)) =
        some ((List.replicate spaces ' ' ++ time.text) ++ ']' :: ' ' :: line) :=
    List.isPrefixOf?_eq_some_iff_append_eq.mpr rfl
  have stamp : trim (List.replicate spaces ' ' ++ time.text) = time.text := by
    rw [trim, trimStart_replicate, ← trim, trim_of_visible time.visible_text]
  have close : splitOnce "]".toList ((List.replicate spaces ' ' ++ time.text) ++ ']' :: ' ' :: line)
      = some (List.replicate spaces ' ' ++ time.text, ' ' :: line) := splitOnce_singleton inside _
  rw [shape, stripTimestamp, opened]
  dsimp only
  rw [close]
  dsimp only
  rw [stamp, time.all_text, if_pos rfl, trim_space_cons]

theorem stripTimestamp_bare (time : Timestamp) (line : Text) :
    stripTimestamp (time.text ++ ' ' :: line) = trim line := by
  obtain ⟨c, cs, shape, digit⟩ := time.text_eq_cons
  have noBracket : "[".toList.isPrefixOf? (time.text ++ ' ' :: line) = none := by
    have different : '[' ≠ c := by
      rintro rfl
      exact absurd digit (by decide)
    rw [shape, List.cons_append]
    simp [List.isPrefixOf?, different]
  have first : splitOnce " ".toList (time.text ++ ' ' :: line) = some (time.text, line) :=
    splitOnce_singleton (Timestamp.not_mem_text (by decide) (by decide)) line
  have dot : decide ('.' ∈ time.text) = true := by simp [Timestamp.text]
  rw [stripTimestamp, noBracket]
  dsimp only
  rw [first]
  dsimp only
  rw [dot, time.all_text, Bool.and_self, if_pos rfl]

theorem stripLevel_level (level : Digits) (rest : Text) :
    stripLevel ('<' :: (level.text ++ '>' :: rest)) = trimStart rest := by
  have opened : "<".toList.isPrefixOf? ('<' :: (level.text ++ '>' :: rest)) =
      some (level.text ++ '>' :: rest) := List.isPrefixOf?_eq_some_iff_append_eq.mpr rfl
  have inside : '>' ∉ level.text := fun member => absurd (level.digits _ member) (by decide)
  have close : splitOnce ">".toList (level.text ++ '>' :: rest) = some (level.text, rest) :=
    splitOnce_singleton inside rest
  have digits : level.text.all isAsciiDigit = true := List.all_eq_true.mpr level.digits
  rw [stripLevel, opened]
  dsimp only
  rw [close]
  dsimp only
  rw [digits, if_pos]
  simp [level.nonempty]

theorem stripLevel_bracketed (spaces : ℕ) (time : Timestamp) (line : Text) :
    stripLevel (bracketed spaces time ++ line) = bracketed spaces time ++ line := by
  rfl

/-- A prefix hides the line behind it from none of the three ways to strip it. -/
theorem stripPrintkPrefix_text (p : LogPrefix) (line : Text) :
    stripPrintkPrefix (p.text ++ line) = trim line := by
  have visible (time : Timestamp) : trimStart (time.text ++ ' ' :: line) =
      time.text ++ ' ' :: line := by
    obtain ⟨c, cs, shape, digit⟩ := time.text_eq_cons
    rw [shape, List.cons_append, trimStart_cons_of_visible (isWhitespace_of_isAsciiDigit digit)]
  have bracket (spaces : ℕ) (time : Timestamp) : trimStart (bracketed spaces time ++ line) =
      bracketed spaces time ++ line := trimStart_cons_of_visible (by decide) _
  cases p with
  | dmesg spaces time =>
    rw [LogPrefix.text, stripPrintkPrefix, bracket, stripLevel_bracketed, stripTimestamp_bracketed]
  | record level spaces time =>
    have shape : (LogPrefix.record level spaces time).text ++ line =
        '<' :: (level.text ++ '>' :: (bracketed spaces time ++ line)) := by simp [LogPrefix.text]
    rw [shape, stripPrintkPrefix, trimStart_cons_of_visible (by decide), stripLevel_level, bracket,
      stripTimestamp_bracketed]
  | backend level time =>
    have shape : (LogPrefix.backend level time).text ++ line =
        '<' :: (level.text ++ '>' :: ' ' :: (time.text ++ ' ' :: line)) := by simp [LogPrefix.text]
    have blank : trimStart (' ' :: (time.text ++ ' ' :: line)) =
        trimStart (time.text ++ ' ' :: line) := by
      rw [trimStart, trimStart, List.dropWhile_cons_of_pos isWhitespace_space]
    rw [shape, stripPrintkPrefix, trimStart_cons_of_visible (by decide), stripLevel_level, blank,
      visible, stripTimestamp_bare]

/-! ## The lines of a log -/

theorem newline_not_mem_text (p : LogPrefix) : '\n' ∉ p.text := by
  have inTime (time : Timestamp) : '\n' ∉ time.text :=
    Timestamp.not_mem_text (by decide) (by decide)
  have inLevel (level : Digits) : '\n' ∉ level.text := fun member =>
    absurd (level.digits _ member) (by decide)
  cases p <;> simp [LogPrefix.text, bracketed, inTime, inLevel]

theorem getLast?_text (p : LogPrefix) : p.text.getLast? = some ' ' := by
  cases p <;> simp [LogPrefix.text, bracketed, List.getLast?_cons, List.getLast?_append]

theorem logged_nil (prefixes : List LogPrefix) : logged prefixes [] = [] := by
  cases prefixes <;> rfl

/-- The lines of a log are the lines of the text, each behind its prefix. -/
theorem lines_logged {prefixes : List LogPrefix} {text : Text}
    (each : prefixes.length = (lines text).length) :
    lines (logged prefixes text) =
      List.zipWith (fun p line => p.text ++ line) prefixes (lines text) := by
  induction text using lines_induction generalizing prefixes with
  | nil =>
    rw [logged_nil]
    cases prefixes <;> rfl
  | rest s nonempty single =>
    rw [lines_of_not_mem nonempty single] at each ⊢
    obtain ⟨p, rfl⟩ := List.length_eq_one_iff.mp each
    have whole : '\n' ∉ p.text ++ s := by
      rw [List.mem_append]
      exact not_or_intro (newline_not_mem_text p) single
    simp [logged, splitInclusive_of_not_mem nonempty single, lines_of_not_mem (by simp [nonempty]) whole]
  | line first s single ih =>
    rw [lines_line single] at each ⊢
    cases prefixes with
    | nil => simp at each
    | cons p prefixes =>
      have rest : prefixes.length = (lines s).length := by simpa using each
      have whole : '\n' ∉ p.text ++ first := by
        rw [List.mem_append]
        exact not_or_intro (newline_not_mem_text p) single
      have shape : logged (p :: prefixes) (first ++ '\n' :: s) =
          (p.text ++ first) ++ '\n' :: logged prefixes s := by
        simp [logged, splitInclusive_line single]
      have last : p.text.getLast? ≠ some '\r' := by
        rw [getLast?_text]
        decide
      rw [shape, lines_line whole, ih rest, stripReturn_append last, List.zipWith_cons_cons]

theorem scan_zipWith {prefixes : List LogPrefix} {all : List Text}
    (plain : ∀ line ∈ all, stripPrintkPrefix line = trim line)
    (each : prefixes.length = all.length) (st : ScanState) :
    scan st (List.zipWith (fun p line => p.text ++ line) prefixes all) = scan st all := by
  induction all generalizing prefixes st with
  | nil => simp
  | cons line all ih =>
    cases prefixes with
    | nil => simp at each
    | cons p prefixes =>
      have same : scanLine st (p.text ++ line) = scanLine st line := by
        rw [scanLine, scanLine, stripPrintkPrefix_text, plain line List.mem_cons_self]
      rw [List.zipWith_cons_cons, scan_cons, scan_cons, same]
      exact ih (fun other member => plain other (List.mem_cons_of_mem line member))
        (by simpa using each) _

/-- A text without log prefixes of its own parses alike however it was logged. -/
theorem parseOops_logged {prefixes : List LogPrefix} {text : Text}
    (plain : ∀ line ∈ lines text, stripPrintkPrefix line = trim line)
    (each : prefixes.length = (lines text).length) :
    parseOops (logged prefixes text) = parseOops text := by
  rw [parseOops, parseOops, lines_logged each, scan_zipWith plain each]

theorem parseOops_logged_oops :
    let seconds : Digits := ⟨"59".toList, by decide, forall_mem_of_all (by decide)⟩
    let fraction : Digits := ⟨"157".toList, by decide, forall_mem_of_all (by decide)⟩
    let level : Digits := ⟨"7".toList, by decide, forall_mem_of_all (by decide)⟩
    let text := "Oops: bad area\r\n Call trace:\n[<80051f78>] f+0x1/0x2 (P)".toList
    parseOops (logged [.dmesg 3 ⟨seconds, fraction⟩, .record level 0 ⟨seconds, fraction⟩,
      .backend level ⟨seconds, fraction⟩] text) = parseOops text :=
  parseOops_logged (by decide +kernel) (by decide +kernel)

end UcrashReport.Signature
