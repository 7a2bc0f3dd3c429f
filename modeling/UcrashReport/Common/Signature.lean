import UcrashReport.Rust.Text

/-! # The crash signature

`parseOops` reads a kernel crash text line by line and keeps the exception line and the frames of
one crash section; `compute` turns these into the signature, the title and the module list of a
crash group. The digest is the lower-case hex SHA-256 of the UTF-8 input and stays a parameter: no
definition here looks inside it.

The line loop is a fold of `scanLine` over the lines of the text. Its state is exactly the three
variables of the loop, so what a run does with a text can be cut at any line.
-/

namespace UcrashReport.Signature

open Rust Rust.Text

/-- One call-trace frame from the decoder's structured output. -/
structure Frame where
  symbol : Text
  module : Option Text
  /-- A `? symbol` frame: possibly stale, not part of the signature. -/
  questionable : Bool
deriving DecidableEq, Repr

structure CrashSignature where
  signature : Text
  title : Text
  modules : List Text
deriving DecidableEq, Repr

def signatureFrames : ℕ := 5

/-- Frames of the unwinder and report machinery, dropped from the leading edge of the trace. -/
def skipPrefixes : List Text :=
  ["dump_backtrace".toList, "show_stack".toList, "dump_stack".toList, "die".toList,
    "__die".toList, "oops".toList, "panic".toList, "__warn".toList, "warn_slowpath".toList,
    "report_bug".toList, "bug_handler".toList, "do_trap".toList, "do_page_fault".toList,
    "do_translation_fault".toList, "do_mem_abort".toList, "el1_".toList, "el1h_".toList,
    "__do_kernel_fault".toList, "ret_from_".toList, "handle_exception".toList]

def isMachinery (symbol : Text) : Bool :=
  skipPrefixes.any (fun p => startsWith p symbol) || endsWith "_exception".toList symbol

/-! ## Normalization -/

def compilerSuffixes : List Text :=
  ["constprop".toList, "isra".toList, "part".toList, "cold".toList, "lto".toList]

/-- The part of a text before the first occurrence of a marker, or all of it. -/
def truncateAt (marker s : Text) : Text :=
  match splitOnce marker s with
  | some parts => parts.1
  | none => s

/-- Strip offsets, compiler-generated suffixes and addresses from a symbol name. -/
def normalizeSymbol (symbol : Text) : Text :=
  compilerSuffixes.foldl (fun out suffix => truncateAt ('.' :: suffix) out)
    (truncateAt "+0x".toList (trim symbol))

/-- Words that announce a value which differs between devices. -/
def isNoiseWord (t : Text) : Bool :=
  t == "CPU:".toList || t == "PID:".toList || t == "Comm:".toList || t == "Tainted:".toList ||
    t == "at".toList

/-- What a token of the exception line is compared with: its brackets and commas removed. -/
def bareToken (tok : Text) : Text :=
  trimMatches (fun c => c == '[' || c == ']' || c == ',') tok

/-- A hex address or a long hex id. -/
def isHexNoise (t : Text) : Bool :=
  startsWith "0x".toList t || (decide (4 ≤ byteLen t) && t.all isAsciiHexdigit)

/-- A die counter or a timestamp. -/
def isCounterNoise (t : Text) : Bool :=
  startsWith "#".toList t || (decide ('.' ∈ t) && t.all (fun c => isAsciiDigit c || c == '.'))

/-- The text with one more word. -/
def pushWord (out t : Text) : Text := if out.isEmpty then t else out ++ ' ' :: t

/-- The token loop. A noise word other than `at` with a token after it consumes that token too;
`skip` says that the previous token has done so. -/
def normalizeTokens : Bool → Text → List Text → Text
  | _, out, [] => out
  | true, out, _ :: rest => normalizeTokens false out rest
  | false, out, tok :: rest =>
    let t := bareToken tok
    if isHexNoise t then normalizeTokens false out rest
    else if isNoiseWord t && !rest.isEmpty && t != "at".toList then normalizeTokens true out rest
    else if isCounterNoise t then normalizeTokens false out rest
    else normalizeTokens false (pushWord out t) rest

/-- Strip addresses and CPU, PID and task noise from an exception line. -/
def normalizeException (line : Text) : Text := normalizeTokens false [] (splitWhitespace (trim line))

/-! ## The signature of a section -/

/-- The mutable variables of the loop in `compute`. -/
structure Collected where
  sigFrames : List Text := []
  modules : List Text := []
  seenRealFrame : Bool := false

def collectFrame (acc : Collected) (f : Frame) : Collected :=
  if f.questionable then acc
  else
    let sym := normalizeSymbol f.symbol
    if sym.isEmpty then acc
    else
      let modules :=
        match f.module with
        | some m => if acc.modules.contains m then acc.modules else acc.modules ++ [m]
        | none => acc.modules
      if !acc.seenRealFrame && isMachinery sym then { acc with modules }
      else
        { sigFrames :=
            if acc.sigFrames.length < signatureFrames then acc.sigFrames ++ [sym] else acc.sigFrames
          modules
          seenRealFrame := true }

def collectFrames (frames : List Frame) : Collected := frames.foldl collectFrame {}

/-- The hashed text: kind, exception and frames, joined by bars. -/
def signatureInput (kind exception : Text) (frames : List Text) : Text :=
  kind ++ '|' :: exception ++ '|' :: ['|'].intercalate frames

/-- Compute the crash signature; `sha256Hex` is the hex digest of the UTF-8 encoding. -/
def compute (sha256Hex : Text → Text) (kind exceptionLine : Text) (frames : List Frame) :
    CrashSignature :=
  let exception := normalizeException exceptionLine
  let collected := collectFrames frames
  { signature := sha256Hex (signatureInput kind exception collected.sigFrames)
    title := collected.sigFrames.head?.getD exception
    modules := collected.modules }

/-! ## Reading a crash text -/

/-- The printk timestamp after an optional `<level>`, bracketed or bare, is dropped. -/
def stripTimestamp (s : Text) : Text :=
  match "[".toList.isPrefixOf? s with
  | some rest =>
    match splitOnce "]".toList rest with
    | some (ts, rest) =>
      if (trim ts).all (fun c => isAsciiDigit c || c == '.') then trim rest else trim s
    | none => trim s
  | none =>
    match splitOnce " ".toList s with
    | some (first, rest) =>
      if decide ('.' ∈ first) && first.all (fun c => isAsciiDigit c || c == '.') then trim rest
      else trim s
    | none => trim s

/-- The syslog level `<7>` at the start of a line is dropped. -/
def stripLevel (s : Text) : Text :=
  match "<".toList.isPrefixOf? s with
  | some rest =>
    match splitOnce ">".toList rest with
    | some (level, rest) =>
      if !level.isEmpty && level.all isAsciiDigit then trimStart rest else s
    | none => s
  | none => s

/-- Strip kernel log line prefixes: `[   12.345678] msg`, `<7>[   59.157] msg`, `<7> 59.157 msg`. -/
def stripPrintkPrefix (raw : Text) : Text := stripTimestamp (stripLevel (trimStart raw))

def markers : List Text :=
  ["Oops".toList, "kernel BUG at".toList, "Internal error:".toList,
    "Unable to handle kernel".toList, "Unhandled fault".toList, "BUG:".toList,
    "WARNING:".toList]

/-- Some exception marker occurs in the line. -/
def hasMarker (line : Text) : Bool :=
  markers.any fun marker => startsWith marker line || contains marker line

def isTraceHeader (line : Text) : Bool :=
  startsWith "Call trace:".toList line || startsWith "Call Trace:".toList line

def isTraceEnd (line : Text) : Bool := contains "---[ end trace".toList line || line.isEmpty

/-- Trailing `(P)` style markers of at most two bytes are removed, innermost last. Every removal
shortens the line, so its length bounds the number of rounds. -/
def stripFrameMarkers : ℕ → Text → Text
  | 0, line => line
  | n + 1, line =>
    if endsWith ")".toList line then
      match rsplitOnce " (".toList line with
      | some (rest, marker) =>
        if byteLen marker ≤ 3 then stripFrameMarkers n (trimEnd rest) else line
      | none => line
    else line

/-- The line of a trace without its `? ` marks. -/
def unquestioned (line : Text) : Text := trim (trimStartMatches "? ".toList line)

/-- The symbol part and the module annotation of a frame line. -/
def splitModule (line : Text) : Text × Option Text :=
  match splitOnce " [".toList line with
  | some (s, m) => (s, some (trimEndMatches ']' m))
  | none => (line, none)

/-- A frame `symbol+0xoff/0xsize [module]`; anything else ends the trace section. -/
def parseFrame (line : Text) : Option Frame :=
  let body := unquestioned line
  let parts := splitModule (stripFrameMarkers body.length body)
  if contains "+0x".toList parts.1 then
    some ⟨parts.1, parts.2, startsWith "? ".toList line⟩
  else none

/-- The variables of the line loop of `parse_oops`. -/
structure ScanState where
  exception : Option Text := none
  frames : List Frame := []
  inTrace : Bool := false
deriving DecidableEq, Repr

/-- A marker starts a new section once the previous one has frames: the last crash is the fatal
one. Before any frame only the first marked line counts. -/
def scanMarker (st : ScanState) (line : Text) : ScanState :=
  if hasMarker line then
    if !st.frames.isEmpty then { st with frames := [], exception := some line }
    else if st.exception.isNone then { st with exception := some line }
    else st
  else st

/-- What the trace section does with a line that is not its header. -/
def scanTrace (st : ScanState) (line : Text) : ScanState :=
  if isTraceEnd line then { st with inTrace := false }
  else
    match parseFrame line with
    | some frame => { st with frames := st.frames ++ [frame] }
    | none => { st with inTrace := false }

/-- One round of the loop on a line without its log prefix. -/
def scanStripped (st : ScanState) (line : Text) : ScanState :=
  let st := scanMarker st line
  if isTraceHeader line then { st with inTrace := true }
  else if st.inTrace then scanTrace st line
  else st

def scanLine (st : ScanState) (raw : Text) : ScanState := scanStripped st (stripPrintkPrefix raw)

def scan (st : ScanState) (rawLines : List Text) : ScanState := rawLines.foldl scanLine st

/-- What the loop has found at its end. -/
def ScanState.result (st : ScanState) : Option (Text × List Frame) :=
  st.exception.map fun e => (e, st.frames)

/-- Extract the exception line and call-trace frames from an oops text. -/
def parseOops (text : Text) : Option (Text × List Frame) := (scan {} (lines text)).result

/-- The signature of a text with a crash. -/
def signatureOf (sha256Hex : Text → Text) (kind text : Text) : Option CrashSignature :=
  (parseOops text).map fun parsed => compute sha256Hex kind parsed.1 parsed.2

/-! ## Laws of the line loop -/

theorem hasMarker_iff {line : Text} : hasMarker line = true ↔ ∃ m ∈ markers, m <:+: line := by
  simp only [hasMarker, List.any_eq_true, Bool.or_eq_true, startsWith_iff, contains_iff]
  constructor
  · rintro ⟨m, member, leading | inside⟩
    · exact ⟨m, member, leading.isInfix⟩
    · exact ⟨m, member, inside⟩
  · rintro ⟨m, member, inside⟩
    exact ⟨m, member, .inr inside⟩

theorem marker_nonempty : ∀ m ∈ markers, m ≠ [] := by decide

theorem marker_head : ∀ m ∈ markers, ∀ c ∈ m.head?, isWhitespace c = false := by
  intro m member
  have all : ∀ m ∈ markers, m.head?.all (fun c => decide (isWhitespace c = false)) = true := by
    decide
  exact forall_eq_some_of_all (all m member)

theorem marker_last : ∀ m ∈ markers, ∀ c ∈ m.getLast?, isWhitespace c = false := by
  intro m member
  have all : ∀ m ∈ markers, m.getLast?.all (fun c => decide (isWhitespace c = false)) = true := by
    decide +kernel
  exact forall_eq_some_of_all (all m member)

theorem hasMarker_trim (line : Text) : hasMarker (trim line) = hasMarker line := by
  rw [Bool.eq_iff_iff, hasMarker_iff, hasMarker_iff]
  refine exists_congr fun m => and_congr_right fun member => ?_
  rw [← contains_iff, ← contains_iff, contains_trim (marker_nonempty m member)
    (fun c head => marker_head m member c head) (fun c last => marker_last m member c last)]

/-- A condition on the markers and a fixed text, evaluated on their characters. -/
theorem forall_markers_of_all {property : Text → Char → Prop}
    [∀ m, DecidablePred (property m)] {s : Text}
    (all : markers.all (fun m => s.all fun c => decide (property m c)) = true) :
    ∀ m ∈ markers, ∀ c ∈ s, property m c := by
  simpa only [List.all_eq_true, decide_eq_true_eq] using all

/-- Characters outside every marker's ends do not make a marker when they surround a text. -/
theorem hasMarker_surround {left right : Text}
    (head : ∀ m ∈ markers, ∀ c ∈ left, m.head? ≠ some c)
    (last : ∀ m ∈ markers, ∀ c ∈ right, m.getLast? ≠ some c) (s : Text) :
    hasMarker (left ++ (s ++ right)) = hasMarker s := by
  rw [Bool.eq_iff_iff, hasMarker_iff, hasMarker_iff]
  refine exists_congr fun m => and_congr_right fun member => ?_
  rw [infix_append_of_head (marker_nonempty m member) (head m member),
    infix_append_of_last (marker_nonempty m member) (last m member)]

theorem hasMarker_append_blank {blank : Text} (isBlank : ∀ c ∈ blank, isWhitespace c = true)
    (s : Text) : hasMarker (s ++ blank) = hasMarker s := by
  refine @hasMarker_surround [] blank (fun m _ c member => nomatch member) ?_ s
  intro m marker c member last
  exact absurd (isBlank c member) (by simp [marker_last m marker c last])

/-- A line whose first word cannot be a log prefix is only trimmed. -/
theorem stripPrintkPrefix_of_word {c : Char} (visible : isWhitespace c = false)
    (noLevel : c ≠ '<') (noBracket : c ≠ '[') (noDigit : isAsciiDigit c = false) (noDot : c ≠ '.')
    (rest : Text) : stripPrintkPrefix (c :: rest) = trim (c :: rest) := by
  have start : trimStart (c :: rest) = c :: rest := by simp [trimStart, visible]
  have level : stripLevel (c :: rest) = c :: rest := by
    simp [stripLevel, List.isPrefixOf?, noLevel.symm]
  have bracket : "[".toList.isPrefixOf? (c :: rest) = none := by
    simp [List.isPrefixOf?, noBracket.symm]
  rw [stripPrintkPrefix, start, level, stripTimestamp, bracket]
  dsimp only
  split
  · next first second split =>
    have shape := splitOnce_spec split
    cases first with
    | nil =>
      obtain ⟨rfl, -⟩ := List.cons.inj shape
      contradiction
    | cons d ds =>
      obtain ⟨rfl, -⟩ := List.cons.inj shape
      simp [noDigit, noDot]
  · rfl

@[simp] theorem scan_nil (st : ScanState) : scan st [] = st := rfl

@[simp] theorem scan_cons (st : ScanState) (raw : Text) (rest : List Text) :
    scan st (raw :: rest) = scan (scanLine st raw) rest := rfl

theorem scan_append (st : ScanState) (first second : List Text) :
    scan st (first ++ second) = scan (scan st first) second := List.foldl_append

theorem scanMarker_of_unmarked {st : ScanState} {line : Text} (unmarked : hasMarker line = false) :
    scanMarker st line = st := by simp [scanMarker, unmarked]

/-- A marked line after a frame starts a section of its own. -/
theorem scanMarker_of_frames {st : ScanState} {line : Text} (marked : hasMarker line = true)
    (frames : st.frames ≠ []) : scanMarker st line = ⟨some line, [], st.inTrace⟩ := by
  simp [scanMarker, marked, frames]

/-- Before the first frame of a section only its first marked line is the exception. -/
theorem scanMarker_of_exception {st : ScanState} {line e : Text} (exception : st.exception = some e)
    (frames : st.frames = []) : scanMarker st line = st := by
  simp [scanMarker, exception, frames]

@[simp] theorem scanMarker_inTrace (st : ScanState) (line : Text) :
    (scanMarker st line).inTrace = st.inTrace := by
  unfold scanMarker
  split_ifs <;> rfl

theorem stripFrameMarkers_isPrefix (n : ℕ) (line : Text) : stripFrameMarkers n line <+: line := by
  induction n generalizing line with
  | zero => exact List.prefix_rfl
  | succ n ih =>
    simp only [stripFrameMarkers]
    split_ifs
    · split
      · next rest marker split =>
        have shorter : trimEnd rest <+: line :=
          (trimEnd_isPrefix rest).trans ⟨_, (rsplitOnce_spec split).symm⟩
        split_ifs
        · exact (ih _).trans shorter
        · exact List.prefix_rfl
      · exact List.prefix_rfl
    · exact List.prefix_rfl

/-- More rounds than characters change nothing. -/
theorem stripFrameMarkers_of_length_le {n : ℕ} {line : Text} (enough : line.length ≤ n) :
    stripFrameMarkers n line = stripFrameMarkers line.length line := by
  have atEnd (n : ℕ) : stripFrameMarkers n [] = [] := by
    cases n <;> rfl
  have fuel (n : ℕ) : ∀ (k : ℕ) (line : Text), line.length ≤ n → line.length ≤ k →
      stripFrameMarkers n line = stripFrameMarkers k line := by
    induction n with
    | zero =>
      intro k line short _
      obtain rfl := List.length_eq_zero_iff.mp (Nat.le_zero.mp short)
      rw [atEnd, atEnd]
    | succ n ih =>
      intro k line short short'
      cases k with
      | zero =>
        obtain rfl := List.length_eq_zero_iff.mp (Nat.le_zero.mp short')
        rw [atEnd, atEnd]
      | succ k =>
        rw [stripFrameMarkers, stripFrameMarkers]
        split_ifs
        · cases split : rsplitOnce " (".toList line with
          | none => rfl
          | some parts =>
            obtain ⟨rest, marker⟩ := parts
            have lengths := congrArg List.length (rsplitOnce_spec split)
            have opening : " (".toList.length = 2 := rfl
            have trimmed := (trimEnd_isPrefix rest).length_le
            rw [List.length_append, List.length_append, opening] at lengths
            dsimp only
            split_ifs
            · exact ih k (trimEnd rest) (by omega) (by omega)
            · rfl
        · rfl
  exact fuel n line.length line enough le_rfl

theorem splitModule_isPrefix (line : Text) : (splitModule line).1 <+: line := by
  simp only [splitModule]
  split
  · next split => exact ⟨_, (splitOnce_spec split).symm⟩
  · exact List.prefix_rfl

theorem unquestioned_isInfix (line : Text) : unquestioned line <:+: line :=
  (trim_isInfix _).trans (trimStartMatches_suffix _ line).isInfix

/-- A line without an offset is no frame. -/
theorem parseFrame_eq_none {line : Text} (noOffset : contains "+0x".toList line = false) :
    parseFrame line = none := by
  simp only [parseFrame]
  rw [if_neg]
  intro offset
  have inside : "+0x".toList <:+: line := (contains_iff.mp offset).trans
    ((splitModule_isPrefix _).isInfix.trans
      ((stripFrameMarkers_isPrefix _ _).isInfix.trans (unquestioned_isInfix line)))
  rw [contains_iff.mpr inside] at noOffset
  contradiction

end UcrashReport.Signature
