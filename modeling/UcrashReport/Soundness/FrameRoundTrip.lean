import UcrashReport.Common.FrameLines
import UcrashReport.Soundness.CrashSections

/-! # Printed traces are read back

Every frame line is read as the frame that it prints. What can go wrong is the marker search, which
looks at the lines of the trace too: a marked line after the first frame discards the frames before
it. So a trace is read back exactly when nothing after its first frame names an oops.
-/

namespace UcrashReport.Signature

open Rust Rust.Text

/-! ## Crash texts -/

/-- A marked line without a log prefix. -/
structure ExceptionLine where
  text : Text
  marked : hasMarker text = true
  bare : stripPrintkPrefix text = text
  single : '\n' ∉ text

/-- A line that begins with the end mark of a trace. -/
structure EndLine where
  rest : Text
  single : '\n' ∉ rest

def EndLine.text (close : EndLine) : Text := "---[ end trace".toList ++ close.rest

/-- A crash with its frames, line by line. -/
def printedCrash (e : ExceptionLine) (frames : List TraceFrame) (close : EndLine) : Text :=
  (e.text :: "Call trace:".toList :: (frames.map TraceFrame.line ++ [close.text])).flatMap
    fun line => line ++ ['\n']

/-- The crash is read as its exception line and its frames. -/
def ReadsBack (e : ExceptionLine) (frames : List TraceFrame) (close : EndLine) : Prop :=
  parseOops (printedCrash e frames close) = some (e.text, frames.map TraceFrame.frame)

/-! ## Its lines -/

theorem last_stripPrintkPrefix {raw : Text} {c : Char}
    (last : (stripPrintkPrefix raw).getLast? = some c) : isWhitespace c = false := by
  have trimmed : ∃ s, stripPrintkPrefix raw = trim s := by
    unfold stripPrintkPrefix stripTimestamp
    split
    · split
      · split_ifs
        · exact ⟨_, rfl⟩
        · exact ⟨_, rfl⟩
      · exact ⟨_, rfl⟩
    · split
      · split_ifs
        · exact ⟨_, rfl⟩
        · exact ⟨_, rfl⟩
      · exact ⟨_, rfl⟩
  obtain ⟨s, trimmed⟩ := trimmed
  rw [trimmed, trim, trimEnd] at last
  have nonempty : List.rdropWhile isWhitespace (trimStart s) ≠ [] := by
    intro empty
    rw [empty] at last
    contradiction
  rw [List.getLast?_eq_some_getLast nonempty] at last
  obtain rfl := Option.some.inj last
  simpa using List.rdropWhile_last_not isWhitespace (trimStart s) nonempty

theorem stripReturn_of_last {line : Text}
    (last : ∀ c, line.getLast? = some c → isWhitespace c = false) : stripReturn line = line := by
  rw [stripReturn, if_neg]
  intro ending
  exact absurd (last '\r' ending) (by decide)

theorem ExceptionLine.stripReturn (e : ExceptionLine) : Text.stripReturn e.text = e.text := by
  apply stripReturn_of_last
  intro c last
  rw [← e.bare] at last
  exact last_stripPrintkPrefix last

theorem TraceFrame.stripReturn (f : TraceFrame) : Text.stripReturn f.line = f.line := by
  obtain ⟨c, last, visible⟩ := f.line_last
  apply stripReturn_of_last
  intro d last'
  rw [last] at last'
  exact Option.some.inj last' ▸ visible

theorem lines_printedCrash (e : ExceptionLine) (frames : List TraceFrame) (close : EndLine) :
    lines (printedCrash e frames close) =
      e.text :: "Call trace:".toList ::
        (frames.map TraceFrame.line ++ [Text.stripReturn close.text]) := by
  have header : '\n' ∉ "Call trace:".toList := by decide
  have mark : '\n' ∉ "---[ end trace".toList := by decide
  have ending : '\n' ∉ close.text :=
    fun member => (List.mem_append.mp member).elim mark close.single
  have single : ∀ line ∈ e.text :: "Call trace:".toList ::
      (frames.map TraceFrame.line ++ [close.text]), '\n' ∉ line := by
    intro line member
    rw [List.mem_cons, List.mem_cons, List.mem_append, List.mem_map, List.mem_singleton] at member
    rcases member with inFirst | inHeader | ⟨f, -, inFrame⟩ | inLast
    · exact inFirst ▸ e.single
    · exact inHeader ▸ header
    · exact inFrame ▸ f.not_mem_line (by decide) (by decide)
    · exact inLast ▸ ending
  have framesKept : (frames.map TraceFrame.line).map Text.stripReturn =
      frames.map TraceFrame.line := by
    rw [List.map_map]
    exact List.map_congr_left fun f _ => f.stripReturn
  have headerKept : Text.stripReturn "Call trace:".toList = "Call trace:".toList := by decide
  rw [printedCrash, lines_flatMap single, List.map_cons, List.map_cons, List.map_append,
    framesKept, e.stripReturn, headerKept]
  rfl

/-! ## The scan of a trace -/

namespace TraceFrame

theorem scanLine_line {st : ScanState} (opened : st.inTrace = true) (f : TraceFrame) :
    scanLine st f.line =
      ⟨(scanMarker st f.line).exception, (scanMarker st f.line).frames ++ [f.frame], true⟩ := by
  have noHeader : isTraceHeader (stripPrintkPrefix f.line) = false := by
    rw [f.strip_line, f.not_header]
  have noEnd : isTraceEnd (stripPrintkPrefix f.line) = false := by
    rw [f.strip_line, f.not_ending]
  have parsed : parseFrame (stripPrintkPrefix f.line) = some f.frame := by
    rw [f.strip_line, f.parseFrame_line]
  rw [scanLine_frame opened noHeader noEnd parsed, f.strip_line]

/-- Frames that name no oops are appended one by one. -/
theorem scan_of_unmarked {frames : List TraceFrame} (unnamed : ∀ f ∈ frames, ¬ f.NamesOops)
    {st : ScanState} (opened : st.inTrace = true) :
    scan st (frames.map line) = ⟨st.exception, st.frames ++ frames.map frame, true⟩ := by
  induction frames generalizing st with
  | nil =>
    obtain ⟨exception, frames, inTrace⟩ := st
    cases opened
    simp
  | cons f rest ih =>
    have unmarked : hasMarker f.line = false := by
      rw [Bool.eq_false_iff, Ne, hasMarker_line]
      exact unnamed f List.mem_cons_self
    rw [List.map_cons, scan_cons, scanLine_line opened, scanMarker_of_unmarked unmarked,
      ih (fun g member => unnamed g (List.mem_cons_of_mem f member)) rfl]
    simp

/-- Once there is a frame there is one at the end, and a frame that names an oops costs some. -/
theorem scan_frames {frames : List TraceFrame} {st : ScanState} (opened : st.inTrace = true)
    (some_ : st.frames ≠ []) :
    (scan st (frames.map line)).frames ≠ [] ∧
      (scan st (frames.map line)).frames.length ≤ st.frames.length + frames.length ∧
      ((∃ f ∈ frames, f.NamesOops) →
        (scan st (frames.map line)).frames.length < st.frames.length + frames.length) := by
  induction frames generalizing st with
  | nil => exact ⟨some_, le_rfl, fun ⟨f, member, _⟩ => nomatch member⟩
  | cons f rest ih =>
    rw [List.map_cons, scan_cons, scanLine_line opened, List.length_cons]
    by_cases named : f.NamesOops
    · have positive : 0 < st.frames.length := List.length_pos_iff.mpr some_
      rw [scanMarker_of_frames (hasMarker_line f |>.mpr named) some_]
      obtain ⟨nonempty, bound, -⟩ :=
        @ih ⟨some f.line, [] ++ [f.frame], true⟩ rfl (by simp)
      simp only [List.nil_append, List.length_singleton] at nonempty bound ⊢
      refine ⟨nonempty, ?_, fun _ => ?_⟩
      · omega
      · omega
    · have unmarked : hasMarker f.line = false := by
        rw [Bool.eq_false_iff, Ne, hasMarker_line]
        exact named
      rw [scanMarker_of_unmarked unmarked]
      obtain ⟨nonempty, bound, strict⟩ :=
        @ih ⟨st.exception, st.frames ++ [f.frame], true⟩ rfl (by simp)
      simp only [List.length_append, List.length_singleton] at bound strict
      refine ⟨nonempty, ?_, fun ⟨g, member, named'⟩ => ?_⟩
      · omega
      · have later : g ∈ rest := by
          rcases List.mem_cons.mp member with rfl | later
          · exact absurd named' named
          · exact later
        have := strict ⟨g, later, named'⟩
        omega

end TraceFrame

/-- The last line keeps the frames unless it holds a marker itself. -/
theorem EndLine.scanLine (close : EndLine) (st : ScanState) (some_ : st.frames ≠ []) :
    (Signature.scanLine st (Text.stripReturn close.text)).result =
      if hasMarker close.text then some (trim (Text.stripReturn close.text), [])
      else st.result := by
  have shape : Text.stripReturn close.text =
      '-' :: ("--[ end trace".toList ++ Text.stripReturn close.rest) :=
    stripReturn_append (by decide)
  have stripped : stripPrintkPrefix (Text.stripReturn close.text) =
      trim (Text.stripReturn close.text) := by
    rw [shape]
    exact stripPrintkPrefix_of_word (by decide) (by decide) (by decide) (by decide) (by decide) _
  have leading : "---[ end trace".toList <+: trim (Text.stripReturn close.text) := by
    have mark : trim (Text.stripReturn close.text) =
        "---[ end trac".toList ++ 'e' :: trimEnd (Text.stripReturn close.rest) := by
      rw [trim, shape, trimStart_cons_of_visible (by decide)]
      exact trimEnd_append_cons (by decide) "---[ end trac".toList _
    rw [mark]
    exact ⟨trimEnd (Text.stripReturn close.rest), rfl⟩
  have marked : hasMarker (stripPrintkPrefix (Text.stripReturn close.text)) =
      hasMarker close.text := by
    obtain ⟨blank, text, isBlank⟩ := stripReturn_spec close.text
    conv_rhs => rw [text]
    rw [stripped, hasMarker_trim, hasMarker_append_blank isBlank]
  have noHeader : isTraceHeader (stripPrintkPrefix (Text.stripReturn close.text)) = false := by
    obtain ⟨rest, same⟩ := leading
    rw [stripped, ← same]
    rfl
  have atEnd : isTraceEnd (stripPrintkPrefix (Text.stripReturn close.text)) = true := by
    rw [stripped, isTraceEnd, contains_iff.mpr leading.isInfix, Bool.true_or]
  rw [scanLine_other st noHeader (.inl atEnd)]
  split_ifs with inside
  · rw [scanMarker_of_frames (marked.trans inside) some_, stripped]
    rfl
  · rw [scanMarker_of_unmarked (marked.trans (Bool.eq_false_iff.mpr inside))]
    rfl

/-- After the exception line and the header the scan goes on with the first frame. -/
theorem parseOops_printedCrash (e : ExceptionLine) (f : TraceFrame) (rest : List TraceFrame)
    (close : EndLine) :
    parseOops (printedCrash e (f :: rest) close) =
      (scanLine (scan ⟨some e.text, [f.frame], true⟩ (rest.map TraceFrame.line))
        (Text.stripReturn close.text)).result := by
  have header : isTraceHeader (stripPrintkPrefix "Call trace:".toList) = true := by decide
  have first : ∃ opened, scanLine {} e.text = ⟨some e.text, [], opened⟩ := by
    have marked : scanMarker {} e.text = ⟨some e.text, [], false⟩ := by
      simp [scanMarker, e.marked]
    cases isHeader : isTraceHeader e.text with
    | true =>
      refine ⟨true, ?_⟩
      rw [scanLine_header _ (by rw [e.bare, isHeader]), e.bare, marked]
    | false =>
      refine ⟨false, ?_⟩
      rw [scanLine_closed rfl (by rw [e.bare, isHeader]), e.bare, marked]
  obtain ⟨opened, first⟩ := first
  have second : scanLine ⟨some e.text, [], opened⟩ "Call trace:".toList =
      ⟨some e.text, [], true⟩ := by
    rw [scanLine_header _ header, scanMarker_of_exception rfl rfl]
  have third : scanLine ⟨some e.text, [], true⟩ f.line = ⟨some e.text, [f.frame], true⟩ := by
    rw [f.scanLine_line rfl, scanMarker_of_exception rfl rfl]
    rfl
  rw [parseOops, lines_printedCrash, scan_cons, scan_cons, first, second, List.map_cons,
    List.cons_append, scan_cons, third, scan_append, scan_cons, scan_nil]

/-- A trace is read back exactly when no frame after the first names an oops and the last line has
no marker. -/
theorem readsBack_iff (e : ExceptionLine) (f : TraceFrame) (rest : List TraceFrame)
    (close : EndLine) :
    ReadsBack e (f :: rest) close ↔
      (∀ g ∈ rest, ¬ g.NamesOops) ∧ hasMarker close.text = false := by
  obtain ⟨nonempty, -, fewer⟩ :=
    @TraceFrame.scan_frames rest ⟨some e.text, [f.frame], true⟩ rfl (by simp)
  rw [ReadsBack, parseOops_printedCrash, close.scanLine _ nonempty]
  constructor
  · intro same
    have unmarked : hasMarker close.text = false := by
      rw [Bool.eq_false_iff]
      intro marked
      rw [if_pos marked] at same
      simp at same
    refine ⟨fun g member named => ?_, unmarked⟩
    have lost := fewer ⟨g, member, named⟩
    rw [unmarked, if_neg Bool.false_ne_true, ScanState.result, Option.map_eq_some_iff] at same
    obtain ⟨e', -, same⟩ := same
    have frames := (Prod.mk.inj same).2
    rw [frames, List.length_map, List.length_cons, List.length_singleton] at lost
    omega
  · rintro ⟨unnamed, unmarked⟩
    rw [unmarked, if_neg Bool.false_ne_true, TraceFrame.scan_of_unmarked unnamed rfl]
    rfl

/-- A function whose name has the word in it makes the trace start anew. -/
theorem handle_Oops_restarts :
    ∃ e f g close, e.text = "Oops: 0000 [#1]".toList ∧ f.line = "foo+0x10/0x20".toList ∧
      g.line = "handle_Oops+0x4/0x8".toList ∧
      close.text = "---[ end trace 0000000000000000 ]---".toList ∧ ¬ ReadsBack e [f, g] close := by
  let foo : TraceSymbol :=
    ⟨⟨'f', "oo".toList, by decide, by decide, forall_mem_of_all (by decide)⟩, []⟩
  let handle : TraceSymbol :=
    ⟨⟨'h', "andle_Oops".toList, by decide, by decide, forall_mem_of_all (by decide)⟩, []⟩
  let digits (c : Char) (rest : Text) (hex : (c :: rest).all isAsciiHexdigit = true) : HexDigits :=
    ⟨c :: rest, by simp, by simpa using hex⟩
  refine ⟨⟨"Oops: 0000 [#1]".toList, by decide, by decide, by decide⟩,
    ⟨foo, digits '1' ['0'] rfl, digits '2' ['0'] rfl, none, none, false⟩,
    ⟨handle, digits '4' [] rfl, digits '8' [] rfl, none, none, false⟩,
    ⟨" 0000000000000000 ]---".toList, by decide⟩, rfl, rfl, rfl, rfl, ?_⟩
  unfold ReadsBack
  decide +kernel

end UcrashReport.Signature
