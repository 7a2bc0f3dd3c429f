import UcrashReport.Common.Signature

/-! # Complete crash sections inside longer texts

A complete section runs from its marked line over the header and the frames to its end-trace line.
Once the scan is past the first frame, the state before the section survives only in its exception
and in frames it may have left behind; the laws here follow both through the four parts of the
section. They decide exactly when the last section of a text determines the result whatever came
before it, and when the kernel lines after a section leave its result alone.
-/

namespace UcrashReport.Signature

open Rust Rust.Text

/-- A line that the trace section keeps as a frame. -/
def IsFrameLine (line : Text) : Prop :=
  isTraceHeader line = false ∧ isTraceEnd line = false ∧ ∃ frame, parseFrame line = some frame

/-- A complete crash section, line by line; the conditions are on the lines without log prefix. -/
structure CrashSection where
  first : Text
  further : List Text
  header : Text
  frame : Text
  frames : List Text
  close : Text
  first_marked : hasMarker (stripPrintkPrefix first) = true
  further_no_offset : ∀ raw ∈ further, contains "+0x".toList (stripPrintkPrefix raw) = false
  further_no_header : ∀ raw ∈ further, isTraceHeader (stripPrintkPrefix raw) = false
  header_is_header : isTraceHeader (stripPrintkPrefix header) = true
  frames_are_frames : ∀ raw ∈ frame :: frames, IsFrameLine (stripPrintkPrefix raw)
  close_ends : startsWith "---[ end trace".toList (stripPrintkPrefix close) = true

namespace CrashSection

/-- The lines between the marked line and the first frame. -/
def preamble (sec : CrashSection) : List Text := sec.further ++ [sec.header]

/-- The lines after the first frame. -/
def tail (sec : CrashSection) : List Text := sec.frames ++ [sec.close]

def lines (sec : CrashSection) : List Text :=
  sec.first :: sec.preamble ++ sec.frame :: sec.tail

/-- A marker after the first frame starts the section anew. -/
def Restarts (sec : CrashSection) : Prop :=
  ∃ raw ∈ sec.tail, hasMarker (stripPrintkPrefix raw) = true

end CrashSection

/-! ## Single lines -/

theorem scanLine_header (st : ScanState) {raw : Text}
    (header : isTraceHeader (stripPrintkPrefix raw) = true) :
    scanLine st raw = ⟨(scanMarker st (stripPrintkPrefix raw)).exception,
      (scanMarker st (stripPrintkPrefix raw)).frames, true⟩ := by
  simp [scanLine, scanStripped, header]

theorem scanLine_frame {st : ScanState} {raw : Text} {frame : Frame} (open_ : st.inTrace = true)
    (noHeader : isTraceHeader (stripPrintkPrefix raw) = false)
    (noEnd : isTraceEnd (stripPrintkPrefix raw) = false)
    (parsed : parseFrame (stripPrintkPrefix raw) = some frame) :
    scanLine st raw = ⟨(scanMarker st (stripPrintkPrefix raw)).exception,
      (scanMarker st (stripPrintkPrefix raw)).frames ++ [frame], true⟩ := by
  simp [scanLine, scanStripped, noHeader, open_, scanTrace, noEnd, parsed]

/-- Outside a trace only the markers and the headers count. -/
theorem scanLine_closed {st : ScanState} {raw : Text} (closed : st.inTrace = false)
    (noHeader : isTraceHeader (stripPrintkPrefix raw) = false) :
    scanLine st raw = scanMarker st (stripPrintkPrefix raw) := by
  simp [scanLine, scanStripped, noHeader, closed]

/-- A line that is no header and no frame closes an open trace and adds nothing. -/
theorem scanLine_other (st : ScanState) {raw : Text}
    (noHeader : isTraceHeader (stripPrintkPrefix raw) = false)
    (noFrame : isTraceEnd (stripPrintkPrefix raw) = true ∨
      parseFrame (stripPrintkPrefix raw) = none) :
    scanLine st raw = ⟨(scanMarker st (stripPrintkPrefix raw)).exception,
      (scanMarker st (stripPrintkPrefix raw)).frames, false⟩ := by
  cases opened : st.inTrace with
  | true =>
    rcases noFrame with atEnd | noFrame
    · simp [scanLine, scanStripped, noHeader, opened, scanTrace, atEnd]
    · simp [scanLine, scanStripped, noHeader, opened, scanTrace, noFrame]
  | false =>
    have same : (scanMarker st (stripPrintkPrefix raw)).inTrace = false := by
      rw [scanMarker_inTrace, opened]
    rw [scanLine_closed opened noHeader, ← same]

/-! ## The four parts of a section -/

namespace CrashSection

variable (sec : CrashSection)

theorem further_line (st : ScanState) {raw : Text} (member : raw ∈ sec.further) :
    scanLine st raw = ⟨(scanMarker st (stripPrintkPrefix raw)).exception,
      (scanMarker st (stripPrintkPrefix raw)).frames, false⟩ :=
  scanLine_other st (sec.further_no_header raw member)
    (.inr (parseFrame_eq_none (sec.further_no_offset raw member)))

theorem close_line (st : ScanState) :
    scanLine st sec.close = ⟨(scanMarker st (stripPrintkPrefix sec.close)).exception,
      (scanMarker st (stripPrintkPrefix sec.close)).frames, false⟩ := by
  have leading := startsWith_iff.mp sec.close_ends
  apply scanLine_other
  · obtain ⟨rest, same⟩ := leading
    rw [← same]
    rfl
  · refine .inl ?_
    simp only [isTraceEnd, Bool.or_eq_true]
    exact .inl (contains_iff.mpr leading.isInfix)

/-- Without a frame in hand, the lines up to the header only open the trace. -/
theorem scan_to_header_of_no_frames {further : List Text}
    (included : ∀ raw ∈ further, raw ∈ sec.further) {st : ScanState} {e : Text}
    (exception : st.exception = some e) (frames : st.frames = []) :
    scan st (further ++ [sec.header]) = ⟨some e, [], true⟩ := by
  induction further generalizing st with
  | nil =>
    rw [List.nil_append, scan_cons, scan_nil, scanLine_header _ sec.header_is_header,
      scanMarker_of_exception exception frames, exception, frames]
  | cons raw rest ih =>
    rw [List.cons_append, scan_cons, sec.further_line st (included raw (List.mem_cons_self ..)),
      scanMarker_of_exception exception frames]
    exact ih (fun other member => included other (List.mem_cons_of_mem _ member)) exception frames

/-- Frames in hand survive up to the header unless a marker discards them and takes the
exception. -/
theorem scan_to_header_of_frames {further : List Text}
    (included : ∀ raw ∈ further, raw ∈ sec.further) {st : ScanState} (frames : st.frames ≠ []) :
    scan st (further ++ [sec.header]) = ⟨st.exception, st.frames, true⟩ ∧
        (∀ raw ∈ further ++ [sec.header], hasMarker (stripPrintkPrefix raw) = false) ∨
      ∃ raw ∈ further ++ [sec.header], hasMarker (stripPrintkPrefix raw) = true ∧
        scan st (further ++ [sec.header]) = ⟨some (stripPrintkPrefix raw), [], true⟩ := by
  induction further generalizing st with
  | nil =>
    simp only [List.nil_append, scan_cons, scan_nil, scanLine_header st sec.header_is_header,
      List.mem_singleton, forall_eq, exists_eq_left]
    cases marked : hasMarker (stripPrintkPrefix sec.header) with
    | true => exact .inr ⟨rfl, by rw [scanMarker_of_frames marked frames]⟩
    | false => exact .inl ⟨by rw [scanMarker_of_unmarked marked], rfl⟩
  | cons raw rest ih =>
    have includedRest : ∀ other ∈ rest, other ∈ sec.further :=
      fun other member => included other (List.mem_cons_of_mem _ member)
    rw [List.cons_append, scan_cons, sec.further_line st (included raw (List.mem_cons_self ..))]
    cases marked : hasMarker (stripPrintkPrefix raw) with
    | true =>
      refine .inr ⟨raw, List.mem_cons_self .., marked, ?_⟩
      rw [scanMarker_of_frames marked frames]
      exact sec.scan_to_header_of_no_frames includedRest rfl rfl
    | false =>
      rw [scanMarker_of_unmarked marked]
      have kept : (⟨st.exception, st.frames, false⟩ : ScanState).frames ≠ [] := frames
      rcases ih includedRest kept with
        ⟨kept, unmarked⟩ | ⟨other, member, found, taken⟩
      · refine .inl ⟨kept, fun other member => ?_⟩
        rcases List.mem_cons.mp member with rfl | member
        · exact marked
        · exact unmarked other member
      · exact .inr ⟨other, List.mem_cons_of_mem _ member, found, taken⟩

/-- Two scans that are inside the trace with some frame each end the section in the same state if
a marker follows. -/
theorem scan_tail_of_restarts {frames : List Text}
    (included : ∀ raw ∈ frames, IsFrameLine (stripPrintkPrefix raw)) {left right : ScanState}
    (leftOpen : left.inTrace = true) (rightOpen : right.inTrace = true)
    (leftFrames : left.frames ≠ []) (rightFrames : right.frames ≠ [])
    (restarts : ∃ raw ∈ frames ++ [sec.close], hasMarker (stripPrintkPrefix raw) = true) :
    scan left (frames ++ [sec.close]) = scan right (frames ++ [sec.close]) := by
  induction frames generalizing left right with
  | nil =>
    obtain ⟨raw, member, marked⟩ := restarts
    obtain rfl := List.mem_singleton.mp member
    simp only [List.nil_append, scan_cons, scan_nil, close_line,
      scanMarker_of_frames marked leftFrames, scanMarker_of_frames marked rightFrames]
  | cons raw rest ih =>
    obtain ⟨noHeader, noEnd, frame, parsed⟩ := included raw (List.mem_cons_self ..)
    simp only [List.cons_append, scan_cons, scanLine_frame leftOpen noHeader noEnd parsed,
      scanLine_frame rightOpen noHeader noEnd parsed]
    cases marked : hasMarker (stripPrintkPrefix raw) with
    | true =>
      rw [scanMarker_of_frames marked leftFrames, scanMarker_of_frames marked rightFrames,
        leftOpen, rightOpen]
    | false =>
      rw [scanMarker_of_unmarked marked, scanMarker_of_unmarked marked]
      refine ih (fun other member => included other (List.mem_cons_of_mem _ member)) rfl rfl
        (by simp) (by simp) ?_
      obtain ⟨other, member, found⟩ := restarts
      rcases List.mem_cons.mp member with rfl | member
      · rw [marked] at found
        exact absurd found (by decide)
      · exact ⟨other, member, found⟩

/-- Without a marker the rest of the section appends its frames and closes the trace. -/
theorem scan_tail_of_unmarked {frames : List Text}
    (included : ∀ raw ∈ frames, IsFrameLine (stripPrintkPrefix raw))
    (unmarked : ∀ raw ∈ frames ++ [sec.close], hasMarker (stripPrintkPrefix raw) = false) :
    ∃ more, ∀ st : ScanState, st.inTrace = true →
      scan st (frames ++ [sec.close]) = ⟨st.exception, st.frames ++ more, false⟩ := by
  induction frames with
  | nil =>
    refine ⟨[], fun st _ => ?_⟩
    rw [List.nil_append, scan_cons, scan_nil, close_line,
      scanMarker_of_unmarked (unmarked sec.close (by simp)), List.append_nil]
  | cons raw rest ih =>
    obtain ⟨more, appended⟩ := ih (fun other member => included other (List.mem_cons_of_mem _ member))
      (fun other member => unmarked other (List.mem_cons_of_mem _ member))
    obtain ⟨noHeader, noEnd, frame, parsed⟩ := included raw (List.mem_cons_self ..)
    refine ⟨frame :: more, fun st opened => ?_⟩
    rw [List.cons_append, scan_cons, scanLine_frame opened noHeader noEnd parsed,
      scanMarker_of_unmarked (unmarked raw (List.mem_cons_self ..)), appended _ rfl,
      List.append_assoc, List.singleton_append]

/-! ## The whole section after an arbitrary state -/

/-- What the marked line makes of the exception; no frame outlives it. -/
theorem scanMarker_first (st : ScanState) {line : Text} (marked : hasMarker line = true) :
    ∃ e, scanMarker st line = ⟨some e, [], st.inTrace⟩ ∧
      (e = line ↔ st.exception = none ∨ st.frames ≠ [] ∨ st.exception = some line) := by
  by_cases frames : st.frames = []
  · cases exception : st.exception with
    | none =>
      refine ⟨line, ?_, by simp⟩
      simp [scanMarker, marked, frames, exception]
    | some e =>
      refine ⟨e, ?_, by simp [frames]⟩
      rw [scanMarker_of_exception exception frames, ← exception, ← frames]
  · exact ⟨line, scanMarker_of_frames marked frames, by simp [frames]⟩

/-- The first line is itself kept as a frame exactly when the text before it left a trace open and
it reads as a frame. -/
theorem scanLine_first (st : ScanState) :
    ∃ e, (e = stripPrintkPrefix sec.first ↔ st.exception = none ∨ st.frames ≠ [] ∨
        st.exception = some (stripPrintkPrefix sec.first)) ∧
      ((st.inTrace = true ∧ IsFrameLine (stripPrintkPrefix sec.first) →
          ∃ frame, scanLine st sec.first = ⟨some e, [frame], true⟩) ∧
        (¬ (st.inTrace = true ∧ IsFrameLine (stripPrintkPrefix sec.first)) →
          ∃ opened, scanLine st sec.first = ⟨some e, [], opened⟩)) := by
  obtain ⟨e, entered, own⟩ := scanMarker_first st sec.first_marked
  refine ⟨e, own, ?_, ?_⟩
  · rintro ⟨opened, noHeader, noEnd, frame, parsed⟩
    exact ⟨frame, by rw [scanLine_frame opened noHeader noEnd parsed, entered, List.nil_append]⟩
  · intro notFrame
    cases header : isTraceHeader (stripPrintkPrefix sec.first) with
    | true => exact ⟨true, by rw [scanLine_header _ header, entered]⟩
    | false =>
      by_cases opened : st.inTrace = true
      · refine ⟨false, ?_⟩
        rw [scanLine_other st header, entered]
        cases atEnd : isTraceEnd (stripPrintkPrefix sec.first) with
        | true => exact .inl rfl
        | false =>
          refine .inr (Option.eq_none_iff_forall_ne_some.mpr fun frame parsed => ?_)
          exact notFrame ⟨opened, header, atEnd, frame, parsed⟩
      · rw [Bool.not_eq_true] at opened
        exact ⟨st.inTrace, by rw [scanLine_closed opened header, entered]⟩

/-- The state before a section does not show in the scan once the section is complete. -/
def Supersedes (st : ScanState) : Prop :=
  sec.Restarts ∨
    (st.inTrace = true ∧ IsFrameLine (stripPrintkPrefix sec.first) →
        (∀ raw ∈ sec.preamble, hasMarker (stripPrintkPrefix raw) = false) ∧
          stripPrintkPrefix sec.frame = stripPrintkPrefix sec.first) ∧
      (¬ (st.inTrace = true ∧ IsFrameLine (stripPrintkPrefix sec.first)) →
        st.exception = none ∨ st.frames ≠ [] ∨
          st.exception = some (stripPrintkPrefix sec.first))

/-- A frame line is not a header and, unlike the lines before the header, has an offset. -/
theorem ne_of_mem_preamble {raw : Text} (member : raw ∈ sec.preamble) {line : Text}
    (isFrame : IsFrameLine line) : stripPrintkPrefix raw ≠ line := by
  rintro rfl
  obtain ⟨noHeader, -, frame, parsed⟩ := isFrame
  rcases List.mem_append.mp member with further | header
  · rw [parseFrame_eq_none (sec.further_no_offset raw further)] at parsed
    exact absurd parsed (by simp)
  · rw [List.mem_singleton.mp header, sec.header_is_header] at noHeader
    exact absurd noHeader (by decide)

/-- Up to the first frame, a scan from any state agrees with the scan of the section alone exactly
under the second condition of `Supersedes`. -/
theorem scan_to_frame {frame : Frame} (parsed : parseFrame (stripPrintkPrefix sec.frame) = some frame)
    (st : ScanState) :
    ∃ e frames, scan st (sec.first :: sec.preamble ++ [sec.frame]) = ⟨some e, frames, true⟩ ∧
      frames ≠ [] ∧
      (e = stripPrintkPrefix sec.first ∧ frames = [frame] ↔
        (st.inTrace = true ∧ IsFrameLine (stripPrintkPrefix sec.first) →
          (∀ raw ∈ sec.preamble, hasMarker (stripPrintkPrefix raw) = false) ∧
            stripPrintkPrefix sec.frame = stripPrintkPrefix sec.first) ∧
        (¬ (st.inTrace = true ∧ IsFrameLine (stripPrintkPrefix sec.first)) →
          st.exception = none ∨ st.frames ≠ [] ∨
            st.exception = some (stripPrintkPrefix sec.first))) := by
  obtain ⟨e, own, asFrame, notAsFrame⟩ := sec.scanLine_first st
  obtain ⟨noHeader, noEnd, -⟩ := sec.frames_are_frames sec.frame (List.mem_cons_self ..)
  by_cases first : st.inTrace = true ∧ IsFrameLine (stripPrintkPrefix sec.first)
  · obtain ⟨extra, scanned⟩ := asFrame first
    have reached : scan st (sec.first :: sec.preamble ++ [sec.frame]) =
        scanLine (scan ⟨some e, [extra], true⟩ sec.preamble) sec.frame := by
      rw [List.cons_append, scan_cons, scan_append, scanned, scan_cons, scan_nil]
    have opened : (⟨some e, [extra], true⟩ : ScanState).frames ≠ [] := by simp
    rcases sec.scan_to_header_of_frames (fun _ member => member) opened with
      ⟨kept, unmarked⟩ | ⟨raw, member, marked, taken⟩
    · rw [reached, preamble, kept, scanLine_frame rfl noHeader noEnd parsed]
      cases marked : hasMarker (stripPrintkPrefix sec.frame) with
      | true =>
        rw [scanMarker_of_frames marked (by simp)]
        refine ⟨_, _, rfl, by simp, ?_⟩
        simp only [List.nil_append, and_true, first, true_implies, not_true_eq_false,
          false_implies]
        exact ⟨fun same => ⟨unmarked, same⟩, And.right⟩
      | false =>
        rw [scanMarker_of_unmarked marked]
        refine ⟨_, _, rfl, by simp, ?_⟩
        constructor
        · rintro ⟨-, single⟩
          simp at single
        · rintro ⟨forced, -⟩
          rw [(forced first).2, sec.first_marked] at marked
          exact absurd marked (by decide)
    · rw [reached, preamble, taken, scanLine_frame rfl noHeader noEnd parsed,
        scanMarker_of_exception rfl rfl]
      refine ⟨_, _, rfl, by simp, ?_⟩
      constructor
      · rintro ⟨same, -⟩
        exact absurd same (sec.ne_of_mem_preamble member first.2)
      · rintro ⟨forced, -⟩
        rw [(forced first).1 raw member] at marked
        exact absurd marked (by decide)
  · obtain ⟨opened, scanned⟩ := notAsFrame first
    refine ⟨e, [frame], ?_, by simp, ?_⟩
    · rw [List.cons_append, scan_cons, scan_append, scanned, preamble,
        sec.scan_to_header_of_no_frames (fun _ member => member) rfl rfl, scan_cons, scan_nil,
        scanLine_frame rfl noHeader noEnd parsed, scanMarker_of_exception rfl rfl,
        List.nil_append]
    · simp only [first, and_true, false_implies, not_false_eq_true, true_implies, true_and, own]

/-- After the section, the scan from `st` and the scan of the section alone give the same result
exactly if `st` is superseded. -/
theorem scan_lines_result_iff (st : ScanState) :
    (scan st sec.lines).result = (scan {} sec.lines).result ↔ sec.Supersedes st := by
  obtain ⟨-, -, frame, parsed⟩ := sec.frames_are_frames sec.frame (List.mem_cons_self ..)
  obtain ⟨e, frames, scanned, nonempty, own⟩ := sec.scan_to_frame parsed st
  obtain ⟨e', frames', scanned', nonempty', own'⟩ := sec.scan_to_frame parsed {}
  have shape : sec.lines = (sec.first :: sec.preamble ++ [sec.frame]) ++ sec.tail := by
    simp [lines]
  have included : ∀ raw ∈ sec.frames, IsFrameLine (stripPrintkPrefix raw) :=
    fun raw member => sec.frames_are_frames raw (List.mem_cons_of_mem _ member)
  rw [shape, scan_append st (_ ++ _), scan_append {} (_ ++ _), scanned, scanned', tail, Supersedes]
  by_cases restarts : sec.Restarts
  · simp only [restarts, true_or, iff_true]
    rw [sec.scan_tail_of_restarts included rfl (show (⟨some e', frames', true⟩ : ScanState).inTrace =
      true from rfl) nonempty nonempty' restarts]
  · obtain ⟨more, appended⟩ := sec.scan_tail_of_unmarked included fun raw member =>
      Bool.eq_false_iff.mpr fun marked => restarts ⟨raw, member, marked⟩
    obtain ⟨rfl, rfl⟩ := own'.mpr (by simp)
    rw [appended _ rfl, appended _ rfl]
    simp only [restarts, false_or, ← own, ScanState.result, Option.map_some, Option.some.injEq,
      Prod.mk.injEq, List.append_cancel_right_eq]

/-- After the first frame a section ends with its trace closed, and without frames only if its
last line is itself marked. -/
theorem scan_tail_closed {frames : List Text}
    (included : ∀ raw ∈ frames, IsFrameLine (stripPrintkPrefix raw)) {e : Text} {found : List Frame}
    (nonempty : found ≠ []) :
    ∃ e' found', scan ⟨some e, found, true⟩ (frames ++ [sec.close]) = ⟨some e', found', false⟩ ∧
      (found' = [] ↔ hasMarker (stripPrintkPrefix sec.close) = true) := by
  induction frames generalizing e found with
  | nil =>
    rw [List.nil_append, scan_cons, scan_nil, close_line]
    cases marked : hasMarker (stripPrintkPrefix sec.close) with
    | true =>
      rw [scanMarker_of_frames marked nonempty]
      exact ⟨_, _, rfl, by simp⟩
    | false =>
      rw [scanMarker_of_unmarked marked]
      exact ⟨_, _, rfl, by simpa using nonempty⟩
  | cons raw rest ih =>
    obtain ⟨noHeader, noEnd, frame, parsed⟩ := included raw (List.mem_cons_self ..)
    have includedRest : ∀ other ∈ rest, IsFrameLine (stripPrintkPrefix other) :=
      fun other member => included other (List.mem_cons_of_mem _ member)
    rw [List.cons_append, scan_cons, scanLine_frame rfl noHeader noEnd parsed]
    cases marked : hasMarker (stripPrintkPrefix raw) with
    | true =>
      rw [scanMarker_of_frames marked nonempty]
      exact ih includedRest (by simp)
    | false =>
      rw [scanMarker_of_unmarked marked]
      exact ih includedRest (by simp)

theorem scan_lines_closed (st : ScanState) :
    ∃ e found, scan st sec.lines = ⟨some e, found, false⟩ ∧
      (found = [] ↔ hasMarker (stripPrintkPrefix sec.close) = true) := by
  obtain ⟨-, -, frame, parsed⟩ := sec.frames_are_frames sec.frame (List.mem_cons_self ..)
  obtain ⟨e, frames, scanned, nonempty, -⟩ := sec.scan_to_frame parsed st
  have shape : sec.lines = (sec.first :: sec.preamble ++ [sec.frame]) ++ sec.tail := by
    simp [lines]
  rw [shape, scan_append st (_ ++ _), scanned]
  exact sec.scan_tail_closed
    (fun raw member => sec.frames_are_frames raw (List.mem_cons_of_mem _ member)) nonempty

end CrashSection

/-- Whatever whole lines come before a complete crash section, the text parses as the section alone
exactly if the section supersedes the state in which those lines leave the scan. -/
theorem parseOops_append_section_iff {before crash : Text} (sec : CrashSection)
    (whole : WholeLines before) (complete : lines crash = sec.lines) :
    parseOops (before ++ crash) = parseOops crash ↔ sec.Supersedes (scan {} (lines before)) := by
  rw [parseOops, parseOops, lines_append whole, scan_append, complete]
  exact sec.scan_lines_result_iff _

/-- A marked line without a call trace, as a warning that printed no backtrace. -/
def earlyWarning : Text := "WARNING: early\n".toList

def fatalOops : Text := "Oops\nCall trace:\nf+0x1/0x2\n---[ end trace 0 ]---\n".toList

def fatalSection : CrashSection where
  first := "Oops".toList
  further := []
  header := "Call trace:".toList
  frame := "f+0x1/0x2".toList
  frames := []
  close := "---[ end trace 0 ]---".toList
  first_marked := by decide +kernel
  further_no_offset := by simp
  further_no_header := by simp
  header_is_header := by decide +kernel
  frames_are_frames := by
    simp only [List.mem_singleton, forall_eq]
    exact ⟨by decide +kernel, by decide +kernel,
      ⟨"f+0x1/0x2".toList, none, false⟩, by decide +kernel⟩
  close_ends := by decide +kernel

theorem lines_fatalOops : lines fatalOops = fatalSection.lines := by decide +kernel

theorem wholeLines_fatalOops : WholeLines fatalOops := .inr (by decide +kernel)

/-- An earlier marked line that no frame follows keeps the exception of the fatal crash. -/
theorem earlyWarning_takes_exception :
    ¬ ∀ (before crash : Text) (sec : CrashSection), WholeLines before → lines crash = sec.lines →
      parseOops (before ++ crash) = parseOops crash := by
  intro lastWins
  have same := lastWins earlyWarning fatalOops fatalSection (.inr (by decide +kernel))
    lines_fatalOops
  exact absurd same (by decide +kernel)

/-- An earlier section that has frames gives way. -/
theorem parseOops_two_sections : parseOops (fatalOops ++ fatalOops) = parseOops fatalOops :=
  (parseOops_append_section_iff fatalSection wholeLines_fatalOops lines_fatalOops).mpr
    (.inr ⟨fun first => absurd first.1 (by decide +kernel),
      fun _ => .inr (.inl (by decide +kernel))⟩)

/-! ## Kernel lines after the last section -/

def panicHead : Text := "Kernel panic - not syncing: ".toList

def endPanicHead : Text := "---[ end Kernel panic - not syncing: ".toList

def endPanicTail : Text := " ]---".toList

/-- A line that the kernel may print after the trace, for an arbitrary message. -/
inductive EpilogueLine where
  | panic (message : Text)
  | endPanic (message : Text)

namespace EpilogueLine

def message : EpilogueLine → Text
  | panic message => message
  | endPanic message => message

def line : EpilogueLine → Text
  | panic message => panicHead ++ message
  | endPanic message => endPanicHead ++ (message ++ endPanicTail)

theorem newline_not_mem_line {entry : EpilogueLine} (single : '\n' ∉ entry.message) :
    '\n' ∉ entry.line := by
  cases entry with
  | panic message =>
    intro member
    rcases List.mem_append.mp member with head | own
    · exact absurd head (by decide)
    · exact single own
  | endPanic message =>
    intro member
    rcases List.mem_append.mp member with head | member
    · exact absurd head (by decide)
    · rcases List.mem_append.mp member with own | tail
      · exact single own
      · exact absurd tail (by decide)

theorem stripReturn_line_head (entry : EpilogueLine) :
    ∃ c rest, stripReturn entry.line = c :: rest ∧ (c = 'K' ∨ c = '-') := by
  cases entry with
  | panic message =>
    have shape : stripReturn (panicHead ++ message) = panicHead ++ stripReturn message :=
      stripReturn_append (by decide +kernel)
    exact ⟨'K', _, shape, .inl rfl⟩
  | endPanic message =>
    have shape : stripReturn (endPanicHead ++ (message ++ endPanicTail)) =
        endPanicHead ++ stripReturn (message ++ endPanicTail) :=
      stripReturn_append (by decide +kernel)
    exact ⟨'-', _, shape, .inr rfl⟩

/-- The line carries no log prefix, so only whitespace at its end is dropped. -/
theorem strip_line (entry : EpilogueLine) :
    stripPrintkPrefix (stripReturn entry.line) = trim (stripReturn entry.line) := by
  obtain ⟨c, rest, shape, rfl | rfl⟩ := entry.stripReturn_line_head
  · rw [shape]
    exact stripPrintkPrefix_of_word (by decide) (by decide) (by decide) (by decide) (by decide) _
  · rw [shape]
    exact stripPrintkPrefix_of_word (by decide) (by decide) (by decide) (by decide) (by decide) _

theorem not_header (entry : EpilogueLine) :
    isTraceHeader (stripPrintkPrefix (stripReturn entry.line)) = false := by
  rw [entry.strip_line]
  obtain ⟨c, rest, shape, head⟩ := entry.stripReturn_line_head
  have start : trimStart (c :: rest) = c :: rest := by
    rcases head with rfl | rfl <;> rfl
  have other : ∀ pat : Text, pat.head? = some 'C' → startsWith pat (trim (c :: rest)) = false := by
    intro pat first
    refine Bool.eq_false_iff.mpr fun leading => ?_
    have inside := (startsWith_iff.mp leading).trans (trimEnd_isPrefix _)
    rw [start] at inside
    cases pat with
    | nil => contradiction
    | cons d ds =>
      obtain ⟨more, same⟩ := inside
      obtain ⟨rfl, -⟩ := List.cons.inj same
      rcases head with rfl | rfl <;> simp at first
  rw [shape, isTraceHeader, other _ rfl, other _ rfl, Bool.or_self]

/-- The fixed words around the message hold no marker and complete none. -/
theorem hasMarker_line (entry : EpilogueLine) : hasMarker entry.line = hasMarker entry.message := by
  cases entry with
  | panic message =>
    have surrounded : hasMarker (panicHead ++ (message ++ [])) = hasMarker message :=
      hasMarker_surround (forall_markers_of_all (by decide +kernel))
        (fun _ _ _ member => absurd member List.not_mem_nil) message
    rwa [List.append_nil] at surrounded
  | endPanic message =>
    exact hasMarker_surround (forall_markers_of_all (by decide +kernel))
      (forall_markers_of_all (by decide +kernel)) message

end EpilogueLine

def epilogueText (epilogue : List EpilogueLine) : Text :=
  epilogue.flatMap fun entry => entry.line ++ ['\n']

/-- The line as `lines` returns it: a carriage return at its end belongs to the line end. -/
theorem lines_epilogueText {epilogue : List EpilogueLine}
    (single : ∀ entry ∈ epilogue, '\n' ∉ entry.message) :
    lines (epilogueText epilogue) = epilogue.map fun entry => stripReturn entry.line := by
  induction epilogue with
  | nil => rfl
  | cons entry rest ih =>
    have own := EpilogueLine.newline_not_mem_line (single entry (List.mem_cons_self ..))
    have rest := ih (fun other member => single other (List.mem_cons_of_mem _ member))
    rw [epilogueText] at rest ⊢
    rw [List.flatMap_cons, List.append_assoc, List.singleton_append, lines_line own, rest,
      List.map_cons]

theorem hasMarker_stripped_epilogue (entry : EpilogueLine) :
    hasMarker (stripPrintkPrefix (stripReturn entry.line)) = hasMarker entry.message := by
  obtain ⟨blank, shape, isBlank⟩ := stripReturn_spec entry.line
  rw [entry.strip_line, hasMarker_trim, ← entry.hasMarker_line]
  conv_rhs => rw [shape]
  exact (hasMarker_append_blank isBlank _).symm

theorem scanLine_epilogue {st : ScanState} (closed : st.inTrace = false) (entry : EpilogueLine) :
    scanLine st (stripReturn entry.line) =
      scanMarker st (stripPrintkPrefix (stripReturn entry.line)) :=
  scanLine_closed closed entry.not_header

theorem scan_epilogue_of_no_frames (epilogue : List EpilogueLine) (e : Text) :
    scan ⟨some e, [], false⟩ (epilogue.map fun entry => stripReturn entry.line) =
      ⟨some e, [], false⟩ := by
  induction epilogue with
  | nil => rfl
  | cons entry rest ih =>
    rw [List.map_cons, scan_cons, scanLine_epilogue rfl, scanMarker_of_exception rfl rfl, ih]

/-- After a trace with frames one marked message erases them, and nothing brings them back. -/
theorem scan_epilogue_iff (epilogue : List EpilogueLine) (e : Text) {frames : List Frame}
    (nonempty : frames ≠ []) :
    (scan ⟨some e, frames, false⟩ (epilogue.map fun entry => stripReturn entry.line)).result =
        some (e, frames) ↔ ∀ entry ∈ epilogue, hasMarker entry.message = false := by
  induction epilogue with
  | nil => simp [ScanState.result]
  | cons entry rest ih =>
    rw [List.map_cons, scan_cons, scanLine_epilogue rfl, List.forall_mem_cons]
    have own := hasMarker_stripped_epilogue entry
    cases marked : hasMarker entry.message with
    | true =>
      rw [scanMarker_of_frames (own.trans marked) nonempty, scan_epilogue_of_no_frames]
      simp [ScanState.result, nonempty.symm]
    | false =>
      rw [scanMarker_of_unmarked (own.trans marked), ih, eq_self, true_and]

/-- Kernel lines after a closed section leave its result alone exactly if none of their messages
holds a marker. A section whose last line is itself marked has already lost its frames. -/
theorem parseOops_append_epilogue_iff {text : Text} {before : List Text} {sec : CrashSection}
    (whole : WholeLines text) (ends : lines text = before ++ sec.lines)
    {epilogue : List EpilogueLine} (single : ∀ entry ∈ epilogue, '\n' ∉ entry.message) :
    parseOops (text ++ epilogueText epilogue) = parseOops text ↔
      hasMarker (stripPrintkPrefix sec.close) = true ∨
        ∀ entry ∈ epilogue, hasMarker entry.message = false := by
  obtain ⟨e, found, scanned, framesGone⟩ := sec.scan_lines_closed (scan {} before)
  rw [parseOops, parseOops, lines_append whole, lines_epilogueText single, ends, scan_append,
    scan_append, scanned]
  by_cases empty : found = []
  · subst empty
    rw [scan_epilogue_of_no_frames]
    simp [framesGone.mp rfl]
  · have unmarked : ¬ hasMarker (stripPrintkPrefix sec.close) = true :=
      fun marked => empty (framesGone.mpr marked)
    rw [or_iff_right unmarked]
    exact scan_epilogue_iff epilogue e empty

/-- The message of a panic that an oops causes holds a marker, which erases the crash. -/
theorem fatal_exception_erases_crash :
    ¬ ∀ (text : Text) (before : List Text) (sec : CrashSection) (epilogue : List EpilogueLine),
      WholeLines text → lines text = before ++ sec.lines →
      hasMarker (stripPrintkPrefix sec.close) = false →
      (∀ entry ∈ epilogue, '\n' ∉ entry.message) →
      parseOops (text ++ epilogueText epilogue) = parseOops text := by
  intro kept
  have same := kept fatalOops [] fatalSection [.panic "Oops: Fatal exception".toList]
    wholeLines_fatalOops lines_fatalOops (by decide +kernel) (by decide +kernel)
  exact absurd same (by decide +kernel)

theorem parseOops_plain_panic :
    parseOops (fatalOops ++ epilogueText [.panic "Attempted to kill init!".toList]) =
      parseOops fatalOops :=
  (parseOops_append_epilogue_iff wholeLines_fatalOops (show _ = [] ++ fatalSection.lines from
    lines_fatalOops) (by decide +kernel)).mpr (.inr (by decide +kernel))

end UcrashReport.Signature
