import Mathlib.Data.Set.Function
import UcrashReport.Common.CrashLines
import UcrashReport.Common.Types
import UcrashReport.Rust.Fields

/-! # The fields of a signature

The hashed text joins its fields with bars and escapes none, so the bars inside a field are what a
reader of the text cannot tell from those between the fields. The kinds of the protocol have none:
a signature always fixes the kind, and it fixes the other fields once the bars in each of them are
known.
-/

namespace UcrashReport.Signature

open Rust Rust.Text UcrashReport.Types

/-- The frames that are hashed: at most five. -/
def effectiveFrames (frames : List Frame) : List Text := (collectFrames frames).sigFrames

def bars (s : Text) : ℕ := s.count '|'

theorem collectFrame_visible {acc : Collected} (visible : ∀ sym ∈ acc.sigFrames, sym ≠ []) (f : Frame) :
    ∀ sym ∈ (collectFrame acc f).sigFrames, sym ≠ [] := by
  unfold collectFrame
  dsimp only
  split_ifs with _ empty
  · exact visible
  · exact visible
  · exact visible
  · intro sym member
    rcases List.mem_append.mp member with before | new
    · exact visible sym before
    · rw [List.mem_singleton.mp new]
      simpa using empty
  · exact visible

theorem effectiveFrames_visible {frames : List Frame} {sym : Text}
    (member : sym ∈ effectiveFrames frames) : sym ≠ [] := by
  induction frames using List.reverseRecOn generalizing sym with
  | nil => simp [effectiveFrames, collectFrames] at member
  | append_singleton frames f ih =>
    have last : collectFrames (frames ++ [f]) = collectFrame (collectFrames frames) f :=
      List.foldl_append
    rw [effectiveFrames, last] at member
    exact collectFrame_visible (fun sym before => ih before) f sym member

/-! ## Reading the hashed text back -/

theorem bars_asStr (kind : ReportKind) : bars kind.asStr = 0 := by
  cases kind <;> decide

theorem asStr_injective : Function.Injective ReportKind.asStr := by
  intro kind kind' same
  cases kind <;> cases kind'
  · rfl
  · exact absurd same (by decide)
  · exact absurd same (by decide)
  · rfl

theorem signatureInput_eq (kind exception : Text) (frames : List Text) :
    signatureInput kind exception frames = kind ++ '|' :: (exception ++ '|' :: join '|' frames) := by
  rw [signatureInput, List.append_assoc]
  rfl

/-- The kind of a hashed text is what stands before its first bar. -/
theorem kind_of_signatureInput {kind kind' : ReportKind} {exception exception' : Text}
    {frames frames' : List Text}
    (same : signatureInput kind.asStr exception frames =
      signatureInput kind'.asStr exception' frames') :
    kind = kind' ∧ exception ++ '|' :: join '|' frames = exception' ++ '|' :: join '|' frames' := by
  rw [signatureInput_eq, signatureInput_eq] at same
  have count := (bars_asStr kind).trans (bars_asStr kind').symm
  obtain ⟨sameKind, rest⟩ := append_sep_injective count same
  exact ⟨asStr_injective sameKind, rest⟩

/-- The other fields are fixed by the bars in each of them. -/
theorem fields_of_signatureInput {exception exception' : Text} {frames frames' : List Text}
    (same : exception ++ '|' :: join '|' frames = exception' ++ '|' :: join '|' frames') :
    (exception = exception' ∧ frames = frames') ↔
      bars exception = bars exception' ∧ frames.map bars = frames'.map bars := by
  constructor
  · rintro ⟨rfl, rfl⟩
    exact ⟨rfl, rfl⟩
  · rintro ⟨count, counts⟩
    obtain ⟨sameException, rest⟩ := append_sep_injective count same
    exact ⟨sameException, join_injective_of_count counts rest⟩

/-! ## Inputs with one signature -/

/-- What a crash is filed by: the arguments of `compute`. -/
structure Crash where
  kind : ReportKind
  exceptionLine : Text
  frames : List Frame
deriving DecidableEq, Repr

namespace Crash

variable (crash crash' : Crash)

def exception : Text := normalizeException crash.exceptionLine

def hashed : Text := signatureInput crash.kind.asStr crash.exception (effectiveFrames crash.frames)

def signature (sha256Hex : Text → Text) : CrashSignature :=
  compute sha256Hex crash.kind.asStr crash.exceptionLine crash.frames

theorem signature_eq (sha256Hex : Text → Text) :
    (crash.signature sha256Hex).signature = sha256Hex crash.hashed := rfl

theorem title_eq (sha256Hex : Text → Text) :
    (crash.signature sha256Hex).title =
      (effectiveFrames crash.frames).head?.getD crash.exception := rfl

theorem modules_eq (sha256Hex : Text → Text) :
    (crash.signature sha256Hex).modules = (collectFrames crash.frames).modules := rfl

/-- Exception and frames have their bars in the same fields. -/
def SameBars : Prop :=
  bars crash.exception = bars crash'.exception ∧
    (effectiveFrames crash.frames).map bars = (effectiveFrames crash'.frames).map bars

instance : Decidable (SameBars crash crash') := inferInstanceAs (Decidable (_ ∧ _))

/-- No field has a bar. -/
structure Plain : Prop where
  exception : '|' ∉ crash.exception
  frames : Free '|' (effectiveFrames crash.frames)

variable {crash crash'} {sha256Hex : Text → Text}

theorem same_fields (same : crash.hashed = crash'.hashed) :
    crash.kind = crash'.kind ∧
      ((crash.exception = crash'.exception ∧
          effectiveFrames crash.frames = effectiveFrames crash'.frames) ↔
        crash.SameBars crash') := by
  obtain ⟨kind, rest⟩ := kind_of_signatureInput same
  exact ⟨kind, fields_of_signatureInput rest⟩

/-- Fields without bars are fixed by the hashed text. -/
theorem same_plain_fields (same : crash.hashed = crash'.hashed) (plain : crash.Plain)
    (plain' : crash'.Plain) :
    crash.exception = crash'.exception ∧
      effectiveFrames crash.frames = effectiveFrames crash'.frames := by
  obtain ⟨-, rest⟩ := kind_of_signatureInput same
  have count : crash.exception.count '|' = crash'.exception.count '|' := by
    rw [List.count_eq_zero.mpr plain.exception, List.count_eq_zero.mpr plain'.exception]
  obtain ⟨exception, frames⟩ := append_sep_injective count rest
  refine ⟨exception, ?_⟩
  rcases eq_or_ne (effectiveFrames crash.frames) [] with none | some
  · rw [none, join_nil] at frames
    rw [none, join_eq_nil (fun _ => effectiveFrames_visible) frames.symm]
  · rcases eq_or_ne (effectiveFrames crash'.frames) [] with none' | some'
    · rw [none', join_nil] at frames
      exact absurd (join_eq_nil (fun _ => effectiveFrames_visible) frames) some
    · exact join_injective some some' plain.frames plain'.frames frames

end Crash

/-- Equal signatures have one kind, and one exception and one list of frames exactly when the bars
are in the same fields, so whenever there are none. -/
theorem fields_of_signature {sha256Hex : Text → Text} {crash crash' : Crash}
    (collisionFree : Set.InjOn sha256Hex {crash.hashed, crash'.hashed})
    (same : (crash.signature sha256Hex).signature = (crash'.signature sha256Hex).signature) :
    crash.kind = crash'.kind ∧
      ((crash.exception = crash'.exception ∧
          effectiveFrames crash.frames = effectiveFrames crash'.frames) ↔
        crash.SameBars crash') ∧
      (crash.Plain → crash'.Plain → crash.exception = crash'.exception ∧
        effectiveFrames crash.frames = effectiveFrames crash'.frames) := by
  rw [Crash.signature_eq, Crash.signature_eq] at same
  have hashed := collisionFree (by simp) (by simp) same
  obtain ⟨kind, fields⟩ := Crash.same_fields hashed
  exact ⟨kind, fields, Crash.same_plain_fields hashed⟩

def demoCrash (exceptionLine : Text) (symbols : List Text) : Crash where
  kind := .kernelOops
  exceptionLine := exceptionLine
  frames := symbols.map fun symbol => ⟨symbol, none, false⟩

/-- A digest without collisions that is the real one on one text. -/
def demoSha256Hex (s : Text) : Text :=
  if s = "kernel_oops|Oops|f".toList then
    "b4aba6a14f413f52d104f7a582236a9603f9385c2c7c48cbc46b45bcbb918f4e".toList
  else 'x' :: s

theorem fields_of_moved_offsets :
    let crash := demoCrash "Oops".toList ["f+0x1/0x2".toList]
    let crash' := demoCrash "Oops [#1]".toList ["f+0x3/0x4".toList]
    crash.kind = crash'.kind ∧
      ((crash.exception = crash'.exception ∧
          effectiveFrames crash.frames = effectiveFrames crash'.frames) ↔
        crash.SameBars crash') ∧
      (crash.Plain → crash'.Plain → crash.exception = crash'.exception ∧
        effectiveFrames crash.frames = effectiveFrames crash'.frames) := by
  have hashed : (demoCrash "Oops".toList ["f+0x1/0x2".toList]).hashed =
      (demoCrash "Oops [#1]".toList ["f+0x3/0x4".toList]).hashed := by decide +kernel
  refine @fields_of_signature demoSha256Hex _ _ ?_ ?_
  · rw [hashed]
    simp
  · rw [Crash.signature_eq, Crash.signature_eq, hashed]

/-- A bar in an exception line stands for the bar before a frame. -/
theorem bar_shifts_fields :
    let crash := demoCrash "Oops|f".toList ["g+0x1/0x2".toList]
    let crash' := demoCrash "Oops".toList ["f+0x1/0x2".toList, "g+0x1/0x2".toList]
    parseOops "Oops|f\nCall trace:\n g+0x1/0x2\n".toList = some (crash.exceptionLine, crash.frames) ∧
      parseOops "Oops\nCall trace:\n f+0x1/0x2\n g+0x1/0x2\n".toList =
        some (crash'.exceptionLine, crash'.frames) ∧
      (∀ sha256Hex,
        (crash.signature sha256Hex).signature = (crash'.signature sha256Hex).signature) ∧
      crash.exception ≠ crash'.exception ∧
      effectiveFrames crash.frames ≠ effectiveFrames crash'.frames := by
  refine ⟨by decide +kernel, by decide +kernel, fun sha256Hex => ?_, by decide +kernel,
    by decide +kernel⟩
  have hashed : (demoCrash "Oops|f".toList ["g+0x1/0x2".toList]).hashed =
      (demoCrash "Oops".toList ["f+0x1/0x2".toList, "g+0x1/0x2".toList]).hashed := by
    decide +kernel
  rw [Crash.signature_eq, Crash.signature_eq, hashed]

end UcrashReport.Signature
