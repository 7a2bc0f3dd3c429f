import UcrashReport.Soundness.ScrubbedTraces
import UcrashReport.Soundness.SymbolizedLines

/-! # Grouping with and without symbols

With symbols the decoder appends locations to lines of the text that is signed. The crash that is
read stays the same when no location stands behind the exception line or behind a module
annotation. Which line is the exception may depend on the locations themselves, since a path can
hold an exception marker; then the line with that path is the exception.
-/

namespace UcrashReport.Signature

open Rust Rust.Text Annotate Scrub

/-- The crash is the same with and without the locations. -/
def SameCrash (classes : CharClasses) (known : KnownLocations) (text : Text) : Prop :=
  ∀ sha256Hex kind,
    signatureOf sha256Hex kind (scrub classes (annotate known.resolver text)) =
      signatureOf sha256Hex kind (scrub classes text)

/-- The symbols know the same offsets, and the same locations hold an exception marker. -/
def SameMarks (classes : CharClasses) (known known' : KnownLocations) : Prop :=
  ∀ symbol offset module,
    (known' symbol offset module).map (fun loc => hasMarker (scrub classes loc.text)) =
      (known symbol offset module).map fun loc => hasMarker (scrub classes loc.text)

/-- What the parser asks about a line, when a marker in its location counts. -/
def locatedVerdict (classes : CharClasses) (known : KnownLocations) (line : Text) : Verdict :=
  { verdict (plainLine classes line) with
    marked := hasMarker (plainLine classes line) ||
      (known.at line).any fun loc => hasMarker (scrub classes loc.text) }

/-- The lines that make the crash, when markers in locations count. -/
def keptLocated (classes : CharClasses) (known : KnownLocations) (text : Text) : CrashLines Text :=
  keptBy (locatedVerdict classes known) (lines text)

/-- No location stands behind the exception line, nor behind a module annotation that counts. -/
structure Unlocated (classes : CharClasses) (known : KnownLocations) (text : Text) : Prop where
  exception : ∀ e ∈ (keptLocated classes known text).exception, known.at e = none
  modules : (keptLocated classes known text).exception.isSome →
    ∀ f ∈ (keptLocated classes known text).frames, (frameOf (plainLine classes f)).Counted →
      " [".toList <:+: unquestioned (plainLine classes f) → known.at f = none

/-- The exception line is marked by its location only, and its last word takes that along. -/
def TakenAlong (classes : CharClasses) (known : KnownLocations) (text : Text) : Prop :=
  ∃ e ∈ (keptLocated classes known text).exception, hasMarker (plainLine classes e) = false ∧
    skips false (splitWhitespace (plainLine classes e)) = true

variable {classes : CharClasses} {known known' : KnownLocations} {text : Text}

/-! ## The kept lines -/

theorem verdict_locatedLine (line : Text) :
    verdict (locatedLine classes known line) = locatedVerdict classes known line := by
  rw [locatedVerdict]
  cases located : known.at line with
  | none =>
    rw [locatedLine_of_none located]
    simp [verdict]
  | some loc =>
    rw [(appended_locatedLine located).verdict]
    simp

theorem moreMarks (classes : CharClasses) (known : KnownLocations) :
    MoreMarks (fun line => verdict (plainLine classes line)) (locatedVerdict classes known) where
  others _ := rfl
  marked line marked := by
    have same : hasMarker (plainLine classes line) = true := marked
    simp [locatedVerdict, same]

/-- What is signed for kept lines. -/
def signedCrash (sha256Hex : Text → Text) (kind : Text) (view : Text → Text)
    (crash : CrashLines Text) : Option CrashSignature :=
  crash.exception.map fun e =>
    compute sha256Hex kind (view e) (crash.frames.map fun f => frameOf (view f))

theorem signedCrash_eq (sha256Hex : Text → Text) (kind : Text) (view : Text → Text)
    (crash : CrashLines Text) :
    signedCrash sha256Hex kind view crash =
      (crash.scanState view).result.map fun parsed => compute sha256Hex kind parsed.1 parsed.2 := by
  rw [signedCrash, ScanState.result, CrashLines.scanState, Option.map_map, Option.map_map]
  rfl

theorem signatureOf_scrub (sha256Hex : Text → Text) (kind text : Text) :
    signatureOf sha256Hex kind (scrub classes text) =
      signedCrash sha256Hex kind (plainLine classes) (crashLines (plainLine classes) (lines text)) := by
  rw [signatureOf, parseOops, scan_eq_foldl, map_lines_scrub, foldl_scanStripped, signedCrash_eq]

theorem signatureOf_annotate (sha256Hex : Text → Text) (kind text : Text) :
    signatureOf sha256Hex kind (scrub classes (annotate known.resolver text)) =
      signedCrash sha256Hex kind (locatedLine classes known) (keptLocated classes known text) := by
  have answers : (fun line => verdict (locatedLine classes known line)) =
      locatedVerdict classes known := funext verdict_locatedLine
  rw [signatureOf, parseOops, scan_eq_foldl, map_lines_annotate, foldl_scanStripped,
    crashLines_eq_keptBy, answers, signedCrash_eq, keptLocated]

/-- With an exception that the text marks itself, the same lines are kept. -/
theorem keptLocated_eq (marked : ∀ e ∈ (keptLocated classes known text).exception,
    hasMarker (plainLine classes e) = true) :
    keptLocated classes known text = crashLines (plainLine classes) (lines text) := by
  have fewer := fewer_keptBy (moreMarks classes known) (lines text)
  rcases fewer.exception with same | ⟨e, found, unmarked⟩
  · exact same
  · have unmarked' : hasMarker (plainLine classes e) = false := unmarked
    rw [marked e found] at unmarked'
    contradiction

theorem marked_of_unlocated {e : Text} (found : e ∈ (keptLocated classes known text).exception)
    (unlocated : known.at e = none) : hasMarker (plainLine classes e) = true := by
  have marked := marked_of_mem_exception found
  simpa [locatedVerdict, unlocated] using marked

theorem isSome_of_mem_frames {f : Text}
    (member : f ∈ (crashLines (plainLine classes) (lines text)).frames) :
    (parseFrame (plainLine classes f)).isSome := (mem_frames_crashLines member).2

/-- A frame counts alike with and without its location. -/
theorem sameSymbol_located {line : Text} (frame : (parseFrame (plainLine classes line)).isSome) :
    (frameOf (plainLine classes line)).SameSymbol (frameOf (locatedLine classes known line)) := by
  cases located : known.at line with
  | none =>
    rw [locatedLine_of_none located]
    exact ⟨rfl, rfl⟩
  | some loc => exact (appended_locatedLine located).sameSymbol frame

theorem sigFrames_located (classes : CharClasses) (known : KnownLocations) (text : Text) :
    (collectFrames ((crashLines (plainLine classes) (lines text)).frames.map
        fun f => frameOf (locatedLine classes known f))).sigFrames =
      (collectFrames ((crashLines (plainLine classes) (lines text)).frames.map
        fun f => frameOf (plainLine classes f))).sigFrames :=
  (sigFrames_collectFrames_map fun _ member => sameSymbol_located (isSome_of_mem_frames member)).1

/-! ## Locations that do not show -/

theorem sameCrash_of_unlocated (unlocated : Unlocated classes known text) :
    SameCrash classes known text := by
  intro sha256Hex kind
  have kept := keptLocated_eq fun e found =>
    marked_of_unlocated found (unlocated.exception e found)
  rw [signatureOf_annotate, signatureOf_scrub, signedCrash, signedCrash, kept]
  refine Option.map_congr fun e found => ?_
  have exception : locatedLine classes known e = plainLine classes e :=
    locatedLine_of_none (unlocated.exception e (kept ▸ found))
  have frames : collectFrames ((crashLines (plainLine classes) (lines text)).frames.map
        fun f => frameOf (locatedLine classes known f)) =
      collectFrames ((crashLines (plainLine classes) (lines text)).frames.map
        fun f => frameOf (plainLine classes f)) := by
    apply collectFrames_map_congr
    · intro f member
      exact sameSymbol_located (isSome_of_mem_frames member)
    · intro f member counted
      cases located : known.at f with
      | none => rw [locatedLine_of_none located]
      | some loc =>
        apply (appended_locatedLine located).module_of_no_bracket (isSome_of_mem_frames member)
        intro bracket
        have crashed : (keptLocated classes known text).exception.isSome :=
          Option.isSome_iff_exists.mpr ⟨e, kept ▸ found⟩
        have nowhere := unlocated.modules crashed f (kept ▸ member) counted bracket
        rw [nowhere] at located
        contradiction
  simp only [compute, exception, frames]

/-! ## Longer locations -/

/-- A location with a long directory before it. -/
def longer (n : ℕ) (loc : SourceLocation) : SourceLocation where
  path := List.replicate n 'a' ++ '/' :: loc.path
  line := loc.line
  nonempty := by simp
  visible := by
    intro c member
    rw [List.mem_append, List.mem_cons] at member
    rcases member with letter | rfl | inPath
    · rw [List.eq_of_mem_replicate letter]
      decide
    · decide
    · exact loc.visible c inPath

theorem scrub_longer (n : ℕ) (loc : SourceLocation) :
    scrub classes (longer n loc).text = List.replicate n 'a' ++ '/' :: scrub classes loc.text := by
  have letters : scrub classes (List.replicate n 'a') = List.replicate n 'a' := by
    apply scrub_of_inert
    apply inert_of_no_colon
    · intro member
      exact absurd (List.eq_of_mem_replicate member) (by decide)
    · rw [List.count_replicate]
      simp
  have shape : (longer n loc).text = List.replicate n 'a' ++ '/' :: loc.text := by
    simp [longer, SourceLocation.text]
  rw [shape, scrub_append (by decide), letters]

theorem hasMarker_longer (n : ℕ) (loc : SourceLocation) :
    hasMarker (scrub classes (longer n loc).text) = hasMarker (scrub classes loc.text) := by
  have head : ∀ m ∈ markers, ∀ c ∈ List.replicate n 'a' ++ ['/'], m.head? ≠ some c := by
    have each : ∀ m ∈ markers, m.head? ≠ some 'a' ∧ m.head? ≠ some '/' := by decide
    intro m member c inPath
    rw [List.mem_append, List.mem_singleton] at inPath
    rcases inPath with letter | rfl
    · rw [List.eq_of_mem_replicate letter]
      exact (each m member).1
    · exact (each m member).2
  have shape : List.replicate n 'a' ++ '/' :: scrub classes loc.text =
      (List.replicate n 'a' ++ ['/']) ++ (scrub classes loc.text ++ []) := by simp
  rw [scrub_longer, shape, hasMarker_surround head (by simp)]

def KnownLocations.longer (n : ℕ) (known : KnownLocations) : KnownLocations :=
  fun symbol offset module => (known symbol offset module).map (Signature.longer n)

theorem sameMarks_longer (n : ℕ) (known : KnownLocations) :
    SameMarks classes known (known.longer n) := by
  intro symbol offset module
  rw [KnownLocations.longer, Option.map_map]
  exact Option.map_congr fun loc _ => hasMarker_longer n loc

theorem at_longer (n : ℕ) (known : KnownLocations) (line : Text) :
    (known.longer n).at line = (known.at line).map (Signature.longer n) := by
  rw [KnownLocations.at, KnownLocations.at]
  cases query line <;> rfl

theorem length_longer (n : ℕ) (loc : SourceLocation) :
    n < (scrub classes (longer n loc).text).length := by
  rw [scrub_longer, List.length_append, List.length_replicate, List.length_cons]
  omega

/-! ## Locations that show -/

theorem length_le_flatten {m : Text} {ms : List Text} (member : m ∈ ms) :
    m.length ≤ ms.flatten.length :=
  (List.sublist_flatten_of_mem member).length_le

theorem at_eq_none_iff (marks : SameMarks classes known known') (line : Text) :
    known'.at line = none ↔ known.at line = none := by
  rw [KnownLocations.at, KnownLocations.at]
  cases query line with
  | none => rfl
  | some q =>
    simp only [Option.bind_some]
    rw [← Option.map_eq_none_iff, marks, Option.map_eq_none_iff]

theorem keptLocated_congr (marks : SameMarks classes known known') (text : Text) :
    keptLocated classes known' text = keptLocated classes known text := by
  have answers : locatedVerdict classes known' = locatedVerdict classes known := by
    funext line
    rw [locatedVerdict, locatedVerdict]
    have same : ((known'.at line).any fun loc => hasMarker (scrub classes loc.text)) =
        (known.at line).any fun loc => hasMarker (scrub classes loc.text) := by
      rw [KnownLocations.at, KnownLocations.at]
      cases query line with
      | none => rfl
      | some q =>
        have same := congrArg (Option.any id) (marks q.symbol q.offset q.module)
        rwa [Option.any_map, Option.any_map] at same
    rw [same]
  rw [keptLocated, keptLocated, answers]

theorem Unlocated.congr (marks : SameMarks classes known known')
    (unlocated : Unlocated classes known text) : Unlocated classes known' text := by
  refine ⟨fun e found => ?_, fun crashed f member counted bracket => ?_⟩
  · rw [keptLocated_congr marks] at found
    exact (at_eq_none_iff marks e).mpr (unlocated.exception e found)
  · rw [keptLocated_congr marks] at crashed member
    exact (at_eq_none_iff marks f).mpr (unlocated.modules crashed f member counted bracket)

/-- A location behind the exception line shows. -/
theorem exception_unlocated
    (same : ∀ known', SameMarks classes known known' → SameCrash classes known' text)
    (shown : ¬ TakenAlong classes known text) :
    ∀ e ∈ (keptLocated classes known text).exception, known.at e = none := by
  intro e found
  by_contra somewhere
  obtain ⟨loc, located⟩ := Option.ne_none_iff_exists'.mp somewhere
  cases marked : hasMarker (plainLine classes e) with
  | true =>
    -- The same line is the exception without the location, and reads differently.
    have kept : keptLocated classes known text = crashLines (plainLine classes) (lines text) := by
      apply keptLocated_eq
      intro e' found'
      obtain rfl := Option.mem_unique found found'
      exact marked
    have equal := same known (fun _ _ _ => rfl) id []
    have found' := kept ▸ found
    rw [signatureOf_annotate, signatureOf_scrub, signedCrash, signedCrash, kept,
      Option.mem_def.mp found', Option.map_some, Option.map_some, Option.some.injEq] at equal
    have hashes := congrArg CrashSignature.signature equal
    simp only [compute, id, sigFrames_located, signatureInput, List.nil_append,
      List.append_cancel_right_eq, List.cons_append, List.cons.injEq, true_and] at hashes
    exact (appended_locatedLine located).normalizeException_ne hashes
  | false =>
    -- The location alone makes the line the exception; it can be longer than all that is signed.
    have unskipped : skips false (splitWhitespace (plainLine classes e)) = false := by
      rw [Bool.eq_false_iff]
      exact fun skipped => shown ⟨e, found, marked, skipped⟩
    obtain ⟨n, bound⟩ : ∃ n, ∀ sig ∈ signatureOf id [] (scrub classes text),
        sig.signature.length ≤ n := by
      cases signatureOf id [] (scrub classes text) with
      | none => exact ⟨0, fun sig none => nomatch none⟩
      | some sig => exact ⟨sig.signature.length, fun sig' here => (Option.some.inj here) ▸ le_rfl⟩
    have marks := @sameMarks_longer classes n known
    have equal := same (known.longer n) marks id []
    have located' : (known.longer n).at e = some (longer n loc) := by
      rw [at_longer, located]
      rfl
    rw [signatureOf_annotate, keptLocated_congr marks, signedCrash, Option.mem_def.mp found,
      Option.map_some] at equal
    have short := bound _ equal.symm
    have long := (appended_locatedLine located').length_le_normalizeException unskipped
    have beyond := @length_longer classes n loc
    simp only [compute, id, signatureInput, List.length_append, List.length_cons] at short
    omega

/-- A location behind a module annotation shows. -/
theorem modules_unlocated
    (same : ∀ known', SameMarks classes known known' → SameCrash classes known' text)
    (exception : ∀ e ∈ (keptLocated classes known text).exception, known.at e = none)
    (crashed : (keptLocated classes known text).exception.isSome) :
    ∀ f ∈ (keptLocated classes known text).frames, (frameOf (plainLine classes f)).Counted →
      " [".toList <:+: unquestioned (plainLine classes f) → known.at f = none := by
  intro f member counted bracket
  by_contra somewhere
  obtain ⟨loc, located⟩ := Option.ne_none_iff_exists'.mp somewhere
  obtain ⟨e, found⟩ := Option.isSome_iff_exists.mp crashed
  have kept : keptLocated classes known text = crashLines (plainLine classes) (lines text) :=
    keptLocated_eq fun e found => marked_of_unlocated found (exception e found)
  rw [kept] at found member
  have frame := isSome_of_mem_frames member
  -- The module with the location can be longer than all modules without it.
  let n := (collectFrames ((crashLines (plainLine classes) (lines text)).frames.map
    fun f => frameOf (plainLine classes f))).modules.flatten.length
  have marks := @sameMarks_longer classes n known
  have located' : (known.longer n).at f = some (longer n loc) := by
    rw [at_longer, located]
    rfl
  obtain ⟨m, named, ends⟩ := (appended_locatedLine located').module_of_bracket frame bracket
  have equal := same (known.longer n) marks id []
  rw [signatureOf_annotate, signatureOf_scrub, keptLocated_congr marks, signedCrash, signedCrash,
    kept, found, Option.map_some, Option.map_some, Option.some.injEq] at equal
  have inModules : m ∈ (collectFrames ((crashLines (plainLine classes) (lines text)).frames.map
      fun f => frameOf (plainLine classes f))).modules := by
    have modules := congrArg CrashSignature.modules equal
    dsimp only [compute] at modules
    rw [← modules, mem_modules_collectFrames]
    have sameSymbol := @sameSymbol_located classes (known.longer n) f frame
    refine ⟨_, List.mem_map_of_mem member, ?_, named⟩
    rw [Frame.Counted, sameSymbol.questionable, sameSymbol.symbol]
    exact counted
  have short := length_le_flatten inModules
  have long := ends.length_le
  have beyond := @length_longer classes n loc
  simp only [suffix, List.length_append] at long
  omega

/-- Locations do not show if none stands behind the exception line or a module annotation, and
only then unless the last word of the exception takes its location along. -/
theorem sameCrash_spec (classes : CharClasses) (known : KnownLocations) (text : Text) :
    (Unlocated classes known text →
        ∀ known', SameMarks classes known known' → SameCrash classes known' text) ∧
      ((∀ known', SameMarks classes known known' → SameCrash classes known' text) →
        Unlocated classes known text ∨ TakenAlong classes known text) := by
  constructor
  · intro unlocated known' marks
    exact sameCrash_of_unlocated (unlocated.congr marks)
  · intro same
    by_cases taken : TakenAlong classes known text
    · exact .inr taken
    · have exception := exception_unlocated same taken
      exact .inl ⟨exception, modules_unlocated same exception⟩

def everywhere : KnownLocations := fun _ _ _ =>
  some ⟨"net/a.c".toList, 7, by decide, forall_mem_of_all (by decide)⟩

/-- A warning that names its place gets a location, and with it another signature. -/
theorem located_warning_differs :
    ¬ SameCrash .ascii everywhere "WARNING: at foo+0x10/0x20".toList := by
  intro same
  have equal := same id []
  revert equal
  decide +kernel

end UcrashReport.Signature
