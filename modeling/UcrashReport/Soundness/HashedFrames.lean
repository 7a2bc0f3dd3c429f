import UcrashReport.Common.CrashLines

/-! # The hashed frames

The protocol names the frames of the report machinery by patterns, some of them whole names. The
code knows prefixes only, apart from one suffix. So it skips at least the leading frames that the
protocol skips, and it hashes the specified frames exactly when it stops skipping where the protocol
does.
-/

namespace UcrashReport.Signature

open Rust Rust.Text

/-! ## The frames of the protocol -/

/-- How the protocol writes the name of a machinery frame. -/
inductive Pattern
  | whole (name : Text)
  | leading (start : Text)
  | trailing (ending : Text)
deriving DecidableEq

def Pattern.fits (symbol : Text) : Pattern → Bool
  | whole name => symbol == name
  | leading start => startsWith start symbol
  | trailing ending => endsWith ending symbol

/-- The names without a star in step 2 of the algorithm. -/
def wholeNames : List Text :=
  ["dump_backtrace".toList, "show_stack".toList, "die".toList, "__die".toList, "panic".toList,
    "__warn".toList, "report_bug".toList, "bug_handler".toList, "do_page_fault".toList,
    "do_translation_fault".toList, "do_mem_abort".toList, "__do_kernel_fault".toList,
    "handle_exception".toList]

/-- The names with a star at the end. -/
def leadingNames : List Text :=
  ["dump_stack".toList, "oops".toList, "warn_slowpath".toList, "do_trap".toList, "el1_".toList,
    "el1h_".toList, "ret_from_".toList]

/-- Step 2: the frames of the unwinder and the report machinery. -/
def machineryPatterns : List Pattern :=
  wholeNames.map .whole ++ leadingNames.map .leading ++ [.trailing "_exception".toList]

def specMachinery (symbol : Text) : Bool := machineryPatterns.any (·.fits symbol)

/-- Step 3: the normalized symbols of the frames that are not questionable. -/
def normalizedFrames (frames : List Frame) : List Text :=
  ((frames.filter fun f => !f.questionable).map fun f => normalizeSymbol f.symbol).filter (· ≠ [])

/-- Steps 2 to 4: what is left after the leading machinery, five frames at most. -/
def hashedFrames (frames : List Frame) : List Text :=
  ((normalizedFrames frames).dropWhile specMachinery).take signatureFrames

/-- The signature hashes the frames of the protocol, and the title is the first of them or the
exception. -/
def RefinesProtocol (kind exceptionLine : Text) (frames : List Frame) : Prop :=
  (collectFrames frames).sigFrames = hashedFrames frames ∧
    ∀ sha256Hex : Text → Text,
      (compute sha256Hex kind exceptionLine frames).signature =
          sha256Hex (signatureInput kind (normalizeException exceptionLine) (hashedFrames frames)) ∧
        (compute sha256Hex kind exceptionLine frames).title =
          (hashedFrames frames).head?.getD (normalizeException exceptionLine)

/-! ## The loop -/

theorem normalizedFrames_append (frames : List Frame) (f : Frame) :
    normalizedFrames (frames ++ [f]) =
      normalizedFrames frames ++ if f.Counted then [normalizeSymbol f.symbol] else [] := by
  unfold normalizedFrames
  rw [List.filter_append, List.map_append, List.filter_append]
  congr 1
  cases questionable : f.questionable with
  | true => simp [questionable, Frame.Counted]
  | false =>
    by_cases empty : normalizeSymbol f.symbol = []
    · simp [questionable, Frame.Counted, empty]
    · simp [questionable, Frame.Counted, empty]

theorem collectFrame_of_counted {f : Frame} (counted : f.Counted) (acc : Collected) :
    (collectFrame acc f).sigFrames =
        (if !acc.seenRealFrame && isMachinery (normalizeSymbol f.symbol) then acc.sigFrames
          else if acc.sigFrames.length < signatureFrames then
            acc.sigFrames ++ [normalizeSymbol f.symbol]
          else acc.sigFrames) ∧
      (collectFrame acc f).seenRealFrame =
        (acc.seenRealFrame || !isMachinery (normalizeSymbol f.symbol)) := by
  have visible : (normalizeSymbol f.symbol).isEmpty = false := by simpa using counted.2
  rw [collectFrame, counted.1]
  simp only [visible, Bool.false_eq_true, if_false]
  cases acc.seenRealFrame <;> cases isMachinery (normalizeSymbol f.symbol) <;> simp

theorem take_concat {α : Type*} (n : ℕ) (xs : List α) (x : α) :
    (if (xs.take n).length < n then xs.take n ++ [x] else xs.take n) = (xs ++ [x]).take n := by
  rw [List.length_take]
  split_ifs with room
  · have short : xs.length < n := by omega
    rw [List.take_of_length_le short.le, List.take_of_length_le]
    rw [List.length_append, List.length_singleton]
    exact short
  · rw [List.take_append_of_le_length (by omega)]

/-- The loop drops the leading machinery and keeps five of the other frames. -/
theorem collectFrames_spec (frames : List Frame) :
    (collectFrames frames).sigFrames =
        ((normalizedFrames frames).dropWhile isMachinery).take signatureFrames ∧
      (collectFrames frames).seenRealFrame =
        !((normalizedFrames frames).dropWhile isMachinery).isEmpty := by
  induction frames using List.reverseRecOn with
  | nil => exact ⟨rfl, rfl⟩
  | append_singleton frames f ih =>
    have last : collectFrames (frames ++ [f]) = collectFrame (collectFrames frames) f :=
      List.foldl_append
    rw [last, normalizedFrames_append]
    by_cases counted : f.Counted
    · obtain ⟨frames_eq, seen_eq⟩ := collectFrame_of_counted counted (collectFrames frames)
      rw [frames_eq, seen_eq, ih.1, ih.2, if_pos counted, List.dropWhile_append]
      generalize (normalizedFrames frames).dropWhile isMachinery = kept
      cases kept with
      | nil => cases machinery : isMachinery (normalizeSymbol f.symbol) <;>
          simp [machinery, signatureFrames]
      | cons first rest =>
        exact ⟨take_concat signatureFrames (first :: rest) _, rfl⟩
    · rw [collectFrame_of_not_counted counted, if_neg counted, List.append_nil]
      exact ih

/-! ## Prefixes and patterns -/

/-- The code skips what the protocol skips, and every name that continues a whole name. -/
theorem isMachinery_iff {symbol : Text} :
    isMachinery symbol = true ↔
      specMachinery symbol = true ∨ ∃ name ∈ wholeNames, name <+: symbol := by
  have names : ∀ p, p ∈ skipPrefixes ↔ p ∈ wholeNames ∨ p ∈ leadingNames := by
    have forward : ∀ p ∈ skipPrefixes, p ∈ wholeNames ∨ p ∈ leadingNames := by decide
    have backward : ∀ p ∈ wholeNames ++ leadingNames, p ∈ skipPrefixes := by decide
    exact fun p => ⟨forward p, fun member => backward p (List.mem_append.mpr member)⟩
  have code : isMachinery symbol = true ↔
      (∃ p ∈ skipPrefixes, p <+: symbol) ∨ "_exception".toList <:+ symbol := by
    rw [isMachinery, Bool.or_eq_true, List.any_eq_true, endsWith_iff]
    simp only [startsWith_iff]
  have spec : specMachinery symbol = true ↔
      symbol ∈ wholeNames ∨ (∃ p ∈ leadingNames, p <+: symbol) ∨
        "_exception".toList <:+ symbol := by
    simp only [specMachinery, machineryPatterns, List.any_append, List.any_map, Bool.or_eq_true,
      List.any_eq_true, Function.comp_apply, Pattern.fits, beq_iff_eq, startsWith_iff,
      List.mem_singleton, exists_eq_left, endsWith_iff, exists_eq_right', or_assoc]
  rw [code, spec]
  constructor
  · rintro (⟨p, member, leading⟩ | trailing)
    · rcases (names p).mp member with whole | start
      · exact .inr ⟨p, whole, leading⟩
      · exact .inl (.inr (.inl ⟨p, start, leading⟩))
    · exact .inl (.inr (.inr trailing))
  · rintro ((whole | ⟨p, start, leading⟩ | trailing) | ⟨name, whole, leading⟩)
    · exact .inl ⟨symbol, (names symbol).mpr (.inl whole), List.prefix_rfl⟩
    · exact .inl ⟨p, (names p).mpr (.inr start), leading⟩
    · exact .inr trailing
    · exact .inl ⟨name, (names name).mpr (.inl whole), leading⟩

/-- Skipping by a weaker condition leaves the same when it stops at the same place. -/
theorem take_dropWhile_eq_iff {α : Type*} {p q : α → Bool} (weaker : ∀ x, p x = true → q x = true)
    {n : ℕ} (positive : 0 < n) (xs : List α) :
    (xs.dropWhile q).take n = (xs.dropWhile p).take n ↔
      ∀ x, (xs.dropWhile p).head? = some x → q x = false := by
  have further : xs.dropWhile q = (xs.dropWhile p).dropWhile q := by
    induction xs with
    | nil => rfl
    | cons x xs ih =>
      cases skipped : p x with
      | true => rw [List.dropWhile_cons_of_pos skipped,
          List.dropWhile_cons_of_pos (weaker x skipped), ih]
      | false =>
        have stays : (x :: xs).dropWhile p = x :: xs :=
          List.dropWhile_cons_of_neg (by simp [skipped])
        rw [stays]
  rw [further]
  cases xs.dropWhile p with
  | nil => simp
  | cons x rest =>
    rw [List.head?_cons]
    constructor
    · rintro same _ ⟨⟩
      rw [Bool.eq_false_iff]
      intro skipped
      rw [List.dropWhile_cons_of_pos skipped] at same
      have head := congrArg List.head? same
      rw [List.head?_take, List.head?_take, if_neg positive.ne', if_neg positive.ne',
        List.head?_cons] at head
      have stops := List.head?_dropWhile_not q rest
      rw [head] at stops
      simp [skipped] at stops
    · intro stops
      rw [List.dropWhile_cons_of_neg (by simp [stops x rfl])]

/-- The signature is that of the protocol exactly when the first frame that the protocol keeps does
not begin with a name that the protocol gives as a whole. -/
theorem refinesProtocol_iff (kind exceptionLine : Text) (frames : List Frame) :
    RefinesProtocol kind exceptionLine frames ↔
      ∀ symbol, ((normalizedFrames frames).dropWhile specMachinery).head? = some symbol →
        ∀ name ∈ wholeNames, ¬ name <+: symbol := by
  have hashed : RefinesProtocol kind exceptionLine frames ↔
      (collectFrames frames).sigFrames = hashedFrames frames := by
    refine ⟨And.left, fun same => ⟨same, fun sha256Hex => ?_⟩⟩
    rw [compute, same]
    exact ⟨rfl, rfl⟩
  rw [hashed, (collectFrames_spec frames).1, hashedFrames,
    take_dropWhile_eq_iff (fun symbol skipped => isMachinery_iff.mpr (.inl skipped)) (by decide)]
  refine forall₂_congr fun symbol first => ?_
  have kept : specMachinery symbol = false := by
    have stops := List.head?_dropWhile_not specMachinery (normalizedFrames frames)
    rw [first] at stops
    simpa using stops
  rw [Bool.eq_false_iff, Ne, isMachinery_iff, kept]
  simp

/-- A frame that only begins like a whole name is skipped. -/
theorem panic_on_oops_skipped :
    ¬ RefinesProtocol "kernel_oops".toList "Oops".toList
      [⟨"panic_on_oops+0x1/0x2".toList, none, false⟩, ⟨"f+0x1/0x2".toList, none, false⟩] := by
  rintro ⟨frames, -⟩
  revert frames
  decide +kernel

end UcrashReport.Signature
