import UcrashReport.Common.Signature

/-! # The tokens of an exception line

Every token of an exception line is dropped or kept on its own, except that a noise word takes the
token behind it along. The result is the kept tokens one after another, so it gets longer when one
of them does.
-/

namespace UcrashReport.Signature

open Rust Rust.Text

/-! ## Single tokens -/

theorem pushWord_ne {t : Text} (nonempty : t ≠ []) (out : Text) : pushWord out t ≠ out := by
  intro same
  have lengths := congrArg List.length same
  have := List.length_pos_iff.mpr nonempty
  unfold pushWord at lengths
  split_ifs at lengths with empty
  · simp [List.isEmpty_iff.mp empty, nonempty] at lengths
  · simp only [List.length_append, List.length_cons] at lengths
    omega

/-- A token that is no noise. -/
structure Telling (tok : Text) : Prop where
  noHex : isHexNoise (bareToken tok) = false
  noWord : isNoiseWord (bareToken tok) = false
  noCounter : isCounterNoise (bareToken tok) = false
  nonempty : bareToken tok ≠ []

theorem isCounterNoise_of_isNoiseWord {t : Text} (word : isNoiseWord t = true) :
    isCounterNoise t = false := by
  simp only [isNoiseWord, Bool.or_eq_true, beq_iff_eq] at word
  rcases word with (((rfl | rfl) | rfl) | rfl) | rfl <;> decide

theorem nonempty_of_isNoiseWord {t : Text} (word : isNoiseWord t = true) : t ≠ [] := by
  rintro rfl
  contradiction

theorem isHexNoise_of_isNoiseWord {t : Text} (word : isNoiseWord t = true) :
    isHexNoise t = false := by
  simp only [isNoiseWord, Bool.or_eq_true, beq_iff_eq] at word
  rcases word with (((rfl | rfl) | rfl) | rfl) | rfl <;> decide +kernel

/-- A noise word that takes the next token along. -/
def announces (tok : Text) : Bool := isNoiseWord (bareToken tok) && bareToken tok != "at".toList

/-- A token that leaves nothing. -/
def isDropped (tok : Text) : Bool := isHexNoise (bareToken tok) || isCounterNoise (bareToken tok)

/-- What one round of the loop does with a token that is not taken along. -/
theorem normalizeTokens_cons (out tok : Text) (rest : List Text) :
    normalizeTokens false out (tok :: rest) =
      if announces tok && !rest.isEmpty then normalizeTokens true out rest
      else normalizeTokens false (if isDropped tok then out else pushWord out (bareToken tok)) rest := by
  rw [normalizeTokens, announces, isDropped]
  cases word : isNoiseWord (bareToken tok) with
  | true =>
    rw [isHexNoise_of_isNoiseWord word, isCounterNoise_of_isNoiseWord word]
    cases rest.isEmpty <;> cases bareToken tok != "at".toList <;> rfl
  | false =>
    cases isHexNoise (bareToken tok) <;> cases isCounterNoise (bareToken tok) <;> rfl

/-! ## The tokens before one -/

/-- Whether the token behind these is taken along. -/
def skips : Bool → List Text → Bool
  | skip, [] => skip
  | true, _ :: rest => skips false rest
  | false, tok :: rest => skips (announces tok) rest

/-- Up to a token the loop does the same whatever comes then. -/
theorem normalizeTokens_append (skip : Bool) (out : Text) (before : List Text) :
    ∃ out', ∀ rest, rest ≠ [] →
      normalizeTokens skip out (before ++ rest) = normalizeTokens (skips skip before) out' rest := by
  induction before generalizing skip out with
  | nil => exact ⟨out, fun rest _ => rfl⟩
  | cons tok before ih =>
    cases skip with
    | true => exact ih false out
    | false =>
      have more {rest : List Text} (nonempty : rest ≠ []) : (before ++ rest).isEmpty = false := by
        simp [nonempty]
      cases announced : announces tok with
      | true =>
        obtain ⟨out', same⟩ := ih true out
        refine ⟨out', fun rest nonempty => ?_⟩
        rw [List.cons_append, normalizeTokens_cons, more nonempty, announced, skips, announced]
        exact same rest nonempty
      | false =>
        obtain ⟨out', same⟩ := ih false (if isDropped tok then out else pushWord out (bareToken tok))
        refine ⟨out', fun rest nonempty => ?_⟩
        rw [List.cons_append, normalizeTokens_cons, announced, skips, announced]
        exact same rest nonempty

/-- A token that takes none along does not show in what is taken along. -/
theorem skips_append (skip : Bool) (before : List Text) {tok : Text} (quiet : announces tok = false)
    (rest : List Text) : skips skip (before ++ tok :: rest) = skips false rest := by
  induction before generalizing skip with
  | nil =>
    cases skip with
    | true => rfl
    | false => rw [List.nil_append, skips, quiet]
  | cons other before ih =>
    cases skip with
    | true => exact ih false
    | false => exact ih (announces other)

/-! ## One token for another -/

theorem length_pushWord_lt {out out' t t' : Text} (shorter : out.length ≤ out'.length)
    (shorter' : t.length ≤ t'.length)
    (strict : out.length < out'.length ∨ t.length < t'.length) :
    (pushWord out t).length < (pushWord out' t').length := by
  unfold pushWord
  simp only [List.isEmpty_iff_length_eq_zero]
  split_ifs with empty empty' empty'
  · omega
  · simp only [List.length_append, List.length_cons]
    omega
  · omega
  · simp only [List.length_append, List.length_cons]
    omega

theorem length_lt_pushWord {t : Text} (nonempty : t ≠ []) (out : Text) :
    out.length < (pushWord out t).length := by
  have positive := List.length_pos_iff.mpr nonempty
  unfold pushWord
  split_ifs with empty
  · rw [List.isEmpty_iff.mp empty]
    exact positive
  · simp only [List.length_append, List.length_cons]
    omega

/-- What is longer at some point is longer at the end. -/
theorem length_normalizeTokens_lt {out out' : Text} (shorter : out.length < out'.length)
    (skip : Bool) (toks : List Text) :
    (normalizeTokens skip out toks).length < (normalizeTokens skip out' toks).length := by
  induction toks generalizing skip out out' with
  | nil => cases skip <;> exact shorter
  | cons tok rest ih =>
    cases skip with
    | true => exact ih shorter false
    | false =>
      rw [normalizeTokens_cons, normalizeTokens_cons]
      split_ifs
      · exact ih shorter true
      · exact ih shorter false
      · exact ih (length_pushWord_lt shorter.le le_rfl (.inl shorter)) false

/-- A token that is taken along, or dropped, may be replaced by another such token. -/
theorem normalizeTokens_congr {before rest : List Text} {tok tok' : Text}
    (quiet : announces tok = false) (quiet' : announces tok' = false)
    (gone : skips false before = true ∨ isDropped tok = true ∧ isDropped tok' = true) :
    normalizeTokens false [] (before ++ tok' :: rest) =
      normalizeTokens false [] (before ++ tok :: rest) := by
  obtain ⟨out, same⟩ := normalizeTokens_append false [] before
  rw [same _ (List.cons_ne_nil _ _), same _ (List.cons_ne_nil _ _)]
  cases skipped : skips false before with
  | true => rfl
  | false =>
    rw [skipped] at gone
    obtain ⟨dropped, dropped'⟩ := gone.resolve_left Bool.false_ne_true
    rw [normalizeTokens_cons, normalizeTokens_cons, quiet, quiet', dropped, dropped']
    rfl

/-- A kept token of another length changes the result. -/
theorem normalizeTokens_ne {before rest : List Text} {tok tok' : Text}
    (quiet : announces tok = false) (quiet' : announces tok' = false)
    (unskipped : skips false before = false) (kept : isDropped tok' = false)
    (visible : bareToken tok' ≠ [])
    (other : (bareToken tok').length ≠ (bareToken tok).length) :
    normalizeTokens false [] (before ++ tok' :: rest) ≠
      normalizeTokens false [] (before ++ tok :: rest) := by
  obtain ⟨out, same⟩ := normalizeTokens_append false [] before
  rw [same _ (List.cons_ne_nil _ _), same _ (List.cons_ne_nil _ _), unskipped, normalizeTokens_cons,
    normalizeTokens_cons, quiet, quiet', kept]
  intro equal
  have lengths := congrArg List.length equal
  cases dropped : isDropped tok with
  | true =>
    rw [dropped] at lengths
    have longer := length_normalizeTokens_lt (length_lt_pushWord visible out) false rest
    exact absurd lengths longer.ne'
  | false =>
    rw [dropped] at lengths
    rcases Nat.lt_or_gt_of_ne other with shorter | longer
    · have strict := length_pushWord_lt (le_refl out.length) shorter.le (.inr shorter)
      exact absurd lengths (length_normalizeTokens_lt strict false rest).ne
    · have strict := length_pushWord_lt (le_refl out.length) longer.le (.inr longer)
      exact absurd lengths (length_normalizeTokens_lt strict false rest).ne'

end UcrashReport.Signature
