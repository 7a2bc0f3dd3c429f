import UcrashReport.Soundness.NoiseSites
import Mathlib.Logic.Relation

/-! # What an exception line keeps of noise

A replacement does not show in the exception type when the token of the digits is taken along by a
noise word, begins like a literal or a counter, or is a hex run alone. The places of a line stay as
they are under replacements, so a line whose places are all of this kind keeps its exception type;
at any other place a few replacements change it.
-/

namespace UcrashReport.Signature

open Rust Rust.Text

variable {classes : CharClasses} {kind : NoiseKind} {u d v : Text}

/-! ## The token of the digits -/

/-- The token without the outer brackets. -/
def tokenText (u d v : Text) : Text := front u ++ (d ++ back v)

theorem bareToken_site (site : Site classes kind u d v) :
    bareToken (lastWord u ++ (d ++ firstWord v)) = tokenText u d v :=
  bareToken_digits site.digits.1 site.plain u v

theorem normalizeException_site (site : Site classes kind u d v) :
    normalizeException (u ++ (d ++ v)) =
      normalizeTokens false [] (splitWhitespace (beforeLastWord u) ++
        (lastWord u ++ (d ++ firstWord v)) :: splitWhitespace (behindFirstWord v)) := by
  rw [normalizeException, splitWhitespace_trim, splitWhitespace_digits site.digits.1 site.visible]

/-- Behind a literal prefix or a counter the token has the mark of its kind. -/
theorem front_literal {w : Text} : front (w ++ "0x".toList) = front w ++ "0x".toList :=
  front_append (forall_mem_of_all (by decide)) (forall_eq_some_of_all (by decide)) w

theorem front_counter {w : Text} : '#' ∈ front (w ++ "[#".toList) := by
  have shape : w ++ "[#".toList = (w ++ "[".toList) ++ "#".toList := by simp
  have split := @front_append "#".toList (forall_mem_of_all (by decide))
    (forall_eq_some_of_all (by decide)) (w ++ "[".toList)
  rw [shape, split]
  simp

theorem AfterNumberWord.front_eq_nil (after : AfterNumberWord u) : front u = [] := by
  obtain ⟨before, rfl⟩ := List.getLast?_eq_some_iff.mp after.last
  have word := (@lastWord_append_blank ' ' isWhitespace_space before [] (by simp)).1
  rw [front, word]
  rfl

/-- What no noise word contains. -/
theorem noiseWord_spec {t : Text} (word : isNoiseWord t = true) :
    (∀ c ∈ t, isAsciiDigit c = false ∧ c ≠ '#') ∧ t.length ≤ 8 ∧
      t.all isAsciiHexdigit = false := by
  simp only [isNoiseWord, Bool.or_eq_true, beq_iff_eq] at word
  rcases word with (((rfl | rfl) | rfl) | rfl) | rfl <;>
    exact ⟨forall_mem_of_all (by decide), by decide, by decide⟩

/-- The token of the digits takes no token along. -/
theorem announces_site (site : Site classes kind u d v) :
    announces (lastWord u ++ (d ++ firstWord v)) = false := by
  rw [announces, bareToken_site site, Bool.and_eq_false_iff, tokenText]
  refine .inl ?_
  rw [Bool.eq_false_iff]
  intro word
  obtain ⟨noDigit, short, mixed⟩ := noiseWord_spec word
  have before := site.before
  have fits := site.fits
  have digit (decimal : d ≠ [] ∧ ∀ c ∈ d, isAsciiDigit c = true) : False := by
    obtain ⟨c, inDigits⟩ := List.exists_mem_of_ne_nil d decimal.1
    have absent := (noDigit c (by simp [inDigits])).1
    rw [decimal.2 c inDigits] at absent
    contradiction
  cases kind with
  | literal =>
    obtain ⟨w, rfl, -⟩ := before
    rw [front_literal] at noDigit
    have absent := (noDigit '0' (by simp)).1
    contradiction
  | run =>
    -- eight hex digits leave no place for another character
    have lengths : (front u ++ (d ++ back v)).length ≤ 8 := short
    simp only [List.length_append] at lengths
    have eight := fits.1.1
    have noFront : front u = [] := List.length_eq_zero_iff.mp (by omega)
    have noBack : back v = [] := List.length_eq_zero_iff.mp (by omega)
    rw [noFront, noBack, List.append_nil, List.nil_append, List.all_eq_true.mpr fits.2] at mixed
    contradiction
  | counter => exact digit fits
  | number => exact digit fits

/-- Whether the token has a mark does not depend on the digits. -/
theorem startsWith_append_digits {pat : Text} (mark : pat = "0x".toList ∨ pat = "#".toList)
    {t : Text} (digits : d ≠ [] ∧ ∀ c ∈ d, isAsciiHexdigit c = true)
    (apart : ∀ c, t.head? = some c → c ≠ 'x') (w : Text) :
    startsWith pat (w ++ (d ++ t)) = startsWith pat w := by
  obtain ⟨c, cs, rfl⟩ := List.exists_cons_of_ne_nil digits.1
  have noX : ∀ e ∈ c :: cs, e ≠ 'x' ∧ e ≠ '#' := by
    intro e member
    have digit := digits.2 e member
    constructor <;> rintro rfl <;> exact absurd digit (by decide)
  have first := noX c List.mem_cons_self
  have second (start : c = '0') : startsWith "x".toList (cs ++ t) = false := by
    cases cs with
    | nil =>
      cases t with
      | nil => rfl
      | cons e t => simp [startsWith, List.isPrefixOf, Ne.symm (apart e rfl)]
    | cons e cs => simp [startsWith, List.isPrefixOf, Ne.symm (noX e (by simp)).1]
  rcases mark with rfl | rfl
  · rcases w with _ | ⟨a, _ | ⟨b, w⟩⟩
    · by_cases start : c = '0'
      · subst start
        exact second rfl
      · simp [startsWith, List.isPrefixOf, Ne.symm start]
    · simp [startsWith, List.isPrefixOf, Ne.symm first.1]
    · simp [startsWith, List.isPrefixOf]
  · cases w with
    | nil => simp [startsWith, List.isPrefixOf, Ne.symm first.2]
    | cons a w => simp [startsWith, List.isPrefixOf]

theorem isWord_x (classes : CharClasses) : classes.isWord 'x' = true :=
  (classes.isWord_ascii 'x' (by decide)).trans (by decide)

theorem Site.apart_ne_x (site : Site classes kind u d v) {c : Char} (next : v.head? = some c) :
    c ≠ 'x' := by
  rintro rfl
  have other := site.apart next
  rw [isWord_x] at other
  contradiction

theorem startsWith_tokenText {pat : Text} (mark : pat = "0x".toList ∨ pat = "#".toList)
    (site : Site classes kind u d v) :
    startsWith pat (tokenText u d v) = startsWith pat (front u) := by
  apply startsWith_append_digits mark site.digits
  intro c next
  rcases back_eq_nil_or v with empty | same
  · rw [empty] at next
    contradiction
  · exact site.apart_ne_x (same.symm.trans next)

theorem isDropped_of_marked (site : Site classes kind u d v) (marked : Marked u) :
    isDropped (lastWord u ++ (d ++ firstWord v)) = true := by
  rw [isDropped, bareToken_site site, isHexNoise, isCounterNoise,
    startsWith_tokenText (.inl rfl) site, startsWith_tokenText (.inr rfl) site]
  rcases marked with literal | counter
  · simp only [literal, Bool.true_or]
  · simp only [counter, Bool.true_or, Bool.or_true]

theorem isDropped_of_run (site : Site classes .run u d v) (noFront : front u = [])
    (noBack : back v = []) : isDropped (lastWord u ++ (d ++ firstWord v)) = true := by
  have token : tokenText u d v = d := by rw [tokenText, noFront, noBack]; simp
  have long : 4 ≤ byteLen d := by
    have := length_le_byteLen d
    have := site.fits.1.1
    omega
  have hex : d.all isAsciiHexdigit = true := List.all_eq_true.mpr site.fits.2
  rw [isDropped, bareToken_site site, token, isHexNoise]
  simp [long, hex]

/-- A token stays that has no mark and is neither a hex number nor a time. -/
theorem isDropped_of_mixed (site : Site classes kind u d v) (unmarked : ¬ Marked u)
    (noHex : ∃ c ∈ tokenText u d v, isAsciiHexdigit c = false)
    (noTime : ∃ c ∈ tokenText u d v, (isAsciiDigit c || c == '.') = false) :
    isDropped (lastWord u ++ (d ++ firstWord v)) = false := by
  obtain ⟨noLiteral, noCounter⟩ := not_or.mp unmarked
  rw [isDropped, bareToken_site site, isHexNoise, isCounterNoise,
    startsWith_tokenText (.inl rfl) site, startsWith_tokenText (.inr rfl) site,
    Bool.eq_false_iff.mpr noLiteral, Bool.eq_false_iff.mpr noCounter,
    List.all_eq_false.mpr (by simpa using noHex), List.all_eq_false.mpr (by simpa using noTime)]
  simp

/-! ## One replacement -/

/-- At a safe place the replacement does not show. -/
theorem normalizeException_of_safe {d' : Text} (old : Site classes kind u d v)
    (new : Site classes kind u d' v) (safe : Safe kind u v) :
    normalizeException (u ++ (d' ++ v)) = normalizeException (u ++ (d ++ v)) := by
  rw [normalizeException_site old, normalizeException_site new]
  apply normalizeTokens_congr (announces_site old) (announces_site new)
  rcases safe with skipped | marked | ⟨rfl, noFront, noBack, -⟩
  · exact .inl skipped
  · exact .inr ⟨isDropped_of_marked old marked, isDropped_of_marked new marked⟩
  · exact .inr ⟨isDropped_of_run old noFront noBack, isDropped_of_run new noFront noBack⟩

/-- Other digits show in a token that stays, if there are more or fewer of them. -/
theorem normalizeException_ne {kind' : NoiseKind} {d' : Text} (old : Site classes kind u d v)
    (new : Site classes kind' u d' v) (unskipped : ¬ Skipped u)
    (kept : isDropped (lastWord u ++ (d' ++ firstWord v)) = false) (other : d'.length ≠ d.length) :
    normalizeException (u ++ (d' ++ v)) ≠ normalizeException (u ++ (d ++ v)) := by
  rw [normalizeException_site old, normalizeException_site new]
  apply normalizeTokens_ne (announces_site old) (announces_site new)
    (Bool.eq_false_iff.mpr unskipped) kept
  · rw [bareToken_site new, tokenText]
    simp [new.digits.1]
  · rw [bareToken_site new, bareToken_site old]
    simp only [tokenText, List.length_append]
    omega

/-! ## Two places in a line -/

variable {kind₂ : NoiseKind} {u₂ d₂ v₂ : Text}

/-- A place that begins behind another one lies behind its digits. -/
theorem Site.exists_between {e : Text} (one : Site classes kind u d v)
    (two : Site classes kind₂ (u ++ e) d₂ v₂) (later : e ≠ [])
    (rest : d ++ v = e ++ (d₂ ++ v₂)) :
    ∃ m, m ≠ [] ∧ e = d ++ m ∧ v = m ++ (d₂ ++ v₂) := by
  have noHex : isAsciiHexdigit (e.getLast later) = false := by
    apply two.before_last_noHex
    rw [List.getLast?_append_of_ne_nil _ later, List.getLast?_eq_some_getLast later]
  have outside : e.getLast later ∉ d := by
    intro member
    rw [one.digits.2 _ member] at noHex
    contradiction
  rcases List.append_eq_append_iff.mp rest with ⟨m, rfl, shape⟩ | ⟨m, rfl, -⟩
  · refine ⟨m, ?_, rfl, shape⟩
    rintro rfl
    exact outside (by simp)
  · exact absurd (List.mem_append_left m (List.getLast_mem later)) outside

theorem Site.digits_unique (one : Site classes kind u d v) (two : Site classes kind₂ u d₂ v₂)
    (rest : d ++ v = d₂ ++ v₂) : d₂ = d ∧ v₂ = v := by
  have ends {kind kind₂ : NoiseKind} {d v m v₂ : Text} (one : Site classes kind u d v)
      (two : Site classes kind₂ u (d ++ m) v₂) (shape : v = m ++ v₂) : m = [] := by
    cases m with
    | nil => rfl
    | cons c m =>
      have noHex := one.apart_noHex (by rw [shape]; rfl : v.head? = some c)
      rw [two.digits.2 c (by simp)] at noHex
      contradiction
  rcases List.append_eq_append_iff.mp rest with ⟨m, rfl, shape⟩ | ⟨m, rfl, shape⟩
  · obtain rfl := ends one two shape
    simp [shape]
  · obtain rfl := ends two one shape
    simp [shape]

/-- The digits of two places are the same, or one place lies behind the other. -/
theorem Site.cases (one : Site classes kind u d v) (two : Site classes kind₂ u₂ d₂ v₂)
    (line : u ++ (d ++ v) = u₂ ++ (d₂ ++ v₂)) :
    (u₂ = u ∧ d₂ = d ∧ v₂ = v) ∨
      (∃ m, m ≠ [] ∧ u = u₂ ++ (d₂ ++ m) ∧ v₂ = m ++ (d ++ v)) ∨
      ∃ m, m ≠ [] ∧ u₂ = u ++ (d ++ m) ∧ v = m ++ (d₂ ++ v₂) := by
  rcases List.append_eq_append_iff.mp line with ⟨e, rfl, rest⟩ | ⟨e, rfl, rest⟩
  · by_cases empty : e = []
    · subst empty
      rw [List.append_nil] at two ⊢
      exact .inl ⟨rfl, one.digits_unique two rest⟩
    · obtain ⟨m, nonempty, rfl, shape⟩ := one.exists_between two empty rest
      exact .inr (.inr ⟨m, nonempty, rfl, shape⟩)
  · by_cases empty : e = []
    · subst empty
      rw [List.append_nil] at one ⊢
      obtain ⟨sameDigits, sameRest⟩ := two.digits_unique one rest
      exact .inl ⟨rfl, sameDigits.symm, sameRest.symm⟩
    · obtain ⟨m, nonempty, rfl, shape⟩ := two.exists_between one empty rest
      exact .inr (.inl ⟨m, nonempty, rfl, shape⟩)

/-! ## Other digits before a place -/

/-- What stands right before digits that have a place. -/
def marks : List Text := ["0x".toList, "[#".toList] ++ numberWords

/-- A mark is cut between a hex digit and a character outside of words at one place only. -/
theorem marks_cut : ∀ mark ∈ marks, ∀ k < mark.length, 0 < k →
    (mark.drop k).head?.any isAsciiAlphanumeric = true ∨
      (mark.take k).getLast?.any (!isAsciiHexdigit ·) = true ∨ mark.take k = "PID".toList := by
  decide

theorem Site.rdropWhile_digits (site : Site classes kind u d v) :
    (u ++ d).rdropWhile isAsciiHexdigit = u := by
  have before : u.rdropWhile isAsciiHexdigit = u := by
    rw [List.rdropWhile_eq_self_iff]
    intro nonempty
    simp [site.before_last_noHex (List.getLast?_eq_some_getLast nonempty)]
  have reversed : ∀ c ∈ d.reverse, isAsciiHexdigit c = true :=
    fun c member => site.digits.2 c (List.mem_reverse.mp member)
  rw [List.rdropWhile, List.reverse_append, List.dropWhile_append_of_pos reversed]
  exact before

theorem Site.not_process (site : Site classes kind u d v) : ¬ "PID".toList <:+ u ++ d := by
  rintro ⟨w, shape⟩
  have whole : (w ++ "PI".toList) ++ ['D'] = u ++ d := by simpa using shape
  have cut : w ++ "PI".toList = u := by
    have dropped := site.rdropWhile_digits
    rw [← whole, List.rdropWhile_concat_pos _ _ _ (by decide)] at dropped
    rwa [List.rdropWhile_eq_self_iff.mpr (by simp; decide)] at dropped
  rcases site.before_last (c := 'I') (by rw [← cut]; simp) with isX | other
  · exact absurd isX (by decide)
  · rw [classes.isWord_ascii 'I' (by decide)] at other
    exact absurd other (by decide)

/-- Behind digits a mark lies wholly in what separates the digits from the place. -/
theorem Site.mark_behind (site : Site classes kind u d v) {mark m : Text} (isMark : mark ∈ marks)
    (nonempty : m ≠ []) (apart : ∀ c, m.head? = some c → classes.isWord c = false)
    (suffix : mark <:+ u ++ (d ++ m)) : mark <:+ m := by
  rw [← List.append_assoc] at suffix
  rcases List.suffix_or_suffix_of_suffix suffix (List.suffix_append (u ++ d) m) with
    within | ⟨p, rfl⟩
  · exact within
  · by_cases empty : p = []
    · simp [empty]
    · have positive := List.length_pos_iff.mpr empty
      have positive' := List.length_pos_iff.mpr nonempty
      have initial : p <:+ u ++ d := by
        obtain ⟨w, shape⟩ := suffix
        rw [← List.append_assoc] at shape
        exact ⟨w, List.append_cancel_right shape⟩
      obtain cut | cut | cut := marks_cut _ isMark p.length (by simp; omega) positive
      · rw [List.drop_left, Option.any_eq_true] at cut
        obtain ⟨c, first, alphanumeric⟩ := cut
        have other := apart c first
        rw [classes.isWord_of_isAsciiAlphanumeric alphanumeric] at other
        contradiction
      · rw [List.take_left, Option.any_eq_true] at cut
        obtain ⟨c, last, noHex⟩ := cut
        have inDigits : d.getLast? = some c := by
          obtain ⟨w, shape⟩ := initial
          rw [← last, ← List.getLast?_append_of_ne_nil u site.digits.1, ← shape,
            List.getLast?_append_of_ne_nil w empty]
        simp [site.digits.2 c (List.mem_of_getLast? inDigits)] at noHex
      · rw [List.take_left] at cut
        exact absurd (cut ▸ initial) site.not_process

theorem EndsApart.behind {m : Text} (nonempty : m ≠ []) {w w' : Text}
    (ends : EndsApart classes (w ++ m)) : EndsApart classes (w' ++ m) := by
  intro c last
  rw [List.getLast?_append_of_ne_nil _ nonempty] at last
  exact ends c (by rw [List.getLast?_append_of_ne_nil _ nonempty, last])

/-- Whether a place begins behind other digits does not depend on these. -/
theorem NoiseKind.Before.behind {d' m : Text} (site : Site classes kind u d v) (nonempty : m ≠ [])
    (apart : ∀ c, m.head? = some c → classes.isWord c = false)
    (before : kind₂.Before classes (u ++ (d ++ m))) : kind₂.Before classes (u ++ (d' ++ m)) := by
  have moved {mark : Text} (isMark : mark ∈ marks) (suffix : mark <:+ u ++ (d ++ m)) :
      mark <:+ u ++ (d' ++ m) := by
    rw [← List.append_assoc]
    exact (site.mark_behind isMark nonempty apart suffix).trans (List.suffix_append (u ++ d') m)
  cases kind₂ with
  | literal =>
    obtain ⟨w, shape, ends⟩ := before
    have within : "0x".toList <:+ m :=
      site.mark_behind (by decide) nonempty apart ⟨w, shape.symm⟩
    obtain ⟨w', rfl⟩ := within
    have later : w' ≠ [] := by
      rintro rfl
      have other := apart '0' rfl
      rw [classes.isWord_of_isAsciiAlphanumeric (by decide)] at other
      contradiction
    have whole : (u ++ d ++ w') ++ "0x".toList = w ++ "0x".toList := by simpa using shape
    rw [← List.append_cancel_right whole] at ends
    exact ⟨u ++ d' ++ w', by simp, ends.behind later⟩
  | run =>
    rw [NoiseKind.Before, ← List.append_assoc] at before ⊢
    exact before.behind nonempty
  | counter => exact moved (by decide) before
  | number =>
    obtain ⟨word, isWord, suffix⟩ := before
    exact ⟨word, isWord, moved (List.mem_append_right _ isWord) suffix⟩

theorem AfterNumberWord.behind {d' m : Text} (site : Site classes kind u d v) (nonempty : m ≠ [])
    (apart : ∀ c, m.head? = some c → classes.isWord c = false)
    (after : AfterNumberWord (u ++ (d ++ m))) : AfterNumberWord (u ++ (d' ++ m)) :=
  @NoiseKind.Before.behind classes kind u d v .number d' m site nonempty apart after

/-! ## Safe places stay safe -/

variable {m t d' : Text}

theorem Site.apart_between (site : Site classes kind u d (m ++ t)) (nonempty : m ≠ []) :
    ∀ c, m.head? = some c → classes.isWord c = false := by
  intro c first
  exact site.apart (by rw [List.head?_append_of_ne_nil _ nonempty, first])

/-- Behind a blank the tokens do not depend on the digits. -/
theorem Site.words_behind_blank {t₁ t₂ : Text} {blank : Char}
    (site : Site classes kind u d (t₁ ++ blank :: t₂ ++ t)) (isBlank : isWhitespace blank = true)
    (visible : ∀ c ∈ t₂, isWhitespace c = false) :
    lastWord (u ++ (d ++ (t₁ ++ blank :: t₂))) = t₂ ∧
      skips false (splitWhitespace (beforeLastWord (u ++ (d ++ (t₁ ++ blank :: t₂))))) =
        skips false (splitWhitespace (behindFirstWord (t₁ ++ [blank]))) := by
  have shape : u ++ (d ++ (t₁ ++ blank :: t₂)) = (u ++ (d ++ t₁)) ++ blank :: t₂ := by simp
  have shape' : u ++ (d ++ t₁) ++ [blank] = u ++ (d ++ (t₁ ++ [blank])) := by simp
  obtain ⟨last, before⟩ := lastWord_append_blank isBlank (u ++ (d ++ t₁)) visible
  refine ⟨shape ▸ last, ?_⟩
  have quiet := announces_site site
  rw [List.append_assoc, List.cons_append, firstWord_append_blank isBlank t₁ (t₂ ++ t) []] at quiet
  rw [shape, before, shape', splitWhitespace_digits site.digits.1 site.visible,
    skips_append _ _ quiet]

theorem Site.words_behind_visible (site : Site classes kind u d v)
    (visible : ∀ c ∈ m, isWhitespace c = false) :
    front (u ++ (d ++ m)) = front u ++ (d ++ m) ∧
      beforeLastWord (u ++ (d ++ m)) = beforeLastWord u := by
  have visible' : ∀ c ∈ d ++ m, isWhitespace c = false := by
    intro c member
    exact (List.mem_append.mp member).elim (site.visible c) (visible c)
  refine ⟨front_append visible' ?_ u, (lastWord_append visible' u).2⟩
  intro c first
  rw [List.head?_append_of_ne_nil _ site.digits.1] at first
  exact site.plain c (List.mem_of_head? first)

/-- A place behind other digits is safe if it was. -/
theorem Safe.behind (old : Site classes kind u d (m ++ t)) (new : Site classes kind u d' (m ++ t))
    (nonempty : m ≠ []) (safe : Safe kind₂ (u ++ (d ++ m)) v₂) :
    Safe kind₂ (u ++ (d' ++ m)) v₂ := by
  have apart := old.apart_between nonempty
  have after (other : ¬ AfterNumberWord (u ++ (d ++ m))) : ¬ AfterNumberWord (u ++ (d' ++ m)) :=
    fun is => other (is.behind new nonempty apart)
  rcases visible_or_blank m with visible | ⟨t₁, blank, t₂, rfl, isBlank, visible⟩
  · obtain ⟨front, before⟩ := old.words_behind_visible visible
    obtain ⟨front', before'⟩ := new.words_behind_visible visible
    have noX : ∀ c, m.head? = some c → c ≠ 'x' := by
      rintro c first rfl
      have other := apart 'x' first
      rw [isWord_x] at other
      contradiction
    rcases safe with skipped | marked | ⟨-, empty, -, -⟩
    · exact .inl (by rwa [Skipped, before', ← before])
    · refine .inr (.inl ?_)
      rw [Marked, front, startsWith_append_digits (.inl rfl) old.digits noX,
        startsWith_append_digits (.inr rfl) old.digits noX] at marked
      rwa [Marked, front', startsWith_append_digits (.inl rfl) new.digits noX,
        startsWith_append_digits (.inr rfl) new.digits noX]
    · rw [front] at empty
      exact absurd (List.append_eq_nil_iff.mp (List.append_eq_nil_iff.mp empty).2).1 old.digits.1
  · obtain ⟨last, skipping⟩ := old.words_behind_blank isBlank visible
    obtain ⟨last', skipping'⟩ := new.words_behind_blank isBlank visible
    have same : front (u ++ (d' ++ (t₁ ++ blank :: t₂))) = front (u ++ (d ++ (t₁ ++ blank :: t₂))) := by
      rw [front, front, last, last']
    rcases safe with skipped | marked | ⟨isRun, empty, noBack, other⟩
    · exact .inl (by rwa [Skipped, skipping', ← skipping])
    · exact .inr (.inl (by rwa [Marked, same]))
    · exact .inr (.inr ⟨isRun, same.trans empty, noBack, after other⟩)

theorem back_behind_visible (site : Site classes kind u d v)
    (visible : ∀ c ∈ m, isWhitespace c = false) : back (m ++ (d ++ v)) ≠ [] := by
  intro empty
  have bracket := List.rdropWhile_eq_nil_iff.mp empty
  obtain ⟨c, member⟩ := List.exists_mem_of_ne_nil d site.digits.1
  have isOne := bracket c (by
    rw [firstWord_append visible, firstWord_append site.visible]
    simp [member])
  rw [site.plain c member] at isOne
  contradiction

/-- A place before other digits is safe if it was. -/
theorem Safe.before (old : Site classes kind u d v) (safe : Safe kind₂ u₂ (m ++ (d ++ v))) :
    Safe kind₂ u₂ (m ++ (d' ++ v)) := by
  rcases safe with skipped | marked | ⟨isRun, noFront, noBack, other⟩
  · exact .inl skipped
  · exact .inr (.inl marked)
  · refine .inr (.inr ⟨isRun, noFront, ?_, other⟩)
    rcases visible_or_blank m with visible | ⟨t₁, blank, t₂, rfl, isBlank, -⟩
    · exact absurd noBack (back_behind_visible old visible)
    · rw [back, List.append_assoc, List.cons_append] at noBack ⊢
      rw [← noBack, firstWord_append_blank isBlank t₁ (t₂ ++ (d' ++ v)) (t₂ ++ (d ++ v))]

/-- Safe digits are safe whatever kind they are of. -/
theorem Safe.of_kind (before : kind₂.Before classes u) (safe : Safe kind u v) :
    Safe kind₂ u v := by
  rcases safe with skipped | marked | ⟨-, noFront, noBack, other⟩
  · exact .inl skipped
  · exact .inr (.inl marked)
  · refine .inr (.inr ⟨?_, noFront, noBack, other⟩)
    cases kind₂ with
    | run => rfl
    | literal =>
      obtain ⟨w, rfl, -⟩ := before
      rw [front_literal] at noFront
      simp at noFront
    | counter =>
      obtain ⟨w, rfl⟩ := before
      have isMember := @front_counter w
      rw [noFront] at isMember
      contradiction
    | number => exact absurd before other

/-- Every place of the line is safe. -/
def AllSafe (classes : CharClasses) (line : Text) : Prop :=
  ∀ kind u d v, line = u ++ (d ++ v) → Site classes kind u d v → Safe kind u v

/-- One replacement at a safe place keeps all places safe. -/
theorem AllSafe.replaces {line line' : Text} (safe : AllSafe classes line)
    (step : Replaces classes line line') : AllSafe classes line' := by
  obtain ⟨kind, u, d, d', v, old, new⟩ := step
  intro kind₂ u₂ d₂ v₂ line site
  rcases new.cases site line with ⟨rfl, rfl, rfl⟩ | ⟨m, nonempty, rfl, rfl⟩ |
    ⟨m, nonempty, rfl, rfl⟩
  · exact (safe kind _ d _ rfl old).of_kind site.before
  · have before : Site classes kind₂ u₂ d₂ (m ++ (d ++ v)) := by
      refine ⟨site.before, site.fits, ?_⟩
      have behind := site.behind
      rwa [List.head?_append_of_ne_nil _ nonempty] at behind ⊢
    exact (safe kind₂ u₂ d₂ _ (by simp) before).before old
  · have behind : Site classes kind₂ (u ++ (d ++ m)) d₂ v₂ :=
      ⟨site.before.behind new nonempty (new.apart_between nonempty), site.fits, site.behind⟩
    exact (safe kind₂ _ d₂ v₂ (by simp) behind).behind old new nonempty

/-! ## Places that show -/

/-- Replacements do not change the exception type. -/
def NoiseFree (classes : CharClasses) (line : Text) : Prop :=
  ∀ line', Relation.ReflTransGen (Replaces classes) line line' →
    normalizeException line' = normalizeException line

/-- Eight letters, or nine when eight digits stood there. -/
def letters (d : Text) : Text := List.replicate (if d.length = 8 then 9 else 8) 'a'

theorem letters_spec (d : Text) :
    'a' ∈ letters d ∧ (letters d).length ≠ d.length ∧ NoiseKind.run.Fits (letters d) := by
  have hex (n : ℕ) : ∀ c ∈ List.replicate n 'a', isAsciiHexdigit c = true := by
    intro c member
    rw [List.eq_of_mem_replicate member]
    decide
  unfold letters
  split_ifs with eight
  · exact ⟨by simp, by simp [eight], by simp, hex 9⟩
  · exact ⟨by simp, by simp; omega, by simp, hex 8⟩

/-- A line that a replacement changes, behind replacements of the same digits. -/
theorem not_noiseFree {kind' : NoiseKind} (old : Site classes kind u d v)
    (reached : Relation.ReflTransGen (Replaces classes) (u ++ (d ++ v)) (u ++ (d' ++ v)))
    (new : Site classes kind' u d' v) (unskipped : ¬ Skipped u)
    (kept : isDropped (lastWord u ++ (d' ++ firstWord v)) = false)
    (other : d'.length ≠ d.length) : ¬ NoiseFree classes (u ++ (d ++ v)) :=
  fun free => normalizeException_ne old new unskipped kept other (free _ reached)

/-- Outside of the brackets stands no hex digit next to the digits. -/
theorem Site.exists_noHex (site : Site classes kind u d v) (more : front u ≠ [] ∨ back v ≠ []) :
    ∃ c ∈ tokenText u d v, isAsciiHexdigit c = false := by
  rcases more with nonempty | nonempty
  · have last := (front_eq_nil_or u).resolve_left nonempty
    rw [List.getLast?_eq_some_getLast nonempty] at last
    exact ⟨_, List.mem_append_left _ (List.getLast_mem nonempty), site.before_last_noHex last.symm⟩
  · have first := (back_eq_nil_or v).resolve_left nonempty
    rw [List.head?_eq_some_head nonempty] at first
    exact ⟨_, List.mem_append_right _ (List.mem_append_right _ (List.head_mem nonempty)),
      site.apart_noHex first.symm⟩

/-- A run shows if the token holds more than it. -/
theorem not_noiseFree_of_run {d₀ : Text} (old : Site classes kind u d v)
    (reached : Relation.ReflTransGen (Replaces classes) (u ++ (d ++ v)) (u ++ (d₀ ++ v)))
    (start : Site classes .run u d₀ v) (unskipped : ¬ Skipped u) (unmarked : ¬ Marked u)
    (more : front u ≠ [] ∨ back v ≠ []) : ¬ NoiseFree classes (u ++ (d ++ v)) := by
  obtain ⟨isMember, other, fits⟩ := letters_spec d
  have new : Site classes .run u (letters d) v := ⟨start.before, fits, start.behind⟩
  apply not_noiseFree old (reached.tail (.site .run u d₀ (letters d) v start new)) new unskipped
  · apply isDropped_of_mixed new unmarked (new.exists_noHex more)
    exact ⟨'a', by simp [tokenText, isMember], by decide⟩
  · exact other

/-- Behind a mark that the token does not begin with, one more digit shows. -/
theorem not_noiseFree_of_more {c : Char} (old : Site classes kind u d v)
    (new : Site classes kind u (c :: d) v) (unskipped : ¬ Skipped u) (unmarked : ¬ Marked u)
    {e : Char} (isMember : e ∈ front u) (noHex : isAsciiHexdigit e = false) (noPoint : e ≠ '.') :
    ¬ NoiseFree classes (u ++ (d ++ v)) := by
  have inToken : e ∈ tokenText u (c :: d) v := List.mem_append_left _ isMember
  apply not_noiseFree old (.single (.site kind u d (c :: d) v old new)) new unskipped
  · apply isDropped_of_mixed new unmarked ⟨e, inToken, noHex⟩ ⟨e, inToken, ?_⟩
    simp only [isAsciiHexdigit, Bool.or_eq_false_iff] at noHex
    simp [noHex.1, noPoint]
  · simp

def eightDigits : Text := "12345678".toList

theorem eightDigits_fits : NoiseKind.run.Fits eightDigits ∧ NoiseKind.number.Fits eightDigits :=
  ⟨⟨by decide, forall_mem_of_all (by decide)⟩, by decide, forall_mem_of_all (by decide)⟩

/-- A token that is a short number stays. -/
theorem isDropped_short (site : Site classes kind u d v) (noFront : front u = [])
    (noBack : back v = []) (short : d = "1".toList ∨ d = "11".toList) :
    isDropped (lastWord u ++ (d ++ firstWord v)) = false := by
  rw [isDropped, bareToken_site site, tokenText, noFront, noBack]
  rcases short with rfl | rfl <;> decide

theorem short_fits {d : Text} (short : d = "1".toList ∨ d = "11".toList) :
    NoiseKind.number.Fits d := by
  rcases short with rfl | rfl <;> exact ⟨by decide, forall_mem_of_all (by decide)⟩

/-- At a place that is not safe some replacements show. -/
theorem not_noiseFree_of_not_safe (site : Site classes kind u d v) (unsafeSite : ¬ Safe kind u v) :
    ¬ NoiseFree classes (u ++ (d ++ v)) := by
  obtain ⟨unskipped, rest⟩ := not_or.mp unsafeSite
  obtain ⟨unmarked, noRun⟩ := not_or.mp rest
  cases kind with
  | literal =>
    obtain ⟨w, rfl, -⟩ := site.before
    have new : Site classes .literal (w ++ "0x".toList) ('0' :: d) v :=
      ⟨site.before, ⟨by simp, List.forall_mem_cons.mpr ⟨by decide, site.fits.2⟩⟩, site.behind⟩
    have isMember : 'x' ∈ front (w ++ "0x".toList) := by
      rw [front_literal]
      simp
    exact not_noiseFree_of_more site new unskipped unmarked isMember (by decide) (by decide)
  | counter =>
    obtain ⟨w, rfl⟩ := site.before
    have new : Site classes .counter (w ++ "[#".toList) ('1' :: d) v :=
      ⟨site.before, ⟨by simp, List.forall_mem_cons.mpr ⟨by decide, site.fits.2⟩⟩, site.behind⟩
    exact not_noiseFree_of_more site new unskipped unmarked front_counter (by decide) (by decide)
  | run =>
    by_cases more : front u ≠ [] ∨ back v ≠ []
    · exact not_noiseFree_of_run site .refl site unskipped unmarked more
    · obtain ⟨noFront, noBack⟩ := not_or.mp more
      have empty : front u = [] := not_not.mp noFront
      have empty' : back v = [] := not_not.mp noBack
      have after : AfterNumberWord u := by
        by_contra other
        exact noRun ⟨rfl, empty, empty', other⟩
      -- a run of decimal digits behind the word is a number, and this may become a short one
      have first : Site classes .run u eightDigits v :=
        ⟨site.before, eightDigits_fits.1, site.behind⟩
      have second : Site classes .number u eightDigits v :=
        ⟨after, eightDigits_fits.2, site.behind⟩
      have third : Site classes .number u "1".toList v :=
        ⟨after, short_fits (.inl rfl), site.behind⟩
      have long := site.fits.1.1
      refine not_noiseFree site (.tail (.single (.site _ u d _ v site first))
        (.site _ u _ _ v second third)) third unskipped
        (isDropped_short third empty empty' (.inl rfl)) ?_
      simp
      omega
  | number =>
    have empty : front u = [] := AfterNumberWord.front_eq_nil site.before
    by_cases empty' : back v = []
    · obtain ⟨d', short, other⟩ : ∃ d' : Text, (d' = "1".toList ∨ d' = "11".toList) ∧
          d'.length ≠ d.length := by
        by_cases single : d.length = 1
        · exact ⟨_, .inr rfl, by simp [single]⟩
        · exact ⟨_, .inl rfl, by simpa using Ne.symm single⟩
      have new : Site classes .number u d' v := ⟨site.before, short_fits short, site.behind⟩
      exact not_noiseFree site (.single (.site _ u d d' v site new)) new unskipped
        (isDropped_short new empty empty' short) other
    · -- the number may become a run
      have first : Site classes .number u eightDigits v :=
        ⟨site.before, eightDigits_fits.2, site.behind⟩
      have ends : EndsApart classes u := by
        intro c last
        obtain rfl := Option.some.inj ((AfterNumberWord.last site.before).symm.trans last)
        exact not_isWord_of_ascii classes (by decide) (by decide)
      have second : Site classes .run u eightDigits v := ⟨ends, eightDigits_fits.1, site.behind⟩
      exact not_noiseFree_of_run site (.single (.site _ u d _ v site first)) second unskipped
        unmarked (.inr empty')

/-! ## Noise that does not show -/

theorem normalizeException_of_allSafe {line line' : Text} (safe : AllSafe classes line)
    (reached : Relation.ReflTransGen (Replaces classes) line line') :
    AllSafe classes line' ∧ normalizeException line' = normalizeException line := by
  induction reached with
  | refl => exact ⟨safe, rfl⟩
  | tail _ step ih =>
    obtain ⟨safe, same⟩ := ih
    refine ⟨safe.replaces step, ?_⟩
    obtain ⟨kind, u, d, d', v, old, new⟩ := step
    rw [← same]
    exact normalizeException_of_safe old new (safe kind u d v rfl old)

/-- The exception type is free of noise exactly for the lines whose places are all safe. -/
theorem noiseFree_iff (classes : CharClasses) (line : Text) :
    NoiseFree classes line ↔
      ∀ kind u d v, line = u ++ (d ++ v) → Site classes kind u d v → Safe kind u v := by
  constructor
  · rintro free kind u d v rfl site
    by_contra unsafeSite
    exact not_noiseFree_of_not_safe site unsafeSite free
  · intro safe line' reached
    exact (normalizeException_of_allSafe safe reached).2

/-- The counter of an oops stays when it is attached to a word. -/
theorem attached_counter_kept : ¬ NoiseFree .ascii "Oops[#1]:".toList := by
  intro free
  have old : Site .ascii .counter "Oops[#".toList "1".toList "]:".toList :=
    ⟨⟨"Oops".toList, rfl⟩, ⟨by decide, forall_mem_of_all (by decide)⟩, rfl⟩
  have new : Site .ascii .counter "Oops[#".toList "2".toList "]:".toList :=
    ⟨⟨"Oops".toList, rfl⟩, ⟨by decide, forall_mem_of_all (by decide)⟩, rfl⟩
  have same := free "Oops[#2]:".toList (.single (.site _ _ _ _ _ old new))
  exact absurd same (by decide +kernel)

end UcrashReport.Signature
