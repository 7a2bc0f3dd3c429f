import UcrashReport.Common.ExceptionTokens
import UcrashReport.Rust.Regex

/-! # Noise in an exception line

Digits that differ between devices stand in four places: in a hex literal, in a long run of hex
digits, in the counter of an oops and behind the words that announce a CPU or a process. A place is
the text before and behind the digits; whether they are dropped depends on the place alone.
-/

namespace UcrashReport.Signature

open Rust Rust.Text

/-! ## Places -/

inductive NoiseKind
  | literal
  | run
  | counter
  | number
deriving DecidableEq

/-- The words that announce a decimal number. -/
def numberWords : List Text := ["CPU: ".toList, "PID: ".toList, "CPU ".toList]

def AfterNumberWord (u : Text) : Prop := ∃ word ∈ numberWords, word <:+ u

variable (classes : CharClasses)

/-- No word goes on where the text ends. -/
def EndsApart (u : Text) : Prop := ∀ c, u.getLast? = some c → classes.isWord c = false

namespace NoiseKind

/-- The digits that may stand in such a place. -/
def Fits : NoiseKind → Text → Prop
  | literal, d => d ≠ [] ∧ ∀ c ∈ d, isAsciiHexdigit c = true
  | run, d => (8 ≤ d.length ∧ d.length ≤ 16) ∧ ∀ c ∈ d, isAsciiHexdigit c = true
  | counter, d => d ≠ [] ∧ ∀ c ∈ d, isAsciiDigit c = true
  | number, d => d ≠ [] ∧ ∀ c ∈ d, isAsciiDigit c = true

def Before : NoiseKind → Text → Prop
  | literal, u => ∃ w, u = w ++ "0x".toList ∧ EndsApart classes w
  | run, u => EndsApart classes u
  | counter, u => "[#".toList <:+ u
  | number, u => AfterNumberWord u

def Behind : NoiseKind → Option Char → Prop
  | counter, next => next = some ']'
  | _, next => ∀ c, next = some c → classes.isWord c = false

end NoiseKind

/-- Noise of a kind between two texts. -/
structure Site (kind : NoiseKind) (u d v : Text) : Prop where
  before : kind.Before classes u
  fits : kind.Fits d
  behind : kind.Behind classes v.head?

/-- One replacement in a line. -/
inductive Replaces : Text → Text → Prop
  | site (kind : NoiseKind) (u d d' v : Text) (old : Site classes kind u d v)
      (new : Site classes kind u d' v) : Replaces (u ++ (d ++ v)) (u ++ (d' ++ v))

/-! ## The token of a place -/

def isVisible (c : Char) : Bool := !isWhitespace c

def isBracket (c : Char) : Bool := c == '[' || c == ']' || c == ','

/-- The token before the digits, and the text before the token. -/
def lastWord (u : Text) : Text := u.rtakeWhile isVisible

def beforeLastWord (u : Text) : Text := u.rdropWhile isVisible

def firstWord (v : Text) : Text := v.takeWhile isVisible

def behindFirstWord (v : Text) : Text := v.dropWhile isVisible

/-- What remains of the token before and behind the digits without the outer brackets. -/
def front (u : Text) : Text := (lastWord u).dropWhile isBracket

def back (v : Text) : Text := (firstWord v).rdropWhile isBracket

/-- A noise word takes the token along. -/
def Skipped (u : Text) : Prop := skips false (splitWhitespace (beforeLastWord u)) = true

/-- The token begins like a literal or a counter. -/
def Marked (u : Text) : Prop :=
  startsWith "0x".toList (front u) = true ∨ startsWith "#".toList (front u) = true

/-- Places whose digits do not show, whatever they are. -/
def Safe (kind : NoiseKind) (u v : Text) : Prop :=
  Skipped u ∨ Marked u ∨ kind = .run ∧ front u = [] ∧ back v = [] ∧ ¬ AfterNumberWord u

/-! ## Ends of words -/

theorem beforeLastWord_append_lastWord (u : Text) : beforeLastWord u ++ lastWord u = u := by
  rw [beforeLastWord, lastWord, List.rdropWhile, List.rtakeWhile, ← List.reverse_append,
    List.takeWhile_append_dropWhile, List.reverse_reverse]

theorem lastWord_visible (u : Text) : ∀ c ∈ lastWord u, isWhitespace c = false := by
  intro c member
  simpa [isVisible] using List.mem_rtakeWhile_imp member

theorem firstWord_visible (v : Text) : ∀ c ∈ firstWord v, isWhitespace c = false := by
  intro c member
  simpa [isVisible] using List.mem_takeWhile_imp member

/-- Visible characters belong to the last word. -/
theorem lastWord_append {t : Text} (visible : ∀ c ∈ t, isWhitespace c = false) (u : Text) :
    lastWord (u ++ t) = lastWord u ++ t ∧ beforeLastWord (u ++ t) = beforeLastWord u := by
  induction t using List.reverseRecOn with
  | nil => simp
  | append_singleton t c ih =>
    have here : isVisible c = true := by simp [isVisible, visible c (by simp)]
    obtain ⟨word, before⟩ := ih fun d member => visible d (List.mem_append_left [c] member)
    rw [← List.append_assoc, lastWord, beforeLastWord, List.rtakeWhile_concat_pos _ _ _ here,
      List.rdropWhile_concat_pos _ _ _ here]
    exact ⟨by rw [← lastWord, word, List.append_assoc], before⟩

/-- Behind a blank the last word begins anew. -/
theorem lastWord_append_blank {blank : Char} (isBlank : isWhitespace blank = true) (u : Text)
    {t : Text} (visible : ∀ c ∈ t, isWhitespace c = false) :
    lastWord (u ++ blank :: t) = t ∧ beforeLastWord (u ++ blank :: t) = u ++ [blank] := by
  have shape : u ++ blank :: t = (u ++ [blank]) ++ t := by simp
  have hidden : ¬ isVisible blank = true := by simp [isVisible, isBlank]
  obtain ⟨word, before⟩ := lastWord_append visible (u ++ [blank])
  rw [shape, word, before, lastWord, beforeLastWord, List.rtakeWhile_concat_neg _ _ _ hidden,
    List.rdropWhile_concat_neg _ _ _ hidden]
  simp

theorem firstWord_append {t : Text} (visible : ∀ c ∈ t, isWhitespace c = false) (v : Text) :
    firstWord (t ++ v) = t ++ firstWord v := by
  apply List.takeWhile_append_of_pos
  intro c member
  simp [isVisible, visible c member]

theorem firstWord_append_blank {blank : Char} (isBlank : isWhitespace blank = true) (t v w : Text) :
    firstWord (t ++ blank :: v) = firstWord (t ++ blank :: w) := by
  have hidden : ¬ isVisible blank = true := by simp [isVisible, isBlank]
  induction t with
  | nil => simp [firstWord, List.takeWhile_cons_of_neg hidden]
  | cons c t ih =>
    rw [firstWord, firstWord, List.cons_append, List.cons_append, List.takeWhile_cons,
      List.takeWhile_cons]
    split_ifs
    · exact congrArg (c :: ·) ih
    · rfl

/-- A text without blanks, or the last blank of it. -/
theorem visible_or_blank (t : Text) :
    (∀ c ∈ t, isWhitespace c = false) ∨
      ∃ t₁ blank t₂, t = t₁ ++ blank :: t₂ ∧ isWhitespace blank = true ∧
        ∀ c ∈ t₂, isWhitespace c = false := by
  induction t with
  | nil => exact .inl fun c member => nomatch member
  | cons c t ih =>
    rcases ih with visible | ⟨t₁, blank, t₂, rfl, isBlank, visible⟩
    · cases here : isWhitespace c with
      | true => exact .inr ⟨[], c, t, rfl, here, visible⟩
      | false => exact .inl (by simpa [here] using visible)
    · exact .inr ⟨c :: t₁, blank, t₂, rfl, isBlank, visible⟩

/-! ## The tokens of a line -/

theorem splitWhitespace_word {before word behind : Text} (nonempty : word ≠ [])
    (visible : ∀ c ∈ word, isWhitespace c = false)
    (ends : ∀ c, before.getLast? = some c → isWhitespace c = true)
    (starts : ∀ c, behind.head? = some c → isWhitespace c = true) :
    splitWhitespace (before ++ (word ++ behind)) =
      splitWhitespace before ++ word :: splitWhitespace behind := by
  have nothing : splitWhitespace [] = [] := rfl
  have tail : splitWhitespace (word ++ behind) = word :: splitWhitespace behind := by
    cases behind with
    | nil => rw [List.append_nil, splitWhitespace_of_visible nonempty visible, nothing]
    | cons c behind =>
      have blank := starts c rfl
      have alone := splitWhitespace_append_cons blank [] behind
      rw [List.nil_append, nothing, List.nil_append] at alone
      rw [splitWhitespace_append_cons blank, splitWhitespace_of_visible nonempty visible, alone]
      rfl
  rcases List.eq_nil_or_concat before with rfl | ⟨before, c, rfl⟩
  · rw [List.nil_append, tail, nothing, List.nil_append]
  · rw [List.concat_eq_append] at ends ⊢
    have blank := ends c (by simp)
    have alone := splitWhitespace_append_cons blank before []
    rw [nothing, List.append_nil] at alone
    rw [List.append_assoc, List.singleton_append, splitWhitespace_append_cons blank, tail, alone]

/-- The token that holds the digits stands between the other tokens. -/
theorem splitWhitespace_digits {d : Text} (nonempty : d ≠ [])
    (visible : ∀ c ∈ d, isWhitespace c = false) (u v : Text) :
    splitWhitespace (u ++ (d ++ v)) =
      splitWhitespace (beforeLastWord u) ++
        (lastWord u ++ (d ++ firstWord v)) :: splitWhitespace (behindFirstWord v) := by
  have whole : u ++ (d ++ v) = beforeLastWord u ++
      ((lastWord u ++ (d ++ firstWord v)) ++ behindFirstWord v) := by
    conv_lhs => rw [← beforeLastWord_append_lastWord u,
      ← @List.takeWhile_append_dropWhile _ isVisible v]
    simp [firstWord, behindFirstWord]
  rw [whole]
  apply splitWhitespace_word
  · simp [nonempty]
  · intro c member
    rw [List.mem_append, List.mem_append] at member
    rcases member with inLast | inDigits | inFirst
    · exact lastWord_visible u c inLast
    · exact visible c inDigits
    · exact firstWord_visible v c inFirst
  · intro c last
    have nonempty : beforeLastWord u ≠ [] := by
      intro empty
      rw [empty] at last
      contradiction
    have hidden := List.rdropWhile_last_not isVisible u nonempty
    rw [List.getLast?_eq_some_getLast nonempty] at last
    obtain rfl := Option.some.inj last
    simpa [isVisible, beforeLastWord] using hidden
  · intro c first
    have hidden := List.head?_dropWhile_not isVisible v
    rw [behindFirstWord] at first
    rw [first] at hidden
    simpa [isVisible] using hidden

theorem bareToken_digits {d : Text} (nonempty : d ≠ []) (plain : ∀ c ∈ d, isBracket c = false)
    (u v : Text) : bareToken (lastWord u ++ (d ++ firstWord v)) = front u ++ (d ++ back v) := by
  obtain ⟨c, cs, rfl⟩ := List.exists_cons_of_ne_nil nonempty
  have first : isBracket c = false := plain c List.mem_cons_self
  have start : (lastWord u ++ (c :: cs ++ firstWord v)).dropWhile isBracket =
      front u ++ (c :: cs ++ firstWord v) := by
    rw [List.dropWhile_append, front]
    split_ifs with blank
    · rw [List.isEmpty_iff.mp blank, List.cons_append, List.dropWhile_cons_of_neg (by simp [first])]
      rfl
    · rfl
  have finish (s : Text) : (s ++ (c :: cs ++ firstWord v)).rdropWhile isBracket =
      s ++ (c :: cs ++ back v) := by
    obtain ⟨ds, d, shape⟩ : ∃ ds d, c :: cs = ds ++ [d] := by
      rcases List.eq_nil_or_concat (c :: cs) with empty | ⟨ds, d, shape⟩
      · contradiction
      · exact ⟨ds, d, by rw [shape, List.concat_eq_append]⟩
    have last : isBracket d = false := plain d (by rw [shape]; simp)
    rw [shape, back]
    unfold List.rdropWhile
    rw [List.reverse_append, List.reverse_append, List.append_assoc, List.dropWhile_append]
    split_ifs with blank
    · simp [List.isEmpty_iff.mp blank, last]
    · simp
  exact (congrArg (List.rdropWhile isBracket) start).trans (finish (front u))

/-! ## What stands around the digits -/

theorem not_isWord_of_ascii {c : Char} (isAscii : c.toNat < 128)
    (other : (isAsciiAlphanumeric c || c == '_') = false) : classes.isWord c = false :=
  (classes.isWord_ascii c isAscii).trans other

variable {classes}

theorem isBracket_of_isAsciiHexdigit {c : Char} (digit : isAsciiHexdigit c = true) :
    isBracket c = false := by
  rw [Bool.eq_false_iff]
  intro bracket
  simp only [isBracket, Bool.or_eq_true, beq_iff_eq] at bracket
  rcases bracket with (rfl | rfl) | rfl <;> exact absurd digit (by decide)

theorem isAsciiHexdigit_of_isAsciiDigit {c : Char} (digit : isAsciiDigit c = true) :
    isAsciiHexdigit c = true := by
  simp [isAsciiHexdigit, digit]

theorem AfterNumberWord.last {u : Text} (after : AfterNumberWord u) : u.getLast? = some ' ' := by
  obtain ⟨word, member, before, rfl⟩ := after
  simp only [numberWords, List.mem_cons, List.not_mem_nil, or_false] at member
  rcases member with rfl | rfl | rfl <;> simp

/-- Only a whole number of brackets stands before the token of the digits. -/
theorem front_append {t : Text} (visible : ∀ c ∈ t, isWhitespace c = false)
    (plain : ∀ c, t.head? = some c → isBracket c = false) (u : Text) :
    front (u ++ t) = front u ++ t := by
  rw [front, (lastWord_append visible u).1, List.dropWhile_append, front]
  split_ifs with blank
  · rw [List.isEmpty_iff.mp blank, List.nil_append]
    cases t with
    | nil => rfl
    | cons c t => exact List.dropWhile_cons_of_neg (by simp [plain c rfl])
  · rfl

theorem front_eq_nil_or (u : Text) : front u = [] ∨ (front u).getLast? = u.getLast? := by
  by_cases empty : front u = []
  · exact .inl empty
  · refine .inr ?_
    have suffix : front u <:+ u :=
      (List.dropWhile_suffix isBracket).trans (List.rtakeWhile_suffix isVisible u)
    obtain ⟨before, shape⟩ := suffix
    conv_rhs => rw [← shape]
    rw [List.getLast?_append_of_ne_nil _ empty]

theorem back_eq_nil_or (v : Text) : back v = [] ∨ (back v).head? = v.head? := by
  by_cases empty : back v = []
  · exact .inl empty
  · refine .inr ?_
    have initial : back v <+: v :=
      (List.rdropWhile_prefix isBracket (firstWord v)).trans (List.takeWhile_prefix isVisible)
    obtain ⟨behind, shape⟩ := initial
    conv_rhs => rw [← shape]
    rw [List.head?_append_of_ne_nil _ empty]

namespace Site

variable {kind : NoiseKind} {u d v : Text}

theorem digits (site : Site classes kind u d v) :
    d ≠ [] ∧ ∀ c ∈ d, isAsciiHexdigit c = true := by
  have fits := site.fits
  cases kind with
  | literal => exact fits
  | run =>
    refine ⟨?_, fits.2⟩
    rintro rfl
    exact absurd fits.1.1 (by decide)
  | counter => exact ⟨fits.1, fun c member => isAsciiHexdigit_of_isAsciiDigit (fits.2 c member)⟩
  | number => exact ⟨fits.1, fun c member => isAsciiHexdigit_of_isAsciiDigit (fits.2 c member)⟩

theorem visible (site : Site classes kind u d v) : ∀ c ∈ d, isWhitespace c = false :=
  fun c member => isWhitespace_of_isAsciiHexdigit (site.digits.2 c member)

theorem plain (site : Site classes kind u d v) : ∀ c ∈ d, isBracket c = false :=
  fun c member => isBracket_of_isAsciiHexdigit (site.digits.2 c member)

/-- No word goes on behind the digits. -/
theorem apart (site : Site classes kind u d v) {c : Char} (next : v.head? = some c) :
    classes.isWord c = false := by
  have behind := site.behind
  cases kind with
  | literal => exact behind c next
  | run => exact behind c next
  | number => exact behind c next
  | counter =>
    obtain rfl := Option.some.inj (next.symm.trans behind)
    exact not_isWord_of_ascii classes (by decide) (by decide)

theorem before_last (site : Site classes kind u d v) {c : Char} (last : u.getLast? = some c) :
    c = 'x' ∨ classes.isWord c = false := by
  have before := site.before
  cases kind with
  | literal =>
    obtain ⟨w, rfl, -⟩ := before
    have same : some 'x' = some c := (List.getLast?_append_of_ne_nil w (by simp)).symm.trans last
    exact .inl (Option.some.inj same).symm
  | run => exact .inr (before c last)
  | counter =>
    obtain ⟨w, rfl⟩ := before
    have same : some '#' = some c := (List.getLast?_append_of_ne_nil w (by simp)).symm.trans last
    obtain rfl := Option.some.inj same
    exact .inr (not_isWord_of_ascii classes (by decide) (by decide))
  | number =>
    obtain rfl := Option.some.inj ((AfterNumberWord.last before).symm.trans last)
    exact .inr (not_isWord_of_ascii classes (by decide) (by decide))

theorem before_last_noHex (site : Site classes kind u d v) {c : Char}
    (last : u.getLast? = some c) : isAsciiHexdigit c = false := by
  rw [Bool.eq_false_iff]
  intro digit
  rcases site.before_last last with rfl | other
  · exact absurd digit (by decide)
  · exact absurd (classes.isWord_of_isAsciiHexdigit digit) (by simp [other])

theorem apart_noHex (site : Site classes kind u d v) {c : Char} (next : v.head? = some c) :
    isAsciiHexdigit c = false := by
  rw [Bool.eq_false_iff]
  intro digit
  exact absurd (classes.isWord_of_isAsciiHexdigit digit) (by simp [site.apart next])

end Site

end UcrashReport.Signature
