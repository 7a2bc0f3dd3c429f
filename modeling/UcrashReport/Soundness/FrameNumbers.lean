import UcrashReport.Common.FrameLines
import UcrashReport.Soundness.AnnotatedLines

/-! # Numbers in frame lines

The hex numbers of a frame line are the offsets and sizes behind its symbols and the return
addresses in front of them; ARM kernels print two of each in a line. Nothing that the parser looks
for in a line can begin, end or lie in such a number: a pattern is found in the text before a number
or in the text behind it, and the log prefix lies before it.
-/

namespace UcrashReport.Signature

open Rust Rust.Text Annotate

/-! ## Numbers of a line -/

/-- A number does not go on here. -/
def NumberEnds (s : Text) : Prop := ∀ c ∈ s.head?, isIdentifierChar c = false

theorem NumberEnds.of_isPrefix {s t : Text} (ends : NumberEnds t) (leading : s <+: t) :
    NumberEnds s := by
  obtain ⟨more, rfl⟩ := leading
  intro c first
  exact ends c (by rw [List.head?_append, Option.mem_def.mp first]; rfl)

theorem HexDigits.exists_getLast (d : HexDigits) :
    ∃ u c, d.text = u ++ [c] ∧ isAsciiHexdigit c = true := by
  rcases List.eq_nil_or_concat' d.text with empty | ⟨u, c, text⟩
  · exact absurd empty d.nonempty
  · exact ⟨u, c, text, d.digits c (by simp [text])⟩

theorem trimEnd_digits (d : HexDigits) (x : Text) :
    trimEnd (d.text ++ x) = d.text ++ trimEnd x := by
  obtain ⟨u, c, text, digit⟩ := d.exists_getLast
  exact trimEnd_append_of_last (by simp [text]) (isWhitespace_of_isAsciiHexdigit digit) x

/-- A symbol begins here, maybe in a parenthesis. -/
def BeginsSymbol (s : Text) : Prop :=
  ∃ c rest, isSymbolChar c = true ∧ (s = c :: rest ∨ s = '(' :: c :: rest)

/-- `+0xoffset/0xsize`. -/
def offsetText (offset size : HexDigits) : Text :=
  "+0x".toList ++ (offset.text ++ ("/0x".toList ++ size.text))

/-- `[<address>] `. -/
def addressText (address : HexDigits) : Text := "[<".toList ++ (address.text ++ ">] ".toList)

/-- The same text up to offsets and sizes behind a symbol and return addresses before one. -/
inductive SameUpToNumbers : Text → Text → Prop
  | nil : SameUpToNumbers [] []
  | char {s s' : Text} (c : Char) : SameUpToNumbers s s' → SameUpToNumbers (c :: s) (c :: s')
  | offset {s s' : Text} {c : Char} (symbol : isSymbolChar c = true) (ends : NumberEnds s)
      (offset size offset' size' : HexDigits) :
      SameUpToNumbers s s' →
        SameUpToNumbers (c :: (offsetText offset size ++ s)) (c :: (offsetText offset' size' ++ s'))
  | address {s s' : Text} (symbol : BeginsSymbol s) (address address' : HexDigits) :
      SameUpToNumbers s s' →
        SameUpToNumbers (addressText address ++ s) (addressText address' ++ s')

/-- The places of these numbers: the text before, the digits and the text behind. -/
inductive IsNumber : Text → HexDigits → Text → Prop
  | offset {s : Text} {c : Char} (symbol : isSymbolChar c = true) (ends : NumberEnds s)
      (front : Text) (offset size : HexDigits) :
      IsNumber (front ++ c :: "+0x".toList) offset ("/0x".toList ++ (size.text ++ s))
  | size {s : Text} {c : Char} (symbol : isSymbolChar c = true) (ends : NumberEnds s)
      (front : Text) (offset size : HexDigits) :
      IsNumber (front ++ c :: ("+0x".toList ++ (offset.text ++ "/0x".toList))) size s
  | address {s : Text} (symbol : BeginsSymbol s) (front : Text) (address : HexDigits) :
      IsNumber (front ++ "[<".toList) address (">] ".toList ++ s)

namespace SameUpToNumbers

theorem refl (s : Text) : SameUpToNumbers s s := by
  induction s with
  | nil => exact .nil
  | cons c s ih => exact .char c ih

theorem append_left {s s' : Text} (same : SameUpToNumbers s s') (front : Text) :
    SameUpToNumbers (front ++ s) (front ++ s') := by
  induction front with
  | nil => exact same
  | cons c front ih => exact .char c ih

theorem head?_eq {s s' : Text} (same : SameUpToNumbers s s') : s'.head? = s.head? := by
  cases same <;> rfl

/-- A number of a line may become another one. -/
theorem of_isNumber {v x : Text} {d : HexDigits} (number : IsNumber v d x) (d' : HexDigits) :
    SameUpToNumbers (v ++ (d.text ++ x)) (v ++ (d'.text ++ x)) := by
  cases number with
  | offset symbol ends front _ size =>
    have one := append_left (.offset symbol ends d size d' size (refl _)) front
    simpa [offsetText] using one
  | size symbol ends front offset _ =>
    have one := append_left (.offset symbol ends offset d offset d' (refl _)) front
    simpa [offsetText] using one
  | address symbol front _ =>
    have one := append_left (.address symbol d d' (refl _)) front
    simpa [addressText] using one

/-- What one number does not change, all numbers of a line together do not change. They are replaced
from the last one on, so the text before each is that of the line. -/
theorem congr {β : Type*} {line line' : Text} (same : SameUpToNumbers line line') (F : Text → β)
    (step : ∀ v d x, IsNumber v d x → line = v ++ (d.text ++ x) → ∀ (d' : HexDigits) (x' : Text),
      NumberEnds x' → F (v ++ (d'.text ++ x')) = F (v ++ (d.text ++ x'))) : F line' = F line := by
  suffices whole : ∀ (front : Text),
      (∀ v d x, IsNumber v d x → front ++ line = v ++ (d.text ++ x) →
        ∀ (d' : HexDigits) (x' : Text), NumberEnds x' →
          F (v ++ (d'.text ++ x')) = F (v ++ (d.text ++ x'))) →
        F (front ++ line') = F (front ++ line) from whole [] step
  clear step
  induction same with
  | nil => exact fun _ _ => rfl
  | char c _ ih =>
    intro front step
    have behind := ih (front ++ [c]) (by simpa using step)
    simpa using behind
  | @offset s s' c symbol ends offset size offset' size' same ih =>
    intro front step
    have ends' : NumberEnds s' := by rwa [NumberEnds, same.head?_eq]
    have slash (s : Text) : NumberEnds ("/0x".toList ++ s) := by
      intro d first
      obtain rfl : '/' = d := Option.some.inj first
      decide
    have behind := ih (front ++ c :: offsetText offset size) (by simpa using step)
    have atSize := step _ _ _ (.size symbol ends front offset size) (by simp [offsetText]) size' s'
      ends'
    have atOffset := step _ _ _ (.offset symbol ends front offset size) (by simp [offsetText])
      offset' ("/0x".toList ++ (size'.text ++ s')) (slash _)
    simp only [offsetText, List.append_assoc, List.cons_append] at behind atSize atOffset ⊢
    rw [atOffset, atSize, behind]
  | @address s s' symbol address address' same ih =>
    intro front step
    have close : NumberEnds (">] ".toList ++ s') := by
      intro d first
      obtain rfl : '>' = d := Option.some.inj first
      decide
    have behind := ih (front ++ addressText address) (by simpa using step)
    have atAddress := step _ _ _ (.address symbol front address) (by simp [addressText]) address'
      (">] ".toList ++ s') close
    simp only [addressText, List.append_assoc] at behind atAddress ⊢
    rw [atAddress, behind]

end SameUpToNumbers

/-! ## The text in front of a number -/

/-- A text that ends where a number begins. -/
structure Front (f : Text) : Prop where
  opens : ∃ u c, f = u ++ [c] ∧ (c = '<' ∨ c = 'x') ∧ u.getLast? ≠ some '('
  begins : trimStart f = f

theorem barrier_of_opens {c : Char} (opens : c = '<' ∨ c = 'x') : Barrier c := by
  rcases opens with rfl | rfl <;> exact ⟨by decide, by decide, by decide⟩

theorem trimStart_trim (s : Text) : trimStart (trim s) = trim s := by
  cases shape : trimStart s with
  | nil =>
    rw [trim, shape]
    rfl
  | cons c cs =>
    have first := List.head?_dropWhile_not isWhitespace s
    rw [← trimStart, shape] at first
    have visible : isWhitespace c = false := by simpa using first
    have ends : trimEnd (c :: cs) = c :: trimEnd cs := trimEnd_append_cons visible [] cs
    rw [trim, shape, ends, trimStart_cons_of_visible visible]

theorem getLast?_ne_of_suffix {u v : Text} (suffix : u <:+ v) {c : Char}
    (other : v.getLast? ≠ some c) : u.getLast? ≠ some c := by
  obtain ⟨front, rfl⟩ := suffix
  intro last
  exact other (by rw [List.getLast?_append, last]; rfl)

/-- The log prefix of the line is that of the text before the number. -/
theorem IsNumber.stripPrintkPrefix_append {v x : Text} {d : HexDigits} (number : IsNumber v d x) :
    Front (stripPrintkPrefix v) ∧
      ∀ y, stripPrintkPrefix (v ++ y) = stripPrintkPrefix v ++ trimEnd y := by
  have shape : ∃ u b c, v = u ++ [b] ++ [c] ∧ isWhitespace b = false ∧ b ≠ '(' ∧
      (c = '<' ∨ c = 'x') := by
    cases number with
    | @offset _ c _ _ front =>
      exact ⟨front ++ [c, '+'], '0', 'x', by simp, by decide, by decide, .inr rfl⟩
    | @size _ c _ _ front offset =>
      exact ⟨front ++ c :: ("+0x".toList ++ (offset.text ++ ['/'])), '0', 'x', by simp, by decide,
        by decide, .inr rfl⟩
    | address _ front => exact ⟨front, '[', '<', by simp, by decide, by decide, .inl rfl⟩
  obtain ⟨u, b, c, rfl, visible, noParen, opens⟩ := shape
  have started : trimStart (u ++ [b]) = [] → c ≠ '<' := by
    intro empty
    rw [trimStart_append_cons visible] at empty
    simp at empty
  obtain ⟨u', inside, stripped⟩ := (barrier_of_opens opens).stripPrintkPrefix_append started
  have text (y : Text) : u ++ [b] ++ [c] ++ y = u ++ [b] ++ c :: y := by simp
  have whole : stripPrintkPrefix (u ++ [b] ++ [c]) = u' ++ [c] := stripped []
  have begins : trimStart (stripPrintkPrefix (u ++ [b] ++ [c])) =
      stripPrintkPrefix (u ++ [b] ++ [c]) := by
    rw [stripPrintkPrefix, stripTimestamp_eq, trimStart_trim]
  refine ⟨⟨⟨u', c, whole, opens, getLast?_ne_of_suffix inside (by simpa using noParen)⟩, begins⟩,
    fun y => ?_⟩
  rw [whole, text, stripped, List.append_assoc, List.singleton_append]

namespace Front

variable {f : Text} (front : Front f)

include front

theorem unquestioned_append :
    Front (unquestioned f) ∧ ∀ y, unquestioned (f ++ y) = unquestioned f ++ trimEnd y := by
  obtain ⟨u, c, rfl, opens, noParen⟩ := front.opens
  obtain ⟨u', inside, same⟩ := (barrier_of_opens opens).unquestioned_append u
  have whole : unquestioned (u ++ [c]) = u' ++ [c] := same []
  refine ⟨⟨⟨u', c, whole, opens, getLast?_ne_of_suffix inside noParen⟩, trimStart_trim _⟩,
    fun y => ?_⟩
  rw [whole, List.append_assoc, List.singleton_append, same, List.append_assoc,
    List.singleton_append]

theorem startsWith_mark (y : Text) :
    startsWith "? ".toList (f ++ y) = startsWith "? ".toList f := by
  obtain ⟨u, c, rfl, opens, -⟩ := front.opens
  have absent : c ∉ "? ".toList := by
    rcases opens with rfl | rfl <;> decide
  rw [List.append_assoc, List.singleton_append, startsWith_append_cons absent,
    startsWith_append_cons absent]

theorem ne_nil (y : Text) : f ++ y ≠ [] := by
  obtain ⟨u, c, rfl, -⟩ := front.opens
  simp

theorem trimEnd_append (y : Text) : trimEnd (f ++ y) = f ++ trimEnd y := by
  obtain ⟨u, c, rfl, opens, -⟩ := front.opens
  exact trimEnd_append_of_last (by simp) (barrier_of_opens opens).visible y

theorem trim_append (y : Text) : trim (f ++ y) = f ++ trimEnd y := by
  obtain ⟨u, c, rfl, opens, -⟩ := front.opens
  have begins := front.begins
  rw [trimStart_append_cons (barrier_of_opens opens).visible] at begins
  rw [List.append_assoc, List.singleton_append, (barrier_of_opens opens).trim_append,
    List.append_cancel_right begins, List.append_assoc, List.singleton_append]

end Front

/-! ## What the parser looks for -/

/-- A text that may begin in a number: it goes on with hex digits up to its end or up to a character
that no number is followed by. -/
def crosses (s : Text) : Bool :=
  s.head?.any isAsciiHexdigit &&
    (s.dropWhile isAsciiHexdigit).head?.all fun c => !isIdentifierChar c

/-- A pattern that does not go on into a number. -/
def avoidsNumbers (pat : Text) : Bool :=
  pat.tails.all fun t => match t with
    | c :: rest => !(c == '<' || c == 'x') || !crosses rest
    | [] => true

/-- A pattern that has no part in a number. -/
structure NumberFree (pat : Text) : Prop where
  nonempty : pat ≠ []
  begins : crosses pat = false
  avoids : avoidsNumbers pat = true

/-- What the parser searches in a frame line. -/
def frameCuts : List Text := "+0x".toList :: compilerSuffixes.map ('.' :: ·)

def searched : List Text :=
  ")".toList :: " (".toList :: " [".toList :: "---[ end trace".toList :: "_exception".toList ::
    (frameCuts ++ markers)

theorem numberFree_of_mem {pat : Text} (member : pat ∈ searched) : NumberFree pat := by
  have all : ∀ pat ∈ searched, pat ≠ [] ∧ crosses pat = false ∧ avoidsNumbers pat = true := by
    decide +kernel
  exact ⟨(all pat member).1, (all pat member).2.1, (all pat member).2.2⟩

theorem avoidsNumbers_behind {pat left rest : Text} {c : Char} (avoids : avoidsNumbers pat = true)
    (shape : pat = left ++ c :: rest) (opens : c = '<' ∨ c = 'x') : crosses rest = false := by
  have tail : c :: rest ∈ pat.tails := (List.mem_tails _ _).mpr ⟨left, shape.symm⟩
  have all := List.all_eq_true.mp avoids _ tail
  rcases opens with rfl | rfl <;> simpa using all

theorem crosses_of_isPrefix {s d x : Text} (nonempty : s ≠ [])
    (digits : ∀ c ∈ d, isAsciiHexdigit c = true) (digit : d ≠ []) (ends : NumberEnds x)
    (leading : s <+: d ++ x) : crosses s = true := by
  obtain ⟨a, s', rfl⟩ := List.exists_cons_of_ne_nil nonempty
  obtain ⟨b, d', rfl⟩ := List.exists_cons_of_ne_nil digit
  obtain ⟨more, same⟩ := leading
  obtain ⟨rfl, -⟩ := List.cons.inj same
  have first : isAsciiHexdigit a = true := digits a List.mem_cons_self
  have behind : ((a :: s').dropWhile isAsciiHexdigit).head?.all (fun c => !isIdentifierChar c) =
      true := by
    rcases List.append_eq_append_iff.mp same with ⟨rest, inside, -⟩ | ⟨rest, text, outside⟩
    · have all : ∀ c ∈ a :: s', isAsciiHexdigit c = true := fun c member =>
        digits c (inside ▸ List.mem_append_left rest member)
      rw [List.dropWhile_eq_nil_iff.mpr all]
      rfl
    · rw [text, List.dropWhile_append_of_pos digits]
      cases rest with
      | nil => rfl
      | cons e rest =>
        have stops : isIdentifierChar e = false := ends e (by rw [outside]; rfl)
        have noDigit : isAsciiHexdigit e = false := by
          rw [Bool.eq_false_iff]
          exact fun digit => absurd (isIdentifierChar_of_isAsciiHexdigit digit) (by simp [stops])
        simp [noDigit, stops]
  simpa [crosses, first] using behind

namespace Front

variable {f x : Text} (front : Front f) (ends : NumberEnds x)

include front ends

/-- A pattern occurs before the number or behind it. -/
theorem occurrence {pat : Text} (free : NumberFree pat) (d : HexDigits) {u v : Text}
    (same : f ++ (d.text ++ x) = u ++ (pat ++ v)) :
    (∃ r, f = u ++ (pat ++ r) ∧ v = r ++ (d.text ++ x)) ∨
      ∃ r, x = r ++ (pat ++ v) ∧ u = f ++ (d.text ++ r) := by
  obtain ⟨left, c, text, opens, -⟩ := front.opens
  rcases List.append_eq_append_iff.mp same with ⟨r, before, rest⟩ | ⟨r, before, rest⟩
  · -- The pattern begins behind the front.
    rcases List.append_eq_append_iff.mp rest with ⟨q, inDigits, behind⟩ | ⟨q, digits, behind⟩
    · exact .inr ⟨q, behind, by rw [before, inDigits]⟩
    · cases q with
      | nil => exact .inr ⟨[], behind.symm, by rw [before, digits, List.append_nil, List.append_nil]⟩
      | cons a q =>
        have inNumber : ∀ c ∈ a :: q, isAsciiHexdigit c = true := fun c member =>
          d.digits c (digits ▸ List.mem_append_right r member)
        have crossing := crosses_of_isPrefix free.nonempty inNumber (List.cons_ne_nil a q) ends
          ⟨v, behind⟩
        rw [free.begins] at crossing
        contradiction
  · rcases List.append_eq_append_iff.mp rest with ⟨q, inside, behind⟩ | ⟨q, pattern, behind⟩
    · exact .inl ⟨q, by rw [before, inside], behind⟩
    · cases q with
      | nil => exact .inl ⟨[], by rw [before, pattern, List.append_nil, List.append_nil], behind.symm⟩
      | cons a q =>
        have crossing : crosses (a :: q) = true :=
          crosses_of_isPrefix (List.cons_ne_nil a q) d.digits d.nonempty ends ⟨v, behind.symm⟩
        rcases List.eq_nil_or_concat' r with rfl | ⟨r, last, rfl⟩
        · rw [List.nil_append] at pattern
          rw [← pattern, free.begins] at crossing
          contradiction
        · -- The last character of the front is in the pattern.
          have same : last = c := by
            have ending := congrArg List.getLast? (text.symm.trans before)
            simpa using ending.symm
          have shape : pat = r ++ last :: a :: q := by rw [pattern, List.append_assoc]; rfl
          have avoided := avoidsNumbers_behind free.avoids shape (same ▸ opens)
          rw [avoided] at crossing
          contradiction

theorem infix_iff {pat : Text} (free : NumberFree pat) (d : HexDigits) :
    pat <:+: f ++ (d.text ++ x) ↔ pat <:+: f ∨ pat <:+: x := by
  constructor
  · rintro ⟨u, v, same⟩
    rw [List.append_assoc] at same
    rcases front.occurrence ends free d same.symm with ⟨r, text, -⟩ | ⟨r, text, -⟩
    · exact .inl ⟨u, r, by rw [text, List.append_assoc]⟩
    · exact .inr ⟨r, v, by rw [text, List.append_assoc]⟩
  · rintro (before | behind)
    · exact before.trans (List.prefix_append _ _).isInfix
    · exact behind.trans ((List.suffix_append d.text x).trans (List.suffix_append f _)).isInfix

theorem suffix_iff {pat : Text} (free : NumberFree pat) (d : HexDigits) :
    pat <:+ f ++ (d.text ++ x) ↔ pat <:+ x := by
  constructor
  · rintro ⟨u, same⟩
    rcases @occurrence f x front ends pat free d u [] (by rw [List.append_nil]; exact same.symm) with
      ⟨r, -, text⟩ | ⟨r, text, -⟩
    · have digits := d.nonempty
      simp_all
    · exact ⟨r, by rw [text, List.append_nil]⟩
  · exact fun behind => behind.trans ((List.suffix_append d.text x).trans (List.suffix_append f _))

theorem prefix_iff {pat : Text} (avoids : avoidsNumbers pat = true) (d : HexDigits) :
    pat <+: f ++ (d.text ++ x) ↔ pat <+: f := by
  obtain ⟨left, c, text, opens, -⟩ := front.opens
  refine ⟨fun leading => ?_, fun leading => leading.trans (List.prefix_append _ _)⟩
  obtain ⟨v, same⟩ := leading
  rcases List.append_eq_append_iff.mp same with ⟨r, inside, -⟩ | ⟨r, pattern, behind⟩
  · exact ⟨r, inside.symm⟩
  · cases r with
    | nil => exact ⟨[], by rw [pattern, List.append_nil, List.append_nil]⟩
    | cons a r =>
      have crossing : crosses (a :: r) = true :=
        crosses_of_isPrefix (List.cons_ne_nil a r) d.digits d.nonempty ends ⟨v, behind.symm⟩
      have shape : pat = left ++ c :: a :: r := by rw [pattern, text, List.append_assoc]; rfl
      have avoided := avoidsNumbers_behind avoids shape opens
      rw [avoided] at crossing
      contradiction

theorem splitOnce_of_not_infix {pat : Text} (free : NumberFree pat) (absent : ¬ pat <:+: f)
    (d : HexDigits) :
    splitOnce pat (f ++ (d.text ++ x)) =
      (splitOnce pat x).map fun parts => (f ++ (d.text ++ parts.1), parts.2) := by
  have clear : ∀ u v, f ++ d.text = u ++ v → v ≠ [] → ¬ pat <+: v ++ x := by
    rintro u v shape nonempty ⟨w, same⟩
    have whole : f ++ (d.text ++ x) = u ++ (pat ++ w) := by
      rw [← List.append_assoc, shape, List.append_assoc, same]
    rcases front.occurrence ends free d whole with ⟨r, text, -⟩ | ⟨r, -, text⟩
    · exact absent ⟨u, r, by rw [text, List.append_assoc]⟩
    · have lengths := congrArg List.length shape
      have longer := congrArg List.length text
      have positive := List.length_pos_iff.mpr nonempty
      simp only [List.length_append] at lengths longer
      omega
  have cut := splitOnce_append_of_clear clear
  simpa using cut

theorem truncateAt_of_not_infix {pat : Text} (free : NumberFree pat) (absent : ¬ pat <:+: f)
    (d : HexDigits) : truncateAt pat (f ++ (d.text ++ x)) = f ++ (d.text ++ truncateAt pat x) := by
  rw [truncateAt, truncateAt, front.splitOnce_of_not_infix ends free absent d]
  cases splitOnce pat x <;> rfl

end Front

/-- What is cut off behind the last occurrence is cut off there in a longer text. -/
theorem rsplitOnce_append_of_some {pat s left right : Text}
    (split : rsplitOnce pat s = some (left, right)) (front : Text) :
    rsplitOnce pat (front ++ s) = some (front ++ left, right) := by
  induction front with
  | nil => exact split
  | cons c front ih => rw [List.cons_append, rsplitOnce, ih, List.cons_append]

namespace Front

variable {f x : Text} (front : Front f)

include front

/-- A mark that begins in the front reaches behind it. -/
theorem two_le_of_mark {left right : Text} (inFront : f = left ++ (" (".toList ++ right)) :
    2 ≤ right.length := by
  obtain ⟨u, c, text, opens, noParen⟩ := front.opens
  have whole : u ++ [c] = left ++ (" (".toList ++ right) := text.symm.trans inFront
  rcases List.eq_nil_or_concat' right with rfl | ⟨right, last, rfl⟩
  · have ending := congrArg List.getLast? whole
    rcases opens with rfl | rfl <;> simp at ending
  · cases right with
    | nil =>
      have before := congrArg List.dropLast whole
      rw [List.dropLast_concat] at before
      exact absurd (by simp [before]) noParen
    | cons a right => simp

/-- Where no mark begins behind the number, what is cut off before it is too long for one. -/
theorem four_le_of_mark {left right : Text} (d : HexDigits) (ends : NumberEnds x) (closed : x ≠ [])
    (absent : rsplitOnce " (".toList x = none)
    (split : rsplitOnce " (".toList (f ++ (d.text ++ x)) = some (left, right)) :
    4 ≤ byteLen right := by
  have free := @numberFree_of_mem " (".toList (by decide)
  rcases front.occurrence ends free d (rsplitOnce_spec split) with
    ⟨r, inFront, rfl⟩ | ⟨r, behind, -⟩
  · have long := front.two_le_of_mark inFront
    have digits := List.length_pos_iff.mpr d.nonempty
    have closing := List.length_pos_iff.mpr closed
    have bytes := length_le_byteLen (r ++ (d.text ++ x))
    simp only [List.length_append] at bytes
    omega
  · have inside : " (".toList <:+: x := ⟨r, right, by rw [behind, List.append_assoc]⟩
    exact absurd inside (rsplitOnce_eq_none_iff.mp absent)

/-- No marker at the end of a frame line has a number in it. -/
theorem stripFrameMarkers_append (d : HexDigits) (n : ℕ) (ends : NumberEnds x) :
    stripFrameMarkers n (f ++ (d.text ++ x)) = f ++ (d.text ++ stripFrameMarkers n x) := by
  induction n generalizing x with
  | zero => rfl
  | succ n ih =>
    have closing : endsWith ")".toList (f ++ (d.text ++ x)) = endsWith ")".toList x := by
      rw [Bool.eq_iff_iff, endsWith_iff, endsWith_iff]
      exact front.suffix_iff ends (numberFree_of_mem (by decide)) d
    rw [stripFrameMarkers, stripFrameMarkers, closing]
    split_ifs with closed
    · cases split : rsplitOnce " (".toList x with
      | some parts =>
        obtain ⟨rest, marker⟩ := parts
        have whole := rsplitOnce_append_of_some split (f ++ d.text)
        rw [List.append_assoc, List.append_assoc] at whole
        rw [whole]
        dsimp only
        split_ifs
        · have leading : trimEnd rest <+: x :=
            (trimEnd_isPrefix rest).trans ⟨_, (rsplitOnce_spec split).symm⟩
          rw [front.trimEnd_append, trimEnd_digits, ih (ends.of_isPrefix leading)]
        · rfl
      | none =>
        have nonempty : x ≠ [] := by
          rintro rfl
          contradiction
        cases found : rsplitOnce " (".toList (f ++ (d.text ++ x)) with
        | none => rfl
        | some parts =>
          have long := front.four_le_of_mark d ends nonempty split found
          dsimp only
          rw [if_neg (by omega)]
    · rfl

end Front

end UcrashReport.Signature
