import UcrashReport.Common.CrashLines
import UcrashReport.Common.ExceptionTokens
import UcrashReport.Decoder.Annotate

/-! # Trace lines with a location appended

A location is appended only to a line with a hex offset. Everything that the parser takes off the
front of a line stands before that offset, so the line with the location is read like the one
without it as long as the parser looks at fronts only. The end matters in three places: the
exception line is kept whole, a module annotation runs to the end of the line, and a marker word
may stand in the location.
-/

namespace UcrashReport.Signature

open Rust Rust.Text Annotate

/-! ## Before the offset -/

/-- The rest of a text after an accepted head, which ends at the first occurrence of a pattern. -/
def afterHead (pat : Text) (accepts : Text → Bool) (s : Text) : Option Text :=
  ((splitOnce pat s).filter fun parts => accepts parts.1).map (·.2)

/-- When no accepted head has a character in it, a head is accepted before that character or
never. -/
theorem afterHead_append_cons {pat : Text} {c : Char} (nonempty : pat ≠ []) (absent : c ∉ pat)
    {accepts : Text → Bool} (rejects : ∀ u v, accepts (u ++ c :: v) = false) (u v : Text) :
    afterHead pat accepts (u ++ c :: v) = (afterHead pat accepts u).map (· ++ c :: v) := by
  rw [afterHead, afterHead, splitOnce_append_cons nonempty absent]
  cases splitOnce pat u with
  | some parts =>
    dsimp only
    cases accepted : accepts parts.1 <;> simp [Option.filter, accepted]
  | none => cases splitOnce pat v <;> simp [Option.filter, rejects]

theorem afterHead_suffix {pat s rest : Text} {accepts : Text → Bool}
    (found : afterHead pat accepts s = some rest) : rest <:+ s := by
  obtain ⟨parts, split, rfl⟩ := Option.map_eq_some_iff.mp found
  have text := splitOnce_spec (Option.filter_eq_some_iff.mp split).1
  exact ⟨parts.1 ++ pat, by rw [text, List.append_assoc]⟩

def isLevel (s : Text) : Bool := !s.isEmpty && s.all isAsciiDigit

def isTime (s : Text) : Bool := s.all fun c => isAsciiDigit c || c == '.'

theorem stripLevel_eq (s : Text) :
    stripLevel s =
      (("<".toList.isPrefixOf? s).bind fun rest =>
        (afterHead ">".toList isLevel rest).map trimStart).getD s := by
  rw [stripLevel]
  cases "<".toList.isPrefixOf? s with
  | none => rfl
  | some rest =>
    dsimp only [Option.bind_some]
    rw [afterHead]
    cases splitOnce ">".toList rest with
    | none => rfl
    | some parts =>
      dsimp only
      rw [← isLevel]
      cases accepted : isLevel parts.1 <;> simp [Option.filter, accepted]

theorem stripTimestamp_eq (s : Text) :
    stripTimestamp s =
      trim ((match "[".toList.isPrefixOf? s with
        | some rest => afterHead "]".toList (fun ts => isTime (trim ts)) rest
        | none => afterHead " ".toList (fun first => decide ('.' ∈ first) && isTime first) s).getD
          s) := by
  rw [stripTimestamp]
  cases "[".toList.isPrefixOf? s with
  | some rest =>
    dsimp only
    rw [afterHead]
    cases splitOnce "]".toList rest with
    | none => rfl
    | some parts =>
      dsimp only
      rw [← isTime]
      cases accepted : isTime (trim parts.1) <;> simp [Option.filter, accepted]
  | none =>
    dsimp only
    rw [afterHead]
    cases splitOnce " ".toList s with
    | none => rfl
    | some parts =>
      dsimp only
      rw [← isTime]
      cases accepted : decide ('.' ∈ parts.1) && isTime parts.1 <;>
        simp [Option.filter, accepted]

/-- A character of which no log prefix and no question mark has any. -/
structure Barrier (c : Char) : Prop where
  visible : isWhitespace c = false
  noTime : (isAsciiDigit c || c == '.') = false
  outside : c ∉ "[]>?".toList

namespace Barrier

variable {c : Char} (barrier : Barrier c)

include barrier

theorem trim_append (u v : Text) : trim (u ++ c :: v) = trimStart u ++ c :: trimEnd v := by
  rw [trim, trimStart_append_cons barrier.visible, trimEnd_append_cons barrier.visible]

theorem isTime_append (u v : Text) : isTime (u ++ c :: v) = false := by
  simp [isTime, barrier.noTime]

theorem isLevel_append (u v : Text) : isLevel (u ++ c :: v) = false := by
  have rejected := (Bool.or_eq_false_iff.mp barrier.noTime).1
  simp [isLevel, rejected]

theorem ne_space : c ≠ ' ' := by
  rintro rfl
  exact absurd barrier.visible (by decide)

theorem stripLevel_append {u : Text} (start : u = [] → c ≠ '<') :
    ∃ u', u' <:+ u ∧ ∀ v, stripLevel (u ++ c :: v) = u' ++ c :: v := by
  have opened (v : Text) : "<".toList.isPrefixOf? (u ++ c :: v) =
      ("<".toList.isPrefixOf? u).map (· ++ c :: v) := by
    cases u with
    | nil => exact isPrefixOf?_append_cons (by simpa using start rfl) v
    | cons d u =>
      have head (s : Text) : "<".toList.isPrefixOf? (d :: s) = if '<' == d then some s else none := rfl
      rw [List.cons_append, head, head]
      split_ifs <;> rfl
  have separator : c ∉ ">".toList := fun member => barrier.outside (by simp_all)
  cases level : "<".toList.isPrefixOf? u with
  | none =>
    refine ⟨u, List.suffix_rfl, fun v => ?_⟩
    rw [stripLevel_eq, opened, level]
    rfl
  | some rest =>
    have inside : rest <:+ u := ⟨_, List.isPrefixOf?_eq_some_iff_append_eq.mp level⟩
    have after (v : Text) := afterHead_append_cons (by decide) separator barrier.isLevel_append rest v
    cases found : afterHead ">".toList isLevel rest with
    | none =>
      refine ⟨u, List.suffix_rfl, fun v => ?_⟩
      rw [stripLevel_eq, opened, level, Option.map_some, Option.bind_some, after, found]
      rfl
    | some rest' =>
      refine ⟨trimStart rest',
        (trimStart_suffix rest').trans ((afterHead_suffix found).trans inside), fun v => ?_⟩
      rw [stripLevel_eq, opened, level, Option.map_some, Option.bind_some, after, found]
      exact trimStart_append_cons barrier.visible rest' v

theorem stripTimestamp_append (u : Text) :
    ∃ u', u' <:+ u ∧ ∀ v, stripTimestamp (u ++ c :: v) = u' ++ c :: trimEnd v := by
  have noTime (u v : Text) : isTime (trim (u ++ c :: v)) = false := by
    rw [barrier.trim_append, barrier.isTime_append]
  have noFirst (u v : Text) :
      (decide ('.' ∈ u ++ c :: v) && isTime (u ++ c :: v)) = false := by
    rw [barrier.isTime_append, Bool.and_false]
  have bracket : c ∉ "[".toList := fun member => barrier.outside (by simp_all)
  have separator : c ∉ "]".toList := fun member => barrier.outside (by simp_all)
  have space : c ∉ " ".toList := by simpa using barrier.ne_space
  let after : Option Text :=
    match "[".toList.isPrefixOf? u with
    | some rest => afterHead "]".toList (fun ts => isTime (trim ts)) rest
    | none => afterHead " ".toList (fun first => decide ('.' ∈ first) && isTime first) u
  have text (v : Text) : stripTimestamp (u ++ c :: v) = trim (after.getD u ++ c :: v) := by
    rw [stripTimestamp_eq, isPrefixOf?_append_cons bracket]
    simp only [after]
    cases "[".toList.isPrefixOf? u with
    | some rest =>
      simp only [Option.map_some]
      rw [afterHead_append_cons (by decide) separator noTime]
      cases afterHead "]".toList (fun ts => isTime (trim ts)) rest <;> rfl
    | none =>
      simp only [Option.map_none]
      rw [afterHead_append_cons (by decide) space noFirst]
      cases afterHead " ".toList (fun first => decide ('.' ∈ first) && isTime first) u <;>
        rfl
  have inside : after.getD u <:+ u := by
    cases found : after with
    | none => exact List.suffix_rfl
    | some rest' =>
      simp only [after] at found
      split at found
      · next rest opened =>
        exact (afterHead_suffix found).trans
          ⟨_, List.isPrefixOf?_eq_some_iff_append_eq.mp opened⟩
      · exact afterHead_suffix found
  exact ⟨trimStart (after.getD u), (trimStart_suffix _).trans inside, fun v => by
    rw [text, barrier.trim_append]⟩

/-- The log prefix that is stripped lies before the barrier. -/
theorem stripPrintkPrefix_append {u : Text} (start : trimStart u = [] → c ≠ '<') :
    ∃ u', u' <:+ u ∧ ∀ v, stripPrintkPrefix (u ++ c :: v) = u' ++ c :: trimEnd v := by
  obtain ⟨level, inside, stripped⟩ := barrier.stripLevel_append start
  obtain ⟨time, inside', stripped'⟩ := barrier.stripTimestamp_append level
  refine ⟨time, inside'.trans (inside.trans (trimStart_suffix u)), fun v => ?_⟩
  rw [stripPrintkPrefix, trimStart_append_cons barrier.visible, stripped, stripped']

theorem unquestioned_append (u : Text) :
    ∃ u', u' <:+ u ∧ ∀ v, unquestioned (u ++ c :: v) = u' ++ c :: trimEnd v := by
  have outside : c ∉ "? ".toList := by
    have mark : c ≠ '?' := fun same => barrier.outside (by simp [same])
    simp [mark, barrier.ne_space]
  refine ⟨trimStart (trimStartMatches "? ".toList u),
    (trimStart_suffix _).trans (trimStartMatches_suffix _ u), fun v => ?_⟩
  rw [unquestioned, trimStartMatches_append_cons (by decide) outside, barrier.trim_append]

end Barrier

theorem barrier_plus : Barrier '+' := ⟨by decide, by decide, by decide⟩

/-! ## Symbols and their offsets -/

def hexOffset : Text := "+0x".toList

/-- A symbol is normalized to what stands before its offset. -/
theorem normalizeSymbol_offset (u v w : Text) :
    normalizeSymbol (u ++ (hexOffset ++ v)) = normalizeSymbol (u ++ (hexOffset ++ w)) := by
  have trimmed (v : Text) :
      trim (u ++ (hexOffset ++ v)) = trimStart u ++ hexOffset ++ trimEnd v := by
    have radix : u ++ (hexOffset ++ v) = (u ++ "+0".toList) ++ 'x' :: v := by simp [hexOffset]
    have zero : trimStart (u ++ "+0".toList) = trimStart u ++ "+0".toList :=
      trimStart_append_cons (by decide) u "0".toList
    rw [radix, trim, trimStart_append_cons (by decide), trimEnd_append_cons (by decide), zero]
    simp [hexOffset]
  have found : (splitOnce hexOffset (trimStart u ++ hexOffset)).isSome = true :=
    contains_iff.mpr (List.suffix_append _ _).isInfix
  obtain ⟨⟨left, right⟩, split⟩ := Option.isSome_iff_exists.mp found
  have truncated (v : Text) : truncateAt hexOffset (trim (u ++ (hexOffset ++ v))) = left := by
    rw [trimmed, truncateAt, splitOnce_append split]
  rw [normalizeSymbol, normalizeSymbol, ← hexOffset, truncated, truncated]

theorem normalizeSymbol_append {s : Text} (offset : hexOffset <:+: s) (t : Text) :
    normalizeSymbol (s ++ t) = normalizeSymbol s := by
  obtain ⟨u, v, rfl⟩ := offset
  rw [List.append_assoc, List.append_assoc, List.append_assoc]
  exact normalizeSymbol_offset u (v ++ t) v

/-- The marks that are stripped off a frame line are too short for an offset. -/
theorem hexOffset_stripFrameMarkers {line : Text} (offset : hexOffset <:+: line) (n : ℕ) :
    hexOffset <:+: stripFrameMarkers n line := by
  induction n generalizing line with
  | zero => exact offset
  | succ n ih =>
    rw [stripFrameMarkers]
    split_ifs with closed
    · cases split : rsplitOnce " (".toList line with
      | none => exact offset
      | some parts =>
        obtain ⟨rest, mark⟩ := parts
        dsimp only
        split_ifs with short
        · have text := rsplitOnce_spec split
          have opened : line = (rest ++ [' ']) ++ '(' :: mark := by simp [text]
          rw [opened, infix_append_cons_of_not_mem (by decide)] at offset
          rcases offset with inRest | inMark
          · apply ih
            obtain ⟨blank, whole, isBlank⟩ := trimEnd_spec rest
            rw [whole, List.append_assoc, infix_append_of_last (by decide)] at inRest
            · exact inRest
            · intro c member last
              have radix : c = 'x' := (Option.some.inj last).symm
              rcases List.mem_append.mp member with member | member
              · have visible := isBlank c member
                rw [radix] at visible
                contradiction
              · rw [radix] at member
                contradiction
          · -- An offset in the mark is the whole mark, which then does not end with a bracket.
            exfalso
            have longEnough := inMark.length_le
            have shortEnough := (length_le_byteLen mark).trans short
            have whole : hexOffset = mark :=
              inMark.eq_of_length (Nat.le_antisymm longEnough (by simpa [hexOffset] using shortEnough))
            have last : line.getLast? = some 'x' := by
              rw [text, ← whole, ← List.append_assoc]
              exact List.getLast?_append_of_ne_nil _ (by decide)
            obtain ⟨front, ending⟩ := endsWith_iff.mp closed
            rw [← ending] at last
            simp at last
        · exact offset
    · exact offset

theorem splitModule_of_splitOnce {line left right : Text}
    (split : splitOnce " [".toList line = some (left, right)) :
    splitModule line = (left, some (trimEndMatches ']' right)) := by rw [splitModule, split]

theorem splitModule_of_not_isInfix {line : Text} (plain : ¬ " [".toList <:+: line) :
    splitModule line = (line, none) := by
  rw [splitModule, splitOnce_eq_none_iff.mpr plain]

/-- A module annotation that begins beyond a text leaves at most a blank before itself. -/
private theorem eq_of_bracket_beyond {left w right t : Text} (beyond : ¬ " [".toList <:+: left ++ w)
    (whole : left ++ w ++ t = left ++ (" [".toList ++ right)) : w = [] ∨ w = " ".toList := by
  have same : w ++ t = ' ' :: '[' :: right := by simpa using whole
  cases w with
  | nil => exact .inl rfl
  | cons c w =>
    rw [List.cons_append, List.cons.injEq] at same
    obtain ⟨rfl, same⟩ := same
    cases w with
    | nil => exact .inr rfl
    | cons d w =>
      rw [List.cons_append, List.cons.injEq] at same
      obtain ⟨rfl, -⟩ := same
      exact absurd ⟨left, w, by simp⟩ beyond

/-- The symbol of a line with an offset is that of every beginning with that offset. -/
theorem splitModule_of_prefix {line longer : Text} (leading : line <+: longer)
    (offset : hexOffset <:+: line) :
    (hexOffset <:+: (splitModule longer).1 ↔ hexOffset <:+: (splitModule line).1) ∧
      normalizeSymbol (splitModule longer).1 = normalizeSymbol (splitModule line).1 := by
  obtain ⟨t, rfl⟩ := leading
  cases split : splitOnce " [".toList line with
  | some parts =>
    rw [splitModule_of_splitOnce split, splitModule_of_splitOnce (splitOnce_append split t)]
    exact ⟨Iff.rfl, rfl⟩
  | none =>
    have plain := splitOnce_eq_none_iff.mp split
    have both {s : Text} (inside : hexOffset <:+: s)
        (symbol : normalizeSymbol s = normalizeSymbol line) :
        (hexOffset <:+: s ↔ hexOffset <:+: line) ∧ normalizeSymbol s = normalizeSymbol line :=
      ⟨iff_of_true inside offset, symbol⟩
    rw [splitModule_of_not_isInfix plain]
    cases split' : splitOnce " [".toList (line ++ t) with
    | none =>
      rw [splitModule_of_not_isInfix (splitOnce_eq_none_iff.mp split')]
      exact both (offset.trans (List.prefix_append line t).isInfix)
        (normalizeSymbol_append offset t)
    | some parts =>
      obtain ⟨left, right⟩ := parts
      rw [splitModule_of_splitOnce split']
      have text := splitOnce_spec split'
      rcases List.prefix_or_prefix_of_prefix (List.prefix_append line t)
        (text ▸ List.prefix_append left _) with shorter | longer
      · obtain ⟨more, rfl⟩ := shorter
        exact both (offset.trans (List.prefix_append line more).isInfix)
          (normalizeSymbol_append offset more)
      · obtain ⟨w, rfl⟩ := longer
        have offset' : hexOffset <:+: left := by
          rw [infix_append_of_last (by decide)] at offset
          · exact offset
          · intro c member last
            have radix : c = 'x' := (Option.some.inj last).symm
            rcases eq_of_bracket_beyond plain text with rfl | rfl
            · exact nomatch member
            · rw [radix] at member
              contradiction
        exact both offset' (normalizeSymbol_append offset' w).symm

/-- The symbol and the module of a frame line. -/
def frameParts (line : Text) : Text × Option Text :=
  splitModule (stripFrameMarkers (unquestioned line).length (unquestioned line))

theorem parseFrame_eq (line : Text) :
    parseFrame line =
      if contains hexOffset (frameParts line).1 then
        some ⟨(frameParts line).1, (frameParts line).2, startsWith "? ".toList line⟩
      else none := rfl

theorem frameOf_eq {line : Text} (frame : (parseFrame line).isSome) :
    frameOf line =
      ⟨(frameParts line).1, (frameParts line).2, startsWith "? ".toList line⟩ := by
  rw [parseFrame_eq] at frame
  split_ifs at frame with offset
  · rw [frameOf, parseFrame_eq, if_pos offset, Option.getD_some]
  · contradiction

/-! ## Words of an exception line -/

theorem bareToken_parenthesized (s : Text) :
    bareToken ("(".toList ++ s ++ ")".toList) = "(".toList ++ s ++ ")".toList := by
  have shape : "(".toList ++ s ++ ")".toList = '(' :: (s ++ [')']) := rfl
  rw [shape, bareToken, trimMatches, List.dropWhile_cons_of_neg (by decide), ← List.cons_append,
    List.rdropWhile_concat_neg _ _ _ (by decide)]

theorem telling_parenthesized (s : Text) : Telling ("(".toList ++ s ++ ")".toList) := by
  have noHexdigit : isAsciiHexdigit '(' = false := by decide
  have noDigit : isAsciiDigit '(' = false := by decide
  constructor <;> rw [bareToken_parenthesized]
  · simp [isHexNoise, startsWith, List.isPrefixOf, noHexdigit]
  · simp [isNoiseWord]
  · simp [isCounterNoise, startsWith, List.isPrefixOf, noDigit]
  · simp

/-- One more telling token at the end of a line changes what is left of it: either it is kept, or
the noise word before it takes it and is dropped itself. -/
theorem normalizeTokens_append_ne {w : Text} (telling : Telling w) (skip : Bool) (out : Text)
    (toks : List Text) (pending : skip = true → toks ≠ []) :
    normalizeTokens skip out (toks ++ [w]) ≠ normalizeTokens skip out toks := by
  induction toks generalizing skip out with
  | nil =>
    cases skip with
    | true => exact absurd rfl (pending rfl)
    | false =>
      simp only [List.nil_append, normalizeTokens, telling.noHex, telling.noWord,
        telling.noCounter, Bool.false_and, Bool.false_eq_true, if_false]
      exact pushWord_ne telling.nonempty out
  | cons tok rest ih =>
    cases skip with
    | true => exact ih false out (fun impossible => absurd impossible Bool.false_ne_true)
    | false =>
      have next (out : Text) : normalizeTokens false out (rest ++ [w]) ≠
          normalizeTokens false out rest :=
        ih false out (fun impossible => absurd impossible Bool.false_ne_true)
      rw [List.cons_append, normalizeTokens, normalizeTokens]
      cases hex : isHexNoise (bareToken tok) with
      | true => simpa using next out
      | false =>
        have more : (rest ++ [w]).isEmpty = false := by simp
        simp only [more, Bool.not_false, Bool.and_true, Bool.false_eq_true, if_false]
        by_cases word : (isNoiseWord (bareToken tok) && bareToken tok != "at".toList) = true
        · cases rest with
          | cons tok' rest =>
            simp only [word, if_true, List.isEmpty_cons, Bool.not_false, Bool.and_true]
            exact ih true out fun _ => List.cons_ne_nil tok' rest
          | nil =>
            have isWord : isNoiseWord (bareToken tok) = true := by
              rw [Bool.and_eq_true] at word
              exact word.1
            have dropped : normalizeTokens true out ([] ++ [w]) = out := rfl
            simp only [word, if_true, List.isEmpty_nil, Bool.not_true, Bool.and_false,
              Bool.false_and, Bool.false_eq_true, if_false,
              isCounterNoise_of_isNoiseWord isWord, dropped, normalizeTokens]
            exact (pushWord_ne (nonempty_of_isNoiseWord isWord) out).symm
        · have noWord : (isNoiseWord (bareToken tok) && !rest.isEmpty &&
              bareToken tok != "at".toList) = false := by
            simp only [Bool.and_eq_true, not_and, Bool.not_eq_true] at word
            cases isWord : isNoiseWord (bareToken tok) with
            | false => rfl
            | true => rw [word isWord, Bool.and_false]
          simp only [word, noWord, if_false, Bool.false_eq_true]
          split_ifs
          · exact next out
          · exact next _

/-! ## A line and the same line with a location -/

/-- A trimmed line with a hex offset, and the line with a location appended. -/
structure Appended (loc plain longer : Text) : Prop where
  shape : ∃ u v, plain = trimEnd (u ++ '+' :: '0' :: 'x' :: v) ∧
    longer = u ++ '+' :: '0' :: 'x' :: v ++ suffix loc
  visible : ∀ c ∈ loc, isWhitespace c = false
  long : 3 ≤ loc.length

theorem trimEnd_suffix (u v loc : Text) :
    trimEnd (u ++ '+' :: (v ++ suffix loc)) = u ++ '+' :: (v ++ suffix loc) := by
  have closing : u ++ '+' :: (v ++ suffix loc) = (u ++ '+' :: (v ++ (" (".toList ++ loc))) ++ ')' :: [] := by
    simp [suffix]
  rw [closing, trimEnd_append_cons (by decide)]
  rfl

/-- The log prefix of a line with a hex offset is stripped alike with and without a location. -/
theorem appended_stripPrintkPrefix {loc : Text} (visible : ∀ c ∈ loc, isWhitespace c = false)
    (long : 3 ≤ loc.length) (u v : Text) :
    Appended loc (stripPrintkPrefix (u ++ '+' :: '0' :: 'x' :: v))
      (stripPrintkPrefix (u ++ '+' :: '0' :: 'x' :: v ++ suffix loc)) := by
  obtain ⟨u', -, stripped⟩ := barrier_plus.stripPrintkPrefix_append (u := u) fun _ => by decide
  refine ⟨⟨u', v, ?_, ?_⟩, visible, long⟩
  · rw [stripped, trimEnd_append_cons (by decide)]
  · rw [List.append_assoc, List.cons_append, stripped, ← trimEnd_append_cons (by decide),
      trimEnd_suffix]
    simp

namespace Appended

variable {loc plain longer : Text}

theorem unquestioned (appended : Appended loc plain longer) :
    Appended loc (unquestioned plain) (unquestioned longer) := by
  obtain ⟨⟨u, v, rfl, rfl⟩, visible, long⟩ := appended
  obtain ⟨u', -, same⟩ := barrier_plus.unquestioned_append u
  refine ⟨⟨u', v, ?_, ?_⟩, visible, long⟩
  · rw [trimEnd_append_cons (by decide), same, trimEnd_append_cons (by decide), trimEnd, trimEnd,
      List.rdropWhile_idempotent]
  · rw [List.append_assoc, List.cons_append, same, ← trimEnd_append_cons (by decide), trimEnd_suffix]
    simp

/-- What the line starts with does not depend on what follows the offset. -/
theorem startsWith (appended : Appended loc plain longer) {pat : Text} (absent : '+' ∉ pat) :
    startsWith pat longer = startsWith pat plain := by
  obtain ⟨⟨u, v, rfl, rfl⟩, -, -⟩ := appended
  rw [trimEnd_append_cons (by decide), List.append_assoc, List.cons_append,
    startsWith_append_cons absent, startsWith_append_cons absent]

/-- A pattern without blanks at its ends and without brackets is in the line or the location. -/
theorem infix_iff (appended : Appended loc plain longer) {pat : Text} (nonempty : pat ≠ [])
    (last : ∀ c, pat.getLast? = some c → isWhitespace c = false) (noOpen : '(' ∉ pat)
    (noClose : ')' ∉ pat) : pat <:+: longer ↔ pat <:+: plain ∨ pat <:+: loc := by
  obtain ⟨⟨u, v, rfl, rfl⟩, -, -⟩ := appended
  obtain ⟨blank, whole, isBlank⟩ := trimEnd_spec (u ++ '+' :: '0' :: 'x' :: v)
  have untrimmed (blank : Text) (isBlank : ∀ c ∈ blank, isWhitespace c = true) (s : Text) :
      pat <:+: s ++ blank ↔ pat <:+: s :=
    infix_append_of_last nonempty fun c member found => by
      simpa [last c found] using isBlank c member
  have pieces : u ++ '+' :: '0' :: 'x' :: v ++ suffix loc =
      (u ++ '+' :: '0' :: 'x' :: v ++ [' ']) ++ '(' :: (loc ++ ')' :: []) := by simp [suffix]
  rw [pieces, infix_append_cons_of_not_mem noOpen, infix_append_cons_of_not_mem noClose,
    untrimmed [' '] (forall_mem_of_all (by decide))]
  conv_lhs => rw [whole, untrimmed blank isBlank]
  have noneEmpty : ¬ pat <:+: [] := by simpa using nonempty
  rw [or_iff_left noneEmpty]

theorem hasMarker (appended : Appended loc plain longer) :
    hasMarker longer = (hasMarker plain || hasMarker loc) := by
  have brackets : ∀ m ∈ markers, '(' ∉ m ∧ ')' ∉ m := by decide +kernel
  rw [Bool.eq_iff_iff, Bool.or_eq_true, hasMarker_iff, hasMarker_iff, hasMarker_iff]
  constructor
  · rintro ⟨m, member, inside⟩
    rcases (appended.infix_iff (marker_nonempty m member) (marker_last m member)
      (brackets m member).1 (brackets m member).2).mp inside with inLine | inLocation
    · exact .inl ⟨m, member, inLine⟩
    · exact .inr ⟨m, member, inLocation⟩
  · rintro (⟨m, member, inside⟩ | ⟨m, member, inside⟩)
    · exact ⟨m, member, (appended.infix_iff (marker_nonempty m member) (marker_last m member)
        (brackets m member).1 (brackets m member).2).mpr (.inl inside)⟩
    · exact ⟨m, member, (appended.infix_iff (marker_nonempty m member) (marker_last m member)
        (brackets m member).1 (brackets m member).2).mpr (.inr inside)⟩

theorem isTraceHeader (appended : Appended loc plain longer) :
    isTraceHeader longer = isTraceHeader plain := by
  rw [Signature.isTraceHeader, Signature.isTraceHeader, appended.startsWith (by decide),
    appended.startsWith (by decide)]

theorem isTraceEnd (appended : Appended loc plain longer) :
    isTraceEnd longer = isTraceEnd plain := by
  have noBlank : ¬ "---[ end trace".toList <:+: loc := by
    intro inside
    have blank := appended.visible ' ' (inside.subset (by decide))
    contradiction
  have same : "---[ end trace".toList <:+: longer ↔
      "---[ end trace".toList <:+: plain ∨ "---[ end trace".toList <:+: loc :=
    appended.infix_iff (by decide) (forall_eq_some_of_all (by decide)) (by decide) (by decide)
  rw [or_iff_left noBlank, ← contains_iff, ← contains_iff, ← Bool.eq_iff_iff] at same
  obtain ⟨⟨u, v, rfl, rfl⟩, -, -⟩ := appended
  have visible : (trimEnd (u ++ '+' :: '0' :: 'x' :: v)).isEmpty = false := by
    rw [trimEnd_append_cons (by decide)]
    simp
  rw [Signature.isTraceEnd, Signature.isTraceEnd, same, visible]
  simp

theorem exists_append (appended : Appended loc plain longer) :
    ∃ blank, longer = plain ++ (blank ++ suffix loc) ∧ ∀ c ∈ blank, isWhitespace c = true := by
  obtain ⟨⟨u, v, rfl, rfl⟩, -, -⟩ := appended
  obtain ⟨blank, whole, isBlank⟩ := trimEnd_spec (u ++ '+' :: '0' :: 'x' :: v)
  exact ⟨blank, by rw [← List.append_assoc, ← whole], isBlank⟩

theorem hexOffset_infix (appended : Appended loc plain longer) : hexOffset <:+: plain := by
  obtain ⟨⟨u, v, rfl, -⟩, -, -⟩ := appended
  refine ⟨u, trimEnd v, ?_⟩
  have radix : u ++ '+' :: '0' :: 'x' :: v = (u ++ "+0".toList) ++ 'x' :: v := by simp
  rw [radix, trimEnd_append_cons (by decide)]
  simp [hexOffset]

/-- A location is no short mark, so no mark before it is stripped. -/
theorem stripFrameMarkers (appended : Appended loc plain longer) (n : ℕ) :
    stripFrameMarkers n longer = longer := by
  obtain ⟨⟨u, v, -, rfl⟩, visible, long⟩ := appended
  cases n with
  | zero => rfl
  | succ n =>
    have last : ¬ (' ' :: "(".toList) <:+: "(".toList ++ (loc ++ ")".toList) := by
      intro inside
      have blank : ' ' ∈ "(".toList ++ (loc ++ ")".toList) := inside.subset (by decide)
      have inLocation : ' ' ∈ loc := by simpa using blank
      have := visible ' ' inLocation
      contradiction
    have pieces : u ++ '+' :: '0' :: 'x' :: v ++ suffix loc = u ++ '+' :: '0' :: 'x' :: v ++
        (" (".toList ++ (loc ++ ")".toList)) := by simp [suffix]
    have split : rsplitOnce " (".toList (u ++ '+' :: '0' :: 'x' :: v ++ suffix loc) =
        some (u ++ '+' :: '0' :: 'x' :: v, loc ++ ")".toList) :=
      pieces ▸ rsplitOnce_append last (u ++ '+' :: '0' :: 'x' :: v)
    have tooLong : ¬ byteLen (loc ++ ")".toList) ≤ 3 := by
      have bytes := length_le_byteLen (loc ++ ")".toList)
      rw [List.length_append] at bytes
      have : ")".toList.length = 1 := rfl
      omega
    rw [Signature.stripFrameMarkers, split]
    simp only [tooLong, if_false, ite_self]

theorem bracket_iff (appended : Appended loc plain longer) :
    " [".toList <:+: longer ↔ " [".toList <:+: plain := by
  rw [appended.infix_iff (by decide) (forall_eq_some_of_all (by decide)) (by decide) (by decide)]
  apply or_iff_left
  intro inside
  have blank := appended.visible ' ' (inside.subset (by decide))
  contradiction

/-- With a location the module annotation runs up to its closing bracket. -/
theorem module_longer (appended : Appended loc plain longer) (bracket : " [".toList <:+: plain) :
    ∃ m, (splitModule longer).2 = some m ∧ suffix loc <:+ m := by
  obtain ⟨blank, text, -⟩ := appended.exists_append
  obtain ⟨⟨left, right⟩, split⟩ := Option.isSome_iff_exists.mp (contains_iff.mpr bracket)
  have closing : right ++ (blank ++ suffix loc) = (right ++ (blank ++ (" (".toList ++ loc))) ++ [')'] := by
    simp [suffix]
  refine ⟨right ++ (blank ++ suffix loc), ?_, ?_⟩
  · rw [text, splitModule_of_splitOnce (splitOnce_append split _), closing, trimEndMatches,
      List.rdropWhile_concat_neg _ _ _ (by decide)]
  · exact ⟨right ++ blank, by simp⟩

theorem frameParts (appended : Appended loc plain longer) :
    (hexOffset <:+: (frameParts longer).1 ↔ hexOffset <:+: (frameParts plain).1) ∧
      normalizeSymbol (frameParts longer).1 = normalizeSymbol (frameParts plain).1 := by
  have body := appended.unquestioned
  obtain ⟨blank, text, -⟩ := body.exists_append
  have leading : Signature.stripFrameMarkers (Signature.unquestioned plain).length
      (Signature.unquestioned plain) <+: Signature.unquestioned longer :=
    (stripFrameMarkers_isPrefix _ _).trans (text ▸ List.prefix_append _ _)
  rw [Signature.frameParts, Signature.frameParts, body.stripFrameMarkers]
  exact splitModule_of_prefix leading (hexOffset_stripFrameMarkers body.hexOffset_infix _)

theorem isSome_parseFrame (appended : Appended loc plain longer) :
    (parseFrame longer).isSome = (parseFrame plain).isSome := by
  have offset := appended.frameParts.1
  rw [← contains_iff, ← contains_iff, ← Bool.eq_iff_iff] at offset
  rw [parseFrame_eq, parseFrame_eq, offset]
  split_ifs <;> rfl

theorem verdict (appended : Appended loc plain longer) :
    verdict longer =
      { verdict plain with marked := Signature.hasMarker plain || Signature.hasMarker loc } := by
  rw [Signature.verdict, appended.hasMarker, appended.isTraceHeader, appended.isTraceEnd,
    appended.isSome_parseFrame]
  rfl

/-- The frame has the same symbol with a location. -/
theorem sameSymbol (appended : Appended loc plain longer) (frame : (parseFrame plain).isSome) :
    (frameOf plain).SameSymbol (frameOf longer) := by
  have frame' : (parseFrame longer).isSome := appended.isSome_parseFrame ▸ frame
  rw [frameOf_eq frame, frameOf_eq frame']
  exact ⟨appended.startsWith (by decide), appended.frameParts.2⟩

/-- Without a module annotation the frame has no module, with or without a location. -/
theorem module_of_no_bracket (appended : Appended loc plain longer)
    (frame : (parseFrame plain).isSome)
    (noBracket : ¬ " [".toList <:+: Signature.unquestioned plain) :
    (frameOf longer).module = (frameOf plain).module := by
  have frame' : (parseFrame longer).isSome := appended.isSome_parseFrame ▸ frame
  have body := appended.unquestioned
  have noBracket' : ¬ " [".toList <:+: Signature.unquestioned longer :=
    fun inside => noBracket (body.bracket_iff.mp inside)
  have noBracket'' : ¬ " [".toList <:+: Signature.stripFrameMarkers
      (Signature.unquestioned plain).length (Signature.unquestioned plain) :=
    fun inside => noBracket (inside.trans (stripFrameMarkers_isPrefix _ _).isInfix)
  rw [frameOf_eq frame, frameOf_eq frame', Signature.frameParts, Signature.frameParts,
    body.stripFrameMarkers, splitModule_of_not_isInfix noBracket',
    splitModule_of_not_isInfix noBracket'']

/-- With a module annotation the location becomes a part of the module. -/
theorem module_of_bracket (appended : Appended loc plain longer)
    (frame : (parseFrame plain).isSome) (bracket : " [".toList <:+: Signature.unquestioned plain) :
    ∃ m, (frameOf longer).module = some m ∧ suffix loc <:+ m := by
  have frame' : (parseFrame longer).isSome := appended.isSome_parseFrame ▸ frame
  have body := appended.unquestioned
  rw [frameOf_eq frame', Signature.frameParts, body.stripFrameMarkers]
  exact body.module_longer bracket

/-- The location is one more word. -/
theorem splitWhitespace (appended : Appended loc plain longer) :
    Text.splitWhitespace longer =
      Text.splitWhitespace plain ++ ["(".toList ++ loc ++ ")".toList] := by
  obtain ⟨blank, text, isBlank⟩ := appended.exists_append
  have visible : ∀ c ∈ "(".toList ++ loc ++ ")".toList, isWhitespace c = false := by
    intro c member
    rw [List.append_assoc, List.mem_append, List.mem_append] at member
    rcases member with opening | inLocation | closing
    · rw [List.mem_singleton.mp opening]
      decide
    · exact appended.visible c inLocation
    · rw [List.mem_singleton.mp closing]
      decide
  have pieces : longer = (plain ++ blank) ++ ' ' :: ("(".toList ++ loc ++ ")".toList) := by
    simp [text, suffix]
  rw [pieces, splitWhitespace_append_cons (by decide), splitWhitespace_append_blank isBlank,
    splitWhitespace_of_visible (by simp) visible]

/-- An exception line with a location is normalized to another text. -/
theorem normalizeException_ne (appended : Appended loc plain longer) :
    normalizeException longer ≠ normalizeException plain := by
  rw [normalizeException, normalizeException, splitWhitespace_trim, splitWhitespace_trim,
    appended.splitWhitespace]
  exact normalizeTokens_append_ne (telling_parenthesized loc) false [] _
    (fun impossible => absurd impossible Bool.false_ne_true)

/-- The location is kept unless a noise word takes it along. -/
theorem length_le_normalizeException (appended : Appended loc plain longer)
    (unskipped : skips false (Text.splitWhitespace plain) = false) :
    loc.length ≤ (normalizeException longer).length := by
  obtain ⟨out, same⟩ := normalizeTokens_append false [] (Text.splitWhitespace plain)
  have telling := telling_parenthesized loc
  have kept : isDropped ("(".toList ++ loc ++ ")".toList) = false := by
    rw [isDropped, telling.noHex, telling.noCounter]
    rfl
  rw [normalizeException, splitWhitespace_trim, appended.splitWhitespace,
    same _ (List.cons_ne_nil _ _), unskipped, normalizeTokens_cons, kept, bareToken_parenthesized]
  simp only [List.isEmpty_nil, Bool.not_true, Bool.and_false, Bool.false_eq_true, if_false,
    normalizeTokens]
  unfold pushWord
  split_ifs <;> simp <;> omega

end Appended

end UcrashReport.Signature
