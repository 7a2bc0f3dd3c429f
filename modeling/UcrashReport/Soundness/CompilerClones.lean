import UcrashReport.Common.FrameLines
import UcrashReport.Rust.Markers

/-! # Compiler clones

A function of the kernel goes by the name of its clone in some builds, behind which the trace prints
an offset and a size. A normalized symbol ends before the earliest marker of either, whatever the
order in which they are cut off, so that all clones of a function are counted as that function.
-/

namespace UcrashReport.Signature

open Rust Rust.Text

/-! ## Markers -/

/-- Where an offset or a compiler suffix begins. -/
def symbolMarkers : List Text := "+0x".toList :: compilerSuffixes.map ('.' :: ·)

theorem symbolMarkers_crisp : Crisp symbolMarkers := by decide +kernel

theorem truncateAt_eq_beforeAny (marker s : Text) : truncateAt marker s = beforeAny [marker] s := by
  induction s with
  | nil => cases marker <;> rfl
  | cons c cs ih =>
    by_cases begins : marker <+: c :: cs
    · obtain ⟨rest, same⟩ := begins
      have found : marker.isPrefixOf? (c :: cs) = some rest :=
        List.isPrefixOf?_eq_some_iff_append_eq.mpr same
      rw [beforeAny_of_begins (List.mem_singleton_self marker) ⟨rest, same⟩, truncateAt, splitOnce,
        found]
    · have unfound : marker.isPrefixOf? (c :: cs) = none := by
        rw [Option.eq_none_iff_forall_ne_some]
        intro rest found
        exact begins ⟨rest, List.isPrefixOf?_eq_some_iff_append_eq.mp found⟩
      rw [beforeAny_cons (by simpa using begins), ← ih, truncateAt, truncateAt, splitOnce, unfound]
      cases splitOnce marker cs <;> rfl

/-- The cuts in any order. -/
theorem foldl_truncateAt {order : List Text} (sameMarkers : order.Perm symbolMarkers) (s : Text) :
    order.foldl (fun out marker => truncateAt marker out) s = beforeAny symbolMarkers s := by
  simp only [truncateAt_eq_beforeAny]
  rw [foldl_beforeAny (symbolMarkers_crisp.subset sameMarkers.subset)]
  exact beforeAny_congr (fun _ => sameMarkers.mem_iff) s

theorem normalizeSymbol_eq_beforeAny (symbol : Text) :
    normalizeSymbol symbol = beforeAny symbolMarkers (trim symbol) :=
  foldl_truncateAt (List.Perm.refl symbolMarkers) (trim symbol)

/-! ## Clones -/

/-- What the compiler appends to the name of a function. -/
inductive CloneSuffix
  | constprop (number : Digits)
  | isra (number : Digits)
  | part (number : Digits)
  | cold (number : Option Digits)
  | ltoPriv (number : Digits)

def CloneSuffix.text : CloneSuffix → Text
  | constprop number => ".constprop.".toList ++ number.text
  | isra number => ".isra.".toList ++ number.text
  | part number => ".part.".toList ++ number.text
  | cold none => ".cold".toList
  | cold (some number) => ".cold.".toList ++ number.text
  | ltoPriv number => ".lto_priv.".toList ++ number.text

/-- A symbol as a trace prints it: the name of a function, its compiler suffixes, the offset with the
size if any, and whitespace around them. -/
structure Clone where
  base : Text
  suffixes : List CloneSuffix
  place : Option (HexDigits × HexDigits)
  leading : Text
  trailing : Text
  base_unmarked : ∀ marker ∈ symbolMarkers, ¬ marker <:+: base
  base_head : ∀ c, base.head? = some c → isWhitespace c = false
  base_last : ∀ c, base.getLast? = some c → isWhitespace c = false
  leading_blank : ∀ c ∈ leading, isWhitespace c = true
  trailing_blank : ∀ c ∈ trailing, isWhitespace c = true

theorem CloneSuffix.begins (suffix : CloneSuffix) :
    ∃ marker ∈ symbolMarkers, marker <+: suffix.text := by
  cases suffix with
  | constprop number => exact ⟨".constprop".toList, by decide, '.' :: number.text, rfl⟩
  | isra number => exact ⟨".isra".toList, by decide, '.' :: number.text, rfl⟩
  | part number => exact ⟨".part".toList, by decide, '.' :: number.text, rfl⟩
  | cold number =>
    cases number with
    | none => exact ⟨".cold".toList, by decide, [], rfl⟩
    | some number => exact ⟨".cold".toList, by decide, '.' :: number.text, rfl⟩
  | ltoPriv number => exact ⟨".lto".toList, by decide, "_priv.".toList ++ number.text, rfl⟩

theorem CloneSuffix.chars (suffix : CloneSuffix) : ∀ c ∈ suffix.text, isEntryChar c = true := by
  have numbered {word : Text} (name : ∀ c ∈ word, isEntryChar c = true) (number : Digits) :
      ∀ c ∈ word ++ number.text, isEntryChar c = true := by
    intro c member
    obtain inWord | inNumber := List.mem_append.mp member
    · exact name c inWord
    · have digit := number.digits c inNumber
      exact isEntryChar_of_isIdentifierChar
        (isIdentifierChar_of_isAsciiHexdigit (by simp [isAsciiHexdigit, digit]))
  cases suffix with
  | constprop number => exact numbered (forall_mem_of_all (by decide)) number
  | isra number => exact numbered (forall_mem_of_all (by decide)) number
  | part number => exact numbered (forall_mem_of_all (by decide)) number
  | cold number =>
    cases number with
    | none => exact forall_mem_of_all (by decide)
    | some number => exact numbered (forall_mem_of_all (by decide)) number
  | ltoPriv number => exact numbered (forall_mem_of_all (by decide)) number

namespace Clone

variable (clone : Clone)

def placeText : Text :=
  match clone.place with
  | some (offset, size) => "+0x".toList ++ offset.text ++ "/0x".toList ++ size.text
  | none => []

/-- What stands behind the name of the function. -/
def tail : Text := clone.suffixes.flatMap CloneSuffix.text ++ clone.placeText

def text : Text := clone.leading ++ (clone.base ++ clone.tail) ++ clone.trailing

theorem tail_begins : clone.tail = [] ∨ ∃ marker ∈ symbolMarkers, marker <+: clone.tail := by
  unfold tail
  cases clone.suffixes with
  | nil =>
    unfold placeText
    cases clone.place with
    | none => exact .inl rfl
    | some place =>
      obtain ⟨offset, size⟩ := place
      exact .inr ⟨"+0x".toList, by decide, offset.text ++ "/0x".toList ++ size.text, by simp⟩
  | cons suffix suffixes =>
    obtain ⟨marker, member, begins⟩ := suffix.begins
    refine .inr ⟨marker, member, begins.trans ?_⟩
    rw [List.flatMap_cons, List.append_assoc]
    exact List.prefix_append _ _

theorem placeText_chars : ∀ c ∈ clone.placeText, isEntryChar c = true := by
  have hex (digits : HexDigits) : ∀ c ∈ digits.text, isEntryChar c = true := fun c member =>
    isEntryChar_of_isIdentifierChar (isIdentifierChar_of_isAsciiHexdigit (digits.digits c member))
  have offset : ∀ c ∈ "+0x".toList, isEntryChar c = true := forall_mem_of_all (by decide)
  have size : ∀ c ∈ "/0x".toList, isEntryChar c = true := forall_mem_of_all (by decide)
  unfold placeText
  cases clone.place with
  | none => simp
  | some place =>
    intro c member
    simp only [List.mem_append] at member
    obtain ((inPlus | inOffset) | inSlash) | inSize := member
    · exact offset c inPlus
    · exact hex place.1 c inOffset
    · exact size c inSlash
    · exact hex place.2 c inSize

theorem tail_visible : ∀ c ∈ clone.tail, isWhitespace c = false := by
  intro c member
  apply isWhitespace_of_isEntryChar
  obtain inSuffixes | inPlace := List.mem_append.mp member
  · obtain ⟨suffix, -, inSuffix⟩ := List.mem_flatMap.mp inSuffixes
    exact suffix.chars c inSuffix
  · exact clone.placeText_chars c inPlace

theorem trim_text : trim clone.text = clone.base ++ clone.tail := by
  have head : ∀ c, (clone.base ++ clone.tail).head? = some c → isWhitespace c = false := by
    intro c first
    rw [List.head?_append] at first
    cases inBase : clone.base.head? with
    | none =>
      rw [inBase, Option.none_or] at first
      exact clone.tail_visible c (List.mem_of_head? first)
    | some d => exact clone.base_head c (by simpa [inBase] using first)
  have last : ∀ c, (clone.base ++ clone.tail).getLast? = some c → isWhitespace c = false := by
    intro c final
    rw [List.getLast?_append] at final
    cases inTail : clone.tail.getLast? with
    | none =>
      rw [inTail, Option.none_or] at final
      exact clone.base_last c final
    | some d =>
      obtain rfl : d = c := by simpa [inTail] using final
      exact clone.tail_visible d (List.mem_of_getLast? inTail)
  rw [text, trim_between_blank clone.leading_blank clone.trailing_blank]
  exact trim_of_ends head last

/-- A clone is counted as the function that it is of. -/
theorem normalizeSymbol_text : normalizeSymbol clone.text = clone.base := by
  rw [normalizeSymbol_eq_beforeAny, trim_text]
  exact beforeAny_append symbolMarkers_crisp clone.base_unmarked clone.tail_begins

end Clone

/-- Every clone of a function is normalized to its name. In general a symbol is normalized to what
stands before the earliest marker, whatever the order in which the markers are tried. -/
theorem normalizeSymbol_spec :
    (∀ clone : Clone, normalizeSymbol clone.text = clone.base) ∧
      ∀ symbol, IsBefore symbolMarkers (trim symbol) (normalizeSymbol symbol) ∧
        ∀ order : List Text, order.Perm symbolMarkers →
          order.foldl (fun out marker => truncateAt marker out) (trim symbol) =
            normalizeSymbol symbol := by
  refine ⟨Clone.normalizeSymbol_text, fun symbol => ?_⟩
  rw [normalizeSymbol_eq_beforeAny]
  exact ⟨isBefore_beforeAny symbolMarkers (trim symbol),
    fun order sameMarkers => foldl_truncateAt sameMarkers (trim symbol)⟩

/-- The markers from the last to the first. -/
theorem foldl_truncateAt_reverse :
    symbolMarkers.reverse.foldl (fun out marker => truncateAt marker out)
      (trim " tcf_action_exec.isra.5.cold+0x80/0x1a8".toList) = "tcf_action_exec".toList :=
  ((normalizeSymbol_spec.2 " tcf_action_exec.isra.5.cold+0x80/0x1a8".toList).2
    symbolMarkers.reverse (List.reverse_perm symbolMarkers)).trans (by decide +kernel)

end UcrashReport.Signature
