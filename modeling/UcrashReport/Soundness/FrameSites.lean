import UcrashReport.Soundness.FrameNumbers

/-! # Frames and their numbers

The parser takes the same steps on two lines that differ in their hex numbers only. What it keeps of
a line may still have numbers: a return address in front of the symbol stays in the symbol, and a
module annotation runs from the first ` [` to the end of the line, with a second address and its
offset where an ARM kernel prints them.
-/

namespace UcrashReport.Signature

open Rust Rust.Text

theorem truncateAt_of_infix {pat f : Text} (inside : pat <:+: f) (y : Text) :
    truncateAt pat (f ++ y) = truncateAt pat f := by
  obtain ⟨parts, split⟩ := Option.isSome_iff_exists.mp (contains_iff.mpr inside)
  rw [truncateAt, truncateAt, splitOnce_append split, split]

theorem truncateAt_isPrefix (pat s : Text) : truncateAt pat s <+: s := by
  rw [truncateAt]
  split
  · next split => exact ⟨_, (splitOnce_spec split).symm⟩
  · exact List.prefix_rfl

/-- A number in the module annotation stays in it. -/
theorem splitModule_number {f left right : Text}
    (split : splitOnce " [".toList f = some (left, right)) (d : HexDigits) (x : Text) :
    splitModule (f ++ (d.text ++ x)) =
      (left, some (right ++ (d.text ++ trimEndMatches ']' x))) := by
  obtain ⟨u, c, text, digit⟩ := d.exists_getLast
  have noBracket : c ≠ ']' := by
    rintro rfl
    contradiction
  have kept : trimEndMatches ']' (right ++ u ++ c :: x) =
      right ++ u ++ c :: trimEndMatches ']' x := by
    unfold trimEndMatches List.rdropWhile
    rw [List.reverse_append, List.reverse_cons, List.append_assoc, List.dropWhile_append]
    split_ifs with all
    · simp [List.isEmpty_iff.mp all, noBracket]
    · simp
  rw [splitModule_of_splitOnce (splitOnce_append split _), text]
  simpa using kept

theorem normalizeSymbol_eq (s : Text) :
    normalizeSymbol s = frameCuts.foldl (fun out cut => truncateAt cut out) (trim s) := by
  rw [normalizeSymbol, frameCuts, List.foldl_cons, List.foldl_map]

theorem numberFree_of_mem_frameCuts {cut : Text} (member : cut ∈ frameCuts) : NumberFree cut :=
  numberFree_of_mem (by simp [searched, member])

namespace Front

variable {f x : Text} (front : Front f)

include front

/-! ## The symbol -/

theorem foldl_truncateAt_of_infix {cuts : List Text} (free : ∀ cut ∈ cuts, NumberFree cut)
    (inside : ∃ cut ∈ cuts, cut <:+: f) (ends : NumberEnds x) :
    ∃ kept, ∀ d : HexDigits,
      cuts.foldl (fun out cut => truncateAt cut out) (f ++ (d.text ++ x)) = kept := by
  induction cuts generalizing x with
  | nil => simp at inside
  | cons cut cuts ih =>
    by_cases here : cut <:+: f
    · refine ⟨cuts.foldl (fun out cut => truncateAt cut out) (truncateAt cut f), fun d => ?_⟩
      rw [List.foldl_cons, truncateAt_of_infix here]
    · have later : ∃ cut ∈ cuts, cut <:+: f := by simpa [here] using inside
      obtain ⟨kept, same⟩ := ih (fun cut member => free cut (List.mem_cons_of_mem _ member)) later
        (ends.of_isPrefix (truncateAt_isPrefix cut x))
      refine ⟨kept, fun d => ?_⟩
      rw [List.foldl_cons, front.truncateAt_of_not_infix ends (free cut List.mem_cons_self) here,
        same]

theorem foldl_truncateAt_of_not_infix {cuts : List Text} (free : ∀ cut ∈ cuts, NumberFree cut)
    (absent : ∀ cut ∈ cuts, ¬ cut <:+: f) (ends : NumberEnds x) :
    ∃ x', NumberEnds x' ∧ ∀ d : HexDigits,
      cuts.foldl (fun out cut => truncateAt cut out) (f ++ (d.text ++ x)) = f ++ (d.text ++ x') := by
  induction cuts generalizing x with
  | nil => exact ⟨x, ends, fun _ => rfl⟩
  | cons cut cuts ih =>
    obtain ⟨x', ends', same⟩ := ih (fun cut member => free cut (List.mem_cons_of_mem _ member))
      (fun cut member => absent cut (List.mem_cons_of_mem _ member))
      (ends.of_isPrefix (truncateAt_isPrefix cut x))
    refine ⟨x', ends', fun d => ?_⟩
    rw [List.foldl_cons, front.truncateAt_of_not_infix ends (free cut List.mem_cons_self)
      (absent cut List.mem_cons_self), same]

/-- A number behind the symbol is dropped. -/
theorem normalizeSymbol_of_isInfix (inside : ∃ cut ∈ frameCuts, cut <:+: f) (ends : NumberEnds x) :
    ∃ kept, ∀ d : HexDigits, normalizeSymbol (f ++ (d.text ++ x)) = kept := by
  obtain ⟨kept, same⟩ := front.foldl_truncateAt_of_infix
    (fun cut member => numberFree_of_mem_frameCuts member) inside
    (ends.of_isPrefix (trimEnd_isPrefix x))
  refine ⟨kept, fun d => ?_⟩
  rw [normalizeSymbol_eq, front.trim_append, trimEnd_digits, same]

/-- Any other number stays in the symbol. -/
theorem normalizeSymbol_of_not_isInfix (absent : ∀ cut ∈ frameCuts, ¬ cut <:+: f)
    (ends : NumberEnds x) :
    ∃ x', NumberEnds x' ∧ ∀ d : HexDigits,
      normalizeSymbol (f ++ (d.text ++ x)) = f ++ (d.text ++ x') := by
  obtain ⟨x', ends', same⟩ := front.foldl_truncateAt_of_not_infix
    (fun cut member => numberFree_of_mem_frameCuts member) absent
    (ends.of_isPrefix (trimEnd_isPrefix x))
  refine ⟨x', ends', fun d => ?_⟩
  rw [normalizeSymbol_eq, front.trim_append, trimEnd_digits, same]

theorem isMachinery_congr (ends : NumberEnds x) (d d' : HexDigits) :
    isMachinery (f ++ (d'.text ++ x)) = isMachinery (f ++ (d.text ++ x)) := by
  have avoids : ∀ p ∈ skipPrefixes, avoidsNumbers p = true := by decide +kernel
  have leading (d : HexDigits) : skipPrefixes.any (fun p => startsWith p (f ++ (d.text ++ x))) =
      skipPrefixes.any fun p => startsWith p f := by
    rw [Bool.eq_iff_iff, List.any_eq_true, List.any_eq_true]
    refine exists_congr fun p => and_congr_right fun member => ?_
    rw [startsWith_iff, startsWith_iff]
    exact front.prefix_iff ends (avoids p member) d
  have ending (d : HexDigits) : endsWith "_exception".toList (f ++ (d.text ++ x)) =
      endsWith "_exception".toList x := by
    rw [Bool.eq_iff_iff, endsWith_iff, endsWith_iff]
    exact front.suffix_iff ends (numberFree_of_mem (by simp [searched])) d
  rw [isMachinery, isMachinery, leading, leading, ending, ending]

/-- Whether a symbol counts and whether it is machinery does not depend on a number. -/
theorem symbol_congr (ends : NumberEnds x) (d d' : HexDigits) :
    (normalizeSymbol (f ++ (d'.text ++ x)) = [] ↔ normalizeSymbol (f ++ (d.text ++ x)) = []) ∧
      isMachinery (normalizeSymbol (f ++ (d'.text ++ x))) =
        isMachinery (normalizeSymbol (f ++ (d.text ++ x))) := by
  by_cases inside : ∃ cut ∈ frameCuts, cut <:+: f
  · obtain ⟨kept, same⟩ := front.normalizeSymbol_of_isInfix inside ends
    rw [same, same]
    exact ⟨Iff.rfl, rfl⟩
  · obtain ⟨x', ends', same⟩ :=
      front.normalizeSymbol_of_not_isInfix (by simpa using inside) ends
    rw [same, same]
    exact ⟨iff_of_false (front.ne_nil _) (front.ne_nil _), front.isMachinery_congr ends' d d'⟩

theorem splitModule_of_not_infix (absent : ¬ " [".toList <:+: f) (ends : NumberEnds x)
    (d : HexDigits) :
    splitModule (f ++ (d.text ++ x)) =
      (f ++ (d.text ++ (splitModule x).1), (splitModule x).2) := by
  have split := front.splitOnce_of_not_infix ends (numberFree_of_mem (by decide)) absent d
  rw [splitModule, splitModule, split]
  cases splitOnce " [".toList x <;> rfl

end Front

/-! ## The frame of a line -/

/-- What the module and the end of the symbol are read from behind a number. -/
def afterNumber (x : Text) : Text := stripFrameMarkers (trimEnd x).length (trimEnd x)

theorem afterNumber_isPrefix (x : Text) : afterNumber x <+: x :=
  (stripFrameMarkers_isPrefix _ _).trans (trimEnd_isPrefix x)

namespace Front

variable {g x : Text} (front : Front g) (ends : NumberEnds x)

include front ends

theorem parseFrame_append (d : HexDigits) :
    parseFrame (g ++ (d.text ++ x)) =
      let parts := splitModule (unquestioned g ++ (d.text ++ afterNumber x))
      if contains "+0x".toList parts.1 then some ⟨parts.1, parts.2, startsWith "? ".toList g⟩
      else none := by
  obtain ⟨front', same⟩ := front.unquestioned_append
  have enough : (trimEnd x).length ≤ (unquestioned g ++ (d.text ++ trimEnd x)).length := by
    simp only [List.length_append]
    omega
  simp only [parseFrame, same, trimEnd_digits, front.startsWith_mark,
    front'.stripFrameMarkers_append d _ (ends.of_isPrefix (trimEnd_isPrefix x)),
    stripFrameMarkers_of_length_le enough]
  rfl

/-- In front of the module annotation stands the whole frame. -/
theorem parseFrame_of_infix {left right : Text}
    (split : splitOnce " [".toList (unquestioned g) = some (left, right)) (d : HexDigits) :
    parseFrame (g ++ (d.text ++ x)) =
      if contains "+0x".toList left then
        some ⟨left, some (right ++ (d.text ++ trimEndMatches ']' (afterNumber x))),
          startsWith "? ".toList g⟩
      else none := by
  rw [front.parseFrame_append ends, splitModule_number split]

theorem parseFrame_of_not_infix (absent : ¬ " [".toList <:+: unquestioned g) (d : HexDigits) :
    parseFrame (g ++ (d.text ++ x)) =
      if "+0x".toList <:+: unquestioned g ∨ "+0x".toList <:+: (splitModule (afterNumber x)).1 then
        some ⟨unquestioned g ++ (d.text ++ (splitModule (afterNumber x)).1),
          (splitModule (afterNumber x)).2, startsWith "? ".toList g⟩
      else none := by
  have front' := front.unquestioned_append.1
  have ends' := ends.of_isPrefix (afterNumber_isPrefix x)
  have found := front'.infix_iff (ends'.of_isPrefix (splitModule_isPrefix (afterNumber x)))
    (numberFree_of_mem (show "+0x".toList ∈ searched by decide)) d
  rw [front.parseFrame_append ends, front'.splitModule_of_not_infix absent ends']
  simp only [contains_iff, found]

theorem verdict_congr (d d' : HexDigits) :
    verdict (g ++ (d'.text ++ x)) = verdict (g ++ (d.text ++ x)) := by
  have marked (d : HexDigits) : hasMarker (g ++ (d.text ++ x)) = (hasMarker g || hasMarker x) := by
    rw [Bool.eq_iff_iff, Bool.or_eq_true, hasMarker_iff, hasMarker_iff, hasMarker_iff, ← exists_or]
    refine exists_congr fun m => ?_
    rw [← and_or_left]
    refine and_congr_right fun member => ?_
    exact front.infix_iff ends (numberFree_of_mem (by simp [searched, member])) d
  have header (d : HexDigits) : isTraceHeader (g ++ (d.text ++ x)) = isTraceHeader g := by
    have leading {pat : Text} (avoids : avoidsNumbers pat = true) :
        startsWith pat (g ++ (d.text ++ x)) = startsWith pat g := by
      rw [Bool.eq_iff_iff, startsWith_iff, startsWith_iff]
      exact front.prefix_iff ends avoids d
    rw [isTraceHeader, isTraceHeader, leading (by decide), leading (by decide)]
  have ending (d : HexDigits) : isTraceEnd (g ++ (d.text ++ x)) =
      (contains "---[ end trace".toList g || contains "---[ end trace".toList x) := by
    have visible : (g ++ (d.text ++ x)).isEmpty = false :=
      List.isEmpty_eq_false_iff.mpr (front.ne_nil _)
    rw [isTraceEnd, visible, Bool.or_false, Bool.eq_iff_iff, Bool.or_eq_true, contains_iff,
      contains_iff, contains_iff]
    exact front.infix_iff ends (numberFree_of_mem (by simp [searched])) d
  have frame : (parseFrame (g ++ (d'.text ++ x))).isSome =
      (parseFrame (g ++ (d.text ++ x))).isSome := by
    by_cases inside : " [".toList <:+: unquestioned g
    · obtain ⟨parts, split⟩ := Option.isSome_iff_exists.mp (contains_iff.mpr inside)
      rw [front.parseFrame_of_infix ends split, front.parseFrame_of_infix ends split]
      split_ifs <;> rfl
    · rw [front.parseFrame_of_not_infix ends inside, front.parseFrame_of_not_infix ends inside]
      split_ifs <;> rfl
  rw [verdict, verdict, marked, marked, header, header, ending, ending, frame]

end Front

/-- Two frames that differ in their symbols and modules at most, and count alike. -/
structure Frame.CountsLike (f g : Frame) : Prop where
  questionable : g.questionable = f.questionable
  empty : normalizeSymbol g.symbol = [] ↔ normalizeSymbol f.symbol = []
  machinery : isMachinery (normalizeSymbol g.symbol) = isMachinery (normalizeSymbol f.symbol)

theorem Frame.CountsLike.counted {f g : Frame} (alike : f.CountsLike g) :
    g.Counted ↔ f.Counted := by
  rw [Frame.Counted, Frame.Counted, alike.questionable, Ne, Ne, alike.empty]

namespace Front

variable {g x : Text} (front : Front g) (ends : NumberEnds x)

include front ends

theorem countsLike (d d' : HexDigits) :
    (frameOf (g ++ (d.text ++ x))).CountsLike (frameOf (g ++ (d'.text ++ x))) := by
  by_cases inside : " [".toList <:+: unquestioned g
  · obtain ⟨parts, split⟩ := Option.isSome_iff_exists.mp (contains_iff.mpr inside)
    rw [frameOf, frameOf, front.parseFrame_of_infix ends split,
      front.parseFrame_of_infix ends split]
    split_ifs
    · exact ⟨rfl, Iff.rfl, rfl⟩
    · exact ⟨rfl, (front.symbol_congr ends d d').1, (front.symbol_congr ends d d').2⟩
  · have front' := front.unquestioned_append.1
    have ends' := (ends.of_isPrefix (afterNumber_isPrefix x)).of_isPrefix (splitModule_isPrefix _)
    rw [frameOf, frameOf, front.parseFrame_of_not_infix ends inside,
      front.parseFrame_of_not_infix ends inside]
    split_ifs
    · exact ⟨rfl, (front'.symbol_congr ends' d d').1, (front'.symbol_congr ends' d d').2⟩
    · exact ⟨rfl, (front.symbol_congr ends d d').1, (front.symbol_congr ends d d').2⟩

end Front

/-! ## Numbers that stay -/

/-- What ends the symbol of a frame. -/
def symbolEnds : List Text := " [".toList :: frameCuts

/-- The text of a frame line up to a place, without log prefix and question mark. -/
def frontOf (v : Text) : Text := unquestioned (stripPrintkPrefix v)

/-- Some number of the line stands in its symbol. -/
def NumberInSymbol (line : Text) : Prop :=
  ∃ v d x, IsNumber v d x ∧ line = v ++ (d.text ++ x) ∧ ∀ mark ∈ symbolEnds, ¬ mark <:+: frontOf v

/-- Some number of the line stands in its module annotation. -/
def NumberInModule (line : Text) : Prop :=
  ∃ v d x, IsNumber v d x ∧ line = v ++ (d.text ++ x) ∧ " [".toList <:+: frontOf v

namespace SameUpToNumbers

variable {line line' : Text} (same : SameUpToNumbers line line')

include same

/-- What does not depend on one number behind a stripped front is the same for both lines. -/
theorem congr_stripped {β : Type*} (F : Text → β)
    (step : ∀ v d x, IsNumber v d x → line = v ++ (d.text ++ x) → Front (stripPrintkPrefix v) →
      ∀ (d' : HexDigits) (y : Text), NumberEnds y →
        F (stripPrintkPrefix v ++ (d'.text ++ y)) = F (stripPrintkPrefix v ++ (d.text ++ y))) :
    F (stripPrintkPrefix line') = F (stripPrintkPrefix line) := by
  refine same.congr (fun s => F (stripPrintkPrefix s)) fun v d x number text d' x' ends => ?_
  obtain ⟨front, stripped⟩ := number.stripPrintkPrefix_append
  rw [stripped, stripped, trimEnd_digits, trimEnd_digits]
  exact step v d x number text front d' _ (ends.of_isPrefix (trimEnd_isPrefix x'))

theorem verdict_eq : verdict (stripPrintkPrefix line') = verdict (stripPrintkPrefix line) :=
  same.congr_stripped verdict fun _ d _ _ _ front d' _ ends => front.verdict_congr ends d d'

theorem countsLike :
    (frameOf (stripPrintkPrefix line)).CountsLike (frameOf (stripPrintkPrefix line')) := by
  let counts (s : Text) : Bool × Bool × Bool :=
    ((frameOf s).questionable, decide (normalizeSymbol (frameOf s).symbol = []),
      isMachinery (normalizeSymbol (frameOf s).symbol))
  have alike : counts (stripPrintkPrefix line') = counts (stripPrintkPrefix line) := by
    refine same.congr_stripped counts fun _ d _ _ _ front d' _ ends => ?_
    obtain ⟨questionable, empty, machinery⟩ := front.countsLike ends d d'
    simp only [counts, questionable, empty, machinery]
  simp only [counts, Prod.mk.injEq, decide_eq_decide] at alike
  exact ⟨alike.1, alike.2.1, alike.2.2⟩

theorem module_eq (noNumber : ¬ NumberInModule line) :
    (frameOf (stripPrintkPrefix line')).module = (frameOf (stripPrintkPrefix line)).module := by
  let module (s : Text) : Option Text := (frameOf s).module
  have alike : module (stripPrintkPrefix line') = module (stripPrintkPrefix line) := by
    refine same.congr_stripped module fun v d x number text front d' y ends => ?_
    have absent : ¬ " [".toList <:+: unquestioned (stripPrintkPrefix v) := fun inside =>
      noNumber ⟨v, d, x, number, text, inside⟩
    simp only [module, frameOf, front.parseFrame_of_not_infix ends absent]
    split_ifs <;> rfl
  simpa only [module] using alike

theorem symbol_eq (noNumber : ¬ NumberInSymbol line)
    (frame : (parseFrame (stripPrintkPrefix line)).isSome = true) :
    normalizeSymbol (frameOf (stripPrintkPrefix line')).symbol =
      normalizeSymbol (frameOf (stripPrintkPrefix line)).symbol := by
  let symbol (s : Text) : Option Text := (parseFrame s).map fun f => normalizeSymbol f.symbol
  have alike : symbol (stripPrintkPrefix line') = symbol (stripPrintkPrefix line) := by
    refine same.congr_stripped symbol fun v d x number text front d' y ends => ?_
    by_cases inside : " [".toList <:+: unquestioned (stripPrintkPrefix v)
    · obtain ⟨parts, split⟩ := Option.isSome_iff_exists.mp (contains_iff.mpr inside)
      simp only [symbol, front.parseFrame_of_infix ends split]
      split_ifs <;> rfl
    · have cut : ∃ cut ∈ frameCuts, cut <:+: unquestioned (stripPrintkPrefix v) := by
        by_contra none
        refine noNumber ⟨v, d, x, number, text, fun mark member found => ?_⟩
        rcases List.mem_cons.mp member with rfl | member
        · exact inside found
        · exact none ⟨mark, member, found⟩
      have ends' := (ends.of_isPrefix (afterNumber_isPrefix y)).of_isPrefix (splitModule_isPrefix _)
      obtain ⟨kept, dropped⟩ := front.unquestioned_append.1.normalizeSymbol_of_isInfix cut ends'
      simp only [symbol, front.parseFrame_of_not_infix ends inside]
      split_ifs
      · rw [Option.map_some, Option.map_some, dropped, dropped]
      · rfl
  obtain ⟨f, parsed⟩ := Option.isSome_iff_exists.mp frame
  simp only [symbol] at alike
  rw [parsed, Option.map_some, Option.map_eq_some_iff] at alike
  obtain ⟨f', parsed', symbols⟩ := alike
  rw [frameOf, frameOf, parsed, parsed', Option.getD_some, Option.getD_some, symbols]

end SameUpToNumbers

/-! ## Longer numbers -/

def zeros (n : ℕ) : HexDigits where
  text := List.replicate (n + 1) '0'
  nonempty := by simp
  digits c member := by rw [List.eq_of_mem_replicate member]; decide

namespace IsNumber

variable {v x : Text} {d : HexDigits} (number : IsNumber v d x)

include number

theorem ends : NumberEnds x := by
  cases number with
  | offset _ _ _ _ _ =>
    intro c first
    obtain rfl : '/' = c := Option.some.inj first
    decide
  | size _ ends _ _ _ => exact ends
  | address _ _ _ =>
    intro c first
    obtain rfl : '>' = c := Option.some.inj first
    decide

theorem stripPrintkPrefix_line (d' : HexDigits) :
    stripPrintkPrefix (v ++ (d'.text ++ x)) = stripPrintkPrefix v ++ (d'.text ++ trimEnd x) := by
  rw [number.stripPrintkPrefix_append.2, trimEnd_digits]

/-- The line with another number is a frame line too. -/
theorem exists_frame (frame : (parseFrame (stripPrintkPrefix (v ++ (d.text ++ x)))).isSome = true)
    (d' : HexDigits) : ∃ f, parseFrame (stripPrintkPrefix (v ++ (d'.text ++ x))) = some f := by
  have answer (line : Text) : (verdict line).frame = (parseFrame line).isSome := rfl
  have same := congrArg Verdict.frame (SameUpToNumbers.of_isNumber number d').verdict_eq
  rw [answer, answer, frame] at same
  exact Option.isSome_iff_exists.mp same

/-- However long the number gets, it is in the symbol. -/
theorem length_symbol (frame : (parseFrame (stripPrintkPrefix (v ++ (d.text ++ x)))).isSome = true)
    (inSymbol : ∀ mark ∈ symbolEnds, ¬ mark <:+: frontOf v) (n : ℕ) :
    n < (normalizeSymbol
      (frameOf (stripPrintkPrefix (v ++ ((zeros n).text ++ x)))).symbol).length := by
  obtain ⟨f, parsed⟩ := number.exists_frame frame (zeros n)
  have front := number.stripPrintkPrefix_append.1
  have ends := number.ends.of_isPrefix (trimEnd_isPrefix x)
  have absent : ¬ " [".toList <:+: unquestioned (stripPrintkPrefix v) :=
    inSymbol _ List.mem_cons_self
  have ends' := (ends.of_isPrefix (afterNumber_isPrefix _)).of_isPrefix (splitModule_isPrefix _)
  obtain ⟨x', -, kept⟩ := front.unquestioned_append.1.normalizeSymbol_of_not_isInfix
    (fun cut member => inSymbol cut (List.mem_cons_of_mem _ member)) ends'
  have text := parsed
  rw [number.stripPrintkPrefix_line, front.parseFrame_of_not_infix ends absent] at text
  obtain ⟨-, rfl⟩ := Option.ite_none_right_eq_some.mp text |>.imp_right Option.some.inj
  rw [frameOf, parsed, Option.getD_some]
  dsimp only
  rw [kept]
  simp only [zeros, List.length_append, List.length_replicate]
  omega

/-- However long the number gets, it is in the module. -/
theorem length_module (frame : (parseFrame (stripPrintkPrefix (v ++ (d.text ++ x)))).isSome = true)
    (inModule : " [".toList <:+: frontOf v) (n : ℕ) :
    ∃ m, (frameOf (stripPrintkPrefix (v ++ ((zeros n).text ++ x)))).module = some m ∧
      n < m.length := by
  obtain ⟨f, parsed⟩ := number.exists_frame frame (zeros n)
  have front := number.stripPrintkPrefix_append.1
  have ends := number.ends.of_isPrefix (trimEnd_isPrefix x)
  obtain ⟨parts, split⟩ := Option.isSome_iff_exists.mp (contains_iff.mpr inModule)
  have text := parsed
  rw [number.stripPrintkPrefix_line, front.parseFrame_of_infix ends split] at text
  obtain ⟨-, rfl⟩ := Option.ite_none_right_eq_some.mp text |>.imp_right Option.some.inj
  rw [frameOf, parsed, Option.getD_some]
  refine ⟨_, rfl, ?_⟩
  simp only [zeros, List.length_append, List.length_replicate]
  omega

end IsNumber

end UcrashReport.Signature
