import UcrashReport.Rust.Regex
import Mathlib.Data.List.Forall2
import Mathlib.Logic.Relation

/-! # Replacements between delimiters

Delimiters cut a text into tokens, each with the characters on its two sides. An expression that
takes no delimiter is replaced token by token: what becomes of a token depends on the token, on the
character before it and on the text that follows it, of which a match sees the first character.
-/

namespace Rust

section Pairs

variable {α β γ : Type*} {R : α → β → Prop} {as : List α} {bs : List β}

theorem forall₂_comp {S : β → γ → Prop} {cs : List γ} (first : List.Forall₂ R as bs)
    (second : List.Forall₂ S bs cs) : List.Forall₂ (Relation.Comp R S) as cs := by
  induction first generalizing cs with
  | nil =>
    cases second
    exact .nil
  | cons here rest ih =>
    cases second with
    | cons here' rest' => exact .cons ⟨_, here, here'⟩ (ih rest')

theorem forall₂_and {S : α → β → Prop} (first : List.Forall₂ R as bs)
    (second : List.Forall₂ S as bs) : List.Forall₂ (fun a b => R a b ∧ S a b) as bs := by
  induction first with
  | nil => exact .nil
  | cons here rest ih =>
    cases second with
    | cons here' rest' => exact .cons ⟨here, here'⟩ (ih rest')

theorem exists_right_of_forall₂ (pairs : List.Forall₂ R as bs) {a : α} (member : a ∈ as) :
    ∃ b ∈ bs, R a b := by
  induction pairs with
  | nil => contradiction
  | cons here rest ih =>
    rcases List.mem_cons.mp member with rfl | later
    · exact ⟨_, List.mem_cons_self, here⟩
    · obtain ⟨b, member, related⟩ := ih later
      exact ⟨b, .tail _ member, related⟩

theorem exists_left_of_forall₂ (pairs : List.Forall₂ R as bs) {b : β} (member : b ∈ bs) :
    ∃ a ∈ as, R a b :=
  exists_right_of_forall₂ pairs.flip member

end Pairs

/-- A part of a text between two delimiters or ends. -/
structure Token where
  before : Option Char
  text : Text
  after : Option Char
deriving DecidableEq, Repr

theorem getLast?_or_cons {α : Type*} (c : α) (cs : List α) (before : Option α) :
    (c :: cs).getLast?.or before = cs.getLast?.or (some c) := by
  cases cs with
  | nil => rfl
  | cons d ds =>
    rw [List.getLast?_cons_cons, List.getLast?_eq_some_getLast (List.cons_ne_nil d ds)]
    rfl

section Tokens

variable {delimiter : Char → Bool}

def tokens (delimiter : Char → Bool) : Option Char → Text → List Token
  | before, [] => [⟨before, [], none⟩]
  | before, c :: cs =>
    if delimiter c then ⟨before, [], some c⟩ :: tokens delimiter (some c) cs
    else (tokens delimiter before cs).modifyHead fun token => { token with text := c :: token.text }

theorem tokens_of_free {s : Text} (free : ∀ c ∈ s, delimiter c = false) (before : Option Char) :
    tokens delimiter before s = [⟨before, s, none⟩] := by
  induction s with
  | nil => rfl
  | cons c cs ih =>
    rw [tokens, free c List.mem_cons_self, ih fun d member => free d (.tail c member)]
    rfl

theorem tokens_append {s : Text} (free : ∀ c ∈ s, delimiter c = false) {d : Char}
    (delimits : delimiter d = true) (before : Option Char) (tail : Text) :
    tokens delimiter before (s ++ d :: tail) =
      ⟨before, s, some d⟩ :: tokens delimiter (some d) tail := by
  induction s with
  | nil => rw [List.nil_append, tokens, if_pos delimits]
  | cons c cs ih =>
    rw [List.cons_append, tokens, free c List.mem_cons_self,
      ih fun d member => free d (.tail c member)]
    rfl

variable (delimiter) in
/-- Token by token to the last one. -/
theorem tokens_induction {motive : Text → Prop}
    (last : ∀ s, (∀ c ∈ s, delimiter c = false) → motive s)
    (delimited : ∀ s d tail, (∀ c ∈ s, delimiter c = false) → delimiter d = true → motive tail →
      motive (s ++ d :: tail)) (text : Text) : motive text := by
  have cut (s text : Text) (free : ∀ c ∈ s, delimiter c = false) : motive (s ++ text) := by
    induction text generalizing s with
    | nil =>
      rw [List.append_nil]
      exact last s free
    | cons c cs ih =>
      cases delimits : delimiter c with
      | true => exact delimited s c cs free delimits (ih [] (by simp))
      | false =>
        rw [List.append_cons]
        refine ih (s ++ [c]) fun d member => ?_
        rcases List.mem_append.mp member with inToken | here
        · exact free d inToken
        · rw [List.mem_singleton.mp here, delimits]
  exact cut [] text (by simp)

/-- Where the first delimiter is. -/
private theorem free_append_inj {s t tail right : Text} {d : Char}
    (free : ∀ c ∈ s, delimiter c = false) (delimits : delimiter d = true)
    (free' : ∀ c ∈ t, delimiter c = false) (starts : ∀ c ∈ right.head?, delimiter c = true)
    (same : s ++ d :: tail = t ++ right) : s = t ∧ d :: tail = right := by
  rcases List.append_eq_append_iff.mp same with ⟨more, rfl, rest⟩ | ⟨more, rfl, rest⟩
  · cases more with
    | nil => exact ⟨(List.append_nil s).symm, rest⟩
    | cons c more =>
      obtain ⟨rfl, -⟩ := List.cons.inj rest
      rw [free' d (by simp)] at delimits
      contradiction
  · cases more with
    | nil => exact ⟨List.append_nil t, rest.symm⟩
    | cons c more =>
      have here := starts c (by rw [rest, List.cons_append, List.head?_cons, Option.mem_some_iff])
      rw [free c (by simp)] at here
      contradiction

end Tokens

namespace Regex

variable {isWord : Char → Bool}

/-- The replacement of the matches in a text that another one follows. -/
def replaceIn (isWord : Char → Bool) (re : Regex) (new : Match → Text) (tail : Text) :
    ℕ → Option Char → Text → Text
  | _, _, [] => []
  | skip + 1, _, c :: cs => replaceIn isWord re new tail skip (some c) cs
  | 0, before, c :: cs =>
    match (matchAt isWord re before (c :: cs ++ tail)).filter fun m => m.taken ≠ [] with
    | some m => new m ++ replaceIn isWord re new tail (m.taken.length - 1) (some c) cs
    | none => c :: replaceIn isWord re new tail 0 (some c) cs

/-- A run takes nothing of a text that begins with a character that the expression avoids. -/
theorem Avoids.taken_isPrefix {re : Regex} {s tail : Text} (avoids : ∀ d ∈ tail.head?, re.Avoids d)
    {before : Option Char} {m : Match} (member : m ∈ runs isWord re before (s ++ tail)) :
    m.taken <+: s := by
  have text := runs_spec re before _ m member
  cases tail with
  | nil =>
    rw [List.append_nil] at text
    exact ⟨m.rest, text⟩
  | cons d tail =>
    have absent := (avoids d rfl).not_mem before _ m member
    rw [List.append_eq_append_iff] at text
    rcases text with ⟨more, rfl, -⟩ | ⟨more, taken, rest⟩
    · exact List.prefix_append _ _
    · cases more with
      | nil =>
        rw [List.append_nil] at taken
        exact taken ▸ List.prefix_refl _
      | cons e more =>
        obtain ⟨rfl, -⟩ := List.cons.inj rest
        simp [taken] at absent

theorem replaceFrom_append_tail {re : Regex} {new : Match → Text} {tail : Text}
    (avoids : ∀ d ∈ tail.head?, re.Avoids d) (skip : ℕ) (before : Option Char) (s : Text)
    (fits : skip ≤ s.length) :
    replaceFrom isWord re new skip before (s ++ tail) =
      replaceIn isWord re new tail skip before s ++
        replaceFrom isWord re new 0 (s.getLast?.or before) tail := by
  induction s generalizing skip before with
  | nil =>
    obtain rfl := Nat.le_zero.mp fits
    rfl
  | cons c cs ih =>
    rw [getLast?_or_cons]
    cases skip with
    | succ skip => exact ih skip (some c) (by simpa using fits)
    | zero =>
      rw [List.cons_append, replaceFrom, replaceIn, List.cons_append]
      cases found : (matchAt isWord re before (c :: (cs ++ tail))).filter fun m => m.taken ≠ [] with
      | none => exact congrArg (c :: ·) (ih 0 (some c) (Nat.zero_le _))
      | some m =>
        have inRuns := matchAt_spec (Option.filter_eq_some_iff.mp found).1
        rw [← List.cons_append] at inRuns
        have short := (Avoids.taken_isPrefix avoids inRuns).length_le
        rw [List.length_cons] at short
        dsimp only
        rw [ih _ (some c) (by omega), List.append_assoc]

/-- A delimiter is copied. -/
theorem replaceFrom_delimiter {re : Regex} {d : Char} (avoids : re.Avoids d) (new : Match → Text)
    (before : Option Char) (tail : Text) :
    replaceFrom isWord re new 0 before (d :: tail) =
      d :: replaceFrom isWord re new 0 (some d) tail := by
  have unmatched : ((matchAt isWord re before (d :: tail)).filter fun m => m.taken ≠ []) = none := by
    rw [Option.filter_eq_none_iff]
    intro m found
    have inRuns : m ∈ runs isWord re before ([] ++ d :: tail) := matchAt_spec found
    have nothing := Avoids.taken_isPrefix (by simpa using avoids) inRuns
    simpa using nothing
  rw [replaceFrom, unmatched]

section ReplaceIn

variable {re : Regex} {new : Match → Text} {tail : Text}

theorem replaceIn_skip (before : Option Char) (passed s : Text) :
    replaceIn isWord re new tail passed.length before (passed ++ s) =
      replaceIn isWord re new tail 0 (passed.getLast?.or before) s := by
  induction passed generalizing before with
  | nil => rfl
  | cons c cs ih =>
    rw [getLast?_or_cons, List.cons_append, List.length_cons, replaceIn]
    exact ih (some c)

theorem replaceIn_of_matchAt_none {before : Option Char} {c : Char} {cs : Text}
    (unmatched : matchAt isWord re before (c :: cs ++ tail) = none) :
    replaceIn isWord re new tail 0 before (c :: cs) =
      c :: replaceIn isWord re new tail 0 (some c) cs := by
  rw [replaceIn, unmatched]
  rfl

/-- A match at the start is replaced, and the rest of the text is next. -/
theorem replaceIn_of_matchAt {before : Option Char} {s : Text} {m : Match}
    (found : matchAt isWord re before (m.taken ++ s ++ tail) = some m) (progress : m.taken ≠ []) :
    replaceIn isWord re new tail 0 before (m.taken ++ s) =
      new m ++ replaceIn isWord re new tail 0 (m.taken.getLast?.or before) s := by
  cases taken : m.taken with
  | nil => exact absurd taken progress
  | cons c cs =>
    rw [taken, List.cons_append] at found
    have kept : (some m).filter (fun m => m.taken ≠ []) = some m := by simp [progress]
    rw [List.cons_append, replaceIn, found, kept, getLast?_or_cons]
    dsimp only
    rw [taken, List.length_cons, Nat.add_sub_cancel, replaceIn_skip]

/-- Where no match starts, nothing is replaced. -/
theorem replaceIn_of_no_match {before : Option Char} {s : Text}
    (unmatched : ∀ u v, s = u ++ v → ∀ m ∈ runs isWord re (u.getLast?.or before) (v ++ tail),
      m.taken = []) :
    replaceIn isWord re new tail 0 before s = s := by
  induction s generalizing before with
  | nil => rfl
  | cons c cs ih =>
    have here : ((matchAt isWord re before (c :: cs ++ tail)).filter fun m => m.taken ≠ []) =
        none := by
      rw [Option.filter_eq_none_iff]
      intro m found
      simpa using unmatched [] (c :: cs) rfl m (matchAt_spec found)
    rw [replaceIn, here]
    refine congrArg (c :: ·) (ih fun u v same m member => ?_)
    refine unmatched (c :: u) v (by rw [same, List.cons_append]) m ?_
    rwa [getLast?_or_cons]

/-- Where every match takes something, nothing is found, or the first match is replaced. -/
theorem replaceIn_first (avoids : ∀ d ∈ tail.head?, re.Avoids d)
    (progress : ∀ before s, ∀ m ∈ runs isWord re before s, m.taken ≠ []) (before : Option Char)
    (s : Text) :
    (replaceIn isWord re new tail 0 before s = s ∧
        ∀ u v, s = u ++ v → v ≠ [] → runs isWord re (u.getLast?.or before) (v ++ tail) = []) ∨
      ∃ u m w, s = u ++ (m.taken ++ w) ∧
        m ∈ runs isWord re (u.getLast?.or before) (m.taken ++ w ++ tail) ∧
        replaceIn isWord re new tail 0 before s =
          u ++ (new m ++
            replaceIn isWord re new tail 0 (m.taken.getLast?.or (u.getLast?.or before)) w) := by
  induction s generalizing before with
  | nil =>
    refine .inl ⟨rfl, fun u v same nonempty => absurd ?_ nonempty⟩
    exact (List.append_eq_nil_iff.mp same.symm).2
  | cons c cs ih =>
    cases found : matchAt isWord re before (c :: cs ++ tail) with
    | some m =>
      have member := matchAt_spec found
      obtain ⟨w, text⟩ := Avoids.taken_isPrefix avoids member
      rw [← text] at found member ⊢
      refine .inr ⟨[], m, w, rfl, member, ?_⟩
      exact replaceIn_of_matchAt found (progress _ _ m member)
    | none =>
      rw [replaceIn_of_matchAt_none found]
      obtain ⟨kept, unmatched⟩ | ⟨u, m, w, text, member, replaced⟩ := ih (some c)
      · refine .inl ⟨by rw [kept], fun u v same nonempty => ?_⟩
        cases u with
        | nil =>
          obtain rfl : c :: cs = v := same
          exact List.head?_eq_none_iff.mp found
        | cons d u =>
          obtain ⟨rfl, later⟩ := List.cons.inj same
          rw [getLast?_or_cons]
          exact unmatched u v later nonempty
      · refine .inr ⟨c :: u, m, w, by rw [text, List.cons_append], ?_, ?_⟩
        · rwa [getLast?_or_cons]
        · rw [replaced, getLast?_or_cons, List.cons_append]

/-- A text that is one match, wherever a match starts. -/
theorem replaceIn_whole {before : Option Char} {s : Text} (nonempty : s ≠ [])
    (whole : ∀ u v, s = u ++ v → ∀ m ∈ runs isWord re (u.getLast?.or before) (v ++ tail),
      m.taken = s)
    (found : ∃ m, m ∈ runs isWord re before (s ++ tail)) :
    ∃ m ∈ runs isWord re before (s ++ tail), m.taken = s ∧
      replaceIn isWord re new tail 0 before s = new m := by
  obtain ⟨m, member⟩ := found
  cases first : matchAt isWord re before (s ++ tail) with
  | none =>
    rw [matchAt, List.head?_eq_none_iff] at first
    rw [first] at member
    contradiction
  | some m =>
    have member := matchAt_spec first
    have taken := whole [] s rfl m member
    refine ⟨m, member, taken, ?_⟩
    have replaced : replaceIn isWord re new tail 0 before (m.taken ++ []) = new m ++ [] :=
      replaceIn_of_matchAt (by rw [List.append_nil, taken, first]) (by rwa [taken])
    rwa [List.append_nil, List.append_nil, taken] at replaced

/-- A character that is in no match is copied. -/
theorem mem_replaceIn_of_uncovered {before : Option Char} {left right : Text} {c : Char}
    (uncovered : ∀ u v, left ++ c :: right = u ++ v →
      ∀ m ∈ runs isWord re (u.getLast?.or before) (v ++ tail),
        m.taken = [] ∨ left.length < u.length ∨ u.length + m.taken.length ≤ left.length) :
    c ∈ replaceIn isWord re new tail 0 before (left ++ c :: right) := by
  induction length : left.length using Nat.strong_induction_on generalizing before left with
  | _ n ih =>
    subst length
    -- Past a part of the text on the left, the rest of it is shorter.
    have later (passed more : Text) (text : left = passed ++ more) (nonempty : passed ≠ []) :
        c ∈ replaceIn isWord re new tail 0 (passed.getLast?.or before) (more ++ c :: right) := by
      have shorter : more.length < left.length := by
        rw [text, List.length_append]
        have := List.length_pos_iff.mpr nonempty
        omega
      refine ih more.length shorter (fun u v same m member => ?_) rfl
      have here := uncovered (passed ++ u) v (by rw [text, List.append_assoc, same, List.append_assoc])
        m (by rwa [List.getLast?_append, Option.or_assoc])
      rw [text, List.length_append, List.length_append] at here
      refine here.imp_right fun bounds => ?_
      omega
    cases found : (matchAt isWord re before (left ++ c :: right ++ tail)).filter
      fun m => m.taken ≠ [] with
    | none =>
      cases left with
      | nil =>
        rw [List.nil_append] at found ⊢
        rw [replaceIn, found]
        exact List.mem_cons_self
      | cons d ds =>
        rw [List.cons_append, List.cons_append] at found
        rw [List.cons_append, replaceIn, List.cons_append, found]
        refine .tail d ?_
        exact later [d] ds rfl (by simp)
    | some m =>
      obtain ⟨here, progress⟩ := Option.filter_eq_some_iff.mp found
      have progress : m.taken ≠ [] := by simpa using progress
      have inRuns := matchAt_spec here
      have short : m.taken.length ≤ left.length := by
        rcases uncovered [] _ rfl m inRuns with nothing | before | passed
        · exact absurd nothing progress
        · simp at before
        · simpa using passed
      have isPrefix : m.taken <+: left := by
        have text := runs_spec re before _ m inRuns
        rw [List.append_assoc] at text
        exact List.prefix_of_prefix_length_le ⟨m.rest, text⟩ (List.prefix_append left _) short
      obtain ⟨more, text⟩ := isPrefix
      rw [← text, List.append_assoc m.taken more] at here ⊢
      rw [replaceIn_of_matchAt here progress]
      exact List.mem_append_right _ (later m.taken more text.symm progress)

/-- When every replacement keeps the match or has a character, the result is the text or has it. -/
theorem replaceIn_eq_or_mem {marker : Char} (avoids : ∀ d ∈ tail.head?, re.Avoids d)
    (replaced : ∀ m : Match, new m = m.taken ∨ marker ∈ new m) (skip : ℕ) (before : Option Char)
    (s : Text) :
    replaceIn isWord re new tail skip before s = s.drop skip ∨
      marker ∈ replaceIn isWord re new tail skip before s := by
  induction s generalizing skip before with
  | nil => cases skip <;> simp [replaceIn]
  | cons d ds ih =>
    cases skip with
    | succ skip => exact ih skip (some d)
    | zero =>
      rw [replaceIn]
      cases found : (matchAt isWord re before (d :: ds ++ tail)).filter fun m => m.taken ≠ [] with
      | none =>
        rcases ih 0 (some d) with same | marked
        · exact .inl (congrArg (d :: ·) same)
        · exact .inr (.tail d marked)
      | some m =>
        obtain ⟨here, progress⟩ := Option.filter_eq_some_iff.mp found
        obtain ⟨rest, text⟩ := Avoids.taken_isPrefix avoids (matchAt_spec here)
        dsimp only
        rcases replaced m with kept | marked
        · rcases ih (m.taken.length - 1) (some d) with same | marked
          · refine .inl ?_
            rw [same, kept, List.drop_zero]
            cases taken : m.taken with
            | nil => simp [taken] at progress
            | cons e more =>
              rw [taken, List.cons_append, List.cons.injEq] at text
              obtain ⟨rfl, rfl⟩ := text
              simp
          · exact .inr (List.mem_append_right _ marked)
        · exact .inr (List.mem_append_left _ marked)

/-- Every character of the result comes from the text or from a replacement. -/
theorem forall_mem_replaceIn {property : Char → Prop}
    (avoids : ∀ d ∈ tail.head?, re.Avoids d)
    (replaced : ∀ m : Match, (∀ c ∈ m.taken, property c) → (∀ g ∈ m.groups, g.2 <:+: m.taken) →
      ∀ c ∈ new m, property c)
    (skip : ℕ) (before : Option Char) (s : Text) (holds : ∀ c ∈ s, property c) :
    ∀ c ∈ replaceIn isWord re new tail skip before s, property c := by
  induction s generalizing skip before with
  | nil => cases skip <;> simp [replaceIn]
  | cons d ds ih =>
    have rest : ∀ c ∈ ds, property c := fun c member => holds c (.tail d member)
    cases skip with
    | succ skip => exact ih skip (some d) rest
    | zero =>
      intro c member
      rw [replaceIn] at member
      cases found : (matchAt isWord re before (d :: ds ++ tail)).filter fun m => m.taken ≠ [] with
      | none =>
        rw [found] at member
        rcases List.mem_cons.mp member with rfl | member
        · exact holds c List.mem_cons_self
        · exact ih 0 (some d) rest c member
      | some m =>
        have inRuns := matchAt_spec (Option.filter_eq_some_iff.mp found).1
        have inToken := (Avoids.taken_isPrefix avoids inRuns).subset
        rw [found] at member
        rcases List.mem_append.mp member with member | member
        · exact replaced m (fun e inTaken => holds e (inToken inTaken))
            (groups_isInfix re before _ m inRuns) c member
        · exact ih _ (some d) rest c member

end ReplaceIn

/-! ## Token by token -/

/-- What a replacement makes of a token. -/
structure Replaced (isWord : Char → Bool) (re : Regex) (new : Match → Text)
    (token replaced : Token) : Prop where
  before : replaced.before = token.before
  after : replaced.after = token.after
  avoids : ∀ d ∈ token.after, re.Avoids d
  text : ∃ tail, tail.head? = token.after ∧
    replaced.text = replaceIn isWord re new tail 0 token.before token.text

/-- A first character at which nothing is found is copied. -/
theorem Replaced.behind {re : Regex} {new : Match → Text} {before after : Option Char} {c : Char}
    {cs : Text} {replaced : Token} (pass : Replaced isWord re new ⟨before, c :: cs, after⟩ replaced)
    (unmatched : ∀ s, matchAt isWord re before (c :: s) = none) :
    ∃ rest, replaced = ⟨before, c :: rest, after⟩ ∧
      Replaced isWord re new ⟨some c, cs, after⟩ ⟨some c, rest, after⟩ := by
  obtain ⟨tail, head, same⟩ := pass.text
  refine ⟨replaceIn isWord re new tail 0 (some c) cs, ?_, rfl, rfl, pass.avoids, tail, head, rfl⟩
  have copied := same.trans (replaceIn_of_matchAt_none (unmatched (cs ++ tail)))
  rw [Token.mk.injEq]
  exact ⟨pass.before, copied, pass.after⟩

theorem tokens_replaceFrom {delimiter : Char → Bool} {re : Regex} {new : Match → Text}
    (avoids : ∀ d, delimiter d = true → re.Avoids d)
    (free : ∀ m : Match, (∀ c ∈ m.taken, delimiter c = false) →
      (∀ g ∈ m.groups, g.2 <:+: m.taken) → ∀ c ∈ new m, delimiter c = false)
    (before : Option Char) (text : Text) :
    List.Forall₂ (Replaced isWord re new) (tokens delimiter before text)
      (tokens delimiter before (replaceFrom isWord re new 0 before text)) := by
  have piece (s tail : Text) (avoidsTail : ∀ d ∈ tail.head?, re.Avoids d)
      (freeToken : ∀ c ∈ s, delimiter c = false) (before : Option Char) :
      ∀ c ∈ replaceIn isWord re new tail 0 before s, delimiter c = false :=
    forall_mem_replaceIn avoidsTail free 0 before s freeToken
  induction text using tokens_induction delimiter generalizing before with
  | last s freeToken =>
    have whole : replaceFrom isWord re new 0 before (s ++ []) =
        replaceIn isWord re new [] 0 before s ++ [] :=
      replaceFrom_append_tail (by simp) 0 before s (Nat.zero_le _)
    rw [List.append_nil, List.append_nil] at whole
    rw [whole, tokens_of_free freeToken, tokens_of_free (piece s [] (by simp) freeToken before)]
    exact .cons ⟨rfl, rfl, by simp, [], rfl, rfl⟩ .nil
  | delimited s d tail freeToken delimits ih =>
    have avoidsTail : ∀ e ∈ (d :: tail).head?, re.Avoids e := by simpa using avoids d delimits
    rw [replaceFrom_append_tail avoidsTail 0 before s (Nat.zero_le _),
      replaceFrom_delimiter (avoids d delimits), tokens_append freeToken delimits,
      tokens_append (piece s _ avoidsTail freeToken before) delimits]
    exact .cons ⟨rfl, rfl, by simpa using avoids d delimits, d :: tail, rfl, rfl⟩ (ih (some d))

end Regex

end Rust
