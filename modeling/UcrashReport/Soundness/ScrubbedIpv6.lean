import UcrashReport.Soundness.ScrubbedGroups

/-! # IPv6 addresses in scrubbed texts

Which IPv6 addresses scrubbing erases. What is left of the others: an address that begins with two
colons is not seen, one that ends with them only where a word follows, six groups before the two
colons are taken without those behind them, and six groups of two digits are masked as a MAC address
first, which keeps the vendor part.
-/

namespace UcrashReport.Scrub

open Rust Rust.Text Regex

variable {classes : CharClasses} {token scrubbed : Token} {gs hs : List Text}

/-- Six groups of two digits in a row. -/
def HasMac (fields : List Text) : Prop :=
  ∃ pre bytes post : List Text, fields = pre ++ (bytes ++ post) ∧ bytes.length = 6 ∧
    ∀ byte ∈ bytes, IsHexByte byte

/-! ## Groups without an empty field -/

theorem hex_of_groups (groups : ∀ g ∈ gs, IsGroup g) :
    ∀ field ∈ gs, ∀ c ∈ field, isAsciiHexdigit c = true := fun field member => (groups field member).2

theorem prefers_groups {before : Option Char} {rest : Text} (groups : ∀ g ∈ gs, IsGroup g)
    (long : 6 ≤ gs.length) (short : gs.length ≤ 8) (outer : before.any classes.isWord = false)
    (outer' : rest.head?.any classes.isWord = false) (stops : Stops rest) :
    Prefers classes.isWord ipv6Re before (join ':' gs) rest := by
  rw [ipv6Re_eq]
  exact .alt_left (prefers_full groups long short outer outer' stops)

theorem exists_cons_of_join {g : Text} (isGroup : IsGroup g) (gs : List Text) :
    ∃ c cs, join ':' (g :: gs) = c :: cs ∧ isAsciiHexdigit c = true := by
  obtain ⟨c, cs, rfl, digit⟩ := isGroup.exists_cons
  exact ⟨c, cs ++ begun ':' gs, join_cons _ gs, digit⟩

/-- A few groups are no address. -/
theorem not_erased_of_few {before : Option Char} {tail : Text} (groups : ∀ g ∈ gs, IsGroup g)
    (nonempty : gs ≠ []) (few : gs.length ≤ 5) (piece : Piece classes ':' gs tail) :
    ¬ Erased (replaceIn classes.isWord ipv6Re maskIpv6 tail 0 before (join ':' gs)) := by
  obtain ⟨g, gs, rfl⟩ := List.exists_cons_of_ne_nil nonempty
  have split : g :: gs = [] ++ g :: gs := rfl
  refine not_erased_of_group (groups g List.mem_cons_self) piece split fun pre part post span => ?_
  have whole := span.split_eq
  have filled : [] ∉ part := fun empty => (groups [] (by rw [whole]; simp [empty])).ne_nil rfl
  have long := span.long_of_filled filled
  have lengths := congrArg List.length whole
  simp only [List.length_append] at lengths
  omega

/-- Groups are erased when there are six of them at least, none of them taken for a MAC address. -/
theorem groups_erased_iff (passes : Scrubbed classes token scrubbed)
    (text : token.text = join ':' gs) (nonempty : gs ≠ []) (short : gs.length ≤ 8)
    (groups : ∀ g ∈ gs, IsGroup g) :
    Erased scrubbed.text ↔
      6 ≤ gs.length ∧ token.before.any classes.isWord = false ∧
        token.after.any classes.isWord = false ∧ ¬ HasMac gs := by
  have few : gs.length < 12 := by omega
  have hexFields := hex_of_groups groups
  obtain ⟨fields', tail, macFields, after, piece, same⟩ :=
    passes.replaceIn_fields text nonempty few hexFields
  constructor
  · intro erased
    have outer : token.before.any classes.isWord = false := by
      obtain ⟨g, rest, rfl⟩ := List.exists_cons_of_ne_nil nonempty
      exact outer_of_erased passes text few hexFields (groups g List.mem_cons_self) erased rfl
    have outer' : token.after.any classes.isWord = false := by
      obtain ⟨rest, g, rfl⟩ := (List.eq_nil_or_concat gs).resolve_left nonempty
      rw [List.concat_eq_append] at *
      exact outer'_of_erased passes text few hexFields (groups g (by simp)) erased rfl
    rw [same] at erased
    cases macFields with
    | masked pre bytes post window =>
      have lengths := congrArg List.length window.split
      simp only [List.length_append, window.length] at lengths
      refine absurd erased (not_erased_of_vendor piece ?_ (by omega) window.length window.hexBytes)
      exact fun g member => groups g (by rw [window.split]; simp [member])
    | kept absent =>
      refine ⟨?_, outer, outer', ?_⟩
      · by_contra long
        exact not_erased_of_few groups nonempty (by omega) piece erased
      · rintro ⟨pre, bytes, post, split, length, hexBytes⟩
        exact absent pre bytes post ⟨split, length, hexBytes, fun _ => outer, fun _ => outer'⟩
  · rintro ⟨long, outer, outer', noMac⟩
    have unchanged : fields' = gs := by
      cases macFields with
      | kept => rfl
      | masked pre bytes post window =>
        exact absurd ⟨pre, bytes, post, window.split, window.length, window.hexBytes⟩ noMac
    subst unchanged
    have avoids : ∀ d ∈ tail.head?, ipv6Re.Avoids d := fun d first => (piece.avoids d first).2.2
    have prefers : Prefers classes.isWord ipv6Re token.before (join ':' fields') ([] ++ tail) :=
      prefers_groups groups long short outer (after ▸ outer') (stops_of_avoids avoids)
    obtain ⟨g, rest, rfl⟩ := List.exists_cons_of_ne_nil nonempty
    obtain ⟨c, cs, shape, digit⟩ := exists_cons_of_join (groups g List.mem_cons_self) rest
    have erased := erased_of_prefers prefers shape digit avoids (by simp [Erased])
    rwa [List.append_nil, ← same] at erased

/-! ## Groups before an empty field -/

/-- Six bytes stand on one side of an empty field. -/
theorem bytes_beside {pre bytes post rest : List Text} (length : bytes.length = 6)
    (hexBytes : ∀ byte ∈ bytes, IsHexByte byte)
    (split : gs ++ [] :: rest = pre ++ (bytes ++ post)) :
    (∃ behind, gs = pre ++ (bytes ++ behind)) ∨
      ∃ front, pre = gs ++ [] :: front ∧ rest = front ++ (bytes ++ post) := by
  have filled : [] ∉ bytes := fun empty => (hexBytes [] empty).isGroup.ne_nil rfl
  obtain ⟨front, rfl, right⟩ | ⟨front, rfl, right⟩ := List.append_eq_append_iff.mp split
  · cases front with
    | nil =>
      obtain ⟨byte, bytes, rfl⟩ := List.exists_cons_of_ne_nil (l := bytes) (by
        rintro rfl
        exact absurd length (by decide))
      obtain ⟨rfl, -⟩ := List.cons.inj right
      exact absurd List.mem_cons_self filled
    | cons field front =>
      obtain ⟨rfl, later⟩ := List.cons.inj right
      exact .inr ⟨front, rfl, later⟩
  · obtain ⟨behind, rfl, -⟩ | ⟨behind, rfl, later⟩ := List.append_eq_append_iff.mp right
    · exact .inl ⟨behind, rfl⟩
    · cases behind with
      | nil => exact .inl ⟨[], by simp⟩
      | cons field behind =>
        obtain ⟨rfl, -⟩ := List.cons.inj later
        exact absurd (by simp) filled

/-- What a match takes from the start of groups before an empty field. -/
theorem span_of_first {before after : Option Char} {part post rest : List Text}
    (groups : ∀ g ∈ gs, IsGroup g) (few : gs.length ≤ 5)
    (span : Span classes before after (gs ++ [] :: rest) [] part post) :
    (∃ hs, part = gs ++ [] :: hs ∧ rest = hs ++ post ∧ hs ≠ [] ∧ ∀ h ∈ hs, IsGroup h) ∨
      ∃ b behind, part = gs ++ [[]] ∧ rest = b :: behind ∧
        (b = [] → behind = [] ∧ after.any classes.isWord = true) := by
  have filled {gs : List Text} (groups : ∀ g ∈ gs, IsGroup g) : gs.count [] = 0 :=
    List.count_eq_zero.mpr fun empty => (groups [] empty).ne_nil rfl
  cases span with
  | full split long groups' outer outer' =>
    have begins : gs ++ [[]] <+: gs ++ [] :: rest := ⟨rest, by simp⟩
    have inPart : gs ++ [[]] <+: part := by
      apply List.prefix_of_prefix_length_le begins (split ▸ List.prefix_append part post)
      rw [List.length_append, List.length_singleton]
      omega
    exact absurd rfl (groups' [] (inPart.subset (by simp))).ne_nil
  | short gs' hs split shape nonempty nonempty' groups' groups'' outer outer' =>
    rw [List.nil_append, shape, List.append_assoc, List.cons_append] at split
    obtain ⟨rfl, rfl⟩ := append_sep_injective ((filled groups).trans (filled groups').symm) split
    exact .inl ⟨hs, shape, rfl, nonempty', groups''⟩
  | cut gs' b behind split shape next nonempty groups' outer word =>
    rw [List.nil_append, shape, List.append_assoc, List.singleton_append, next] at split
    obtain ⟨rfl, rfl⟩ := append_sep_injective ((filled groups).trans (filled groups').symm) split
    exact .inr ⟨b, behind, shape, rfl, word⟩

theorem filled_colons (groups : ∀ g ∈ gs, IsGroup g) (rest : List Text)
    (others : ∀ field ∈ rest, field = [] ∨ IsGroup field) :
    ∀ field ∈ gs ++ [] :: rest, ∀ c ∈ field, isAsciiHexdigit c = true := by
  intro field member c inField
  rw [List.mem_append, List.mem_cons] at member
  obtain inLeft | rfl | inRight := member
  · exact (groups field inLeft).2 c inField
  · contradiction
  · obtain rfl | isGroup := others field inRight
    · contradiction
    · exact isGroup.2 c inField

/-- Groups with two colons behind them. -/
theorem left_erased_iff (passes : Scrubbed classes token scrubbed)
    (text : token.text = join ':' (gs ++ [[], []])) (nonempty : gs ≠ []) (short : gs.length ≤ 7)
    (groups : ∀ g ∈ gs, IsGroup g) :
    Erased scrubbed.text ↔
      token.before.any classes.isWord = false ∧
        if gs.length ≤ 5 then token.after.any classes.isWord = true else ¬ HasMac gs := by
  have few : (gs ++ [[], []]).length < 12 := by simp; omega
  have hexFields := filled_colons groups [[]] (by simp)
  have notEmpty : gs ++ [[], []] ≠ [] := by simp
  obtain ⟨fields', tail, macFields, after, piece, same⟩ :=
    passes.replaceIn_fields text notEmpty few hexFields
  have avoids : ∀ d ∈ tail.head?, ipv6Re.Avoids d := fun d first => (piece.avoids d first).2.2
  -- A MAC address is among the groups.
  have inGroups {pre bytes post : List Text} (window : MacWindow classes token.before token.after
      (gs ++ [[], []]) pre bytes post) : ∃ behind, gs = pre ++ (bytes ++ behind) := by
    refine (bytes_beside window.length window.hexBytes window.split).resolve_right ?_
    rintro ⟨front, -, right⟩
    have lengths := congrArg List.length right
    simp only [List.length_cons, List.length_nil, List.length_append, window.length] at lengths
    omega
  constructor
  · intro erased
    have outer : token.before.any classes.isWord = false := by
      obtain ⟨g, rest, rfl⟩ := List.exists_cons_of_ne_nil nonempty
      exact outer_of_erased passes text few hexFields (groups g List.mem_cons_self) erased rfl
    refine ⟨outer, ?_⟩
    rw [same] at erased
    cases macFields with
    | masked pre bytes post window =>
      obtain ⟨behind, split⟩ := inGroups window
      have lengths := congrArg List.length split
      simp only [List.length_append, window.length] at lengths
      refine absurd erased (not_erased_of_vendor piece ?_ (by omega) window.length window.hexBytes)
      exact fun g member => groups g (by rw [split]; simp [member])
    | kept absent =>
      split_ifs with few
      · by_contra noWord
        obtain ⟨g, rest, rfl⟩ := List.exists_cons_of_ne_nil nonempty
        have split : (g :: rest) ++ [[], []] = [] ++ g :: (rest ++ [[], []]) := rfl
        refine not_erased_of_group (groups g List.mem_cons_self) piece split
          (fun pre part post span => .inl (List.length_pos_iff.mpr ?_)) erased
        rintro rfl
        obtain ⟨hs, -, right, nonempty', groups'⟩ | ⟨b, behind, -, right, word⟩ :=
          span_of_first groups few span
        · obtain ⟨h, hs, rfl⟩ := List.exists_cons_of_ne_nil nonempty'
          obtain ⟨rfl, -⟩ := List.cons.inj right
          exact (groups' [] List.mem_cons_self).ne_nil rfl
        · obtain ⟨rfl, -⟩ := List.cons.inj right
          exact noWord (after ▸ (word rfl).2)
      · rintro ⟨pre, bytes, post, split, length, hexBytes⟩
        refine absent pre bytes (post ++ [[], []])
          ⟨by rw [split]; simp, length, hexBytes, fun _ => outer, fun empty => ?_⟩
        simp at empty
  · rintro ⟨outer, condition⟩
    have unchanged : fields' = gs ++ [[], []] := by
      cases macFields with
      | kept => rfl
      | masked pre bytes post window =>
        obtain ⟨behind, split⟩ := inGroups window
        have long := congrArg List.length split
        simp only [List.length_append, window.length] at long
        rw [if_neg (by omega)] at condition
        exact absurd ⟨pre, bytes, behind, split, window.length, window.hexBytes⟩ condition
    subst unchanged
    obtain ⟨g, rest, rfl⟩ := List.exists_cons_of_ne_nil nonempty
    obtain ⟨c, cs, rfl, digit⟩ := (groups g List.mem_cons_self).exists_cons
    rw [same]
    split_ifs at condition with few
    · have fails : Fails classes.isWord (bounded fullParts) token.before
          (join ':' (((c :: cs) :: rest) ++ [[], []]) ++ tail) := fails_full piece rfl few
      have whole : join ':' (((c :: cs) :: rest) ++ [[], []]) =
          ended ':' ((c :: cs) :: rest) ++ [':'] := by
        rw [← ended_append_join]
        simp
      rw [whole] at fails ⊢
      have word : ([] ++ tail).head?.any classes.isWord = true := after ▸ condition
      have prefers : Prefers classes.isWord ipv6Re token.before
          (ended ':' ((c :: cs) :: rest) ++ [':']) ([] ++ tail) := by
        rw [ipv6Re_eq]
        exact .alt_right fails
          (prefers_cut groups nonempty outer word (stops_of_avoids avoids).digit)
      have erased := erased_of_prefers prefers
        (by rw [ended_cons, List.cons_append, List.cons_append]) digit avoids (by simp [Erased])
      rwa [List.append_nil] at erased
    · have whole : join ':' (((c :: cs) :: rest) ++ [[], []]) =
          join ':' ((c :: cs) :: rest) ++ "::".toList := by
        rw [join_around (List.cons_ne_nil _ rest) (List.cons_ne_nil [] []), join_singleton,
          List.append_nil]
        rfl
      have stops : Stops ("::".toList ++ tail) := by
        refine ⟨stops_colon _, fun c s same => ?_⟩
        obtain rfl : ':' = c := by
          have := congrArg (fun s => s.tail.head?) same
          simpa using this
        decide
      have prefers : Prefers classes.isWord ipv6Re token.before (join ':' ((c :: cs) :: rest))
          ("::".toList ++ tail) :=
        prefers_groups groups (by omega) (by omega) outer (isWord_colon classes) stops
      rw [whole]
      exact erased_of_prefers prefers (join_cons _ rest) digit avoids (forall_mem_of_all (by decide))

/-! ## Groups around an empty field -/

/-- What a match takes of the six groups before two colons does not reach the group behind them. -/
theorem not_erased_behind {before : Option Char} {tail h : Text} (groups : ∀ g ∈ gs, IsGroup g)
    (six : gs.length = 6) (isGroup : IsGroup h) (outer : before.any classes.isWord = false)
    (piece : Piece classes ':' (gs ++ [[], h]) tail) :
    ¬ Erased (replaceIn classes.isWord ipv6Re maskIpv6 tail 0 before
      (join ':' (gs ++ [[], h]))) := by
  have nonempty : gs ≠ [] := by
    rintro rfl
    contradiction
  have whole : join ':' (gs ++ [[], h]) = join ':' gs ++ ':' :: ':' :: h := by
    rw [join_around nonempty (List.cons_ne_nil h []), List.append_assoc, join_singleton]
    rfl
  have stops : Stops (':' :: ':' :: h ++ tail) := by
    refine ⟨stops_colon _, fun c s same => ?_⟩
    obtain rfl : ':' = c := (List.cons.inj (List.cons.inj same).2).1
    decide
  have prefers : Prefers classes.isWord ipv6Re before (join ':' gs) (':' :: ':' :: h ++ tail) :=
    prefers_groups groups (by omega) (by omega) outer (isWord_colon classes) stops
  have progress : join ':' gs ≠ [] := by
    obtain ⟨g, rest, rfl⟩ := List.exists_cons_of_ne_nil nonempty
    obtain ⟨c, cs, shape, -⟩ := exists_cons_of_join (groups g List.mem_cons_self) rest
    rw [shape]
    exact List.cons_ne_nil c cs
  have replaced : replaceIn classes.isWord ipv6Re maskIpv6 tail 0 before
      (join ':' gs ++ ':' :: ':' :: h) = maskIpv6 ⟨join ':' gs, ':' :: ':' :: h ++ tail, []⟩ ++
        replaceIn classes.isWord ipv6Re maskIpv6 tail 0 ((join ':' gs).getLast?.or before)
          (':' :: ':' :: h) := by
    refine replaceIn_of_matchAt (m := ⟨join ':' gs, ':' :: ':' :: h ++ tail, []⟩) ?_ progress
    rwa [List.append_assoc]
  have colon (before : Option Char) (s : Text) := (unmatched_colon classes before s).2.2
  have piece' : Piece classes ':' [h] tail :=
    piece_of_chars (List.cons_ne_nil h [])
      (fun field member c inField => .inl (isGroup.2 c (List.mem_singleton.mp member ▸ inField)))
      piece.avoids
  have kept : ¬ Erased (replaceIn classes.isWord ipv6Re maskIpv6 tail 0 (some ':')
      (join ':' [h])) :=
    not_erased_of_few (by simpa using isGroup) (List.cons_ne_nil h []) (by simp) piece'
  rw [join_singleton] at kept
  rw [whole, replaced, replaceIn_of_matchAt_none (colon _ _),
    replaceIn_of_matchAt_none (colon _ _)]
  intro erased
  exact kept fun c member => erased c (List.mem_append_right _ (.tail _ (.tail _ member)))

/-- What is masked as a MAC address behind two colons leaves groups behind them. -/
theorem fields_around {fields' : List Text} {before after : Option Char}
    (macFields : MacFields classes before after (gs ++ [] :: hs) fields')
    (groups' : ∀ h ∈ hs, IsGroup h) (nonempty : gs ≠ []) (nonempty' : hs ≠ []) (few : gs.length ≤ 5)
    (short : gs.length + hs.length ≤ 7) :
    ∃ hs' more, fields' = gs ++ [] :: (hs' ++ more) ∧ hs' ≠ [] ∧ (∀ h ∈ hs', IsGroup h) ∧
      (more = [] ∨ more = maskedBytes) := by
  cases macFields with
  | kept => exact ⟨hs, [], by rw [List.append_nil], nonempty', groups', .inl rfl⟩
  | masked pre bytes post window =>
    have positive := List.length_pos_iff.mpr nonempty
    obtain ⟨behind, split⟩ | ⟨front, left, right⟩ :=
      bytes_beside window.length window.hexBytes window.split
    · have lengths := congrArg List.length split
      simp only [List.length_append, window.length] at lengths
      omega
    · have lengths := congrArg List.length right
      simp only [List.length_append, window.length] at lengths
      obtain rfl := List.length_eq_zero_iff.mp (show front.length = 0 by omega)
      obtain rfl := List.length_eq_zero_iff.mp (show post.length = 0 by omega)
      refine ⟨bytes.take 3, maskedBytes, by simp [left], ?_, ?_, .inr rfl⟩
      · rw [← List.length_pos_iff, List.length_take, window.length]
        decide
      · exact fun h member => (window.hexBytes h (List.mem_of_mem_take member)).isGroup

theorem prefers_around {before : Option Char} {tail : Text} {more : List Text}
    (groups : ∀ g ∈ gs, IsGroup g) (nonempty : gs ≠ []) (groups' : ∀ h ∈ hs, IsGroup h)
    (nonempty' : hs ≠ []) (few : gs.length ≤ 5) (masked : more = [] ∨ more = maskedBytes)
    (outer : before.any classes.isWord = false) (outer' : tail.head?.any classes.isWord = false)
    (piece : Piece classes ':' (gs ++ [] :: (hs ++ more)) tail) :
    Prefers classes.isWord ipv6Re before (ended ':' gs ++ ':' :: join ':' hs)
        (begun ':' more ++ tail) ∧
      join ':' (gs ++ [] :: (hs ++ more)) = (ended ':' gs ++ ':' :: join ':' hs) ++ begun ':' more := by
  have whole : join ':' (gs ++ [] :: (hs ++ more)) =
      (ended ':' gs ++ ':' :: join ':' hs) ++ begun ':' more := by
    have parts : join ':' ([] ++ ((gs ++ [] :: hs) ++ more)) =
        ended ':' [] ++ (join ':' (gs ++ [] :: hs) ++ begun ':' more) :=
      join_append [] (by simp) more
    rw [ended_append_sep gs nonempty']
    simpa [ended] using parts
  have fails : Fails classes.isWord (bounded fullParts) before
      (join ':' (gs ++ [] :: (hs ++ more)) ++ tail) := fails_full piece rfl few
  rw [whole, List.append_assoc] at fails
  have avoids : ∀ d ∈ tail.head?, ipv6Re.Avoids d := fun d first => (piece.avoids d first).2.2
  refine ⟨?_, whole⟩
  rw [ipv6Re_eq]
  refine .alt_right fails (prefers_short groups nonempty groups' nonempty' outer ?_ ?_)
  · obtain rfl | rfl := masked
    · exact outer'
    · exact isWord_colon classes
  · obtain rfl | rfl := masked
    · exact stops_of_avoids avoids
    · refine ⟨stops_colon _, fun c s same => ?_⟩
      obtain rfl : 'x' = c := (List.cons.inj (List.cons.inj same).2).1
      decide

/-- Groups with two colons between them. -/
theorem around_erased_iff (passes : Scrubbed classes token scrubbed)
    (text : token.text = join ':' (gs ++ [] :: hs)) (nonempty : gs ≠ []) (nonempty' : hs ≠ [])
    (short : gs.length + hs.length ≤ 7) (groups : ∀ g ∈ gs, IsGroup g)
    (groups' : ∀ h ∈ hs, IsGroup h) :
    Erased scrubbed.text ↔
      gs.length ≤ 5 ∧ token.before.any classes.isWord = false ∧
        token.after.any classes.isWord = false := by
  have few : (gs ++ [] :: hs).length < 12 := by simp; omega
  have hexFields := filled_colons groups hs fun field member => .inr (groups' field member)
  have notEmpty : gs ++ [] :: hs ≠ [] := by simp
  obtain ⟨fields', tail, macFields, after, piece, same⟩ :=
    passes.replaceIn_fields text notEmpty few hexFields
  constructor
  · intro erased
    have outer : token.before.any classes.isWord = false := by
      obtain ⟨g, rest, rfl⟩ := List.exists_cons_of_ne_nil nonempty
      exact outer_of_erased passes text few hexFields (groups g List.mem_cons_self) erased rfl
    have outer' : token.after.any classes.isWord = false := by
      obtain ⟨rest, h, rfl⟩ := (List.eq_nil_or_concat hs).resolve_left nonempty'
      rw [List.concat_eq_append] at *
      have last : gs ++ [] :: (rest ++ [h]) = (gs ++ [] :: rest) ++ [h] := by simp
      exact outer'_of_erased passes text few hexFields (groups' h (by simp)) erased last
    refine ⟨?_, outer, outer'⟩
    by_contra many
    have positive := List.length_pos_iff.mpr nonempty'
    obtain ⟨h, rfl⟩ := List.length_eq_one_iff.mp (show hs.length = 1 by omega)
    rw [List.length_singleton] at short
    rw [same] at erased
    cases macFields with
    | kept absent =>
      exact not_erased_behind groups (by omega) (groups' h (by simp)) outer piece erased
    | masked pre bytes post window =>
      obtain ⟨behind, split⟩ | ⟨front, left, right⟩ :=
        bytes_beside window.length window.hexBytes window.split
      · have lengths := congrArg List.length split
        simp only [List.length_append, window.length] at lengths
        refine not_erased_of_vendor piece ?_ (by omega) window.length window.hexBytes erased
        exact fun g member => groups g (by rw [split]; simp [member])
      · have lengths := congrArg List.length right
        simp only [List.length_append, List.length_singleton, window.length] at lengths
        omega
  · rintro ⟨few, outer, outer'⟩
    obtain ⟨hs', more, rfl, nonempty'', groups'', masked⟩ :=
      fields_around macFields groups' nonempty nonempty' few short
    obtain ⟨prefers, whole⟩ := prefers_around groups nonempty groups'' nonempty'' few masked outer
      (after ▸ outer') piece
    have avoids : ∀ d ∈ tail.head?, ipv6Re.Avoids d := fun d first => (piece.avoids d first).2.2
    have erased : Erased (begun ':' more) := by
      obtain rfl | rfl := masked
      · simp [Erased, begun]
      · exact forall_mem_of_all (by decide)
    obtain ⟨g, rest, rfl⟩ := List.exists_cons_of_ne_nil nonempty
    obtain ⟨c, cs, rfl, digit⟩ := (groups g List.mem_cons_self).exists_cons
    rw [same, whole]
    exact erased_of_prefers prefers (by rw [ended_cons, List.cons_append, List.cons_append]) digit
      avoids erased

/-! ## Addresses -/

/-- An IPv6 address in groups of hex digits: eight of them, or fewer with two colons in place of the
others. -/
inductive Ipv6
  | full (gs : List Text) (length : gs.length = 8) (groups : ∀ g ∈ gs, IsGroup g)
  | compressed (gs hs : List Text) (short : gs.length + hs.length ≤ 7)
      (groups : ∀ g ∈ gs, IsGroup g) (groups' : ∀ h ∈ hs, IsGroup h)

namespace Ipv6

def text : Ipv6 → Text
  | full gs _ _ => join ':' gs
  | compressed gs hs _ _ _ => join ':' gs ++ "::".toList ++ join ':' hs

/-- The addresses that scrubbing leaves. -/
def IsExempt (address : Ipv6) : Prop :=
  address.text = "::".toList ∨ address.text = "::1".toList

/-- When scrubbing erases an address between these characters. -/
def IsMasked (classes : CharClasses) (before after : Option Char) : Ipv6 → Prop
  | full gs _ _ =>
    before.any classes.isWord = false ∧ after.any classes.isWord = false ∧ ¬ HasMac gs
  | compressed [] hs _ _ _ => 6 ≤ hs.length ∧ after.any classes.isWord = false ∧ ¬ HasMac hs
  | compressed (g :: gs) [] _ _ _ =>
    before.any classes.isWord = false ∧
      if (g :: gs).length ≤ 5 then after.any classes.isWord = true else ¬ HasMac (g :: gs)
  | compressed (g :: gs) (_ :: _) _ _ _ =>
    (g :: gs).length ≤ 5 ∧ before.any classes.isWord = false ∧ after.any classes.isWord = false

end Ipv6

theorem Ipv6.erased_iff (passes : Scrubbed classes token scrubbed) (address : Ipv6)
    (text : token.text = address.text) (identifies : ¬ address.IsExempt) :
    Erased scrubbed.text ↔ address.IsMasked classes token.before token.after := by
  cases address with
  | full gs length groups =>
    have nonempty : gs ≠ [] := by
      rintro rfl
      contradiction
    rw [groups_erased_iff passes text nonempty (by omega) groups, IsMasked]
    simp [length]
  | compressed gs hs short groups groups' =>
    cases gs with
    | nil =>
      have nonempty : hs ≠ [] := by
        rintro rfl
        exact identifies (.inl rfl)
      -- Both colons are passed before the groups.
      have colons : token.text = ':' :: ':' :: join ':' hs := text
      obtain ⟨rest, first, inner⟩ := passes.behind_colon colons
      obtain ⟨rest', second, innermost⟩ := inner.behind_colon rfl
      have rest_eq : rest = ':' :: rest' := second
      have few : hs.length ≤ 8 := by simp at short; omega
      have erased : Erased scrubbed.text ↔ Erased rest' := by
        have noDigit : isAsciiHexdigit ':' = false := by decide
        simp [Erased, first, rest_eq, noDigit]
      rw [erased]
      refine (groups_erased_iff innermost rfl nonempty few groups').trans ?_
      simp [IsMasked, isWord_colon]
    | cons g gs =>
      cases hs with
      | nil =>
        have fields : token.text = join ':' ((g :: gs) ++ [[], []]) :=
          text.trans (join_around (List.cons_ne_nil g gs) (List.cons_ne_nil [] [])).symm
        exact left_erased_iff passes fields (List.cons_ne_nil g gs) short groups
      | cons h hs =>
        have fields : token.text = join ':' ((g :: gs) ++ [] :: h :: hs) :=
          text.trans (join_around (List.cons_ne_nil g gs) (List.cons_ne_nil h hs)).symm
        exact around_erased_iff passes fields (List.cons_ne_nil g gs) (List.cons_ne_nil h hs) short
          groups groups'

/-! ## Scrubbed texts -/

/-- No IPv6 address but an exempt one stands between delimiters. -/
def NoIpv6 (classes : CharClasses) (letters : Letters) (text : Text) : Prop :=
  ∀ token ∈ tokens (isDelimiter classes letters) none text, ∀ address : Ipv6,
    token.text = address.text → address.IsExempt

/-- Nothing is left of an address that is not exempt. -/
def Erases (token scrubbed : Token) : Prop :=
  ∀ address : Ipv6, token.text = address.text → ¬ address.IsExempt → Erased scrubbed.text

theorem Ipv6.not_erased (address : Ipv6) (identifies : ¬ address.IsExempt) :
    ¬ Erased address.text := by
  have digits {gs : List Text} (groups : ∀ g ∈ gs, IsGroup g) (nonempty : gs ≠ []) :
      ¬ Erased (join ':' gs) := by
    obtain ⟨g, gs, rfl⟩ := List.exists_cons_of_ne_nil nonempty
    obtain ⟨c, cs, shape, digit⟩ := exists_cons_of_join (groups g List.mem_cons_self) gs
    intro erased
    have noDigit := erased c (shape ▸ List.mem_cons_self)
    rw [digit] at noDigit
    contradiction
  cases address with
  | full gs length groups =>
    refine digits groups ?_
    rintro rfl
    contradiction
  | compressed gs hs short groups groups' =>
    intro erased
    cases gs with
    | nil =>
      cases hs with
      | nil => exact identifies (.inl rfl)
      | cons h hs =>
        exact digits groups' (List.cons_ne_nil h hs) fun c member =>
          erased c (List.mem_append_right _ member)
    | cons g gs =>
      exact digits groups (List.cons_ne_nil g gs) fun c member =>
        erased c (List.mem_append_left _ (List.mem_append_left _ member))

theorem Ipv6.notX (address : Ipv6) : 'x' ∉ address.text := by
  have absent {gs : List Text} (groups : ∀ g ∈ gs, IsGroup g) : 'x' ∉ join ':' gs := by
    intro member
    obtain same | ⟨g, inGroups, inGroup⟩ := mem_join member
    · exact absurd same (by decide)
    · exact absurd ((groups g inGroups).2 'x' inGroup) (by decide)
  cases address with
  | full gs length groups => exact absent groups
  | compressed gs hs short groups groups' => simp [Ipv6.text, absent groups, absent groups']

/-- A scrubbed text has no IPv6 address but the exempt ones between delimiters, and no group of the
addresses that were there is left: this is so exactly when every address stands where it is masked. -/
theorem ipv6_scrubbed_iff (classes : CharClasses) (letters : Letters) (text : Text) :
    (NoIpv6 classes letters (scrub classes text) ∧
        List.Forall₂ Erases (tokens (isDelimiter classes letters) none text)
          (tokens (isDelimiter classes letters) none (scrub classes text))) ↔
      ∀ token ∈ tokens (isDelimiter classes letters) none text, ∀ address : Ipv6,
        token.text = address.text → ¬ address.IsExempt →
          address.IsMasked classes token.before token.after := by
  have pairs := @tokens_scrub classes letters text
  constructor
  · rintro ⟨-, erases⟩ token member address same identifies
    obtain ⟨scrubbed, -, passes, erased⟩ :=
      exists_right_of_forall₂ (forall₂_and pairs erases) member
    exact (address.erased_iff passes same identifies).mp (erased address same identifies)
  · intro masked
    have erases : List.Forall₂ (fun token scrubbed => Scrubbed classes token scrubbed ∧
        Erases token scrubbed) (tokens (isDelimiter classes letters) none text)
        (tokens (isDelimiter classes letters) none (scrub classes text)) := by
      refine ((List.forall₂_and_left _ _).mpr ⟨masked, pairs⟩).imp ?_
      rintro token scrubbed ⟨masked, passes⟩
      exact ⟨passes, fun address same identifies =>
        (address.erased_iff passes same identifies).mpr (masked address same identifies)⟩
    refine ⟨fun scrubbed member address same => ?_, erases.imp fun _ _ both => both.2⟩
    by_contra identifies
    obtain ⟨token, -, passes, erased⟩ := exists_left_of_forall₂ erases member
    -- Without a mask the token is the one that was there, so nothing of it is left.
    have unmasked := passes.unmasked (same ▸ address.notX)
    refine address.not_erased identifies ?_
    rw [← same]
    exact erased address (unmasked ▸ same) identifies

/-- The prefix of a network is not seen, as no word follows it, nor an address that begins with two
colons. -/
theorem ipv6_network_kept :
    scrub CharClasses.ascii "2001:db8::/32 ::1234".toList = "2001:db8::/32 ::1234".toList ∧
      ¬ NoIpv6 CharClasses.ascii Letters.ascii
        (scrub CharClasses.ascii "2001:db8::/32 ::1234".toList) := by
  have same : scrub CharClasses.ascii "2001:db8::/32 ::1234".toList =
      "2001:db8::/32 ::1234".toList := by decide +kernel
  refine ⟨same, fun none => ?_⟩
  rw [same] at none
  have isGroup : ∀ g ∈ ["1234".toList], IsGroup g := by
    intro g member
    rw [List.mem_singleton.mp member]
    exact ⟨by decide, forall_mem_of_all (by decide)⟩
  obtain ⟨address, text⟩ : ∃ address : Ipv6, address.text = "::1234".toList :=
    ⟨.compressed [] ["1234".toList] (by decide) (by simp) isGroup, rfl⟩
  have exempt := none ⟨some ' ', "::1234".toList, Option.none⟩ (by decide +kernel) address text.symm
  rw [Ipv6.IsExempt, text] at exempt
  exact absurd exempt (by decide +kernel)

end UcrashReport.Scrub
