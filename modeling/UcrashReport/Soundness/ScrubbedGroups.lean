import UcrashReport.Decoder.Ipv6Matches
import UcrashReport.Soundness.ScrubbedAddresses

/-! # Groups of hex digits in scrubbed texts

A token of hex digits between colons is a list of fields. Scrubbing first masks six fields in a row
that look like a MAC address, and then what the IPv6 expression takes of the fields; a field that no
match can take is left.
-/

namespace UcrashReport.Scrub

open Rust Rust.Text Regex

variable {classes : CharClasses} {before after : Option Char} {fields : List Text} {tail : Text}

/-! ## The fields after MAC addresses are masked -/

theorem MacFields.chars {fields' : List Text}
    (macFields : MacFields classes before after fields fields')
    (hexFields : ∀ field ∈ fields, ∀ c ∈ field, isAsciiHexdigit c = true) :
    ∀ field ∈ fields', ∀ c ∈ field, isAsciiHexdigit c = true ∨ c = 'x' := by
  cases macFields with
  | kept absent => exact fun field member c inField => .inl (hexFields field member c inField)
  | masked pre bytes post window =>
    intro field member c inField
    have kept (inside : field ∈ fields) : isAsciiHexdigit c = true ∨ c = 'x' :=
      .inl (hexFields field inside c inField)
    rw [window.split] at kept
    simp only [List.mem_append] at kept member
    obtain inPre | inVendor | inMask | inPost := member
    · exact kept (.inl inPre)
    · exact kept (.inr (.inl (List.mem_of_mem_take inVendor)))
    · obtain rfl : field = "xx".toList := by simpa [maskedBytes] using inMask
      exact .inr (by simpa using inField)
    · exact kept (.inr (.inr inPost))

theorem MacFields.ne_nil {fields' : List Text}
    (macFields : MacFields classes before after fields fields') (nonempty : fields ≠ []) :
    fields' ≠ [] := by
  cases macFields with
  | kept absent => exact nonempty
  | masked pre bytes post window => simp [maskedBytes]

/-- Fields of hex digits and of masks are words between colons. -/
theorem piece_of_chars (nonempty : fields ≠ [])
    (chars : ∀ field ∈ fields, ∀ c ∈ field, isAsciiHexdigit c = true ∨ c = 'x')
    (avoids : ∀ d ∈ tail.head?, macRe.Avoids d ∧ (ipv4Re classes).Avoids d ∧ ipv6Re.Avoids d) :
    Piece classes ':' fields tail := by
  refine ⟨nonempty, fun field member colon => ?_, fun field member c inField => ?_, avoids⟩
  · obtain digit | mask := chars field member ':' colon
    · exact absurd digit (by decide)
    · exact absurd mask (by decide)
  · obtain digit | rfl := chars field member c inField
    · exact classes.isWord_of_isAsciiHexdigit digit
    · exact (classes.isWord_ascii 'x' (by decide)).trans (by decide)

/-! ## The three replacements -/

/-- Groups are masked as MAC addresses first, and then as IPv6 addresses. -/
theorem Scrubbed.replaceIn_fields {token scrubbed : Token} (passes : Scrubbed classes token scrubbed)
    (text : token.text = join ':' fields) (nonempty : fields ≠ []) (few : fields.length < 12)
    (hexFields : ∀ field ∈ fields, ∀ c ∈ field, isAsciiHexdigit c = true) :
    ∃ fields' tail, MacFields classes token.before token.after fields fields' ∧
      tail.head? = token.after ∧ Piece classes ':' fields' tail ∧
      scrubbed.text =
        replaceIn classes.isWord ipv6Re maskIpv6 tail 0 token.before (join ':' fields') := by
  have avoids := passes.avoids
  obtain ⟨first, second, mac, ipv4, ipv6⟩ := passes
  obtain ⟨macTail, macAfter, afterMac⟩ := mac.text
  obtain ⟨tail, ipv6After, afterIpv6⟩ := ipv6.text
  have piece : Piece classes ':' fields macTail :=
    piece_of_chars nonempty (fun field member c inField => .inl (hexFields field member c inField))
      (macAfter ▸ avoids)
  obtain ⟨fields', macFields, replaced⟩ := @mac_fields classes token.before fields macTail piece few
  rw [macAfter] at macFields
  have chars := macFields.chars hexFields
  rw [text, replaced] at afterMac
  have noDot : '.' ∉ first.text := by
    intro member
    rw [afterMac] at member
    obtain same | ⟨field, inFields, inField⟩ := mem_join member
    · exact absurd same (by decide)
    · obtain digit | mask := chars field inFields '.' inField
      · exact absurd digit (by decide)
      · exact absurd mask (by decide)
  have afterIpv4 := pass_of_not_mem ipv4 noDot dot_mem_of_ipv4
  rw [ipv4.after, mac.after] at ipv6After
  rw [afterIpv4, afterMac, ipv4.before, mac.before] at afterIpv6
  refine ⟨fields', tail, macFields, ipv6After, ?_, afterIpv6⟩
  exact piece_of_chars (macFields.ne_nil nonempty) chars (ipv6After ▸ avoids)

/-! ## What a match takes -/

/-- The fields that a match of the IPv6 expression takes. -/
inductive Span (classes : CharClasses) (before after : Option Char)
    (fields pre part post : List Text) : Prop
  | full (split : fields = pre ++ (part ++ post)) (long : 6 ≤ part.length)
      (groups : ∀ g ∈ part, IsGroup g) (outer : pre = [] → before.any classes.isWord = false)
      (outer' : post = [] → after.any classes.isWord = false)
  | short (gs hs : List Text) (split : fields = pre ++ (part ++ post)) (shape : part = gs ++ [] :: hs)
      (nonempty : gs ≠ []) (nonempty' : hs ≠ []) (groups : ∀ g ∈ gs, IsGroup g)
      (groups' : ∀ h ∈ hs, IsGroup h) (outer : pre = [] → before.any classes.isWord = false)
      (outer' : post = [] → after.any classes.isWord = false)
  | cut (gs : List Text) (b : Text) (behind : List Text) (split : fields = pre ++ (part ++ post))
      (shape : part = gs ++ [[]]) (next : post = b :: behind) (nonempty : gs ≠ [])
      (groups : ∀ g ∈ gs, IsGroup g) (outer : pre = [] → before.any classes.isWord = false)
      (word : b = [] → behind = [] ∧ after.any classes.isWord = true)

theorem Span.split_eq {pre part post : List Text}
    (span : Span classes before after fields pre part post) : fields = pre ++ (part ++ post) := by
  cases span <;> assumption

theorem exists_span {u v : Text} {m : Match} (piece : Piece classes ':' fields tail)
    (same : join ':' fields = u ++ v)
    (inRuns : m ∈ runs classes.isWord ipv6Re (u.getLast?.or before) (v ++ tail)) :
    ∃ pre part post, Span classes before tail.head? fields pre part post ∧ u = ended ':' pre ∧
      m.taken <+: ended ':' part := by
  have closed {part : List Text} (nonempty : part ≠ []) : join ':' part <+: ended ':' part :=
    ended_eq nonempty ▸ List.prefix_append _ _
  cases ipv6_run piece same inRuns with
  | full pre gs post split long short groups left taken right outer outer' =>
    refine ⟨pre, gs, post, .full split long groups outer outer', left, taken ▸ closed ?_⟩
    rintro rfl
    simp at long
  | short pre gs hs post split nonempty nonempty' groups groups' left taken right outer outer' =>
    refine ⟨pre, gs ++ [] :: hs, post, ?_, left, taken ▸ closed (by simp)⟩
    exact .short gs hs (by simpa using split) rfl nonempty nonempty' groups groups' outer outer'
  | cut pre gs b post split nonempty groups left taken right outer word =>
    refine ⟨pre, gs ++ [[]], b :: post, ?_, left, ?_⟩
    · refine .cut gs b post (by simpa using split) rfl rfl nonempty groups outer fun empty => ?_
      subst empty
      cases post with
      | nil => exact ⟨rfl, word⟩
      | cons field post =>
        have colon := isWord_colon classes
        rw [List.nil_append, begun_cons, List.cons_append, List.head?_cons, Option.any_some, colon]
          at word
        contradiction
    · rw [taken, List.append_cons gs [] [[]], ← ended_append_join (gs ++ [[]]), join_singleton,
        List.append_nil]

/-- A character of a field that no match takes is left. -/
theorem mem_of_untaken {left right : List Text} {field : Text} {c : Char}
    (piece : Piece classes ':' fields tail) (split : fields = left ++ field :: right)
    (member : c ∈ field)
    (untaken : ∀ pre part post, Span classes before tail.head? fields pre part post →
      left.length < pre.length ∨ pre.length + part.length ≤ left.length) :
    c ∈ replaceIn classes.isWord ipv6Re maskIpv6 tail 0 before (join ':' fields) := by
  obtain ⟨a, b, shape⟩ := List.append_of_mem member
  have text : join ':' fields = (ended ':' left ++ a) ++ c :: (b ++ begun ':' right) := by
    rw [split, ← ended_append_join, join_cons, shape]
    simp
  have longer (first more : List Text) :
      (ended ':' first).length ≤ (ended ':' (first ++ more)).length := by
    rw [ended, ended, List.flatMap_append, List.length_append]
    omega
  rw [text]
  refine mem_replaceIn_of_uncovered fun u v same m inRuns => ?_
  obtain ⟨pre, part, post, span, rfl, taken⟩ := exists_span piece (text.trans same) inRuns
  have whole := span.split_eq
  rw [split] at whole
  obtain before | behind := untaken pre part post span
  · -- The match begins behind the field.
    refine .inr (.inl ?_)
    have isPrefix : left ++ [field] <+: pre := by
      apply List.prefix_of_prefix_length_le (List.prefix_append (left ++ [field]) right)
      · rw [List.append_assoc, List.singleton_append, whole]
        exact List.prefix_append pre _
      · rw [List.length_append, List.length_singleton]
        omega
    obtain ⟨more, rfl⟩ := isPrefix
    have short := longer (left ++ [field]) more
    have inField := congrArg List.length shape
    simp only [ended, List.flatMap_append, List.flatMap_cons, List.flatMap_nil, List.append_nil,
      List.length_append, List.length_cons, List.length_nil] at short inField ⊢
    omega
  · refine .inr (.inr ?_)
    have begins : pre ++ part <+: left ++ field :: right := by
      rw [whole, ← List.append_assoc]
      exact List.prefix_append _ post
    have isPrefix : pre ++ part <+: left := by
      apply List.prefix_of_prefix_length_le begins (List.prefix_append left _)
      rw [List.length_append]
      omega
    obtain ⟨more, rfl⟩ := isPrefix
    have short := longer (pre ++ part) more
    have fits := taken.length_le
    simp only [ended, List.flatMap_append, List.length_append] at short fits ⊢
    omega

/-! ## What is left of the fields -/

/-- No hex digit is left. -/
def Erased (t : Text) : Prop := ∀ c ∈ t, isAsciiHexdigit c = false

section Erased

variable {token scrubbed : Token} {g : Text} {rest : List Text}

theorem not_erased_of_group {left : List Text} (isGroup : IsGroup g)
    (piece : Piece classes ':' fields tail) (split : fields = left ++ g :: rest)
    (untaken : ∀ pre part post, Span classes before tail.head? fields pre part post →
      left.length < pre.length ∨ pre.length + part.length ≤ left.length) :
    ¬ Erased (replaceIn classes.isWord ipv6Re maskIpv6 tail 0 before (join ':' fields)) := by
  intro erased
  obtain ⟨c, cs, rfl, digit⟩ := isGroup.exists_cons
  have noDigit := erased c (mem_of_untaken piece split List.mem_cons_self untaken)
  rw [digit] at noDigit
  contradiction

variable (passes : Scrubbed classes token scrubbed) (text : token.text = join ':' fields)
  (few : fields.length < 12) (hexFields : ∀ field ∈ fields, ∀ c ∈ field, isAsciiHexdigit c = true)
  (isGroup : IsGroup g) (erased : Erased scrubbed.text)

include passes text few hexFields isGroup erased

/-- The first group is left when a word goes on before it. -/
theorem outer_of_erased (first : fields = g :: rest) : token.before.any classes.isWord = false := by
  by_contra touched
  have nonempty : fields ≠ [] := first ▸ List.cons_ne_nil g rest
  obtain ⟨fields', tail, macFields, after, piece, same⟩ :=
    passes.replaceIn_fields text nonempty few hexFields
  have kept : ∃ rest', fields' = g :: rest' := by
    cases macFields with
    | kept => exact ⟨rest, first⟩
    | masked pre bytes post window =>
      cases pre with
      | nil => exact absurd (window.outer rfl) touched
      | cons field pre =>
        obtain ⟨rfl, -⟩ := List.cons.inj (first.symm.trans window.split)
        exact ⟨_, rfl⟩
  obtain ⟨rest', rfl⟩ := kept
  rw [same] at erased
  have split : g :: rest' = [] ++ g :: rest' := rfl
  refine not_erased_of_group isGroup piece split (fun pre part post span => .inl ?_) erased
  have outer : pre = [] → token.before.any classes.isWord = false := by cases span <;> assumption
  exact List.length_pos_iff.mpr fun empty => touched (outer empty)

/-- The last group is left when a word goes on after it. -/
theorem outer'_of_erased (last : fields = rest ++ [g]) : token.after.any classes.isWord = false := by
  by_contra touched
  have nonempty : fields ≠ [] := by simp [last]
  obtain ⟨fields', tail, macFields, after, piece, same⟩ :=
    passes.replaceIn_fields text nonempty few hexFields
  have kept : ∃ rest', fields' = rest' ++ [g] := by
    cases macFields with
    | kept => exact ⟨rest, last⟩
    | masked pre bytes post window =>
      obtain empty | ⟨init, field, rfl⟩ := List.eq_nil_or_concat post
      · exact absurd (window.outer' empty) touched
      · have split := last.symm.trans window.split
        rw [List.concat_eq_append, ← List.append_assoc, ← List.append_assoc] at split
        obtain ⟨-, same⟩ := List.append_inj' split rfl
        rw [List.singleton_inj.mp same]
        exact ⟨pre ++ (bytes.take 3 ++ (maskedBytes ++ init)), by simp⟩
  obtain ⟨rest', rfl⟩ := kept
  rw [same] at erased
  refine not_erased_of_group isGroup piece rfl (fun pre part post span => .inr ?_) erased
  have lengths := congrArg List.length span.split_eq
  simp only [List.length_append, List.length_singleton] at lengths
  have behind : post ≠ [] := by
    rintro rfl
    cases span with
    | full split long groups outer outer' => exact touched (after ▸ outer' rfl)
    | short gs hs split shape nonempty nonempty' groups groups' outer outer' =>
      exact touched (after ▸ outer' rfl)
    | cut gs b behind split shape next => cases next
  have positive := List.length_pos_iff.mpr behind
  omega

end Erased

/-- A match takes groups and empty fields. -/
theorem Span.mem_part {pre part post : List Text}
    (span : Span classes before after fields pre part post) {field : Text} (member : field ∈ part) :
    field = [] ∨ IsGroup field := by
  cases span with
  | full split long groups outer outer' => exact .inr (groups field member)
  | short gs hs split shape nonempty nonempty' groups groups' outer outer' =>
    rw [shape, List.mem_append, List.mem_cons] at member
    obtain inLeft | empty | inRight := member
    · exact .inr (groups field inLeft)
    · exact .inl empty
    · exact .inr (groups' field inRight)
  | cut gs b behind split shape next nonempty groups outer word =>
    rw [shape, List.mem_append, List.mem_singleton] at member
    exact member.symm.imp id (groups field)

/-- Without an empty field a match takes six groups or more. -/
theorem Span.long_of_filled {pre part post : List Text}
    (span : Span classes before after fields pre part post) (filled : [] ∉ part) :
    6 ≤ part.length := by
  cases span with
  | full split long => exact long
  | short gs hs split shape => exact absurd (by simp [shape]) filled
  | cut gs b behind split shape => exact absurd (by simp [shape]) filled

/-- The vendor part of a masked MAC address is left when few groups stand before it. -/
theorem not_erased_of_vendor {pre bytes post : List Text}
    (piece : Piece classes ':' (pre ++ (bytes.take 3 ++ (maskedBytes ++ post))) tail)
    (groups : ∀ g ∈ pre, IsGroup g) (few : pre.length ≤ 2) (length : bytes.length = 6)
    (hexBytes : ∀ byte ∈ bytes, IsHexByte byte) :
    ¬ Erased (replaceIn classes.isWord ipv6Re maskIpv6 tail 0 before
      (join ':' (pre ++ (bytes.take 3 ++ (maskedBytes ++ post))))) := by
  match bytes, length with
  | [v₁, v₂, v₃, _, _, _], _ =>
    refine not_erased_of_group (hexBytes v₁ (by simp)).isGroup piece rfl
      fun before part behind span => .inl ?_
    by_contra early
    have whole := span.split_eq
    have isPrefix : before <+: pre := by
      apply List.prefix_of_prefix_length_le (List.prefix_append before (part ++ behind))
      · exact whole ▸ List.prefix_append pre _
      · omega
    obtain ⟨front, rfl⟩ := isPrefix
    have isGroup : ∀ field ∈ front ++ [v₁, v₂, v₃], IsGroup field := by
      intro field member
      obtain inFront | inVendor := List.mem_append.mp member
      · exact groups field (List.mem_append_right before inFront)
      · refine (hexBytes field ?_).isGroup
        simp only [List.mem_cons, List.not_mem_nil, or_false] at inVendor ⊢
        tauto
    have rest : part ++ behind = (front ++ [v₁, v₂, v₃]) ++ ("xx".toList ::
        ("xx".toList :: "xx".toList :: post)) := by
      rw [List.append_assoc, List.append_cancel_left_eq] at whole
      rw [← whole]
      simp [maskedBytes]
    have noMask : "xx".toList ∉ part := by
      intro inPart
      obtain empty | isGroup := span.mem_part inPart
      · contradiction
      · exact absurd (isGroup.2 'x' (by simp)) (by decide)
    -- The mask stops the match, and there are too few groups before it.
    have inGroups : part <+: front ++ [v₁, v₂, v₃] := by
      have stop : (front ++ [v₁, v₂, v₃]) ++ ["xx".toList] <+: part ++ behind := by
        rw [rest, List.prefix_append_right_inj]
        exact ⟨["xx".toList, "xx".toList] ++ post, rfl⟩
      obtain longer | shorter :=
        List.prefix_or_prefix_of_prefix stop (List.prefix_append part behind)
      · exact absurd (longer.subset (by simp)) noMask
      · obtain same | within := List.prefix_concat_iff.mp shorter
        · exact absurd (by rw [same]; simp) noMask
        · exact within
    have long := span.long_of_filled fun empty => (isGroup [] (inGroups.subset empty)).ne_nil rfl
    have short := inGroups.length_le
    simp only [List.length_append, List.length_cons, List.length_nil] at short few
    omega

/-! ## Colons before the groups -/

/-- No address begins with a colon. -/
theorem unmatched_colon (classes : CharClasses) (before : Option Char) (s : Text) :
    matchAt classes.isWord macRe before (':' :: s) = none ∧
      matchAt classes.isWord (ipv4Re classes) before (':' :: s) = none ∧
      matchAt classes.isWord ipv6Re before (':' :: s) = none := by
  have noDigit : ∀ c, (':' :: s).head? = some c → isAsciiHexdigit c = false := stops_colon s
  refine ⟨?_, ?_, ?_⟩
  · refine (Fails.of_head (fun t takes => ?_) noDigit).matchAt_eq_none
    rw [macRe_eq, takes_bounded, takes_macParts] at takes
    obtain ⟨bytes, length, hexBytes, rfl⟩ := takes
    obtain ⟨byte, bytes, rfl⟩ := List.exists_cons_of_ne_nil (l := bytes) (by
      rintro rfl
      exact absurd length (by decide))
    obtain ⟨c, cs, rfl, digit⟩ := (hexBytes byte List.mem_cons_self).isGroup.exists_cons
    exact ⟨c, cs ++ begun ':' bytes, join_cons _ bytes, digit⟩
  · have noDecimal : ∀ c, (':' :: s).head? = some c → classes.isDigit c = false := by
      intro c first
      obtain rfl : ':' = c := by simpa using first
      exact (classes.isDigit_ascii ':' (by decide)).trans (by decide)
    refine (Fails.of_head (fun t takes => ?_) noDecimal).matchAt_eq_none
    rw [ipv4Re_eq, takes_bounded, takes_ipv4Parts] at takes
    obtain ⟨octets, length, all, rfl⟩ := takes
    obtain ⟨octet, octets, rfl⟩ := List.exists_cons_of_ne_nil (l := octets) (by
      rintro rfl
      exact absurd length (by decide))
    obtain ⟨filled, digits⟩ := digits_of_takes_octet (all octet List.mem_cons_self)
    obtain ⟨c, cs, rfl⟩ := List.exists_cons_of_ne_nil filled
    exact ⟨c, cs ++ begun '.' octets, join_cons _ octets, digits c List.mem_cons_self⟩
  · refine (Fails.of_head (fun t takes => ?_) noDigit).matchAt_eq_none
    rw [ipv6Re_eq] at takes
    obtain takes | takes := takes
    · obtain ⟨gs, long, -, groups, rfl⟩ := groups_of_takes_full (takes_bounded.mp takes)
      obtain ⟨g, gs, rfl⟩ := List.exists_cons_of_ne_nil (l := gs) (by
        rintro rfl
        simp at long)
      obtain ⟨c, cs, rfl, digit⟩ := (groups g List.mem_cons_self).exists_cons
      exact ⟨c, cs ++ begun ':' gs, join_cons _ gs, digit⟩
    · obtain ⟨gs, hs, nonempty, groups, -, rfl⟩ := groups_of_takes_short (takes_bounded.mp takes)
      obtain ⟨g, gs, rfl⟩ := List.exists_cons_of_ne_nil nonempty
      obtain ⟨c, cs, rfl, digit⟩ := (groups g List.mem_cons_self).exists_cons
      exact ⟨c, cs ++ ':' :: (ended ':' gs ++ ':' :: join ':' hs), by simp, digit⟩

theorem Scrubbed.behind_colon {token scrubbed : Token} {s : Text}
    (passes : Scrubbed classes token scrubbed) (text : token.text = ':' :: s) :
    ∃ rest, scrubbed.text = ':' :: rest ∧
      Scrubbed classes ⟨some ':', s, token.after⟩ ⟨some ':', rest, token.after⟩ := by
  obtain ⟨first, second, mac, ipv4, ipv6⟩ := passes
  obtain ⟨before, t, after⟩ := token
  obtain rfl : t = ':' :: s := text
  obtain ⟨rest, rfl, mac'⟩ := mac.behind fun s => (unmatched_colon classes before s).1
  obtain ⟨rest, rfl, ipv4'⟩ := ipv4.behind fun s => (unmatched_colon classes before s).2.1
  obtain ⟨rest, rfl, ipv6'⟩ := ipv6.behind fun s => (unmatched_colon classes before s).2.2
  exact ⟨rest, rfl, .passes _ _ mac' ipv4' ipv6'⟩

/-! ## What the preferred match leaves -/

theorem stops_of_avoids (avoids : ∀ d ∈ tail.head?, ipv6Re.Avoids d) : Stops tail := by
  have outside (d : Char) (first : tail.head? = some d) :
      isAsciiHexdigit d = false ∧ d ≠ ':' := by
    have none := avoids d first
    simp only [ipv6Re, Regex.sequence, List.foldr, hexGroup, hexDigit, between, times, char, Avoids]
      at none
    exact ⟨none.2.2.1.1.1, by simpa using none.2.2.2.1⟩
  refine ⟨fun c first => (outside c first).1, fun c s same => ?_⟩
  exact absurd rfl (outside ':' (by rw [same]; rfl)).2

/-- A match with no digit behind it leaves no digit. -/
theorem erased_of_prefers {taken rest : Text} {c : Char} {cs : Text}
    (prefers : Prefers classes.isWord ipv6Re before taken (rest ++ tail)) (shape : taken = c :: cs)
    (digit : isAsciiHexdigit c = true) (avoids : ∀ d ∈ tail.head?, ipv6Re.Avoids d)
    (erased : Erased rest) :
    Erased (replaceIn classes.isWord ipv6Re maskIpv6 tail 0 before (taken ++ rest)) := by
  have mask : Erased "x:x::x".toList := forall_mem_of_all (by decide)
  have noColon : c ≠ ':' := by
    rintro rfl
    exact absurd digit (by decide)
  have whole : replaceIn classes.isWord ipv6Re maskIpv6 tail 0 before (taken ++ rest) =
      maskIpv6 ⟨taken, rest ++ tail, []⟩ ++
        replaceIn classes.isWord ipv6Re maskIpv6 tail 0 (taken.getLast?.or before) rest := by
    refine replaceIn_of_matchAt (m := ⟨taken, rest ++ tail, []⟩) ?_ (by simp [shape])
    rwa [List.append_assoc]
  have masked : maskIpv6 ⟨taken, rest ++ tail, []⟩ = "x:x::x".toList := by
    rw [maskIpv6, if_neg]
    simp [shape, noColon]
  rw [whole, masked]
  intro d member
  obtain inMask | inRest := List.mem_append.mp member
  · exact mask d inMask
  · refine forall_mem_replaceIn avoids (fun m inTaken _ => ?_) 0 _ rest erased d inRest
    rw [maskIpv6]
    split_ifs
    · exact inTaken
    · exact mask

end UcrashReport.Scrub
