import UcrashReport.Decoder.Addresses

/-! # MAC and IPv4 addresses in scrubbed texts

A scrubbed text has the tokens of the text that was scrubbed, with an address masked when it stands
between word boundaries. What a mask leaves is no address, so that an address in a scrubbed text was
there before, next to a character like `_` that belongs to a word.
-/

namespace UcrashReport.Scrub

open Rust Rust.Text Regex

/-! ## Tokens -/

/-- What counts as a letter, as far as ASCII fixes it. -/
structure Letters where
  isLetter : Char → Bool
  isLetter_ascii : ∀ c, c.toNat < 128 → isLetter c = (isAsciiAlphanumeric c && !isAsciiDigit c)

def Letters.ascii : Letters where
  isLetter c := isAsciiAlphanumeric c && !isAsciiDigit c
  isLetter_ascii _ _ := rfl

/-- A character other than letters, digits, `:` and `.`. -/
def isDelimiter (classes : CharClasses) (letters : Letters) (c : Char) : Bool :=
  !letters.isLetter c && !classes.isDigit c && c ≠ ':' && c ≠ '.'

variable {classes : CharClasses} {letters : Letters}

theorem avoids_of_isDelimiter {d : Char} (delimits : isDelimiter classes letters d = true) :
    macRe.Avoids d ∧ (ipv4Re classes).Avoids d ∧ ipv6Re.Avoids d := by
  simp only [isDelimiter, Bool.and_eq_true, Bool.not_eq_true', decide_eq_true_eq] at delimits
  obtain ⟨⟨⟨noLetter, noDigit⟩, noColon⟩, noDot⟩ := delimits
  refine avoids_of_not_digit ?_ noDigit noColon noDot
  by_contra hexdigit
  rw [Bool.not_eq_false] at hexdigit
  have isAscii : d.toNat < 128 := by
    simp only [isAsciiHexdigit, isAsciiDigit, Bool.or_eq_true, Bool.and_eq_true, decide_eq_true_eq]
      at hexdigit
    omega
  rw [letters.isLetter_ascii d isAscii] at noLetter
  rw [classes.isDigit_ascii d isAscii] at noDigit
  have noAlphanumeric : isAsciiAlphanumeric d = false := by simpa [noDigit] using noLetter
  simp only [isAsciiHexdigit, isAsciiAlphanumeric, isAsciiDigit, Bool.or_eq_true, Bool.or_eq_false_iff,
    Bool.and_eq_true, Bool.and_eq_false_iff, decide_eq_true_eq, decide_eq_false_iff_not]
    at hexdigit noAlphanumeric
  omega

theorem isDelimiter_of_ascii {c : Char} (isAscii : c.toNat < 128)
    (alphanumeric : isAsciiAlphanumeric c = true) : isDelimiter classes letters c = false := by
  rw [isDelimiter, letters.isLetter_ascii c isAscii, classes.isDigit_ascii c isAscii, alphanumeric]
  cases isAsciiDigit c <;> rfl

/-- What the three replacements make of a token, one after another. -/
inductive Scrubbed (classes : CharClasses) (token scrubbed : Token) : Prop
  | passes (first second : Token)
      (mac : Replaced classes.isWord macRe maskMac token first)
      (ipv4 : Replaced classes.isWord (ipv4Re classes) maskIpv4 first second)
      (ipv6 : Replaced classes.isWord ipv6Re maskIpv6 second scrubbed)

/-- The masks contain no delimiter. -/
theorem free_of_mask {mask : Text} (shape : ∀ c ∈ mask, c = ':' ∨ c = '.' ∨ c = 'x') :
    ∀ c ∈ mask, isDelimiter classes letters c = false := by
  intro c member
  rcases shape c member with rfl | rfl | rfl
  · simp [isDelimiter]
  · simp [isDelimiter]
  · exact isDelimiter_of_ascii (by decide) (by decide)

/-- A text is scrubbed token by token. -/
theorem tokens_scrub (text : Text) :
    List.Forall₂ (Scrubbed classes) (tokens (isDelimiter classes letters) none text)
      (tokens (isDelimiter classes letters) none (scrub classes text)) := by
  have mac := @tokens_replaceFrom classes.isWord (isDelimiter classes letters) macRe maskMac
    (fun d delimits => (avoids_of_isDelimiter delimits).1) (fun m taken groups c member => by
      rcases List.mem_append.mp member with vendor | mask
      · obtain ⟨g, inGroups, inGroup⟩ := mem_group vendor
        exact taken c ((groups g inGroups).subset inGroup)
      · exact free_of_mask (forall_mem_of_all (by decide)) c mask) none
  have ipv4 := @tokens_replaceFrom classes.isWord (isDelimiter classes letters) (ipv4Re classes)
    maskIpv4 (fun d delimits => (avoids_of_isDelimiter delimits).2.1) (fun m taken _ => by
      rw [maskIpv4]
      split_ifs
      · exact taken
      · exact free_of_mask (forall_mem_of_all (by decide))) none
  have ipv6 := @tokens_replaceFrom classes.isWord (isDelimiter classes letters) ipv6Re maskIpv6
    (fun d delimits => (avoids_of_isDelimiter delimits).2.2) (fun m taken _ => by
      rw [maskIpv6]
      split_ifs
      · exact taken
      · exact free_of_mask (forall_mem_of_all (by decide))) none
  have passes := forall₂_comp (forall₂_comp (mac text) (ipv4 _)) (ipv6 _)
  exact passes.imp fun _ _ ⟨_, ⟨_, first, second⟩, third⟩ => .passes _ _ first second third

/-! ## MAC addresses among the fields -/

section Fields

variable {before after : Option Char} {fields : List Text} {tail : Text}

/-- Six fields in a row that are masked as a MAC address. -/
structure MacWindow (classes : CharClasses) (before after : Option Char)
    (fields pre bytes post : List Text) : Prop where
  split : fields = pre ++ (bytes ++ post)
  length : bytes.length = 6
  hexBytes : ∀ byte ∈ bytes, IsHexByte byte
  outer : pre = [] → before.any classes.isWord = false
  outer' : post = [] → after.any classes.isWord = false

/-- The fields after the MAC addresses are masked. -/
inductive MacFields (classes : CharClasses) (before after : Option Char) (fields : List Text) :
    List Text → Prop
  | kept (absent : ∀ pre bytes post, ¬ MacWindow classes before after fields pre bytes post) :
      MacFields classes before after fields fields
  | masked (pre bytes post : List Text)
      (window : MacWindow classes before after fields pre bytes post) :
      MacFields classes before after fields (pre ++ (bytes.take 3 ++ (maskedBytes ++ post)))

/-- Where six bytes stand in the fields there is a match. -/
theorem exists_mac_run {pre bytes post : List Text}
    (window : MacWindow classes before tail.head? fields pre bytes post) :
    ∃ m, m ∈ runs classes.isWord macRe ((ended ':' pre).getLast?.or before)
      (join ':' bytes ++ begun ':' post ++ tail) := by
  have nonempty : bytes ≠ [] := by
    rintro rfl
    exact absurd window.length (by decide)
  have words : ∀ byte ∈ bytes, ∀ c ∈ byte, classes.isWord c = true := fun byte member c inByte =>
    classes.isWord_of_isAsciiHexdigit ((window.hexBytes byte member).2 c inByte)
  have filled : ∀ byte ∈ bytes, byte ≠ [] := by
    rintro byte member rfl
    exact absurd (window.hexBytes [] member).1 (by decide)
  have ends : (join ':' bytes ++ (begun ':' post ++ tail)).head?.any classes.isWord = true ∧
      ((join ':' bytes).getLast?.or ((ended ':' pre).getLast?.or before)).any classes.isWord =
        true := word_of_join words nonempty filled _ _
  have opens : ((ended ':' pre).getLast?.or before).any classes.isWord = false := by
    obtain empty | ⟨init, last, same⟩ := List.eq_nil_or_concat pre
    · rw [empty]
      exact window.outer empty
    · rw [same, List.concat_eq_append, ended, List.flatMap_append]
      simp [isWord_colon]
  have closes : (begun ':' post ++ tail).head?.any classes.isWord = false := by
    cases post with
    | nil => exact window.outer' rfl
    | cons field post => exact isWord_colon classes
  obtain ⟨m, member, -⟩ := exists_mem_runs_bounded
    (by simp [macParts, Regex.sequence, Unbounded, hexByte, hexDigit, times, char])
    (takes_macParts.mpr ⟨bytes, window.length, window.hexBytes, rfl⟩)
    (by rw [opens, ends.1]; simp) (by rw [ends.2, closes]; simp)
  exact ⟨m, by rwa [List.append_assoc]⟩

/-- Few fields have one MAC address at most. -/
theorem mac_fields (piece : Piece classes ':' fields tail) (few : fields.length < 12) :
    ∃ fields', MacFields classes before tail.head? fields fields' ∧
      replaceIn classes.isWord macRe maskMac tail 0 before (join ':' fields) = join ':' fields' := by
  have avoids : ∀ d ∈ tail.head?, macRe.Avoids d := fun d first => (piece.avoids d first).1
  have progress (before : Option Char) (s : Text) (m : Match)
      (member : m ∈ runs classes.isWord macRe before s) : m.taken ≠ [] := by
    have colon := colon_mem_of_mac before s m member
    exact List.ne_nil_of_mem colon
  obtain ⟨kept, unmatched⟩ | ⟨u, m, w, text, member, replaced⟩ :=
    replaceIn_first avoids progress before (join ':' fields)
  · refine ⟨fields, .kept fun pre bytes post window => ?_, kept⟩
    obtain ⟨m, member⟩ := exists_mac_run window
    have nonempty : bytes ≠ [] := by
      rintro rfl
      exact absurd window.length (by decide)
    have noRuns := unmatched (ended ':' pre) (join ':' bytes ++ begun ':' post)
      (by rw [window.split, join_append pre nonempty]) (by
        intro empty
        refine nonempty (join_eq_nil ?_ (List.append_eq_nil_iff.mp empty).1)
        rintro byte inBytes rfl
        exact absurd (window.hexBytes [] inBytes).1 (by decide))
    rw [noRuns] at member
    contradiction
  · obtain ⟨pre, bytes, post, split, length, hexBytes, left, taken, right, outer, outer'⟩ :=
      mac_run piece text member
    rw [List.append_cancel_left_eq] at right
    refine ⟨_, .masked pre bytes post ⟨split, length, hexBytes, outer, outer'⟩, ?_⟩
    -- Behind the address there are too few fields for another one.
    have rest : replaceIn classes.isWord macRe maskMac tail 0
        (m.taken.getLast?.or (u.getLast?.or before)) w = w := by
      have fields' : Piece classes ':' ([] :: post) tail := by
        refine ⟨List.cons_ne_nil _ _, ?_, ?_, piece.avoids⟩
        · intro field inFields
          obtain rfl | inPost := List.mem_cons.mp inFields
          · simp
          · exact piece.free field (by rw [split]; simp [inPost])
        · intro field inFields
          obtain rfl | inPost := List.mem_cons.mp inFields
          · simp
          · exact piece.words field (by rw [split]; simp [inPost])
      refine replaceIn_of_no_match fun u' v' same m' member' => ?_
      obtain ⟨pre', bytes', post', split', length', hexBytes', -⟩ :=
        mac_run fields' (by rw [join_cons, List.nil_append, ← right, same]) member'
      have lengths := congrArg List.length split
      have lengths' := congrArg List.length split'
      simp only [List.length_append, List.length_cons] at lengths lengths'
      obtain rfl := List.length_eq_zero_iff.mp (show pre'.length = 0 by omega)
      obtain ⟨byte, bytes', rfl⟩ := List.exists_cons_of_ne_nil (l := bytes') (by
        rintro rfl
        exact absurd length' (by decide))
      obtain ⟨rfl, -⟩ := List.cons.inj split'
      exact absurd (hexBytes' [] List.mem_cons_self).1 (by decide)
    have vendor : bytes.take 3 ++ maskedBytes ≠ [] := by simp [maskedBytes]
    rw [replaced, rest, maskMac, group_of_mac member, taken, take_join_bytes length hexBytes, left, right,
      ← join_append pre vendor, List.append_assoc]

end Fields

/-! ## One token -/

/-- An address that no word touches. -/
def Apart (classes : CharClasses) (token : Token) : Prop :=
  token.before.any classes.isWord = false ∧ token.after.any classes.isWord = false

instance (token : Token) : Decidable (Apart classes token) :=
  inferInstanceAs (Decidable (_ = false ∧ _ = false))

/-- The addresses that scrubbing leaves. -/
def IsExempt (t : Text) : Prop :=
  t = "0.0.0.0".toList ∨ startsWith "127.".toList t = true ∨ t = "255.255.255.255".toList

instance (t : Text) : Decidable (IsExempt t) :=
  inferInstanceAs (Decidable (_ ∨ _ ∨ _))

theorem Scrubbed.avoids {token scrubbed : Token} (passes : Scrubbed classes token scrubbed) :
    ∀ d ∈ token.after, macRe.Avoids d ∧ (ipv4Re classes).Avoids d ∧ ipv6Re.Avoids d := by
  obtain ⟨first, second, mac, ipv4, ipv6⟩ := passes
  intro d after
  exact ⟨mac.avoids d after, ipv4.avoids d (mac.after ▸ after),
    ipv6.avoids d (ipv4.after ▸ mac.after ▸ after)⟩

theorem mac_pass {token replaced : Token} (pass : Replaced classes.isWord macRe maskMac token replaced)
    (avoids : ∀ d ∈ token.after, macRe.Avoids d ∧ (ipv4Re classes).Avoids d ∧ ipv6Re.Avoids d)
    (isMac : IsMac token.text) :
    replaced.text =
      if Apart classes token then token.text.take 8 ++ ":xx:xx:xx".toList else token.text := by
  obtain ⟨tail, after, same⟩ := pass.text
  obtain ⟨bytes, length, all, text⟩ := isMac
  have nonempty : bytes ≠ [] := by
    rintro rfl
    contradiction
  have words : ∀ byte ∈ bytes, ∀ c ∈ byte, classes.isWord c = true := fun byte member c inByte =>
    classes.isWord_of_isAsciiHexdigit ((all byte member).2 c inByte)
  have piece : Piece classes ':' bytes tail :=
    ⟨nonempty, fun byte member => not_mem_of_forall (by decide) (all byte member).2, words,
      after ▸ avoids⟩
  obtain ⟨fields, macFields, replacement⟩ :=
    @mac_fields classes token.before bytes tail piece (by omega)
  rw [same, text, replacement]
  cases macFields with
  | kept absent =>
    have touched : ¬ Apart classes token := fun apart =>
      absent [] bytes [] ⟨by simp, length, all, fun _ => apart.1, fun _ => after ▸ apart.2⟩
    rw [if_neg touched]
  | masked pre bytes' post window =>
    have lengths := congrArg List.length window.split
    rw [List.length_append, List.length_append, length, window.length] at lengths
    obtain rfl := List.length_eq_zero_iff.mp (show pre.length = 0 by omega)
    obtain rfl := List.length_eq_zero_iff.mp (show post.length = 0 by omega)
    have apart : Apart classes token := ⟨window.outer rfl, after ▸ window.outer' rfl⟩
    have sameBytes : bytes = bytes' := by simpa using window.split
    rw [if_pos apart, take_join_bytes length all, sameBytes, List.append_nil, List.nil_append]

theorem maskIpv4_eq (m : Match) :
    maskIpv4 m = if IsExempt m.taken then m.taken else "x.x.x.x".toList := by
  rw [maskIpv4]
  refine if_congr ?_ rfl rfl
  simp only [IsExempt, Bool.or_eq_true, decide_eq_true_eq, or_assoc]

theorem chars_of_number (classes : CharClasses) {octet : Text} (number : IsByteNumber octet) {c : Char}
    (member : c ∈ octet) : classes.isWord c = true ∧ c ≠ ':' ∧ c ≠ '.' ∧ c ≠ 'x' := by
  have digit := number.digits c member
  refine ⟨classes.isWord_of_isAsciiHexdigit (by simp [isAsciiHexdigit, digit]), ?_, ?_, ?_⟩
  all_goals
    rintro rfl
    exact absurd digit (by decide)

/-- An address is masked when no word touches it and no number in it is filled up with zeros. -/
theorem quad_pass {token replaced : Token}
    (pass : Replaced classes.isWord (ipv4Re classes) maskIpv4 token replaced)
    (avoids : ∀ d ∈ token.after, macRe.Avoids d ∧ (ipv4Re classes).Avoids d ∧ ipv6Re.Avoids d)
    (isQuad : IsQuad token.text) :
    replaced.text =
      if (Apart classes token ∧ ¬ HasPadded token.text) ∧ ¬ IsExempt token.text then
        "x.x.x.x".toList
      else token.text := by
  obtain ⟨tail, after, same⟩ := pass.text
  obtain ⟨numbers, length, all, text⟩ := isQuad
  have nonempty : numbers ≠ [] := by
    rintro rfl
    contradiction
  have filled : ∀ o ∈ numbers, o ≠ [] := fun o member => (all o member).ne_nil
  have words : ∀ o ∈ numbers, ∀ c ∈ o, classes.isWord c = true :=
    fun o member c inOctet => (chars_of_number classes (all o member) inOctet).1
  have piece : Piece classes '.' numbers tail :=
    ⟨nonempty, fun o member => (all o member).dot_free, words, after ▸ avoids⟩
  have padded : HasPadded token.text ↔ ∃ o ∈ numbers, IsPadded o :=
    text ▸ hasPadded_join nonempty all
  -- A match takes the whole token, and no word goes on at its ends.
  have whole (u v : Text) (cut : token.text = u ++ v) (m : Match)
      (member : m ∈ runs classes.isWord (ipv4Re classes) (u.getLast?.or token.before) (v ++ tail)) :
      m.taken = token.text ∧ Apart classes token ∧ ¬ HasPadded token.text := by
    obtain ⟨pre, octets, post, split, length', takes, -, taken, -, outer, outer'⟩ :=
      ipv4_run piece (text ▸ cut) member
    have lengths := congrArg List.length split
    rw [List.length_append, List.length_append, length, length'] at lengths
    obtain rfl := List.length_eq_zero_iff.mp (show pre.length = 0 by omega)
    obtain rfl := List.length_eq_zero_iff.mp (show post.length = 0 by omega)
    rw [List.nil_append, List.append_nil] at split
    subst split
    refine ⟨by rw [taken, text], ⟨outer rfl, after ▸ outer' rfl⟩, fun isPadded => ?_⟩
    obtain ⟨o, inOctets, zeros⟩ := padded.mp isPadded
    exact (takes_octet_iff_of_number (all o inOctets)).mp (takes o inOctets) zeros
  rw [same]
  by_cases matched : Apart classes token ∧ ¬ HasPadded token.text
  · obtain ⟨apart, unpadded⟩ := matched
    have ends : (join '.' numbers ++ tail).head?.any classes.isWord = true ∧
        ((join '.' numbers).getLast?.or token.before).any classes.isWord = true :=
      word_of_join words nonempty filled token.before tail
    rw [← text] at ends
    have takes : (sequence (ipv4Parts classes)).Takes token.text := by
      refine takes_ipv4Parts.mpr ⟨numbers, length, fun o member => ?_, text⟩
      exact (takes_octet_iff_of_number (all o member)).mpr fun zeros =>
        unpadded (padded.mpr ⟨o, member, zeros⟩)
    have found : ∃ m ∈ runs classes.isWord (ipv4Re classes) token.before (token.text ++ tail),
        m.taken = token.text :=
      exists_mem_runs_bounded unbounded_ipv4Parts takes (by rw [apart.1, ends.1]; simp)
        (by rw [ends.2, after, apart.2]; simp)
    have filledText : token.text ≠ [] := by
      intro empty
      have word := ends.2
      rw [empty, List.getLast?_nil, Option.none_or, apart.1] at word
      contradiction
    obtain ⟨m, member, -⟩ := found
    obtain ⟨m, member, taken, replacement⟩ := @replaceIn_whole classes.isWord (ipv4Re classes)
      maskIpv4 tail token.before token.text filledText
      (fun u v cut m member => (whole u v cut m member).1) ⟨m, member⟩
    rw [replacement, maskIpv4_eq, taken]
    by_cases exempt : IsExempt token.text
    · rw [if_pos exempt, if_neg fun both => both.2 exempt]
    · rw [if_neg exempt, if_pos ⟨⟨apart, unpadded⟩, exempt⟩]
  · rw [if_neg (fun both => matched both.1)]
    refine replaceIn_of_no_match fun u v cut m member => ?_
    exact absurd (whole u v cut m member).2 matched

/-! ## Where the other replacements find nothing -/

/-- Where every match has a character that the token has not, nothing is replaced. -/
theorem pass_of_not_mem {re : Regex} {new : Match → Text} {token replaced : Token} {c : Char}
    (pass : Replaced classes.isWord re new token replaced) (absent : c ∉ token.text)
    (has : ∀ before s, ∀ m ∈ runs classes.isWord re before s, c ∈ m.taken) :
    replaced.text = token.text := by
  obtain ⟨tail, after, same⟩ := pass.text
  rw [same]
  refine replaceIn_of_no_match fun u v cut m member => ?_
  have inside := Avoids.taken_isPrefix (after ▸ pass.avoids) member
  have inToken : c ∈ token.text :=
    cut ▸ List.mem_append_right u (inside.subset (has _ _ m member))
  exact absurd inToken absent

theorem dot_mem_of_ipv4 (before : Option Char) (s : Text) :
    ∀ m ∈ runs classes.isWord (ipv4Re classes) before s, '.' ∈ m.taken := by
  intro m member
  rw [ipv4Re_eq] at member
  obtain ⟨octets, length, -, taken⟩ :=
    takes_ipv4Parts.mp (takes_of_mem_runs m (mem_runs_bounded.mp member).2.1)
  rw [taken]
  exact mem_join_of_length (by omega)

theorem colon_mem_of_ipv6 (before : Option Char) (s : Text) :
    ∀ m ∈ runs classes.isWord ipv6Re before s, ':' ∈ m.taken := by
  intro m member
  rw [ipv6Re_eq, runs, List.mem_append] at member
  rcases member with member | member
  · obtain ⟨gs, long, -, -, taken⟩ :=
      groups_of_takes_full (takes_of_mem_runs m (mem_runs_bounded.mp member).2.1)
    rw [taken]
    exact mem_join_of_length (by omega)
  · obtain ⟨gs, hs, -, -, -, taken⟩ :=
      groups_of_takes_short (takes_of_mem_runs m (mem_runs_bounded.mp member).2.1)
    simp [taken]

/-- Six fields without an empty one are no IPv6 address, unless they are six groups that stand
apart. -/
theorem ipv6_pass_of_six {token replaced : Token} {fields : List Text}
    (pass : Replaced classes.isWord ipv6Re maskIpv6 token replaced)
    (avoids : ∀ d ∈ token.after, macRe.Avoids d ∧ (ipv4Re classes).Avoids d ∧ ipv6Re.Avoids d)
    (text : token.text = join ':' fields) (length : fields.length = 6)
    (free : Free ':' fields) (filled : ∀ field ∈ fields, field ≠ [])
    (words : ∀ field ∈ fields, ∀ c ∈ field, classes.isWord c = true)
    (other : Apart classes token → ∃ field ∈ fields, ¬ IsGroup field) :
    replaced.text = token.text := by
  obtain ⟨tail, after, same⟩ := pass.text
  have nonempty : fields ≠ [] := by
    rintro rfl
    contradiction
  have piece : Piece classes ':' fields tail := ⟨nonempty, free, words, after ▸ avoids⟩
  rw [same]
  refine replaceIn_of_no_match fun u v cut m member => ?_
  cases ipv6_run piece (text ▸ cut) member with
  | full pre gs post split long short groups left taken right outer outer' =>
    have lengths := congrArg List.length split
    rw [List.length_append, List.length_append, length] at lengths
    obtain rfl := List.length_eq_zero_iff.mp (show pre.length = 0 by omega)
    obtain rfl := List.length_eq_zero_iff.mp (show post.length = 0 by omega)
    obtain ⟨field, inFields, noGroup⟩ := other ⟨outer rfl, after ▸ outer' rfl⟩
    refine absurd (groups field ?_) noGroup
    simpa [split] using inFields
  | short pre gs hs post split => exact absurd rfl (filled [] (by simp [split]))
  | cut pre gs b post split => exact absurd rfl (filled [] (by simp [split]))

/-! ## The three replacements together -/

theorem notX_of_mac {t : Text} (isMac : IsMac t) : 'x' ∉ t := by
  obtain ⟨bytes, -, all, rfl⟩ := isMac
  intro member
  rcases mem_join member with same | ⟨byte, inBytes, inByte⟩
  · exact absurd same (by decide)
  · exact absurd ((all byte inBytes).2 'x' inByte) (by decide)

theorem notX_of_quad {t : Text} (isQuad : IsQuad t) : 'x' ∉ t := by
  obtain ⟨numbers, -, all, rfl⟩ := isQuad
  intro member
  rcases mem_join member with same | ⟨octet, inOctets, inOctet⟩
  · exact absurd same (by decide)
  · exact absurd ((all octet inOctets).digits 'x' inOctet) (by decide)

namespace Scrubbed

variable {token scrubbed : Token} (passes : Scrubbed classes token scrubbed)

include passes

/-- A token that no mask is in is the one that was there. -/
theorem unmasked (noMask : 'x' ∉ scrubbed.text) : scrubbed.text = token.text := by
  obtain ⟨first, second, mac, ipv4, ipv6⟩ := passes
  have kept {re : Regex} {new : Match → Text} {before after : Token}
      (pass : Replaced classes.isWord re new before after)
      (masks : ∀ m : Match, new m = m.taken ∨ 'x' ∈ new m) (noMask : 'x' ∉ after.text) :
      after.text = before.text := by
    obtain ⟨tail, head, same⟩ := pass.text
    rw [same] at noMask ⊢
    have avoids : ∀ d ∈ tail.head?, re.Avoids d := head ▸ pass.avoids
    exact (replaceIn_eq_or_mem avoids masks 0 before.before before.text).resolve_right noMask
  have third : scrubbed.text = second.text := by
    refine kept ipv6 (fun m => ?_) noMask
    rw [maskIpv6]
    split_ifs <;> simp
  have next : second.text = first.text := by
    refine kept ipv4 (fun m => ?_) (third ▸ noMask)
    rw [maskIpv4]
    split_ifs <;> simp
  have start : first.text = token.text :=
    kept mac (fun m => .inr (by simp [maskMac])) (next ▸ third ▸ noMask)
  rw [third, next, start]

theorem mac (isMac : IsMac token.text) :
    scrubbed.text =
      if Apart classes token then token.text.take 8 ++ ":xx:xx:xx".toList else token.text := by
  have avoids := passes.avoids
  obtain ⟨first, second, mac, ipv4, ipv6⟩ := passes
  have masked := mac_pass mac avoids isMac
  have six : ∃ fields : List Text, first.text = join ':' fields ∧ fields.length = 6 ∧
      (∀ field ∈ fields, field ≠ [] ∧ ∀ c ∈ field, isAsciiHexdigit c = true ∨ c = 'x') ∧
      (Apart classes token → ∃ field ∈ fields, ¬ IsGroup field) := by
    obtain ⟨bytes, length, all, text⟩ := isMac
    by_cases apart : Apart classes token
    · rw [if_pos apart, text, take_join_bytes length all] at masked
      refine ⟨bytes.take 3 ++ maskedBytes, masked, by simp [length, maskedBytes], ?_,
        fun _ => ⟨"xx".toList, by simp [maskedBytes], fun isGroup => ?_⟩⟩
      · intro field member
        obtain kept | mask := List.mem_append.mp member
        · have isByte := all field (List.mem_of_mem_take kept)
          exact ⟨isByte.isGroup.ne_nil, fun c inField => .inl (isByte.2 c inField)⟩
        · obtain rfl : field = "xx".toList := by simpa [maskedBytes] using mask
          simp
      · exact absurd (isGroup.2 'x' (by simp)) (by decide)
    · rw [if_neg apart, text] at masked
      refine ⟨bytes, masked, length, fun byte member => ⟨?_, fun c inByte => ?_⟩,
        fun together => absurd together apart⟩
      · rintro rfl
        exact absurd (all [] member).1 (by decide)
      · exact .inl ((all byte member).2 c inByte)
  obtain ⟨fields, text, length, all, other⟩ := six
  have notIn {c : Char} (noHex : isAsciiHexdigit c = false) (noX : c ≠ 'x') :
      ∀ field ∈ fields, c ∉ field := by
    intro field member inField
    rcases (all field member).2 c inField with hex | mask
    · rw [noHex] at hex
      contradiction
    · exact noX mask
  have words : ∀ field ∈ fields, ∀ c ∈ field, classes.isWord c = true := by
    intro field member c inField
    rcases (all field member).2 c inField with hex | rfl
    · exact classes.isWord_of_isAsciiHexdigit hex
    · exact (classes.isWord_ascii 'x' (by decide)).trans (by decide)
  have noDot : '.' ∉ first.text := by
    intro member
    rw [text] at member
    rcases mem_join member with same | ⟨field, inFields, inField⟩
    · exact absurd same (by decide)
    · exact notIn (by decide) (by decide) field inFields inField
  have afterIpv4 := pass_of_not_mem ipv4 noDot dot_mem_of_ipv4
  have sameSides : Apart classes second = Apart classes token := by
    rw [Apart, Apart, ipv4.before, ipv4.after, mac.before, mac.after]
  have afterIpv6 := ipv6_pass_of_six ipv6 (by rwa [ipv4.after, mac.after]) (afterIpv4.trans text)
    length (notIn (by decide) (by decide)) (fun field member => (all field member).1) words
    (sameSides ▸ other)
  rw [afterIpv6, afterIpv4, masked]

theorem quad (isQuad : IsQuad token.text) :
    scrubbed.text =
      if (Apart classes token ∧ ¬ HasPadded token.text) ∧ ¬ IsExempt token.text then
        "x.x.x.x".toList
      else token.text := by
  have avoids := passes.avoids
  obtain ⟨first, second, mac, ipv4, ipv6⟩ := passes
  have noColon : ':' ∉ token.text := by
    obtain ⟨numbers, -, all, text⟩ := isQuad
    intro member
    rw [text] at member
    rcases mem_join member with same | ⟨field, inFields, inField⟩
    · exact absurd same (by decide)
    · exact (chars_of_number classes (all field inFields) inField).2.1 rfl
  have afterMac := pass_of_not_mem mac noColon colon_mem_of_mac
  have afterIpv4 := quad_pass ipv4 (by rwa [mac.after]) (afterMac ▸ isQuad)
  have sameSides : Apart classes first = Apart classes token := by
    rw [Apart, Apart, mac.before, mac.after]
  rw [afterMac] at afterIpv4
  simp only [sameSides] at afterIpv4
  have noColon' : ':' ∉ second.text := by
    rw [afterIpv4]
    split_ifs
    · decide
    · exact noColon
  rw [pass_of_not_mem ipv6 noColon' colon_mem_of_ipv6, afterIpv4]

end Scrubbed

/-! ## Scrubbed texts -/

/-- A text in which no MAC address and no IPv4 address but an exempt one stands between delimiters. -/
def Clean (classes : CharClasses) (letters : Letters) (text : Text) : Prop :=
  ∀ token ∈ tokens (isDelimiter classes letters) none text,
    ¬ IsMac token.text ∧ (IsQuad token.text → IsExempt token.text)

/-- The exempt addresses are left, and the vendor part of every MAC address. -/
def Keeps (token scrubbed : Token) : Prop :=
  (IsQuad token.text → IsExempt token.text → scrubbed.text = token.text) ∧
    (IsMac token.text → token.text.take 8 <+: scrubbed.text)

/-- A scrubbed text has no MAC address and no IPv4 address but the exempt ones between delimiters,
and these are left, with the vendor part of every MAC address: this is so exactly when no word touches
an address of the text, as it does next to `_`, and no number of an address that is not exempt is
filled up with zeros. -/
theorem addresses_scrubbed_iff (classes : CharClasses) (letters : Letters) (text : Text) :
    (Clean classes letters (scrub classes text) ∧
        List.Forall₂ Keeps (tokens (isDelimiter classes letters) none text)
          (tokens (isDelimiter classes letters) none (scrub classes text))) ↔
      ∀ token ∈ tokens (isDelimiter classes letters) none text,
        (IsMac token.text → Apart classes token) ∧
          (IsQuad token.text → ¬ IsExempt token.text →
            Apart classes token ∧ ¬ HasPadded token.text) := by
  have pairs := @tokens_scrub classes letters text
  constructor
  · rintro ⟨clean, -⟩ token member
    obtain ⟨scrubbed, inScrubbed, passes⟩ := exists_right_of_forall₂ pairs member
    obtain ⟨noMac, noQuad⟩ := clean scrubbed inScrubbed
    refine ⟨fun isMac => ?_, fun isQuad identifies => ?_⟩
    · by_contra touched
      have same := passes.mac isMac
      rw [if_neg touched] at same
      exact noMac (same ▸ isMac)
    · by_contra unmatched
      have same := passes.quad isQuad
      rw [if_neg fun both => unmatched both.1] at same
      exact identifies (same ▸ noQuad (same ▸ isQuad))
  · intro matched
    refine ⟨fun scrubbed member => ?_, pairs.imp fun token scrubbed passes => ⟨?_, ?_⟩⟩
    · obtain ⟨token, inText, passes⟩ := exists_left_of_forall₂ pairs member
      obtain ⟨macApart, quadApart⟩ := matched token inText
      constructor
      · intro isMac
        have same := passes.unmasked (notX_of_mac isMac)
        have masked := passes.mac (same ▸ isMac)
        rw [if_pos (macApart (same ▸ isMac))] at masked
        exact notX_of_mac isMac (masked ▸ by simp)
      · intro isQuad
        by_contra identifies
        have same := passes.unmasked (notX_of_quad isQuad)
        have masked := passes.quad (same ▸ isQuad)
        rw [if_pos ⟨quadApart (same ▸ isQuad) (same ▸ identifies), same ▸ identifies⟩] at masked
        exact notX_of_quad isQuad (masked ▸ by simp)
    · intro isQuad exempt
      rw [passes.quad isQuad, if_neg fun both => both.2 exempt]
    · intro isMac
      rw [passes.mac isMac]
      split_ifs
      · exact List.prefix_append _ _
      · exact List.take_prefix 8 _

/-- An underscore belongs to words, so there is no boundary between it and an address; and a number
that is filled up with zeros is none to the expression. -/
theorem addresses_after_underscore_kept :
    (scrub CharClasses.ascii "eth0_94:83:c4:12:34:56 ip_192.168.1.42".toList =
        "eth0_94:83:c4:12:34:56 ip_192.168.1.42".toList ∧
      ¬ Clean CharClasses.ascii Letters.ascii
        (scrub CharClasses.ascii "eth0_94:83:c4:12:34:56 ip_192.168.1.42".toList)) ∧
    scrub CharClasses.ascii "192.168.001.042".toList = "192.168.001.042".toList ∧
      ¬ Clean CharClasses.ascii Letters.ascii
        (scrub CharClasses.ascii "192.168.001.042".toList) := by
  have unscrubbed (text quad : Text) (before : Option Char)
      (same : scrub CharClasses.ascii text = text)
      (member : ⟨before, quad, none⟩ ∈ tokens (isDelimiter CharClasses.ascii Letters.ascii) none text)
      (isQuad : IsQuad quad) (identifies : ¬ IsExempt quad) :
      ¬ Clean CharClasses.ascii Letters.ascii (scrub CharClasses.ascii text) := by
    intro clean
    rw [same] at clean
    exact identifies ((clean _ member).2 isQuad)
  have number (octets : List Text)
      (checked : ∀ o ∈ octets, (1 ≤ o.length ∧ o.length ≤ 3) ∧
        o.all isAsciiDigit = true ∧ Nat.ofDigitChars 10 o 0 ≤ 255) :
      ∀ o ∈ octets, IsByteNumber o := fun o member =>
    ⟨(checked o member).1, List.all_eq_true.mp (checked o member).2.1, (checked o member).2.2⟩
  have touched : scrub CharClasses.ascii "eth0_94:83:c4:12:34:56 ip_192.168.1.42".toList =
      "eth0_94:83:c4:12:34:56 ip_192.168.1.42".toList := by decide +kernel
  have padded : scrub CharClasses.ascii "192.168.001.042".toList = "192.168.001.042".toList := by
    decide +kernel
  refine ⟨⟨touched, ?_⟩, padded, ?_⟩
  · exact unscrubbed _ "192.168.1.42".toList (some '_') touched (by decide +kernel)
      ⟨["192".toList, "168".toList, "1".toList, "42".toList], rfl, number _ (by decide +kernel),
        by decide +kernel⟩ (by decide +kernel)
  · exact unscrubbed _ "192.168.001.042".toList none padded (by decide +kernel)
      ⟨["192".toList, "168".toList, "001".toList, "042".toList], rfl, number _ (by decide +kernel),
        by decide +kernel⟩ (by decide +kernel)

end UcrashReport.Scrub
