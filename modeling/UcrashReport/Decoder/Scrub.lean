import UcrashReport.Rust.Regex

/-! # Scrubbing

MAC and IP addresses in a decoded text are masked. The three replacements run one after another,
each on the result of the one before it. Blanks, brackets and line ends separate what is masked, so
a text is scrubbed piece by piece; the sign and the radix prefix of a hex offset are left alone.
-/

namespace UcrashReport.Scrub

open Rust Rust.Text Regex

/-! ## The expressions -/

def hexDigit : Regex := set isAsciiHexdigit

def hexByte : Regex := times 2 hexDigit

def hexGroup : Regex := between 1 4 hexDigit

def macRe : Regex :=
  sequence
    [boundary,
      group 1 (sequence [hexByte, char ':', hexByte, char ':', hexByte]),
      char ':', hexByte, char ':', hexByte, char ':', hexByte, boundary]

/-- `25[0-5]|2[0-4]\d|1?\d?\d`. -/
def octet (classes : CharClasses) : Regex :=
  let digit := set classes.isDigit
  alt (sequence [char '2', char '5', range '0' '5'])
    (alt (sequence [char '2', range '0' '4', digit])
      (sequence [opt (char '1'), opt digit, digit]))

def ipv4Re (classes : CharClasses) : Regex :=
  sequence
    [boundary, group 1 (octet classes), char '.', group 2 (octet classes), char '.',
      group 3 (octet classes), char '.', group 4 (octet classes), boundary]

/-- The full form with at least 5 groups, or a form that `::` shortens. -/
def ipv6Re : Regex :=
  alt
    (sequence [boundary, between 5 7 (seq hexGroup (char ':')), hexGroup, boundary])
    (sequence
      [boundary, hexGroup, char ':', star (seq hexGroup (char ':')), char ':',
        opt (seq hexGroup (star (seq (char ':') hexGroup))), boundary])

/-! ## The replacements -/

/-- The vendor part of the address is kept. -/
def maskMac (m : Match) : Text := m.group 1 ++ ":xx:xx:xx".toList

/-- Loopback and broadcast addresses identify nobody. -/
def maskIpv4 (m : Match) : Text :=
  if m.taken = "0.0.0.0".toList || startsWith "127.".toList m.taken ||
      m.taken = "255.255.255.255".toList then m.taken
  else "x.x.x.x".toList

def maskIpv6 (m : Match) : Text :=
  if m.taken = "::".toList || m.taken = "::1".toList then m.taken else "x:x::x".toList

def scrub (classes : CharClasses) (text : Text) : Text :=
  let out := replaceAll classes.isWord macRe maskMac text
  let out := replaceAll classes.isWord (ipv4Re classes) maskIpv4 out
  replaceAll classes.isWord ipv6Re maskIpv6 out

/-! ## Laws -/

variable (classes : CharClasses)

/-- An ASCII character that is no part of a word and of no address. -/
def Separates (c : Char) : Prop :=
  c.toNat < 128 ∧ isAsciiAlphanumeric c = false ∧ c ≠ '_' ∧ c ≠ ':' ∧ c ≠ '.'
deriving Decidable

variable {classes}

theorem Separates.isWord_eq {c : Char} (separates : Separates c) : classes.isWord c = false := by
  obtain ⟨isAscii, noAlphanumeric, noUnderscore, -⟩ := separates
  simp [classes.isWord_ascii c isAscii, noAlphanumeric, noUnderscore]

theorem Separates.isAsciiHexdigit_eq {c : Char} (separates : Separates c) :
    isAsciiHexdigit c = false := by
  have noAlphanumeric := separates.2.1
  simp only [isAsciiAlphanumeric, isAsciiDigit, Bool.or_eq_false_iff, Bool.and_eq_false_iff,
    decide_eq_false_iff_not] at noAlphanumeric
  simp only [isAsciiHexdigit, isAsciiDigit, Bool.or_eq_false_iff, Bool.and_eq_false_iff,
    decide_eq_false_iff_not]
  omega

/-- The addresses consist of hex digits, colons and dots. -/
theorem avoids_of_not_digit {c : Char} (noHex : isAsciiHexdigit c = false)
    (noDigit : classes.isDigit c = false) (noColon : c ≠ ':') (noDot : c ≠ '.') :
    macRe.Avoids c ∧ (ipv4Re classes).Avoids c ∧ ipv6Re.Avoids c := by
  have noAsciiDigit : isAsciiDigit c = false := by
    rw [isAsciiHexdigit, Bool.or_eq_false_iff, Bool.or_eq_false_iff] at noHex
    exact noHex.1.1
  have outside : c.toNat < 48 ∨ 57 < c.toNat := by
    simp only [isAsciiDigit, Bool.and_eq_false_iff, decide_eq_false_iff_not] at noAsciiDigit
    omega
  have noChar (d : Char) (digit : isAsciiDigit d = true) : c ≠ d := by
    rintro rfl
    rw [noAsciiDigit] at digit
    contradiction
  simp [macRe, ipv4Re, ipv6Re, Regex.sequence, hexByte, hexGroup, hexDigit, octet, between, times, upTo,
    opt, char, range, Avoids, noHex, noDigit, noColon, noDot, noChar '1' (by decide),
    noChar '2' (by decide), noChar '5' (by decide)]
  omega

theorem avoids_of_not_hexdigit (classes : CharClasses) {c : Char} (isAscii : c.toNat < 128)
    (noHex : isAsciiHexdigit c = false) (noColon : c ≠ ':') (noDot : c ≠ '.') :
    macRe.Avoids c ∧ (ipv4Re classes).Avoids c ∧ ipv6Re.Avoids c := by
  refine avoids_of_not_digit noHex ?_ noColon noDot
  rw [isAsciiHexdigit, Bool.or_eq_false_iff, Bool.or_eq_false_iff] at noHex
  rw [classes.isDigit_ascii c isAscii, noHex.1.1]

/-- A text is scrubbed piece by piece. -/
theorem scrub_append {c : Char} (separates : Separates c) (s tail : Text) :
    scrub classes (s ++ c :: tail) = scrub classes s ++ c :: scrub classes tail := by
  have noWord : classes.isWord c = false := separates.isWord_eq
  obtain ⟨mac, ipv4, ipv6⟩ := avoids_of_not_hexdigit classes separates.1
    separates.isAsciiHexdigit_eq separates.2.2.2.1 separates.2.2.2.2
  simp only [scrub]
  rw [replaceAll_append noWord mac (fun _ _ => rfl), replaceAll_append noWord ipv4 (fun _ _ => rfl),
    replaceAll_append noWord ipv6 (fun _ _ => rfl)]

@[simp] theorem scrub_nil : scrub classes [] = [] := rfl

theorem scrub_cons {c : Char} (separates : Separates c) (tail : Text) :
    scrub classes (c :: tail) = c :: scrub classes tail :=
  scrub_append separates [] tail

private theorem replaceAll_hexPrefix (classes : CharClasses) {re : Regex} (avoids : re.Avoids 'x')
    (long : 1 < re.minLength) (new : Match → Text) (tail : Text) :
    ∃ rest, replaceAll classes.isWord re new ('0' :: 'x' :: tail) = '0' :: 'x' :: rest := by
  have digit : matchAt classes.isWord re none (['0'] ++ 'x' :: tail) = none := by
    apply avoids.matchAt_eq_none
    simpa using long
  have radix : matchAt classes.isWord re (some '0') ([] ++ 'x' :: tail) = none := by
    apply avoids.matchAt_eq_none
    exact Nat.zero_lt_of_lt long
  exact ⟨_, (replaceFrom_of_matchAt_none digit).trans
    (congrArg _ (replaceFrom_of_matchAt_none radix))⟩

/-- The radix prefix of a hex number stays. -/
theorem scrub_hexPrefix (tail : Text) :
    ∃ rest, scrub classes ('0' :: 'x' :: tail) = '0' :: 'x' :: rest := by
  obtain ⟨mac, ipv4, ipv6⟩ :=
    avoids_of_not_hexdigit classes (show 'x'.toNat < 128 by decide) (by decide) (by decide)
      (by decide)
  obtain ⟨first, scrubbedMac⟩ :=
    replaceAll_hexPrefix classes mac (by decide) maskMac tail
  obtain ⟨second, scrubbedIpv4⟩ :=
    replaceAll_hexPrefix classes ipv4 (by change 1 < 7; decide) maskIpv4 first
  obtain ⟨third, scrubbedIpv6⟩ :=
    replaceAll_hexPrefix classes ipv6 (by decide) maskIpv6 second
  exact ⟨third, by rw [scrub, scrubbedMac, scrubbedIpv4, scrubbedIpv6]⟩

/-- Every character of a scrubbed text comes from the text or from a mask. -/
theorem forall_mem_scrub {property : Char → Prop} (colon : property ':') (dot : property '.')
    (masked : property 'x') {s : Text} (holds : ∀ c ∈ s, property c) :
    ∀ c ∈ scrub classes s, property c := by
  have fixed {mask : Text} (shape : ∀ c ∈ mask, c = ':' ∨ c = '.' ∨ c = 'x') :
      ∀ c ∈ mask, property c := by
    intro c member
    rcases shape c member with rfl | rfl | rfl <;> assumption
  refine forall_mem_replaceFrom ?_ 0 none _
    (forall_mem_replaceFrom ?_ 0 none _ (forall_mem_replaceFrom ?_ 0 none _ holds))
  · intro m taken groups
    unfold maskIpv6
    split_ifs
    · exact taken
    · exact fixed (forall_mem_of_all (by decide))
  · intro m taken groups
    unfold maskIpv4
    split_ifs
    · exact taken
    · exact fixed (forall_mem_of_all (by decide))
  · intro m taken groups c member
    rcases List.mem_append.mp member with vendor | mask
    · obtain ⟨g, inGroups, inGroup⟩ := mem_group vendor
      exact taken c ((groups g inGroups).subset inGroup)
    · exact fixed (forall_mem_of_all (by decide)) c mask

/-- A text is kept, or a mask makes it at least three characters long. -/
theorem scrub_eq_or_long (s : Text) : scrub classes s = s ∨ 3 ≤ (scrub classes s).length := by
  have pass {re : Regex} {new : Match → Text}
      (replaced : ∀ m : Match, new m = m.taken ∨ 3 ≤ (new m).length) {t : Text}
      (before : t = s ∨ 3 ≤ t.length) : replaceAll classes.isWord re new t = s ∨
        3 ≤ (replaceAll classes.isWord re new t).length := by
    rcases @replaceFrom_eq_or_long classes.isWord 3 re new replaced 0 none t with same | longer
    · rwa [replaceAll, same]
    · exact .inr longer
  refine pass ?_ (pass ?_ (pass ?_ (.inl rfl)))
  · intro m
    unfold maskIpv6
    split_ifs
    · exact .inl rfl
    · exact .inr (by decide)
  · intro m
    unfold maskIpv4
    split_ifs
    · exact .inl rfl
    · exact .inr (by decide)
  · intro m
    refine .inr ?_
    rw [maskMac, List.length_append]
    exact Nat.le_add_left_of_le (by decide)

/-- A text of three characters or more does not get shorter than that. -/
theorem three_le_scrub {s : Text} (long : 3 ≤ s.length) : 3 ≤ (scrub classes s).length := by
  rcases scrub_eq_or_long s with same | longer
  · rwa [same]
  · exact longer

theorem scrub_ne_nil {s : Text} (nonempty : s ≠ []) : scrub classes s ≠ [] := by
  rcases scrub_eq_or_long s with same | longer
  · rwa [same]
  · intro empty
    rw [empty] at longer
    contradiction

end UcrashReport.Scrub
