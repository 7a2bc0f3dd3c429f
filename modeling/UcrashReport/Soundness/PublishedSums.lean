import UcrashReport.Decoder.Unpacking

/-! # Published checksums

A tarball that is not on the local disk is compared with the sum published for it, and extracted
unverified when no sum is found. Sums are published in the format of the `sha256sum` tool: one line
an entry, in binary mode with a star before the file name, in text mode with a second blank. The
code reads a line for a file by the star alone, so whether a listed sum is enforced depends on the
first line that it takes for the artifact.
-/

namespace UcrashReport.Symbols

open Rust Rust.Text BuildId

/-! ## The format of the sums -/

/-- One entry. Line ends in file names are escaped by the tool, so that a name has none. -/
structure SumEntry where
  sum : Text
  binary : Bool
  name : Text
  sum_length : sum.length = 64
  sum_digits : ∀ c ∈ sum, isAsciiHexdigit c = true
  name_single : '\n' ∉ name
  name_no_return : '\r' ∉ name

namespace SumEntry

def line (e : SumEntry) : Text := e.sum ++ ' ' :: (if e.binary then '*' else ' ') :: e.name

/-- The code takes the entry for one of the file. -/
def isTakenFor (file : Text) (e : SumEntry) : Bool :=
  if e.binary then decide (trimStartMatches "*".toList e.name = file)
  else decide (' ' :: e.name = file)

end SumEntry

/-- Published sums with exactly one entry for a file. -/
structure PublishedSums (file : Text) where
  entries : List SumEntry
  entry : SumEntry
  listed : entries.filter (fun e => e.name = file) = [entry]

def PublishedSums.text {file : Text} (sums : PublishedSums file) : Text :=
  sums.entries.flatMap fun e => e.line ++ ['\n']

/-- The sums are found next to the artifact and arrive whole. -/
def Publishes (formats : Formats) (outside : Outside) (base text : Text) : Prop :=
  ∃ resp, outside.get (base ++ "/sha256sums".toList) = some resp ∧ resp.broken = false ∧
    formats.bodyText resp.chunks.flatten = text

/-- A tarball with another sum than the listed one gives an error and is not extracted. -/
def Enforced (pool : SymbolPool) (version target base : Text) {file : Text}
    (sums : PublishedSums file) : Prop :=
  ∀ formats outside tarball, Publishes formats outside base sums.text →
    download outside (pool.urlOf version target) = .ok tarball →
    eqIgnoreAsciiCase (hexEncode (formats.sha256 tarball)) sums.entry.sum = false →
      ∃ e, pool.fetchTarball formats outside version target = .error e ∧
        ∀ tree, pool.fetchKernel formats outside version target tree = (.error e, tree)

/-! ## How the lines are read -/

namespace SumEntry

variable (e : SumEntry)

theorem not_mem_line {c : Char} (noDigit : isAsciiHexdigit c = false) (noBlank : c ≠ ' ')
    (noStar : c ≠ '*') (absent : c ∉ e.name) : c ∉ e.line := by
  have inSum : c ∉ e.sum := fun member => by
    have digit := e.sum_digits c member
    rw [noDigit] at digit
    contradiction
  have noFlag : c ≠ if e.binary then '*' else ' ' := by split_ifs <;> assumption
  simp [line, inSum, noBlank, noFlag, absent]

theorem splitOnce_line :
    splitOnce " ".toList e.line = some (e.sum, (if e.binary then '*' else ' ') :: e.name) := by
  refine splitOnce_singleton (fun member => ?_) _
  have digit := e.sum_digits ' ' member
  contradiction

theorem trimStartMatches_star (s : Text) :
    trimStartMatches "*".toList ('*' :: s) = trimStartMatches "*".toList s := by
  rfl

theorem trimStartMatches_blank (s : Text) :
    trimStartMatches "*".toList (' ' :: s) = ' ' :: s := by
  rfl

theorem taken_iff (file : Text) :
    trimStartMatches "*".toList ((if e.binary then '*' else ' ') :: e.name) = file ↔
      e.isTakenFor file = true := by
  unfold isTakenFor
  split_ifs
  · rw [trimStartMatches_star, decide_eq_true_iff]
  · rw [trimStartMatches_blank, decide_eq_true_iff]

theorem trim_sum : trim e.sum = e.sum :=
  trim_of_visible fun c member => isWhitespace_of_isAsciiHexdigit (e.sum_digits c member)

theorem toLowercase_sum (formats : Formats) : formats.toLowercase e.sum = toAsciiLowercase e.sum := by
  apply formats.toLowercase_ascii
  intro c member
  have digit := e.sum_digits c member
  simp only [isAsciiHexdigit, isAsciiDigit, Bool.or_eq_true, Bool.and_eq_true,
    decide_eq_true_eq] at digit
  omega

end SumEntry

theorem findSum_lines (formats : Formats) (file : Text) (entries : List SumEntry) :
    findSum formats file (entries.map SumEntry.line) =
      match entries.find? (SumEntry.isTakenFor file) with
      | some e => .ok (toAsciiLowercase e.sum)
      | none => .error (.bail ("no sha256sums entry for ".toList ++ file)) := by
  induction entries with
  | nil => rfl
  | cons e entries ih =>
    rw [List.map_cons, findSum, e.splitOnce_line, List.find?_cons]
    dsimp only
    cases taken : e.isTakenFor file with
    | true => rw [if_pos ((e.taken_iff file).mpr taken), e.trim_sum, e.toLowercase_sum]
    | false =>
      rw [if_neg (by rw [e.taken_iff, taken]; exact Bool.false_ne_true), ih]

theorem lines_text {file : Text} (sums : PublishedSums file) :
    lines sums.text = sums.entries.map SumEntry.line := by
  have noBreak (c : Char) (isBreak : c = '\n' ∨ c = '\r') (e : SumEntry) : c ∉ e.line := by
    rcases isBreak with rfl | rfl
    · exact e.not_mem_line (by decide) (by decide) (by decide) e.name_single
    · exact e.not_mem_line (by decide) (by decide) (by decide) e.name_no_return
  have read := @lines_flatMap (sums.entries.map SumEntry.line) fun line member => by
    obtain ⟨e, -, rfl⟩ := List.mem_map.mp member
    exact noBreak '\n' (.inl rfl) e
  rw [List.flatMap_map, List.map_map] at read
  rw [PublishedSums.text, read]
  refine List.map_congr_left fun e _ => ?_
  rw [Function.comp_apply, stripReturn, if_neg]
  exact fun last => noBreak '\r' (.inr rfl) e (List.mem_of_getLast? last)

/-! ## What is extracted -/

section Fetch

variable {pool : SymbolPool} {formats : Formats} {outside : Outside} {version target base file : Text}

/-- The sum that the code compares with, if any, is that of the first line taken for the file. -/
theorem fetchExpectedSha256_of_publishes {url : Text} {sums : PublishedSums file}
    (split : rsplitOnce "/".toList url = some (base, file))
    (publishes : Publishes formats outside base sums.text) :
    fetchExpectedSha256 formats outside url =
      match sums.entries.find? (SumEntry.isTakenFor file) with
      | some e => .ok (toAsciiLowercase e.sum)
      | none => .error (.bail ("no sha256sums entry for ".toList ++ file)) := by
  obtain ⟨resp, answered, whole, text⟩ := publishes
  rw [fetchExpectedSha256, split]
  dsimp only
  rw [answered]
  dsimp only
  rw [whole, if_neg Bool.false_ne_true, text, lines_text, findSum_lines]

/-- With sums at hand a tarball passes when the first line taken for it has its sum, or when there
is no such line. -/
theorem fetchTarball_of_publishes {sums : PublishedSums file} {tarball : Bytes}
    (remote : startsWith "file://".toList (pool.urlOf version target) = false)
    (split : rsplitOnce "/".toList (pool.urlOf version target) = some (base, file))
    (publishes : Publishes formats outside base sums.text)
    (downloaded : download outside (pool.urlOf version target) = .ok tarball) :
    pool.fetchTarball formats outside version target = .ok tarball ↔
      ∀ e, sums.entries.find? (SumEntry.isTakenFor file) = some e →
        hexEncode (formats.sha256 tarball) = toAsciiLowercase e.sum := by
  rw [SymbolPool.fetchTarball]
  dsimp only
  rw [downloaded]
  dsimp only
  rw [remote, if_neg Bool.false_ne_true, fetchExpectedSha256_of_publishes split publishes]
  cases sums.entries.find? (SumEntry.isTakenFor file) with
  | none => simp
  | some e =>
    dsimp only
    split_ifs with same <;> simp [same]

theorem fetchTarball_eq_ok_or_error {tarball : Bytes}
    (downloaded : download outside (pool.urlOf version target) = .ok tarball) :
    pool.fetchTarball formats outside version target = .ok tarball ∨
      ∃ e, pool.fetchTarball formats outside version target = .error e := by
  rw [SymbolPool.fetchTarball]
  dsimp only
  rw [downloaded]
  dsimp only
  split_ifs
  · exact .inl rfl
  · cases fetchExpectedSha256 formats outside (pool.urlOf version target) with
    | error e => exact .inl rfl
    | ok expected =>
      dsimp only
      split_ifs
      · exact .inl rfl
      · exact .inr ⟨_, rfl⟩

end Fetch

theorem eqIgnoreAsciiCase_hexEncode (data : Bytes) (s : Text) :
    eqIgnoreAsciiCase (hexEncode data) s = decide (hexEncode data = toAsciiLowercase s) := by
  rw [eqIgnoreAsciiCase, toAsciiLowercase_hexEncode, Bool.eq_iff_iff, beq_iff_eq,
    decide_eq_true_iff]

/-- A world in which every address answers with the same empty body, and its digest. -/
def emptyWorld : Outside where
  now := 0
  localSize _ := none
  localFile _ := none
  get _ := some ⟨none, [], false⟩
  stopAfter := none
  listing := id
  listing_perm _ := List.Perm.refl _

def fixedFormats (digest : Bytes) (text : Text) : Formats :=
  { plainFormats with sha256 := fun _ => digest, bodyText := fun _ => text }

theorem download_emptyWorld {url : Text} (remote : startsWith "file://".toList url = false) :
    download emptyWorld url = .ok [] := by
  have noFile : "file://".toList.isPrefixOf? url = none := by
    rw [Option.eq_none_iff_forall_ne_some]
    intro rest found
    have leading := startsWith_iff.mpr ⟨rest, List.isPrefixOf?_eq_some_iff_append_eq.mp found⟩
    rw [remote] at leading
    contradiction
  rw [download, noFile]
  rfl

/-- A listed sum is enforced exactly when the first line taken for the artifact carries it. -/
theorem enforced_iff {pool : SymbolPool} {version target base file : Text}
    (remote : startsWith "file://".toList (pool.urlOf version target) = false)
    (split : rsplitOnce "/".toList (pool.urlOf version target) = some (base, file))
    (sums : PublishedSums file) :
    Enforced pool version target base sums ↔
      ∃ e, sums.entries.find? (SumEntry.isTakenFor file) = some e ∧
        eqIgnoreAsciiCase e.sum sums.entry.sum = true := by
  constructor
  · intro enforced
    -- In a world with this digest, some other digest than the listed one must be refused.
    have refused (digest : Bytes)
        (differs : eqIgnoreAsciiCase (hexEncode digest) sums.entry.sum = false) :
        ∃ e, sums.entries.find? (SumEntry.isTakenFor file) = some e ∧
          hexEncode digest ≠ toAsciiLowercase e.sum := by
      have publishes : Publishes (fixedFormats digest sums.text) emptyWorld base sums.text :=
        ⟨_, rfl, rfl, rfl⟩
      have downloaded := download_emptyWorld remote
      obtain ⟨failure, failed, -⟩ := enforced _ _ _ publishes downloaded differs
      by_contra passes
      push Not at passes
      have extracted := (fetchTarball_of_publishes remote split publishes downloaded).mpr passes
      rw [failed] at extracted
      contradiction
    have noDigest : eqIgnoreAsciiCase (hexEncode []) sums.entry.sum = false := by
      rw [eqIgnoreAsciiCase_hexEncode, decide_eq_false_iff_not]
      intro same
      have lengths := congrArg List.length same
      rw [toAsciiLowercase, List.length_map, sums.entry.sum_length] at lengths
      contradiction
    obtain ⟨e, taken, -⟩ := refused [] noDigest
    refine ⟨e, taken, ?_⟩
    by_contra other
    obtain ⟨digest, encoded⟩ := @exists_hexEncode 32 e.sum e.sum_length e.sum_digits
    have differs : eqIgnoreAsciiCase (hexEncode digest) sums.entry.sum = false := by
      rw [eqIgnoreAsciiCase_hexEncode, encoded]
      simpa [eqIgnoreAsciiCase] using other
    obtain ⟨e', taken', different⟩ := refused digest differs
    rw [taken, Option.some.injEq] at taken'
    exact different (taken' ▸ encoded)
  · rintro ⟨e, taken, same⟩ formats outside tarball publishes downloaded differs
    rcases fetchTarball_eq_ok_or_error downloaded with passed | ⟨failure, failed⟩
    · have equal := (fetchTarball_of_publishes remote split publishes downloaded).mp passed e taken
      rw [eqIgnoreAsciiCase_hexEncode, equal] at differs
      rw [eqIgnoreAsciiCase, beq_iff_eq] at same
      simp [same] at differs
    · refine ⟨failure, failed, fun tree => ?_⟩
      rw [SymbolPool.fetchKernel, failed]

/-! ## Both modes -/

def demoPool : SymbolPool := ⟨[], "https://d/k.zst".toList, []⟩

/-- The entry of the artifact, with the sum of 64 digits a. -/
def demoEntry (binary : Bool) : SumEntry where
  sum := List.replicate 64 'a'
  binary
  name := "k.zst".toList
  sum_length := List.length_replicate
  sum_digits := forall_mem_of_all (by decide)
  name_single := by decide
  name_no_return := by decide

def demoSums (binary : Bool) : PublishedSums "k.zst".toList where
  entries := [demoEntry binary]
  entry := demoEntry binary
  listed := List.filter_cons_of_pos rfl

theorem enforced_binary :
    Enforced demoPool "1".toList "t".toList "https://d".toList (demoSums true) ↔
      ∃ e, (demoSums true).entries.find? (SumEntry.isTakenFor "k.zst".toList) = some e ∧
        eqIgnoreAsciiCase e.sum (demoSums true).entry.sum = true :=
  enforced_iff (by decide) (by decide) (demoSums true)

/-- An entry in text mode is not recognized, and another tarball is extracted. -/
theorem not_enforced_text :
    ¬ Enforced demoPool "1".toList "t".toList "https://d".toList (demoSums false) := by
  intro enforced
  obtain ⟨e, failed, -⟩ := enforced (fixedFormats [] (demoSums false).text) emptyWorld []
    ⟨_, rfl, rfl, rfl⟩ (download_emptyWorld (by decide)) (by decide)
  have extracted : demoPool.fetchTarball (fixedFormats [] (demoSums false).text) emptyWorld
      "1".toList "t".toList = .ok [] := by decide +kernel
  rw [extracted] at failed
  contradiction

end UcrashReport.Symbols
