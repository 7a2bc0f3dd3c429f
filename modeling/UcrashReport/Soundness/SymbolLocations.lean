import UcrashReport.Decoder.Symbolizer
import UcrashReport.Rust.Language

/-! # Locations of symbols and offsets

The symbols of an object file are put into a table by name, so that its order decides between
defined symbols of one name: `findLocation` is a function of the set of symbols exactly when no
name is defined at two addresses.

An annotated line is asked about by its first trace entry. What the entry says about its module and
its offset is read here once more, with the build-id that may follow the module and without a bound
on the offset, and compared with what the code asks the symbols.
-/

namespace UcrashReport.Symbols

open Rust Rust.Text Regex BuildId Annotate

namespace Binary

/-- What the debug information says about an address, as it is appended. -/
def describe (bin : Binary) (address : ℕ) : Option Text := do
  let loc ← bin.loader address
  let file ← loc.file
  match loc.line with
  | some line => some (stripBuildHost file ++ ":".toList ++ decimal line)
  | none => some (stripBuildHost file)

theorem findLocation_eq (bin : Binary) (symbol : Text) (offset : ℕ) :
    bin.findLocation symbol offset = (bin.syms.lookup symbol).bind fun base =>
      if base + offset < 2 ^ 64 then bin.describe (base + offset) else none := by
  unfold findLocation
  rw [Option.bind_eq_bind]
  refine congrArg (Option.bind _) (funext fun base => ?_)
  split_ifs <;> rfl

theorem findLocation_eq_some_iff {bin : Binary} {symbol : Text} {offset : ℕ} {loc : Text} :
    bin.findLocation symbol offset = some loc ↔
      ∃ base, bin.syms.lookup symbol = some base ∧ base + offset < 2 ^ 64 ∧
        bin.describe (base + offset) = some loc := by
  rw [findLocation_eq, Option.bind_eq_some_iff]
  simp only [Option.ite_none_right_eq_some]

/-! ## The order of the symbols -/

/-- Defined symbols of one name have one address. -/
def Unambiguous (symbols : List ElfSymbol) : Prop :=
  ∀ sym ∈ symbols, ∀ other ∈ symbols, ∀ name address address',
    definedSymbol sym = some (name, address) → definedSymbol other = some (name, address') →
      address = address'

/-- However the symbols of the file are ordered, every location is the same. -/
def OrderFree (symbols : List ElfSymbol) : Prop :=
  ∀ reordered : List ElfSymbol, reordered.Perm symbols → ∀ buildId loader name offset,
    (ofObject ⟨buildId, reordered⟩ loader).findLocation name offset =
      (ofObject ⟨buildId, symbols⟩ loader).findLocation name offset

theorem mem_syms_ofObject {obj : Elf} {loader : Loader} {entry : Text × ℕ} :
    entry ∈ (ofObject obj loader).syms ↔ ∃ sym ∈ obj.symbols, definedSymbol sym = some entry := by
  rw [ofObject, List.mem_reverse, List.mem_filterMap]

/-- In a table with one value for a key, every entry is found. -/
theorem lookup_of_functional {table : List (Text × ℕ)} {name : Text} {address : ℕ}
    (functional : ∀ other, (name, other) ∈ table → other = address)
    (member : (name, address) ∈ table) : table.lookup name = some address := by
  induction table with
  | nil => contradiction
  | cons entry table ih =>
    obtain ⟨key, value⟩ := entry
    rw [List.lookup_cons]
    by_cases same : name = key
    · subst same
      have value_eq := functional value List.mem_cons_self
      simp [value_eq]
    · have later : (name, address) ∈ table := by simpa [same] using member
      rw [beq_eq_false_iff_ne.mpr same]
      exact ih (fun other member => functional other (List.mem_cons_of_mem _ member)) later

theorem mem_of_lookup {table : List (Text × ℕ)} {name : Text} {address : ℕ}
    (found : table.lookup name = some address) : (name, address) ∈ table := by
  obtain ⟨left, right, rfl, -⟩ := List.lookup_eq_some_iff.mp found
  simp

theorem lookup_syms_iff {symbols : List ElfSymbol} (unambiguous : Unambiguous symbols)
    {buildId : Option Bytes} {loader : Loader} {name : Text} {address : ℕ} :
    (ofObject ⟨buildId, symbols⟩ loader).syms.lookup name = some address ↔
      ∃ sym ∈ symbols, definedSymbol sym = some (name, address) := by
  constructor
  · intro found
    exact mem_syms_ofObject.mp (mem_of_lookup found)
  · rintro ⟨sym, member, defined⟩
    apply lookup_of_functional
    · intro other inTable
      obtain ⟨sym', member', defined'⟩ := mem_syms_ofObject.mp inTable
      exact unambiguous sym' member' sym member name other address defined' defined
    · exact mem_syms_ofObject.mpr ⟨sym, member, defined⟩

/-- The last of the symbols of a name is the one that counts. -/
theorem lookup_syms_concat {sym : ElfSymbol} {name : Text} {address : ℕ}
    (defined : definedSymbol sym = some (name, address)) (symbols : List ElfSymbol)
    (buildId : Option Bytes) (loader : Loader) :
    (ofObject ⟨buildId, symbols ++ [sym]⟩ loader).syms.lookup name = some address := by
  simp [ofObject, List.filterMap_append, defined]

theorem findLocation_congr {bin bin' : Binary} {name : Text}
    (syms : bin.syms.lookup name = bin'.syms.lookup name) (loader : bin.loader = bin'.loader)
    (offset : ℕ) : bin.findLocation name offset = bin'.findLocation name offset := by
  rw [findLocation, findLocation, syms, loader]

theorem Unambiguous.perm {symbols reordered : List ElfSymbol} (unambiguous : Unambiguous symbols)
    (perm : reordered.Perm symbols) : Unambiguous reordered :=
  fun sym member other member' =>
    unambiguous sym (perm.mem_iff.mp member) other (perm.mem_iff.mp member')

theorem orderFree_of_unambiguous {symbols : List ElfSymbol} (unambiguous : Unambiguous symbols) :
    OrderFree symbols := by
  intro reordered perm buildId loader name offset
  apply findLocation_congr
  · ext address
    rw [lookup_syms_iff unambiguous, lookup_syms_iff (unambiguous.perm perm)]
    exact exists_congr fun sym => and_congr_left' perm.mem_iff
  · rfl

/-- Every symbol can come last. -/
theorem exists_perm_concat {symbols : List ElfSymbol} {sym : ElfSymbol} (member : sym ∈ symbols) :
    ∃ others, (others ++ [sym]).Perm symbols := by
  obtain ⟨left, right, rfl⟩ := List.mem_iff_append.mp member
  refine ⟨left ++ right, ?_⟩
  rw [List.append_assoc]
  exact List.Perm.append_left left (List.perm_append_singleton sym right)

/-- The order of a symbol table does not matter exactly when every name has one address. -/
theorem orderFree_iff {symbols : List ElfSymbol}
    (wide : ∀ sym ∈ symbols, sym.address < 2 ^ 64) :
    OrderFree symbols ↔ Unambiguous symbols := by
  refine ⟨fun free sym member other member' name address address' defined defined' => ?_,
    orderFree_of_unambiguous⟩
  by_contra different
  -- The debug information of this file knows the first of the two addresses only.
  let loader : Loader := fun a => if a = address then some ⟨some [], none⟩ else none
  have bound : address < 2 ^ 64 := by
    have fits := wide sym member
    simp only [definedSymbol, Option.ite_none_right_eq_some, Option.map_eq_some_iff,
      Prod.mk.injEq] at defined
    obtain ⟨-, -, -, -, rfl⟩ := defined
    exact fits
  obtain ⟨others, perm⟩ := exists_perm_concat member
  obtain ⟨others', perm'⟩ := exists_perm_concat member'
  have known : (ofObject ⟨none, others ++ [sym]⟩ loader).findLocation name 0 =
      some (stripBuildHost []) := by
    rw [findLocation_eq, lookup_syms_concat defined, Option.bind_some, Nat.add_zero, if_pos bound]
    simp [describe, ofObject, loader]
  have unknown : (ofObject ⟨none, others' ++ [other]⟩ loader).findLocation name 0 = none := by
    rw [findLocation_eq, lookup_syms_concat defined', Option.bind_some, Nat.add_zero]
    split_ifs
    · simp [describe, ofObject, loader, Ne.symm different]
    · rfl
  have same := (free _ perm none loader name 0).trans (free _ perm' none loader name 0).symm
  rw [known, unknown] at same
  contradiction

/-- Two functions, one of them listed twice, and an undefined symbol of a third name: with the
symbols reversed both functions are found where they were. -/
theorem reversed_symbols_resolve_alike :
    let symbols : List ElfSymbol :=
      [⟨some "init".toList, 16, true⟩, ⟨some "printk".toList, 0, false⟩,
        ⟨some "probe".toList, 32, true⟩, ⟨some "init".toList, 16, true⟩]
    let loader : Loader := fun a =>
      if a = 20 then some ⟨some "a.c".toList, some 1⟩
      else if a = 32 then some ⟨some "b.c".toList, some 2⟩ else none
    OrderFree symbols ∧
      (ofObject ⟨none, symbols.reverse⟩ loader).findLocation "init".toList 4 =
        some "a.c:1".toList ∧
      (ofObject ⟨none, symbols.reverse⟩ loader).findLocation "probe".toList 0 =
        some "b.c:2".toList := by
  intro symbols loader
  have oneAddress : Unambiguous symbols := by
    intro sym member other member' name address address' defined defined'
    have known : ∀ sym ∈ symbols, definedSymbol sym = none ∨
        definedSymbol sym = some ("init".toList, 16) ∨
          definedSymbol sym = some ("probe".toList, 32) := by decide
    rcases known sym member with h | h | h <;> rcases known other member' with h' | h' | h' <;>
      rw [h] at defined <;> rw [h'] at defined' <;> grind
  have free : OrderFree symbols := (orderFree_iff (by decide)).mpr oneAddress
  have reversed : symbols.reverse.Perm symbols := List.reverse_perm symbols
  refine ⟨free, ?_, ?_⟩
  · rw [free _ reversed]
    decide +kernel
  · rw [free _ reversed]
    decide +kernel

/-- Two static functions of one name: the location is that of the one that comes last. -/
theorem static_functions_order :
    ¬ OrderFree [⟨some "init".toList, 16, true⟩, ⟨some "init".toList, 32, true⟩] := by
  intro free
  have same := free [⟨some "init".toList, 32, true⟩, ⟨some "init".toList, 16, true⟩]
    (List.Perm.swap _ _ _) none
    (fun a => if a = 16 then some ⟨some "a.c".toList, some 1⟩ else none) "init".toList 0
  exact absurd same (by decide)

end Binary

/-! ## The address of a trace entry -/

/-- The loaded files by the module they are of; the kernel is of none. -/
abbrev Tables := Option Text → Option Binary

def Tables.resolver (tables : Tables) : Resolver := fun symbol offset module =>
  (tables module).bind fun bin => bin.findLocation symbol offset

def Symbolizer.tables (formats : DebugFormats) (tree : FileTree Bytes) (sym : Symbolizer) : Tables
  | some name => loadModule formats tree sym.modulesDir name
  | none => sym.vmlinux

theorem Symbolizer.resolver_eq (formats : DebugFormats) (tree : FileTree Bytes)
    (sym : Symbolizer) : sym.resolver formats tree = (sym.tables formats tree).resolver := by
  funext symbol offset module
  cases module <;> rfl

/-- A trace entry of a line: the symbol, the hex digits of its offset and the text behind it. -/
structure Entry where
  symbol : Text
  offset : Text
  rest : Text
deriving DecidableEq

namespace Entry

/-- No expression here has a word boundary, so no character needs to count as a part of a word. -/
abbrev noWord : Char → Bool := fun _ => false

/-- `symbol+0xoff/0xsize` without what follows it. -/
def offsetParts : List Regex :=
  [group 1 (plus (set isSymbolChar)),
    literal "+".toList,
    group 2 (seq (literal "0x".toList) (plus (set isAsciiHexdigit))),
    literal "/0x".toList,
    plus (set isAsciiHexdigit)]

/-- ` [module]`. -/
def moduleRe : Regex :=
  Regex.sequence [plus (set isWhitespace), char '[', group 3 (plus (set isModuleChar)), char ']']

/-- ` [module buildid]`. -/
def buildIdRe : Regex :=
  Regex.sequence [plus (set isWhitespace), char '[', group 3 (plus (set isModuleChar)),
    plus (set isWhitespace), plus (set isAsciiHexdigit), char ']']

/-- The value of hex digits, however many there are. -/
def hexNumber (digits : Text) : ℕ := digits.foldl (fun n c => 16 * n + hexValue c) 0

/-- The module that the entry names, alone or with its build-id. -/
def module (e : Entry) : Option Text :=
  ((matchAt noWord moduleRe none e.rest).or (matchAt noWord buildIdRe none e.rest)).bind
    fun m => m.groups.lookup 3

/-- The module of the entry is followed by its build-id. -/
def CarriesBuildId (e : Entry) : Prop := (matchAt noWord buildIdRe none e.rest).isSome = true

end Entry

/-- The first entry of a line. -/
def firstEntry (line : Text) : Option Entry :=
  (captures Entry.noWord (Regex.sequence Entry.offsetParts) line).map fun m =>
    ⟨m.group 1, (m.group 2).drop 2, m.rest⟩

/-- Whatever location the line gets, it is that of the exact address in the file of the module. -/
def Exact (line : Text) : Prop :=
  ∀ (tables : Tables) (loc : Text), annotateLine tables.resolver line = line ++ suffix loc →
    ∃ e, firstEntry line = some e ∧ ∃ bin base, tables e.module = some bin ∧
      bin.syms.lookup e.symbol = some base ∧ base + Entry.hexNumber e.offset < 2 ^ 64 ∧
        bin.describe (base + Entry.hexNumber e.offset) = some loc

/-! ## How the line is read -/

theorem annotateLine_eq_iff {resolve : Resolver} {line loc : Text} :
    annotateLine resolve line = line ++ suffix loc ↔ location resolve line = some loc := by
  unfold annotateLine
  rw [List.append_cancel_left_eq]
  cases location resolve line with
  | none => simp [suffix]
  | some loc' => simp [suffix]

namespace Entry

theorem traceRe_eq : traceRe = Regex.sequence (offsetParts ++ [opt moduleRe]) := rfl

theorem matchAt_noWord (re : Regex) (before before' : Option Char) (s : Text) :
    matchAt noWord re before s = matchAt noWord re before' s := by
  have blind : before.any noWord = before'.any noWord := by
    cases before <;> cases before' <;> rfl
  rw [matchAt, matchAt, runs_congr_before blind]

/-- An entry together with the module alone, if it follows. -/
def withModule (m : Match) : Match :=
  m.andThen ((matchAt noWord moduleRe none m.rest).getD ⟨[], m.rest, []⟩)

/-- The expression of the code finds the first entry and then tries the module behind it. -/
theorem captures_traceRe (line : Text) :
    captures noWord traceRe line =
      (captures noWord (Regex.sequence offsetParts) line).map withModule := by
  have here (before : Option Char) (s : Text) :
      matchAt noWord traceRe before s =
        (matchAt noWord (Regex.sequence offsetParts) before s).map withModule := by
    rw [traceRe_eq, matchAt_sequence_opt]
    refine Option.map_congr fun m _ => ?_
    rw [Match.attach, withModule, matchAt_noWord moduleRe _ none]
  unfold captures
  generalize (none : Option Char) = before
  induction line generalizing before with
  | nil => exact here before []
  | cons c cs ih => rw [findFrom, findFrom, here, ih, Option.map_or]

theorem groups_of_group {index : ℕ} {inner : Regex} (ungrouped : inner.Ungrouped)
    {before : Option Char} {s : Text} {m : Match}
    (member : m ∈ runs noWord (group index inner) before s) :
    m.groups = [(index, m.taken)] ∧ inner.Takes m.taken := by
  rw [runs, List.mem_map] at member
  obtain ⟨m', inside, rfl⟩ := member
  refine ⟨?_, takes_of_mem_runs m' inside⟩
  rw [groups_eq_nil ungrouped m' inside]
  rfl

/-- The two groups of an entry are its symbol and its offset. -/
theorem groups_of_entry {line : Text} {m : Match}
    (found : captures noWord (Regex.sequence offsetParts) line = some m) :
    ∃ symbol digits, m.groups = [(1, symbol), (2, '0' :: 'x' :: digits)] ∧ digits ≠ [] ∧
      ∀ c ∈ digits, isAsciiHexdigit c = true := by
  obtain ⟨left, last, -, member⟩ := findFrom_spec found
  simp only [offsetParts, Regex.sequence, List.foldr] at member
  obtain ⟨name, inName, m₁, inTail₁, rfl⟩ := mem_runs_seq.mp member
  obtain ⟨plus, inPlus, m₂, inTail₂, rfl⟩ := mem_runs_seq.mp inTail₁
  obtain ⟨offset, inOffset, m₃, inTail₃, rfl⟩ := mem_runs_seq.mp inTail₂
  have ungrouped : (seq (literal "/0x".toList)
      (seq (Regex.plus (set isAsciiHexdigit)) empty)).Ungrouped := by
    simp [Ungrouped, literal, char, Regex.plus]
  have plain : (literal "+".toList).Ungrouped := by simp [Ungrouped, literal, char]
  obtain ⟨nameGroup, -⟩ := groups_of_group (by simp [Ungrouped, Regex.plus]) inName
  obtain ⟨offsetGroup, radix, digits, isRadix, isDigits, taken⟩ :=
    groups_of_group (by simp [Ungrouped, literal, char, Regex.plus]) inOffset
  have radix_eq : radix = "0x".toList := by simpa [literal, char, Takes] using isRadix
  obtain ⟨nonempty, hexdigits⟩ := takes_plus_set.mp isDigits
  refine ⟨name.taken, digits, ?_, nonempty, hexdigits⟩
  simp [Match.andThen, nameGroup, offsetGroup, groups_eq_nil plain plus inPlus,
    groups_eq_nil ungrouped m₃ inTail₃, taken, radix_eq]

theorem trimStartMatches_radix {digits : Text} (hexdigits : ∀ c ∈ digits, isAsciiHexdigit c = true) :
    trimStartMatches "0x".toList ('0' :: 'x' :: digits) = digits := by
  have again : "0x".toList.isPrefixOf? digits = none := by
    rw [Option.eq_none_iff_forall_ne_some]
    intro rest found
    have text := List.isPrefixOf?_eq_some_iff_append_eq.mp found
    have radix := hexdigits 'x' (text ▸ by simp)
    contradiction
  have first : "0x".toList.isPrefixOf? ('0' :: 'x' :: digits) = some digits :=
    List.isPrefixOf?_eq_some_iff_append_eq.mpr rfl
  rw [trimStartMatches, List.length_cons, stripPrefixes, first]
  dsimp only
  rw [List.length_cons, stripPrefixes, again]

theorem parseHexU64_eq {digits : Text} (nonempty : digits ≠ [])
    (hexdigits : ∀ c ∈ digits, isAsciiHexdigit c = true) :
    parseHexU64 digits =
      if hexNumber digits < 2 ^ 64 then some (hexNumber digits) else none := by
  have all : digits.all isAsciiHexdigit = true := List.all_eq_true.mpr hexdigits
  rw [parseHexU64, if_neg]
  · rfl
  · simp [nonempty, all]

/-- What the code asks about a line, in terms of its first entry. -/
theorem query_eq (line : Text) :
    query line = (firstEntry line).map fun e =>
      ⟨e.symbol, if hexNumber e.offset < 2 ^ 64 then hexNumber e.offset else 0,
        (matchAt noWord moduleRe none e.rest).bind fun m => m.groups.lookup 3⟩ := by
  have asked : query line = (captures noWord traceRe line).map fun c =>
      { symbol := c.group 1
        offset := (parseHexU64 (trimStartMatches "0x".toList (c.group 2))).getD 0
        module := c.groups.lookup 3 } := rfl
  rw [asked, captures_traceRe, firstEntry, Option.map_map, Option.map_map]
  refine Option.map_congr fun m found => ?_
  obtain ⟨symbol, digits, groups, nonempty, hexdigits⟩ := groups_of_entry found
  have symbols (tail : List (ℕ × Text)) :
      (m.groups ++ tail).lookup 1 = some symbol ∧
        (m.groups ++ tail).lookup 2 = some ('0' :: 'x' :: digits) ∧
        (m.groups ++ tail).lookup 3 = tail.lookup 3 := by
    simp [groups, List.lookup_cons]
  obtain ⟨first, second, -⟩ := symbols []
  rw [List.append_nil] at first second
  obtain ⟨first', second', third'⟩ :=
    symbols ((matchAt noWord moduleRe none m.rest).getD ⟨[], m.rest, []⟩).groups
  simp only [Function.comp_apply, withModule, Match.andThen, Match.group, first, second, first',
    second', third', Option.getD_some, trimStartMatches_radix hexdigits,
    parseHexU64_eq nonempty hexdigits, List.drop_succ_cons, List.drop_zero]
  congr 1
  · split_ifs <;> rfl
  · cases matchAt noWord moduleRe none m.rest <;> rfl

/-! ## The two forms of the annotation -/

theorem isModuleChar_of_isWhitespace {c : Char} (blank : isWhitespace c = true) :
    isModuleChar c = false := by
  rw [Bool.eq_false_iff]
  intro inName
  simp only [isModuleChar, Bool.or_eq_true, beq_iff_eq] at inName
  rcases inName with (inName | rfl) | rfl
  · simp only [isAsciiAlphanumeric, isAsciiDigit, isWhitespace, Bool.or_eq_true, Bool.and_eq_true,
      decide_eq_true_eq, beq_iff_eq] at blank inName
    omega
  · contradiction
  · contradiction

/-- The character behind the name in brackets. -/
def afterName (s : Text) : Option Char :=
  (((s.dropWhile isWhitespace).drop 1).dropWhile isModuleChar).head?

theorem afterName_of_name {blank name rest : Text} {c : Char}
    (isBlank : ∀ d ∈ blank, isWhitespace d = true) (isName : ∀ d ∈ name, isModuleChar d = true)
    (ends : isModuleChar c = false) :
    afterName (blank ++ '[' :: (name ++ c :: rest)) = some c := by
  rw [afterName, List.dropWhile_append_of_pos isBlank, List.dropWhile_cons_of_neg (by decide),
    List.drop_succ_cons, List.drop_zero, List.dropWhile_append_of_pos isName,
    List.dropWhile_cons_of_neg (by simp [ends])]
  rfl

theorem afterName_of_moduleRe {before : Option Char} {s : Text} {m : Match}
    (member : m ∈ runs noWord moduleRe before s) : afterName s = some ']' := by
  have text := runs_spec moduleRe before s m member
  obtain ⟨blank, _, isBlank, ⟨_, _, isOpen, ⟨name, _, isName, ⟨_, _, isClose, rfl, rfl⟩, rfl⟩, rfl⟩,
    taken⟩ := takes_of_mem_runs m member
  obtain ⟨-, blanks⟩ := takes_plus_set.mp isBlank
  obtain ⟨-, names⟩ := takes_plus_set.mp isName
  rw [takes_char.mp isOpen, takes_char.mp isClose] at taken
  rw [← text, taken]
  have read := @afterName_of_name blank name m.rest ']' blanks names (by decide)
  simpa using read

theorem afterName_of_buildIdRe {before : Option Char} {s : Text} {m : Match}
    (member : m ∈ runs noWord buildIdRe before s) :
    ∃ c, afterName s = some c ∧ isWhitespace c = true := by
  have text := runs_spec buildIdRe before s m member
  obtain ⟨blank, _, isBlank, ⟨_, _, isOpen, ⟨name, _, isName, ⟨gap, tail, isGap, -, rfl⟩, rfl⟩, rfl⟩,
    taken⟩ := takes_of_mem_runs m member
  obtain ⟨-, blanks⟩ := takes_plus_set.mp isBlank
  obtain ⟨-, names⟩ := takes_plus_set.mp isName
  obtain ⟨nonempty, gaps⟩ := takes_plus_set.mp isGap
  rw [takes_char.mp isOpen] at taken
  cases gap with
  | nil => contradiction
  | cons c gap =>
    have isGap := gaps c List.mem_cons_self
    refine ⟨c, ?_, isGap⟩
    have read := @afterName_of_name blank name (gap ++ (tail ++ m.rest)) c blanks names
      (isModuleChar_of_isWhitespace isGap)
    rw [← text, taken]
    simpa using read

theorem lookup_of_buildIdRe {before : Option Char} {s : Text} {m : Match}
    (member : m ∈ runs noWord buildIdRe before s) : (m.groups.lookup 3).isSome = true := by
  simp only [buildIdRe, Regex.sequence, List.foldr] at member
  obtain ⟨blank, inBlank, m₁, inTail₁, rfl⟩ := mem_runs_seq.mp member
  obtain ⟨opening, inOpening, m₂, inTail₂, rfl⟩ := mem_runs_seq.mp inTail₁
  obtain ⟨name, inName, m₃, inTail₃, rfl⟩ := mem_runs_seq.mp inTail₂
  have plain : (Regex.plus (set isWhitespace)).Ungrouped := by simp [Ungrouped, Regex.plus]
  have plain' : (char '[').Ungrouped := by simp [Ungrouped, char]
  obtain ⟨nameGroup, -⟩ := groups_of_group (by simp [Ungrouped, Regex.plus]) inName
  simp [Match.andThen, groups_eq_nil plain blank inBlank, groups_eq_nil plain' opening inOpening,
    nameGroup]

/-- No text begins with a module annotation of both forms. -/
theorem matchAt_moduleRe_of_buildId {s : Text}
    (found : (matchAt noWord buildIdRe none s).isSome = true) :
    matchAt noWord moduleRe none s = none := by
  obtain ⟨m, here⟩ := Option.isSome_iff_exists.mp found
  obtain ⟨c, behind, blank⟩ := afterName_of_buildIdRe (matchAt_spec here)
  rw [Option.eq_none_iff_forall_ne_some]
  intro m' here'
  have behind' := afterName_of_moduleRe (matchAt_spec here')
  rw [behind, Option.some.injEq] at behind'
  subst behind'
  contradiction

theorem module_of_buildId {e : Entry} (carries : e.CarriesBuildId) :
    ∃ name, e.module = some name ∧ matchAt noWord moduleRe none e.rest = none := by
  have alone := matchAt_moduleRe_of_buildId carries
  obtain ⟨m, here⟩ := Option.isSome_iff_exists.mp carries
  obtain ⟨name, named⟩ := Option.isSome_iff_exists.mp (lookup_of_buildIdRe (matchAt_spec here))
  refine ⟨name, ?_, alone⟩
  rw [module, alone, here]
  exact named

theorem module_of_not_buildId {e : Entry} (plain : ¬ e.CarriesBuildId) :
    e.module = (matchAt noWord moduleRe none e.rest).bind fun m => m.groups.lookup 3 := by
  rw [CarriesBuildId, Option.not_isSome_iff_eq_none] at plain
  rw [module, plain, Option.or_none]

end Entry

/-! ## Exact annotations -/

theorem location_eq (tables : Tables) {line : Text} {e : Entry} (first : firstEntry line = some e) :
    location tables.resolver line =
      (tables ((matchAt Entry.noWord Entry.moduleRe none e.rest).bind fun m =>
        m.groups.lookup 3)).bind fun bin =>
          bin.findLocation e.symbol
            (if Entry.hexNumber e.offset < 2 ^ 64 then Entry.hexNumber e.offset else 0) := by
  rw [location, Entry.query_eq, first]
  rfl

/-- Locations are exact as long as the offset fits 64 bits and no build-id follows the module. -/
theorem exact_iff (line : Text) :
    Exact line ↔ ∀ e, firstEntry line = some e →
      Entry.hexNumber e.offset < 2 ^ 64 ∧ ¬ e.CarriesBuildId := by
  constructor
  · intro exact e first
    -- A file that knows the symbol at address zero and a location for every address.
    let bin : Binary := ⟨[(e.symbol, 0)], none, fun _ => some ⟨some [], none⟩⟩
    have located (offset : ℕ) (fits : offset < 2 ^ 64) :
        bin.findLocation e.symbol offset = some (Binary.stripBuildHost []) := by
      have symbol : bin.syms.lookup e.symbol = some 0 := by simp [bin]
      rw [Binary.findLocation_eq, symbol, Option.bind_some, Nat.zero_add, if_pos fits]
      rfl
    have inRange : (if Entry.hexNumber e.offset < 2 ^ 64 then Entry.hexNumber e.offset else 0) <
        2 ^ 64 := by
      split_ifs with fits
      · exact fits
      · decide
    constructor
    · have found := location_eq (fun _ => some bin) first
      rw [Option.bind_some, located _ inRange] at found
      obtain ⟨e', first', bin', base, -, -, fits, -⟩ :=
        exact (fun _ => some bin) _ (annotateLine_eq_iff.mpr found)
      obtain rfl := Option.some.inj (first.symm.trans first')
      omega
    · intro carries
      obtain ⟨name, named, alone⟩ := Entry.module_of_buildId carries
      let tables : Tables := fun module => if module = none then some bin else none
      have found := location_eq tables first
      have kernel : tables none = some bin := if_pos rfl
      rw [alone, Option.bind_none, kernel, Option.bind_some, located _ inRange] at found
      obtain ⟨e', first', bin', base, table, -⟩ := exact tables _ (annotateLine_eq_iff.mpr found)
      obtain rfl := Option.some.inj (first.symm.trans first')
      rw [named] at table
      simp [tables] at table
  · intro conditions tables loc appended
    have found := annotateLine_eq_iff.mp appended
    cases first : firstEntry line with
    | none =>
      rw [location, Entry.query_eq, first] at found
      contradiction
    | some e =>
      obtain ⟨fits, plain⟩ := conditions e first
      rw [location_eq tables first, if_pos fits, ← Entry.module_of_not_buildId plain] at found
      obtain ⟨bin, table, found⟩ := Option.bind_eq_some_iff.mp found
      obtain ⟨base, symbol, sum, described⟩ := Binary.findLocation_eq_some_iff.mp found
      exact ⟨e, rfl, bin, base, table, symbol, sum, described⟩

/-- A symbol of an unavailable module is looked up in the kernel when the build-id follows, and an
offset beyond 64 bits counts as zero. -/
theorem inexact_lines :
    ¬ Exact "hook+0x1/0x2 [nf_nat 4d1e]".toList ∧ ¬ Exact "hook+0x10000000000000000/0x2".toList := by
  let bin : Binary := ⟨[("hook".toList, 16)], none, fun _ => some ⟨some "a.c".toList, some 7⟩⟩
  constructor
  · intro exact
    obtain ⟨e, first, bin', base, table, -⟩ :=
      exact (fun module => if module = none then some bin else none) "a.c:7".toList (by decide)
    have entry : firstEntry "hook+0x1/0x2 [nf_nat 4d1e]".toList =
        some ⟨"hook".toList, "1".toList, " [nf_nat 4d1e]".toList⟩ := by decide
    obtain rfl := Option.some.inj (entry.symm.trans first)
    have named : Entry.module ⟨"hook".toList, "1".toList, " [nf_nat 4d1e]".toList⟩ =
        some "nf_nat".toList := by decide
    rw [named] at table
    contradiction
  · intro exact
    obtain ⟨e, first, bin', base, -, -, fits, -⟩ :=
      exact (fun _ => some bin) "a.c:7".toList (by decide)
    have entry : firstEntry "hook+0x10000000000000000/0x2".toList =
        some ⟨"hook".toList, "10000000000000000".toList, []⟩ := by decide
    obtain rfl := Option.some.inj (entry.symm.trans first)
    have wide : Entry.hexNumber "10000000000000000".toList = 2 ^ 64 := by decide
    rw [wide] at fits
    omega

end UcrashReport.Symbols
