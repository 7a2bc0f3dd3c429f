import UcrashReport.Decoder.Decode
import UcrashReport.Decoder.Symbols

/-! # The symbolizer

For each report a symbolizer is made over the tree that `ensureKernel` returned. It has the kernel
of the tree, unless its build-id is not the expected one, and loads a module when a line first asks
for it. The tree does not change while a text is annotated, so that loading late makes no
difference: an annotation resolves its locations in the files of one tree.
-/

namespace UcrashReport.Symbols

open Rust Rust.Text BuildId Annotate

/-! ## Debug files -/

/-- A symbol whose name is no text has none. -/
structure ElfSymbol where
  name : Option Text
  address : ℕ
  isDefinition : Bool

/-- A parsed file. When its build-id note cannot be read, it counts as one without a note. -/
structure Elf where
  buildId : Option Bytes
  symbols : List ElfSymbol

/-- What the debug information says about an address. -/
structure AddressLocation where
  file : Option Text
  line : Option ℕ

abbrev Loader := ℕ → Option AddressLocation

/-- The readers of debug files. A build-id note is read from the parsed file everywhere; the loader
reads the file itself once more. -/
structure DebugFormats extends Formats where
  parse : Bytes → Option Elf
  loader : FileTree Bytes → Location → Option Loader
  buildIdNote_eq : ∀ data, buildIdNote data = (parse data).bind Elf.buildId

structure Binary where
  syms : List (Text × ℕ)
  buildId : Option Text
  loader : Loader

namespace Binary

def definedSymbol (sym : ElfSymbol) : Option (Text × ℕ) :=
  if sym.isDefinition then sym.name.map fun name => (name, sym.address) else none

/-- Of two definitions of one name the later one counts. -/
def load (formats : DebugFormats) (tree : FileTree Bytes) (path : Location) : Option Binary := do
  let data ← tree.read path
  let obj ← formats.parse data
  let loader ← formats.loader tree path
  return {
    syms := (obj.symbols.filterMap definedSymbol).reverse
    buildId := obj.buildId.map hexEncode
    loader }

/-- What `load` makes of a parsed file. -/
def ofObject (obj : Elf) (loader : Loader) : Binary where
  syms := (obj.symbols.filterMap definedSymbol).reverse
  buildId := obj.buildId.map hexEncode
  loader

/-- A file loads as its parsed symbols and its debug information say. -/
theorem load_eq_some_iff {formats : DebugFormats} {tree : FileTree Bytes} {path : Location}
    {bin : Binary} :
    load formats tree path = some bin ↔
      ∃ data obj loader, tree.read path = some data ∧ formats.parse data = some obj ∧
        formats.loader tree path = some loader ∧ ofObject obj loader = bin := by
  simp only [load, ofObject, Option.bind_eq_bind, Option.bind_eq_some_iff, Option.pure_def,
    Option.some.injEq, exists_and_left]

/-- The path of a source file without that of the build host up to the kernel directory. -/
def stripBuildHost (file : Text) : Text :=
  ((rsplitOnce "/linux-".toList file).bind fun (_, rest) =>
    (splitOnce "/".toList rest).map Prod.snd).getD file

def findLocation (bin : Binary) (symbol : Text) (offset : ℕ) : Option Text := do
  let base ← bin.syms.lookup symbol
  let addr ← if base + offset < 2 ^ 64 then some (base + offset) else none
  let loc ← bin.loader addr
  let file ← loc.file
  match loc.line with
  | some line => some (stripBuildHost file ++ ":".toList ++ decimal line)
  | none => some (stripBuildHost file)

end Binary

/-! ## Resolving -/

structure Symbolizer where
  vmlinux : Option Binary
  modulesDir : Location
  modules : List (Text × Option Binary)

namespace Symbolizer

/-- A kernel without a build-id is discarded like one with another build-id. -/
def discardMismatch (expectedBuildid : Option Text) (bin : Binary) : Option Binary :=
  match expectedBuildid with
  | some expected =>
    match bin.buildId with
    | some got => if eqIgnoreAsciiCase got expected then some bin else none
    | none => none
  | none => some bin

def new (formats : DebugFormats) (tree : FileTree Bytes) (symbolDir : Option Location)
    (expectedBuildid : Option Text) : Symbolizer where
  vmlinux := (symbolDir.bind fun dir => Binary.load formats tree (vmlinuxOf dir)).bind
    (discardMismatch expectedBuildid)
  modulesDir := (symbolDir.map modulesOf).getD []
  modules := []

def haveSymbols (sym : Symbolizer) : Bool := sym.vmlinux.isSome

def loadModule (formats : DebugFormats) (tree : FileTree Bytes) (modulesDir : Location)
    (name : Text) : Option Binary :=
  let path := modulesDir.join (name ++ ".ko".toList)
  if tree.pathExists path then Binary.load formats tree path else none

/-- A module is loaded once; that it cannot be loaded is remembered as well. -/
def module (formats : DebugFormats) (tree : FileTree Bytes) (sym : Symbolizer) (name : Text) :
    Option Binary × Symbolizer :=
  match sym.modules.lookup name with
  | some bin => (bin, sym)
  | none =>
    let bin := loadModule formats tree sym.modulesDir name
    (bin, { sym with modules := (name, bin) :: sym.modules })

def resolve (formats : DebugFormats) (tree : FileTree Bytes) (sym : Symbolizer) (q : Query) :
    Option Text × Symbolizer :=
  match q.module with
  | some name =>
    let (bin, sym) := sym.module formats tree name
    (bin.bind fun bin => bin.findLocation q.symbol q.offset, sym)
  | none => (sym.vmlinux.bind fun bin => bin.findLocation q.symbol q.offset, sym)

def annotateLines (formats : DebugFormats) (tree : FileTree Bytes) :
    Symbolizer → List Text → Text × Symbolizer
  | sym, [] => ([], sym)
  | sym, line :: rest =>
    let (loc, sym) :=
      match query line with
      | some q => sym.resolve formats tree q
      | none => (none, sym)
    let (out, sym) := annotateLines formats tree sym rest
    (line ++ (loc.map suffix).getD [] ++ ['\n'] ++ out, sym)

/-- `annotate`, with the symbolizer that it leaves. -/
def annotate (formats : DebugFormats) (tree : FileTree Bytes) (sym : Symbolizer) (text : Text) :
    Text × Symbolizer :=
  sym.annotateLines formats tree (lines text)

/-! ## Loading late makes no difference -/

variable {formats : DebugFormats} {tree : FileTree Bytes}

/-- The locations that the symbolizer knows, without the modules that it remembers. -/
def resolver (formats : DebugFormats) (tree : FileTree Bytes) (sym : Symbolizer) : Resolver :=
  fun symbol offset module =>
    match module with
    | some name =>
      (loadModule formats tree sym.modulesDir name).bind fun bin => bin.findLocation symbol offset
    | none => sym.vmlinux.bind fun bin => bin.findLocation symbol offset

/-- Every remembered module is the one that would be loaded now. -/
def Remembers (formats : DebugFormats) (tree : FileTree Bytes) (sym : Symbolizer) : Prop :=
  ∀ name bin, sym.modules.lookup name = some bin →
    bin = loadModule formats tree sym.modulesDir name

theorem remembers_new (symbolDir : Option Location) (expectedBuildid : Option Text) :
    Remembers formats tree (new formats tree symbolDir expectedBuildid) := by
  intro name bin found
  simp [new] at found

/-- Asking for a module gives what is in the tree and changes nothing but the memory. -/
theorem module_spec {sym : Symbolizer} (remembers : Remembers formats tree sym) (name : Text) :
    (sym.module formats tree name).1 = loadModule formats tree sym.modulesDir name ∧
      Remembers formats tree (sym.module formats tree name).2 ∧
      (sym.module formats tree name).2.resolver formats tree = sym.resolver formats tree := by
  unfold module
  cases found : sym.modules.lookup name with
  | some bin => exact ⟨remembers name bin found, remembers, rfl⟩
  | none =>
    refine ⟨rfl, ?_, rfl⟩
    intro other bin found'
    simp only [List.lookup_cons] at found'
    by_cases same : other = name
    · subst same
      simpa using found'.symm
    · rw [beq_eq_false_iff_ne.mpr same] at found'
      exact remembers other bin found'

theorem resolve_spec {sym : Symbolizer} (remembers : Remembers formats tree sym) (q : Query) :
    (sym.resolve formats tree q).1 =
        sym.resolver formats tree q.symbol q.offset q.module ∧
      Remembers formats tree (sym.resolve formats tree q).2 ∧
      (sym.resolve formats tree q).2.resolver formats tree = sym.resolver formats tree := by
  unfold resolve
  cases asked : q.module with
  | none => exact ⟨rfl, remembers, rfl⟩
  | some name =>
    obtain ⟨loads, remembers', same⟩ := module_spec remembers name
    refine ⟨?_, remembers', same⟩
    simp only [resolver, loads]

theorem annotateLines_eq {sym : Symbolizer} (remembers : Remembers formats tree sym)
    (all : List Text) :
    (sym.annotateLines formats tree all).1 =
      all.flatMap fun line => annotateLine (sym.resolver formats tree) line ++ ['\n'] := by
  induction all generalizing sym with
  | nil => rfl
  | cons line rest ih =>
    unfold annotateLines
    rw [List.flatMap_cons, annotateLine, location]
    cases asked : query line with
    | none => simp only [ih remembers, Option.bind_none]
    | some q =>
      obtain ⟨resolved, remembers', same⟩ := resolve_spec remembers q
      simp only [ih remembers', same, resolved, Option.bind_some]

/-- The annotation with modules loaded on the way is that of the files in the tree. -/
theorem annotate_eq {sym : Symbolizer} (remembers : Remembers formats tree sym) (text : Text) :
    (sym.annotate formats tree text).1 = Annotate.annotate (sym.resolver formats tree) text :=
  annotateLines_eq remembers (lines text)

/-! ## Which kernels are kept -/

theorem discardMismatch_isSome (expectedBuildid : Option Text) (bin : Binary) :
    (discardMismatch expectedBuildid bin).isSome = true ↔
      ∀ expected, expectedBuildid = some expected →
        ∃ got, bin.buildId = some got ∧ eqIgnoreAsciiCase got expected = true := by
  unfold discardMismatch
  cases expectedBuildid with
  | none => simp
  | some expected =>
    cases bin.buildId with
    | none => simp
    | some got => simp

/-- What is kept is what was loaded. -/
theorem discardMismatch_eq {expectedBuildid : Option Text} {bin kept : Binary}
    (keeps : discardMismatch expectedBuildid bin = some kept) : kept = bin := by
  unfold discardMismatch at keeps
  split at keeps
  · split at keeps
    · split_ifs at keeps
      exact (Option.some.inj keeps).symm
    · contradiction
  · exact (Option.some.inj keeps).symm

end Symbolizer

/-- The build-id of a loaded file is the one that the pool reads from it. -/
theorem Binary.buildId_of_load {formats : DebugFormats} {tree : FileTree Bytes} {path : Location}
    {bin : Binary} (loads : load formats tree path = some bin) :
    fileBuildId formats.toFormats tree path = bin.buildId := by
  obtain ⟨data, obj, loader, isData, parsed, -, rfl⟩ := load_eq_some_iff.mp loads
  rw [fileBuildId, isData, Option.bind_some, formats.buildIdNote_eq, parsed, Option.bind_some]
  rfl

/-- The symbolizer of a tree keeps the kernel that loads and has the expected build-id. -/
theorem Symbolizer.haveSymbols_new {formats : DebugFormats} {tree : FileTree Bytes}
    {dir : Location} {expectedBuildid : Option Text} :
    (new formats tree (some dir) expectedBuildid).haveSymbols = true ↔
      (Binary.load formats tree (vmlinuxOf dir)).isSome = true ∧
        ∀ expected, expectedBuildid = some expected →
          ∃ got, fileBuildId formats.toFormats tree (vmlinuxOf dir) = some got ∧
            eqIgnoreAsciiCase got expected = true := by
  unfold haveSymbols new
  rw [Option.bind_some]
  cases loads : Binary.load formats tree (vmlinuxOf dir) with
  | none => simp
  | some bin =>
    rw [Option.bind_some, discardMismatch_isSome, Binary.buildId_of_load loads]
    simp

/-! ## The symbols of a report -/

namespace SymbolPool

variable (pool : SymbolPool) (formats : DebugFormats) (outside : Outside)
  (version target : Text) (kernelBuildid : Option Text) (tree : FileTree Bytes)

/-- The symbolizer that `decode_report` makes and the pool after it, errors counting as no tree. -/
def symbolizer : Symbolizer × FileTree Bytes :=
  match pool.ensureKernel formats.toFormats outside version target kernelBuildid tree with
  | (answer, tree) => (Symbolizer.new formats tree answer.toOption kernelBuildid, tree)

/-- The text that goes on to be scrubbed. -/
def symbolize (text : Text) : Text :=
  match pool.symbolizer formats outside version target kernelBuildid tree with
  | (sym, tree) => if sym.haveSymbols then (sym.annotate formats tree text).1 else text

/-- The symbols that the worker draws for a report. -/
def symbolsOf : Option Resolver :=
  match pool.symbolizer formats outside version target kernelBuildid tree with
  | (sym, tree) => if sym.haveSymbols then some (sym.resolver formats tree) else none

theorem symbolizer_remembers :
    let made := pool.symbolizer formats outside version target kernelBuildid tree
    Symbolizer.Remembers formats made.2 made.1 :=
  Symbolizer.remembers_new _ _

/-- The decoded text of a worker with these symbols is the scrubbed text of the symbolizer. -/
theorem decodedText_symbolsOf (classes : CharClasses) (text : Text) :
    Decode.decodedText classes (pool.symbolsOf formats outside version target kernelBuildid tree)
        text =
      Scrub.scrub classes
        (pool.symbolize formats outside version target kernelBuildid tree text) := by
  have remembers := pool.symbolizer_remembers formats outside version target kernelBuildid tree
  unfold Decode.decodedText symbolsOf symbolize
  generalize pool.symbolizer formats outside version target kernelBuildid tree = made at *
  obtain ⟨sym, tree'⟩ := made
  cases found : sym.haveSymbols with
  | false => simp [found]
  | true => simp [found, Symbolizer.annotate_eq remembers]

end SymbolPool

end UcrashReport.Symbols
