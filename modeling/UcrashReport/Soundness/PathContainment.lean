import UcrashReport.Decoder.Symbols
import UcrashReport.Server.Api

/-! # Where uploaded metadata leads on disk

The uuid of a report names its raw payload, and its version and target name a symbol tree. A uuid
in one of the accepted forms is a single name. The pair is two arbitrary strings that are joined to
the kernel directory; the laws here say which names they add, and from that exactly when a pair
stays strictly inside the directory and when two pairs stay out of each other's trees.
-/

namespace UcrashReport.PathContainment

open Rust Rust.Text UcrashReport.Types Api Symbols

/-- What every string consists of that is read as a uuid. -/
def UuidForm (s : Text) : Prop :=
  s ≠ [] ∧ ∃ digits, (s = digits ∨ s = "urn:uuid:".toList ++ digits) ∧
    ∀ c ∈ digits, isAsciiHexdigit c = true ∨ c ∈ ['-', '{', '}']

/-- The server takes the report, with some payload. -/
def Accepted (readers : Readers) (metadata : ReportMetadata) : Prop :=
  ∃ payload, checkReport readers metadata payload = .ok ()

/-- The pair is not refused by the decoder. -/
def Served (metadata : ReportMetadata) : Prop :=
  SymbolPool.rejects metadata.openwrt.version metadata.openwrt.target = false

instance (metadata : ReportMetadata) : Decidable (Served metadata) :=
  inferInstanceAs (Decidable (_ = false))

def symbolTree (pool : SymbolPool) (metadata : ReportMetadata) : Location :=
  pool.treeOf metadata.openwrt.version metadata.openwrt.target

/-- The raw file lies directly in its directory and a served tree strictly inside the pool. -/
def Contained (rawDir : Location) (pool : SymbolPool) (metadata : ReportMetadata) : Prop :=
  (∃ name, rawFile rawDir metadata.uuid = rawDir ++ [name]) ∧
    (Served metadata →
      pool.kernelDir <+: symbolTree pool metadata ∧ symbolTree pool metadata ≠ pool.kernelDir)

def pairOf (metadata : ReportMetadata) : Text × Text :=
  (metadata.openwrt.version, metadata.openwrt.target)

/-- Neither tree of two different pairs equals or contains the other. -/
def Disjoint (pool : SymbolPool) (left right : ReportMetadata) : Prop :=
  Served left → Served right → pairOf left ≠ pairOf right →
    ¬ symbolTree pool left <+: symbolTree pool right ∧
      ¬ symbolTree pool right <+: symbolTree pool left

/-! ## The names of a pair -/

/-- One of the two strings is an absolute path. -/
def isAbsolutePair (pair : Text × Text) : Bool :=
  Path.isAbsolute pair.1 || Path.isAbsolute pair.2

/-- The names that the pair adds; an absolute target discards those of the version. -/
def pairNames (pair : Text × Text) : List Text :=
  if Path.isAbsolute pair.2 then Path.names pair.2
  else Path.names pair.1 ++ Path.names pair.2

/-- A relative pair has a name; an absolute one begins with the names of the directory and goes
on. -/
def NamesInside (dir : Location) (pair : Text × Text) : Prop :=
  if isAbsolutePair pair then dir <+: pairNames pair ∧ pairNames pair ≠ dir
  else pairNames pair ≠ []

/-- The names below the directory. -/
def namesBelow (dir : Location) (pair : Text × Text) : List Text :=
  if isAbsolutePair pair then (pairNames pair).drop dir.length else pairNames pair

/-- The condition on one report: its pair is refused or its names lead inside. -/
def StaysInside (pool : SymbolPool) (metadata : ReportMetadata) : Prop :=
  Served metadata → NamesInside pool.kernelDir (pairOf metadata)

/-- The condition on two reports with different pairs: neither sequence of names begins with the
other. -/
def NamesDiverge (pool : SymbolPool) (left right : ReportMetadata) : Prop :=
  Served left → Served right → pairOf left ≠ pairOf right →
    ¬ namesBelow pool.kernelDir (pairOf left) <+: namesBelow pool.kernelDir (pairOf right) ∧
      ¬ namesBelow pool.kernelDir (pairOf right) <+: namesBelow pool.kernelDir (pairOf left)

theorem noParent_of_served {s : Text} (accepted : contains "..".toList s = false) :
    .parentDir ∉ Path.components s := by
  intro member
  have inside := contains_iff.mpr (Path.mem_components_of_parentDir member)
  rw [accepted] at inside
  contradiction

/-- A served tree is the kernel directory, or the root for an absolute pair, and the names. -/
theorem symbolTree_eq (pool : SymbolPool) {metadata : ReportMetadata} (served : Served metadata) :
    symbolTree pool metadata =
      (if isAbsolutePair (pairOf metadata) then [] else pool.kernelDir) ++
        pairNames (pairOf metadata) := by
  obtain ⟨noVersion, noTarget⟩ := Bool.or_eq_false_iff.mp served
  rw [symbolTree, SymbolPool.treeOf, Path.join_eq (noParent_of_served noTarget),
    Path.join_eq (noParent_of_served noVersion)]
  unfold pairNames isAbsolutePair pairOf
  cases Path.isAbsolute metadata.openwrt.target with
  | true => simp
  | false => simp

/-- The tree lies strictly inside exactly when the names do. -/
theorem inside_iff (pool : SymbolPool) {metadata : ReportMetadata} (served : Served metadata) :
    pool.kernelDir <+: symbolTree pool metadata ∧ symbolTree pool metadata ≠ pool.kernelDir ↔
      NamesInside pool.kernelDir (pairOf metadata) := by
  rw [symbolTree_eq pool served, NamesInside]
  split_ifs with absolute
  · rfl
  · simp

/-- A tree inside the directory is the directory followed by the names below it. -/
theorem symbolTree_eq_below (pool : SymbolPool) {metadata : ReportMetadata}
    (served : Served metadata) (inside : NamesInside pool.kernelDir (pairOf metadata)) :
    symbolTree pool metadata = pool.kernelDir ++ namesBelow pool.kernelDir (pairOf metadata) := by
  rw [symbolTree_eq pool served]
  unfold namesBelow
  unfold NamesInside at inside
  split_ifs at inside ⊢ with absolute
  · obtain ⟨below, same⟩ := inside.1
    rw [List.nil_append, ← same, List.drop_left]
  · rfl

/-! ## The raw file -/

/-- An accepted uuid is a single name, so its file lies directly in the directory. -/
theorem rawFile_eq {s : Text} (form : UuidForm s) (rawDir : Location) :
    rawFile rawDir s = rawDir ++ [s] := by
  obtain ⟨nonempty, digits, shape, isDigit⟩ := form
  have allowed : ∀ c ∈ s, c ≠ '/' ∧ c ≠ '.' := by
    have notDigit : ∀ c ∈ digits, c ≠ '/' ∧ c ≠ '.' := by
      intro c member
      rcases isDigit c member with hex | mark
      · constructor <;> (rintro rfl; revert hex; decide)
      · constructor <;> (rintro rfl; revert mark; decide)
    intro c member
    rcases shape with rfl | rfl
    · exact notDigit c member
    · rcases List.mem_append.mp member with inPrefix | inDigits
      · have marks : ∀ c ∈ "urn:uuid:".toList, c ≠ '/' ∧ c ≠ '.' :=
          forall_mem_of_all (by decide)
        exact marks c inPrefix
      · exact notDigit c inDigits
  have noDot : '.' ∉ s := fun member => (allowed _ member).2 rfl
  apply Path.join_name nonempty (fun member => (allowed _ member).1 rfl)
  · rintro rfl
    exact noDot (by decide)
  · rintro rfl
    exact noDot (by decide)

theorem uuidForm_of_accepted {readers : Readers}
    (uuids : ∀ s, readers.parseUuid s = true → UuidForm s) {metadata : ReportMetadata}
    (accepted : Accepted readers metadata) : UuidForm metadata.uuid := by
  obtain ⟨payload, checked⟩ := accepted
  unfold checkReport at checked
  split_ifs at checked with format digest uuid
  exact uuids _ (by simpa using uuid)

/-! ## Containment and disjointness -/

/-- The raw file of an accepted report is always contained; its tree is when its names are. -/
theorem contained_iff {readers : Readers} (uuids : ∀ s, readers.parseUuid s = true → UuidForm s)
    (rawDir : Location) (pool : SymbolPool) {metadata : ReportMetadata}
    (accepted : Accepted readers metadata) :
    Contained rawDir pool metadata ↔ StaysInside pool metadata := by
  have direct := rawFile_eq (uuidForm_of_accepted uuids accepted) rawDir
  unfold Contained StaysInside
  constructor
  · rintro ⟨-, inside⟩ served
    exact (inside_iff pool served).mp (inside served)
  · intro inside
    exact ⟨⟨_, direct⟩, fun served => (inside_iff pool served).mpr (inside served)⟩

theorem disjoint_iff (pool : SymbolPool) {left right : ReportMetadata}
    (leftInside : StaysInside pool left) (rightInside : StaysInside pool right) :
    Disjoint pool left right ↔ NamesDiverge pool left right := by
  unfold Disjoint NamesDiverge
  refine forall_congr' fun leftServed => forall_congr' fun rightServed =>
    forall_congr' fun _ => ?_
  rw [symbolTree_eq_below pool leftServed (leftInside leftServed),
    symbolTree_eq_below pool rightServed (rightInside rightServed),
    List.prefix_append_right_inj, List.prefix_append_right_inj]

/-- For two accepted reports: both are contained and their trees apart exactly when no served
pair has names that leave the kernel directory or stop at it, and neither of two different served
pairs has names that begin with those of the other. -/
theorem contained_and_disjoint_iff {readers : Readers}
    (uuids : ∀ s, readers.parseUuid s = true → UuidForm s) (rawDir : Location) (pool : SymbolPool)
    {left right : ReportMetadata} (leftAccepted : Accepted readers left)
    (rightAccepted : Accepted readers right) :
    (Contained rawDir pool left ∧ Contained rawDir pool right ∧ Disjoint pool left right) ↔
      (StaysInside pool left ∧ StaysInside pool right ∧ NamesDiverge pool left right) := by
  rw [contained_iff uuids rawDir pool leftAccepted, contained_iff uuids rawDir pool rightAccepted]
  refine and_congr_right fun leftInside => and_congr_right fun rightInside => ?_
  exact disjoint_iff pool leftInside rightInside

/-! ## Concrete reports -/

/-- Readers whose uuids are the nonempty strings of hex digits and hyphens. -/
def plainReaders : Readers where
  validKey _ := true
  verify _ _ _ := true
  multipart _ _ := none
  json _ := .error []
  sha256 _ := [0]
  parseUuid s := !s.isEmpty && s.all fun c => isAsciiHexdigit c || c == '-'
  toLowercase := toAsciiLowercase

theorem plainReaders_uuids (s : Text) (parsed : plainReaders.parseUuid s = true) : UuidForm s := by
  obtain ⟨nonempty, digits⟩ := Bool.and_eq_true_iff.mp parsed
  refine ⟨by simpa using nonempty, s, .inl rfl, fun c member => ?_⟩
  rcases Bool.or_eq_true_iff.mp (List.all_eq_true.mp digits c member) with hex | hyphen
  · exact .inl hex
  · rw [beq_iff_eq.mp hyphen]
    exact .inr (by decide)

def exampleReport (version target : Text) : ReportMetadata where
  format := 1
  kind := .kernelOops
  uuid := "f81d4fae-7dec-4b58-a94b-2c0dd4f1fc6f".toList
  capturedAt := 1751712000
  openwrt := ⟨version, "r33051-f5dae5ece4".toList, target, "aarch64_cortex-a53".toList⟩
  board := "glinet,gl-mt6000".toList
  kernel := "6.12.94".toList
  kernelBuildid := none
  payloadSha256 := "00".toList
  payloadEncoding := .gzip

theorem exampleReport_accepted (version target : Text) :
    Accepted plainReaders (exampleReport version target) :=
  ⟨[], rfl⟩

def examplePool : SymbolPool where
  dir := ["data".toList, "symbols".toList]
  releaseUrl := []
  snapshotUrl := []

/-- An absolute version leaves the pool, and a slash can move between version and target. -/
theorem absoluteVersion_escapes :
    (Accepted plainReaders (exampleReport "/etc".toList "x86/64".toList) ∧
        ¬ Contained ["data".toList, "raw".toList] examplePool
          (exampleReport "/etc".toList "x86/64".toList)) ∧
      (Accepted plainReaders (exampleReport "a/b".toList "c".toList) ∧
        Accepted plainReaders (exampleReport "a".toList "b/c".toList) ∧
        ¬ Disjoint examplePool (exampleReport "a/b".toList "c".toList)
          (exampleReport "a".toList "b/c".toList)) := by
  refine ⟨⟨exampleReport_accepted _ _, fun contained => ?_⟩, exampleReport_accepted _ _,
    exampleReport_accepted _ _, fun disjoint => ?_⟩
  · exact absurd (contained.2 (by decide +kernel)).1 (by decide +kernel)
  · exact (disjoint (by decide +kernel) (by decide +kernel) (by decide +kernel)).1
      (by decide +kernel)

/-- Two ordinary targets of one release. -/
theorem releases_contained_and_disjoint :
    Contained ["data".toList, "raw".toList] examplePool
        (exampleReport "25.12.5".toList "mediatek/filogic".toList) ∧
      Contained ["data".toList, "raw".toList] examplePool
        (exampleReport "25.12.5".toList "ath79/generic".toList) ∧
      Disjoint examplePool (exampleReport "25.12.5".toList "mediatek/filogic".toList)
        (exampleReport "25.12.5".toList "ath79/generic".toList) := by
  refine (contained_and_disjoint_iff plainReaders_uuids _ examplePool
    (exampleReport_accepted _ _) (exampleReport_accepted _ _)).mpr ⟨fun _ => ?_, fun _ => ?_, ?_⟩
  · unfold NamesInside
    decide +kernel
  · unfold NamesInside
    decide +kernel
  · exact fun _ _ _ => by decide +kernel

end UcrashReport.PathContainment
