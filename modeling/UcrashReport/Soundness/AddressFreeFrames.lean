import UcrashReport.Rust.Fields
import UcrashReport.Soundness.FrameSites
import UcrashReport.Soundness.HashedFrames
import Mathlib.Data.List.Forall2
import Mathlib.Data.List.GetD

/-! # Signatures and return addresses

Two texts whose lines differ in their hex numbers keep the same lines, and of these the same ones
are hashed. The offset and the size of the symbol do not count; a return address in front of it
does, wherever the line that it stands in is hashed, and so does every number behind the first ` [`
of a line that counts for the module list.
-/

namespace UcrashReport.Signature

open Rust Rust.Text

/-! ## Rewritten texts -/

/-- The texts have the same lines up to the hex numbers of frame lines. -/
def Rewrites (text text' : Text) : Prop :=
  List.Forall₂ SameUpToNumbers (lines text) (lines text')

def exceptionOf (text : Text) : Option Text := (parseOops text).map Prod.fst

/-- With the exception line fixed, the hex numbers of the frames do not show in the signature. -/
def AddressFree (text : Text) : Prop :=
  ∀ text', Rewrites text text' → exceptionOf text' = exceptionOf text →
    ∀ sha256Hex kind, signatureOf sha256Hex kind text' = signatureOf sha256Hex kind text

/-! ## Kept lines by their positions -/

/-- A line without its log prefix. -/
def bareLine (text : Text) (i : ℕ) : Text := stripPrintkPrefix ((lines text).getD i [])

/-- The positions of the lines that make the crash. -/
def keptLines (text : Text) : CrashLines ℕ :=
  crashLines (bareLine text) (List.range (lines text).length)

def frameAt (text : Text) (i : ℕ) : Frame := frameOf (bareLine text i)

/-- The positions of the lines that count for the module list. -/
def countedLines (text : Text) : List ℕ :=
  (keptLines text).frames.filter fun i => (frameAt text i).Counted

/-- The positions of the lines whose symbols are hashed. -/
def hashedLines (text : Text) : List ℕ :=
  ((countedLines text).dropWhile
    fun i => isMachinery (normalizeSymbol (frameAt text i).symbol)).take signatureFrames

theorem scan_lines (text : Text) :
    scan {} (lines text) = (keptLines text).scanState (bareLine text) := by
  have whole : (List.range (lines text).length).map (fun i => (lines text).getD i []) =
      lines text := by
    apply List.ext_getElem
    · simp
    · intro i low high
      simp [high]
  conv_lhs => rw [← whole]
  exact scan_map _ _

theorem parseOops_eq (text : Text) :
    parseOops text = (keptLines text).exception.map fun e =>
      (bareLine text e, (keptLines text).frames.map (frameAt text)) := by
  rw [parseOops, scan_lines, ScanState.result, CrashLines.scanState, Option.map_map]
  rfl

theorem normalizedFrames_map {α : Type*} (f : α → Frame) (xs : List α) :
    normalizedFrames (xs.map f) =
      (xs.filter fun x => (f x).Counted).map fun x => normalizeSymbol (f x).symbol := by
  induction xs using List.reverseRecOn with
  | nil => rfl
  | append_singleton xs x ih =>
    rw [List.map_append, List.map_singleton, normalizedFrames_append, ih, List.filter_append,
      List.map_append]
    by_cases counted : (f x).Counted <;> simp [counted]

/-- What is hashed are the symbols of the hashed lines. -/
theorem sigFrames_eq (text : Text) :
    (collectFrames ((keptLines text).frames.map (frameAt text))).sigFrames =
      (hashedLines text).map fun i => normalizeSymbol (frameAt text i).symbol := by
  rw [(collectFrames_spec _).1, normalizedFrames_map, List.dropWhile_map, ← List.map_take,
    hashedLines, countedLines, Function.comp_def]

theorem signatureOf_eq (sha256Hex : Text → Text) (kind text : Text) :
    signatureOf sha256Hex kind text = (keptLines text).exception.map fun e =>
      let exception := normalizeException (bareLine text e)
      let symbols := (hashedLines text).map fun i => normalizeSymbol (frameAt text i).symbol
      ⟨sha256Hex (signatureInput kind exception symbols), symbols.head?.getD exception,
        (collectFrames ((keptLines text).frames.map (frameAt text))).modules⟩ := by
  rw [signatureOf, parseOops_eq, Option.map_map]
  refine Option.map_congr fun e _ => ?_
  rw [Function.comp_apply, compute, sigFrames_eq]

/-! ## Rewriting -/

namespace Rewrites

variable {text text' : Text} (rewrites : Rewrites text text')

include rewrites

theorem line (i : ℕ) : SameUpToNumbers ((lines text).getD i []) ((lines text').getD i []) := by
  have length := rewrites.length_eq
  by_cases inside : i < (lines text).length
  · have inside' : i < (lines text').length := length ▸ inside
    have related := List.Forall₂.get rewrites inside inside'
    simpa [inside, inside'] using related
  · rw [List.getD_eq_default _ _ (by omega), List.getD_eq_default _ _ (by omega)]
    exact .refl _

/-- The same lines are kept. -/
theorem keptLines_eq : keptLines text' = keptLines text := by
  rw [keptLines, keptLines, ← rewrites.length_eq]
  refine crashLines_congr fun before i after _ => ?_
  have same : verdict (bareLine text' i) = verdict (bareLine text i) := (rewrites.line i).verdict_eq
  rw [same]

theorem frame (i : ℕ) : (frameAt text i).CountsLike (frameAt text' i) :=
  (rewrites.line i).countsLike

/-- The same lines count. -/
theorem countedLines_eq : countedLines text' = countedLines text := by
  have counted : (fun i => decide (frameAt text' i).Counted) =
      fun i => decide (frameAt text i).Counted := by
    funext i
    exact decide_eq_decide.mpr (rewrites.frame i).counted
  rw [countedLines, countedLines, rewrites.keptLines_eq, counted]

/-- The same lines are hashed. -/
theorem hashedLines_eq : hashedLines text' = hashedLines text := by
  have machinery : (fun i => isMachinery (normalizeSymbol (frameAt text' i).symbol)) =
      fun i => isMachinery (normalizeSymbol (frameAt text i).symbol) := by
    funext i
    exact (rewrites.frame i).machinery
  rw [hashedLines, hashedLines, rewrites.countedLines_eq, machinery]

/-- The module list is the same when the modules of the counted lines are. -/
theorem modules_eq
    (same : ∀ i ∈ countedLines text, (frameAt text' i).module = (frameAt text i).module) :
    (collectFrames ((keptLines text').frames.map (frameAt text'))).modules =
      (collectFrames ((keptLines text).frames.map (frameAt text))).modules := by
  rw [rewrites.keptLines_eq]
  refine modules_collectFrames_map (fun i _ => (rewrites.frame i).counted)
    fun i member counted => ?_
  exact same i (List.mem_filter.mpr ⟨member, decide_eq_true counted⟩)

/-- The exception is fixed when its line is. -/
theorem exceptionOf_eq_iff :
    exceptionOf text' = exceptionOf text ↔
      ∀ e ∈ (keptLines text).exception, bareLine text' e = bareLine text e := by
  rw [exceptionOf, exceptionOf, parseOops_eq, parseOops_eq, rewrites.keptLines_eq]
  cases (keptLines text).exception <;> simp

end Rewrites

/-- Another line in the place of one that is the same up to its numbers. -/
theorem exists_rewrites {text line : Text} {i : ℕ} (inside : i < (lines text).length)
    (single : '\n' ∉ line) (same : SameUpToNumbers ((lines text).getD i []) line) :
    ∃ text', Rewrites text text' ∧ (lines text').getD i [] = line ∧
      ∀ j, j ≠ i → (lines text').getD j [] = (lines text).getD j [] := by
  have all : lines (((lines text).set i line).flatMap fun line => line ++ ['\r', '\n']) =
      (lines text).set i line := by
    refine lines_flatMap_return fun other member => ?_
    rcases List.mem_or_eq_of_mem_set member with earlier | rfl
    · exact not_mem_of_mem_lines earlier
    · exact single
  refine ⟨((lines text).set i line).flatMap fun line => line ++ ['\r', '\n'], ?_, ?_, ?_⟩
  · rw [Rewrites, all]
    refine List.forall₂_of_length_eq_of_get (by simp) fun j low high => ?_
    by_cases here : j = i
    · subst here
      simpa [inside] using same
    · simpa [List.getElem_set_ne (Ne.symm here)] using SameUpToNumbers.refl _
  · simp [all, inside]
  · intro j other
    rw [all, List.getD_eq_getElem?_getD, List.getD_eq_getElem?_getD,
      List.getElem?_set_ne (Ne.symm other)]

theorem mem_countedLines {text : Text} {i : ℕ} (member : i ∈ countedLines text) :
    i < (lines text).length ∧ (parseFrame (bareLine text i)).isSome = true := by
  have kept := mem_frames_crashLines (List.mem_of_mem_filter member)
  exact ⟨List.mem_range.mp kept.1, kept.2⟩

theorem countedLines_of_hashedLines {text : Text} {i : ℕ} (member : i ∈ hashedLines text) :
    i ∈ countedLines text :=
  (List.dropWhile_sublist _).subset (List.mem_of_mem_take member)

theorem modules_mem {text m : Text} {i : ℕ} (counted : i ∈ countedLines text)
    (module : (frameAt text i).module = some m) :
    m ∈ (collectFrames ((keptLines text).frames.map (frameAt text))).modules := by
  obtain ⟨kept, counts⟩ := List.mem_filter.mp counted
  exact mem_modules_collectFrames.mpr
    ⟨frameAt text i, List.mem_map_of_mem kept, of_decide_eq_true counts, module⟩

/-- What is hashed is as long as any of its symbols. -/
theorem length_le_signatureInput {symbols : List Text} {symbol : Text} (member : symbol ∈ symbols)
    (kind exception : Text) :
    symbol.length ≤ (signatureInput kind exception symbols).length := by
  obtain ⟨first, rest, rfl⟩ := List.mem_iff_append.mp member
  have whole : ['|'].intercalate (first ++ symbol :: rest) =
      ended '|' first ++ (join '|' [symbol] ++ begun '|' rest) :=
    join_append first (List.cons_ne_nil symbol []) rest
  have single : join '|' [symbol] = symbol := by simp [join]
  rw [signatureInput, whole, single]
  simp only [List.length_append, List.length_cons]
  omega

/-- Of a text that is free of addresses, a number in another line than the exception may get any
length. -/
theorem AddressFree.exists_longer {text : Text} (free : AddressFree text) {e i : ℕ}
    (found : e ∈ (keptLines text).exception) (other : i ≠ e) (inside : i < (lines text).length)
    {v x : Text} {d : HexDigits} (number : IsNumber v d x)
    (shape : (lines text).getD i [] = v ++ (d.text ++ x)) (n : ℕ) :
    ∃ text', Rewrites text text' ∧
      bareLine text' i = stripPrintkPrefix (v ++ ((zeros n).text ++ x)) ∧
      signatureOf id [] text' = signatureOf id [] text := by
  have inLines : (lines text).getD i [] ∈ lines text := by
    rw [List.getD_eq_getElem _ _ inside]
    exact List.getElem_mem inside
  have single : '\n' ∉ v ++ ((zeros n).text ++ x) := by
    have before := not_mem_of_mem_lines inLines
    rw [shape, List.mem_append, List.mem_append, not_or, not_or] at before
    rw [List.mem_append, List.mem_append, not_or, not_or]
    refine ⟨before.1, fun member => ?_, before.2.2⟩
    exact absurd ((zeros n).digits '\n' member) (by decide)
  obtain ⟨text', rewrites, here, elsewhere⟩ :=
    exists_rewrites inside single (shape ▸ .of_isNumber number (zeros n))
  have fixed : exceptionOf text' = exceptionOf text := by
    rw [rewrites.exceptionOf_eq_iff]
    intro e' found'
    obtain rfl := Option.mem_unique found found'
    rw [bareLine, bareLine, elsewhere e fun same => other same.symm]
  exact ⟨text', rewrites, congrArg stripPrintkPrefix here, free text' rewrites fixed id []⟩

/-- A longer number would not fit into the text that is hashed. -/
theorem AddressFree.not_numberInSymbol {text : Text} (free : AddressFree text) {e i : ℕ}
    (found : e ∈ (keptLines text).exception) (other : i ≠ e) (hashed : i ∈ hashedLines text) :
    ¬ NumberInSymbol ((lines text).getD i []) := by
  rintro ⟨v, d, x, number, shape, inSymbol⟩
  obtain ⟨inside, frame⟩ := mem_countedLines (countedLines_of_hashedLines hashed)
  let symbols : List Text := (hashedLines text).map fun i => normalizeSymbol (frameAt text i).symbol
  let input : Text := signatureInput [] (normalizeException (bareLine text e)) symbols
  obtain ⟨text', rewrites, here, equal⟩ :=
    free.exists_longer found other inside number shape input.length
  have longer : input.length < (normalizeSymbol (frameAt text' i).symbol).length := by
    rw [frameAt, here]
    refine number.length_symbol ?_ inSymbol input.length
    rwa [bareLine, shape] at frame
  rw [signatureOf_eq, signatureOf_eq, rewrites.keptLines_eq, rewrites.hashedLines_eq,
    Option.mem_def.mp found, Option.map_some, Option.map_some, Option.some.injEq] at equal
  have hashes := congrArg CrashSignature.signature equal
  have member : normalizeSymbol (frameAt text' i).symbol ∈
      (hashedLines text).map fun i => normalizeSymbol (frameAt text' i).symbol :=
    List.mem_map_of_mem hashed
  have bound := length_le_signatureInput member [] (normalizeException (bareLine text' e))
  dsimp only [id] at hashes
  rw [hashes] at bound
  exact absurd longer (not_lt.mpr bound)

/-- A longer number would not fit into the modules. -/
theorem AddressFree.not_numberInModule {text : Text} (free : AddressFree text) {e i : ℕ}
    (found : e ∈ (keptLines text).exception) (other : i ≠ e) (counted : i ∈ countedLines text) :
    ¬ NumberInModule ((lines text).getD i []) := by
  rintro ⟨v, d, x, number, shape, inModule⟩
  obtain ⟨inside, frame⟩ := mem_countedLines counted
  let modules : List Text := (collectFrames ((keptLines text).frames.map (frameAt text))).modules
  obtain ⟨text', rewrites, here, equal⟩ :=
    free.exists_longer found other inside number shape modules.flatten.length
  rw [bareLine, shape] at frame
  obtain ⟨m, module, longer⟩ := number.length_module frame inModule modules.flatten.length
  have counted' : i ∈ countedLines text' := by rwa [rewrites.countedLines_eq]
  have module' : (frameAt text' i).module = some m := by rw [frameAt, here, module]
  have member := modules_mem counted' module'
  rw [signatureOf_eq, signatureOf_eq, rewrites.keptLines_eq, Option.mem_def.mp found,
    Option.map_some, Option.map_some, Option.some.injEq] at equal
  have lists := congrArg CrashSignature.modules equal
  dsimp only at lists
  rw [rewrites.keptLines_eq, lists] at member
  exact absurd longer (not_lt.mpr (List.sublist_flatten_of_mem member).length_le)

/-- The signature is free of addresses exactly when, apart from the exception line itself, no hashed
line has a number in its symbol and no line that counts has one in its module annotation. -/
theorem addressFree_iff (text : Text) :
    AddressFree text ↔
      ∀ e ∈ (keptLines text).exception, ∀ i, i ≠ e →
        (i ∈ hashedLines text → ¬ NumberInSymbol ((lines text).getD i [])) ∧
          (i ∈ countedLines text → ¬ NumberInModule ((lines text).getD i [])) := by
  constructor
  · exact fun free e found i other =>
      ⟨free.not_numberInSymbol found other, free.not_numberInModule found other⟩
  · intro unnumbered text' rewrites fixed sha256Hex kind
    rw [rewrites.exceptionOf_eq_iff] at fixed
    rw [signatureOf_eq, signatureOf_eq, rewrites.keptLines_eq, rewrites.hashedLines_eq]
    refine Option.map_congr fun e found => ?_
    have symbols : ((hashedLines text).map fun i => normalizeSymbol (frameAt text' i).symbol) =
        (hashedLines text).map fun i => normalizeSymbol (frameAt text i).symbol := by
      refine List.map_congr_left fun i hashed => ?_
      by_cases isException : i = e
      · rw [frameAt, frameAt, isException, fixed e found]
      · exact (rewrites.line i).symbol_eq ((unnumbered e found i isException).1 hashed)
          (mem_countedLines (countedLines_of_hashedLines hashed)).2
    have modules := rewrites.modules_eq fun i counted => by
      by_cases isException : i = e
      · rw [frameAt, frameAt, isException, fixed e found]
      · exact (rewrites.line i).module_eq ((unnumbered e found i isException).2 counted)
    rw [rewrites.keptLines_eq] at modules
    rw [symbols, fixed e found, modules]

/-- Another return address makes another signature; of an ARM line both addresses show. -/
theorem return_address_hashed :
    ¬ AddressFree "Oops[#1]:\nCall Trace:\n[<80012345>] foo+0x10/0x20\n".toList ∧
      ¬ AddressFree
        "Oops[#1]:\nCall trace:\n[<c0>] (f+0x1/0x2) from [<c8>] (g+0x3/0x4)\n".toList := by
  let digits (text : Text) (nonempty : text ≠ []) (all : text.all isAsciiHexdigit = true) :
    HexDigits := ⟨text, nonempty, by simpa using all⟩
  constructor
  · intro free
    have rewrites : Rewrites "Oops[#1]:\nCall Trace:\n[<80012345>] foo+0x10/0x20\n".toList
        "Oops[#1]:\nCall Trace:\n[<80054321>] foo+0x10/0x20\n".toList := by
      have left : lines "Oops[#1]:\nCall Trace:\n[<80012345>] foo+0x10/0x20\n".toList =
          ["Oops[#1]:".toList, "Call Trace:".toList, "[<80012345>] foo+0x10/0x20".toList] := by
        decide +kernel
      have right : lines "Oops[#1]:\nCall Trace:\n[<80054321>] foo+0x10/0x20\n".toList =
          ["Oops[#1]:".toList, "Call Trace:".toList, "[<80054321>] foo+0x10/0x20".toList] := by
        decide +kernel
      have last : SameUpToNumbers "[<80012345>] foo+0x10/0x20".toList
          "[<80054321>] foo+0x10/0x20".toList :=
        .address ⟨'f', _, by decide, .inl rfl⟩ (digits "80012345".toList (by decide) (by decide))
          (digits "80054321".toList (by decide) (by decide)) (.refl "foo+0x10/0x20".toList)
      rw [Rewrites, left, right]
      exact .cons (.refl _) (.cons (.refl _) (.cons last .nil))
    have equal := free _ rewrites (by decide +kernel) id []
    revert equal
    decide +kernel
  · intro free
    have rewrites : Rewrites
        "Oops[#1]:\nCall trace:\n[<c0>] (f+0x1/0x2) from [<c8>] (g+0x3/0x4)\n".toList
        "Oops[#1]:\nCall trace:\n[<d0>] (f+0x1/0x2) from [<d8>] (g+0x3/0x4)\n".toList := by
      have left : lines "Oops[#1]:\nCall trace:\n[<c0>] (f+0x1/0x2) from [<c8>] (g+0x3/0x4)\n".toList =
          ["Oops[#1]:".toList, "Call trace:".toList,
            "[<c0>] (f+0x1/0x2) from [<c8>] (g+0x3/0x4)".toList] := by
        decide +kernel
      have right : lines "Oops[#1]:\nCall trace:\n[<d0>] (f+0x1/0x2) from [<d8>] (g+0x3/0x4)\n".toList =
          ["Oops[#1]:".toList, "Call trace:".toList,
            "[<d0>] (f+0x1/0x2) from [<d8>] (g+0x3/0x4)".toList] := by
        decide +kernel
      have caller : SameUpToNumbers "[<c8>] (g+0x3/0x4)".toList "[<d8>] (g+0x3/0x4)".toList :=
        .address ⟨'g', _, by decide, .inr rfl⟩ (digits "c8".toList (by decide) (by decide))
          (digits "d8".toList (by decide) (by decide)) (.refl "(g+0x3/0x4)".toList)
      have callee : SameUpToNumbers
          "[<c0>] (f+0x1/0x2) from [<c8>] (g+0x3/0x4)".toList
          "[<d0>] (f+0x1/0x2) from [<d8>] (g+0x3/0x4)".toList :=
        .address ⟨'f', _, by decide, .inr rfl⟩ (digits "c0".toList (by decide) (by decide))
          (digits "d0".toList (by decide) (by decide))
          (caller.append_left "(f+0x1/0x2) from ".toList)
      rw [Rewrites, left, right]
      exact .cons (.refl _) (.cons (.refl _) (.cons callee .nil))
    have equal := free _ rewrites (by decide +kernel) id []
    revert equal
    decide +kernel

end UcrashReport.Signature
