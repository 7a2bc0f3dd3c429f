import UcrashReport.Common.Signature

/-! # The lines that make a crash

Of a line the loop of `parseOops` asks only four questions before it keeps or drops it. The lines
it keeps are therefore the same in two texts whose lines get the same answers, whatever else the
lines say. The frames read from them count for the signature by their symbols alone, and for the
module list by their modules.
-/

namespace UcrashReport.Signature

open Rust Rust.Text

/-! ## Kept lines -/

/-- What the loop asks about a line. -/
structure Verdict where
  marked : Bool
  header : Bool
  ending : Bool
  frame : Bool
deriving DecidableEq, Repr

def verdict (line : Text) : Verdict where
  marked := hasMarker line
  header := isTraceHeader line
  ending := isTraceEnd line
  frame := (parseFrame line).isSome

/-- The state of the loop with the lines in place of what is read from them. -/
structure CrashLines (α : Type*) where
  exception : Option α := none
  frames : List α := []
  inTrace : Bool := false

namespace CrashLines

variable {α : Type*}

/-- `scanMarker` on kept lines. -/
def mark (v : Verdict) (crash : CrashLines α) (x : α) : CrashLines α :=
  if v.marked then
    if !crash.frames.isEmpty then { crash with frames := [], exception := some x }
    else if crash.exception.isNone then { crash with exception := some x }
    else crash
  else crash

/-- `scanTrace` on kept lines. -/
def trace (v : Verdict) (crash : CrashLines α) (x : α) : CrashLines α :=
  if v.ending then { crash with inTrace := false }
  else if v.frame then { crash with frames := crash.frames ++ [x] }
  else { crash with inTrace := false }

def keep (v : Verdict) (crash : CrashLines α) (x : α) : CrashLines α :=
  let crash := crash.mark v x
  if v.header then { crash with inTrace := true }
  else if crash.inTrace then crash.trace v x
  else crash

end CrashLines

variable {α : Type*}

/-- The lines that are kept, when `view` gives the stripped text of a line. -/
def crashLines (view : α → Text) (xs : List α) : CrashLines α :=
  xs.foldl (fun crash x => crash.keep (verdict (view x)) x) {}

/-- The frame of a line that has one. -/
def frameOf (line : Text) : Frame := (parseFrame line).getD ⟨line, none, false⟩

def CrashLines.scanState (view : α → Text) (crash : CrashLines α) : ScanState where
  exception := crash.exception.map view
  frames := crash.frames.map fun x => frameOf (view x)
  inTrace := crash.inTrace

theorem scanMarker_scanState (view : α → Text) (crash : CrashLines α) (x : α) :
    scanMarker (crash.scanState view) (view x) =
      (crash.mark (verdict (view x)) x).scanState view := by
  obtain ⟨exception, frames, inTrace⟩ := crash
  cases marked : hasMarker (view x) with
  | false => simp [scanMarker, CrashLines.mark, verdict, marked]
  | true =>
    cases frames <;> cases exception <;>
      simp [scanMarker, CrashLines.mark, verdict, marked, CrashLines.scanState]

theorem scanTrace_scanState (view : α → Text) (crash : CrashLines α) (x : α) :
    scanTrace (crash.scanState view) (view x) =
      (crash.trace (verdict (view x)) x).scanState view := by
  cases ending : isTraceEnd (view x) with
  | true => simp [scanTrace, CrashLines.trace, verdict, ending, CrashLines.scanState]
  | false =>
    cases frame : parseFrame (view x) <;>
      simp [scanTrace, CrashLines.trace, verdict, ending, frame, CrashLines.scanState, frameOf]

theorem scanStripped_scanState (view : α → Text) (crash : CrashLines α) (x : α) :
    scanStripped (crash.scanState view) (view x) =
      (crash.keep (verdict (view x)) x).scanState view := by
  rw [scanStripped, scanMarker_scanState, scanTrace_scanState, CrashLines.keep]
  generalize crash.mark (verdict (view x)) x = marked
  have header : (verdict (view x)).header = isTraceHeader (view x) := rfl
  have inTrace : (marked.scanState view).inTrace = marked.inTrace := rfl
  rw [header, inTrace]
  split_ifs <;> rfl

theorem crashLines_append_singleton (view : α → Text) (xs : List α) (x : α) :
    crashLines view (xs ++ [x]) = (crashLines view xs).keep (verdict (view x)) x :=
  List.foldl_append

/-- The loop computes what is read from the lines that it keeps. -/
theorem foldl_scanStripped (view : α → Text) (xs : List α) :
    (xs.map view).foldl scanStripped {} = (crashLines view xs).scanState view := by
  induction xs using List.reverseRecOn with
  | nil => rfl
  | append_singleton xs x ih =>
    rw [List.map_append, List.foldl_append, ih, crashLines_append_singleton]
    exact scanStripped_scanState view _ x

theorem scan_eq_foldl (raws : List Text) :
    scan {} raws = (raws.map stripPrintkPrefix).foldl scanStripped {} := by
  rw [List.foldl_map]
  rfl

theorem scan_map (raw : α → Text) (xs : List α) :
    scan {} (xs.map raw) =
      (crashLines (fun x => stripPrintkPrefix (raw x)) xs).scanState
        fun x => stripPrintkPrefix (raw x) := by
  rw [scan_eq_foldl, List.map_map]
  exact foldl_scanStripped _ xs

/-- Two texts keep the same lines when no line of the first one is treated differently. -/
theorem crashLines_congr {left right : α → Text} {xs : List α}
    (same : ∀ before x after, xs = before ++ x :: after →
      (crashLines left before).keep (verdict (right x)) x =
        (crashLines left before).keep (verdict (left x)) x) :
    crashLines right xs = crashLines left xs := by
  induction xs using List.reverseRecOn with
  | nil => rfl
  | append_singleton xs x ih =>
    have earlier : crashLines right xs = crashLines left xs := by
      apply ih
      rintro before y after rfl
      exact same before y (after ++ [x]) (by simp)
    rw [crashLines_append_singleton, crashLines_append_singleton, earlier]
    exact same xs x [] rfl

theorem CrashLines.mem_frames_keep {v : Verdict} {crash : CrashLines α} {x y : α}
    (member : x ∈ (crash.keep v y).frames) : x ∈ crash.frames ∨ x = y ∧ v.frame = true := by
  have marked : x ∈ (crash.mark v y).frames → x ∈ crash.frames := by
    unfold mark
    split_ifs
    · exact fun member => nomatch member
    · exact id
    · exact id
    · exact id
  unfold keep trace at member
  dsimp only at member
  split_ifs at member with _ _ _ frame
  · exact .inl (marked member)
  · exact .inl (marked member)
  · rcases List.mem_append.mp member with earlier | here
    · exact .inl (marked earlier)
    · exact .inr ⟨List.mem_singleton.mp here, frame⟩
  · exact .inl (marked member)
  · exact .inl (marked member)

/-- A kept frame is a line of the text that reads as a frame. -/
theorem mem_frames_crashLines {view : α → Text} {xs : List α} {x : α}
    (member : x ∈ (crashLines view xs).frames) : x ∈ xs ∧ (parseFrame (view x)).isSome := by
  induction xs using List.reverseRecOn with
  | nil => simp [crashLines] at member
  | append_singleton xs y ih =>
    rw [crashLines_append_singleton] at member
    rcases CrashLines.mem_frames_keep member with earlier | ⟨rfl, frame⟩
    · exact ⟨List.mem_append_left _ (ih earlier).1, (ih earlier).2⟩
    · exact ⟨by simp, frame⟩

/-! ## More marked lines -/

/-- The lines that are kept, given the answers. -/
def keptBy (answer : α → Verdict) (xs : List α) : CrashLines α :=
  xs.foldl (fun crash x => crash.keep (answer x) x) {}

theorem crashLines_eq_keptBy (view : α → Text) (xs : List α) :
    crashLines view xs = keptBy (fun x => verdict (view x)) xs := rfl

theorem keptBy_append_singleton (answer : α → Verdict) (xs : List α) (x : α) :
    keptBy answer (xs ++ [x]) = (keptBy answer xs).keep (answer x) x := List.foldl_append

/-- The answers are the same but for lines that are marked in addition. -/
structure MoreMarks (answer answer' : α → Verdict) : Prop where
  others : ∀ x, answer' x = { answer x with marked := (answer' x).marked }
  marked : ∀ x, (answer x).marked = true → (answer' x).marked = true

/-- What is kept with more marks: fewer frames, and another exception only from a line that is
marked in addition. -/
structure CrashLines.Fewer (answer : α → Verdict) (crash crash' : CrashLines α) : Prop where
  inTrace : crash'.inTrace = crash.inTrace
  frames : crash'.frames <:+ crash.frames
  exception : crash' = crash ∨ ∃ x ∈ crash'.exception, (answer x).marked = false

theorem CrashLines.mark_of_marked {v : Verdict} (marked : v.marked = true) (crash : CrashLines α)
    (x : α) : crash.mark v x =
      if crash.frames = [] ∧ crash.exception.isSome then crash
      else { crash with frames := [], exception := some x } := by
  obtain ⟨exception, frames, inTrace⟩ := crash
  cases frames <;> cases exception <;> simp [mark, marked]

theorem CrashLines.mark_of_unmarked {v : Verdict} (unmarked : v.marked = false)
    (crash : CrashLines α) (x : α) : crash.mark v x = crash := by
  simp [mark, unmarked]

namespace CrashLines.Fewer

variable {answer answer' : α → Verdict} {crash crash' : CrashLines α}

theorem mark (fewer : Fewer answer crash crash') (more : MoreMarks answer answer') (x : α) :
    Fewer answer (crash.mark (answer x) x) (crash'.mark (answer' x) x) := by
  obtain ⟨inTrace, frames, exception⟩ := fewer
  cases marked : (answer x).marked with
  | false =>
    rw [mark_of_unmarked marked]
    cases marked' : (answer' x).marked with
    | false =>
      rw [mark_of_unmarked marked']
      exact ⟨inTrace, frames, exception⟩
    | true =>
      rw [mark_of_marked marked']
      split_ifs
      · exact ⟨inTrace, frames, exception⟩
      · exact ⟨inTrace, List.nil_suffix, .inr ⟨x, rfl, marked⟩⟩
  | true =>
    rw [mark_of_marked marked, mark_of_marked (more.marked x marked)]
    split_ifs with settled settled' settled'
    · exact ⟨inTrace, frames, exception⟩
    · exfalso
      rcases exception with rfl | ⟨y, found, -⟩
      · exact settled' settled
      · have empty : crash'.frames = [] := List.suffix_nil.mp (settled.1 ▸ frames)
        exact settled' ⟨empty, Option.isSome_iff_exists.mpr ⟨y, found⟩⟩
    · -- The additional mark has opened this section already.
      refine ⟨inTrace, settled'.1 ▸ List.nil_suffix, ?_⟩
      rcases exception with rfl | other
      · exact absurd settled' settled
      · exact .inr other
    · exact ⟨inTrace, List.suffix_refl _, .inl (by rw [inTrace])⟩

theorem trace (fewer : Fewer answer crash crash') (v : Verdict) (x : α) :
    Fewer answer (crash.trace v x) (crash'.trace v x) := by
  obtain ⟨inTrace, frames, exception⟩ := fewer
  have keeps {f : CrashLines α → CrashLines α} (same : ∀ c, (f c).exception = c.exception) :
      f crash' = f crash ∨ ∃ y ∈ (f crash').exception, (answer y).marked = false := by
    rcases exception with rfl | ⟨y, found, unmarked⟩
    · exact .inl rfl
    · exact .inr ⟨y, same crash' ▸ found, unmarked⟩
  refine ⟨?_, ?_, @keeps (fun c => c.trace v x) fun c => ?_⟩
  all_goals unfold CrashLines.trace; split_ifs
  · rfl
  · exact inTrace
  · rfl
  · exact frames
  · exact List.suffix_append_self_iff.mpr frames
  · exact frames
  all_goals rfl

theorem keep (fewer : Fewer answer crash crash') (more : MoreMarks answer answer') (x : α) :
    Fewer answer (crash.keep (answer x) x) (crash'.keep (answer' x) x) := by
  have marked := fewer.mark more x
  have header : (answer' x).header = (answer x).header := by rw [more.others x]
  have traced (c : CrashLines α) : c.trace (answer' x) x = c.trace (answer x) x := by
    rw [more.others x]
    rfl
  unfold CrashLines.keep
  dsimp only
  rw [header, marked.inTrace, traced]
  split_ifs
  · refine ⟨rfl, marked.frames, ?_⟩
    rcases marked.exception with same | other
    · exact .inl (by rw [same])
    · exact .inr other
  · exact marked.trace (answer x) x
  · exact marked

end CrashLines.Fewer

/-- The exception is a marked line. -/
theorem marked_of_mem_exception {answer : α → Verdict} {xs : List α} {x : α}
    (found : x ∈ (keptBy answer xs).exception) : (answer x).marked = true := by
  induction xs using List.reverseRecOn with
  | nil => contradiction
  | append_singleton xs y ih =>
    rw [keptBy_append_singleton] at found
    have traced (c : CrashLines α) : (c.trace (answer y) y).exception = c.exception := by
      unfold CrashLines.trace
      split_ifs <;> rfl
    have inMark : x ∈ ((keptBy answer xs).mark (answer y) y).exception := by
      unfold CrashLines.keep at found
      dsimp only at found
      split_ifs at found
      · exact found
      · rwa [traced] at found
      · exact found
    cases marked : (answer y).marked with
    | false =>
      rw [CrashLines.mark_of_unmarked marked] at inMark
      exact ih inMark
    | true =>
      rw [CrashLines.mark_of_marked marked] at inMark
      split_ifs at inMark
      · exact ih inMark
      · obtain rfl := Option.some.inj inMark
        exact marked

theorem fewer_keptBy {answer answer' : α → Verdict} (more : MoreMarks answer answer')
    (xs : List α) : (keptBy answer xs).Fewer answer (keptBy answer' xs) := by
  induction xs using List.reverseRecOn with
  | nil => exact ⟨rfl, List.suffix_refl _, .inl rfl⟩
  | append_singleton xs x ih =>
    rw [keptBy_append_singleton, keptBy_append_singleton]
    exact ih.keep more x

/-! ## What frames count for -/

/-- A frame that the signature or the module list takes into account. -/
def Frame.Counted (f : Frame) : Prop := f.questionable = false ∧ normalizeSymbol f.symbol ≠ []

instance (f : Frame) : Decidable f.Counted := inferInstanceAs (Decidable (_ ∧ _))

/-- Two frames that count alike for the signature. -/
structure Frame.SameSymbol (f g : Frame) : Prop where
  questionable : g.questionable = f.questionable
  symbol : normalizeSymbol g.symbol = normalizeSymbol f.symbol

theorem collectFrame_of_not_counted {f : Frame} (uncounted : ¬ f.Counted) (acc : Collected) :
    collectFrame acc f = acc := by
  cases questionable : f.questionable with
  | true => simp [collectFrame, questionable]
  | false =>
    have empty : normalizeSymbol f.symbol = [] := by
      by_contra visible
      exact uncounted ⟨questionable, visible⟩
    simp [collectFrame, questionable, empty]

theorem modules_collectFrame {f : Frame} (counted : f.Counted) (acc : Collected) :
    (collectFrame acc f).modules =
      match f.module with
      | some m => if acc.modules.contains m then acc.modules else acc.modules ++ [m]
      | none => acc.modules := by
  have visible : (normalizeSymbol f.symbol).isEmpty = false := by simpa using counted.2
  rw [collectFrame, counted.1]
  simp only [visible, Bool.false_eq_true, if_false]
  split_ifs <;> rfl

theorem mem_modules_collectFrame {f : Frame} (counted : f.Counted) (acc : Collected) (m : Text) :
    m ∈ (collectFrame acc f).modules ↔ m ∈ acc.modules ∨ f.module = some m := by
  rw [modules_collectFrame counted]
  cases f.module with
  | none => simp
  | some m' =>
    dsimp only
    split_ifs with known
    · have member : m' ∈ acc.modules := by simpa using known
      constructor
      · exact .inl
      · rintro (earlier | same)
        · exact earlier
        · exact Option.some.inj same ▸ member
    · simp [eq_comm]

/-- The module list has the modules of the counted frames. -/
theorem mem_modules_collectFrames {fs : List Frame} {m : Text} :
    m ∈ (collectFrames fs).modules ↔ ∃ f ∈ fs, f.Counted ∧ f.module = some m := by
  induction fs using List.reverseRecOn with
  | nil => simp [collectFrames]
  | append_singleton fs f ih =>
    have last : collectFrames (fs ++ [f]) = collectFrame (collectFrames fs) f := List.foldl_append
    by_cases counted : f.Counted
    · rw [last, mem_modules_collectFrame counted, ih]
      simp [counted, or_and_right, exists_or]
    · rw [last, collectFrame_of_not_counted counted, ih]
      simp [counted, or_and_right, exists_or]

/-- What the signature takes from a frame depends on its symbol only. -/
theorem sigFrames_collectFrames_map {f g : α → Frame} {xs : List α}
    (same : ∀ x ∈ xs, (f x).SameSymbol (g x)) :
    (collectFrames (xs.map g)).sigFrames = (collectFrames (xs.map f)).sigFrames ∧
      (collectFrames (xs.map g)).seenRealFrame = (collectFrames (xs.map f)).seenRealFrame := by
  induction xs using List.reverseRecOn with
  | nil => exact ⟨rfl, rfl⟩
  | append_singleton xs x ih =>
    have last (h : α → Frame) : collectFrames ((xs ++ [x]).map h) =
        collectFrame (collectFrames (xs.map h)) (h x) := by
      rw [List.map_append, collectFrames, List.foldl_append]
      rfl
    obtain ⟨frames, seen⟩ := ih fun y member => same y (List.mem_append_left _ member)
    obtain ⟨questionable, symbol⟩ := same x (by simp)
    rw [last, last]
    simp only [collectFrame, questionable, symbol]
    split_ifs <;> simp_all

theorem collectFrames_map_congr {f g : α → Frame} {xs : List α}
    (same : ∀ x ∈ xs, (f x).SameSymbol (g x))
    (modules : ∀ x ∈ xs, (f x).Counted → (g x).module = (f x).module) :
    collectFrames (xs.map g) = collectFrames (xs.map f) := by
  refine List.foldl_map.trans (Eq.trans ?_ List.foldl_map.symm)
  refine List.foldl_ext _ _ _ fun acc x member => ?_
  obtain ⟨questionable, symbol⟩ := same x member
  by_cases counted : (f x).Counted
  · simp only [collectFrame, questionable, symbol, modules x member counted]
  · have uncounted : ¬ (g x).Counted := by rwa [Frame.Counted, questionable, symbol]
    rw [collectFrame_of_not_counted counted, collectFrame_of_not_counted uncounted]

/-- What the module list takes from a frame is whether it counts, and its module. -/
theorem modules_collectFrames_map {f g : α → Frame} {xs : List α}
    (counted : ∀ x ∈ xs, (g x).Counted ↔ (f x).Counted)
    (modules : ∀ x ∈ xs, (f x).Counted → (g x).module = (f x).module) :
    (collectFrames (xs.map g)).modules = (collectFrames (xs.map f)).modules := by
  induction xs using List.reverseRecOn with
  | nil => rfl
  | append_singleton xs x ih =>
    have last (h : α → Frame) : collectFrames ((xs ++ [x]).map h) =
        collectFrame (collectFrames (xs.map h)) (h x) := by
      rw [List.map_append, collectFrames, List.foldl_append]
      rfl
    have earlier := ih (fun y member => counted y (List.mem_append_left _ member))
      fun y member => modules y (List.mem_append_left _ member)
    have inLast : x ∈ xs ++ [x] := by simp
    rw [last, last]
    by_cases counts : (f x).Counted
    · rw [modules_collectFrame counts, modules_collectFrame ((counted x inLast).mpr counts),
        modules x inLast counts, earlier]
    · rw [collectFrame_of_not_counted counts,
        collectFrame_of_not_counted fun counts' => counts ((counted x inLast).mp counts'), earlier]

end UcrashReport.Signature
