import UcrashReport.Machine.Past
import UcrashReport.Soundness.ClaimOrder
import UcrashReport.Soundness.KeptData

/-! # What a sweep of the raw payloads comes to

A sweep selects the reports whose raw payload is due and then takes one after the other, while
uploads, workers and other sweeps go on between its steps. When none of its own steps fails and
nobody stops it, it is over after two steps for each report that was due; these reports have lost
their payload and are marked, and the sweep has left every other report alone.
-/

namespace UcrashReport.Service

open Rust Rust.Text Store Api Decode History

/-- The raw payload of the report is to be removed at the time. -/
def IsDue (setup : Setup) (now : ℤ) (report : ReportRow) : Prop :=
  report.state = .failed ∧ report.rawDeletedAt = none ∧
    report.receivedAt < now - setup.retentionDays * 86400

instance (setup : Setup) (now : ℤ) (report : ReportRow) : Decidable (IsDue setup now report) :=
  inferInstanceAs (Decidable (_ ∧ _ ∧ _))

def isOwn (collector : ℕ) : Action → Bool
  | .collect other _ => other = collector
  | _ => false

/-- No step of the sweep fails, it is not stopped, and it is not started again. -/
def Unhindered (collector : ℕ) : Action → Prop
  | .collect other draw => other = collector → draw.success = true
  | .sweep other | .halt other => other ≠ collector
  | _ => True

/-- A step of the sweep leaves the report and its raw payload alone. -/
def Spares (setup : Setup) (collector : ℕ) (id : Text) (s : Service) (action : Action) : Prop :=
  isOwn collector action = true → ∀ s' ∈ step setup s action,
    s'.db.reports.find? id = s.db.reports.find? id ∧ s'.raw id = s.raw id

/-! ## Single steps -/

section Steps

variable {setup : Setup} {collector : ℕ} {s s' : Service} {action : Action}

/-- The collector stays where it is, or it is its own step. -/
theorem collector_of_step (unhindered : Unhindered collector action)
    (stepped : step setup s action = some s') :
    s'.collectors collector = s.collectors collector ∧ isOwn collector action = false ∨
      ∃ draw pc, action = .collect collector draw ∧ draw.success = true ∧
        s.collectors collector = some pc ∧
        s' = s.afterCollect collector (gcFailedRaw setup.retentionDays draw s.db s.raw pc) := by
  cases action with
  | request | start =>
    rw [step, Option.ite_none_right_eq_some, Option.some.injEq] at stepped
    rw [← stepped.2]
    exact .inl ⟨rfl, rfl⟩
  | upload call draw =>
    obtain ⟨pc, -, rfl⟩ := Option.map_eq_some_iff.mp stepped
    obtain ⟨db', raw', progress⟩ := postReport setup.readers draw s.db s.raw pc
    cases progress with
    | running | created | failed => exact .inl ⟨rfl, rfl⟩
  | work worker draw =>
    obtain ⟨pc, -, rfl⟩ := Option.map_eq_some_iff.mp stepped
    exact .inl ⟨rfl, rfl⟩
  | abandon | stop =>
    rw [← Option.some.inj stepped]
    exact .inl ⟨rfl, rfl⟩
  | sweep other =>
    rw [step, Option.ite_none_right_eq_some, Option.some.injEq] at stepped
    rw [← stepped.2]
    exact .inl ⟨Function.update_of_ne (Ne.symm unhindered) _ _, rfl⟩
  | halt other =>
    rw [← Option.some.inj stepped]
    exact .inl ⟨Function.update_of_ne (Ne.symm unhindered) _ _, rfl⟩
  | collect other draw =>
    obtain ⟨pc, current, rfl⟩ := Option.map_eq_some_iff.mp stepped
    rcases eq_or_ne other collector with rfl | different
    · exact .inr ⟨draw, pc, rfl, unhindered rfl, current, rfl⟩
    · refine .inl ⟨Function.update_of_ne different.symm _ _, ?_⟩
      simpa [isOwn] using different

/-- A file that is gone stays gone when no upload writes it. -/
theorem raw_gone_of_step (stepped : step setup s action = some s') {id : Text}
    (unwritten : Unwritten id s action) (gone : s.raw id = none) : s'.raw id = none := by
  cases rawStep_of_step stepped id with
  | kept same => exact same.trans gone
  | decoded _ _ _ gone' => exact gone'
  | swept _ gone' => exact gone'
  | written current opened => exact absurd (unwritten (by rw [current]; rfl)) opened

/-- The row of a report that has failed changes only in the time at which its payload went. -/
theorem failed_row_of_step (stepped : step setup s action = some s') {report : ReportRow}
    (failed : report.state = .failed) (settled : FailedSettled s report.id) {ts : Option ℤ}
    (found : s.db.reports.find? report.id = some { report with rawDeletedAt := ts }) :
    ∃ ts', s'.db.reports.find? report.id = some { report with rawDeletedAt := ts' } ∧
      (ts.isSome → ts'.isSome) := by
  have here : s.db.reports.find? ({ report with rawDeletedAt := ts } : ReportRow).id = _ := found
  obtain ⟨report', found', moved⟩ := reportStep_of_step stepped here
  cases moved with
  | kept => exact ⟨ts, found', id⟩
  | decoded finishing same =>
    obtain ⟨groupId, closing⟩ := (settled _ found failed).closing finishing rfl same
    contradiction
  | failed => exact ⟨ts, by rw [found', ← failed], id⟩
  | swept => exact ⟨_, found', fun _ => rfl⟩

end Steps

/-! ## How far a sweep is -/

/-- The reports that the sweep has taken, those that are left, and its own steps so far. -/
inductive Position (collector : ℕ) (due : List Text) (s : Service) : ℕ → Prop
  | removing {done ids : List Text} (current : s.collectors collector = some (.remove ids))
      (split : due = done ++ ids) : Position collector due s (2 * done.length)
  | marking {done ids : List Text} {id : Text}
      (current : s.collectors collector = some (.mark id ids)) (split : due = done ++ id :: ids) :
      Position collector due s (2 * done.length + 1)
  | isOver (none : s.collectors collector = none) : Position collector due s (2 * due.length + 1)

/-- Where the sweep is with one of the reports that are due. -/
inductive Turn (collector : ℕ) (report : ReportRow) (unwritten : Prop) (s : Service) : Prop
  | ahead {pc : Collector} (current : s.collectors collector = some pc)
      (left : report.id ∈ sweeping pc)
  | emptied {ids : List Text} (current : s.collectors collector = some (.mark report.id ids))
      (gone : unwritten → s.raw report.id = none)
  | past {ts : ℤ}
      (marked : s.db.reports.find? report.id = some { report with rawDeletedAt := some ts })
      (gone : unwritten → s.raw report.id = none)

section Sweep

variable {setup : Setup} {collector : ℕ} {due : List Text} {s s' : Service} {action : Action}

theorem position_of_step {steps : ℕ} (position : Position collector due s steps)
    (unhindered : Unhindered collector action) (stepped : step setup s action = some s') :
    Position collector due s' (steps + if isOwn collector action then 1 else 0) := by
  rcases collector_of_step unhindered stepped with
    ⟨same, other⟩ | ⟨draw, pc, rfl, success, current, rfl⟩
  · rw [other, if_neg Bool.false_ne_true, Nat.add_zero]
    cases position with
    | removing current split => exact .removing (same.trans current) split
    | marking current split => exact .marking (same.trans current) split
    | isOver none => exact .isOver (same.trans none)
  · rw [if_pos (by simp [isOwn])]
    have now (result : Database × Files × Option Collector) :
        (s.afterCollect collector result).collectors collector = result.2.2 :=
      Function.update_self ..
    cases position with
    | @removing done ids current' split =>
      obtain rfl := Option.some.inj (current.symm.trans current')
      cases ids with
      | nil =>
        rw [List.append_nil] at split
        rw [← split]
        exact .isOver (now _)
      | cons id ids =>
        rw [gcFailedRaw, if_pos success]
        exact .marking (now _) split
    | @marking done ids id current' split =>
      obtain rfl := Option.some.inj (current.symm.trans current')
      rw [gcFailedRaw, if_pos success]
      have split' : due = (done ++ [id]) ++ ids := by
        rw [split, List.append_assoc, List.singleton_append]
      have next := Position.removing
        (now (s.db.setRawDeletedAt id draw.now, s.raw, some (.remove ids))) split'
      rw [List.length_append, List.length_singleton, Nat.mul_add] at next
      exact next
    | isOver none =>
      rw [none] at current
      contradiction

theorem spares_of_position {steps : ℕ} (position : Position collector due s steps) {id : Text}
    (other : id ∉ due) : Spares setup collector id s action := by
  intro own s' stepped
  cases action with
  | collect collector' draw =>
    obtain rfl : collector' = collector := by simpa [isOwn] using own
    obtain ⟨pc, current, rfl⟩ := Option.map_eq_some_iff.mp stepped
    have move := gcFailedRaw_moves setup.retentionDays draw s.db s.raw pc
    generalize gcFailedRaw setup.retentionDays draw s.db s.raw pc = result at move
    cases move with
    | selected | ended | keptRaw | unmarked => exact ⟨rfl, rfl⟩
    | removed id' ids =>
      cases position with
      | removing current' split =>
        obtain ⟨⟩ := current.symm.trans current'
        refine ⟨rfl, Files.remove_of_ne ?_⟩
        rintro rfl
        exact other (by simp [split])
      | marking current' | isOver current' => cases current.symm.trans current'
    | marked id' ids success =>
      cases position with
      | marking current' split =>
        obtain ⟨⟩ := current.symm.trans current'
        refine ⟨?_, rfl⟩
        have different : id ≠ id' := by
          rintro rfl
          exact other (by simp [split])
        dsimp only [afterCollect]
        rw [Database.setRawDeletedAt, Table.find?_update_of_ne different]
      | removing current' | isOver current' => cases current.symm.trans current'
  | request | upload | abandon | start | work | stop | sweep | halt => contradiction

theorem turn_of_step {report : ReportRow} {unwritten unwritten' : Prop} {ts : Option ℤ}
    (turn : Turn collector report unwritten s)
    (found : s.db.reports.find? report.id = some { report with rawDeletedAt := ts })
    (failed : report.state = .failed) (settled : FailedSettled s report.id)
    (unhindered : Unhindered collector action) (stepped : step setup s action = some s')
    (writes : unwritten' → unwritten ∧ Unwritten report.id s action) :
    Turn collector report unwritten' s' := by
  have stays (gone : unwritten → s.raw report.id = none) (unwritten'' : unwritten') :
      s'.raw report.id = none :=
    raw_gone_of_step stepped (writes unwritten'').2 (gone (writes unwritten'').1)
  cases turn with
  | past marked gone =>
    obtain ⟨ts', found', still⟩ := failed_row_of_step stepped failed settled marked
    obtain ⟨ts', rfl⟩ := Option.isSome_iff_exists.mp (still rfl)
    exact .past found' (stays gone)
  | @ahead pc current left =>
    rcases collector_of_step unhindered stepped with
      ⟨same, -⟩ | ⟨draw, other, rfl, success, current', rfl⟩
    · exact .ahead (same.trans current) left
    · obtain rfl : other = pc := Option.some.inj (current'.symm.trans current)
      cases other with
      | select => simp [sweeping] at left
      | remove ids =>
        cases ids with
        | nil => simp [sweeping] at left
        | cons id ids =>
          rw [gcFailedRaw, if_pos success] at stays ⊢
          rcases List.mem_cons.mp left with rfl | later
          · exact .emptied (Function.update_self ..) fun _ => Files.remove_self
          · exact .ahead (Function.update_self ..) later
      | mark id ids =>
        rw [gcFailedRaw, if_pos success] at stays ⊢
        exact .ahead (Function.update_self ..) left
  | emptied current gone =>
    rcases collector_of_step unhindered stepped with
      ⟨same, -⟩ | ⟨draw, pc, rfl, success, current', rfl⟩
    · exact .emptied (same.trans current) (stays gone)
    · obtain rfl := Option.some.inj (current.symm.trans current')
      rw [gcFailedRaw, if_pos success] at stays ⊢
      refine .past (?_ : _ = some { report with rawDeletedAt := some draw.now }) (stays gone)
      dsimp only [afterCollect]
      rw [Database.setRawDeletedAt, Table.find?_update, found, Option.map_some, if_pos rfl]

end Sweep

/-! ## Whole sweeps -/

theorem failedSettled_of_run {setup : Setup} {s : Service} {actions : List Action}
    (reached : Machine.run (step setup) {} actions = some s) (id : Text) : FailedSettled s id := by
  have invariant := Machine.invariant_of_every_run (I := fun s => InOrder s ∧ FailedSettled s id)
    (fun s action s' invariant stepped =>
      ⟨inOrder_of_step invariant.1 stepped, failedSettled_of_step invariant.2 invariant.1 stepped⟩)
    ⟨.empty, fun _ none => by simp at none⟩ reached
  exact invariant.2

/-- What holds after the steps of the run since the sweep has selected the reports. -/
structure Sweep (setup : Setup) (collector : ℕ) (due : List ReportRow) (start : Service)
    (labels : List Action) (s : Service) : Prop where
  order : InOrder s
  settled : ∀ id, FailedSettled s id
  position : Position collector (due.map (·.id)) s (labels.countP (isOwn collector))
  rows : ∀ report ∈ due, ∃ ts,
    s.db.reports.find? report.id = some { report with rawDeletedAt := ts }
  turns : ∀ report ∈ due,
    Turn collector report (Machine.Meets (step setup) (Unwritten report.id) start labels) s
  spared : ∀ id ∉ due.map (·.id), Machine.Meets (step setup) (Spares setup collector id) start labels

theorem sweep_of_step {setup : Setup} {collector : ℕ} {due : List ReportRow}
    (failed : ∀ report ∈ due, report.state = .failed) {start s s' : Service} {labels : List Action}
    {action : Action} (reached : Machine.run (step setup) start labels = some s)
    (sweep : Sweep setup collector due start labels s) (unhindered : Unhindered collector action)
    (stepped : step setup s action = some s') :
    Sweep setup collector due start (labels ++ [action]) s' where
  order := inOrder_of_step sweep.order stepped
  settled id := failedSettled_of_step (sweep.settled id) sweep.order stepped
  position := by
    rw [List.countP_append, List.countP_singleton]
    exact position_of_step sweep.position unhindered stepped
  rows report member := by
    obtain ⟨ts, found⟩ := sweep.rows report member
    obtain ⟨ts', found', -⟩ :=
      failed_row_of_step stepped (failed report member) (sweep.settled report.id) found
    exact ⟨ts', found'⟩
  turns report member := by
    obtain ⟨ts, found⟩ := sweep.rows report member
    exact turn_of_step (sweep.turns report member) found (failed report member)
      (sweep.settled report.id) unhindered stepped (Machine.meets_snoc reached).mp
  spared id other :=
    (Machine.meets_snoc reached).mpr ⟨sweep.spared id other, spares_of_position sweep.position other⟩

theorem failedReports_eq (setup : Setup) (db : Database) (now : ℤ) :
    db.failedReports (now - setup.retentionDays * 86400) =
      (db.reports.rows.filter (IsDue setup now ·)).map (·.id) := by
  rw [Database.failedReports]
  refine congrArg _ (List.filter_congr fun report _ => ?_)
  rw [Bool.eq_iff_iff, decide_eq_true_eq, IsDue]
  simp [and_assoc]

/-- Whatever happens between the steps of a sweep that nothing hinders: it is over exactly when it has
taken two steps for each report that was due and one more, then every one of these is marked and its
payload is gone unless an upload has written it again, and no step has touched another report. -/
theorem sweep_complete_of_run (setup : Setup) {before actions : List Action} {s s' t : Service}
    {collector : ℕ} {draw : Decode.Draw} (reached : Machine.run (step setup) {} before = some s)
    (selecting : s.collectors collector = some .select) (success : draw.success = true)
    (selected : step setup s (.collect collector draw) = some s')
    (swept : Machine.run (step setup) s' actions = some t)
    (unhindered : ∀ action ∈ actions, Unhindered collector action) :
    (t.collectors collector = none ↔
        actions.countP (isOwn collector) =
          2 * s.db.reports.rows.countP (IsDue setup draw.now) + 1) ∧
      (t.collectors collector = none → ∀ report ∈ s.db.reports.rows, IsDue setup draw.now report →
        ∃ ts, { report with rawDeletedAt := some ts } ∈ t.db.reports.rows ∧
          (Machine.Meets (step setup) (Unwritten report.id) s' actions →
            t.raw report.id = none)) ∧
      ∀ id, (∀ report ∈ s.db.reports.rows, IsDue setup draw.now report → report.id ≠ id) →
        Machine.Meets (step setup) (Spares setup collector id) s' actions := by
  set due := s.db.reports.rows.filter (IsDue setup draw.now ·) with due_eq
  have mem_due (report : ReportRow) :
      report ∈ due ↔ report ∈ s.db.reports.rows ∧ IsDue setup draw.now report := by
    simp [due_eq]
  have reached' : Machine.run (step setup) {} (before ++ [.collect collector draw]) = some s' :=
    Machine.run_snoc.mpr ⟨s, reached, selected⟩
  rw [step, selecting, Option.map_some, gcFailedRaw, if_pos success, failedReports_eq, ← due_eq,
    Option.some.injEq] at selected
  have start : Sweep setup collector due s' [] s' :=
    { order := inOrder_of_run .empty reached'
      settled := fun id => failedSettled_of_run reached' id
      position := by
        rw [← selected]
        exact .removing (Function.update_self ..) (List.nil_append _).symm
      rows := fun report member => by
        obtain ⟨inRows, -, unmarked, -⟩ := (mem_due report).mp member
        rw [← selected]
        exact ⟨none, Table.find?_eq_some_iff.mpr ⟨unmarked ▸ inRows, rfl⟩⟩
      turns := fun report member => by
        rw [← selected]
        exact .ahead (Function.update_self ..) (List.mem_map_of_mem member)
      spared := fun _ _ => trivial }
  have sweep : Sweep setup collector due s' actions t :=
    Machine.history_of_run start
      (fun before s action s' reached sweep unhindered stepped =>
        sweep_of_step (fun report member => ((mem_due report).mp member).2.1) reached sweep
          unhindered stepped)
      (Machine.meets_of_forall fun action member _ => unhindered action member) swept
  rw [List.countP_eq_length_filter (p := (IsDue setup draw.now ·)), ← due_eq]
  refine ⟨?_, fun isOver report inRows dueNow => ?_, fun id other => sweep.spared id ?_⟩
  · have position := sweep.position
    generalize actions.countP (isOwn collector) = steps at position
    cases position with
    | removing current split | marking current split =>
      have lengths := congrArg List.length split
      simp only [List.length_map, List.length_append, List.length_cons] at lengths
      refine iff_of_false (by simp [current]) ?_
      omega
    | isOver none => simp [none]
  · have member := (mem_due report).mpr ⟨inRows, dueNow⟩
    cases sweep.turns report member with
    | ahead current | emptied current =>
      rw [isOver] at current
      contradiction
    | @past ts marked gone => exact ⟨ts, (Table.find?_eq_some_iff.mp marked).1, gone⟩
  · rintro isMember
    obtain ⟨report, member, rfl⟩ := List.mem_map.mp isMember
    obtain ⟨inRows, dueNow⟩ := (mem_due report).mp member
    exact other report inRows dueNow rfl

instance (collector : ℕ) : ∀ action, Decidable (Unhindered collector action)
  | .collect other draw => inferInstanceAs (Decidable (other = collector → draw.success = true))
  | .sweep other | .halt other => inferInstanceAs (Decidable (other ≠ collector))
  | .request _ _ _ | .upload _ _ | .abandon _ | .start _ | .work _ _ | .stop _ =>
    inferInstanceAs (Decidable True)

/-- A report has failed, and a sweep is about to select. -/
def demoFailed : List Action :=
  demoUpload 0 ++ [.start 0] ++ demoFailure 0 ++ demoFailure 0 ++ demoFailure 0 ++
    [.work 0 {}, .sweep 0]

/-- Between the first two steps of the sweep another report is uploaded. -/
def demoSweep : List Action :=
  .collect 0 {} :: demoReport 1 "u2".toList "j2".toList ++ [.collect 0 {}, .collect 0 {}]

theorem demoSweep_complete :
    ∃ s s' t, Machine.run (step demoSetup) {} demoFailed = some s ∧
      step demoSetup s (.collect 0 { now := 15 * 86400 }) = some s' ∧
      Machine.run (step demoSetup) s' demoSweep = some t ∧
      s.db.reports.rows.map (·.id) = ["u1".toList] ∧ t.collectors 0 = none ∧
      ∀ report ∈ s.db.reports.rows,
        ∃ ts, { report with rawDeletedAt := some ts } ∈ t.db.reports.rows ∧
          t.raw report.id = none := by
  have facts : (Machine.run (step demoSetup) {} demoFailed).any (fun s =>
      s.db.reports.rows.map (·.id) = ["u1".toList] &&
        s.db.reports.rows.all (IsDue demoSetup (15 * 86400) ·) &&
        s.collectors 0 = some .select &&
        (step demoSetup s (.collect 0 { now := 15 * 86400 })).any fun s' =>
          (Machine.run (step demoSetup) s' demoSweep).isSome &&
            decide (Machine.Meets (step demoSetup) (Unwritten "u1".toList) s' demoSweep)) = true := by
    decide +kernel
  obtain ⟨s, reached, holds⟩ := (Option.any_eq_true _ _).mp facts
  simp only [Bool.and_eq_true, decide_eq_true_eq, List.all_eq_true] at holds
  obtain ⟨⟨⟨ids, due⟩, selecting⟩, next⟩ := holds
  obtain ⟨s', selected, holds⟩ := (Option.any_eq_true _ _).mp next
  simp only [Bool.and_eq_true, decide_eq_true_eq] at holds
  obtain ⟨there, unwritten⟩ := holds
  obtain ⟨t, swept⟩ := Option.isSome_iff_exists.mp there
  obtain ⟨over_iff, marked, -⟩ :=
    sweep_complete_of_run demoSetup reached selecting rfl selected swept (by decide)
  have one : s.db.reports.rows.countP (IsDue demoSetup (15 * 86400)) = 1 := by
    rw [List.countP_eq_length.mpr (by simpa using due)]
    simpa using congrArg List.length ids
  have isOver : t.collectors 0 = none := over_iff.mpr (by rw [one]; decide)
  refine ⟨s, s', t, reached, selected, swept, ids, isOver, fun report member => ?_⟩
  obtain ⟨ts, inRows, gone⟩ := marked isOver report member (due report member)
  have same : report.id = "u1".toList := by
    simpa [ids] using List.mem_map_of_mem (f := (·.id)) member
  exact ⟨ts, inRows, gone (same ▸ unwritten)⟩

end UcrashReport.Service
