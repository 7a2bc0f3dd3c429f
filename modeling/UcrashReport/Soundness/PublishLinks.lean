import UcrashReport.Machine.Linearizable
import UcrashReport.Server.Visibility
import UcrashReport.Soundness.ReportRows

/-! # Publish links

The owner of a report and the developers set its visibility while the service runs. A call reads the
slug in one statement and writes it in another, so a call that makes the report public can write back
a slug that another call has removed or replaced in between. As long as the slug in the row is still
the one that was read, the calls take effect one after another, at their last statement.
-/

namespace UcrashReport

open Rust Rust.Text Store Api Linearizable

/-! ## The calls beside the service -/

inductive Caller
  | absent
  | running (next : SetVisibility)
  | ended (reportId : Text)
deriving DecidableEq

/-- The service with its calls of `set_visibility`, the slugs that were drawn, and what the callers
see of the report that is watched. -/
structure Links where
  service : Service := {}
  callers : ℕ → Caller := fun _ => .absent
  drawn : List Text := []
  history : List (Event Bool VisibilityAnswer) := []

namespace Links

inductive Action
  | serve (action : Service.Action)
  | call (call : ℕ) (reportId : Text) (isPublic : Bool)
  | statement (call : ℕ) (success : Bool) (secret : Text)
  | answer (call : ℕ)

/-- The slugs after a statement: only a report that has none gets a new one. -/
def noteDrawn (drawn : List Text) (secret : Text) : SetVisibility → List Text
  | .write _ true none => secret.take 16 :: drawn
  | _ => drawn

def noteEvent (watched reportId : Text) (history : List (Event Bool VisibilityAnswer))
    (event : Event Bool VisibilityAnswer) : List (Event Bool VisibilityAnswer) :=
  if reportId = watched then history ++ [event] else history

def step (setup : Setup) (watched : Text) (l : Links) : Action → Option Links
  | .serve action => (Service.step setup l.service action).map fun service => { l with service }
  | .call call reportId isPublic =>
    match l.callers call with
    | .absent =>
      some { l with
        callers := Function.update l.callers call (.running (.read reportId isPublic))
        history := noteEvent watched reportId l.history (.invoke call isPublic) }
    | _ => none
  | .statement call success secret =>
    match l.callers call with
    | .absent | .ended _ | .running (.answered _ _ _) => none
    | .running next =>
      let (db, after) := setVisibilityStep success secret l.service.db next
      some { l with
        service := { l.service with db }
        callers := Function.update l.callers call (.running after)
        drawn := noteDrawn l.drawn secret next }
  | .answer call =>
    match l.callers call with
    | .running (.answered reportId _ answer) =>
      some { l with
        callers := Function.update l.callers call (.ended reportId)
        history := noteEvent watched reportId l.history (.respond call answer) }
    | _ => none

/-! ## The steps told apart -/

/-- What a statement of a call does to the database, and the answer when it is the last one. -/
inductive StatementMove (success : Bool) (secret : Text) (db : Database) :
    SetVisibility → Database × SetVisibility → Prop
  | failed {next : SetVisibility} {reportId : Text} {isPublic : Bool}
      (same : next = .read reportId isPublic ∨ ∃ slug, next = .write reportId isPublic slug) :
      StatementMove success secret db next (db, .answered reportId isPublic (.error {}))
  | missing {reportId : Text} {isPublic : Bool} (absent : db.reports.find? reportId = none) :
      StatementMove success secret db (.read reportId isPublic)
        (db, .answered reportId isPublic (.ok none))
  | read {reportId : Text} {isPublic : Bool} {row : ReportRow}
      (found : db.reports.find? reportId = some row) :
      StatementMove success secret db (.read reportId isPublic)
        (db, .write reportId isPublic row.publishSlug)
  | published {reportId : Text} {slug : Option Text} {db' : Database}
      (published : db.setPublic reportId (slugOf secret slug) = some db') :
      StatementMove success secret db (.write reportId true slug)
        (db', .answered reportId true (.ok (some (some (slugOf secret slug)))))
  | cleared (reportId : Text) (slug : Option Text) :
      StatementMove success secret db (.write reportId false slug)
        (db.setPrivate reportId, .answered reportId false (.ok (some none)))

theorem statement_moves (success : Bool) (secret : Text) (db : Database) {next : SetVisibility}
    (unanswered : ∀ reportId isPublic answer, next ≠ .answered reportId isPublic answer) :
    StatementMove success secret db next (setVisibilityStep success secret db next) := by
  cases next with
  | read reportId isPublic =>
    rw [setVisibilityStep, readSlug]
    cases success with
    | false => exact .failed (.inl rfl)
    | true =>
      cases found : db.reports.find? reportId with
      | none => exact .missing found
      | some row => exact .read found
  | write reportId isPublic slug =>
    rw [setVisibilityStep, writeVisibility]
    cases success with
    | false => exact .failed (.inr ⟨slug, rfl⟩)
    | true =>
      cases isPublic with
      | false => exact .cleared reportId slug
      | true =>
        simp only [if_true]
        cases published : db.setPublic reportId (slugOf secret slug) with
        | none => exact .failed (.inr ⟨slug, rfl⟩)
        | some db' => exact .published published
  | answered reportId isPublic answer => exact absurd rfl (unanswered reportId isPublic answer)

inductive Move (setup : Setup) (watched : Text) (l : Links) : Action → Links → Prop
  | served {action : Service.Action} {service : Service}
      (stepped : Service.step setup l.service action = some service) :
      Move setup watched l (.serve action) { l with service }
  | called {call : ℕ} (reportId : Text) (isPublic : Bool) (absent : l.callers call = .absent) :
      Move setup watched l (.call call reportId isPublic)
        { l with
          callers := Function.update l.callers call (.running (.read reportId isPublic))
          history := noteEvent watched reportId l.history (.invoke call isPublic) }
  | stated {call : ℕ} {success : Bool} {secret : Text} {next : SetVisibility}
      {result : Database × SetVisibility} (current : l.callers call = .running next)
      (move : StatementMove success secret l.service.db next result) :
      Move setup watched l (.statement call success secret)
        { l with
          service := { l.service with db := result.1 }
          callers := Function.update l.callers call (.running result.2)
          drawn := noteDrawn l.drawn secret next }
  | answered {call : ℕ} {reportId : Text} {isPublic : Bool} {answer : VisibilityAnswer}
      (current : l.callers call = .running (.answered reportId isPublic answer)) :
      Move setup watched l (.answer call)
        { l with
          callers := Function.update l.callers call (.ended reportId)
          history := noteEvent watched reportId l.history (.respond call answer) }

theorem move_of_step {setup : Setup} {watched : Text} {l l' : Links} {action : Action}
    (stepped : step setup watched l action = some l') : Move setup watched l action l' := by
  cases action with
  | serve action =>
    obtain ⟨service, served, rfl⟩ := Option.map_eq_some_iff.mp stepped
    exact .served served
  | call call reportId isPublic =>
    rw [step] at stepped
    cases current : l.callers call with
    | absent =>
      rw [current, Option.some.injEq] at stepped
      exact stepped ▸ .called reportId isPublic current
    | running | ended => simp [current] at stepped
  | statement call success secret =>
    rw [step] at stepped
    cases current : l.callers call with
    | absent | ended => simp [current] at stepped
    | running next =>
      rw [current] at stepped
      cases next with
      | answered => contradiction
      | read | write =>
        rw [Option.some.injEq] at stepped
        exact stepped ▸ .stated current (statement_moves success secret l.service.db (by simp))
  | answer call =>
    rw [step] at stepped
    cases current : l.callers call with
    | absent | ended => simp [current] at stepped
    | running next =>
      rw [current] at stepped
      cases next with
      | read | write => contradiction
      | answered reportId isPublic answer =>
        rw [Option.some.injEq] at stepped
        exact stepped ▸ .answered current

/-! ## A report as an object of its own -/

/-- A report to those who set its visibility, with the slugs that it had before. -/
structure Link where
  visibility : Visibility
  slug : Option Text
  former : List Text

/-- Setting the visibility in one step. A call that fails changes nothing. -/
inductive Applies : Link → Bool → VisibilityAnswer → Link → Prop
  | kept {link : Link} {slug : Text} (current : link.slug = some slug) :
      Applies link true (.ok (some (some slug))) { link with visibility := .«public» }
  | drawn {link : Link} {slug : Text} (unpublished : link.slug = none) (fresh : slug ∉ link.former) :
      Applies link true (.ok (some (some slug)))
        { link with visibility := .«public», slug := some slug }
  | cleared (link : Link) :
      Applies link false (.ok (some none)) ⟨.«private», none, link.slug.toList ++ link.former⟩
  | failed (link : Link) (isPublic : Bool) : Applies link isPublic (.error {}) link

/-- A slug that was returned serves the report until it is made private. -/
theorem serves_of_sequential {start final : Link} {before after : List (Entry Bool VisibilityAnswer)}
    {entry : Entry Bool VisibilityAnswer} {slug : Text}
    (run : Sequential Applies start (before ++ entry :: after) final)
    (published : entry.result = .ok (some (some slug)))
    (kept : ∀ later ∈ after, later.result ≠ .ok (some none)) :
    final.slug = some slug ∧ final.visibility = .«public» := by
  obtain ⟨mid, -, next, applied, rest⟩ := sequential_append.mp run
  refine rest.invariant (I := fun link => link.slug = some slug ∧ link.visibility = .«public») ?_ ?_
  · rintro later member link link' ⟨serves, visible⟩ applied
    generalize result_eq : later.result = result at applied
    generalize later.op = op at applied
    cases applied with
    | kept => exact ⟨serves, rfl⟩
    | drawn unpublished =>
      rw [serves] at unpublished
      contradiction
    | cleared => exact absurd result_eq (kept later member)
    | failed => exact ⟨serves, visible⟩
  · rw [published] at applied
    generalize entry.op = op at applied
    cases applied with
    | kept current => exact ⟨current, rfl⟩
    | drawn => exact ⟨rfl, rfl⟩

/-- A slug that the report had when it was made private is a former one for ever. -/
theorem former_of_sequential {start final : Link} {before after : List (Entry Bool VisibilityAnswer)}
    {entry : Entry Bool VisibilityAnswer} {slug : Text}
    (run : Sequential Applies start (before ++ entry :: after) final)
    (had : start.slug = some slug ∨ ∃ earlier ∈ before, earlier.result = .ok (some (some slug)))
    (cleared : entry.result = .ok (some none)) : slug ∈ final.former := by
  obtain ⟨mid, first, next, applied, rest⟩ := sequential_append.mp run
  -- Once the report has had the slug, it has it or had it before.
  have keeps {order : List (Entry Bool VisibilityAnswer)} {s t : Link}
      (run : Sequential Applies s order t) (has : s.slug = some slug ∨ slug ∈ s.former) :
      t.slug = some slug ∨ slug ∈ t.former := by
    refine run.invariant (I := fun link => link.slug = some slug ∨ slug ∈ link.former) ?_ has
    intro later _ link link' has applied
    generalize later.result = result at applied
    generalize later.op = op at applied
    cases applied with
    | kept | failed => exact has
    | drawn unpublished => exact .inr (has.resolve_left (by simp [unpublished]))
    | cleared => exact .inr (by simpa [eq_comm] using has)
  have hadIt : mid.slug = some slug ∨ slug ∈ mid.former := by
    rcases had with start | ⟨earlier, member, returned⟩
    · exact keeps first (.inl start)
    · obtain ⟨left, right, rfl⟩ := List.append_of_mem member
      obtain ⟨link, -, link', applied', rest'⟩ := sequential_append.mp first
      refine keeps rest' (.inl ?_)
      rw [returned] at applied'
      generalize earlier.op = op at applied'
      cases applied' with
      | kept current => exact current
      | drawn => rfl
  have removed : slug ∈ next.former := by
    rw [cleared] at applied
    generalize entry.op = op at applied
    cases applied with
    | cleared => simpa [eq_comm] using hadIt
  refine rest.invariant (I := fun link => slug ∈ link.former) ?_ removed
  intro later _ link link' has applied
  generalize later.result = result at applied
  generalize later.op = op at applied
  cases applied with
  | kept | failed | drawn => exact has
  | cleared => exact List.mem_append_right _ has

/-! ## Where a run stays linear -/

/-- The slug of the row is still the one that the call has read, and a new one was never drawn
before. -/
def CurrentWrite (db : Database) (drawn : List Text) (secret : Text) : Caller → Prop
  | .running (.write reportId true read) =>
    (∀ row ∈ db.reports.find? reportId, row.publishSlug = read) ∧
      (read = none → secret.take 16 ∉ drawn)
  | _ => True

/-- Every call that makes a report public writes the slug that is still there, or a fresh one. -/
def Current (l : Links) : Action → Prop
  | .statement call _ secret => CurrentWrite l.service.db l.drawn secret (l.callers call)
  | _ => True

instance (db : Database) (drawn : List Text) (secret : Text) :
    ∀ caller, Decidable (CurrentWrite db drawn secret caller)
  | .running (.write reportId true read) =>
    inferInstanceAs (Decidable ((∀ row ∈ db.reports.find? reportId, row.publishSlug = read) ∧
      (read = none → secret.take 16 ∉ drawn)))
  | .running (.write _ false _) | .running (.read _ _) | .running (.answered _ _ _) | .absent
  | .ended _ => inferInstanceAs (Decidable True)

instance (l : Links) : ∀ action, Decidable (Current l action)
  | .statement call _ secret =>
    inferInstanceAs (Decidable (CurrentWrite l.service.db l.drawn secret (l.callers call)))
  | .serve _ | .call _ _ _ | .answer _ => inferInstanceAs (Decidable True)

def phaseOf (watched : Text) : Caller → Phase Bool VisibilityAnswer
  | .absent => .idle
  | .running (.read reportId isPublic) | .running (.write reportId isPublic _) =>
    if reportId = watched then .invoked isPublic else .idle
  | .running (.answered reportId isPublic answer) =>
    if reportId = watched then .effective isPublic answer else .idle
  | .ended reportId => if reportId = watched then .answered else .idle

/-- The row shows the state of the object, and no report has a former slug of it. -/
def Shows (db : Database) (drawn : List Text) (watched : Text) (link : Link) : Prop :=
  (∃ report, db.reports.find? watched = some report ∧ report.visibility = link.visibility ∧
    report.publishSlug = link.slug) ∧
  ∀ slug ∈ link.former, slug ∈ drawn ∧ ∀ id, db.slug id ≠ some slug

structure Explained (watched : Text) (start : Link) (l : Links) : Prop where
  distinct : l.service.db.SlugsDistinct
  drawn : ∀ id slug, l.service.db.slug id = some slug → slug ∈ l.drawn
  linear : ∃ order final,
    Observed Applies start (fun call => phaseOf watched (l.callers call)) l.history order final ∧
      Shows l.service.db l.drawn watched final

/-! ## Steps -/

/-- The service neither publishes a report nor takes its slug away. -/
theorem row_of_service_step {setup : Setup} {s s' : Service} {action : Service.Action}
    (stepped : Service.step setup s action = some s') {id : Text} {report : ReportRow}
    (found : s.db.reports.find? id = some report) :
    ∃ report', s'.db.reports.find? id = some report' ∧ report'.visibility = report.visibility ∧
      report'.publishSlug = report.publishSlug := by
  obtain ⟨-, rfl⟩ := Table.find?_eq_some_iff.mp found
  obtain ⟨report', found', moved⟩ := Service.reportStep_of_step stepped found
  refine ⟨report', found', ?_⟩
  cases moved <;> exact ⟨rfl, rfl⟩

theorem slug_of_service_step {setup : Setup} {s s' : Service} {action : Service.Action}
    (stepped : Service.step setup s action = some s') : s'.db.slug = s.db.slug := by
  funext id
  cases found : s.db.reports.find? id with
  | some report =>
    obtain ⟨report', found', -, same⟩ := row_of_service_step stepped found
    rw [Database.slug, Database.slug, found, found', Option.bind_some, Option.bind_some, same]
  | none =>
    rw [Database.slug, Database.slug, found, Option.bind_none]
    cases found' : s'.db.reports.find? id with
    | none => rfl
    | some report' =>
      obtain ⟨call, draw, metadata, deviceId, -, -, rfl, -⟩ :=
        Service.new_report_of_step stepped found found'
      rfl

theorem phases_update (watched : Text) (callers : ℕ → Caller) (call : ℕ) (next : Caller) :
    (fun other => phaseOf watched (Function.update callers call next other)) =
      Function.update (fun other => phaseOf watched (callers other)) call
        (phaseOf watched next) := by
  funext other
  rcases eq_or_ne other call with rfl | different
  · rw [Function.update_self, Function.update_self]
  · rw [Function.update_of_ne different, Function.update_of_ne different]

/-- The phase of a call on another report does not change. -/
theorem phases_update_self (watched : Text) (callers : ℕ → Caller) {call : ℕ} {next : Caller}
    (same : phaseOf watched next = phaseOf watched (callers call)) :
    (fun other => phaseOf watched (Function.update callers call next other)) =
      fun other => phaseOf watched (callers other) := by
  rw [phases_update, same]
  exact Function.update_eq_self call _

theorem subset_noteDrawn (drawn : List Text) (secret : Text) (next : SetVisibility) :
    drawn ⊆ noteDrawn drawn secret next := by
  rcases next with _ | ⟨_, _ | _, _ | _⟩ | _ <;> simp [noteDrawn]

/-- What making a report public does to the slugs: nothing, or the report gets one that was never
drawn before. -/
theorem slugs_of_publish {db db' : Database} {drawn : List Text} {secret reportId : Text}
    {read : Option Text}
    (current : CurrentWrite db drawn secret (.running (.write reportId true read)))
    (published : db.setPublic reportId (slugOf secret read) = some db') :
    db'.slug = db.slug ∨
      read = none ∧ db.slug reportId = none ∧ secret.take 16 ∉ drawn ∧
        db'.slug = Function.update db.slug reportId (some (secret.take 16)) := by
  cases found : db.reports.find? reportId with
  | none => exact .inl (Database.slug_setPublic_of_absent published found)
  | some row =>
    have has : db.slug reportId = read := by
      rw [Database.slug, found, Option.bind_some]
      exact current.1 row found
    have slugs := Database.slug_setPublic published (Option.isSome_of_eq_some found)
    cases read with
    | some slug =>
      left
      rw [slugs, slugOf, Option.getD_some, ← has]
      exact Function.update_eq_self ..
    | none => exact .inr ⟨rfl, has, current.2 rfl, slugs⟩

/-- A slug that a report has after a statement it had before, unless the statement gives it a slug that
was never drawn before. -/
theorem slug_before_statement {success : Bool} {secret : Text} {db : Database} {drawn : List Text}
    {next : SetVisibility} {result : Database × SetVisibility}
    (current : CurrentWrite db drawn secret (.running next))
    (move : StatementMove success secret db next result) {id slug : Text}
    (has : result.1.slug id = some slug) :
    db.slug id = some slug ∨ slug ∉ drawn ∧ slug ∈ noteDrawn drawn secret next := by
  cases move with
  | failed | missing | read => exact .inl has
  | published published =>
    rcases slugs_of_publish current published with same | ⟨rfl, -, fresh, slugs⟩
    · exact .inl (same ▸ has)
    · dsimp only at has
      rw [slugs, Function.update_apply] at has
      split_ifs at has
      · rw [← Option.some.inj has]
        exact .inr ⟨fresh, List.mem_cons_self⟩
      · exact .inl has
  | cleared =>
    dsimp only at has
    rw [Database.slug_setPrivate, Function.update_apply] at has
    split_ifs at has
    exact .inl has

theorem distinct_of_publish {db db' : Database} {reportId text : Text}
    (distinct : db.SlugsDistinct) (published : db.setPublic reportId text = some db') :
    db'.SlugsDistinct := by
  cases found : db.reports.find? reportId with
  | none => exact distinct.of_slug (Database.slug_setPublic_of_absent published found)
  | some row => exact distinct.setPublic published (Option.isSome_of_eq_some found)

theorem distinct_of_statement {success : Bool} {secret : Text} {db : Database} {next : SetVisibility}
    {result : Database × SetVisibility} (distinct : db.SlugsDistinct)
    (move : StatementMove success secret db next result) : result.1.SlugsDistinct := by
  cases move with
  | failed | missing | read => exact distinct
  | published published => exact distinct_of_publish distinct published
  | cleared => exact distinct.setPrivate _

/-- The report of a call. -/
def reportOf : SetVisibility → Text
  | .read reportId _ | .write reportId _ _ | .answered reportId _ _ => reportId

theorem row_of_statement {success : Bool} {secret : Text} {db : Database} {next : SetVisibility}
    {result : Database × SetVisibility} (move : StatementMove success secret db next result)
    {id : Text} (other : reportOf next ≠ id) :
    result.1.reports.find? id = db.reports.find? id := by
  cases move with
  | failed | missing | read => rfl
  | published published =>
    dsimp only
    rw [Database.find?_setPublic published]
    cases found : db.reports.find? id with
    | none => rfl
    | some row =>
      rw [Option.map_some, if_neg]
      exact fun same => other (same.symm.trans (Table.find?_eq_some_iff.mp found).2)
  | cleared =>
    dsimp only
    rw [Database.find?_setPrivate]
    cases found : db.reports.find? id with
    | none => rfl
    | some row =>
      rw [Option.map_some, if_neg]
      exact fun same => other (same.symm.trans (Table.find?_eq_some_iff.mp found).2)

theorem Shows.of_statement {success : Bool} {secret : Text} {db : Database} {drawn : List Text}
    {next : SetVisibility} {result : Database × SetVisibility} {watched : Text} {link : Link}
    (shows : Shows db drawn watched link) (current : CurrentWrite db drawn secret (.running next))
    (move : StatementMove success secret db next result) :
    ∀ slug ∈ link.former, slug ∈ noteDrawn drawn secret next ∧
      ∀ id, result.1.slug id ≠ some slug := by
  intro slug member
  obtain ⟨known, gone⟩ := shows.2 slug member
  refine ⟨subset_noteDrawn drawn secret next known, fun id has => ?_⟩
  rcases slug_before_statement current move has with before | ⟨fresh, -⟩
  · exact gone id before
  · exact fresh known

section Steps

variable {setup : Setup} {watched : Text} {start : Link} {l : Links}
  (explained : Explained watched start l)

include explained

theorem Explained.served {action : Service.Action} {service : Service}
    (stepped : Service.step setup l.service action = some service) :
    Explained watched start { l with service } := by
  have slugs := slug_of_service_step stepped
  obtain ⟨order, final, observed, ⟨report, found, visibility, slug⟩, former⟩ := explained.linear
  obtain ⟨report', found', sameVisibility, sameSlug⟩ := row_of_service_step stepped found
  refine ⟨explained.distinct.of_slug slugs, ?_, order, final, observed, ?_, ?_⟩
  · exact fun id slug has => explained.drawn id slug (slugs ▸ has)
  · exact ⟨report', found', sameVisibility.trans visibility, sameSlug.trans slug⟩
  · intro slug member
    rw [slugs]
    exact former slug member

theorem Explained.called {call : ℕ} (reportId : Text) (isPublic : Bool)
    (absent : l.callers call = .absent) :
    Explained watched start { l with
      callers := Function.update l.callers call (.running (.read reportId isPublic))
      history := noteEvent watched reportId l.history (.invoke call isPublic) } := by
  obtain ⟨order, final, observed, shows⟩ := explained.linear
  refine ⟨explained.distinct, explained.drawn, order, final, ?_, shows⟩
  dsimp only
  rw [noteEvent]
  split_ifs with same
  · rw [phases_update, phaseOf, if_pos same]
    exact observed.invoke (by rw [absent, phaseOf]) isPublic
  · rw [phases_update_self _ _ (by rw [absent, phaseOf, phaseOf, if_neg same])]
    exact observed

theorem Explained.answered {call : ℕ} {reportId : Text} {isPublic : Bool}
    {answer : VisibilityAnswer}
    (current : l.callers call = .running (.answered reportId isPublic answer)) :
    Explained watched start { l with
      callers := Function.update l.callers call (.ended reportId)
      history := noteEvent watched reportId l.history (.respond call answer) } := by
  obtain ⟨order, final, observed, shows⟩ := explained.linear
  refine ⟨explained.distinct, explained.drawn, order, final, ?_, shows⟩
  dsimp only
  rw [noteEvent]
  split_ifs with same
  · rw [phases_update, phaseOf, if_pos same]
    exact observed.respond (by rw [current, phaseOf, if_pos same])
  · rw [phases_update_self _ _ (by rw [current, phaseOf, phaseOf, if_neg same, if_neg same])]
    exact observed

/-- A statement on the report takes effect as one step of the object, unless it only reads. -/
theorem applies_of_statement {success : Bool} {secret : Text} {next : SetVisibility}
    {result : Database × SetVisibility} {final : Link} (same : reportOf next = watched)
    (shows : Shows l.service.db l.drawn watched final)
    (current : CurrentWrite l.service.db l.drawn secret (.running next))
    (move : StatementMove success secret l.service.db next result) :
    phaseOf watched (.running result.2) = phaseOf watched (.running next) ∧
        Shows result.1 (noteDrawn l.drawn secret next) watched final ∨
      ∃ isPublic answer final', phaseOf watched (.running next) = .invoked isPublic ∧
        phaseOf watched (.running result.2) = .effective isPublic answer ∧
        Applies final isPublic answer final' ∧
        Shows result.1 (noteDrawn l.drawn secret next) watched final' := by
  have former := shows.of_statement current move
  obtain ⟨⟨report, found, visibility, slug⟩, gone⟩ := shows
  have sameId := (Table.find?_eq_some_iff.mp found).2
  subst same
  cases move with
  | @failed next reportId isPublic same =>
    refine .inr ⟨isPublic, .error {}, final, ?_, ?_, .failed final isPublic,
      ⟨report, found, visibility, slug⟩, former⟩
    · rcases same with rfl | ⟨slug, rfl⟩ <;> simp [phaseOf, reportOf]
    · rcases same with rfl | ⟨slug, rfl⟩ <;> simp [phaseOf, reportOf]
  | missing absent =>
    rw [reportOf, absent] at found
    contradiction
  | read => exact .inl ⟨by simp [phaseOf, reportOf], ⟨report, found, visibility, slug⟩, former⟩
  | @published reportId read db' published =>
    have has : final.slug = read := slug.symm.trans (current.1 report found)
    have found' := Database.find?_setPublic published reportId
    rw [reportOf] at found sameId
    rw [found, Option.map_some, if_pos sameId] at found'
    have phases : phaseOf reportId (.running (.write reportId true read)) = .invoked true := by
      simp [phaseOf]
    cases read with
    | some text =>
      exact .inr ⟨true, _, { final with visibility := .«public» }, phases,
        by simp [phaseOf, reportOf, slugOf], .kept has, ⟨_, found', rfl, has.symm⟩, former⟩
    | none =>
      refine .inr ⟨true, _, { final with visibility := .«public», slug := some (secret.take 16) },
        phases, by simp [phaseOf, reportOf, slugOf], .drawn has ?_, ⟨_, found', rfl, rfl⟩, former⟩
      exact fun member => current.2 rfl (gone _ member).1
  | cleared reportId read =>
    have found' := Database.find?_setPrivate l.service.db reportId reportId
    rw [reportOf] at found sameId
    rw [found, Option.map_some, if_pos sameId] at found'
    refine .inr ⟨false, _, ⟨.«private», none, final.slug.toList ++ final.former⟩,
      by simp [phaseOf, reportOf], by simp [phaseOf, reportOf], .cleared final, ⟨_, found', rfl, rfl⟩, fun old member => ?_⟩
    rcases List.mem_append.mp member with now | before
    · rw [Option.mem_toList] at now
      have had : l.service.db.slug reportId = some old := by
        rw [Database.slug, found, Option.bind_some, slug, now]
      refine ⟨explained.drawn reportId old had, fun id has => ?_⟩
      rw [Database.slug_setPrivate, Function.update_apply] at has
      split_ifs at has with different
      exact different (explained.distinct id reportId old has had)
    · exact former old before

theorem Explained.stated {call : ℕ} {success : Bool} {secret : Text} {next : SetVisibility}
    {result : Database × SetVisibility} (running : l.callers call = .running next)
    (current : CurrentWrite l.service.db l.drawn secret (.running next))
    (move : StatementMove success secret l.service.db next result) :
    Explained watched start { l with
      service := { l.service with db := result.1 }
      callers := Function.update l.callers call (.running result.2)
      drawn := noteDrawn l.drawn secret next } where
  distinct := distinct_of_statement explained.distinct move
  drawn id slug has := by
    rcases slug_before_statement current move has with before | ⟨-, drawn⟩
    · exact subset_noteDrawn l.drawn secret next (explained.drawn id slug before)
    · exact drawn
  linear := by
    obtain ⟨order, final, observed, shows⟩ := explained.linear
    dsimp only
    by_cases same : reportOf next = watched
    · rcases applies_of_statement explained same shows current move with
        ⟨phase, shows'⟩ | ⟨isPublic, answer, final', invoked, effective, applies, shows'⟩
      · rw [phases_update_self _ _ (by rw [running, phase])]
        exact ⟨order, final, observed, shows'⟩
      · rw [phases_update, effective]
        exact ⟨_, final', observed.effect (by rw [running, invoked]) applies, shows'⟩
    · have phase : phaseOf watched (.running result.2) = phaseOf watched (.running next) := by
        cases move with
        | failed read => rcases read with rfl | ⟨slug, rfl⟩ <;> simp_all [phaseOf, reportOf]
        | missing | read | published | cleared => simp_all [phaseOf, reportOf]
      rw [phases_update_self _ _ (by rw [running, phase])]
      refine ⟨order, final, observed, ?_, shows.of_statement current move⟩
      rw [row_of_statement move same]
      exact shows.1

end Steps

theorem explained_of_step {setup : Setup} {watched : Text} {start : Link} {l l' : Links}
    {action : Action} (explained : Explained watched start l) (current : Current l action)
    (stepped : step setup watched l action = some l') : Explained watched start l' := by
  cases move_of_step stepped with
  | served served => exact explained.served served
  | called reportId isPublic absent => exact explained.called reportId isPublic absent
  | stated running move =>
    rw [Current, running] at current
    exact explained.stated running current move
  | answered finished => exact explained.answered finished

/-! ## Runs -/

/-- In a run in which every call that makes a report public writes the slug that the row still has,
or one that was never drawn before: the calls on a report have an order that explains what they were
answered and how the report is left, and that respects which calls were over before others began. A
slug that was returned serves the report as long as no later call of the order makes it private, and a
slug that the report had when a call made it private is not found any more. -/
theorem publish_links_linearized_of_run (setup : Setup) {watched : Text} {start l : Links}
    {report : ReportRow} {actions : List Action}
    (found : start.service.db.reports.find? watched = some report)
    (unused : ∀ call, start.callers call = .absent) (unseen : start.history = [])
    (distinct : start.service.db.SlugsDistinct)
    (drawn : ∀ id slug, start.service.db.slug id = some slug → slug ∈ start.drawn)
    (current : Machine.Meets (step setup watched) Current start actions)
    (reached : Machine.run (step setup watched) start actions = some l) :
    ∃ order final report',
      LinearizedBy Applies ⟨report.visibility, report.publishSlug, []⟩ l.history order final ∧
      l.service.db.reports.find? watched = some report' ∧
      report'.visibility = final.visibility ∧ report'.publishSlug = final.slug ∧
      (∀ before entry after slug, order = before ++ entry :: after →
        entry.result = .ok (some (some slug)) →
        (∀ later ∈ after, later.result ≠ .ok (some none)) →
        ∀ site draw, draw.success 0 = true →
          publicReport site draw l.service.db l.service.decoded slug =
            .ok (publicPage site draw l.service.decoded report')) ∧
      ∀ before entry after slug, order = before ++ entry :: after →
        (report.publishSlug = some slug ∨
          ∃ earlier ∈ before, earlier.result = .ok (some (some slug))) →
        entry.result = .ok (some none) →
        ∀ site draw, draw.success 0 = true →
          publicReport site draw l.service.db l.service.decoded slug = .error notFound := by
  have first : Explained watched ⟨report.visibility, report.publishSlug, []⟩ start := by
    refine ⟨distinct, drawn, [], ⟨report.visibility, report.publishSlug, []⟩, ?_,
      ⟨report, found, rfl, rfl⟩, by simp⟩
    have phases : (fun call => phaseOf watched (start.callers call)) = fun _ => .idle := by
      funext call
      rw [unused, phaseOf]
    rw [phases, unseen]
    exact .empty _
  have last := Machine.invariant_of_run
    (fun _ _ _ explained meets stepped => explained_of_step explained meets stepped) first current
    reached
  obtain ⟨order, final, observed, ⟨report', found', visibility, slug'⟩, former⟩ := last.linear
  have run := observed.linearized.sequential
  refine ⟨order, final, report', observed.linearized, found', visibility, slug', ?_, ?_⟩
  · rintro before entry after slug rfl published kept site draw success
    obtain ⟨has, visible⟩ := serves_of_sequential run published kept
    exact publicReport_of_slug site success last.distinct _ (Table.find?_eq_some_iff.mp found').1
      (slug'.trans has) (visibility.trans visible)
  · rintro before entry after slug rfl had cleared site draw success
    have gone := former slug (former_of_sequential run had cleared)
    exact publicReport_of_no_slug site success _ gone.2

/-! ## Concrete runs -/

/-- Calls that all make the report public are answered with one slug. -/
theorem one_slug_of_linearized {start final : Link} {history : List (Event Bool VisibilityAnswer)}
    {order : List (Entry Bool VisibilityAnswer)}
    (linearized : LinearizedBy Applies start history order final)
    (publishing : ∀ call isPublic, .invoke call isPublic ∈ history → isPublic = true)
    {call call' : ℕ} {slug slug' : Text}
    (returned : .respond call (.ok (some (some slug))) ∈ history)
    (returned' : .respond call' (.ok (some (some slug'))) ∈ history) : slug = slug' := by
  have last {call : ℕ} {slug : Text} (returned : .respond call (.ok (some (some slug))) ∈ history) :
      final.slug = some slug := by
    obtain ⟨entry, member, -, published⟩ := linearized.answered call _ returned
    obtain ⟨before, after, split⟩ := List.append_of_mem member
    refine (serves_of_sequential (split ▸ linearized.sequential) published ?_).1
    intro later inAfter cleared
    have inOrder : later ∈ order := split ▸ List.mem_append_right before (.tail entry inAfter)
    obtain ⟨link, link', applied⟩ := linearized.sequential.applied inOrder
    rw [publishing _ _ (linearized.invoked later inOrder), cleared] at applied
    contradiction
  exact Option.some.inj ((last returned).symm.trans (last returned'))

/-- The steps of an upload beside which nobody sets a visibility. -/
def demoReport : List Action := (Service.demoUpload 0).map .serve

/-- What the callers of two overlapping calls see. -/
def overlapped : List (Event Bool VisibilityAnswer) :=
  [.invoke 0 true, .invoke 1 true, .respond 0 (.ok (some (some "a".toList))),
    .respond 1 (.ok (some (some "b".toList)))]

theorem overlapped_not_linearized {start final : Link} {order : List (Entry Bool VisibilityAnswer)} :
    ¬ LinearizedBy Applies start overlapped order final := by
  intro linearized
  have first : .respond 0 (.ok (some (some "a".toList))) ∈ overlapped := by simp [overlapped]
  have second : .respond 1 (.ok (some (some "b".toList))) ∈ overlapped := by simp [overlapped]
  have same := one_slug_of_linearized linearized (by simp +contextual [overlapped]) first second
  exact absurd same (by decide)

/-- Two overlapping calls draw two slugs and return both, and only the second one serves the report:
no order of the calls explains that. A call that has read a slug before it is removed brings it back
after the call that has removed it is over. -/
theorem overlapping_calls_not_linearizable :
    (∃ l, Machine.run (step Service.demoSetup "u1".toList) {}
        (demoReport ++ [.call 0 "u1".toList true, .call 1 "u1".toList true, .statement 0 true [],
          .statement 1 true [], .statement 0 true "a".toList, .statement 1 true "b".toList,
          .answer 0, .answer 1]) = some l ∧
      l.history = overlapped ∧
      l.service.db.slug "u1".toList = some "b".toList ∧
      ∀ start order final, ¬ LinearizedBy Applies start overlapped order final) ∧
    ∃ l, Machine.run (step Service.demoSetup "u1".toList) {}
        (demoReport ++ [.call 0 "u1".toList true, .statement 0 true [], .statement 0 true "a".toList,
          .answer 0, .call 1 "u1".toList true, .statement 1 true [], .call 2 "u1".toList false,
          .statement 2 true [], .statement 2 true [], .answer 2, .statement 1 true "c".toList]) =
          some l ∧
      .respond 2 (.ok (some none)) ∈ l.history ∧
      l.service.db.slug "u1".toList = some "a".toList := by
  constructor
  · exact ⟨_, rfl, rfl, by decide +kernel, fun _ _ _ => overlapped_not_linearized⟩
  · exact ⟨_, rfl, by decide +kernel, by decide +kernel⟩

theorem slug_of_unpublished {db : Database}
    (unpublished : (db.reports.rows.all fun row => row.publishSlug = none) = true) (id : Text) :
    db.slug id = none := by
  rw [List.all_eq_true] at unpublished
  rw [Database.slug]
  cases found : db.reports.find? id with
  | none => rfl
  | some row =>
    have none := unpublished row (Table.find?_eq_some_iff.mp found).1
    simpa using none

/-- The service after an upload. -/
def demoStart : Links where
  service := (Machine.run (Service.step Service.demoSetup) {} (Service.demoUpload 0)).getD {}

/-- A report that is published and then made private. -/
theorem publish_then_unpublish_linearized :
    ∃ l, Machine.run (step Service.demoSetup "u1".toList) demoStart
        [.call 0 "u1".toList true, .statement 0 true [], .statement 0 true "a".toList, .answer 0,
          .call 1 "u1".toList false, .statement 1 true [], .statement 1 true [], .answer 1] =
        some l ∧
      ∃ order final report', LinearizedBy Applies ⟨.«private», none, []⟩ l.history order final ∧
        l.service.db.reports.find? "u1".toList = some report' ∧
        report'.publishSlug = final.slug := by
  have unpublished : ∀ id, demoStart.service.db.slug id = none :=
    slug_of_unpublished (by decide +kernel)
  have explained := @publish_links_linearized_of_run Service.demoSetup "u1".toList demoStart _ _
    [.call 0 "u1".toList true, .statement 0 true [], .statement 0 true "a".toList, .answer 0,
      .call 1 "u1".toList false, .statement 1 true [], .statement 1 true [], .answer 1]
    rfl (fun _ => rfl) rfl (fun id _ _ has => by simp [unpublished] at has)
    (fun id _ has => by simp [unpublished] at has) (by decide +kernel) rfl
  obtain ⟨order, final, report', linearized, found, -, slug, -⟩ := explained
  exact ⟨_, rfl, order, final, report', linearized, found, slug⟩

end Links

end UcrashReport
