import UcrashReport.Server.Dashboard
import UcrashReport.Soundness.DecodedReports
import UcrashReport.Soundness.FiledReports
import Mathlib.Data.Finset.Dedup
import Mathlib.Data.Set.Card

/-! # What the dashboard shows

The list of top crashers has the groups with the most reports that pass its filters, each with the
right numbers. Without filters it agrees with the pages of the groups, and these with each other:
every report that has a group is counted in one group, and there under one value of every column.
-/

namespace UcrashReport.Web

open Rust Rust.Text Store Api Auth

/-! ## What a query asks for -/

/-- A report of the group is asked for: it is recent enough, and has the kind, the version and the
target that the query names, if it names any. -/
structure Asked (query : GroupsQuery) (now : ℤ) (group : GroupRow) (report : ReportRow) : Prop where
  filed : report.groupId = some group.id
  recent : query.window = some "all".toList ∧ 0 ≤ report.receivedAt ∨
    query.window = some "24h".toList ∧ now ≤ report.receivedAt + 24 * 3600 ∨
    query.window = some "30d".toList ∧ now ≤ report.receivedAt + 30 * 24 * 3600 ∨
    query.window ∉ [some "all".toList, some "24h".toList, some "30d".toList] ∧
      now ≤ report.receivedAt + 7 * 24 * 3600
  kind : query.kind ∈ [none, some [], some group.kind]
  version : query.version ∈ [none, some [], some report.version]
  target : query.target ∈ [none, some [], some report.target]

def askedReports (db : Database) (query : GroupsQuery) (now : ℤ) (group : GroupRow) : Set ReportRow :=
  {report | report ∈ db.reports.rows ∧ Asked query now group report}

/-- A row has the columns of its group, and the numbers of its reports that are asked for. -/
structure Summarizes (db : Database) (query : GroupsQuery) (now : ℤ) (group : GroupRow)
    (summary : GroupSummary) : Prop where
  id : summary.id = group.id
  title : summary.title = group.title
  kind : summary.kind = group.kind
  modules : summary.modules = group.modules
  firstVersion : summary.firstVersion = group.firstSeenVersion
  count : summary.count = (askedReports db query now group).ncard
  devices : summary.devices =
    {device | ∃ report ∈ askedReports db query now group, report.deviceId = some device}.ncard
  lastReport : IsGreatest (ReportRow.receivedAt '' askedReports db query now group) summary.lastReport

/-- More reports, or as many and the last one no earlier. -/
def RanksAbove (first second : GroupSummary) : Prop :=
  second.count < first.count ∨ second.count = first.count ∧ second.lastReport ≤ first.lastReport

theorem groupRank_le_iff {first second : GroupSummary} :
    groupRank second ≤ groupRank first ↔ RanksAbove first second := by
  rw [groupRank, groupRank, Prod.Lex.toLex_le_toLex, RanksAbove]

theorem windowCutoff_le_iff {now receivedAt : ℤ} (window : Option Text) :
    windowCutoff now (window.getD "7d".toList) ≤ receivedAt ↔
      window = some "all".toList ∧ 0 ≤ receivedAt ∨
      window = some "24h".toList ∧ now ≤ receivedAt + 24 * 3600 ∨
      window = some "30d".toList ∧ now ≤ receivedAt + 30 * 24 * 3600 ∨
      window ∉ [some "all".toList, some "24h".toList, some "30d".toList] ∧
        now ≤ receivedAt + 7 * 24 * 3600 := by
  cases window with
  | none => simp [windowCutoff]
  | some window =>
    rw [Option.getD_some, windowCutoff]
    split_ifs with day month all
    · simp [day]
    · simp [month]
    · simp [all]
    · simp only [List.mem_cons, Option.some.injEq, List.not_mem_nil, day, month, all, false_and,
        or_self, not_false_eq_true, true_and, false_or, sub_le_iff_le_add]

theorem passes_iff {asked : Option Text} {column : Text} :
    passes (asked.getD []) column = true ↔ asked ∈ [none, some [], some column] := by
  cases asked with
  | none => simp [passes]
  | some filter =>
    rw [Option.getD_some, passes, Bool.or_eq_true, decide_eq_true_eq, decide_eq_true_eq,
      eq_comm (a := column)]
    simp

/-! ## The list -/

section Summary

variable {db : Database} {now : ℤ} {query : GroupsQuery} {group : GroupRow} {summary : GroupSummary}

/-- The query joins to a group what is asked for. -/
theorem mem_selected_iff {report : ReportRow} :
    report ∈ selected db now query.filters group ↔ report ∈ askedReports db query now group := by
  rw [selected, List.mem_filter, askedReports, Set.mem_ofPred_eq]
  refine and_congr_right fun _ => ?_
  simp only [Bool.and_eq_true, decide_eq_true_eq]
  constructor
  · rintro ⟨⟨⟨⟨filed, recent⟩, kind⟩, version⟩, target⟩
    exact ⟨filed, (windowCutoff_le_iff query.window).mp recent, passes_iff.mp kind,
      passes_iff.mp version, passes_iff.mp target⟩
  · rintro ⟨filed, recent, kind, version, target⟩
    exact ⟨⟨⟨⟨filed, (windowCutoff_le_iff query.window).mpr recent⟩, passes_iff.mpr kind⟩,
      passes_iff.mpr version⟩, passes_iff.mpr target⟩

theorem length_selected :
    (selected db now query.filters group).length = (askedReports db query now group).ncard := by
  have unique : (selected db now query.filters group).Nodup :=
    (List.Nodup.of_map _ db.reports.unique).filter _
  have asked : askedReports db query now group =
      ↑(selected db now query.filters group).toFinset := by
    ext report
    rw [List.coe_toFinset, Set.mem_ofPred_eq, mem_selected_iff]
  rw [asked, Set.ncard_coe_finset, List.card_toFinset, unique.dedup]

theorem distinctDevices_selected :
    distinctDevices (selected db now query.filters group) =
      {device | ∃ report ∈ askedReports db query now group, report.deviceId = some device}.ncard := by
  have devices : {device | ∃ report ∈ askedReports db query now group, report.deviceId = some device} =
      ↑((selected db now query.filters group).filterMap (·.deviceId)).toFinset := by
    ext device
    simp [mem_selected_iff]
  rw [devices, Set.ncard_coe_finset, List.card_toFinset, distinctDevices]

theorem summarizes_of_groupSummary
    (summarized : groupSummary db now query.filters group = some summary) :
    Summarizes db query now group summary := by
  rw [groupSummary, Option.map_eq_some_iff] at summarized
  obtain ⟨last, isMax, rfl⟩ := summarized
  obtain ⟨member, greatest⟩ := List.max?_eq_some_iff.mp isMax
  obtain ⟨report, inSelected, received⟩ := List.mem_map.mp member
  refine ⟨rfl, rfl, rfl, rfl, rfl, length_selected, distinctDevices_selected, ?_, ?_⟩
  · exact ⟨report, mem_selected_iff.mp inSelected, received⟩
  · rintro _ ⟨other, asked, rfl⟩
    exact greatest _ (List.mem_map_of_mem (mem_selected_iff.mpr asked))

/-- A group that has a report is in the result. -/
theorem groupSummary_isSome (asked : (askedReports db query now group).Nonempty) :
    (groupSummary db now query.filters group).isSome := by
  obtain ⟨report, member⟩ := asked
  rw [groupSummary, Option.isSome_map, Option.isSome_iff_ne_none, ne_eq, List.max?_eq_none_iff,
    List.map_eq_nil_iff]
  exact List.ne_nil_of_mem (mem_selected_iff.mpr member)

theorem nodup_summaries (db : Database) (now : ℤ) (query : GroupsQuery) :
    ((db.groups.rows.filterMap (groupSummary db now query.filters)).map (·.id)).Nodup := by
  have ids : (db.groups.rows.filterMap (groupSummary db now query.filters)).map (·.id) =
      (db.groups.rows.filter fun group => (groupSummary db now query.filters group).isSome).map
        (·.id) := by
    induction db.groups.rows with
    | nil => rfl
    | cons group groups ih =>
      cases summarized : groupSummary db now query.filters group with
      | none => simpa [summarized] using ih
      | some summary =>
        simpa [summarized, (summarizes_of_groupSummary summarized).id] using ih
  rw [ids]
  exact db.groups.unique.sublist (List.filter_sublist.map _)

/-- A group without reports has no row, and no reports to count. -/
theorem sum_counts (db : Database) (now : ℤ) (query : GroupsQuery) (groups : List GroupRow) :
    ((groups.filterMap (groupSummary db now query.filters)).map (·.count)).sum =
      (groups.map fun group => (selected db now query.filters group).length).sum := by
  induction groups with
  | nil => rfl
  | cons group groups ih =>
    cases summarized : groupSummary db now query.filters group with
    | none =>
      have empty : selected db now query.filters group = [] := by
        rw [List.eq_nil_iff_forall_not_mem]
        intro report member
        have there := groupSummary_isSome ⟨report, mem_selected_iff.mp member⟩
        rw [summarized] at there
        contradiction
      simpa [summarized, empty] using ih
    | some summary =>
      have count := (summarizes_of_groupSummary summarized).count.trans length_selected.symm
      simpa [summarized, count] using ih

end Summary

theorem groups_eq_ok {sha256 : Bytes → Bytes} {auth : AuthDraw} {draw : RequestDraw}
    {accounts : Accounts} {db : Database} {cookie : Option Text} {query : GroupsQuery} {d : Dev}
    {rows : List GroupSummary}
    (answered : groups sha256 auth draw accounts db cookie query = .ok (d, rows)) :
    dev sha256 auth accounts cookie = .ok d ∧ rows = queryGroups db draw.now query.filters := by
  obtain ⟨known, answered⟩ := asDev_eq_ok.mp answered
  split_ifs at answered with success
  exact ⟨known, (Except.ok.inj answered).symm⟩

/-- What developers see of the top crashers: no group twice, at most a hundred, and in order; every row
has the columns of its group and the numbers of its reports that are asked for. A group that has such a
report is missing only if the list is full and every row of it ranks above. -/
theorem top_crashers_exact {sha256 : Bytes → Bytes} {auth : AuthDraw} {draw : RequestDraw}
    {accounts : Accounts} {db : Database} {cookie : Option Text} {query : GroupsQuery} {d : Dev}
    {rows : List GroupSummary}
    (answered : groups sha256 auth draw accounts db cookie query = .ok (d, rows)) :
    dev sha256 auth accounts cookie = .ok d ∧
    (rows.map (·.id)).Nodup ∧ rows.length ≤ 100 ∧ rows.Pairwise RanksAbove ∧
    (∀ row ∈ rows, ∃ group ∈ db.groups.rows, Summarizes db query draw.now group row) ∧
    ∀ group ∈ db.groups.rows, (askedReports db query draw.now group).Nonempty →
      ∃ row, Summarizes db query draw.now group row ∧
        (row ∈ rows ∨ rows.length = 100 ∧ ∀ other ∈ rows, RanksAbove other row) := by
  obtain ⟨known, rfl⟩ := groups_eq_ok answered
  have inOrder : (queryGroups db draw.now query.filters).Pairwise
      fun first second => groupRank second ≤ groupRank first := Ranking.pairwise_top
  refine ⟨known, Ranking.nodup_map_top (nodup_summaries db draw.now query), ?_,
    inOrder.imp groupRank_le_iff.mp, fun row member => ?_, fun group member asked => ?_⟩
  · rw [queryGroups, Ranking.length_top]
    exact min_le_left ..
  · obtain ⟨group, inRows, summarized⟩ := List.mem_filterMap.mp (Ranking.mem_of_mem_top member)
    exact ⟨group, inRows, summarizes_of_groupSummary summarized⟩
  · obtain ⟨row, summarized⟩ := Option.isSome_iff_exists.mp (groupSummary_isSome asked)
    refine ⟨row, summarizes_of_groupSummary summarized, ?_⟩
    have inResult := List.mem_filterMap.mpr ⟨group, member, summarized⟩
    by_cases listed : row ∈ queryGroups db draw.now query.filters
    · exact .inl listed
    · obtain ⟨full, highest⟩ := Ranking.rank_le_of_not_mem_top inResult listed
      exact .inr ⟨full, fun other inList => groupRank_le_iff.mp (highest other inList)⟩

/-- A developer with an open session, under a hash that is the same for all tokens. -/
def demoAccounts : Accounts where
  users := { rows := [⟨"1".toList, "ann".toList, [], []⟩], unique := by decide }
  sessions := { rows := [⟨"00".toList, "1".toList, 5000000⟩], unique := by decide }

def demoReport (id groupId version : Text) (deviceId : Option Text) (receivedAt : ℤ) : ReportRow where
  id
  deviceId
  kind := "kernel_oops".toList
  receivedAt
  capturedAt := receivedAt
  version
  revision := []
  target := "x86/64".toList
  arch := []
  boardName := []
  kernel := []
  kernelBuildid := none
  payloadEncoding := "none".toList
  state := .decoded
  groupId := some groupId

/-- Two groups; the first report is older than thirty days, and the third one has another version. -/
def demoReports : Database where
  groups := {
    rows := [⟨"g1".toList, "a".toList, "kernel_oops".toList, "foo".toList, [], 0, 0, []⟩,
      ⟨"g2".toList, "b".toList, "kernel_oops".toList, "bar".toList, [], 0, 0, []⟩]
    unique := by decide }
  reports := {
    rows := [demoReport "u1".toList "g1".toList "25.12.5".toList (some "d1".toList) 100000,
      demoReport "u2".toList "g1".toList "25.12.5".toList (some "d1".toList) 200000,
      demoReport "u3".toList "g1".toList "24.10.0".toList (some "d2".toList) 300000,
      demoReport "u4".toList "g2".toList "25.12.5".toList none 250000,
      demoReport "u5".toList "g2".toList "25.12.5".toList (some "d3".toList) 400000]
    unique := by decide }

def demoQuery : GroupsQuery := ⟨some "30d".toList, none, some "25.12.5".toList, some []⟩

theorem demoReports_ranked :
    ∃ rows, groups (fun _ => [0]) {} { now := 2700000 } demoAccounts demoReports (some []) demoQuery =
        .ok (⟨"1".toList, "ann".toList⟩, rows) ∧
      rows.map (fun row => (row.id, row.count, row.devices, row.lastReport)) =
        [("g2".toList, 2, 1, 400000), ("g1".toList, 1, 1, 200000)] ∧
      rows.Pairwise RanksAbove ∧
      ∀ row ∈ rows, ∃ group ∈ demoReports.groups.rows,
        Summarizes demoReports demoQuery 2700000 group row := by
  have answered : groups (fun _ => [0]) {} { now := 2700000 } demoAccounts demoReports (some [])
      demoQuery = .ok (⟨"1".toList, "ann".toList⟩,
        queryGroups demoReports 2700000 demoQuery.filters) := by decide +kernel
  obtain ⟨-, -, -, inOrder, summarized, -⟩ := top_crashers_exact answered
  exact ⟨_, answered, by decide +kernel, inOrder, summarized⟩

/-! ## The pages together -/

/-- All reports, of all kinds, versions and targets. -/
def everything : GroupsQuery := ⟨some "all".toList, none, none, none⟩

theorem selected_everything {db : Database} (epoch : ∀ report ∈ db.reports.rows, 0 ≤ report.receivedAt)
    (now : ℤ) (group : GroupRow) :
    selected db now everything.filters group = reportsOf db group.id := by
  refine List.filter_congr fun report member => ?_
  have received := epoch report member
  simp [everything, GroupsQuery.filters, windowCutoff, passes, received]

/-- The numbers of a breakdown are of reports of the group, and of all of them unless there are too
many different values. -/
theorem sum_breakdown (db : Database) (groupId : Text) (column : ReportRow → Text) :
    ((breakdown db groupId column).map Prod.snd).sum ≤ (reportsOf db groupId).length ∧
      (((reportsOf db groupId).map column).dedup.length ≤ 20 →
        ((breakdown db groupId column).map Prod.snd).sum = (reportsOf db groupId).length) := by
  have counted : ((Ranking.tally column (reportsOf db groupId)).map Prod.snd).sum =
      (reportsOf db groupId).length := Ranking.sum_tally
  rw [breakdown, ← counted]
  refine ⟨Ranking.sum_top_le Prod.snd, fun few => Ranking.sum_top Prod.snd ?_⟩
  rwa [Ranking.tally, List.length_map]

/-- A report refers to a group that exists. -/
theorem group_of_report_of_run {setup : Setup} {actions : List Service.Action} {s : Service}
    (reached : Machine.run (Service.step setup) {} actions = some s) {report : ReportRow}
    (member : report ∈ s.db.reports.rows) {groupId : Text} (group : report.groupId = some groupId) :
    groupId ∈ s.db.groups.rows.map (·.id) := by
  obtain ⟨h, reached', rfl⟩ := Filing.exists_of_run (h := {}) reached
  have filed : Filing.Filed h := Machine.invariant_of_every_run
    (fun _ _ _ invariant stepped => Filing.filed_of_step invariant stepped) .empty reached'
  obtain ⟨row, found, -⟩ := filed.reports report.id report groupId
    (Table.find?_eq_some_iff.mpr ⟨member, rfl⟩) group
  obtain ⟨inRows, same⟩ := Table.find?_eq_some_iff.mp found
  exact List.mem_map.mpr ⟨row, inRows, same⟩

/-- The steps that the service takes between the two states leave the reports as they are. -/
def Quiet (setup : Setup) (s t : Service) : Prop :=
  t.db.reports = s.db.reports ∧
    ∃ between, Machine.run (Service.step setup) s between = some t

/-- A developer is shown the page of the group. Each statement of it reads what the database is by
then, with the same reports. -/
def ShowsPage (setup : Setup) (s : Service) (id : Text) (page : GroupDetail) : Prop :=
  ∃ states : ℕ → Service, (∀ n, Quiet setup s (states n)) ∧ ∃ auth draw accounts cookie d,
    groupDetail setup.readers.sha256 auth draw accounts (fun n => (states n).db) cookie id = .ok (d, page)

theorem groupDetail_eq_ok {sha256 : Bytes → Bytes} {auth : AuthDraw} {draw : RequestDraw}
    {accounts : Accounts} {dbs : ℕ → Database} {cookie : Option Text} {id : Text} {d : Dev}
    {page : GroupDetail}
    (answered : groupDetail sha256 auth draw accounts dbs cookie id = .ok (d, page)) :
    ∃ group, (dbs 0).groups.find? id = some group ∧ page = detail dbs group := by
  obtain ⟨-, answered⟩ := asDev_eq_ok.mp answered
  by_cases success : draw.success 0 = true
  · rw [if_pos success] at answered
    cases found : (dbs 0).groups.find? id with
    | none =>
      rw [found] at answered
      contradiction
    | some group =>
      rw [found] at answered
      dsimp only at answered
      split_ifs at answered with later
      exact ⟨group, rfl, (Except.ok.inj answered).symm⟩
  · rw [if_neg success] at answered
    contradiction

theorem reportsOf_congr {db db' : Database} (same : db'.reports = db.reports) (groupId : Text) :
    reportsOf db' groupId = reportsOf db groupId := by
  rw [reportsOf, same, reportsOf]

theorem breakdown_congr {db db' : Database} (same : db'.reports = db.reports) (groupId : Text)
    (column : ReportRow → Text) : breakdown db' groupId column = breakdown db groupId column := by
  rw [breakdown, reportsOf_congr same, breakdown]

section Page

variable {setup : Setup} {s : Service} {id : Text} {page : GroupDetail}
  (shown : ShowsPage setup s id page)

include shown

/-- The numbers of a page are those of the reports that the group has meanwhile. -/
theorem numbers_of_page :
    page.reportCount = (reportsOf s.db id).length ∧
      page.deviceCount = distinctDevices (reportsOf s.db id) ∧
      page.byVersion = breakdown s.db id (·.version) ∧
      page.byTarget = breakdown s.db id (·.target) ∧
      page.byBoard = breakdown s.db id (·.boardName) := by
  obtain ⟨states, quiet, auth, draw, accounts, cookie, d, answered⟩ := shown
  obtain ⟨group, found, rfl⟩ := groupDetail_eq_ok answered
  obtain ⟨-, rfl⟩ := Table.find?_eq_some_iff.mp found
  have counted := reportsOf_congr (quiet 1).1 group.id
  exact ⟨congrArg List.length counted, congrArg distinctDevices counted,
    breakdown_congr (quiet 2).1 _ _, breakdown_congr (quiet 3).1 _ _, breakdown_congr (quiet 4).1 _ _⟩

end Page

/-- Every report that has a group is counted in that group. -/
theorem sum_reportsOf_of_run {setup : Setup} {actions : List Service.Action} {s : Service}
    (reached : Machine.run (Service.step setup) {} actions = some s) :
    (s.db.groups.rows.map fun group => (reportsOf s.db group.id).length).sum =
      s.db.reports.rows.countP fun report => report.groupId.isSome := by
  have counted := Ranking.sum_countP s.db.groups.unique (fun report => report.groupId)
    s.db.reports.rows
  rw [List.map_map] at counted
  have lengths : (s.db.groups.rows.map fun group => (reportsOf s.db group.id).length) =
      s.db.groups.rows.map ((fun k => s.db.reports.rows.countP fun report =>
        report.groupId = some k) ∘ GroupRow.id) :=
    List.map_congr_left fun group _ => by
      rw [reportsOf, ← List.countP_eq_length_filter, Function.comp_apply]
  rw [lengths, counted]
  refine List.countP_congr fun report member => ?_
  cases group : report.groupId with
  | none => simp
  | some groupId => simpa using group_of_report_of_run reached member group

/-- In every run: the pages of the groups that are shown while the reports stay as they are count every
report that has a group once, so every decoded report. The breakdowns of a page add up to its number of
reports when no value is left out. The list without filters has the numbers of the pages; its numbers
add up to those of all pages when no group is left out. -/
theorem views_agree_of_run (setup : Setup) {actions : List Service.Action} {s : Service}
    (reached : Machine.run (Service.step setup) {} actions = some s)
    (epoch : ∀ report ∈ s.db.reports.rows, 0 ≤ report.receivedAt) {pages : Text → GroupDetail}
    (shown : ∀ group ∈ s.db.groups.rows, ShowsPage setup s group.id (pages group.id)) :
    (s.db.groups.rows.map fun group => (pages group.id).reportCount).sum =
        s.db.reports.rows.countP (fun report => report.groupId.isSome) ∧
    s.db.reports.rows.countP (fun report => report.state = .decoded) ≤
        s.db.reports.rows.countP (fun report => report.groupId.isSome) ∧
    (∀ group ∈ s.db.groups.rows, ∀ part ∈ [(GroupDetail.byVersion, ReportRow.version),
        (GroupDetail.byTarget, ReportRow.target), (GroupDetail.byBoard, ReportRow.boardName)],
      ((part.1 (pages group.id)).map Prod.snd).sum ≤ (pages group.id).reportCount ∧
        (((reportsOf s.db group.id).map part.2).dedup.length ≤ 20 →
          ((part.1 (pages group.id)).map Prod.snd).sum = (pages group.id).reportCount)) ∧
    ∀ t, Quiet setup s t → ∀ auth draw accounts cookie d rows,
      groups setup.readers.sha256 auth draw accounts t.db cookie everything = .ok (d, rows) →
        (∀ row ∈ rows, ∃ group ∈ s.db.groups.rows, row.id = group.id ∧
          row.count = (pages group.id).reportCount ∧ row.devices = (pages group.id).deviceCount) ∧
        (t.db.groups.rows.length ≤ 100 → (rows.map (·.count)).sum =
          (s.db.groups.rows.map fun group => (pages group.id).reportCount).sum) := by
  have pageOf (group : GroupRow) (member : group ∈ s.db.groups.rows) :=
    numbers_of_page (shown group member)
  have total : (s.db.groups.rows.map fun group => (pages group.id).reportCount).sum =
      s.db.reports.rows.countP (fun report => report.groupId.isSome) := by
    rw [← sum_reportsOf_of_run reached]
    exact congrArg List.sum (List.map_congr_left fun group member => (pageOf group member).1)
  refine ⟨total, ?_, fun group member part isPart => ?_,
    fun t quiet auth draw accounts cookie d rows answered => ?_⟩
  · have grouped : Filing.DecodedGrouped s := Machine.invariant_of_every_run
      (fun _ _ _ invariant stepped => Filing.decodedGrouped_of_step invariant stepped)
      (fun _ _ found => by simp at found) reached
    refine List.countP_mono_left fun report member decoded => ?_
    exact grouped report.id report (Table.find?_eq_some_iff.mpr ⟨member, rfl⟩) (by simpa using decoded)
  · obtain ⟨count, -, version, target, board⟩ := pageOf group member
    have sums := sum_breakdown s.db group.id part.2
    rw [← count] at sums
    simp only [List.mem_cons, List.not_mem_nil, or_false] at isPart
    rcases isPart with rfl | rfl | rfl
    · dsimp only
      rwa [version]
    · dsimp only
      rwa [target]
    · dsimp only
      rwa [board]
  · obtain ⟨-, rfl⟩ := groups_eq_ok answered
    obtain ⟨same, between, later⟩ := quiet
    have epoch' : ∀ report ∈ t.db.reports.rows, 0 ≤ report.receivedAt := same ▸ epoch
    have reached' := Machine.run_append.mpr ⟨s, reached, later⟩
    refine ⟨fun row member => ?_, fun few => ?_⟩
    · obtain ⟨group', -, summarized⟩ := List.mem_filterMap.mp (Ranking.mem_of_mem_top member)
      have summarizes := summarizes_of_groupSummary summarized
      -- A row has a report, so its group was there before.
      obtain ⟨report, ⟨inReports, asked⟩, -⟩ := summarizes.lastReport.1
      obtain ⟨group, inRows, sameId⟩ :=
        List.mem_map.mp (group_of_report_of_run reached (same ▸ inReports) asked.filed)
      obtain ⟨count, devices, -⟩ := pageOf group inRows
      have selected := selected_everything epoch' draw.now group'
      rw [reportsOf_congr same, ← sameId] at selected
      refine ⟨group, inRows, summarizes.id.trans sameId.symm, ?_, ?_⟩
      · rw [summarizes.count, ← length_selected, selected, count]
      · rw [summarizes.devices, ← distinctDevices_selected, selected, devices]
    · rw [queryGroups, Ranking.sum_top _ ((List.length_filterMap_le _ _).trans few), sum_counts, total]
      simp only [selected_everything epoch']
      rw [sum_reportsOf_of_run reached', same]

/-- When a report is filed between its statements, a page breaks down more reports than it counts. -/
example : ((Machine.run (Service.step Filing.textSetup) {} (Filing.demoThree.take 32)).bind fun s =>
    (Service.step Filing.textSetup s (.work 0 {})).bind fun t =>
      (s.db.groups.find? "g1".toList).map fun group =>
        let page := detail (fun n => (if n < 2 then s else t).db) group
        (page.reportCount, page.byVersion)) = some (1, [("25.12.5".toList, 2)]) := by
  decide +kernel

/-- The first half of the page is read in one state, the second one in another. -/
def demoPage (s t : Service) (id : Text) : GroupDetail :=
  detail (fun n => (if n < 3 then s else t).db)
    ((s.db.groups.find? id).getD ⟨[], [], [], [], [], 0, 0, []⟩)

/-- The next upload begins. -/
def demoMeanwhile : List Service.Action :=
  [.request 3 ⟨some "key".toList, some "sig".toList, some "u4".toList⟩ [3], .upload 3 {}]

/-- Three reports in two groups, whose pages are read while the next upload begins. -/
theorem demoThree_views :
    ∃ s t, Machine.run (Service.step Filing.textSetup) {} Filing.demoThree = some s ∧
      Machine.run (Service.step Filing.textSetup) s demoMeanwhile = some t ∧
      (∀ group ∈ s.db.groups.rows, ShowsPage Filing.textSetup s group.id (demoPage s t group.id)) ∧
      s.db.groups.rows.map (fun group =>
          ((demoPage s t group.id).reportCount, (demoPage s t group.id).byVersion)) =
        [(2, [("25.12.5".toList, 2)]), (1, [("25.12.5".toList, 1)])] ∧
      (s.db.groups.rows.map fun group => (demoPage s t group.id).reportCount).sum =
        s.db.reports.rows.countP fun report => report.groupId.isSome := by
  have run : (Machine.run (Service.step Filing.textSetup) {} Filing.demoThree).any (fun s =>
      (Machine.run (Service.step Filing.textSetup) s demoMeanwhile).any fun t =>
        decide (t.db.reports.rows = s.db.reports.rows) &&
        s.db.reports.rows.all (fun report => 0 ≤ report.receivedAt) &&
        s.db.groups.rows.map (fun group =>
          ((demoPage s t group.id).reportCount, (demoPage s t group.id).byVersion)) =
          [(2, [("25.12.5".toList, 2)]), (1, [("25.12.5".toList, 1)])]) = true := by decide +kernel
  obtain ⟨s, reached, holds⟩ := (Option.any_eq_true _ _).mp run
  obtain ⟨t, later, holds⟩ := (Option.any_eq_true _ _).mp holds
  simp only [Bool.and_eq_true, decide_eq_true_eq, List.all_eq_true] at holds
  obtain ⟨⟨same, epoch⟩, numbers⟩ := holds
  have quiet (n : ℕ) : Quiet Filing.textSetup s (if n < 3 then s else t) := by
    split_ifs
    · exact ⟨rfl, [], rfl⟩
    · exact ⟨Table.ext same, demoMeanwhile, later⟩
  have shown (group : GroupRow) (member : group ∈ s.db.groups.rows) :
      ShowsPage Filing.textSetup s group.id (demoPage s t group.id) := by
    have found : s.db.groups.find? group.id = some group := Table.find?_eq_some_iff.mpr ⟨member, rfl⟩
    refine ⟨_, quiet, {}, {}, demoAccounts, some [], ⟨"1".toList, "ann".toList⟩,
      asDev_eq_ok.mpr ⟨by decide +kernel, ?_⟩⟩
    dsimp only
    rw [if_pos rfl, demoPage, if_pos (by decide), found]
    rfl
  exact ⟨s, t, reached, later, shown, numbers,
    (views_agree_of_run Filing.textSetup reached epoch shown).1⟩

end UcrashReport.Web
