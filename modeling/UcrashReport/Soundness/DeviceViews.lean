import UcrashReport.Soundness.PublishLinks

/-! # What a device and the public see

Two states of the server that agree on the reports of a device, on the public reports and on the
tokens cannot be told apart by that device or by the public, and a request of the device leaves them
in agreement. Nothing else of the other reports has a part in the answers.
-/

namespace UcrashReport.Api

open Rust Rust.Text Store

/-! ## Agreement -/

/-- The rows of a device, in the order of the table. -/
def ownRows (device : Text) (db : Database) : List ReportRow :=
  db.reports.rows.filter fun row => row.deviceId = some device

/-- The states have the same reports of the device and the same public ones, with the same decoded
texts, and the same tokens. -/
structure Agree (device : Text) (db db' : Database) (decoded decoded' : Files) : Prop where
  own : ownRows device db = ownRows device db'
  ownTexts : ∀ row ∈ ownRows device db, decoded row.id = decoded' row.id
  visible : ∀ row, row.visibility = .«public» → (row ∈ db.reports.rows ↔ row ∈ db'.reports.rows)
  visibleTexts : ∀ row ∈ db.reports.rows, row.visibility = .«public» →
    decoded row.id = decoded' row.id
  tokens : ∀ tokenHash, db.tokens.find? tokenHash = db'.tokens.find? tokenHash

variable {sha256 : Bytes → Bytes} {site : Site} {draw : RequestDraw} {device : Text}
  {db db' : Database} {decoded decoded' : Files} {authorization : Option Text}

theorem Agree.symm (agree : Agree device db db' decoded decoded') :
    Agree device db' db decoded' decoded where
  own := agree.own.symm
  ownTexts row member := (agree.ownTexts row (agree.own ▸ member)).symm
  visible row isPublic := (agree.visible row isPublic).symm
  visibleTexts row member isPublic :=
    (agree.visibleTexts row ((agree.visible row isPublic).mpr member) isPublic).symm
  tokens tokenHash := (agree.tokens tokenHash).symm

theorem requireDevice_of_tokens
    (tokens : ∀ tokenHash, db.tokens.find? tokenHash = db'.tokens.find? tokenHash)
    (sha256 : Bytes → Bytes) (draw : RequestDraw) (authorization : Option Text) :
    requireDevice sha256 draw db authorization = requireDevice sha256 draw db' authorization := by
  have same (tokenHash : Text) :
      db.tokenDevice tokenHash draw.now = db'.tokenDevice tokenHash draw.now := by
    rw [Database.tokenDevice, tokens, Database.tokenDevice]
  simp only [requireDevice, deviceFromBearer, same]

/-! ## Setting the visibility of a report -/

/-- What a request makes of the row of its report. -/
def changeOf (draw : RequestDraw) (slug : Option Text) (isPublic : Bool) (row : ReportRow) :
    ReportRow :=
  if draw.success 2 && draw.success 3 then
    if isPublic then
      { row with visibility := .«public», publishSlug := some (slugOf draw.secret slug) }
    else { row with visibility := .«private», publishSlug := none }
  else row

def outcomeOf (draw : RequestDraw) (slug : Option Text) (isPublic : Bool) : VisibilityAnswer :=
  if draw.success 2 && draw.success 3 then
    if isPublic then .ok (some (some (slugOf draw.secret slug))) else .ok (some none)
  else .error {}

theorem changeOf_id (draw : RequestDraw) (slug : Option Text) (isPublic : Bool) (row : ReportRow) :
    (changeOf draw slug isPublic row).id = row.id := by
  rw [changeOf]
  split_ifs <;> rfl

theorem changeOf_deviceId (draw : RequestDraw) (slug : Option Text) (isPublic : Bool)
    (row : ReportRow) : (changeOf draw slug isPublic row).deviceId = row.deviceId := by
  rw [changeOf]
  split_ifs <;> rfl

/-- The slug of a report that is there is not refused: it has it already, or it is a new one. -/
theorem setPublic_isSome {reportId : Text} {row : ReportRow} {secret : Text}
    (found : db.reports.find? reportId = some row) (distinct : db.SlugsDistinct)
    (fresh : ∀ id, db.slug id ≠ some (secret.take 16)) :
    ∃ db', db.setPublic reportId (slugOf secret row.publishSlug) = some db' := by
  cases published : db.setPublic reportId (slugOf secret row.publishSlug) with
  | some db' => exact ⟨db', rfl⟩
  | none =>
    obtain ⟨-, other, different, taken⟩ := Database.setPublic_eq_none published
    have has : db.slug reportId = row.publishSlug := by rw [Database.slug, found, Option.bind_some]
    cases slug : row.publishSlug with
    | none =>
      rw [slug, slugOf, Option.getD_none] at taken
      exact absurd taken (fresh other)
    | some text =>
      rw [slug] at taken has
      exact absurd (distinct other reportId text taken has) different

/-- The outcome is determined by the row of the report. -/
theorem setVisibility_spec {reportId : Text} {row : ReportRow}
    (found : db.reports.find? reportId = some row) (distinct : db.SlugsDistinct)
    (fresh : ∀ id, db.slug id ≠ some (draw.secret.take 16)) (isPublic : Bool) :
    (setVisibility draw db reportId isPublic).2 = outcomeOf draw row.publishSlug isPublic ∧
      (setVisibility draw db reportId isPublic).1.tokens = db.tokens ∧
      (setVisibility draw db reportId isPublic).1.reports.rows = db.reports.rows.map fun other =>
        if other.id = reportId then changeOf draw row.publishSlug isPublic other else other := by
  obtain ⟨db', published⟩ := setPublic_isSome found distinct fresh
  have update : db' = { db with
      reports := db.reports.update reportId (fun other => { other with
        visibility := .«public», publishSlug := some (slugOf draw.secret row.publishSlug) })
        (fun _ => rfl) } := by
    rw [Database.setPublic, Option.ite_none_left_eq_some] at published
    exact (Option.some.inj published.2).symm
  rw [setVisibility, readSlug, found, Option.map_some]
  cases read : draw.success 2 with
  | false => simp [outcomeOf, changeOf, read]
  | true =>
    simp only [if_true, writeVisibility]
    cases written : draw.success 3 with
    | false => simp [outcomeOf, changeOf, read, written]
    | true =>
      cases isPublic with
      | false => simp [outcomeOf, changeOf, read, written, Database.setPrivate, Table.update]
      | true =>
        simp only [if_true, published]
        simp [outcomeOf, changeOf, read, written, update, Table.update]

/-! ## The requests -/

theorem find?_own (device reportId : Text) (db : Database) :
    (db.reports.rows.find? fun row => row.id = reportId && row.deviceId = some device) =
      (ownRows device db).find? fun row => row.id = reportId := by
  rw [ownRows, List.find?_filter]
  refine congrArg (List.find? · _) (funext fun row => ?_)
  simp [Bool.and_comm]

theorem ownedReport_of_agree (agree : Agree device db db' decoded decoded')
    (valid : requireDevice sha256 draw db authorization = .ok device) (reportId : Text) :
    ownedReport sha256 draw db authorization reportId =
      ownedReport sha256 draw db' authorization reportId := by
  rw [ownedReport, ownedReport, ← requireDevice_of_tokens agree.tokens, valid]
  dsimp only [bind, Except.bind]
  rw [find?_own, find?_own, agree.own]

/-- An owned report is a report of the device with this id. -/
theorem ownedReport_spec (valid : requireDevice sha256 draw db authorization = .ok device)
    {reportId : Text} {row : ReportRow}
    (owned : ownedReport sha256 draw db authorization reportId = .ok row) :
    row ∈ ownRows device db ∧ row.id = reportId := by
  rw [ownedReport, valid] at owned
  dsimp only [bind, Except.bind] at owned
  rw [find?_own] at owned
  split_ifs at owned
  · cases found : (ownRows device db).find? fun row => row.id = reportId with
    | none => simp [found, throw, throwThe, MonadExceptOf.throw] at owned
    | some other =>
      rw [found] at owned
      obtain rfl : other = row := Except.ok.inj owned
      exact ⟨List.mem_of_find?_eq_some found, by simpa using List.find?_some found⟩

theorem find?_of_own {row : ReportRow} (own : row ∈ ownRows device db) :
    db.reports.find? row.id = some row :=
  Table.find?_eq_some_iff.mpr ⟨(List.mem_filter.mp own).1, rfl⟩

section Update

variable {row : ReportRow} {change : ReportRow → ReportRow} {after after' : Database}
  (ids : ∀ other, (change other).id = other.id)
  (devices : ∀ other, (change other).deviceId = other.deviceId)
  (rows : after.reports.rows = db.reports.rows.map fun other =>
    if other.id = row.id then change other else other)
  (rows' : after'.reports.rows = db'.reports.rows.map fun other =>
    if other.id = row.id then change other else other)

include devices rows in
theorem ownRows_update : ownRows device after = (ownRows device db).map fun other =>
    if other.id = row.id then change other else other := by
  rw [ownRows, rows, List.filter_map, ownRows]
  refine congrArg (List.map _) (congrArg (List.filter · db.reports.rows) (funext fun other => ?_))
  rw [Function.comp_apply]
  split_ifs
  · rw [devices]
  · rfl

include rows rows' in
/-- A public row comes from the row of the request or from a row that was public before. -/
theorem visible_of_update (agree : Agree device db db' decoded decoded')
    (own : row ∈ ownRows device db) {other : ReportRow} (isPublic : other.visibility = .«public»)
    (member : other ∈ after.reports.rows) : other ∈ after'.reports.rows := by
  rw [rows] at member
  obtain ⟨before, there, rfl⟩ := List.mem_map.mp member
  rw [rows']
  refine List.mem_map.mpr ⟨before, ?_, rfl⟩
  split_ifs at isPublic with same
  · have inRows := (List.mem_filter.mp own).1
    rw [List.inj_on_of_nodup_map db.reports.unique there inRows same]
    exact (List.mem_filter.mp (agree.own ▸ own : row ∈ ownRows device db')).1
  · exact (agree.visible before isPublic).mp there

include ids devices rows rows' in
theorem Agree.update (agree : Agree device db db' decoded decoded') (own : row ∈ ownRows device db)
    (tokens : after.tokens = db.tokens) (tokens' : after'.tokens = db'.tokens) :
    Agree device after after' decoded decoded' where
  own := by rw [ownRows_update devices rows, ownRows_update devices rows', agree.own]
  ownTexts other member := by
    rw [ownRows_update devices rows] at member
    obtain ⟨before, there, rfl⟩ := List.mem_map.mp member
    split_ifs
    · rw [ids]
      exact agree.ownTexts before there
    · exact agree.ownTexts before there
  visible other isPublic :=
    ⟨visible_of_update rows rows' agree own isPublic,
      visible_of_update rows' rows agree.symm (agree.own ▸ own) isPublic⟩
  visibleTexts other member isPublic := by
    rw [rows] at member
    obtain ⟨before, there, rfl⟩ := List.mem_map.mp member
    split_ifs at isPublic ⊢ with same
    · rw [ids, same]
      exact agree.ownTexts row own
    · exact agree.visibleTexts before there isPublic
  tokens tokenHash := by
    rw [tokens, tokens']
    exact agree.tokens tokenHash

end Update

/-- A request of the device has the same answer in both states, leaves them in agreement, and changes
no report of another device. -/
theorem mySetVisibility_of_agree (agree : Agree device db db' decoded decoded')
    (distinct : db.SlugsDistinct) (distinct' : db'.SlugsDistinct)
    (fresh : ∀ id, db.slug id ≠ some (draw.secret.take 16))
    (fresh' : ∀ id, db'.slug id ≠ some (draw.secret.take 16))
    (valid : requireDevice sha256 draw db authorization = .ok device) (site : Site)
    (reportId : Text) (isPublic : Bool) :
    (mySetVisibility sha256 site draw db authorization reportId isPublic).2 =
        (mySetVisibility sha256 site draw db' authorization reportId isPublic).2 ∧
      Agree device (mySetVisibility sha256 site draw db authorization reportId isPublic).1
        (mySetVisibility sha256 site draw db' authorization reportId isPublic).1 decoded decoded' ∧
      ∀ row ∈ db.reports.rows, row.deviceId ≠ some device →
        row ∈ (mySetVisibility sha256 site draw db authorization reportId isPublic).1.reports.rows := by
  have sameOwned := ownedReport_of_agree agree valid reportId
  rw [mySetVisibility, mySetVisibility, ← sameOwned]
  cases owned : ownedReport sha256 draw db authorization reportId with
  | error e => exact ⟨rfl, agree, fun row member _ => member⟩
  | ok row =>
    obtain ⟨own, rfl⟩ := ownedReport_spec valid owned
    obtain ⟨answer, tokens, rows⟩ := setVisibility_spec (find?_of_own own) distinct fresh isPublic
    obtain ⟨answer', tokens', rows'⟩ := setVisibility_spec
      (find?_of_own (agree.own ▸ own : row ∈ ownRows device db')) distinct' fresh' isPublic
    refine ⟨by simp only [answer, answer'], ?_, fun other member notOwn => ?_⟩
    · exact agree.update (changeOf_id draw _ isPublic) (changeOf_deviceId draw _ isPublic) rows rows'
        own tokens tokens'
    · dsimp only
      rw [rows]
      refine List.mem_map.mpr ⟨other, member, if_neg fun same => notOwn ?_⟩
      have inRows := List.mem_filter.mp own
      rw [List.inj_on_of_nodup_map db.reports.unique member inRows.1 same]
      simpa using inRows.2

theorem publicReport_of_agree (agree : Agree device db db' decoded decoded')
    (distinct : db.SlugsDistinct) (distinct' : db'.SlugsDistinct) (site : Site) (draw : RequestDraw)
    (slug : Text) :
    publicReport site draw db decoded slug = publicReport site draw db' decoded' slug := by
  cases success : draw.success 0 with
  | false => simp [publicReport, success]
  | true =>
    by_cases seen : ∃ row ∈ db.reports.rows,
        row.publishSlug = some slug ∧ row.visibility = .«public»
    · obtain ⟨row, member, has, visible⟩ := seen
      have member' := (agree.visible row visible).mp member
      rw [publicReport_of_slug site success distinct decoded member has visible,
        publicReport_of_slug site success distinct' decoded' member' has visible]
      have text := agree.visibleTexts row member visible
      simp only [publicPage, readToString, text]
    · push Not at seen
      rw [publicReport_of_unseen site success decoded seen,
        publicReport_of_unseen site success decoded' fun row member has visible =>
          seen row ((agree.visible row visible).mpr member) has visible]

theorem myReports_of_agree (agree : Agree device db db' decoded decoded')
    (valid : requireDevice sha256 draw db authorization = .ok device) :
    myReports sha256 draw db authorization = myReports sha256 draw db' authorization := by
  have own := agree.own
  rw [ownRows, ownRows] at own
  rw [myReports, myReports, ← requireDevice_of_tokens agree.tokens, valid]
  dsimp only [bind, Except.bind]
  rw [own]

theorem myReportDetail_of_agree (agree : Agree device db db' decoded decoded')
    (valid : requireDevice sha256 draw db authorization = .ok device) (reportId : Text) :
    myReportDetail sha256 draw db decoded authorization reportId =
      myReportDetail sha256 draw db' decoded' authorization reportId := by
  rw [myReportDetail, myReportDetail, ← ownedReport_of_agree agree valid]
  cases owned : ownedReport sha256 draw db authorization reportId with
  | error e => rfl
  | ok row =>
    obtain ⟨own, rfl⟩ := ownedReport_spec valid owned
    have text := agree.ownTexts row own
    simp only [bind, Except.bind, readToString, text]

/-! ## Requests without a token -/

def noToken : ApiError := unauthorized "missing or invalid token".toList

/-- An unknown or expired token names no device. -/
theorem deviceFromBearer_eq_none
    (expired : ∀ token row, authorization = some ("Bearer ".toList ++ token) →
      db.tokens.find? (tokenHash sha256 token) = some row → row.expires ≤ draw.now) :
    deviceFromBearer sha256 draw db authorization = none := by
  rw [deviceFromBearer]
  cases shown : authorization.bind fun value => "Bearer ".toList.isPrefixOf? value with
  | none => rfl
  | some token =>
    obtain ⟨value, rfl, split⟩ := Option.bind_eq_some_iff.mp shown
    rw [List.isPrefixOf?_eq_some_iff_append_eq] at split
    dsimp only
    split_ifs
    · rw [Database.tokenDevice]
      cases found : db.tokens.find? (tokenHash sha256 token) with
      | none => rfl
      | some row =>
        have old := expired token row (by rw [split]) found
        simpa [Option.filter] using old
    · rfl

/-- A request whose token names no device is refused, whatever reports there are. -/
theorem refused_of_no_device (site : Site)
    (unknown : deviceFromBearer sha256 draw db authorization = none) (decoded : Files) :
    myReports sha256 draw db authorization = .error noToken ∧
      (∀ reportId, myReportDetail sha256 draw db decoded authorization reportId = .error noToken) ∧
      ∀ reportId isPublic, mySetVisibility sha256 site draw db authorization reportId isPublic =
        (db, .error noToken) := by
  have refused : requireDevice sha256 draw db authorization = .error noToken := by
    rw [requireDevice, unknown]
    rfl
  have owned (reportId : Text) :
      ownedReport sha256 draw db authorization reportId = .error noToken := by
    rw [ownedReport, refused]
    rfl
  refine ⟨by rw [myReports, refused]; rfl, fun reportId => ?_, fun reportId isPublic => ?_⟩
  · rw [myReportDetail, owned]
    rfl
  · rw [mySetVisibility, owned]

/-- In two states that agree on the reports of a device, the public reports and the tokens, with the
same new slug that is new in both, a request with a token of the device and a request for a public
report have the same answers, and the states agree afterwards. No report of another device changes.
A token that is unknown or expired is refused with 401 in any state with the same tokens, whatever the
reports and texts are, and changes nothing. -/
theorem device_views_noninterfering (sha256 : Bytes → Bytes) (site : Site) (draw : RequestDraw)
    {device : Text} {db db' : Database} {decoded decoded' : Files}
    (agree : Agree device db db' decoded decoded') (distinct : db.SlugsDistinct)
    (distinct' : db'.SlugsDistinct) (fresh : ∀ id, db.slug id ≠ some (draw.secret.take 16))
    (fresh' : ∀ id, db'.slug id ≠ some (draw.secret.take 16)) :
    (∀ authorization, requireDevice sha256 draw db authorization = .ok device →
      myReports sha256 draw db authorization = myReports sha256 draw db' authorization ∧
      (∀ reportId, myReportDetail sha256 draw db decoded authorization reportId =
        myReportDetail sha256 draw db' decoded' authorization reportId) ∧
      ∀ reportId, ∀ request ∈ [myPublish, myUnpublish],
        (request sha256 site draw db authorization reportId).2 =
            (request sha256 site draw db' authorization reportId).2 ∧
          Agree device (request sha256 site draw db authorization reportId).1
            (request sha256 site draw db' authorization reportId).1 decoded decoded' ∧
          ∀ row ∈ db.reports.rows, row.deviceId ≠ some device →
            row ∈ (request sha256 site draw db authorization reportId).1.reports.rows) ∧
    (∀ slug, publicReport site draw db decoded slug = publicReport site draw db' decoded' slug) ∧
    ∀ authorization, (∀ token row, authorization = some ("Bearer ".toList ++ token) →
        db.tokens.find? (tokenHash sha256 token) = some row → row.expires ≤ draw.now) →
      ∀ other : Database, ∀ texts, other.tokens = db.tokens →
        myReports sha256 draw other authorization = .error noToken ∧
        (∀ reportId, myReportDetail sha256 draw other texts authorization reportId =
          .error noToken) ∧
        ∀ reportId, ∀ request ∈ [myPublish, myUnpublish],
          request sha256 site draw other authorization reportId = (other, .error noToken) := by
  refine ⟨fun authorization valid => ⟨?_, ?_, ?_⟩, ?_, fun authorization expired other texts tokens => ?_⟩
  · exact myReports_of_agree agree valid
  · exact myReportDetail_of_agree agree valid
  · intro reportId request which
    have answers := mySetVisibility_of_agree agree distinct distinct' fresh fresh' valid site reportId
    simp only [List.mem_cons, List.not_mem_nil, or_false] at which
    rcases which with rfl | rfl
    · exact answers true
    · exact answers false
  · exact publicReport_of_agree agree distinct distinct' site draw
  · have unknown : deviceFromBearer sha256 draw other authorization = none :=
      deviceFromBearer_eq_none (tokens ▸ expired)
    obtain ⟨reports, detail, visibility⟩ := refused_of_no_device site unknown texts
    refine ⟨reports, detail, fun reportId request which => ?_⟩
    simp only [List.mem_cons, List.not_mem_nil, or_false] at which
    rcases which with rfl | rfl
    · exact visibility reportId true
    · exact visibility reportId false

/-! ## Concrete states -/

def demoDigest (_ : Bytes) : Bytes := [0]

/-- The service after uploads, with a token of the first device. -/
def demoState (actions : List Service.Action) : Database :=
  { ((Machine.run (Service.step Service.demoSetup) {} actions).getD {}).db with
    tokens := ⟨[⟨tokenHash demoDigest "t".toList, "d1".toList, 100⟩], by decide⟩ }

/-- A private report of a second device. -/
def demoOther : List Service.Action :=
  [.request 1 ⟨some "other".toList, some "sig".toList, some "u2".toList⟩ [2],
    .upload 1 { newId := "d2".toList }, .upload 1 {}, .upload 1 {}, .upload 1 {},
    .upload 1 { newId := "j2".toList }]

/-- The first device does not learn of the report of the second one. -/
theorem second_device_unseen :
    (demoState (Service.demoUpload 0)).reports.rows.length = 1 ∧
      (demoState (Service.demoUpload 0 ++ demoOther)).reports.rows.length = 2 ∧
      myReports demoDigest {} (demoState (Service.demoUpload 0)) (some "Bearer t".toList) =
        myReports demoDigest {} (demoState (Service.demoUpload 0 ++ demoOther))
          (some "Bearer t".toList) := by
  refine ⟨by decide +kernel, by decide +kernel, ?_⟩
  have unpublished := @Links.slug_of_unpublished (demoState (Service.demoUpload 0))
    (by decide +kernel)
  have unpublished' := @Links.slug_of_unpublished
    (demoState (Service.demoUpload 0 ++ demoOther)) (by decide +kernel)
  have hidden : ∀ row ∈ (demoState (Service.demoUpload 0)).reports.rows,
      row.visibility ≠ .«public» := by decide +kernel
  have hidden' : ∀ row ∈ (demoState (Service.demoUpload 0 ++ demoOther)).reports.rows,
      row.visibility ≠ .«public» := by decide +kernel
  have agree : Agree "d1".toList (demoState (Service.demoUpload 0))
      (demoState (Service.demoUpload 0 ++ demoOther)) (fun _ => none) (fun _ => none) :=
    { own := by decide +kernel
      ownTexts := fun _ _ => rfl
      visible := fun row isPublic =>
        ⟨fun member => absurd isPublic (hidden row member),
          fun member => absurd isPublic (hidden' row member)⟩
      visibleTexts := fun _ _ _ => rfl
      tokens := fun _ => rfl }
  have views := device_views_noninterfering demoDigest ⟨[], []⟩ {} agree
    (fun id _ _ has => by simp [unpublished] at has)
    (fun id _ _ has => by simp [unpublished'] at has) (by simp [unpublished])
    (by simp [unpublished'])
  exact (views.1 (some "Bearer t".toList) rfl).1

end UcrashReport.Api
