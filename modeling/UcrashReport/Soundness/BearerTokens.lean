import UcrashReport.Soundness.DeviceLogin
import UcrashReport.Store.Leases

/-! # Bearer tokens

Tokens are leases of devices: what the table has of them is what the logins have inserted, save for
rows that had run out and were deleted. So a token is good for a device if and only if the last login
that drew it was of that device and its hour is not over.
-/

namespace UcrashReport.Logins

open Rust Rust.Text Store Api

def lease : LoginEvent → Option (Leases.Event Text Text)
  | .token _ _ _ row _ _ => some (.granted row.tokenHash row.deviceId row.expires)
  | .issued _ _ _ | .taken _ _ _ _ | .failed _ _ => none

/-- The tokens by their hashes. -/
def tokenLeases (db : Database) : Leases.Held Text Text := fun tokenHash =>
  (db.tokens.find? tokenHash).map fun row => (row.deviceId, row.expires)

theorem tokenDevice_eq (db : Database) (tokenHash : Text) (now : ℤ) :
    db.tokenDevice tokenHash now = (tokenLeases db).holder? now tokenHash := by
  rw [Database.tokenDevice, Leases.Held.holder?, tokenLeases]
  cases db.tokens.find? tokenHash with
  | none => rfl
  | some row =>
    rw [Option.map_some, Option.filter, Option.filter]
    split_ifs <;> rfl

theorem tokenLeases_congr {db db' : Database} (same : db'.tokens = db.tokens) :
    tokenLeases db' = tokenLeases db := by
  funext tokenHash
  rw [tokenLeases, tokenLeases, same]

theorem tokenLeases_insertToken {db db' : Database} {row : TokenRow}
    (inserted : db.insertToken row = some db') :
    tokenLeases db' = Function.update (tokenLeases db) row.tokenHash
      (some (row.deviceId, row.expires)) := by
  rw [Database.insertToken, Option.ite_none_right_eq_some, Option.map_eq_some_iff] at inserted
  obtain ⟨-, tokens, added, rfl⟩ := inserted
  funext tokenHash
  rw [tokenLeases, Table.find?_insert added, Function.update_apply]
  by_cases same : tokenHash = row.tokenHash
  · rw [if_pos same.symm, if_pos same, Option.map_some]
  · rw [if_neg (Ne.symm same), if_neg same, tokenLeases]

theorem tokenLeases_deleteTokens (db : Database) (now : ℤ) (tokenHash : Text) :
    tokenLeases (db.deleteTokens now) tokenHash = tokenLeases db tokenHash ∨
      tokenLeases (db.deleteTokens now) tokenHash = none ∧
        ∀ lease ∈ tokenLeases db tokenHash, lease.2 < now := by
  rw [tokenLeases, Database.deleteTokens, Table.find?_delete, tokenLeases]
  cases db.tokens.find? tokenHash with
  | none => exact .inl rfl
  | some row =>
    by_cases out : row.expires < now
    · exact .inr (by simp [out])
    · exact .inl (by simpa using out)

/-! ## Steps -/

/-- The table of tokens is explained by the events, and a token is of the device of its key and runs
out an hour after its login. -/
structure Issued (now : ℤ) (l : Logins) : Prop where
  explains : Leases.Explains (l.events.filterMap lease) now (tokenLeases l.service.db)
  ready : ∀ call pubkey signature nonce deviceId,
    l.calls call = some (.insertToken pubkey signature nonce deviceId) →
      l.service.db.deviceOf pubkey = some deviceId
  tokens : ∀ pubkey signature nonce row issuedAt instant,
    .token pubkey signature nonce row issuedAt instant ∈ l.events →
      l.service.db.deviceOf pubkey = some row.deviceId ∧ row.expires = issuedAt + 3600

theorem Issued.empty (now : ℤ) : Issued now {} where
  explains := Leases.Explains.empty now
  ready _ _ _ _ _ none := by simp at none
  tokens _ _ _ _ _ _ member := by simp at member

/-- A deletion of tokens does not read a later time. -/
def Timely (now : ℤ) (_ : Logins) : Action → Prop
  | .deleteTokens time => time ≤ now
  | _ => True

section Steps

variable {now : ℤ} {l : Logins} (issued : Issued now l)

include issued

/-- Calls move, and events are added that are not of tokens. -/
theorem Issued.moved {nonces : Nonces} {clock : ℤ} {call : ℕ} {next : Option LoginCall}
    {new : List LoginEvent}
    (ready : ∀ pubkey signature nonce deviceId,
      next = some (.insertToken pubkey signature nonce deviceId) →
        l.service.db.deviceOf pubkey = some deviceId)
    (others : new.filterMap lease = []) :
    Issued now ⟨l.service, nonces, Function.update l.calls call next, clock, new ++ l.events⟩ where
  explains := by
    dsimp only
    rw [List.filterMap_append, others, List.nil_append]
    exact issued.explains
  ready other pubkey signature nonce deviceId current := by
    dsimp only at current
    rw [Function.update_apply] at current
    split_ifs at current
    · exact ready pubkey signature nonce deviceId current
    · exact issued.ready other pubkey signature nonce deviceId current
  tokens pubkey signature nonce row issuedAt instant member := by
    rcases List.mem_append.mp member with isNew | before
    · exact absurd (List.filterMap_eq_nil_iff.mp others _ isNew) (by simp [lease])
    · exact issued.tokens pubkey signature nonce row issuedAt instant before

theorem Issued.advanced {libs : LoginLibs} {call : ℕ} {draw : LoginDraw} {current : LoginCall}
    {result : Database × Nonces × LoginProgress} (running : l.calls call = some current)
    (move : LoginMove libs draw l.service.db l.nonces current result) :
    Issued now (l.afterLogin libs call current draw result) := by
  cases move with
  | refused =>
    refine issued.moved (by simp [nextCall]) ?_
    cases current with
    | login => simp [eventsOf, lease]
    | challenge | issue | verify | insertToken => simp [eventsOf, loss, held, lease]
  | known => exact issued.moved (by simp [nextCall]) rfl
  | issued => exact issued.moved (by simp [nextCall]) rfl
  | taken pending =>
    refine issued.moved (by simp [nextCall]) ?_
    rw [eventsOf, pending]
    rfl
  | unchallenged => exact issued.moved (by simp [nextCall]) rfl
  | verified verifies device =>
    refine issued.moved (fun pubkey signature nonce deviceId next => ?_) rfl
    obtain ⟨rfl, -, -, rfl⟩ := LoginCall.insertToken.inj (Option.some.inj next)
    exact device
  | @inserted pubkey signature deviceId nonce db' inserted =>
    have devices : db'.devices = l.service.db.devices :=
      (Database.mem_tokens_of_insertToken inserted).2
    have deviceOf (pubkey : Text) : db'.deviceOf pubkey = l.service.db.deviceOf pubkey := by
      rw [Database.deviceOf, devices, Database.deviceOf]
    rw [afterLogin]
    constructor
    · dsimp only
      rw [eventsOf, List.singleton_append, tokenLeases_insertToken inserted]
      simp only [List.filterMap_cons, lease]
      exact issued.explains.grant _ _ _
    · intro other pubkey' signature' nonce' deviceId' current'
      dsimp only at current'
      rw [Function.update_apply] at current'
      split_ifs at current'
      · contradiction
      · rw [deviceOf]
        exact issued.ready other pubkey' signature' nonce' deviceId' current'
    · intro pubkey' signature' nonce' row issuedAt instant member
      rw [deviceOf]
      rw [eventsOf, List.singleton_append, List.mem_cons] at member
      rcases member with now | before
      · obtain ⟨rfl, -, -, rfl, rfl, -⟩ := LoginEvent.token.inj now
        exact ⟨issued.ready call pubkey' signature nonce deviceId running, rfl⟩
      · exact issued.tokens pubkey' signature' nonce' row issuedAt instant before

theorem issued_of_step {setup : Setup} {base64 : Bytes → Text} {l' : Logins} {action : Action}
    (timely : Timely now l action) (stepped : step setup base64 l action = some l') :
    Issued now l' := by
  cases move_of_step stepped with
  | served served =>
    refine ⟨?_, fun call pubkey signature nonce deviceId current => ?_,
      fun pubkey signature nonce row issuedAt instant member => ?_⟩
    · dsimp only
      rw [tokenLeases_congr (tokens_of_service_step served)]
      exact issued.explains
    · exact History.deviceOf_of_step served (issued.ready call pubkey signature nonce deviceId current)
    · exact (issued.tokens pubkey signature nonce row issuedAt instant member).imp_left
        (History.deviceOf_of_step served)
  | tokensDeleted time =>
    refine ⟨issued.explains.purge fun tokenHash => ?_, issued.ready, issued.tokens⟩
    refine (tokenLeases_deleteTokens l.service.db time tokenHash).imp_right (And.imp_right ?_)
    exact fun out lease member => lt_of_lt_of_le (out lease member) timely
  | begun unused first_eq =>
    refine issued.moved ?_ (show ([] : List LoginEvent).filterMap lease = [] from rfl)
    rcases first_eq with ⟨pubkey, rfl⟩ | ⟨pubkey, signature, rfl⟩ <;> simp
  | advanced running later move => exact issued.advanced running move
  | abandoned call =>
    refine issued.moved (by simp) ?_
    rw [List.filterMap_eq_nil_iff]
    intro event member
    obtain ⟨current, -, lost⟩ := List.mem_flatMap.mp member
    obtain ⟨entry, -, rfl⟩ := List.mem_map.mp lost
    rfl

end Steps

/-! ## Runs -/

/-- The last login that drew a token with this hash was of the device, less than an hour ago: over a
nonce that was issued for the key of the device, and taken in time, the signature of this key
verifies. -/
def GoodFor (setup : Setup) (l : Logins) (now : ℤ) (token device : Text) : Prop :=
  ∃ newer older pubkey signature nonce row issuedAt instant,
    l.events = newer ++ .token pubkey signature nonce row issuedAt instant :: older ∧
    row.tokenHash = tokenHash setup.readers.sha256 token ∧ row.deviceId = device ∧
    now < issuedAt + 3600 ∧
    (∀ pubkey' signature' nonce' row' issuedAt' instant',
      .token pubkey' signature' nonce' row' issuedAt' instant' ∈ newer →
        row'.tokenHash ≠ tokenHash setup.readers.sha256 token) ∧
    l.service.db.deviceOf pubkey = some device ∧
    setup.readers.verify pubkey signature nonce = true ∧ TakenInTime older pubkey nonce

theorem Safe.start (setup : Setup) : Safe setup {} {} := by
  refine ⟨Ledger.empty _ _, by simp, by simp, by simp, fun row member => .inl member⟩

theorem goodFor_of_holder {setup : Setup} {l : Logins} {clock now : ℤ} (safe : Safe setup {} l)
    (issued : Issued clock l) {token device : Text}
    (holds : (tokenLeases l.service.db).holder? now (tokenHash setup.readers.sha256 token) =
      some device) : GoodFor setup l now token device := by
  obtain ⟨deadline, granted, inTime⟩ := issued.explains.granted_of_holder? holds
  obtain ⟨newer, event, older, split, said, silent⟩ := Leases.granted_filterMap.mp granted
  cases event with
  | issued | taken | failed => contradiction
  | token pubkey signature nonce row issuedAt instant =>
    rw [lease, Option.some.injEq, Leases.Event.granted.injEq] at said
    obtain ⟨hash, rfl, rfl⟩ := said
    have member : .token pubkey signature nonce row issuedAt instant ∈ l.events := by simp [split]
    obtain ⟨verifies, taken⟩ := safe.matched pubkey signature nonce row issuedAt instant older
      ⟨newer, split.symm⟩
    obtain ⟨device, lifetime⟩ :=
      issued.tokens pubkey signature nonce row issuedAt instant member
    refine ⟨newer, older, pubkey, signature, nonce, row, issuedAt, instant, split, hash, rfl,
      lifetime ▸ inTime, ?_, device, verifies, taken⟩
    exact fun _ _ _ row' _ _ later => silent _ later (.granted row'.tokenHash _ _) rfl

theorem holder_of_goodFor {setup : Setup} {l : Logins} {now : ℤ} (issued : Issued now l)
    {token device : Text} (good : GoodFor setup l now token device) :
    (tokenLeases l.service.db).holder? now (tokenHash setup.readers.sha256 token) = some device := by
  obtain ⟨newer, older, pubkey, signature, nonce, row, issuedAt, instant, split, hash, rfl, inTime,
    others, -⟩ := good
  have member : .token pubkey signature nonce row issuedAt instant ∈ l.events := by simp [split]
  obtain ⟨-, lifetime⟩ := issued.tokens pubkey signature nonce row issuedAt instant member
  rw [issued.explains.holder?_iff (Int.le_refl now)]
  refine ⟨row.expires, Leases.granted_filterMap.mpr ⟨newer, _, older, split, ?_, ?_⟩,
    lifetime ▸ inTime⟩
  · rw [lease, hash]
  · intro other member said about
    cases other with
    | issued | taken | failed => contradiction
    | token pubkey' signature' nonce' row' issuedAt' instant' =>
      rw [lease, Option.mem_some_iff] at about
      rw [← about]
      exact others pubkey' signature' nonce' row' issuedAt' instant' member

/-- Where the device of a request comes from. -/
theorem deviceFromBearer_eq_some_iff (sha256 : Bytes → Bytes) {draw : RequestDraw} {db : Database}
    {authorization : Option Text} {device : Text} :
    deviceFromBearer sha256 draw db authorization = some device ↔
      ∃ token, authorization = some ("Bearer ".toList ++ token) ∧ draw.success 0 = true ∧
        (tokenLeases db).holder? draw.now (tokenHash sha256 token) = some device := by
  rw [deviceFromBearer]
  constructor
  · intro found
    cases shown : authorization.bind fun value => "Bearer ".toList.isPrefixOf? value with
    | none =>
      rw [shown] at found
      contradiction
    | some token =>
      obtain ⟨value, rfl, split⟩ := Option.bind_eq_some_iff.mp shown
      rw [List.isPrefixOf?_eq_some_iff_append_eq] at split
      rw [shown, Option.ite_none_right_eq_some, tokenDevice_eq] at found
      exact ⟨token, by rw [split], found⟩
  · rintro ⟨token, rfl, success, holds⟩
    rw [Option.bind_some, List.isPrefixOf?_eq_some_iff_append_eq.mpr rfl]
    rw [Option.ite_none_right_eq_some, tokenDevice_eq]
    exact ⟨success, holds⟩

/-- In a run in which no two nonces are the same and no deletion of tokens reads a time after now: a
bearer token is that of a device if and only if it is good for the device. -/
theorem bearer_tokens_exact (setup : Setup) (base64 : Bytes → Text) {l : Logins}
    {actions : List Action} {draw : RequestDraw}
    (distinct : Machine.Meets (step setup base64) FreshNonce {} actions)
    (timely : Machine.Meets (step setup base64) (Timely draw.now) {} actions)
    (reached : Machine.run (step setup base64) {} actions = some l) (success : draw.success 0 = true)
    (token device : Text) :
    deviceFromBearer setup.readers.sha256 draw l.service.db (some ("Bearer ".toList ++ token)) =
        some device ↔ GoodFor setup l draw.now token device := by
  have safe := Machine.invariant_of_run (I := Safe setup {})
    (fun _ _ _ safe fresh stepped => safe_of_step safe fresh stepped) (Safe.start setup) distinct
    reached
  have issued := Machine.invariant_of_run (I := Issued draw.now)
    (fun _ _ _ issued timely stepped => issued_of_step issued timely stepped)
    (Issued.empty draw.now) timely reached
  rw [deviceFromBearer_eq_some_iff]
  constructor
  · rintro ⟨token', same, -, holds⟩
    rw [Option.some.injEq, List.append_cancel_left_eq] at same
    exact goodFor_of_holder safe issued (same ▸ holds)
  · intro good
    exact ⟨token, rfl, success, holder_of_goodFor issued good⟩

instance (now : ℤ) (l : Logins) : ∀ action, Decidable (Timely now l action)
  | .deleteTokens time => inferInstanceAs (Decidable (time ≤ now))
  | .serve _ | .challenge _ _ | .login _ _ _ | .advance _ _ | .abandon _ =>
    inferInstanceAs (Decidable True)

/-- A token some seconds before its hour is over, after expired tokens have been deleted. -/
theorem demoLogin_bearer :
    ∃ l, Machine.run (step Service.demoSetup fun _ => []) {}
        (demoLogin 2000000000 ++ [.deleteTokens 3590]) = some l ∧
      deviceFromBearer Service.demoSetup.readers.sha256 { now := 3595 } l.service.db
        (some "Bearer t".toList) = some "d1".toList ∧
      ∃ newer older pubkey signature nonce row issuedAt instant,
        l.events = newer ++ .token pubkey signature nonce row issuedAt instant :: older ∧
        3595 < issuedAt + 3600 ∧ TakenInTime older pubkey nonce := by
  have shown : ((Machine.run (step Service.demoSetup fun _ => []) {}
      (demoLogin 2000000000 ++ [.deleteTokens 3590])).bind fun l =>
        deviceFromBearer Service.demoSetup.readers.sha256 { now := 3595 } l.service.db
          (some "Bearer t".toList)) = some "d1".toList := by decide +kernel
  obtain ⟨l, reached, accepted⟩ := Option.bind_eq_some_iff.mp shown
  have isGood := @bearer_tokens_exact Service.demoSetup (fun _ => []) l
    (demoLogin 2000000000 ++ [.deleteTokens 3590]) { now := 3595 } (by decide +kernel)
    (by decide +kernel) reached rfl "t".toList "d1".toList
  obtain ⟨newer, older, pubkey, signature, nonce, row, issuedAt, instant, split, -, -, inTime, -, -,
    -, taken⟩ := isGood.mp accepted
  exact ⟨l, reached, accepted, newer, older, pubkey, signature, nonce, row, issuedAt, instant, split,
    inTime, taken⟩

end UcrashReport.Logins
