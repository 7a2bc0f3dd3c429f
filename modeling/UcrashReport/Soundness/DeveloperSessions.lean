import UcrashReport.Machine.Run
import UcrashReport.Server.Auth

/-! # Developer sessions

Who is a developer to the pages of the server, by what has happened before: the last that was done
with the token is a login, less than seven days ago, with a password that the account accepts, and
the account was created on the command line before. Logins run concurrently, and expired sessions
are deleted at any time.
-/

namespace UcrashReport.Auth

open Rust Rust.Text Store Api

/-- What is done to accounts and sessions. -/
inductive AuthEvent
  | created (user : UserRow) (password : Text)
  | opened (login password token : Text) (user : UserRow) (issuedAt : ℤ)
  | closed (token : Text)
deriving DecidableEq, Repr

namespace AuthEvent

def token : AuthEvent → Option Text
  | created _ _ => none
  | opened _ _ token _ _ | closed token => some token

def lease (sha256 : Bytes → Bytes) : AuthEvent → Option (Leases.Event Text Text)
  | created _ _ => none
  | opened _ _ token user issuedAt =>
    some (.granted (tokenHash sha256 token) user.id (issuedAt + sessionTtlSecs))
  | closed token => some (.revoked (tokenHash sha256 token))

/-- An event is about the hash of its token. -/
theorem lease_key {sha256 : Bytes → Bytes} (event : AuthEvent) (k : Text) :
    (∀ said ∈ event.lease sha256, said.key ≠ k) ↔
      ∀ other ∈ event.token, tokenHash sha256 other ≠ k := by
  cases event <;> simp [lease, token, Leases.Event.key]

end AuthEvent

/-- The accounts with the logins that are running. The events are newest first; the latest time that
a deletion of expired sessions has read is remembered. -/
structure AuthState where
  accounts : Accounts := {}
  calls : ℕ → Option LoginPost := fun _ => none
  events : List AuthEvent := []
  cleanedAt : ℤ := 0

namespace AuthState

inductive Action
  | createUser (login : Text) (draw : AuthDraw)
  | login (call : ℕ) (login password : Text)
  | advance (call : ℕ) (draw : AuthDraw)
  | abandon (call : ℕ)
  | logout (cookie : Option Text) (draw : AuthDraw)
  | clean (draw : AuthDraw)
deriving DecidableEq, Repr

def eventsOf (draw : AuthDraw) : LoginPost → LoginPage ⊕ LoginPost → List AuthEvent
  | .insert login password user, .inl (.welcome token) =>
    [.opened login password token user draw.now]
  | _, _ => []

def afterLogin (s : AuthState) (call : ℕ) (current : LoginPost) (draw : AuthDraw) :
    Accounts × (LoginPage ⊕ LoginPost) → AuthState
  | (accounts, progress) =>
    { s with
      accounts
      calls := Function.update s.calls call (progress.elim (fun _ => none) some)
      events := eventsOf draw current progress ++ s.events }

/-- A login that is over or given up is forgotten. -/
def step (libs : AuthLibs) (s : AuthState) : Action → Option AuthState
  | .createUser login draw =>
    match createUser libs draw s.accounts login with
    | some (accounts, password) =>
      some { s with
        accounts
        events := ((accounts.userOf login).map fun user => .created user password).toList ++
          s.events }
    | none => some s
  | .login call login password =>
    if s.calls call = none then
      some { s with calls := Function.update s.calls call (some (.lookup login password)) }
    else none
  | .advance call draw =>
    (s.calls call).map fun current =>
      s.afterLogin call current draw (loginPost libs draw s.accounts current)
  | .abandon call => some { s with calls := Function.update s.calls call none }
  | .logout cookie draw =>
    some { s with
      accounts := logout libs.sha256 draw s.accounts cookie
      events := (if draw.success then cookie.toList.map .closed else []) ++ s.events }
  | .clean draw =>
    if draw.success then
      some { s with
        accounts := s.accounts.deleteSessions draw.now
        cleanedAt := max s.cleanedAt draw.now }
    else some s

end AuthState

/-! ## The accounts and their passwords -/

namespace Accounts

variable {accounts accounts' : Accounts}

theorem mem_of_userOf {login : Text} {user : UserRow} (found : accounts.userOf login = some user) :
    user ∈ accounts.users.rows ∧ user.login = login :=
  ⟨List.mem_of_find?_eq_some found, by simpa using List.find?_some found⟩

theorem insertUser_spec {row : UserRow} (inserted : accounts.insertUser row = some accounts') :
    accounts'.sessions = accounts.sessions ∧ accounts'.userOf row.login = some row ∧
      accounts.users.insert row = some accounts'.users := by
  rw [insertUser] at inserted
  split_ifs at inserted with taken
  obtain ⟨users, added, rfl⟩ := Option.map_eq_some_iff.mp inserted
  refine ⟨rfl, ?_, added⟩
  have free : accounts.users.rows.find? (fun other => other.login = row.login) = none := by
    rw [List.find?_eq_none]
    simpa using taken
  rw [Table.insert] at added
  split_ifs at added
  rw [← Option.some.inj added, userOf, List.find?_append, free]
  simp

end Accounts

theorem createUser_spec {libs : AuthLibs} {draw : AuthDraw} {accounts accounts' : Accounts}
    {login password : Text} (created : createUser libs draw accounts login = some (accounts', password)) :
    ∃ user, user.login = login ∧ libs.hashPassword draw.salt password = some user.pwHash ∧
      accounts'.sessions = accounts.sessions ∧ accounts'.userOf login = some user ∧
      accounts.users.insert user = some accounts'.users := by
  rw [createUser, Option.bind_eq_some_iff] at created
  obtain ⟨hash, hashed, created⟩ := created
  rw [Option.ite_none_right_eq_some, Option.map_eq_some_iff] at created
  obtain ⟨-, next, inserted, same⟩ := created
  obtain ⟨rfl, rfl⟩ := Prod.mk.inj same
  obtain ⟨sessions, found, added⟩ := Accounts.insertUser_spec inserted
  exact ⟨_, rfl, hashed, sessions, found, added⟩

/-! ## The invariant -/

/-- The account was created, its password was printed, and its hash is of this password. -/
def Known (libs : AuthLibs) (events : List AuthEvent) (user : UserRow) : Prop :=
  ∃ password salt, .created user password ∈ events ∧ libs.hashPassword salt password = some user.pwHash

structure Consistent (libs : AuthLibs) (s : AuthState) : Prop where
  explains : Leases.Explains (s.events.filterMap (AuthEvent.lease libs.sha256)) s.cleanedAt
    s.accounts.leases
  known : ∀ user ∈ s.accounts.users.rows, Known libs s.events user
  pending : ∀ call login password user, s.calls call = some (.insert login password user) →
    user ∈ s.accounts.users.rows ∧ user.login = login ∧
      verifyPassword libs password user.pwHash = true
  opened : ∀ login password token user issuedAt earlier,
    .opened login password token user issuedAt :: earlier <:+ s.events →
      user ∈ s.accounts.users.rows ∧ user.login = login ∧
        verifyPassword libs password user.pwHash = true ∧ Known libs earlier user

theorem Consistent.empty (libs : AuthLibs) : Consistent libs {} where
  explains := Leases.Explains.empty 0
  known _ member := by simp [Table.empty] at member
  pending _ _ _ _ none := by simp at none
  opened _ _ _ _ _ _ suffix := by simp at suffix

theorem Known.cons {libs : AuthLibs} {events : List AuthEvent} {user : UserRow}
    (known : Known libs events user) (event : AuthEvent) : Known libs (event :: events) user := by
  obtain ⟨password, salt, created, hashed⟩ := known
  exact ⟨password, salt, List.mem_cons_of_mem event created, hashed⟩

section Steps

variable {libs : AuthLibs} {s : AuthState} (consistent : Consistent libs s)

include consistent

theorem Consistent.createUser {draw : AuthDraw} {login password : Text} {accounts : Accounts}
    (created : createUser libs draw s.accounts login = some (accounts, password)) {user : UserRow}
    (found : accounts.userOf login = some user) :
    Consistent libs { s with accounts, events := .created user password :: s.events } := by
  obtain ⟨user', rfl, hashed, sessions, found', added⟩ := createUser_spec created
  rw [found', Option.some.injEq] at found
  subst found
  have rows := Table.mem_rows_insert added
  constructor
  · dsimp only
    rw [List.filterMap_cons_none rfl, Accounts.leases_congr sessions]
    exact consistent.explains
  · intro other member
    rcases (rows other).mp member with before | rfl
    · exact (consistent.known other before).cons _
    · exact ⟨password, draw.salt, List.mem_cons_self, hashed⟩
  · intro call login' password' other current
    obtain ⟨member, rest⟩ := consistent.pending call login' password' other current
    exact ⟨(rows other).mpr (.inl member), rest⟩
  · intro login' password' token other issuedAt earlier here
    rcases List.suffix_cons_iff.mp here with now | before
    · simp at now
    · obtain ⟨member, rest⟩ :=
        consistent.opened login' password' token other issuedAt earlier before
      exact ⟨(rows other).mpr (.inl member), rest⟩

/-- A call that begins or ends, or has found its user. -/
theorem Consistent.updateCall (call : ℕ) {next : Option LoginPost}
    (accepted : ∀ login password user, next = some (.insert login password user) →
      user ∈ s.accounts.users.rows ∧ user.login = login ∧
        verifyPassword libs password user.pwHash = true) :
    Consistent libs { s with calls := Function.update s.calls call next } where
  explains := consistent.explains
  known := consistent.known
  pending other login password user current := by
    dsimp only at current
    rw [Function.update_apply] at current
    split_ifs at current
    · exact accepted login password user current
    · exact consistent.pending other login password user current
  opened := consistent.opened

theorem Consistent.insertSession {login password : Text} {user : UserRow} {call : ℕ}
    (current : s.calls call = some (.insert login password user)) {draw : AuthDraw}
    {accounts : Accounts} (inserted : s.accounts.insertSession
      ⟨tokenHash libs.sha256 (newSecret draw.uuids), user.id, draw.now + sessionTtlSecs⟩ =
        some accounts) :
    Consistent libs { s with
      accounts
      events := .opened login password (newSecret draw.uuids) user draw.now :: s.events } := by
  obtain ⟨users, leases⟩ := Accounts.insertSession_spec inserted
  constructor
  · dsimp only
    simp only [List.filterMap_cons, AuthEvent.lease]
    rw [leases]
    exact consistent.explains.grant _ _ _
  · intro other member
    exact (consistent.known other (users ▸ member)).cons _
  · intro other login' password' user' current'
    dsimp only
    rw [users]
    exact consistent.pending other login' password' user' current'
  · intro login' password' token user' issuedAt earlier here
    dsimp only
    rw [users]
    rcases List.suffix_cons_iff.mp here with now | before
    · rw [List.cons.injEq, AuthEvent.opened.injEq] at now
      obtain ⟨⟨rfl, rfl, rfl, rfl, rfl⟩, rfl⟩ := now
      obtain ⟨member, same, verifies⟩ := consistent.pending call login' password' user' current
      exact ⟨member, same, verifies, consistent.known user' member⟩
    · exact consistent.opened login' password' token user' issuedAt earlier before

theorem Consistent.deleteSession (token : Text) :
    Consistent libs { s with
      accounts := s.accounts.deleteSession (tokenHash libs.sha256 token)
      events := .closed token :: s.events } where
  explains := by
    dsimp only
    simp only [List.filterMap_cons, AuthEvent.lease]
    rw [Accounts.leases_deleteSession]
    exact consistent.explains.revoke _
  known user member := (consistent.known user member).cons _
  pending := consistent.pending
  opened login password token' user issuedAt earlier here := by
    rcases List.suffix_cons_iff.mp here with now | before
    · simp at now
    · exact consistent.opened login password token' user issuedAt earlier before

theorem Consistent.clean (now : ℤ) :
    Consistent libs { s with
      accounts := s.accounts.deleteSessions now
      cleanedAt := max s.cleanedAt now } where
  explains := by
    refine (consistent.explains.wait (le_max_left s.cleanedAt now)).purge fun tokenHash => ?_
    refine (s.accounts.leases_deleteSessions now tokenHash).imp_right (And.imp_right ?_)
    intro out lease member
    exact lt_of_lt_of_le (out lease member) (le_max_right s.cleanedAt now)
  known := consistent.known
  pending := consistent.pending
  opened := consistent.opened

theorem consistent_of_step {action : AuthState.Action} {s' : AuthState}
    (stepped : AuthState.step libs s action = some s') : Consistent libs s' := by
  cases action with
  | createUser login draw =>
    rw [AuthState.step] at stepped
    cases created : createUser libs draw s.accounts login with
    | none =>
      rw [created, Option.some.injEq] at stepped
      exact stepped ▸ consistent
    | some result =>
      obtain ⟨accounts, password⟩ := result
      obtain ⟨user, -, -, -, found, -⟩ := createUser_spec created
      rw [created, Option.some.injEq] at stepped
      rw [← stepped, found]
      exact consistent.createUser created found
  | login call login password =>
    rw [AuthState.step, Option.ite_none_right_eq_some, Option.some.injEq] at stepped
    rw [← stepped.2]
    exact consistent.updateCall call (by simp)
  | advance call draw =>
    obtain ⟨current, running, rfl⟩ := Option.map_eq_some_iff.mp stepped
    cases current with
    | lookup login password =>
      rw [loginPost]
      split_ifs
      · cases found : s.accounts.userOf login with
        | none => exact consistent.updateCall call (by simp)
        | some user =>
          dsimp only
          split_ifs with verifies
          · refine consistent.updateCall call fun login' password' user' next => ?_
            obtain ⟨rfl, rfl, rfl⟩ := LoginPost.insert.inj (Option.some.inj next)
            obtain ⟨member, same⟩ := Accounts.mem_of_userOf found
            exact ⟨member, same, verifies⟩
          · exact consistent.updateCall call (by simp)
      · exact consistent.updateCall call (by simp)
    | insert login password user =>
      rw [loginPost]
      cases inserted : if draw.success then s.accounts.insertSession
          ⟨tokenHash libs.sha256 (newSecret draw.uuids), user.id, draw.now + sessionTtlSecs⟩
          else none with
      | none => exact consistent.updateCall call (by simp)
      | some accounts =>
        rw [Option.ite_none_right_eq_some] at inserted
        exact (consistent.insertSession running inserted.2).updateCall call (by simp)
  | abandon call =>
    rw [AuthState.step, Option.some.injEq] at stepped
    rw [← stepped]
    exact consistent.updateCall call (by simp)
  | logout cookie draw =>
    rw [AuthState.step, Option.some.injEq] at stepped
    rw [← stepped]
    cases cookie with
    | none =>
      rw [logout]
      split_ifs <;> exact consistent
    | some token =>
      rw [logout]
      split_ifs
      · exact consistent.deleteSession token
      · exact consistent
  | clean draw =>
    rw [AuthState.step] at stepped
    split_ifs at stepped
    · rw [Option.some.injEq] at stepped
      rw [← stepped]
      exact consistent.clean draw.now
    · rw [Option.some.injEq] at stepped
      exact stepped ▸ consistent

end Steps

/-! ## Runs -/

theorem consistent_of_run {libs : AuthLibs} {actions : List AuthState.Action} {s : AuthState}
    (reached : Machine.run (AuthState.step libs) {} actions = some s) : Consistent libs s :=
  Machine.invariant_of_every_run (fun _ _ _ consistent stepped => consistent_of_step consistent stepped)
    (Consistent.empty libs) reached

/-- In terms of the events, a session is open by the last login or logout with its token. -/
theorem granted_iff {sha256 : Bytes → Bytes} {events : List AuthEvent} {k holder : Text}
    {deadline : ℤ} :
    Leases.Granted (events.filterMap (AuthEvent.lease sha256)) k holder deadline ↔
      ∃ newer older login password token user issuedAt,
        events = newer ++ .opened login password token user issuedAt :: older ∧
        tokenHash sha256 token = k ∧ user.id = holder ∧ issuedAt + sessionTtlSecs = deadline ∧
        ∀ event ∈ newer, ∀ other ∈ event.token, tokenHash sha256 other ≠ k := by
  rw [Leases.granted_filterMap]
  constructor
  · rintro ⟨newer, event, older, rfl, granted, silent⟩
    cases event with
    | created user password => contradiction
    | closed token => simp [AuthEvent.lease] at granted
    | opened login password token user issuedAt =>
      rw [AuthEvent.lease, Option.some.injEq, Leases.Event.granted.injEq] at granted
      obtain ⟨hash, id, time⟩ := granted
      refine ⟨newer, older, login, password, token, user, issuedAt, rfl, hash, id, time, ?_⟩
      exact fun event member => (AuthEvent.lease_key event k).mp (silent event member)
  · rintro ⟨newer, older, login, password, token, user, issuedAt, rfl, rfl, rfl, rfl, others⟩
    refine ⟨newer, .opened login password token user issuedAt, older, rfl, rfl, ?_⟩
    exact fun event member => (AuthEvent.lease_key event _).mpr (others event member)

/-- The last login or logout with the token is a login of the developer, less than seven days ago, with
a password that the account accepts, and the account had been created with a password of its own
before. -/
def OpenFor (libs : AuthLibs) (s : AuthState) (now : ℤ) (cookie : Text) (d : Dev) : Prop :=
  ∃ newer older login password token user issuedAt,
    s.events = newer ++ .opened login password token user issuedAt :: older ∧
    tokenHash libs.sha256 token = tokenHash libs.sha256 cookie ∧
    (∀ event ∈ newer, ∀ other ∈ event.token,
      tokenHash libs.sha256 other ≠ tokenHash libs.sha256 cookie) ∧
    now < issuedAt + 7 * 24 * 3600 ∧ d = ⟨user.id, user.login⟩ ∧ user.login = login ∧
    verifyPassword libs password user.pwHash = true ∧ Known libs older user

theorem dev_eq_ok_iff {sha256 : Bytes → Bytes} {draw : AuthDraw} {accounts : Accounts}
    {cookie : Option Text} {d : Dev} :
    dev sha256 draw accounts cookie = .ok d ↔
      ∃ token user, cookie = some token ∧ draw.success = true ∧
        accounts.sessionUser (tokenHash sha256 token) draw.now = some user ∧
        d = ⟨user.id, user.login⟩ := by
  constructor
  · intro accepted
    cases cookie with
    | none => contradiction
    | some token =>
      rw [dev] at accepted
      split_ifs at accepted with success
      cases found : accounts.sessionUser (tokenHash sha256 token) draw.now with
      | none => simp [found] at accepted
      | some user =>
        rw [found, Except.ok.injEq] at accepted
        exact ⟨token, user, rfl, success, found, accepted.symm⟩
  · rintro ⟨token, user, rfl, success, found, rfl⟩
    rw [dev, if_pos success, found]

theorem openFor_of_dev {libs : AuthLibs} {s : AuthState} (consistent : Consistent libs s)
    {draw : AuthDraw} {cookie : Option Text} {d : Dev}
    (accepted : dev libs.sha256 draw s.accounts cookie = .ok d) :
    ∃ token, cookie = some token ∧ OpenFor libs s draw.now token d := by
  obtain ⟨cookie, user, rfl, -, found, rfl⟩ := dev_eq_ok_iff.mp accepted
  rw [Accounts.sessionUser_eq, Option.bind_eq_some_iff] at found
  obtain ⟨id, holds, known⟩ := found
  obtain ⟨deadline, granted, inTime⟩ := consistent.explains.granted_of_holder? holds
  obtain ⟨newer, older, login, password, token, user', issuedAt, split, hash, rfl, rfl, others⟩ :=
    granted_iff.mp granted
  obtain ⟨member, same, verifies, created⟩ :=
    consistent.opened login password token user' issuedAt older ⟨newer, split.symm⟩
  rw [Table.find?_eq_some_iff.mpr ⟨member, rfl⟩, Option.some.injEq] at known
  subst known
  exact ⟨cookie, rfl, newer, older, login, password, token, user', issuedAt, split, hash, others,
    inTime, rfl, same, verifies, created⟩

/-- As long as no deletion has read a later time: a cookie is that of a developer if and only if a
session of the developer is open. -/
theorem developer_sessions_exact (libs : AuthLibs) {actions : List AuthState.Action} {s : AuthState}
    (reached : Machine.run (AuthState.step libs) {} actions = some s) {draw : AuthDraw}
    (success : draw.success = true) (later : s.cleanedAt ≤ draw.now) (cookie : Text) (d : Dev) :
    dev libs.sha256 draw s.accounts (some cookie) = .ok d ↔ OpenFor libs s draw.now cookie d := by
  have consistent := consistent_of_run reached
  constructor
  · intro accepted
    obtain ⟨token, same, isOpen⟩ := openFor_of_dev consistent accepted
    exact Option.some.inj same ▸ isOpen
  · rintro ⟨newer, older, login, password, token, user, issuedAt, split, hash, others, inTime, rfl,
      same, verifies, created⟩
    obtain ⟨member, -⟩ :=
      consistent.opened login password token user issuedAt older ⟨newer, split.symm⟩
    refine dev_eq_ok_iff.mpr ⟨cookie, user, rfl, success, ?_, rfl⟩
    rw [Accounts.sessionUser_eq, Option.bind_eq_some_iff]
    refine ⟨user.id, ?_, Table.find?_eq_some_iff.mpr ⟨member, rfl⟩⟩
    refine (consistent.explains.holder?_iff later).mpr ⟨issuedAt + sessionTtlSecs, ?_, inTime⟩
    exact granted_iff.mpr ⟨newer, older, login, password, token, user, issuedAt, split, hash, rfl,
      rfl, others⟩

/-! ## Concrete runs -/

/-- Passwords are stored as they are. -/
def demoLibs : AuthLibs where
  sha256 := id
  hashPassword _ password := some password
  checkPassword password hash := some (password = hash)

/-- An account, a login with its password, a clean-up, and a logout of somebody else. -/
def demoSession : List AuthState.Action :=
  [.createUser "ann".toList { newId := "1".toList, uuids := ([1], [2]) },
    .login 0 "ann".toList "0102".toList, .advance 0 {},
    .advance 0 { now := 50, uuids := ([3], [4]) }, .clean { now := 90 },
    .logout (some "0506".toList) {}]

/-- The token is good until seven days after the login. -/
theorem demoSession_open :
    ∃ s, Machine.run (AuthState.step demoLibs) {} demoSession = some s ∧
      dev demoLibs.sha256 { now := 604849 } s.accounts (some "0304".toList) =
        .ok ⟨"1".toList, "ann".toList⟩ ∧
      ∃ newer older login password token user issuedAt,
        s.events = newer ++ .opened login password token user issuedAt :: older ∧
        verifyPassword demoLibs password user.pwHash = true ∧ 604849 < issuedAt + 7 * 24 * 3600 := by
  have start : (Machine.run (AuthState.step demoLibs) {} demoSession).any (fun s =>
      s.cleanedAt = 90 && decide (dev demoLibs.sha256 { now := 604849 } s.accounts
        (some "0304".toList) = .ok ⟨"1".toList, "ann".toList⟩)) = true := by decide +kernel
  obtain ⟨s, reached, holds⟩ := (Option.any_eq_true _ _).mp start
  simp only [Bool.and_eq_true, decide_eq_true_eq] at holds
  obtain ⟨newer, older, login, password, token, user, issuedAt, split, -, -, inTime, -, -, verifies, -⟩ :=
    (@developer_sessions_exact demoLibs demoSession s reached { now := 604849 } rfl
      (by rw [holds.1]; decide) "0304".toList ⟨"1".toList, "ann".toList⟩).mp holds.2
  exact ⟨s, reached, holds.2, newer, older, login, password, token, user, issuedAt, split, verifies,
    inTime⟩

end UcrashReport.Auth
