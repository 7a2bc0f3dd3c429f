import UcrashReport.Server.Login
import UcrashReport.ServiceMoves
import UcrashReport.Soundness.StoredReports

/-! # Device logins

Any number of challenges and logins run beside the service. What they do with nonces is written down
as it happens: a nonce is issued for a key, a login takes it, and the login ends with a token or
without one. A nonce that a login holds was the latest one of its key when it was taken, and it is
neither pending nor held by another login, so that it ends once.
-/

namespace UcrashReport

open Rust Rust.Text Store Api

/-! ## The logins beside the service -/

inductive LoginEvent
  | issued (pubkey : Text) (nonce : Bytes) (instant : ℤ)
  | taken (pubkey : Text) (nonce : Bytes) (issuedAt instant : ℤ)
  | token (pubkey signature : Text) (nonce : Bytes) (row : TokenRow) (issuedAt instant : ℤ)
  | failed (pubkey : Text) (nonce : Option Bytes)
deriving DecidableEq

namespace LoginEvent

def issuedNonce : LoginEvent → Option Bytes
  | .issued _ nonce _ => some nonce
  | .taken _ _ _ _ | .token _ _ _ _ _ _ | .failed _ _ => none

def tokenNonce : LoginEvent → Option Bytes
  | .token _ _ nonce _ _ _ => some nonce
  | .issued _ _ _ | .taken _ _ _ _ | .failed _ _ => none

/-- The nonce of a login that is over. -/
def endedNonce : LoginEvent → Option Bytes
  | .token _ _ nonce _ _ _ => some nonce
  | .failed _ nonce => nonce
  | .issued _ _ _ | .taken _ _ _ _ => none

/-- The nonce that a login has removed from the map. -/
def removedNonce : LoginEvent → Option Bytes
  | .taken _ nonce _ _ => some nonce
  | .failed _ nonce => nonce
  | .issued _ _ _ | .token _ _ _ _ _ _ => none

end LoginEvent

/-- The service with its challenges and logins, the pending nonces and the time. The events are
newest first. -/
structure Logins where
  service : Service := {}
  nonces : Nonces := fun _ => none
  calls : ℕ → Option LoginCall := fun _ => none
  clock : ℤ := 0
  events : List LoginEvent := []

namespace Logins

inductive Action
  | serve (action : Service.Action)
  | deleteTokens (now : ℤ)
  | challenge (call : ℕ) (pubkey : Text)
  | login (call : ℕ) (pubkey signature : Text)
  | advance (call : ℕ) (draw : LoginDraw)
  | abandon (call : ℕ)

/-- The key and the nonce of a login that has taken one. -/
def held : LoginCall → Option (Text × Bytes)
  | .verify pubkey _ nonce | .insertToken pubkey _ nonce _ => some (pubkey, nonce)
  | .challenge _ | .issue _ | .login _ _ => none

/-- A login that ends without a token loses its nonce: the one that it holds or, before it holds
one, the one that it finds. -/
def loss (call : LoginCall) : List LoginEvent :=
  (held call).toList.map fun held => .failed held.1 (some held.2)

def eventsOf (libs : LoginLibs) (draw : LoginDraw) (nonces : Nonces) :
    LoginCall → LoginProgress → List LoginEvent
  | .issue pubkey, _ => [.issued pubkey draw.nonce draw.instant]
  | .login pubkey _, .running _ =>
    (nonces pubkey).toList.map fun entry => .taken pubkey entry.1 entry.2 draw.instant
  | .login pubkey _, .answered _ => [.failed pubkey ((nonces pubkey).map (·.1))]
  | .insertToken pubkey signature nonce deviceId, .answered (.token token _) =>
    [.token pubkey signature nonce
      ⟨tokenHash libs.readers.sha256 token, deviceId, draw.now + tokenTtlSecs⟩ draw.now draw.instant]
  | _, .running _ => []
  | call, .answered _ => loss call

def nextCall : LoginProgress → Option LoginCall
  | .running next => some next
  | .answered _ => none

/-- What a step of a call leads to. -/
def afterLogin (libs : LoginLibs) (l : Logins) (call : ℕ) (current : LoginCall) (draw : LoginDraw) :
    Database × Nonces × LoginProgress → Logins
  | (db, nonces, progress) =>
    { service := { l.service with db }
      nonces
      calls := Function.update l.calls call (nextCall progress)
      clock := draw.instant
      events := eventsOf libs draw l.nonces current progress ++ l.events }

/-- The clock is monotonic. A call that is over or given up is forgotten. -/
def step (setup : Setup) (base64 : Bytes → Text) (l : Logins) : Action → Option Logins
  | .serve action => (Service.step setup l.service action).map fun service => { l with service }
  | .deleteTokens now =>
    some { l with service := { l.service with db := l.service.db.deleteTokens now } }
  | .challenge call pubkey =>
    if l.calls call = none then
      some { l with calls := Function.update l.calls call (some (.challenge pubkey)) }
    else none
  | .login call pubkey signature =>
    if l.calls call = none then
      some { l with calls := Function.update l.calls call (some (.login pubkey signature)) }
    else none
  | .advance call draw =>
    if l.clock ≤ draw.instant then
      (l.calls call).map fun current =>
        let libs := ⟨setup.readers, base64⟩
        l.afterLogin libs call current draw (loginStep libs draw l.service.db l.nonces current)
    else none
  | .abandon call =>
    some { l with
      calls := Function.update l.calls call none
      events := (l.calls call).toList.flatMap loss ++ l.events }

/-! ## The steps told apart -/

inductive Move (setup : Setup) (base64 : Bytes → Text) (l : Logins) : Action → Logins → Prop
  | served {action : Service.Action} {service : Service}
      (stepped : Service.step setup l.service action = some service) :
      Move setup base64 l (.serve action) { l with service }
  | tokensDeleted (now : ℤ) :
      Move setup base64 l (.deleteTokens now)
        { l with service := { l.service with db := l.service.db.deleteTokens now } }
  | begun {action : Action} {call : ℕ} {first : LoginCall} (unused : l.calls call = none)
      (first_eq : (∃ pubkey, first = .challenge pubkey) ∨
        ∃ pubkey signature, first = .login pubkey signature) :
      Move setup base64 l action { l with calls := Function.update l.calls call (some first) }
  | advanced {call : ℕ} {draw : LoginDraw} {current : LoginCall}
      {result : Database × Nonces × LoginProgress} (running : l.calls call = some current)
      (later : l.clock ≤ draw.instant)
      (move : LoginMove ⟨setup.readers, base64⟩ draw l.service.db l.nonces current result) :
      Move setup base64 l (.advance call draw)
        (l.afterLogin ⟨setup.readers, base64⟩ call current draw result)
  | abandoned (call : ℕ) :
      Move setup base64 l (.abandon call)
        { l with
          calls := Function.update l.calls call none
          events := (l.calls call).toList.flatMap loss ++ l.events }

theorem move_of_step {setup : Setup} {base64 : Bytes → Text} {l l' : Logins} {action : Action}
    (stepped : step setup base64 l action = some l') : Move setup base64 l action l' := by
  cases action with
  | serve action =>
    obtain ⟨service, served, rfl⟩ := Option.map_eq_some_iff.mp stepped
    exact .served served
  | deleteTokens now =>
    rw [step, Option.some.injEq] at stepped
    exact stepped ▸ .tokensDeleted now
  | challenge call pubkey =>
    rw [step, Option.ite_none_right_eq_some, Option.some.injEq] at stepped
    exact stepped.2 ▸ .begun stepped.1 (.inl ⟨pubkey, rfl⟩)
  | login call pubkey signature =>
    rw [step, Option.ite_none_right_eq_some, Option.some.injEq] at stepped
    exact stepped.2 ▸ .begun stepped.1 (.inr ⟨pubkey, signature, rfl⟩)
  | advance call draw =>
    rw [step, Option.ite_none_right_eq_some, Option.map_eq_some_iff] at stepped
    obtain ⟨later, current, running, rfl⟩ := stepped
    exact .advanced running later (login_moves _ draw l.service.db l.nonces current)
  | abandon call =>
    rw [step, Option.some.injEq] at stepped
    exact stepped ▸ .abandoned call

/-! ## What the events say of a nonce -/

/-- The latest nonce that was issued for a key, and when. -/
def Latest (events : List LoginEvent) (pubkey : Text) (nonce : Bytes) (issuedAt : ℤ) : Prop :=
  ∃ later earlier, events = later ++ .issued pubkey nonce issuedAt :: earlier ∧
    ∀ other instant, .issued pubkey other instant ∉ later

/-- A login took the nonce less than the lifetime after it was issued, when it was the latest of
its key. -/
def TakenInTime (events : List LoginEvent) (pubkey : Text) (nonce : Bytes) : Prop :=
  ∃ later issuedAt instant earlier,
    events = later ++ .taken pubkey nonce issuedAt instant :: earlier ∧
      issuedAt ≤ instant ∧ instant - issuedAt < nonceTtl ∧ Latest earlier pubkey nonce issuedAt

theorem Latest.mem {events : List LoginEvent} {pubkey : Text} {nonce : Bytes} {issuedAt : ℤ}
    (latest : Latest events pubkey nonce issuedAt) : .issued pubkey nonce issuedAt ∈ events := by
  obtain ⟨later, earlier, rfl, -⟩ := latest
  simp

theorem Latest.append {events : List LoginEvent} {pubkey : Text} {nonce : Bytes} {issuedAt : ℤ}
    (latest : Latest events pubkey nonce issuedAt) (new : List LoginEvent)
    (unreplaced : ∀ other instant, .issued pubkey other instant ∉ new) :
    Latest (new ++ events) pubkey nonce issuedAt := by
  obtain ⟨later, earlier, rfl, unreplaced'⟩ := latest
  refine ⟨new ++ later, earlier, by rw [List.append_assoc], fun other instant member => ?_⟩
  rcases List.mem_append.mp member with inNew | inLater
  · exact unreplaced other instant inNew
  · exact unreplaced' other instant inLater

theorem TakenInTime.append {events : List LoginEvent} {pubkey : Text} {nonce : Bytes}
    (taken : TakenInTime events pubkey nonce) (new : List LoginEvent) :
    TakenInTime (new ++ events) pubkey nonce := by
  obtain ⟨later, issuedAt, instant, earlier, rfl, inTime⟩ := taken
  exact ⟨new ++ later, issuedAt, instant, earlier, by rw [List.append_assoc], inTime⟩

theorem TakenInTime.removed {events : List LoginEvent} {pubkey : Text} {nonce : Bytes}
    (taken : TakenInTime events pubkey nonce) :
    nonce ∈ events.filterMap LoginEvent.removedNonce := by
  obtain ⟨later, issuedAt, instant, earlier, rfl, -⟩ := taken
  exact List.mem_filterMap.mpr ⟨.taken pubkey nonce issuedAt instant, by simp, rfl⟩

/-- Of one nonce, one event of issuing it. -/
theorem issued_once {events : List LoginEvent}
    (distinct : (events.filterMap LoginEvent.issuedNonce).Nodup) {pubkey pubkey' : Text}
    {nonce : Bytes} {issuedAt issuedAt' : ℤ} (first : .issued pubkey nonce issuedAt ∈ events)
    (second : .issued pubkey' nonce issuedAt' ∈ events) : pubkey = pubkey' := by
  induction events with
  | nil => contradiction
  | cons event earlier ih =>
    have mem {pubkey : Text} {issuedAt : ℤ} (member : .issued pubkey nonce issuedAt ∈ earlier) :
        nonce ∈ earlier.filterMap LoginEvent.issuedNonce :=
      List.mem_filterMap.mpr ⟨_, member, rfl⟩
    rcases List.mem_cons.mp first with rfl | before
    · rcases List.mem_cons.mp second with same | before'
      · exact (LoginEvent.issued.inj same).1.symm
      · exact absurd (mem before') (List.nodup_cons.mp distinct).1
    · rcases List.mem_cons.mp second with rfl | before'
      · exact absurd (mem before) (List.nodup_cons.mp distinct).1
      · refine ih (distinct.sublist ?_) before before'
        exact (List.sublist_cons_self event earlier).filterMap _

theorem tokens_sublist_ended (events : List LoginEvent) :
    (events.filterMap LoginEvent.tokenNonce).Sublist (events.filterMap LoginEvent.endedNonce) := by
  induction events with
  | nil => exact List.Sublist.refl _
  | cons event earlier ih =>
    cases event with
    | issued | taken => exact ih
    | token => exact ih.cons_cons _
    | failed pubkey nonce =>
      cases nonce with
      | none => exact ih
      | some nonce => exact ih.cons nonce

/-- A login ends once, with a token or without. -/
theorem no_token_of_failed {events : List LoginEvent}
    (once : (events.filterMap LoginEvent.endedNonce).Nodup) {pubkey : Text} {nonce : Bytes}
    (failed : .failed pubkey (some nonce) ∈ events) :
    nonce ∉ events.filterMap LoginEvent.tokenNonce := by
  induction events with
  | nil => contradiction
  | cons event earlier ih =>
    intro member
    obtain ⟨event', here, token⟩ := List.mem_filterMap.mp member
    have onceEarlier : (earlier.filterMap LoginEvent.endedNonce).Nodup :=
      once.sublist ((List.sublist_cons_self event earlier).filterMap _)
    rcases List.mem_cons.mp failed with rfl | failedBefore
    · rcases List.mem_cons.mp here with rfl | tokenBefore
      · contradiction
      · have ended := (tokens_sublist_ended earlier).subset
          (List.mem_filterMap.mpr ⟨event', tokenBefore, token⟩)
        exact (List.nodup_cons.mp once).1 ended
    · rcases List.mem_cons.mp here with rfl | tokenBefore
      · have ended : nonce ∈ earlier.filterMap LoginEvent.endedNonce :=
          List.mem_filterMap.mpr ⟨.failed pubkey (some nonce), failedBefore, rfl⟩
        cases event' with
        | issued | taken | failed => contradiction
        | token =>
          rw [LoginEvent.tokenNonce, Option.some.injEq] at token
          subst token
          exact (List.nodup_cons.mp once).1 ended
      · exact ih onceEarlier failedBefore (List.mem_filterMap.mpr ⟨event', tokenBefore, token⟩)

/-! ## Where a nonce is -/

/-- A nonce that was issued is pending for its key, or was dropped, or was removed from the map by
one login, which holds it until it is over. -/
structure Ledger (validKey : Text → Bool) (nonces : Nonces) (clock : ℤ)
    (holds : ℕ → Option (Text × Bytes)) (events : List LoginEvent) : Prop where
  issuedOnce : (events.filterMap LoginEvent.issuedNonce).Nodup
  pending : ∀ pubkey nonce issuedAt, nonces pubkey = some (nonce, issuedAt) →
    validKey pubkey = true ∧ issuedAt ≤ clock ∧ Latest events pubkey nonce issuedAt ∧
      nonce ∉ events.filterMap LoginEvent.removedNonce
  removed : events.filterMap LoginEvent.removedNonce ⊆ events.filterMap LoginEvent.issuedNonce
  ended : events.filterMap LoginEvent.endedNonce ⊆ events.filterMap LoginEvent.removedNonce
  endedOnce : (events.filterMap LoginEvent.endedNonce).Nodup
  held : ∀ call pubkey nonce, holds call = some (pubkey, nonce) →
    TakenInTime events pubkey nonce ∧ nonce ∉ events.filterMap LoginEvent.endedNonce
  heldOnce : ∀ call call' pubkey pubkey' nonce, holds call = some (pubkey, nonce) →
    holds call' = some (pubkey', nonce) → call = call'

namespace Ledger

variable {validKey : Text → Bool} {nonces : Nonces} {clock : ℤ}
  {holds : ℕ → Option (Text × Bytes)} {events : List LoginEvent}

theorem empty (validKey : Text → Bool) (clock : ℤ) :
    Ledger validKey (fun _ => none) clock (fun _ => none) [] := by
  constructor <;> simp

/-- Nothing happens to a nonce while time goes on. -/
theorem wait (ledger : Ledger validKey nonces clock holds events) {clock' : ℤ}
    {holds' : ℕ → Option (Text × Bytes)} (later : clock ≤ clock')
    (fewer : ∀ call entry, holds' call = some entry → holds call = some entry) :
    Ledger validKey nonces clock' holds' events where
  issuedOnce := ledger.issuedOnce
  pending pubkey nonce issuedAt current := by
    obtain ⟨valid, before, latest, unused⟩ := ledger.pending pubkey nonce issuedAt current
    exact ⟨valid, by omega, latest, unused⟩
  removed := ledger.removed
  ended := ledger.ended
  endedOnce := ledger.endedOnce
  held call pubkey nonce holding := ledger.held call pubkey nonce (fewer call _ holding)
  heldOnce call call' pubkey pubkey' nonce holding holding' :=
    ledger.heldOnce call call' pubkey pubkey' nonce (fewer call _ holding) (fewer call' _ holding')

theorem issue (ledger : Ledger validKey nonces clock holds events) {pubkey : Text} {nonce : Bytes}
    {instant : ℤ} (valid : validKey pubkey = true) (later : clock ≤ instant)
    (fresh : nonce ∉ events.filterMap LoginEvent.issuedNonce) :
    Ledger validKey (nonces.issue pubkey nonce instant) instant holds
      (.issued pubkey nonce instant :: events) where
  issuedOnce := List.nodup_cons.mpr ⟨fresh, ledger.issuedOnce⟩
  pending other known issuedAt current := by
    rw [Nonces.issue, Function.update_apply] at current
    split_ifs at current with same
    · rw [Option.some.injEq, Prod.mk.injEq] at current
      obtain ⟨rfl, rfl⟩ := current
      subst same
      exact ⟨valid, Int.le_refl instant, ⟨[], events, rfl, by simp⟩, fun used => fresh (ledger.removed used)⟩
    · rw [Option.filter_eq_some_iff] at current
      obtain ⟨validOther, before, latest, unused⟩ := ledger.pending other known issuedAt current.1
      refine ⟨validOther, by omega, ?_, unused⟩
      have unreplaced : ∀ nonce' instant', LoginEvent.issued other nonce' instant' ∉
          [LoginEvent.issued pubkey nonce instant] := by simp [same]
      exact latest.append [_] unreplaced
  removed := List.Subset.trans ledger.removed (List.subset_cons_self _ _)
  ended := ledger.ended
  endedOnce := ledger.endedOnce
  held call other known holding := by
    obtain ⟨taken, unended⟩ := ledger.held call other known holding
    exact ⟨taken.append [_], unended⟩
  heldOnce := ledger.heldOnce

/-- What stays pending when the entry of a key is removed. -/
theorem pending_of_removed (ledger : Ledger validKey nonces clock holds events) {event : LoginEvent}
    {pubkey : Text} (unissued : event.issuedNonce = none)
    (gone : ∀ nonce ∈ event.removedNonce, ∃ issuedAt, nonces pubkey = some (nonce, issuedAt))
    {other : Text} {nonce : Bytes} {issuedAt : ℤ}
    (current : Function.update nonces pubkey none other = some (nonce, issuedAt)) :
    validKey other = true ∧ issuedAt ≤ clock ∧ Latest (event :: events) other nonce issuedAt ∧
      nonce ∉ (event :: events).filterMap LoginEvent.removedNonce := by
  rw [Function.update_apply] at current
  split_ifs at current with same
  obtain ⟨valid, before, latest, unused⟩ := ledger.pending other nonce issuedAt current
  refine ⟨valid, before, latest.append [event] ?_, fun used => ?_⟩
  · rintro nonce' instant member
    obtain rfl := List.mem_singleton.mp member
    contradiction
  · rw [List.mem_filterMap] at used
    obtain ⟨event', member, removed⟩ := used
    rcases List.mem_cons.mp member with rfl | earlier
    · obtain ⟨issuedAt', found⟩ := gone nonce removed
      have latest' := (ledger.pending pubkey nonce issuedAt' found).2.2.1
      exact same (issued_once ledger.issuedOnce latest.mem latest'.mem)
    · exact unused (List.mem_filterMap.mpr ⟨event', earlier, removed⟩)

theorem take (ledger : Ledger validKey nonces clock holds events) {pubkey : Text} {nonce : Bytes}
    {issuedAt instant : ℤ} (call : ℕ) (later : clock ≤ instant)
    (current : nonces pubkey = some (nonce, issuedAt)) (inTime : instant - issuedAt < nonceTtl) :
    Ledger validKey (Function.update nonces pubkey none) clock
      (Function.update holds call (some (pubkey, nonce)))
      (.taken pubkey nonce issuedAt instant :: events) := by
  obtain ⟨-, before, latest, unused⟩ := ledger.pending pubkey nonce issuedAt current
  have taken : TakenInTime (.taken pubkey nonce issuedAt instant :: events) pubkey nonce :=
    ⟨[], issuedAt, instant, events, rfl, by omega, inTime, latest⟩
  -- A login that holds the nonce would have removed it.
  have unheld (other : ℕ) (pubkey' : Text) : holds other ≠ some (pubkey', nonce) := by
    intro holding
    exact unused (ledger.held other pubkey' nonce holding).1.removed
  constructor
  · exact ledger.issuedOnce
  · intro other nonce' issuedAt' found
    refine ledger.pending_of_removed rfl ?_ found
    intro removed same
    rw [LoginEvent.removedNonce, Option.mem_some_iff] at same
    exact ⟨issuedAt, same ▸ current⟩
  · refine List.cons_subset.mpr ⟨?_, ledger.removed⟩
    exact List.mem_filterMap.mpr ⟨.issued pubkey _ issuedAt, .tail _ latest.mem, rfl⟩
  · exact List.Subset.trans ledger.ended (List.subset_cons_self _ _)
  · exact ledger.endedOnce
  · intro other pubkey' nonce' holding
    rw [Function.update_apply] at holding
    split_ifs at holding with same
    · rw [Option.some.injEq, Prod.mk.injEq] at holding
      obtain ⟨rfl, rfl⟩ := holding
      exact ⟨taken, fun ended => unused (ledger.ended ended)⟩
    · obtain ⟨before, unended⟩ := ledger.held other pubkey' nonce' holding
      exact ⟨before.append [_], unended⟩
  · intro other other' pubkey' pubkey'' nonce' holding holding'
    rw [Function.update_apply] at holding holding'
    split_ifs at holding holding' with same same' same'
    · rw [same, same']
    · rw [Option.some.injEq, Prod.mk.injEq] at holding
      exact absurd (holding.2 ▸ holding') (unheld other' pubkey'')
    · rw [Option.some.injEq, Prod.mk.injEq] at holding'
      exact absurd (holding'.2 ▸ holding) (unheld other pubkey')
    · exact ledger.heldOnce other other' pubkey' pubkey'' nonce' holding holding'

/-- A login that fails at the map removes what is there. -/
theorem drop (ledger : Ledger validKey nonces clock holds events) (pubkey : Text) :
    Ledger validKey (Function.update nonces pubkey none) clock holds
      (.failed pubkey ((nonces pubkey).map (·.1)) :: events) := by
  have found {nonce : Bytes} (removed : nonce ∈ (nonces pubkey).map (·.1)) :
      ∃ issuedAt, nonces pubkey = some (nonce, issuedAt) := by
    rw [Option.mem_def, Option.map_eq_some_iff] at removed
    obtain ⟨⟨nonce', issuedAt⟩, current, rfl⟩ := removed
    exact ⟨issuedAt, current⟩
  have mem {read : LoginEvent → Option Bytes} {nonce : Bytes}
      (reads : read (.failed pubkey ((nonces pubkey).map (·.1))) = (nonces pubkey).map (·.1))
      (member : nonce ∈
        (LoginEvent.failed pubkey ((nonces pubkey).map (·.1)) :: events).filterMap read) :
      nonce ∈ (nonces pubkey).map (·.1) ∨ nonce ∈ events.filterMap read := by
    rw [List.mem_filterMap] at member
    obtain ⟨event, member, same⟩ := member
    rcases List.mem_cons.mp member with rfl | earlier
    · exact .inl (reads ▸ same)
    · exact .inr (List.mem_filterMap.mpr ⟨event, earlier, same⟩)
  constructor
  · exact ledger.issuedOnce
  · intro other nonce issuedAt current
    refine ledger.pending_of_removed rfl ?_ current
    exact fun nonce removed => found removed
  · intro nonce member
    rcases mem rfl member with now | before
    · obtain ⟨issuedAt, current⟩ := found now
      have latest := (ledger.pending pubkey nonce issuedAt current).2.2.1
      exact List.mem_filterMap.mpr ⟨.issued pubkey _ issuedAt, .tail _ latest.mem, rfl⟩
    · exact ledger.removed before
  · intro nonce member
    rcases mem rfl member with now | before
    · exact List.mem_filterMap.mpr ⟨_, List.mem_cons_self, now⟩
    · obtain ⟨event, earlier, removed⟩ := List.mem_filterMap.mp (ledger.ended before)
      exact List.mem_filterMap.mpr ⟨event, .tail _ earlier, removed⟩
  · rw [List.filterMap_cons]
    cases current : nonces pubkey with
    | none => exact ledger.endedOnce
    | some entry =>
      refine List.nodup_cons.mpr ⟨fun ended => ?_, ledger.endedOnce⟩
      exact (ledger.pending pubkey entry.1 entry.2 current).2.2.2 (ledger.ended ended)
  · intro call pubkey' nonce holding
    obtain ⟨taken, unended⟩ := ledger.held call pubkey' nonce holding
    refine ⟨taken.append [_], fun ended => ?_⟩
    rcases mem rfl ended with now | before
    · obtain ⟨issuedAt, current⟩ := found now
      exact (ledger.pending pubkey nonce issuedAt current).2.2.2 taken.removed
    · exact unended before
  · exact ledger.heldOnce

/-- A login that holds a nonce is over. -/
theorem finish (ledger : Ledger validKey nonces clock holds events) {call : ℕ} {pubkey : Text}
    {nonce : Bytes} {event : LoginEvent} (holding : holds call = some (pubkey, nonce))
    (ends : event.endedNonce = some nonce) (unissued : event.issuedNonce = none)
    (removes : ∀ other ∈ event.removedNonce, other = nonce) :
    Ledger validKey nonces clock (Function.update holds call none) (event :: events) := by
  obtain ⟨taken, unended⟩ := ledger.held call pubkey nonce holding
  have removed {other : Bytes}
      (member : other ∈ (event :: events).filterMap LoginEvent.removedNonce) :
      other ∈ events.filterMap LoginEvent.removedNonce := by
    obtain ⟨event', member, same⟩ := List.mem_filterMap.mp member
    rcases List.mem_cons.mp member with rfl | earlier
    · exact removes other same ▸ taken.removed
    · exact List.mem_filterMap.mpr ⟨event', earlier, same⟩
  have endedEvents : (event :: events).filterMap LoginEvent.endedNonce =
      nonce :: events.filterMap LoginEvent.endedNonce := by rw [List.filterMap_cons, ends]
  have issuedEvents : (event :: events).filterMap LoginEvent.issuedNonce =
      events.filterMap LoginEvent.issuedNonce := by rw [List.filterMap_cons, unissued]
  have remains {other : Bytes} (member : other ∈ events.filterMap LoginEvent.removedNonce) :
      other ∈ (event :: events).filterMap LoginEvent.removedNonce := by
    obtain ⟨event', earlier, same⟩ := List.mem_filterMap.mp member
    exact List.mem_filterMap.mpr ⟨event', .tail _ earlier, same⟩
  have gone {call' : ℕ} {entry : Text × Bytes}
      (holding' : Function.update holds call none call' = some entry) :
      call' ≠ call ∧ holds call' = some entry := by
    rw [Function.update_apply] at holding'
    split_ifs at holding' with same
    exact ⟨same, holding'⟩
  constructor
  · rw [issuedEvents]
    exact ledger.issuedOnce
  · intro other nonce' issuedAt current
    obtain ⟨valid, before, latest, unused⟩ := ledger.pending other nonce' issuedAt current
    refine ⟨valid, before, latest.append [event] ?_, fun used => unused (removed used)⟩
    intro nonce'' instant member
    obtain rfl := List.mem_singleton.mp member
    contradiction
  · rw [issuedEvents]
    exact fun other member => ledger.removed (removed member)
  · rw [endedEvents]
    refine List.cons_subset.mpr ⟨remains taken.removed, fun other member => ?_⟩
    exact remains (ledger.ended member)
  · rw [endedEvents]
    exact List.nodup_cons.mpr ⟨unended, ledger.endedOnce⟩
  · intro call' pubkey' nonce' holding'
    obtain ⟨different, holding'⟩ := gone holding'
    obtain ⟨taken', unended'⟩ := ledger.held call' pubkey' nonce' holding'
    refine ⟨taken'.append [event], ?_⟩
    rw [endedEvents, List.mem_cons, not_or]
    refine ⟨fun same => different ?_, unended'⟩
    exact ledger.heldOnce call' call pubkey' pubkey nonce (same ▸ holding') holding
  · intro call' call'' pubkey' pubkey'' nonce' holding' holding''
    exact ledger.heldOnce call' call'' pubkey' pubkey'' nonce' (gone holding').2 (gone holding'').2

end Ledger

/-! ## Steps -/

/-- Every token has its nonce and its row its token. -/
structure Safe (setup : Setup) (start : Database) (l : Logins) : Prop where
  ledger : Ledger setup.readers.validKey l.nonces l.clock
    (fun call => (l.calls call).bind held) l.events
  issuing : ∀ call pubkey, l.calls call = some (.issue pubkey) →
    setup.readers.validKey pubkey = true
  ready : ∀ call pubkey signature nonce deviceId,
    l.calls call = some (.insertToken pubkey signature nonce deviceId) →
      setup.readers.verify pubkey signature nonce = true ∧
        l.service.db.deviceOf pubkey = some deviceId
  matched : ∀ pubkey signature nonce row issuedAt instant earlier,
    .token pubkey signature nonce row issuedAt instant :: earlier <:+ l.events →
      setup.readers.verify pubkey signature nonce = true ∧ TakenInTime earlier pubkey nonce
  rows : ∀ row ∈ l.service.db.tokens.rows, row ∈ start.tokens.rows ∨
    ∃ pubkey signature nonce issuedAt instant,
      .token pubkey signature nonce row issuedAt instant ∈ l.events ∧
        l.service.db.deviceOf pubkey = some row.deviceId

theorem holds_update (calls : ℕ → Option LoginCall) (call : ℕ) (next : Option LoginCall) :
    (fun other => (Function.update calls call next other).bind held) =
      Function.update (fun other => (calls other).bind held) call (next.bind held) := by
  funext other
  rw [Function.update_apply, Function.update_apply]
  split_ifs <;> rfl

theorem tokens_of_service_step {setup : Setup} {s s' : Service} {action : Service.Action}
    (stepped : Service.step setup s action = some s') : s'.db.tokens = s.db.tokens := by
  cases Service.move_of_step stepped with
  | requested | abandoned | started | stopped | swept | halted => rfl
  | uploaded current move =>
    rw [Service.afterUpload_db]
    cases move with
    | authenticated signed upserted =>
      obtain ⟨devices, rfl⟩ := Database.eq_of_upsertDevice upserted
      rfl
    | reportInserted success inserted =>
      obtain ⟨reports, rfl⟩ := Database.eq_of_insertReport inserted
      rfl
    | jobInserted inserted =>
      obtain ⟨jobs, rfl⟩ := Database.eq_of_insertJob inserted
      rfl
    | refused | anonymous | known | placed | written | cut | reportRefused | jobRefused => rfl
  | worked current move =>
    cases move with
    | claimed claim =>
      obtain ⟨jobs, rfl⟩ := Database.eq_of_claimJob claim
      rfl
    | grouped _ _ _ upserted =>
      obtain ⟨groups, rfl⟩ := Database.eq_of_upsertGroup upserted
      rfl
    | rested | loaded | read | stored | finished | removed | keptRaw | gaveUp | closed
    | leftRunning | markedFailed | leftUnmarked => rfl
  | collected current move => cases move <;> rfl

/-- An event that is not a token leaves the tokens as they are. -/
theorem token_suffix_of_append {new events earlier : List LoginEvent} {pubkey signature : Text}
    {nonce : Bytes} {row : TokenRow} {issuedAt instant : ℤ}
    (others : ∀ pubkey signature nonce row issuedAt instant,
      LoginEvent.token pubkey signature nonce row issuedAt instant ∉ new)
    (here : .token pubkey signature nonce row issuedAt instant :: earlier <:+ new ++ events) :
    .token pubkey signature nonce row issuedAt instant :: earlier <:+ events := by
  induction new with
  | nil => exact here
  | cons event rest ih =>
    rw [List.cons_append, List.suffix_cons_iff] at here
    rcases here with same | inRest
    · rw [List.cons.injEq] at same
      exact absurd (same.1 ▸ List.mem_cons_self) (others pubkey signature nonce row issuedAt instant)
    · exact ih (fun pubkey signature nonce row issuedAt instant member =>
        others pubkey signature nonce row issuedAt instant (.tail _ member)) inRest

section Steps

variable {setup : Setup} {base64 : Bytes → Text} {start : Database} {l : Logins}
  (safe : Safe setup start l)

include safe

theorem Safe.served {service : Service} {action : Service.Action}
    (stepped : Service.step setup l.service action = some service) :
    Safe setup start { l with service } where
  ledger := safe.ledger
  issuing := safe.issuing
  ready call pubkey signature nonce deviceId current := by
    obtain ⟨verified, device⟩ := safe.ready call pubkey signature nonce deviceId current
    exact ⟨verified, History.deviceOf_of_step stepped device⟩
  matched := safe.matched
  rows row member := by
    rw [tokens_of_service_step stepped] at member
    refine (safe.rows row member).imp_right ?_
    rintro ⟨pubkey, signature, nonce, issuedAt, instant, token, device⟩
    exact ⟨pubkey, signature, nonce, issuedAt, instant, token, History.deviceOf_of_step stepped device⟩

/-- A call goes on or is over, and no token is inserted. -/
theorem Safe.moved {nonces : Nonces} {clock : ℤ} {call : ℕ} {next : Option LoginCall}
    {new : List LoginEvent}
    (ledger : Ledger setup.readers.validKey nonces clock
      (Function.update (fun other => (l.calls other).bind held) call (next.bind held))
      (new ++ l.events))
    (issuing : ∀ pubkey, next = some (.issue pubkey) → setup.readers.validKey pubkey = true)
    (ready : ∀ pubkey signature nonce deviceId,
      next = some (.insertToken pubkey signature nonce deviceId) →
        setup.readers.verify pubkey signature nonce = true ∧
          l.service.db.deviceOf pubkey = some deviceId)
    (others : ∀ pubkey signature nonce row issuedAt instant,
      LoginEvent.token pubkey signature nonce row issuedAt instant ∉ new) :
    Safe setup start ⟨l.service, nonces, Function.update l.calls call next, clock,
      new ++ l.events⟩ where
  ledger := by
    rw [holds_update]
    exact ledger
  issuing other pubkey current := by
    dsimp only at current
    rw [Function.update_apply] at current
    split_ifs at current
    · exact issuing pubkey current
    · exact safe.issuing other pubkey current
  ready other pubkey signature nonce deviceId current := by
    dsimp only at current
    rw [Function.update_apply] at current
    split_ifs at current
    · exact ready pubkey signature nonce deviceId current
    · exact safe.ready other pubkey signature nonce deviceId current
  matched pubkey signature nonce row issuedAt instant earlier here :=
    safe.matched pubkey signature nonce row issuedAt instant earlier (token_suffix_of_append others here)
  rows row member := by
    refine (safe.rows row member).imp_right ?_
    rintro ⟨pubkey, signature, nonce, issuedAt, instant, token, device⟩
    exact ⟨pubkey, signature, nonce, issuedAt, instant, List.mem_append_right new token, device⟩

/-- A call ends in the nonce that it holds, or it holds none. -/
theorem Safe.lost {call : ℕ} {current : LoginCall} (running : l.calls call = some current)
    {clock : ℤ} (later : l.clock ≤ clock) :
    Safe setup start ⟨l.service, l.nonces, Function.update l.calls call none, clock,
      loss current ++ l.events⟩ := by
  refine safe.moved ?_ (by simp) (by simp) ?_
  · have waited := safe.ledger.wait later (fun _ _ holding => holding)
    rw [Option.bind_none, loss]
    cases holding : held current with
    | none =>
      refine waited.wait (Int.le_refl clock) fun other entry => ?_
      rw [Function.update_apply]
      split_ifs
      · intro impossible
        contradiction
      · exact id
    | some entry =>
      have holds : (l.calls call).bind held = some (entry.1, entry.2) := by
        rw [running, Option.bind_some, holding]
      refine waited.finish holds rfl rfl fun other removed => ?_
      exact (Option.some.inj removed).symm
  · intro pubkey signature nonce row issuedAt instant member
    rw [loss, List.mem_map] at member
    obtain ⟨entry, -, same⟩ := member
    contradiction

theorem Safe.advanced {call : ℕ} {draw : LoginDraw} {current : LoginCall}
    {result : Database × Nonces × LoginProgress} (running : l.calls call = some current)
    (later : l.clock ≤ draw.instant)
    (fresh : ∀ pubkey, current = .issue pubkey →
      draw.nonce ∉ l.events.filterMap LoginEvent.issuedNonce)
    (move : LoginMove ⟨setup.readers, base64⟩ draw l.service.db l.nonces current result) :
    Safe setup start (l.afterLogin ⟨setup.readers, base64⟩ call current draw result) := by
  have waited := safe.ledger.wait later (fun _ _ holding => holding)
  have holding : (l.calls call).bind held = held current := by rw [running, Option.bind_some]
  -- The call holds afterwards what it held before.
  have same {next : Option LoginCall} (keeps : next.bind held = held current) :
      Function.update (fun other => (l.calls other).bind held) call (next.bind held) =
        fun other => (l.calls other).bind held := by
    rw [keeps, ← holding]
    exact Function.update_eq_self call _
  cases move with
  | refused early unread error =>
    cases current with
    | challenge pubkey => exact safe.lost running later
    | issue pubkey => exact absurd rfl (early pubkey)
    | verify pubkey signature nonce => exact safe.lost running later
    | insertToken pubkey signature nonce deviceId => exact safe.lost running later
    | login pubkey signature =>
      refine safe.moved ?_ (by simp [nextCall]) (by simp [nextCall]) (by simp [eventsOf])
      rw [same rfl]
      have dropped := waited.drop pubkey
      have unissued : l.nonces pubkey = none := by
        cases found : l.nonces pubkey with
        | none => rfl
        | some entry =>
          have valid := (safe.ledger.pending pubkey entry.1 entry.2 found).1
          rw [unread pubkey signature rfl] at valid
          contradiction
      rw [Function.update_eq_self_iff.mpr unissued.symm] at dropped
      exact dropped
  | known valid device =>
    refine safe.moved ?_ ?_ (by simp [nextCall]) (by simp [eventsOf])
    · rw [same rfl]
      exact waited
    · intro pubkey next
      rw [nextCall, Option.some.injEq, LoginCall.issue.injEq] at next
      exact next ▸ valid
  | issued pubkey =>
    refine safe.moved ?_ (by simp [nextCall]) (by simp [nextCall]) (by simp [eventsOf])
    rw [same rfl]
    exact safe.ledger.issue (safe.issuing call pubkey running) later (fresh pubkey rfl)
  | @taken pubkey signature nonce issuedAt pending inTime =>
    refine safe.moved ?_ (by simp [nextCall]) (by simp [nextCall]) (by simp [eventsOf])
    rw [eventsOf, pending]
    exact waited.take call (Int.le_refl _) pending inTime
  | unchallenged error =>
    refine safe.moved ?_ (by simp [nextCall]) (by simp [nextCall]) (by simp [eventsOf])
    rw [same rfl]
    exact waited.drop _
  | @verified pubkey signature deviceId nonce verifies device =>
    refine safe.moved ?_ (by simp [nextCall]) ?_ (by simp [eventsOf])
    · rw [same rfl]
      exact waited
    · intro pubkey' signature' nonce' deviceId' next
      rw [nextCall, Option.some.injEq, LoginCall.insertToken.injEq] at next
      obtain ⟨rfl, rfl, rfl, rfl⟩ := next
      exact ⟨verifies, device⟩
  | @inserted pubkey signature deviceId nonce db' inserted =>
    obtain ⟨verifies, device⟩ := safe.ready call pubkey signature nonce deviceId running
    obtain ⟨tokens, devices⟩ := Database.mem_tokens_of_insertToken inserted
    have deviceOf (pubkey : Text) : db'.deviceOf pubkey = l.service.db.deviceOf pubkey := by
      rw [Database.deviceOf, devices, Database.deviceOf]
    obtain ⟨taken, -⟩ := safe.ledger.held call pubkey nonce holding
    rw [afterLogin]
    constructor
    · dsimp only
      rw [holds_update]
      exact waited.finish holding rfl rfl (by simp [LoginEvent.removedNonce])
    · intro other pubkey' current
      dsimp only at current
      rw [Function.update_apply] at current
      split_ifs at current
      · contradiction
      · exact safe.issuing other pubkey' current
    · intro other pubkey' signature' nonce' deviceId' current
      dsimp only at current
      rw [Function.update_apply] at current
      split_ifs at current
      · contradiction
      · rw [deviceOf]
        exact safe.ready other pubkey' signature' nonce' deviceId' current
    · intro pubkey' signature' nonce' row issuedAt instant earlier here
      rw [eventsOf, List.singleton_append, List.suffix_cons_iff] at here
      rcases here with now | before
      · rw [List.cons.injEq, LoginEvent.token.injEq] at now
        obtain ⟨⟨rfl, rfl, rfl, rfl, rfl, rfl⟩, rfl⟩ := now
        exact ⟨verifies, taken⟩
      · exact safe.matched pubkey' signature' nonce' row issuedAt instant earlier before
    · intro row member
      rcases (tokens row).mp member with before | rfl
      · refine (safe.rows row before).imp_right ?_
        rintro ⟨pubkey', signature', nonce', issuedAt, instant, token, known⟩
        exact ⟨pubkey', signature', nonce', issuedAt, instant, .tail _ token,
          (deviceOf pubkey').trans known⟩
      · exact .inr ⟨pubkey, signature, nonce, draw.now, draw.instant, List.mem_cons_self,
          (deviceOf pubkey).trans device⟩

end Steps

/-! ## Runs -/

/-- A new nonce is different from all that were issued before. -/
def FreshNonce (l : Logins) : Action → Prop
  | .advance call draw =>
    match l.calls call with
    | some (.issue _) => draw.nonce ∉ l.events.filterMap LoginEvent.issuedNonce
    | _ => True
  | _ => True

theorem safe_of_step {setup : Setup} {base64 : Bytes → Text} {start : Database} {l l' : Logins}
    {action : Action} (safe : Safe setup start l) (fresh : FreshNonce l action)
    (stepped : step setup base64 l action = some l') : Safe setup start l' := by
  cases move_of_step stepped with
  | served served => exact safe.served served
  | tokensDeleted now =>
    refine ⟨safe.ledger, safe.issuing, safe.ready, safe.matched, fun row member => ?_⟩
    exact safe.rows row (List.mem_of_mem_filter member)
  | @begun _ call first unused first_eq =>
    have idle : held first = none := by
      rcases first_eq with ⟨pubkey, rfl⟩ | ⟨pubkey, signature, rfl⟩ <;> rfl
    have ledger : Ledger setup.readers.validKey l.nonces l.clock
        (Function.update (fun other => (l.calls other).bind held) call ((some first).bind held))
        ([] ++ l.events) := by
      rw [Option.bind_some, idle, Function.update_eq_self_iff.mpr (by rw [unused, Option.bind_none])]
      exact safe.ledger
    refine safe.moved ledger ?_ ?_ (by simp)
    · rcases first_eq with ⟨pubkey, rfl⟩ | ⟨pubkey, signature, rfl⟩ <;> simp
    · rcases first_eq with ⟨pubkey, rfl⟩ | ⟨pubkey, signature, rfl⟩ <;> simp
  | @advanced call draw current result running later move =>
    refine safe.advanced running later ?_ move
    rintro pubkey rfl
    simpa [FreshNonce, running] using fresh
  | abandoned call =>
    cases running : l.calls call with
    | none =>
      rw [Function.update_eq_self_iff.mpr running.symm]
      exact safe
    | some current =>
      rw [Option.toList_some, List.flatMap_singleton]
      exact safe.lost running (Int.le_refl l.clock)

/-- In a run from an idle server in which no two nonces are the same: a token comes from a login
whose signature verifies over a nonce that was issued for the same key, and that the login took less
than 60 seconds after that, when no later nonce had been issued for the key. No nonce leads to two
tokens. The nonce of a login that failed is not pending, and leads to no token. Every row of the
table was there or is of such a token, for the device of the key. -/
theorem device_login_safe_of_run (setup : Setup) (base64 : Bytes → Text) (service : Service)
    {l : Logins} {actions : List Action}
    (distinct : Machine.Meets (step setup base64) FreshNonce { service } actions)
    (reached : Machine.run (step setup base64) { service } actions = some l) :
    (∀ pubkey signature nonce row issuedAt instant earlier,
      .token pubkey signature nonce row issuedAt instant :: earlier <:+ l.events →
        setup.readers.verify pubkey signature nonce = true ∧ TakenInTime earlier pubkey nonce) ∧
    (l.events.filterMap LoginEvent.tokenNonce).Nodup ∧
    (∀ pubkey nonce, .failed pubkey (some nonce) ∈ l.events →
      (∀ other issuedAt, l.nonces other ≠ some (nonce, issuedAt)) ∧
        nonce ∉ l.events.filterMap LoginEvent.tokenNonce) ∧
    ∀ row ∈ l.service.db.tokens.rows, row ∈ service.db.tokens.rows ∨
      ∃ pubkey signature nonce issuedAt instant,
        .token pubkey signature nonce row issuedAt instant ∈ l.events ∧
          l.service.db.deviceOf pubkey = some row.deviceId := by
  have idle : Safe setup service.db { service } := by
    refine ⟨Ledger.empty _ _, by simp, by simp, by simp, fun row member => .inl member⟩
  have safe := Machine.invariant_of_run (I := Safe setup service.db)
    (fun _ _ _ safe fresh stepped => safe_of_step safe fresh stepped) idle distinct reached
  refine ⟨safe.matched, ?_, ?_, safe.rows⟩
  · exact safe.ledger.endedOnce.sublist (tokens_sublist_ended l.events)
  · intro pubkey nonce failed
    refine ⟨fun other issuedAt current => ?_, no_token_of_failed safe.ledger.endedOnce failed⟩
    have unused := (safe.ledger.pending other nonce issuedAt current).2.2.2
    exact unused (List.mem_filterMap.mpr ⟨.failed pubkey (some nonce), failed, rfl⟩)

/-! ## Concrete runs -/

instance (l : Logins) : ∀ action, Decidable (FreshNonce l action)
  | .advance call draw =>
    match current : l.calls call with
    | some (.issue _) =>
      decidable_of_iff (draw.nonce ∉ l.events.filterMap LoginEvent.issuedNonce)
        (by simp [FreshNonce, current])
    | some (.challenge _) | some (.login _ _) | some (.verify _ _ _) | some (.insertToken _ _ _ _)
    | none => decidable_of_iff True (by simp [FreshNonce, current])
  | .serve _ | .deleteTokens _ | .challenge _ _ | .login _ _ _ | .abandon _ =>
    inferInstanceAs (Decidable True)

/-- A challenge and a login of a device that has sent a report, whose token is inserted at a given
time. -/
def demoLogin (instant : ℤ) : List Action :=
  (Service.demoUpload 0).map .serve ++
    [.challenge 0 "key".toList, .advance 0 {}, .advance 0 { nonce := [7] },
      .login 1 "key".toList "sig".toList, .advance 1 { instant := 1000000000 },
      .advance 1 { instant := 1000000000 }, .advance 1 { instant, token := "t".toList }]

/-- The age of a nonce is checked when the login takes it, not when the token is inserted: here the
database keeps the login waiting, and the token comes 61 seconds after its nonce. -/
theorem token_of_old_nonce :
    ∃ l, Machine.run (step Service.demoSetup fun _ => []) {} (demoLogin 61000000000) = some l ∧
      l.events =
        [.token "key".toList "sig".toList [7] ⟨"00".toList, "d1".toList, 3600⟩ 0 61000000000,
          .taken "key".toList [7] 0 1000000000, .issued "key".toList [7] 0] ∧
      nonceTtl ≤ 61000000000 - 0 := by
  refine ⟨_, rfl, by decide +kernel, by decide⟩

/-- The login again, in time. -/
theorem demoLogin_safe :
    ∃ l, Machine.run (step Service.demoSetup fun _ => []) {} (demoLogin 2000000000) = some l ∧
      l.service.db.tokens.rows = [⟨"00".toList, "d1".toList, 3600⟩] ∧
      TakenInTime l.events.tail "key".toList [7] ∧
      (l.events.filterMap LoginEvent.tokenNonce).Nodup := by
  have safe := @device_login_safe_of_run Service.demoSetup (fun _ => []) {} _
    (demoLogin 2000000000) (by decide +kernel) rfl
  exact ⟨_, rfl, by decide +kernel,
    (safe.1 "key".toList "sig".toList [7] _ 0 2000000000 _ (List.suffix_refl _)).2, safe.2.1⟩

end Logins

end UcrashReport
