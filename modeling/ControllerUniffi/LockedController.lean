import ControllerUniffi.Data.Guarded
import ControllerUniffi.ErrorTracking

/-!
# A controller account under its lock

The methods of a controller account as tasks: what they do before they lock the account, each step they take under the
lock, and the panics that the SDK may cause there, which poison it.  What the SDK is asked is kept in order.

The account does what `Operation.perform` says in one step (`implements`).  So however calls from many threads are
interleaved, they are a sequence of operations (`calls_linearized`), the error message follows that sequence
(`errorText_linearized`), all calls return (`calls_return`), and after a panic of the SDK nothing gets through to it any
more (`poisoned_account`).
-/

namespace ControllerUniffi

/-! ### An account and what it has asked -/

/-- The state behind a lock, and what the SDK has been asked so far. -/
structure Asked (σ ε : Type) where
  inner : σ
  requests : List ε
  deriving DecidableEq, Repr

section

variable {σ ε α β : Type}

/-- What a call comes to at once. -/
def Asked.whole (account : Asked σ ε) (call : Step σ ε α) : Outcome α × Asked σ ε :=
  (call.outcome, { inner := call.state, requests := account.requests ++ call.requests })

theorem Asked.whole_quiet {account : Asked σ ε} {a : Outcome α} {f : α → β} :
    account.whole (Step.mapValue { outcome := a, requests := [], state := account.inner } f) =
      (a >>= fun x => .ok (f x), account) := by
  simp [Asked.whole, Step.mapValue]

end

namespace ControllerAccount

open Guarded Interleaving

variable {State : Type}

/-! ### The methods in steps -/

abbrev Account (State : Type) := Asked (ControllerInner State) ControllerRequest

/-- What a method does next under the lock. -/
inductive Section where
  | parse (rpcUrl : String)
  | ask (request : ControllerRequest)
  | record (errMsg : String) (e : ControllerError)
  | address
  | username
  | appId
  | chainId
  | errorMessage
  | clearLastError
  deriving DecidableEq, Repr

/-- The reply of the SDK, with the value that the method makes of it. -/
def answer (S : ControllerSdk State) (controller : SdkController State) :
    ControllerRequest → Except String Value × SdkController State
  | .signup signerType sessionExpiration cartridgeApiUrl =>
    (S.signup controller signerType sessionExpiration cartridgeApiUrl).map (Except.map fun _ => .unit) id
  | .disconnect => (S.disconnect controller).map (Except.map fun _ => .unit) id
  | .executeV3 calls =>
    (S.executeV3 controller calls).map (Except.map fun hash => .fieldElement ⟨feltLowerHex hash⟩) id
  | .switchChain url => (S.switchChain controller url).map (Except.map fun _ => .unit) id
  | .delegateAccount =>
    ((S.delegateAccount controller).map fun delegate => .fieldElement ⟨feltLowerHex delegate⟩, controller)

/-- The error that a method makes of the SDK's. -/
def wrap : ControllerRequest → String → ControllerError
  | .signup _ _ _ => .signupError
  | .disconnect => .disconnectError
  | .executeV3 _ => .executionError
  | .switchChain _ => .networkError
  | .delegateAccount => .networkError

section

variable (T : Crates)

/-- What a method does before it locks the account. -/
def prepare : Event State → Next (ControllerSdk State × Section) (Outcome Value)
  | (S, .signup signerType sessionExpiration cartridgeApiUrl) =>
    .go (S, .ask (.signup signerType sessionExpiration cartridgeApiUrl))
  | (S, .disconnect) => .go (S, .ask .disconnect)
  | (S, .execute calls) =>
    match tryIntoCalls T calls with
    | .error e => .done (.err e)
    | .ok callsVec => .go (S, .ask (.executeV3 callsVec))
  | (S, .switchChain rpcUrl) => .go (S, .parse rpcUrl)
  | (S, .delegateAccount) => .go (S, .ask .delegateAccount)
  | (S, .transfer recipient amount) =>
    match T.fromHex recipient.value with
    | .error e => .done (.err (.invalidInput e))
    | .ok recipientFelt =>
      match T.fromHex amount.value with
      | .error e => .done (.err (.invalidInput e))
      | .ok amountFelt =>
        match T.getSelectorFromName "transfer" with
        | .error _ => .done .panicked
        | .ok selector =>
          let call := {
            toAddress := S.strkContractAddress
            selector := selector
            calldata := [recipientFelt, amountFelt, 0] }
          .go (S, .ask (.executeV3 [call]))
  | (S, .address) => .go (S, .address)
  | (S, .username) => .go (S, .username)
  | (S, .appId) => .go (S, .appId)
  | (S, .chainId) => .go (S, .chainId)
  | (S, .errorMessage) => .go (S, .errorMessage)
  | (S, .clearLastError) => .go (S, .clearLastError)

/-- One step under the lock. -/
def advance (account : Account State) : ControllerSdk State × Section →
    Account State × Next (ControllerSdk State × Section) (Outcome Value)
  | (S, .parse rpcUrl) =>
    match T.urlParse rpcUrl with
    | .error e => (account, .done (.err (.invalidInput e)))
    | .ok url => (account, .go (S, .ask (.switchChain url)))
  | (S, .ask request) =>
    let reply := answer S account.inner.controller request
    let account := {
      inner := { account.inner with controller := reply.2 }
      requests := account.requests ++ [request] }
    match reply.1 with
    | .ok value => (account, .done (.ok value))
    | .error errMsg =>
      -- the error of `delegate_account` is not recorded
      if request = .delegateAccount then (account, .done (.err (wrap request errMsg)))
      else (account, .go (S, .record errMsg (wrap request errMsg)))
  | (_, .record errMsg e) =>
    ({ account with inner := { account.inner with lastError := some errMsg } }, .done (.err e))
  | (_, .address) => (account, .done (.ok (.fieldElement ⟨feltLowerHex account.inner.controller.address⟩)))
  | (_, .username) => (account, .done (.ok (.text account.inner.controller.username)))
  | (_, .appId) => (account, .done (.ok (.text account.inner.controller.appId)))
  | (_, .chainId) => (account, .done (.ok (.fieldElement ⟨feltLowerHex account.inner.controller.chainId⟩)))
  | (_, .errorMessage) => (account, .done (.ok (.text (errorText account.inner))))
  | (_, .clearLastError) =>
    ({ account with inner := { account.inner with lastError := none } }, .done (.ok .unit))

/-- Only the SDK may panic, before it is asked or when it has been; what becomes of its controller is never seen. -/
def crash (account : Account State) : ControllerSdk State × Section → List (Account State)
  | (_, .ask request) => [account, { account with requests := account.requests ++ [request] }]
  | _ => []

def Section.rank : Section → Nat
  | .parse _ => 2
  | .ask _ => 1
  | _ => 0

/-- A step under the lock ends the operation without a panic or brings it nearer to its end. -/
theorem advance_cases (account : Account State) (k : ControllerSdk State × Section) :
    (∃ o, (advance T account k).2 = .done o ∧ o ≠ .panicked) ∨
      ∃ k', (advance T account k).2 = .go k' ∧ k'.2.rank < k.2.rank := by
  obtain ⟨S, sec⟩ := k
  cases sec with
  | parse rpcUrl =>
    unfold advance
    dsimp only
    split
    · exact .inl ⟨_, rfl, fun h => by cases h⟩
    · exact .inr ⟨_, rfl, Nat.lt_succ_self 1⟩
  | ask request =>
    unfold advance
    dsimp only
    split
    · exact .inl ⟨_, rfl, fun h => by cases h⟩
    · split
      · exact .inl ⟨_, rfl, fun h => by cases h⟩
      · exact .inr ⟨_, rfl, Nat.lt_succ_self 0⟩
  | record errMsg e => exact .inl ⟨_, rfl, fun h => by cases h⟩
  | address => exact .inl ⟨_, rfl, fun h => by cases h⟩
  | username => exact .inl ⟨_, rfl, fun h => by cases h⟩
  | appId => exact .inl ⟨_, rfl, fun h => by cases h⟩
  | chainId => exact .inl ⟨_, rfl, fun h => by cases h⟩
  | errorMessage => exact .inl ⟨_, rfl, fun h => by cases h⟩
  | clearLastError => exact .inl ⟨_, rfl, fun h => by cases h⟩

theorem advance_rank {account account' : Account State} {k k' : ControllerSdk State × Section}
    (h : advance T account k = (account', .go k')) : k'.2.rank < k.2.rank := by
  rcases advance_cases T account k with ⟨o, hdone, -⟩ | ⟨k₁, hgo, hrank⟩
  · rw [h] at hdone
    cases hdone
  · rw [h] at hgo
    cases hgo
    exact hrank

theorem advance_done_ne {account account' : Account State} {k : ControllerSdk State × Section} {o : Outcome Value}
    (h : advance T account k = (account', .done o)) : o ≠ .panicked := by
  rcases advance_cases T account k with ⟨o₁, hdone, hne⟩ | ⟨k', hgo, -⟩
  · rw [h] at hdone
    cases hdone
    exact hne
  · rw [h] at hgo
    cases hgo

/-- The account as an object behind a lock. -/
def object : Object (Account State) (Event State) (ControllerSdk State × Section) (Outcome Value) where
  prepare := prepare T
  advance := advance T
  crash := crash
  panicked := .panicked
  done_ne := advance_done_ne T
  rank k := k.2.rank
  rank_lt := advance_rank T

/-- A whole operation at once. -/
def take (account : Account State) (event : Event State) : Outcome Value × Account State :=
  account.whole (event.2.perform T event.1 account.inner)

end

/-! ### The methods at once -/

section

variable {T : Crates} {account : Account State} {S : ControllerSdk State}

theorem take_eq {operation : Operation} :
    take T account (S, operation) = account.whole (operation.perform T S account.inner) := rfl

/-- A call that ends before the SDK is asked leaves everything as it is. -/
theorem whole_refuse {α : Type} {e : ControllerError} {f : α → Value} :
    account.whole ((refuse account.inner e).mapValue f) = (.err e, account) := Asked.whole_quiet

theorem whole_read {α : Type} {a : α} {f : α → Value} :
    account.whole ((read account.inner a).mapValue f) = (.ok (f a), account) := Asked.whole_quiet

private theorem mapValue_conclude {α β : Type} {inner : ControllerInner State} {request : ControllerRequest}
    {reply : Except String α × SdkController State} {e : String → ControllerError} {value : α → β} {f : β → Value} :
    (conclude inner request reply e value).mapValue f = conclude inner request reply e fun a => f (value a) := by
  obtain ⟨result, controller⟩ := reply
  cases result <;> rfl

/-- Asking the SDK, with what follows. -/
private theorem finish_ask {α β : Type} {request : ControllerRequest} (hrequest : request ≠ .delegateAccount)
    {reply : Except String α × SdkController State} {value : α → β} {f : β → Value}
    (hanswer : answer S account.inner.controller request = reply.map (Except.map fun a => f (value a)) id) :
    (object T).finish 2 account (S, .ask request) =
      some (account.whole ((conclude account.inner request reply (wrap request) value).mapValue f)) := by
  rw [mapValue_conclude]
  obtain ⟨result, controller⟩ := reply
  cases result with
  | error errMsg => simp [Object.finish, object, advance, hanswer, Except.map, conclude, hrequest, Asked.whole]
  | ok a => simp [Object.finish, object, advance, hanswer, Except.map, conclude, Asked.whole]

private theorem finish_delegateAccount :
    (object T).finish 2 account (S, .ask .delegateAccount) =
      some (account.whole ((delegateAccount S account.inner).mapValue .fieldElement)) := by
  unfold delegateAccount
  cases hreply : S.delegateAccount account.inner.controller with
  | error errMsg =>
    simp [Object.finish, object, advance, answer, hreply, Except.map, Asked.whole, Step.mapValue, wrap]
  | ok delegate => simp [Object.finish, object, advance, answer, hreply, Except.map, Asked.whole, Step.mapValue]

private theorem finish_switchChain {rpcUrl : String} :
    (object T).finish 3 account (S, .parse rpcUrl) =
      some (account.whole ((switchChain T S account.inner rpcUrl).mapValue fun _ => .unit)) := by
  unfold switchChain
  cases hurl : T.urlParse rpcUrl with
  | error e =>
    dsimp only
    rw [whole_refuse]
    simp [Object.finish, object, advance, hurl]
  | ok url =>
    have hparse : (object T).finish 3 account (S, .parse rpcUrl) =
        (object T).finish 2 account (S, .ask (.switchChain url)) := by
      rw [Object.finish]
      simp [object, advance, hurl]
    rw [hparse]
    refine finish_ask ?_ ?_
    · intro heq
      cases heq
    · rfl

/-- The steps of a method, one after the other, are the operation. -/
theorem implements (T : Crates) :
    (object T).Implements (take T : Account State → Event State → Outcome Value × Account State) where
  prepare {event o} h account := by
    obtain ⟨S, operation⟩ := event
    change prepare T (S, operation) = _ at h
    rw [take_eq]
    cases operation with
    | execute calls =>
      unfold prepare at h
      dsimp only at h
      split at h
      · rename_i e he
        cases h
        simp only [Operation.perform, execute, he]
        exact whole_refuse
      · cases h
    | transfer recipient amount =>
      unfold prepare at h
      dsimp only at h
      split at h
      · rename_i e he
        cases h
        simp only [Operation.perform, transfer, he]
        exact whole_refuse
      · rename_i recipientFelt hrecipient
        split at h
        · rename_i e he
          cases h
          simp only [Operation.perform, transfer, hrecipient, he]
          exact whole_refuse
        · rename_i amountFelt hamount
          split at h
          · rename_i e he
            cases h
            simp [Operation.perform, transfer, hrecipient, hamount, he, Asked.whole, Step.mapValue]
          · cases h
    | _ => cases h
  finish {event k} h account := by
    obtain ⟨S, operation⟩ := event
    change prepare T (S, operation) = _ at h
    rw [take_eq]
    cases operation with
    | signup signerType sessionExpiration cartridgeApiUrl =>
      cases h
      refine finish_ask ?_ ?_
      · intro heq
        cases heq
      · rfl
    | disconnect =>
      cases h
      refine finish_ask ?_ ?_
      · intro heq
        cases heq
      · rfl
    | execute calls =>
      unfold prepare at h
      dsimp only at h
      split at h
      · cases h
      · rename_i callsVec hcalls
        cases h
        simp only [Operation.perform, execute, hcalls]
        refine finish_ask ?_ ?_
        · intro heq
          cases heq
        · rfl
    | switchChain rpcUrl =>
      cases h
      exact finish_switchChain
    | delegateAccount =>
      cases h
      exact finish_delegateAccount
    | transfer recipient amount =>
      unfold prepare at h
      dsimp only at h
      split at h
      · cases h
      · rename_i recipientFelt hrecipient
        split at h
        · cases h
        · rename_i amountFelt hamount
          split at h
          · cases h
          · rename_i selector hselector
            cases h
            simp only [Operation.perform, transfer, hrecipient, hamount, hselector]
            refine finish_ask ?_ ?_
            · intro heq
              cases heq
            · rfl
    | address =>
      cases h
      exact (congrArg some whole_read).symm
    | username =>
      cases h
      exact (congrArg some whole_read).symm
    | appId =>
      cases h
      exact (congrArg some whole_read).symm
    | chainId =>
      cases h
      exact (congrArg some whole_read).symm
    | errorMessage =>
      cases h
      exact (congrArg some whole_read).symm
    | clearLastError =>
      cases h
      simp [Object.finish, object, advance, Asked.whole, Operation.perform, clearLastError, Step.mapValue]

end

/-! ### What callers see -/

abbrev CallTask (State : Type) := Task (Event State) (ControllerSdk State × Section) (Outcome Value)

/-- The account with the calls that have been made of it. -/
abbrev Calls (State : Type) := Config (Shared (Account State)) (CallTask State)

/-- A `disconnect` that fails is under the lock, and a reading of the error message waits for it. -/
def disconnecting : Calls Unit :=
  ⟨⟨⟨newAccount, [.disconnect]⟩, true, false⟩,
    [⟨(connectedSdk, .disconnect),
        .inside (connectedSdk, .record "not connected" (.disconnectError "not connected"))⟩,
      ⟨(connectedSdk, .errorMessage), .waiting (connectedSdk, .errorMessage)⟩]⟩

/-- How it comes to that. -/
def disconnectingEvents : List (Guarded.Event (Event Unit)) :=
  [.call (connectedSdk, .disconnect), .call (connectedSdk, .errorMessage), .act 0 none, .act 1 none, .act 0 none,
    .act 0 none]

def untilReturned : List (Nat × Option Nat) := [(0, none), (0, none), (1, none), (1, none), (1, none)]

/-- Both have returned. -/
def returned : Calls Unit :=
  ⟨⟨⟨{ newAccount with lastError := some "not connected" }, [.disconnect]⟩, false, false⟩,
    [⟨(connectedSdk, .disconnect), .finished (.err (.disconnectError "not connected"))⟩,
      ⟨(connectedSdk, .errorMessage), .finished (.ok (.text "not connected"))⟩]⟩

theorem run_disconnecting :
    run (Guarded.step (object Crates.reference)) (Guarded.start ⟨newAccount, []⟩) disconnectingEvents =
      some disconnecting := rfl

theorem run_returned : run (Guarded.step (object Crates.reference)) disconnecting
    (untilReturned.map fun a => .act a.1 a.2) = some returned := rfl

theorem run_to_returned : run (Guarded.step (object Crates.reference)) (Guarded.start ⟨newAccount, []⟩)
    (disconnectingEvents ++ untilReturned.map fun a => .act a.1 a.2) = some returned := by
  rw [run_append, run_disconnecting]
  exact run_returned

theorem nobody_returned : ∀ t ∈ returned.tasks, ¬ t.Inside := by
  rintro t ht ⟨k, hk⟩
  rcases List.mem_pair.mp ht with rfl | rfl <;> cases hk

section

variable {T : Crates} {inner : ControllerInner State} {events later : List (Guarded.Event (Event State))}
  {c c' : Calls State}

/-- However the calls are interleaved, at every moment those that have come to an end are a sequence of operations, in
an order that goes on as the run does; but for the one whose panic has poisoned the lock and those that have panicked at
it since, which are not in the sequence. -/
theorem calls_linearized (h : run (Guarded.step (object T)) (Guarded.start ⟨inner, []⟩) events = some c)
    (h' : run (Guarded.step (object T)) c later = some c') :
    ∃ log more, Linearized (object T) (take T) ⟨inner, []⟩ c log ∧
      Linearized (object T) (take T) ⟨inner, []⟩ c' (log ++ more) :=
  run_linearized (implements T) h h'

theorem calls_linearized_disconnect :
    ∃ log more,
      Linearized (object Crates.reference) (take Crates.reference) ⟨newAccount, []⟩ disconnecting log ∧
      Linearized (object Crates.reference) (take Crates.reference) ⟨newAccount, []⟩ returned (log ++ more) :=
  calls_linearized run_disconnecting run_returned

/-- What a call asks of the SDK: one request, if its arguments are not refused. -/
def asks (T : Crates) (event : Event State) : List ControllerRequest :=
  match prepare T event with
  | .go (_, .parse rpcUrl) => (T.urlParse rpcUrl).toOption.toList.map .switchChain
  | .go (_, .ask request) => [request]
  | _ => []

private theorem requests_conclude {α β : Type} {request : ControllerRequest}
    {reply : Except String α × SdkController State} {e : String → ControllerError} {value : α → β} {f : β → Value} :
    ((conclude inner request reply e value).mapValue f).requests = [request] := by
  unfold Step.mapValue conclude
  dsimp only
  split <;> rfl

theorem perform_requests (event : Event State) : (event.2.perform T event.1 inner).requests = asks T event := by
  obtain ⟨S, operation⟩ := event
  cases operation with
  | signup signerType sessionExpiration cartridgeApiUrl => exact requests_conclude
  | disconnect => exact requests_conclude
  | execute calls =>
    unfold asks prepare Operation.perform execute
    dsimp only
    cases tryIntoCalls T calls with
    | error e => rfl
    | ok callsVec => exact requests_conclude
  | switchChain rpcUrl =>
    unfold asks prepare Operation.perform switchChain
    dsimp only
    cases T.urlParse rpcUrl with
    | error e => rfl
    | ok url => exact requests_conclude
  | delegateAccount =>
    unfold asks prepare Operation.perform delegateAccount
    dsimp only
    cases S.delegateAccount inner.controller <;> rfl
  | transfer recipient amount =>
    unfold asks prepare Operation.perform transfer
    dsimp only
    cases T.fromHex recipient.value with
    | error e => rfl
    | ok recipientFelt =>
      cases T.fromHex amount.value with
      | error e => rfl
      | ok amountFelt =>
        cases T.getSelectorFromName "transfer" with
        | error e => rfl
        | ok selector => exact requests_conclude
  | _ => rfl

/-- The outcomes and the account are those of the machine, whatever has been asked before. -/
private theorem run_take (T : Crates) (account : Account State) (events : List (Event State)) :
    (Trace.run (take T) account events).1 = (Trace.run (step T) account.inner events).1 ∧
      (Trace.run (take T) account events).2.inner = (Trace.run (step T) account.inner events).2 := by
  induction events generalizing account with
  | nil => exact ⟨rfl, rfl⟩
  | cons event events ih =>
    obtain ⟨hlog, hinner⟩ := ih (take T account event).2
    exact ⟨congrArg (List.cons _) hlog, hinner⟩

private theorem requests_take {events : List (Event State)} {account : Account State} :
    (Trace.run (take T) account events).2.requests = account.requests ++ events.flatMap (asks T) := by
  induction events generalizing account with
  | nil => exact (List.append_nil _).symm
  | cons event events ih =>
    have hrest := @ih (take T account event).2
    have hfirst : (take T account event).2.requests = account.requests ++ asks T event :=
      congrArg (account.requests ++ ·) (perform_requests event)
    rw [hfirst, List.append_assoc] at hrest
    exact hrest

/-- What the SDK has been asked is one request for each call that was not refused, in the order of their sequence,
whenever nobody is under the lock: nothing is lost, nothing is asked twice. -/
theorem requests_linearized (h : run (Guarded.step (object T)) (Guarded.start ⟨inner, []⟩) events = some c)
    (hpoisoned : c.shared.poisoned = false) (hnobody : ∀ t ∈ c.tasks, ¬ t.Inside) :
    ∃ log, Linearized (object T) (take T) ⟨inner, []⟩ c log ∧
      c.shared.state.requests = (inputs log).flatMap (asks T) := by
  obtain ⟨log, hinv⟩ := inv_run (implements T) h
  refine ⟨log, hinv.linearized, ?_⟩
  rw [hinv.linearized.state hpoisoned hnobody, after, requests_take, List.nil_append]

theorem requests_linearized_disconnect :
    ∃ log, Linearized (object Crates.reference) (take Crates.reference) ⟨newAccount, []⟩ returned log ∧
      returned.shared.state.requests = (inputs log).flatMap (asks Crates.reference) :=
  requests_linearized run_to_returned rfl nobody_returned

/-- In every interleaving of recorded calls to a new account the error message is the text of the last failure in their
sequence, whenever nobody is under the lock. -/
theorem errorText_linearized (hnew : inner.lastError = none)
    (h : run (Guarded.step (object T)) (Guarded.start ⟨inner, []⟩) events = some c)
    (hpoisoned : c.shared.poisoned = false) (hnobody : ∀ t ∈ c.tasks, ¬ t.Inside) :
    ∃ log, Linearized (object T) (take T) ⟨inner, []⟩ c log ∧
      (Trace.Allowed (step T) (Recorded T) inner (inputs log) →
        errorText c.shared.state.inner = lastReported (log.map Prod.snd)) := by
  obtain ⟨log, hinv⟩ := inv_run (implements T) h
  refine ⟨log, hinv.linearized, fun hrecorded => ?_⟩
  obtain ⟨hlog, hinner⟩ := run_take T ⟨inner, []⟩ (inputs log)
  have hstart : errorText inner = "" := by rw [errorText, hnew, Option.getD_none]
  have htracks : errorText (Trace.run (step T) inner (inputs log)).2 =
      lastReported (Trace.run (step T) inner (inputs log)).1 := by
    refine Trace.run_monitor (R := fun inner last => errorText inner = last) ?_ hstart hrecorded
    rintro inner last event rfl hstep
    exact step_tracks hstep
  rw [hinv.linearized.state hpoisoned hnobody, after, hinner, htracks, ← hlog, hinv.linearized.history.sequential]

theorem errorText_linearized_disconnect :
    ∃ log, Linearized (object Crates.reference) (take Crates.reference) ⟨newAccount, []⟩ returned log ∧
      errorText returned.shared.state.inner = lastReported (log.map Prod.snd) := by
  obtain ⟨log, hlog, htext⟩ := errorText_linearized rfl run_to_returned rfl nobody_returned
  refine ⟨log, hlog, htext (.of_forall fun inner event hevent => ?_)⟩
  -- only the two calls can be in the log, and what they fail with is recorded
  obtain ⟨entry, hentry, rfl⟩ := List.mem_map.mp hevent
  obtain ⟨t, ht, hinput, -⟩ := hlog.history.entry entry hentry
  rw [← hinput]
  rcases List.mem_pair.mp (List.mem_of_getElem? ht) with rfl | rfl <;> trivial

/-- However the calls that have been made are scheduled, each takes seven steps at most, and when none can go on all
have returned. -/
theorem calls_return (h : run (Guarded.step (object T)) (Guarded.start ⟨inner, []⟩) events = some c)
    {acts : List (Nat × Option Nat)}
    (h' : run (Guarded.step (object T)) c (acts.map fun a => .act a.1 a.2) = some c') :
    acts.length ≤ 7 * c.tasks.length ∧
      ((∀ i, Guarded.step (object T) c' (.act i none) = none) → ∀ t ∈ c'.tasks, t.Finished) := by
  obtain ⟨log, hinv⟩ := inv_run (implements T) h
  obtain ⟨hbound, hend⟩ := schedules_end (implements T) hinv h'
  have hsection : ∀ k : ControllerSdk State × Section, (object T).rank k ≤ 2 := by
    rintro ⟨S, sec⟩
    change sec.rank ≤ 2
    cases sec <;> simp [Section.rank]
  have hrank : ∀ t ∈ c.tasks, t.rank (object T) ≤ 7 := fun t _ => t.rank_le hsection
  have := total_le_mul hrank
  exact ⟨by omega, hend⟩

theorem calls_return_disconnect :
    untilReturned.length ≤ 7 * disconnecting.tasks.length ∧
      ((∀ i, Guarded.step (object Crates.reference) returned (.act i none) = none) →
        ∀ t ∈ returned.tasks, t.Finished) :=
  calls_return run_disconnecting run_returned

/-- The arguments are refused before the account is locked. -/
def RefusedEarly (T : Crates) (e : ControllerError) : Operation → Prop
  | .execute calls => tryIntoCalls T calls = .error e
  | .transfer recipient amount =>
    ∃ m, (T.fromHex recipient.value = .error m ∨ T.fromHex amount.value = .error m) ∧ e = .invalidInput m
  | _ => False

private theorem refusedEarly_of_prepare {event : Event State} {o : Outcome Value} (h : prepare T event = .done o) :
    o = .panicked ∨ ∃ e, o = .err e ∧ RefusedEarly T e event.2 := by
  obtain ⟨S, operation⟩ := event
  cases operation with
  | execute calls =>
    unfold prepare at h
    dsimp only at h
    split at h
    · rename_i e he
      cases h
      exact .inr ⟨e, rfl, he⟩
    · cases h
  | transfer recipient amount =>
    unfold prepare at h
    dsimp only at h
    split at h
    · rename_i m hm
      cases h
      exact .inr ⟨_, rfl, m, .inl hm, rfl⟩
    · split at h
      · rename_i m hm
        cases h
        exact .inr ⟨_, rfl, m, .inr hm, rfl⟩
      · split at h
        · cases h
          exact .inl rfl
        · cases h
  | _ => cases h

/-- After a panic of the SDK nothing gets through to it and nothing of the account changes: every call that returns
later panics, unless its arguments are refused before the account is locked. -/
theorem poisoned_account (h : run (Guarded.step (object T)) (Guarded.start ⟨inner, []⟩) events = some c)
    (hpoisoned : c.shared.poisoned = true) (h' : run (Guarded.step (object T)) c later = some c') :
    c'.shared.state = c.shared.state ∧ ∀ (n : Nat) (t : CallTask State) (o : Outcome Value),
      c'.tasks[n]? = some t → t.outcome = some o →
      (∃ u : CallTask State, c.tasks[n]? = some u ∧ u.outcome = some o) ∨ o = .panicked ∨
        ∃ e, o = .err e ∧ RefusedEarly T e t.input.2 := by
  obtain ⟨log, hinv⟩ := inv_run (implements T) h
  obtain ⟨-, hstate, hspent⟩ := poisoned_run (implements T) hinv hpoisoned h'
  refine ⟨hstate, fun n t o ht ho => ?_⟩
  rcases hspent n t o ht ho with hold | hpanicked | hprepare
  · exact .inl hold
  · exact .inr (.inl hpanicked)
  · exact .inr (refusedEarly_of_prepare hprepare)

/-- A `disconnect` in which the SDK has panicked. -/
def crashed : Calls Unit :=
  ⟨⟨⟨newAccount, [.disconnect]⟩, true, true⟩, [⟨(connectedSdk, .disconnect), .leaving .panicked⟩]⟩

/-- The same after a call of `username`. -/
def crashedLater : Calls Unit :=
  ⟨⟨⟨newAccount, [.disconnect]⟩, false, true⟩,
    [⟨(connectedSdk, .disconnect), .finished .panicked⟩, ⟨(connectedSdk, .username), .finished .panicked⟩]⟩

theorem poisoned_account_username :
    crashedLater.shared.state = crashed.shared.state ∧ ∀ (n : Nat) (t : CallTask Unit) (o : Outcome Value),
      crashedLater.tasks[n]? = some t → t.outcome = some o →
      (∃ u : CallTask Unit, crashed.tasks[n]? = some u ∧ u.outcome = some o) ∨ o = .panicked ∨
        ∃ e, o = .err e ∧ RefusedEarly Crates.reference e t.input.2 := by
  have hcrashed : run (Guarded.step (object Crates.reference)) (Guarded.start ⟨newAccount, []⟩)
      [.call (connectedSdk, .disconnect), .act 0 none, .act 0 none, .act 0 (some 1)] = some crashed := rfl
  have hlater : run (Guarded.step (object Crates.reference)) crashed
      [.call (connectedSdk, .username), .act 1 none, .act 0 none, .act 1 none, .act 1 none] = some crashedLater := rfl
  exact poisoned_account hcrashed rfl hlater

end

end ControllerAccount

end ControllerUniffi
