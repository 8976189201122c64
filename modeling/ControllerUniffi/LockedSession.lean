import ControllerUniffi.LockedController

/-!
# A session account under its lock

The methods of a session account as tasks, like those of a controller account.  The account does what `perform` says in
one step (`implements`).  So however calls are interleaved, they are a sequence of operations (`executions_linearized`),
and nothing comes between the signature of an execution and its submission (`submissions_paired`); the data of the
session are read as they were when the account was made (`data_unchanged`).
-/

namespace ControllerUniffi

/-- A method that only reads the account; `now` is what the clock gives it. -/
inductive SessionGetter where
  | address
  | chainId
  | ownerGuid
  | expiresAt
  | isExpired (now : UInt64)
  | sessionId
  | username
  | appId
  | isRevoked
  deriving DecidableEq, Repr

/-- A call of a method of a session account, with its arguments; `random` is what the generator gives it. -/
inductive SessionOperation where
  | execute (calls : List Call)
  | executeFromOutside (now : UInt64) (random : Felt) (calls : List Call)
  | get (getter : SessionGetter)
  deriving DecidableEq, Repr

inductive SessionValue where
  | fieldElement (element : ControllerFieldElement)
  | text (text : String)
  | optionalText (text : Option String)
  | number (n : UInt64)
  | flag (b : Bool)
  deriving DecidableEq, Repr

namespace SessionAccount

open Guarded Interleaving

variable {Session AbigenSigner : Type}

def value (inner : SessionAccountInner Session) : SessionGetter → SessionValue
  | .address => .text (address inner)
  | .chainId => .text (chainId inner)
  | .ownerGuid => .text (ownerGuid inner)
  | .expiresAt => .number (expiresAt inner)
  | .isExpired now => .flag (isExpired inner now)
  | .sessionId => .optionalText (sessionId inner)
  | .username => .optionalText (username inner)
  | .appId => .optionalText (appId inner)
  | .isRevoked => .flag (isRevoked inner)

def perform (T : Crates) (S : SessionSdk Session AbigenSigner) (inner : SessionAccountInner Session) :
    SessionOperation → Step (SessionAccountInner Session) SessionRequest SessionValue
  | .execute calls => (execute T S inner calls).mapValue .fieldElement
  | .executeFromOutside now random calls => (executeFromOutside T S now random inner calls).mapValue .fieldElement
  | .get getter => { outcome := .ok (value inner getter), requests := [], state := inner }

/-- One call, with the SDK that it meets. -/
abbrev SessionEvent (Session AbigenSigner : Type) := SessionSdk Session AbigenSigner × SessionOperation

abbrev Account (Session : Type) := Asked (SessionAccountInner Session) SessionRequest

/-! ### The methods in steps -/

/-- What a method does next under the lock. -/
inductive Section where
  | executeV3 (calls : List StarknetCall)
  | sign (execution : OutsideExecution)
  | submit (execution : OutsideExecution) (signature : List Felt)
  | record (errMsg : String) (e : ControllerError)
  | get (getter : SessionGetter)
  deriving DecidableEq, Repr

/-- What a method does before it locks the account. -/
def prepare (T : Crates) : SessionEvent Session AbigenSigner →
    Next (SessionSdk Session AbigenSigner × Section) (Outcome SessionValue)
  | (S, .execute calls) =>
    match tryIntoCalls T calls with
    | .error e => .done (.err e)
    | .ok callsVec => .go (S, .executeV3 callsVec)
  | (S, .executeFromOutside now random calls) =>
    match tryIntoCalls T calls with
    | .error e => .done (.err e)
    | .ok callsVec => .go (S, .sign (.v3 (outsideExecution now random callsVec)))
  | (S, .get getter) => .go (S, .get getter)

/-- The account with the SDK's reply to one more request. -/
def ask (account : Account Session) (sessionAccount : SdkSessionAccount Session) (request : SessionRequest) :
    Account Session where
  inner := { account.inner with sessionAccount := sessionAccount }
  requests := account.requests ++ [request]

/-- One step under the lock. -/
def advance (account : Account Session) : SessionSdk Session AbigenSigner × Section →
    Account Session × Next (SessionSdk Session AbigenSigner × Section) (Outcome SessionValue)
  | (S, .executeV3 calls) =>
    let reply := S.executeV3 account.inner.sessionAccount calls
    let account := ask account reply.2 (.executeV3 calls)
    match reply.1 with
    | .ok transactionHash => (account, .done (.ok (.fieldElement ⟨feltLowerHex transactionHash⟩)))
    | .error errMsg => (account, .go (S, .record errMsg (.executionError errMsg)))
  | (S, .sign execution) =>
    let signed := S.signOutsideExecution account.inner.sessionAccount execution
    let account := ask account signed.2 (.signOutsideExecution execution)
    match signed.1 with
    | .ok signature => (account, .go (S, .submit execution signature))
    | .error errMsg =>
      let e := ControllerError.executionError errMsg
      (account, .go (S, .record e.display e))
  | (S, .submit execution signature) =>
    let sessionAccount := account.inner.sessionAccount
    let address := sessionAccount.address
    let account := ask account sessionAccount (.addExecuteOutsideTransaction execution address signature)
    match S.addExecuteOutsideTransaction sessionAccount.provider execution address signature with
    | .ok transactionHash => (account, .done (.ok (.fieldElement ⟨feltLowerHex transactionHash⟩)))
    | .error errMsg =>
      let e := ControllerError.executionError errMsg
      (account, .go (S, .record e.display e))
  | (_, .record errMsg e) =>
    ({ account with inner := { account.inner with lastError := some errMsg } }, .done (.err e))
  | (_, .get getter) => (account, .done (.ok (value account.inner getter)))

/-- Only the SDK may panic, before it is asked or when it has been. -/
def crash (account : Account Session) : SessionSdk Session AbigenSigner × Section → List (Account Session)
  | (_, .executeV3 calls) => [account, ask account account.inner.sessionAccount (.executeV3 calls)]
  | (_, .sign execution) => [account, ask account account.inner.sessionAccount (.signOutsideExecution execution)]
  | (_, .submit execution signature) =>
    let sessionAccount := account.inner.sessionAccount
    [account,
      ask account sessionAccount (.addExecuteOutsideTransaction execution sessionAccount.address signature)]
  | _ => []

def Section.rank : Section → Nat
  | .sign _ => 2
  | .executeV3 _ => 1
  | .submit _ _ => 1
  | _ => 0

/-- A step under the lock ends the operation without a panic or brings it nearer to its end. -/
theorem advance_cases (account : Account Session) (k : SessionSdk Session AbigenSigner × Section) :
    (∃ o, (advance account k).2 = .done o ∧ o ≠ .panicked) ∨
      ∃ k', (advance account k).2 = .go k' ∧ k'.2.rank < k.2.rank := by
  obtain ⟨S, sec⟩ := k
  cases sec with
  | executeV3 calls =>
    unfold advance
    dsimp only
    split
    · exact .inl ⟨_, rfl, fun h => by cases h⟩
    · exact .inr ⟨_, rfl, Nat.lt_succ_self 0⟩
  | sign execution =>
    unfold advance
    dsimp only
    split
    · exact .inr ⟨_, rfl, Nat.lt_succ_self 1⟩
    · exact .inr ⟨_, rfl, Nat.succ_pos 1⟩
  | submit execution signature =>
    unfold advance
    dsimp only
    split
    · exact .inl ⟨_, rfl, fun h => by cases h⟩
    · exact .inr ⟨_, rfl, Nat.lt_succ_self 0⟩
  | record errMsg e => exact .inl ⟨_, rfl, fun h => by cases h⟩
  | get getter => exact .inl ⟨_, rfl, fun h => by cases h⟩

theorem advance_rank {account account' : Account Session} {k k' : SessionSdk Session AbigenSigner × Section}
    (h : advance account k = (account', .go k')) : k'.2.rank < k.2.rank := by
  rcases advance_cases account k with ⟨o, hdone, -⟩ | ⟨k₁, hgo, hrank⟩
  · rw [h] at hdone
    cases hdone
  · rw [h] at hgo
    cases hgo
    exact hrank

theorem advance_done_ne {account account' : Account Session} {k : SessionSdk Session AbigenSigner × Section}
    {o : Outcome SessionValue} (h : advance account k = (account', .done o)) : o ≠ .panicked := by
  rcases advance_cases account k with ⟨o₁, hdone, hne⟩ | ⟨k', hgo, -⟩
  · rw [h] at hdone
    cases hdone
    exact hne
  · rw [h] at hgo
    cases hgo

/-- The account as an object behind a lock. -/
def object (T : Crates) : Object (Account Session) (SessionEvent Session AbigenSigner)
    (SessionSdk Session AbigenSigner × Section) (Outcome SessionValue) where
  prepare := prepare T
  advance := advance
  crash := crash
  panicked := .panicked
  done_ne := advance_done_ne
  rank k := k.2.rank
  rank_lt := advance_rank

/-- A whole call at once. -/
def take (T : Crates) (account : Account Session) (event : SessionEvent Session AbigenSigner) :
    Outcome SessionValue × Account Session :=
  account.whole (perform T event.1 account.inner event.2)

/-! ### The methods at once -/

section

variable {T : Crates} {account : Account Session} {S : SessionSdk Session AbigenSigner}

private theorem finish_execute {calls : List Call} {callsVec : List StarknetCall}
    (hcalls : tryIntoCalls T calls = .ok callsVec) :
    (object T).finish 2 account (S, .executeV3 callsVec) =
      some (account.whole ((execute T S account.inner calls).mapValue .fieldElement)) := by
  unfold execute
  rw [hcalls]
  cases hreply : S.executeV3 account.inner.sessionAccount callsVec with
  | mk result sessionAccount =>
    cases result with
    | error errMsg => simp [Object.finish, object, advance, hreply, ask, Asked.whole, Step.mapValue]
    | ok transactionHash => simp [Object.finish, object, advance, hreply, ask, Asked.whole, Step.mapValue]

private theorem finish_executeFromOutside {now : UInt64} {random : Felt} {calls : List Call}
    {callsVec : List StarknetCall} (hcalls : tryIntoCalls T calls = .ok callsVec) :
    (object T).finish 3 account (S, .sign (.v3 (outsideExecution now random callsVec))) =
      some (account.whole ((executeFromOutside T S now random account.inner calls).mapValue .fieldElement)) := by
  unfold executeFromOutside
  rw [hcalls]
  dsimp only
  generalize OutsideExecution.v3 (outsideExecution now random callsVec) = execution
  cases hsigned : S.signOutsideExecution account.inner.sessionAccount execution with
  | mk result sessionAccount =>
    cases result with
    | error errMsg => simp [Object.finish, object, advance, hsigned, ask, Asked.whole, Step.mapValue]
    | ok signature =>
      cases hreply : S.addExecuteOutsideTransaction sessionAccount.provider execution sessionAccount.address
          signature with
      | error errMsg => simp [Object.finish, object, advance, hsigned, hreply, ask, Asked.whole, Step.mapValue]
      | ok transactionHash => simp [Object.finish, object, advance, hsigned, hreply, ask, Asked.whole, Step.mapValue]

/-- The steps of a method, one after the other, are the operation. -/
theorem implements (T : Crates) : (object T).Implements
    (take T : Account Session → SessionEvent Session AbigenSigner → Outcome SessionValue × Account Session) where
  prepare {event o} h account := by
    obtain ⟨S, operation⟩ := event
    change prepare T (S, operation) = _ at h
    change account.whole (perform T S account.inner operation) = _
    cases operation with
    | execute calls =>
      unfold prepare at h
      dsimp only at h
      split at h
      · rename_i e he
        cases h
        simp only [perform, execute, he]
        exact Asked.whole_quiet
      · cases h
    | executeFromOutside now random calls =>
      unfold prepare at h
      dsimp only at h
      split at h
      · rename_i e he
        cases h
        simp only [perform, executeFromOutside, he]
        exact Asked.whole_quiet
      · cases h
    | get getter => cases h
  finish {event k} h account := by
    obtain ⟨S, operation⟩ := event
    change prepare T (S, operation) = _ at h
    change _ = some (account.whole (perform T S account.inner operation))
    cases operation with
    | execute calls =>
      unfold prepare at h
      dsimp only at h
      split at h
      · cases h
      · rename_i callsVec hcalls
        cases h
        exact finish_execute hcalls
    | executeFromOutside now random calls =>
      unfold prepare at h
      dsimp only at h
      split at h
      · cases h
      · rename_i callsVec hcalls
        cases h
        exact finish_executeFromOutside hcalls
    | get getter =>
      cases h
      simp [Object.finish, object, advance, Asked.whole, perform]

end

/-! ### What callers see -/

abbrev CallTask (Session AbigenSigner : Type) :=
  Task (SessionEvent Session AbigenSigner) (SessionSdk Session AbigenSigner × Section) (Outcome SessionValue)

/-- The account with the calls that have been made of it. -/
abbrev Calls (Session AbigenSigner : Type) := Config (Shared (Account Session)) (CallTask Session AbigenSigner)

/-- A session account of the reference SDK. -/
def openSession : SessionAccountInner (List Policy × UInt64 × Felt × Felt) where
  sessionAccount := {
    provider := ⟨⟨"https".toList, ⟨[], [], some "rpc".toList, none⟩, .segments [], none, none⟩⟩
    signer := .starknet ⟨1⟩
    address := 2
    chainId := 3
    ownerGuid := 4
    session := ([], 1700000000, 1, 0) }
  lastError := none
  ownerGuid := 4
  expiresAt := 1700000000
  sessionId := some "session"
  username := some "user"
  appId := some "app"
  isRevoked := false

abbrev ReferenceEvent := SessionEvent (List Policy × UInt64 × Felt × Felt) Felt

/-- An execution from outside, of one transfer. -/
def outsideEvent : ReferenceEvent :=
  (SessionSdk.reference, .executeFromOutside 0 5 [⟨⟨"0x2"⟩, "transfer", [⟨"0x7"⟩]⟩])

def oneTransfer : OutsideExecution :=
  .v3 (outsideExecution 0 5 [⟨2, 0x83afd3f4caedc6eebf44246fe54e38c95e3179a5ec9ea81740eca5b482d12e, [7]⟩])

/-- The execution has been signed and is about to be submitted, and a reading of the expiry waits for it. -/
def submitting : Calls (List Policy × UInt64 × Felt × Felt) Felt :=
  ⟨⟨⟨openSession, [.signOutsideExecution oneTransfer]⟩, true, false⟩,
    [⟨outsideEvent, .inside (SessionSdk.reference, .submit oneTransfer [])⟩,
      ⟨(SessionSdk.reference, .get (.isExpired 1700000001)),
        .waiting (SessionSdk.reference, .get (.isExpired 1700000001))⟩]⟩

/-- Both have returned. -/
def submitted : Calls (List Policy × UInt64 × Felt × Felt) Felt :=
  ⟨⟨⟨openSession, [.signOutsideExecution oneTransfer, .addExecuteOutsideTransaction oneTransfer 2 []]⟩, false, false⟩,
    [⟨outsideEvent, .finished (.ok (.fieldElement ⟨feltLowerHex 0⟩))⟩,
      ⟨(SessionSdk.reference, .get (.isExpired 1700000001)), .finished (.ok (.flag true))⟩]⟩

theorem run_submitting :
    run (Guarded.step (object Crates.reference)) (Guarded.start ⟨openSession, []⟩)
      [.call outsideEvent, .call (SessionSdk.reference, .get (.isExpired 1700000001)), .act 0 none, .act 1 none,
        .act 0 none, .act 0 none] = some submitting := rfl

theorem run_submitted :
    run (Guarded.step (object Crates.reference)) submitting
      [.act 0 none, .act 0 none, .act 1 none, .act 1 none, .act 1 none] = some submitted := rfl

theorem run_to_submitted : run (Guarded.step (object Crates.reference)) (Guarded.start ⟨openSession, []⟩)
    ([.call outsideEvent, .call (SessionSdk.reference, .get (.isExpired 1700000001)), .act 0 none, .act 1 none,
      .act 0 none, .act 0 none] ++ [.act 0 none, .act 0 none, .act 1 none, .act 1 none, .act 1 none]) =
    some submitted := by
  rw [run_append, run_submitting]
  exact run_submitted

section

variable {T : Crates} {inner : SessionAccountInner Session}
  {events later : List (Guarded.Event (SessionEvent Session AbigenSigner))} {c c' : Calls Session AbigenSigner}

/-- However the calls are interleaved, at every moment those that have come to an end are a sequence of operations, in
an order that goes on as the run does; but for the one whose panic has poisoned the lock and those that have panicked at
it since, which are not in the sequence. -/
theorem executions_linearized (h : run (Guarded.step (object T)) (Guarded.start ⟨inner, []⟩) events = some c)
    (h' : run (Guarded.step (object T)) c later = some c') :
    ∃ log more, Linearized (object T) (take T) ⟨inner, []⟩ c log ∧
      Linearized (object T) (take T) ⟨inner, []⟩ c' (log ++ more) :=
  run_linearized (implements T) h h'

theorem executions_linearized_outside :
    ∃ log more,
      Linearized (object Crates.reference) (take Crates.reference) ⟨openSession, []⟩ submitting log ∧
      Linearized (object Crates.reference) (take Crates.reference) ⟨openSession, []⟩ submitted (log ++ more) :=
  executions_linearized run_submitting run_submitted

/-! #### Signed and submitted -/

/-- What is submitted has been signed just before. -/
def Paired (requests : List SessionRequest) : Prop :=
  ∀ (before behind : List SessionRequest) (execution : OutsideExecution) (address : Felt) (signature : List Felt),
    requests = before ++ .addExecuteOutsideTransaction execution address signature :: behind →
      ∃ earlier, before = earlier ++ [.signOutsideExecution execution]

private theorem Paired.concat {requests : List SessionRequest} (h : Paired requests) {request : SessionRequest}
    (hrequest : ∀ execution address signature, request = .addExecuteOutsideTransaction execution address signature →
      ∃ earlier, requests = earlier ++ [.signOutsideExecution execution]) : Paired (requests ++ [request]) := by
  intro before behind execution address signature heq
  rcases List.eq_nil_or_concat behind with rfl | ⟨behind, last, rfl⟩
  · obtain ⟨rfl, hlast⟩ := List.append_inj' heq rfl
    exact hrequest execution address signature (List.singleton_inj.mp hlast)
  · rw [List.concat_eq_append, ← List.cons_append, ← List.append_assoc] at heq
    exact h before behind execution address signature (List.append_inj' heq rfl).1

private theorem Paired.concat_other {requests : List SessionRequest} (h : Paired requests) {request : SessionRequest}
    (hrequest : ∀ execution address signature, request ≠ .addExecuteOutsideTransaction execution address signature) :
    Paired (requests ++ [request]) :=
  h.concat fun execution address signature heq => absurd heq (hrequest execution address signature)

/-- A task that is about to submit an execution has just had it signed. -/
private def JustSigned (account : Account Session) (k : SessionSdk Session AbigenSigner × Section) : Prop :=
  match k.2 with
  | .submit execution _ => ∃ earlier, account.requests = earlier ++ [.signOutsideExecution execution]
  | _ => True

private theorem paired_submit {account : Account Session} {S : SessionSdk Session AbigenSigner}
    {execution : OutsideExecution} {address : Felt} {signature : List Felt} (hpaired : Paired account.requests)
    (hsigned : JustSigned account (S, .submit execution signature)) :
    Paired (account.requests ++ [.addExecuteOutsideTransaction execution address signature]) := by
  refine hpaired.concat ?_
  intro execution' address' signature' heq
  cases heq
  exact hsigned

private theorem kept_paired (T : Crates) : Kept (object T)
    (fun account : Account Session => Paired account.requests)
    (fun account (k : SessionSdk Session AbigenSigner × Section) => JustSigned account k) where
  enter {event k account} h _ := by
    obtain ⟨S, operation⟩ := event
    change prepare T (S, operation) = _ at h
    unfold prepare at h
    split at h
    · split at h <;> cases h
      trivial
    · split at h <;> cases h
      trivial
    · cases h
      trivial
  go {account k account' k'} hpaired hsigned h := by
    obtain ⟨S, sec⟩ := k
    change advance account (S, sec) = _ at h
    cases sec with
    | executeV3 calls =>
      unfold advance at h
      dsimp only at h
      split at h <;> cases h
      exact ⟨hpaired.concat_other nofun, trivial⟩
    | sign execution =>
      unfold advance at h
      dsimp only at h
      split at h <;> cases h
      · exact ⟨hpaired.concat_other nofun, account.requests, rfl⟩
      · exact ⟨hpaired.concat_other nofun, trivial⟩
    | submit execution signature =>
      unfold advance at h
      dsimp only at h
      split at h <;> cases h
      exact ⟨paired_submit hpaired hsigned, trivial⟩
    | record errMsg e => cases h
    | get getter => cases h
  done {account k account' o} hpaired hsigned h := by
    obtain ⟨S, sec⟩ := k
    change advance account (S, sec) = _ at h
    cases sec with
    | executeV3 calls =>
      unfold advance at h
      dsimp only at h
      split at h <;> cases h
      exact hpaired.concat_other nofun
    | sign execution =>
      unfold advance at h
      dsimp only at h
      split at h <;> cases h
    | submit execution signature =>
      unfold advance at h
      dsimp only at h
      split at h <;> cases h
      exact paired_submit hpaired hsigned
    | record errMsg e =>
      cases h
      exact hpaired
    | get getter =>
      cases h
      exact hpaired
  crash {account k account'} hpaired hsigned h := by
    obtain ⟨S, sec⟩ := k
    change account' ∈ crash account (S, sec) at h
    cases sec with
    | executeV3 calls =>
      rcases List.mem_pair.mp h with rfl | rfl
      · exact hpaired
      · exact hpaired.concat_other nofun
    | sign execution =>
      rcases List.mem_pair.mp h with rfl | rfl
      · exact hpaired
      · exact hpaired.concat_other nofun
    | submit execution signature =>
      rcases List.mem_pair.mp h with rfl | rfl
      · exact hpaired
      · exact paired_submit hpaired hsigned
    | record errMsg e => cases h
    | get getter => cases h

/-- At every moment of every run, also in the middle of calls and after a panic, whatever has been submitted was signed
by the request just before. -/
theorem submissions_paired (h : run (Guarded.step (object T)) (Guarded.start ⟨inner, []⟩) events = some c) :
    Paired c.shared.state.requests := by
  have hstart : Paired [] := by
    intro before behind execution address signature heq
    simp at heq
  exact (run_kept (implements T) (kept_paired T) hstart h).1

theorem submissions_paired_outside :
    Paired [.signOutsideExecution oneTransfer, .addExecuteOutsideTransaction oneTransfer 2 []] :=
  submissions_paired run_to_submitted

/-! #### The data of the session -/

/-- Only the SDK's account and the last error may have changed. -/
def SameData (inner inner' : SessionAccountInner Session) : Prop :=
  inner' = { inner with sessionAccount := inner'.sessionAccount, lastError := inner'.lastError }

theorem execute_sameData {S : SessionSdk Session AbigenSigner} {inner : SessionAccountInner Session}
    {calls : List Call} : SameData inner (execute T S inner calls).state := by
  unfold execute
  split
  · rfl
  · dsimp only
    split <;> rfl

theorem executeFromOutside_sameData {S : SessionSdk Session AbigenSigner} {now : UInt64} {random : Felt}
    {inner : SessionAccountInner Session} {calls : List Call} :
    SameData inner (executeFromOutside T S now random inner calls).state := by
  unfold executeFromOutside
  split
  · rfl
  · dsimp only
    split
    · rfl
    · split <;> rfl

theorem SameData.trans {inner inner' inner'' : SessionAccountInner Session} (h : SameData inner inner')
    (h' : SameData inner' inner'') : SameData inner inner'' := by
  unfold SameData at *
  rw [h', h]

private theorem take_sameData {account : Account Session} {event : SessionEvent Session AbigenSigner}
    (h : SameData inner account.inner) : SameData inner (take T account event).2.inner := by
  obtain ⟨S, operation⟩ := event
  refine h.trans ?_
  cases operation with
  | execute calls => exact execute_sameData
  | executeFromOutside now random calls => exact executeFromOutside_sameData
  | get getter => rfl

/-- A getter reads the data of the session, but for the two that ask the SDK's account. -/
private theorem value_of_sameData {inner' : SessionAccountInner Session} {getter : SessionGetter}
    (hgetter : getter ≠ .address ∧ getter ≠ .chainId) (h : SameData inner inner') :
    value inner' getter = value inner getter := by
  rw [h]
  cases getter with
  | address => exact absurd rfl hgetter.1
  | chainId => exact absurd rfl hgetter.2
  | _ => rfl

/-- Whatever calls go on beside it, a getter of the data of the session returns them as they were when the account was
made, unless the lock is poisoned. -/
theorem data_unchanged (h : run (Guarded.step (object T)) (Guarded.start ⟨inner, []⟩) events = some c) {n : Nat}
    {t : CallTask Session AbigenSigner} {o : Outcome SessionValue} {getter : SessionGetter} (ht : c.tasks[n]? = some t)
    (hget : t.input.2 = .get getter) (hgetter : getter ≠ .address ∧ getter ≠ .chainId) (ho : t.outcome = some o) :
    o = .ok (value inner getter) ∨ (c.shared.poisoned = true ∧ o = .panicked) := by
  obtain ⟨log, hinv⟩ := inv_run (implements T) h
  rcases hinv.linearized.covers n t o ht ho with hlog | hpoisoned
  · left
    have hentries : ∀ entry ∈ (Trace.run (take T) ⟨inner, []⟩ (inputs log)).1, ∃ account : Account Session,
        SameData inner account.inner ∧ entry.2 = (take T account entry.1).1 := by
      refine Trace.run_entries (?_ : ∀ (account : Account Session) event, SameData inner account.inner →
        SameData inner (take T account event).2.inner) ?_
      · exact fun account event => take_sameData
      · exact (rfl : SameData inner inner)
    rw [hinv.linearized.history.sequential] at hentries
    obtain ⟨account, hsame, houtcome⟩ := hentries _ (List.mem_map.mpr ⟨_, hlog, rfl⟩)
    obtain ⟨⟨S, operation⟩, pc⟩ := t
    cases hget
    rw [← value_of_sameData hgetter hsame]
    exact houtcome
  · exact .inr hpoisoned

theorem data_unchanged_outside :
    (.ok (.flag true) : Outcome SessionValue) = .ok (value openSession (.isExpired 1700000001)) ∨
      (submitted.shared.poisoned = true ∧ (.ok (.flag true) : Outcome SessionValue) = .panicked) :=
  data_unchanged run_to_submitted (show submitted.tasks[1]? = some _ from rfl) rfl ⟨nofun, nofun⟩ rfl

end

end SessionAccount

end ControllerUniffi
