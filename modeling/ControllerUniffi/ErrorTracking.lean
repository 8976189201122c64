import ControllerUniffi.ControllerAccount

/-!
# The last error

What the last error should be is a monitor of the operations and their results: the text of the last failure that was
reported, until it is cleared (`lastReported_of_failure`, `lastReported_of_clear`).  A step keeps the account's text
equal to the monitor's when its failures are recorded (`step_tracks`), and only then, unless the same text is reported
again (`step_tracks_iff`); so do whole runs (`errorMessage_tracks`).
-/

namespace ControllerUniffi

namespace ControllerAccount

open Collect

variable {State : Type}

/-! ### The monitor -/

/-- The text after an operation that came to the outcome. -/
def reported {α : Type} (last : String) : Outcome α → String
  | .err e => e.message
  | _ => last

/-- The text of the last reported failure, after one more operation. -/
def monitor (last : String) (entry : Event State × Outcome Value) : String :=
  match entry.1.2 with
  | .clearLastError => ""
  | _ => reported last entry.2

/-- The text of the last failure reported in a log since the last time it was cleared, or the empty text. -/
def lastReported (log : List (Event State × Outcome Value)) : String := log.foldl monitor ""

/-- The entry neither reports a failure nor clears the last one. -/
def Uneventful (entry : Event State × Outcome Value) : Prop :=
  entry.1.2 ≠ .clearLastError ∧ ∀ e, entry.2 ≠ .err e

theorem monitor_of_uneventful {last : String} {entry : Event State × Outcome Value} (h : Uneventful entry) :
    monitor last entry = last := by
  obtain ⟨⟨S, operation⟩, outcome⟩ := entry
  obtain ⟨hclear, herr⟩ := h
  have hreported : reported last outcome = last := by
    cases outcome with
    | ok v => rfl
    | err e => exact absurd rfl (herr e)
    | panicked => rfl
  cases operation with
  | clearLastError => exact absurd rfl hclear
  | _ => exact hreported

private theorem foldl_monitor_of_uneventful {last : String} {log : List (Event State × Outcome Value)}
    (h : ∀ entry ∈ log, Uneventful entry) : log.foldl monitor last = last := by
  induction log generalizing last with
  | nil => rfl
  | cons entry log ih =>
    rw [List.foldl_cons, monitor_of_uneventful (h entry List.mem_cons_self)]
    exact ih fun entry' h' => h entry' (List.mem_cons_of_mem entry h')

/-- The last eventful entry of the log decides. -/
theorem lastReported_append {first rest : List (Event State × Outcome Value)} {entry : Event State × Outcome Value}
    (h : ∀ later ∈ rest, Uneventful later) :
    lastReported (first ++ entry :: rest) = monitor (lastReported first) entry := by
  rw [lastReported, List.foldl_append, List.foldl_cons, foldl_monitor_of_uneventful h]
  rfl

/-- A failure is the last reported one until another failure or a clearing. -/
theorem lastReported_of_failure {first rest : List (Event State × Outcome Value)} {S : ControllerSdk State}
    {operation : Operation} {e : ControllerError} (hoperation : operation ≠ .clearLastError)
    (h : ∀ later ∈ rest, Uneventful later) :
    lastReported (first ++ ((S, operation), .err e) :: rest) = e.message := by
  rw [lastReported_append h]
  cases operation with
  | clearLastError => exact absurd rfl hoperation
  | _ => rfl

/-- After a clearing nothing is reported until the next failure. -/
theorem lastReported_of_clear {first rest : List (Event State × Outcome Value)} {S : ControllerSdk State}
    {outcome : Outcome Value} (h : ∀ later ∈ rest, Uneventful later) :
    lastReported (first ++ ((S, .clearLastError), outcome) :: rest) = "" := by
  rw [lastReported_append h]
  rfl

/-- The failures of the operation are recorded: its arguments parse, and it is no failing `delegate_account`. -/
def Recorded (T : Crates) (inner : ControllerInner State) (event : Event State) : Prop :=
  match event.2 with
  | .execute calls => ∃ callsVec, tryIntoCalls T calls = .ok callsVec
  | .switchChain rpcUrl => ∃ url, T.urlParse rpcUrl = .ok url
  | .delegateAccount => ∃ delegate, event.1.delegateAccount inner.controller = .ok delegate
  | .transfer recipient amount =>
    (∃ f, T.fromHex recipient.value = .ok f) ∧ ∃ f, T.fromHex amount.value = .ok f
  | _ => True

/-! ### One step -/

/-- The account has the text that the outcome asks for. -/
def Tracks {α : Type} (inner : ControllerInner State) (x : Step (ControllerInner State) ControllerRequest α) : Prop :=
  errorText x.state = reported (errorText inner) x.outcome

theorem tracks_conclude {α β : Type} {inner : ControllerInner State} {request : ControllerRequest}
    {reply : Except String α × SdkController State} {wrap : String → ControllerError} {value : α → β}
    (hwrap : ∀ m, (wrap m).message = m) : Tracks inner (conclude inner request reply wrap value) := by
  unfold Tracks conclude
  rcases reply.1 with e | a
  · exact (hwrap e).symm
  · rfl

theorem Tracks.mapValue {α β : Type} {inner : ControllerInner State}
    {x : Step (ControllerInner State) ControllerRequest α} (h : Tracks inner x) (f : α → β) :
    Tracks inner (x.mapValue f) := by
  have hreported : reported (errorText inner) (x.mapValue f).outcome = reported (errorText inner) x.outcome := by
    unfold Step.mapValue
    cases x.outcome <;> rfl
  unfold Tracks
  rw [hreported]
  exact h

section

variable {T : Crates} {inner : ControllerInner State} {S : ControllerSdk State}

theorem tracks_execute {calls : List Call} (h : ∃ callsVec, tryIntoCalls T calls = .ok callsVec) :
    Tracks inner (execute T S inner calls) := by
  obtain ⟨callsVec, hcalls⟩ := h
  unfold execute
  rw [hcalls]
  exact tracks_conclude fun _ => rfl

theorem tracks_switchChain {rpcUrl : String} (h : ∃ url, T.urlParse rpcUrl = .ok url) :
    Tracks inner (switchChain T S inner rpcUrl) := by
  obtain ⟨url, hurl⟩ := h
  unfold switchChain
  rw [hurl]
  exact tracks_conclude fun _ => rfl

theorem tracks_delegateAccount (h : ∃ delegate, S.delegateAccount inner.controller = .ok delegate) :
    Tracks inner (delegateAccount S inner) := by
  obtain ⟨delegate, hdelegate⟩ := h
  unfold delegateAccount
  rw [hdelegate]
  rfl

theorem tracks_transfer {recipient amount : ControllerFieldElement}
    (h : (∃ f, T.fromHex recipient.value = .ok f) ∧ ∃ f, T.fromHex amount.value = .ok f) :
    Tracks inner (transfer T S inner recipient amount) := by
  obtain ⟨⟨recipientFelt, hrecipient⟩, ⟨amountFelt, hamount⟩⟩ := h
  unfold transfer
  simp only [hrecipient, hamount]
  cases T.getSelectorFromName "transfer" with
  | error e => rfl
  | ok selector => exact tracks_conclude fun _ => rfl

/-- A recorded step keeps the account and the monitor together. -/
theorem step_tracks {event : Event State} (h : Recorded T inner event) :
    errorText (step T inner event).2 = monitor (errorText inner) (event, (step T inner event).1) := by
  obtain ⟨S, operation⟩ := event
  cases operation with
  | signup signerType sessionExpiration cartridgeApiUrl => exact (tracks_conclude fun _ => rfl).mapValue _
  | disconnect => exact (tracks_conclude fun _ => rfl).mapValue _
  | execute calls => exact (tracks_execute h).mapValue _
  | switchChain rpcUrl => exact (tracks_switchChain h).mapValue _
  | delegateAccount => exact (tracks_delegateAccount h).mapValue _
  | transfer recipient amount => exact (tracks_transfer h).mapValue _
  | address => rfl
  | username => rfl
  | appId => rfl
  | chainId => rfl
  | errorMessage => rfl
  | clearLastError => rfl

/-- A step that is not recorded fails and leaves the last error as it was. -/
theorem step_of_not_recorded {event : Event State} (h : ¬ Recorded T inner event) :
    ∃ e, (step T inner event).1 = .err e ∧ (step T inner event).2 = inner ∧
      monitor (errorText inner) (event, (step T inner event).1) = e.message := by
  obtain ⟨S, operation⟩ := event
  cases operation with
  | execute calls =>
    have hcalls : ∃ e, tryIntoCalls T calls = .error e := (ok_or_error (tryIntoCalls T calls)).resolve_left h
    obtain ⟨e, he⟩ := hcalls
    refine ⟨e, ?_⟩
    simp [step, Operation.perform, execute, he, refuse, Step.mapValue, monitor, reported]
  | switchChain rpcUrl =>
    obtain ⟨e, he⟩ := (ok_or_error (T.urlParse rpcUrl)).resolve_left h
    refine ⟨.invalidInput e, ?_⟩
    simp [step, Operation.perform, switchChain, he, refuse, Step.mapValue, monitor, reported]
  | delegateAccount =>
    obtain ⟨e, he⟩ := (ok_or_error (S.delegateAccount inner.controller)).resolve_left h
    refine ⟨.networkError e, ?_⟩
    simp [step, Operation.perform, delegateAccount, he, Step.mapValue, monitor, reported]
  | transfer recipient amount =>
    rcases ok_or_error (T.fromHex recipient.value) with ⟨f, hf⟩ | ⟨e, he⟩
    · obtain ⟨e, he⟩ := (ok_or_error (T.fromHex amount.value)).resolve_left fun hamount => h ⟨⟨f, hf⟩, hamount⟩
      refine ⟨.invalidInput e, ?_⟩
      simp [step, Operation.perform, transfer, hf, he, refuse, Step.mapValue, monitor, reported]
    · refine ⟨.invalidInput e, ?_⟩
      simp [step, Operation.perform, transfer, he, refuse, Step.mapValue, monitor, reported]
  | signup _ _ _ => exact absurd trivial h
  | disconnect => exact absurd trivial h
  | address => exact absurd trivial h
  | username => exact absurd trivial h
  | appId => exact absurd trivial h
  | chainId => exact absurd trivial h
  | errorMessage => exact absurd trivial h
  | clearLastError => exact absurd trivial h

/-- A step keeps the account and the monitor together iff it is recorded, or fails with the text there is. -/
theorem step_tracks_iff {event : Event State} :
    errorText (step T inner event).2 = monitor (errorText inner) (event, (step T inner event).1) ↔
      Recorded T inner event ∨ ∃ e, (step T inner event).1 = .err e ∧ e.message = errorText inner := by
  by_cases h : Recorded T inner event
  · exact ⟨fun _ => .inl h, fun _ => step_tracks h⟩
  · obtain ⟨e, he, hstate, hmonitor⟩ := step_of_not_recorded h
    rw [hmonitor, hstate]
    constructor
    · intro hmessage
      exact .inr ⟨e, he, hmessage.symm⟩
    · rintro (hrecorded | ⟨e', he', hmessage⟩)
      · exact absurd hrecorded h
      · cases he.symm.trans he'
        exact hmessage.symm

end

/-! ### Whole runs -/

/-- In a run of recorded steps of a new account, the error message is at every moment the text of the last reported
failure since it was cleared. -/
theorem errorMessage_tracks (T : Crates) (inner : ControllerInner State) (hnew : inner.lastError = none)
    (events : List (Event State)) (hrecorded : Trace.Allowed (step T) (Recorded T) inner events)
    (done : List (Event State)) (hdone : done <+: events) :
    (errorMessage (Trace.run (step T) inner done).2).outcome = .ok (lastReported (Trace.run (step T) inner done).1) := by
  have hstart : errorText inner = "" := by rw [errorText, hnew, Option.getD_none]
  have hrun : errorText (Trace.run (step T) inner done).2 = lastReported (Trace.run (step T) inner done).1 := by
    refine Trace.run_monitor_of_prefix (R := fun inner last => errorText inner = last) ?_ hstart hrecorded hdone
    rintro inner last event rfl hstep
    exact step_tracks hstep
  rw [← hrun]
  rfl

def newAccount : ControllerInner Unit where
  controller := { appId := "app", username := "user", address := 0, chainId := 0, state := () }
  lastError := none

/-- An SDK whose `disconnect` fails. -/
def connectedSdk : ControllerSdk Unit :=
  { ControllerSdk.reference with disconnect := fun controller => (.error "not connected", controller) }

theorem errorMessage_tracks_disconnect :
    (errorMessage (Trace.run (step Crates.reference) newAccount
      [(connectedSdk, .disconnect), (connectedSdk, .username)]).2).outcome =
      .ok (lastReported (Trace.run (step Crates.reference) newAccount
        [(connectedSdk, .disconnect), (connectedSdk, .username)]).1) :=
  errorMessage_tracks Crates.reference newAccount rfl [(connectedSdk, .disconnect), (connectedSdk, .username)]
    ⟨trivial, trivial, trivial⟩ _ (List.prefix_refl _)

/-- The failure of a call with a URL that does not parse is reported but not recorded. -/
theorem errorMessage_switchChain :
    (errorMessage (Trace.run (step Crates.reference) newAccount
      [(ControllerSdk.reference, .switchChain "invalid_url")]).2).outcome ≠
      .ok (lastReported (Trace.run (step Crates.reference) newAccount
        [(ControllerSdk.reference, .switchChain "invalid_url")]).1) := by
  decide

end ControllerAccount

end ControllerUniffi
