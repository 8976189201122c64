import Mathlib.Data.Nat.Notation

/-!
# Errors and outcomes

`ControllerError`, and what a call of the library comes to: a value, an error or a panic.  A `Run` also records, in
order, the requests that the call makes on the outside world; a `Step` is a run with a state.  A sequence stops at
the first step that does not return a value; what was requested up to there stays requested.
-/

namespace ControllerUniffi

inductive ControllerError where
  | initializationError (message : String)
  | signupError (message : String)
  | executionError (message : String)
  | networkError (message : String)
  | storageError (message : String)
  | invalidInput (message : String)
  | disconnectError (message : String)
  deriving DecidableEq, Repr

namespace ControllerError

/-- The text carried inside the error. -/
def message : ControllerError → String
  | initializationError m | signupError m | executionError m | networkError m | storageError m | invalidInput m
  | disconnectError m => m

/-- The text of the error with its kind, as `to_string` gives it. -/
def display : ControllerError → String
  | initializationError m => "Initialization error: " ++ m
  | signupError m => "Signup error: " ++ m
  | executionError m => "Execution error: " ++ m
  | networkError m => "Network error: " ++ m
  | storageError m => "Storage error: " ++ m
  | invalidInput m => "Invalid input: " ++ m
  | disconnectError m => "Disconnect error: " ++ m

def IsInvalidInput (e : ControllerError) : Prop := ∃ m, e = invalidInput m

def IsNetworkError (e : ControllerError) : Prop := ∃ m, e = networkError m

end ControllerError

/-- A foreign error that is wrapped as an invalid input. -/
theorem isInvalidInput_of_mapError {α : Type} {x : Except String α} {f : String → String} {e : ControllerError}
    (h : x.mapError (fun m => ControllerError.invalidInput (f m)) = .error e) : e.IsInvalidInput := by
  cases x with
  | ok a => cases h
  | error m =>
    cases h
    exact ⟨f m, rfl⟩

/-- A foreign error that is wrapped as a network error. -/
theorem isNetworkError_of_mapError {α : Type} {x : Except String α} {f : String → String} {e : ControllerError}
    (h : x.mapError (fun m => ControllerError.networkError (f m)) = .error e) : e.IsNetworkError := by
  cases x with
  | ok a => cases h
  | error m =>
    cases h
    exact ⟨f m, rfl⟩

inductive Outcome (α : Type) where
  | ok (a : α)
  | err (e : ControllerError)
  | panicked
  deriving DecidableEq, Repr

/-- An outcome with the requests made on the way to it. -/
structure Run (ε α : Type) where
  outcome : Outcome α
  requests : List ε
  deriving DecidableEq, Repr

/-- A run that also replaces the state it was started in. -/
structure Step (σ ε α : Type) extends Run ε α where
  state : σ
  deriving DecidableEq, Repr

namespace Outcome

def ofExcept {α : Type} : Except ControllerError α → Outcome α
  | .ok a => ok a
  | .error e => err e

/-- A partial function panics where it is not defined. -/
def ofOption {α : Type} : Option α → Outcome α
  | some a => ok a
  | none => panicked

protected def bind {α β : Type} (x : Outcome α) (f : α → Outcome β) : Outcome β :=
  match x with
  | ok a => f a
  | err e => err e
  | panicked => panicked

instance : Monad Outcome where
  pure := ok
  bind := Outcome.bind

section

variable {α β : Type} {f : α → Outcome β}

@[simp] theorem pure_eq (a : α) : (pure a : Outcome α) = .ok a := rfl
@[simp] theorem ok_bind (a : α) : (Outcome.ok a >>= f) = f a := rfl
@[simp] theorem err_bind (e : ControllerError) : (Outcome.err e >>= f) = .err e := rfl
@[simp] theorem panicked_bind : (Outcome.panicked >>= f) = .panicked := rfl
@[simp] theorem ofExcept_ok (a : α) : ofExcept (.ok a) = .ok a := rfl
@[simp] theorem ofExcept_error (e : ControllerError) : ofExcept (.error e : Except ControllerError α) = .err e := rfl
@[simp] theorem ofOption_some (a : α) : ofOption (some a) = .ok a := rfl
@[simp] theorem ofOption_none : ofOption (none : Option α) = .panicked := rfl

theorem bind_eq_ok_iff {x : Outcome α} {b : β} : (x >>= f) = .ok b ↔ ∃ a, x = .ok a ∧ f a = .ok b := by
  cases x <;> simp

theorem bind_eq_err_iff {x : Outcome α} {e : ControllerError} :
    (x >>= f) = .err e ↔ x = .err e ∨ ∃ a, x = .ok a ∧ f a = .err e := by
  cases x <;> simp

theorem bind_eq_panicked_iff {x : Outcome α} :
    (x >>= f) = .panicked ↔ x = .panicked ∨ ∃ a, x = .ok a ∧ f a = .panicked := by
  cases x <;> simp

@[simp] theorem ofExcept_eq_ok_iff {x : Except ControllerError α} {a : α} : ofExcept x = .ok a ↔ x = .ok a := by
  cases x <;> simp [ofExcept]

@[simp] theorem ofExcept_eq_err_iff {x : Except ControllerError α} {e : ControllerError} :
    ofExcept x = .err e ↔ x = .error e := by
  cases x <;> simp [ofExcept]

@[simp] theorem ofExcept_ne_panicked {x : Except ControllerError α} : ofExcept x ≠ .panicked := by
  cases x <;> simp [ofExcept]

@[simp] theorem ofOption_eq_ok_iff {x : Option α} {a : α} : ofOption x = .ok a ↔ x = some a := by
  cases x <;> simp [ofOption]

@[simp] theorem ofOption_ne_err {x : Option α} {e : ControllerError} : ofOption x ≠ .err e := by
  cases x <;> simp [ofOption]

@[simp] theorem ofOption_eq_panicked_iff {x : Option α} : ofOption x = .panicked ↔ x = none := by
  cases x <;> simp [ofOption]

end

end Outcome

namespace Run

/-- A step that requests nothing. -/
def quiet {ε α : Type} (x : Outcome α) : Run ε α := { outcome := x, requests := [] }

protected def bind {ε α β : Type} (x : Run ε α) (f : α → Run ε β) : Run ε β :=
  match x.outcome with
  | .ok a => { outcome := (f a).outcome, requests := x.requests ++ (f a).requests }
  | .err e => { outcome := .err e, requests := x.requests }
  | .panicked => { outcome := .panicked, requests := x.requests }

instance {ε : Type} : Monad (Run ε) where
  pure a := quiet (.ok a)
  bind := Run.bind

section

variable {ε α β : Type} {f : α → Run ε β}

@[simp] theorem quiet_outcome (x : Outcome α) : (quiet x : Run ε α).outcome = x := rfl
@[simp] theorem quiet_requests (x : Outcome α) : (quiet x : Run ε α).requests = [] := rfl
@[simp] theorem quiet_ok_bind (a : α) : (quiet (.ok a) >>= f) = f a := rfl
@[simp] theorem quiet_err_bind (e : ControllerError) : (quiet (.err e) >>= f) = quiet (.err e) := rfl
@[simp] theorem quiet_panicked_bind : (quiet (.panicked : Outcome α) >>= f) = quiet .panicked := rfl

/-- The outcome of a sequence is the sequence of the outcomes. -/
theorem bind_outcome (x : Run ε α) : (x >>= f).outcome = x.outcome >>= fun a => (f a).outcome := by
  show (Run.bind x f).outcome = _
  unfold Run.bind
  cases x.outcome <;> rfl

/-- A continuation that requests nothing adds no request. -/
theorem bind_requests_of_quiet (x : Run ε α) (h : ∀ a, (f a).requests = []) : (x >>= f).requests = x.requests := by
  show (Run.bind x f).requests = _
  unfold Run.bind
  cases x.outcome with
  | ok a => simp [h]
  | err e => rfl
  | panicked => rfl

theorem quiet_bind (x : Outcome α) (g : α → Outcome β) :
    (quiet (x >>= g) : Run ε β) = quiet x >>= fun a => quiet (g a) := by
  cases x <;> rfl

theorem quiet_bind_bind {γ : Type} (x : Outcome α) (g : β → Run ε γ) :
    ((quiet x >>= f) >>= g) = quiet x >>= fun a => f a >>= g := by
  cases x <;> rfl

end

end Run

end ControllerUniffi
