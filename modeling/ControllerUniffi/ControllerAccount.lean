import ControllerUniffi.Data.Trace
import ControllerUniffi.SessionAccount

/-!
# Controller accounts

A controller account is the SDK's controller together with the text of the last error.  Its operations take the lock
for their whole effect on this state, so that concurrent callers make a sequence of operations (`Operation.perform`,
`step`).  The SDK is a `ControllerSdk`; it may answer anything, and answer differently at every step.
-/

namespace ControllerUniffi

open Whatwg

/-- The SDK's controller: the fields that are read here, and the rest of its state. -/
structure SdkController (State : Type) where
  appId : String
  username : String
  address : Felt
  chainId : Felt
  state : State
  deriving DecidableEq, Repr

/-- `account_sdk::signers::Owner`, of the kind that is made here. -/
inductive SdkOwner where
  | signer (signer : Signer)
  deriving DecidableEq, Repr

structure Owner where
  inner : SdkOwner
  deriving DecidableEq, Repr

def Owner.new (T : Crates) (privateKey : String) : Except ControllerError Owner := do
  let felt ← (T.fromHex privateKey).mapError .invalidInput
  return { inner := .signer (.starknet { secretScalar := felt }) }

/-- What is asked of the SDK's controller. -/
inductive ControllerRequest where
  | signup (signerType : SignerType) (sessionExpiration : Option UInt64) (cartridgeApiUrl : Option String)
  | disconnect
  | executeV3 (calls : List StarknetCall)
  | switchChain (url : Url)
  | delegateAccount
  deriving DecidableEq, Repr

structure ControllerSdk (State : Type) where
  /-- `STRK_CONTRACT_ADDRESS` -/
  strkContractAddress : Felt
  /-- `SdkController::new` -/
  new : String → String → Felt → Url → SdkOwner → Felt → Felt → SdkController State
  /-- `SdkController::new_headless` -/
  newHeadless : String → String → Felt → Url → SdkOwner → Felt → SdkController State
  /-- `SdkController::from_storage` -/
  fromStorage : String → Except String (Option (SdkController State))
  signup : SdkController State → SignerType → Option UInt64 → Option String → Except String Unit × SdkController State
  disconnect : SdkController State → Except String Unit × SdkController State
  /-- `execute_v3(..).send()` -/
  executeV3 : SdkController State → List StarknetCall → Except String Felt × SdkController State
  switchChain : SdkController State → Url → Except String Unit × SdkController State
  /-- The controller is only borrowed. -/
  delegateAccount : SdkController State → Except String Felt

/-- The state of a controller account. -/
structure ControllerInner (State : Type) where
  controller : SdkController State
  lastError : Option String
  deriving DecidableEq, Repr

namespace ControllerAccount

variable {State : Type}

/-! ### Making an account -/

section

variable (T : Crates) (S : ControllerSdk State)

def new (appId username : String) (classHash : ControllerFieldElement) (rpcUrl : String) (owner : Owner)
    (address chainId : ControllerFieldElement) : Except ControllerError (ControllerInner State) := do
  let classHashFelt ← (T.fromHex classHash.value).mapError .initializationError
  let rpcUrlParsed ← (T.urlParse rpcUrl).mapError .initializationError
  let addressFelt ← (T.fromHex address.value).mapError .initializationError
  let chainIdFelt ← (T.fromHex chainId.value).mapError .initializationError
  return {
    controller := S.new appId username classHashFelt rpcUrlParsed owner.inner addressFelt chainIdFelt
    lastError := none }

def newHeadless (appId username : String) (classHash : ControllerFieldElement) (rpcUrl : String) (owner : Owner)
    (chainId : ControllerFieldElement) : Except ControllerError (ControllerInner State) := do
  let classHashFelt ← (T.fromHex classHash.value).mapError .initializationError
  let rpcUrlParsed ← (T.urlParse rpcUrl).mapError .initializationError
  let chainIdFelt ← (T.fromHex chainId.value).mapError .initializationError
  return {
    controller := S.newHeadless appId username classHashFelt rpcUrlParsed owner.inner chainIdFelt
    lastError := none }

def fromStorage (appId : String) : Except ControllerError (ControllerInner State) :=
  match S.fromStorage appId with
  | .ok (some controller) => .ok { controller := controller, lastError := none }
  | .ok none => .error (.storageError ("No stored controller found for app_id: " ++ appId))
  | .error e => .error (.storageError e)

end

/-! ### Using an account -/

/-- A call that ends before the SDK is asked. -/
def refuse {α : Type} (inner : ControllerInner State) (e : ControllerError) :
    Step (ControllerInner State) ControllerRequest α :=
  { outcome := .err e, requests := [], state := inner }

/-- A call that ends with the reply of the SDK: its error is recorded and wrapped. -/
def conclude {α β : Type} (inner : ControllerInner State) (request : ControllerRequest)
    (reply : Except String α × SdkController State) (wrap : String → ControllerError) (value : α → β) :
    Step (ControllerInner State) ControllerRequest β :=
  match reply.1 with
  | .ok a =>
    { outcome := .ok (value a)
      requests := [request]
      state := { inner with controller := reply.2 } }
  | .error errMsg =>
    { outcome := .err (wrap errMsg)
      requests := [request]
      state := { controller := reply.2, lastError := some errMsg } }

/-- A call that only reads the state. -/
def read {α : Type} (inner : ControllerInner State) (a : α) : Step (ControllerInner State) ControllerRequest α :=
  { outcome := .ok a, requests := [], state := inner }

section

variable (T : Crates) (S : ControllerSdk State) (inner : ControllerInner State)

def signup (signerType : SignerType) (sessionExpiration : Option UInt64) (cartridgeApiUrl : Option String) :
    Step (ControllerInner State) ControllerRequest Unit :=
  conclude inner (.signup signerType sessionExpiration cartridgeApiUrl)
    (S.signup inner.controller signerType sessionExpiration cartridgeApiUrl) .signupError id

def disconnect : Step (ControllerInner State) ControllerRequest Unit :=
  conclude inner .disconnect (S.disconnect inner.controller) .disconnectError id

/-- Calls that do not convert are refused before the lock is taken, and not recorded. -/
def execute (calls : List Call) : Step (ControllerInner State) ControllerRequest ControllerFieldElement :=
  match tryIntoCalls T calls with
  | .error e => refuse inner e
  | .ok callsVec =>
    conclude inner (.executeV3 callsVec) (S.executeV3 inner.controller callsVec) .executionError
      fun transactionHash => ⟨feltLowerHex transactionHash⟩

/-- A URL that does not parse is refused and not recorded. -/
def switchChain (rpcUrl : String) : Step (ControllerInner State) ControllerRequest Unit :=
  match T.urlParse rpcUrl with
  | .error e => refuse inner (.invalidInput e)
  | .ok url => conclude inner (.switchChain url) (S.switchChain inner.controller url) .networkError id

/-- The error is returned and not recorded. -/
def delegateAccount : Step (ControllerInner State) ControllerRequest ControllerFieldElement :=
  match S.delegateAccount inner.controller with
  | .error e => { outcome := .err (.networkError e), requests := [.delegateAccount], state := inner }
  | .ok delegate => { outcome := .ok ⟨feltLowerHex delegate⟩, requests := [.delegateAccount], state := inner }

/-- The selector is unwrapped: without one the call panics. -/
def transfer (recipient amount : ControllerFieldElement) :
    Step (ControllerInner State) ControllerRequest ControllerFieldElement :=
  match T.fromHex recipient.value with
  | .error e => refuse inner (.invalidInput e)
  | .ok recipientFelt =>
    match T.fromHex amount.value with
    | .error e => refuse inner (.invalidInput e)
    | .ok amountFelt =>
      match T.getSelectorFromName "transfer" with
      | .error _ => { outcome := .panicked, requests := [], state := inner }
      | .ok selector =>
        let call := {
          toAddress := S.strkContractAddress
          selector := selector
          calldata := [recipientFelt, amountFelt, 0] }
        conclude inner (.executeV3 [call]) (S.executeV3 inner.controller [call]) .executionError
          fun transactionHash => ⟨feltLowerHex transactionHash⟩

def address : Step (ControllerInner State) ControllerRequest ControllerFieldElement :=
  read inner ⟨feltLowerHex inner.controller.address⟩

def username : Step (ControllerInner State) ControllerRequest String := read inner inner.controller.username

def appId : Step (ControllerInner State) ControllerRequest String := read inner inner.controller.appId

def chainId : Step (ControllerInner State) ControllerRequest ControllerFieldElement :=
  read inner ⟨feltLowerHex inner.controller.chainId⟩

/-- The last error, or the empty text. -/
def errorText : String := inner.lastError.getD ""

def errorMessage : Step (ControllerInner State) ControllerRequest String := read inner (errorText inner)

def clearLastError : Step (ControllerInner State) ControllerRequest Unit :=
  { outcome := .ok (), requests := [], state := { inner with lastError := none } }

end

end ControllerAccount

def controllerHasStorage {State : Type} (S : ControllerSdk State) (appId : String) : Except ControllerError Bool :=
  match S.fromStorage appId with
  | .ok (some _) => .ok true
  | .ok none => .ok false
  | .error e => .error (.storageError e)

/-! ### Sequences of operations -/

/-- A call of a method of the account, with its arguments. -/
inductive Operation where
  | signup (signerType : SignerType) (sessionExpiration : Option UInt64) (cartridgeApiUrl : Option String)
  | disconnect
  | execute (calls : List Call)
  | switchChain (rpcUrl : String)
  | delegateAccount
  | transfer (recipient amount : ControllerFieldElement)
  | address
  | username
  | appId
  | chainId
  | errorMessage
  | clearLastError
  deriving DecidableEq, Repr

/-- What a method can return. -/
inductive Value where
  | unit
  | fieldElement (element : ControllerFieldElement)
  | text (text : String)
  deriving DecidableEq, Repr

def Step.mapValue {σ ε α β : Type} (x : Step σ ε α) (f : α → β) : Step σ ε β where
  outcome := x.outcome >>= fun a => .ok (f a)
  requests := x.requests
  state := x.state

def Operation.perform {State : Type} (T : Crates) (S : ControllerSdk State) (inner : ControllerInner State) :
    Operation → Step (ControllerInner State) ControllerRequest Value
  | .signup signerType sessionExpiration cartridgeApiUrl =>
    (ControllerAccount.signup S inner signerType sessionExpiration cartridgeApiUrl).mapValue fun _ => .unit
  | .disconnect => (ControllerAccount.disconnect S inner).mapValue fun _ => .unit
  | .execute calls => (ControllerAccount.execute T S inner calls).mapValue .fieldElement
  | .switchChain rpcUrl => (ControllerAccount.switchChain T S inner rpcUrl).mapValue fun _ => .unit
  | .delegateAccount => (ControllerAccount.delegateAccount S inner).mapValue .fieldElement
  | .transfer recipient amount => (ControllerAccount.transfer T S inner recipient amount).mapValue .fieldElement
  | .address => (ControllerAccount.address inner).mapValue .fieldElement
  | .username => (ControllerAccount.username inner).mapValue .text
  | .appId => (ControllerAccount.appId inner).mapValue .text
  | .chainId => (ControllerAccount.chainId inner).mapValue .fieldElement
  | .errorMessage => (ControllerAccount.errorMessage inner).mapValue .text
  | .clearLastError => (ControllerAccount.clearLastError inner).mapValue fun _ => .unit

/-- One operation, with the SDK that it meets. -/
abbrev Event (State : Type) := ControllerSdk State × Operation

/-- The machine that takes the operations in the order of the lock. -/
def ControllerAccount.step {State : Type} (T : Crates) (inner : ControllerInner State) (event : Event State) :
    Outcome Value × ControllerInner State :=
  let result := event.2.perform T event.1 inner
  (result.outcome, result.state)

/-- An SDK that submits everything and stores nothing. -/
def ControllerSdk.reference : ControllerSdk Unit where
  strkContractAddress := 0x04718f5a0fc34cc1af16a1cdee98ffb20c31f5cd61d6ab07201858f4287c938d
  new := fun appId username _ _ _ address chainId => ⟨appId, username, address, chainId, ()⟩
  newHeadless := fun appId username _ _ _ chainId => ⟨appId, username, 0, chainId, ()⟩
  fromStorage := fun _ => .ok none
  signup := fun controller _ _ _ => (.ok (), controller)
  disconnect := fun controller => (.ok (), controller)
  executeV3 := fun controller _ => (.ok 0, controller)
  switchChain := fun controller _ => (.ok (), controller)
  delegateAccount := fun _ => .ok 0

end ControllerUniffi
