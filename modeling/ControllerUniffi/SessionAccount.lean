import ControllerUniffi.Types

/-!
# Session accounts

A session account is the SDK's account together with the data of the session and the last error.  It is built from
texts by `SessionAccount.new`, or from the answer to a subscription by `SessionAccount.createFromSubscribe`, and it
submits calls, directly or from outside.  The SDK is a `SessionSdk`: its replies may depend on anything, and it may
replace the account it was asked about.
-/

namespace ControllerUniffi

open Whatwg

/-! ### The SDK's types -/

structure SigningKey where
  secretScalar : Felt
  deriving DecidableEq, Repr

/-- The only kind of signer that is made for sessions. -/
inductive Signer where
  | starknet (key : SigningKey)
  deriving DecidableEq, Repr

structure CartridgeJsonRpcProvider where
  new ::
  rpcUrl : Url
  deriving DecidableEq, Repr

/-- The SDK's session account, as the arguments of `new_as_registered`. -/
structure SdkSessionAccount (Session : Type) where
  newAsRegistered ::
  provider : CartridgeJsonRpcProvider
  signer : Signer
  address : Felt
  chainId : Felt
  ownerGuid : Felt
  session : Session
  deriving DecidableEq, Repr

/-- `account_sdk::abigen::controller::Call`; `toAddress` is its `to`. -/
structure AbigenCall where
  toAddress : Felt
  selector : Felt
  calldata : List Felt
  deriving DecidableEq, Repr

inductive OutsideExecutionCaller where
  | any
  | specific (address : Felt)
  deriving DecidableEq, Repr

structure OutsideExecutionV3 where
  caller : OutsideExecutionCaller
  executeAfter : UInt64
  executeBefore : UInt64
  calls : List AbigenCall
  nonce : Felt × Nat
  deriving DecidableEq, Repr

inductive OutsideExecution where
  | v3 (execution : OutsideExecutionV3)
  deriving DecidableEq, Repr

/-- What is asked of the SDK when calls are submitted. -/
inductive SessionRequest where
  | executeV3 (calls : List StarknetCall)
  | signOutsideExecution (execution : OutsideExecution)
  | addExecuteOutsideTransaction (execution : OutsideExecution) (address : Felt) (signature : List Felt)
  deriving DecidableEq, Repr

structure SessionSdk (Session AbigenSigner : Type) where
  /-- The GUID of a signer, where the conversion is defined. -/
  signerGuid : Signer → Option Felt
  /-- The signer as the contracts know it, where the conversion is defined. -/
  abigenSigner : Signer → Option AbigenSigner
  /-- `Session::new` -/
  sessionNew : List Policy → UInt64 → AbigenSigner → Felt → Except String Session
  /-- `execute_v3(..).send()` -/
  executeV3 : SdkSessionAccount Session → List StarknetCall → Except String Felt × SdkSessionAccount Session
  /-- `sign_outside_execution`; the result is the signature. -/
  signOutsideExecution :
    SdkSessionAccount Session → OutsideExecution → Except String (List Felt) × SdkSessionAccount Session
  /-- `add_execute_outside_transaction` of the account's provider -/
  addExecuteOutsideTransaction :
    CartridgeJsonRpcProvider → OutsideExecution → Felt → List Felt → Except String Felt

/-- An SDK whose sessions are the arguments they are made from, and which submits everything. -/
def SessionSdk.reference : SessionSdk (List Policy × UInt64 × Felt × Felt) Felt where
  signerGuid := fun (.starknet key) => Crates.reference.getPublicKey key.secretScalar
  abigenSigner := fun (.starknet key) => Crates.reference.getPublicKey key.secretScalar
  sessionNew := fun policies expiresAt signer guardian => .ok (policies, expiresAt, signer, guardian)
  executeV3 := fun account _ => (.ok 0, account)
  signOutsideExecution := fun account _ => (.ok [], account)
  addExecuteOutsideTransaction := fun _ _ _ _ => .ok 0

/-! ### The answer to a subscription -/

structure SubscribeController where
  address : String
  accountId : String
  deriving DecidableEq, Repr

structure SubscribeCreateSession where
  id : String
  appId : String
  chainId : String
  isRevoked : Bool
  expiresAt : UInt64
  authorization : List String
  controller : SubscribeController
  deriving DecidableEq, Repr

structure ResponseData where
  subscribeCreateSession : Option SubscribeCreateSession
  deriving DecidableEq, Repr

/-! ### The account -/

/-- The state of a session account. -/
structure SessionAccountInner (Session : Type) where
  sessionAccount : SdkSessionAccount Session
  lastError : Option String
  ownerGuid : Felt
  expiresAt : UInt64
  sessionId : Option String
  username : Option String
  appId : Option String
  isRevoked : Bool
  deriving DecidableEq, Repr

namespace SessionAccount

variable {Session AbigenSigner : Type} (T : Crates) (S : SessionSdk Session AbigenSigner)

def new (rpcUrl privateKey : String) (address ownerGuid chainId : ControllerFieldElement) (policies : SessionPolicies)
    (sessionExpiration : UInt64) : Outcome (SessionAccountInner Session) := do
  let rpcUrlParsed ← .ofExcept ((T.urlParse rpcUrl).mapError .initializationError)
  let provider := CartridgeJsonRpcProvider.new rpcUrlParsed
  let addressFelt ← .ofExcept ((T.fromHex address.value).mapError .initializationError)
  let chainIdFelt ← .ofExcept ((T.fromHex chainId.value).mapError .initializationError)
  let ownerGuidFelt ← .ofExcept ((T.fromHex ownerGuid.value).mapError .initializationError)
  let privateKeyFelt ← .ofExcept ((T.fromHex privateKey).mapError .initializationError)
  let signer := Signer.starknet { secretScalar := privateKeyFelt }
  let policyVec ← .ofExcept (policies.tryInto T)
  let abigenSigner ← .ofOption (S.abigenSigner signer)
  let session ← .ofExcept
    ((S.sessionNew policyVec sessionExpiration abigenSigner 0).mapError .initializationError)
  return {
    sessionAccount := .newAsRegistered provider signer addressFelt chainIdFelt ownerGuidFelt session
    lastError := none
    ownerGuid := ownerGuidFelt
    expiresAt := sessionExpiration
    sessionId := none
    username := none
    appId := none
    isRevoked := false }

def execute (inner : SessionAccountInner Session) (calls : List Call) :
    Step (SessionAccountInner Session) SessionRequest ControllerFieldElement :=
  match tryIntoCalls T calls with
  | .error e => { outcome := .err e, requests := [], state := inner }
  | .ok callsVec =>
    let reply := S.executeV3 inner.sessionAccount callsVec
    let inner := { inner with sessionAccount := reply.2 }
    match reply.1 with
    | .ok transactionHash =>
      { outcome := .ok ⟨feltLowerHex transactionHash⟩
        requests := [.executeV3 callsVec]
        state := inner }
    | .error errMsg =>
      { outcome := .err (.executionError errMsg)
        requests := [.executeV3 callsVec]
        state := { inner with lastError := some errMsg } }

/-- The call in the type of the generated bindings. -/
def abigenCall (c : StarknetCall) : AbigenCall :=
  { toAddress := c.toAddress, selector := c.selector, calldata := c.calldata }

/-- The execution that is signed and submitted, at the time `now` and with a random key. -/
def outsideExecution (now : UInt64) (random : Felt) (calls : List StarknetCall) : OutsideExecutionV3 where
  caller := .any
  executeAfter := 0
  -- wraps around like the unchecked addition of a release build
  executeBefore := now + 600
  calls := calls.map abigenCall
  nonce := (random, 1)

/-- After a failure to sign, nothing is submitted.  The recorded text is that of the error with its kind. -/
def executeFromOutside (now : UInt64) (random : Felt) (inner : SessionAccountInner Session) (calls : List Call) :
    Step (SessionAccountInner Session) SessionRequest ControllerFieldElement :=
  match tryIntoCalls T calls with
  | .error e => { outcome := .err e, requests := [], state := inner }
  | .ok callsVec =>
    let execution := OutsideExecution.v3 (outsideExecution now random callsVec)
    let signed := S.signOutsideExecution inner.sessionAccount execution
    let inner := { inner with sessionAccount := signed.2 }
    match signed.1 with
    | .error errMsg =>
      let e := ControllerError.executionError errMsg
      { outcome := .err e
        requests := [.signOutsideExecution execution]
        state := { inner with lastError := some e.display } }
    | .ok signature =>
      let address := inner.sessionAccount.address
      let requests := [.signOutsideExecution execution, .addExecuteOutsideTransaction execution address signature]
      match S.addExecuteOutsideTransaction inner.sessionAccount.provider execution address signature with
      | .ok transactionHash => { outcome := .ok ⟨feltLowerHex transactionHash⟩, requests := requests, state := inner }
      | .error errMsg =>
        let e := ControllerError.executionError errMsg
        { outcome := .err e, requests := requests, state := { inner with lastError := some e.display } }

/-- `subscribe` is the SDK's `subscribe_create_session`.  Indexing panics out of range. -/
def createFromSubscribe (subscribe : Felt → String → Except String ResponseData) (privateKey : String)
    (policies : SessionPolicies) (rpcUrl cartridgeApiUrl : String) : Outcome (SessionAccountInner Session) := do
  let privateKeyFelt ← .ofExcept ((T.fromHex privateKey).mapError .initializationError)
  let signer := Signer.starknet { secretScalar := privateKeyFelt }
  let sessionKeyGuid ← .ofOption (S.signerGuid signer)
  let responseData ← .ofExcept ((subscribe sessionKeyGuid cartridgeApiUrl).mapError fun e =>
    .signupError ("Failed to subscribe: " ++ e))
  let data ← .ofExcept (responseData.subscribeCreateSession.elim
    (.error (.signupError "No data inside the subscribe create session")) .ok)
  -- the first element is read before the length is known to be two
  if data.authorization.isEmpty then
    .err (.signupError "No authorization in response")
  let authorization ← .ofOption data.authorization[0]?
  let kind ← .ofExcept ((T.fromHex authorization).mapError .signupError)
  if kind ≠ T.shortString "authorization-by-registered" then
    .err (.signupError "Invalid authorization")
  if data.authorization.length < 2 then
    .err (.signupError "Missing owner_guid in authorization")
  let address := data.controller.address
  let ownerGuid ← .ofOption data.authorization[1]?
  let chainIdFelt ← .ofExcept ((T.cairoShortStringToFelt data.chainId).mapError fun e =>
    .initializationError ("Failed to parse chainId: " ++ e))
  let chainId := feltLowerHex chainIdFelt
  let inner ← new T S rpcUrl privateKey ⟨address⟩ ⟨ownerGuid⟩ ⟨chainId⟩ policies data.expiresAt
  return { inner with
    sessionId := some data.id
    username := some data.controller.accountId
    appId := some data.appId
    isRevoked := data.isRevoked }

/-! ### What is read from the account -/

variable (inner : SessionAccountInner Session)

def address : String := feltLowerHex inner.sessionAccount.address

def chainId : String := feltLowerHex inner.sessionAccount.chainId

def ownerGuid : String := feltLowerHex inner.ownerGuid

def expiresAt : UInt64 := inner.expiresAt

def isExpired (now : UInt64) : Bool := inner.expiresAt ≤ now

def sessionId : Option String := inner.sessionId

def username : Option String := inner.username

def appId : Option String := inner.appId

def isRevoked : Bool := inner.isRevoked

end SessionAccount

end ControllerUniffi
