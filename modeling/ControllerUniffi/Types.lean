import ControllerUniffi.Crates
import ControllerUniffi.Data.Collect
import ControllerUniffi.Data.SortBy
import ControllerUniffi.Error

/-!
# Calls and session policies

The records of the interface and their conversions: calls to the calls of the SDK, session policies to their
canonical list and to the policies of the SDK.  Both conversions fail with an invalid input as soon as one element
does, and the canonical list is sorted by the padded address, then by the entrypoint without regard to letter case,
then by the entrypoint.
-/

namespace ControllerUniffi

open Text Collect SortBy

structure ControllerFieldElement where
  value : String
  deriving DecidableEq, Repr

inductive SignerType where
  | webauthn
  | starknet
  deriving DecidableEq, Repr

structure Call where
  contractAddress : ControllerFieldElement
  entrypoint : String
  calldata : List ControllerFieldElement
  deriving DecidableEq, Repr

/-- `starknet::core::types::Call`; `toAddress` is its `to`. -/
structure StarknetCall where
  toAddress : Felt
  selector : Felt
  calldata : List Felt
  deriving DecidableEq, Repr

structure SessionPolicy where
  contractAddress : ControllerFieldElement
  entrypoint : String
  deriving DecidableEq, Repr

structure SessionPolicies where
  policies : List SessionPolicy
  maxFee : ControllerFieldElement
  deriving DecidableEq, Repr

/-- A policy with its address parsed; the text of the address is the padded one. -/
@[ext]
structure CanonicalSessionPolicy where
  contractAddress : Felt
  contractAddressHex : String
  entrypoint : String
  hex_eq : contractAddressHex = feltPaddedHex contractAddress
  deriving DecidableEq, Repr

def CanonicalSessionPolicy.of (contractAddress : Felt) (entrypoint : String) : CanonicalSessionPolicy where
  contractAddress := contractAddress
  contractAddressHex := feltPaddedHex contractAddress
  entrypoint := entrypoint
  hex_eq := rfl

/-- The SDK's policy for calls, as the arguments it is made from. -/
structure Policy where
  newCall ::
  contractAddress : Felt
  selector : Felt
  deriving DecidableEq, Repr

section

variable (T : Crates)

/-- `TryFrom<&Call> for starknet::core::types::Call` -/
def Call.tryInto (call : Call) : Except ControllerError StarknetCall := do
  let contractAddress ← (T.fromHex call.contractAddress.value).mapError .invalidInput
  let selector ← (T.getSelectorFromName call.entrypoint).mapError .invalidInput
  let calldata ← (call.calldata.mapM fun s => T.fromHex s.value).mapError .invalidInput
  return { toAddress := contractAddress, selector := selector, calldata := calldata }

/-- `calls.iter().map(|c| c.try_into()).collect()` -/
def tryIntoCalls (calls : List Call) : Except ControllerError (List StarknetCall) :=
  calls.mapM fun c => c.tryInto T

/-- The comparison of strings: by their bytes. -/
def cmpStr (a b : String) : Ordering := compare (encode a.toList) (encode b.toList)

def toAsciiLowercase (s : String) : String := String.ofList (lower s.toList)

/-- The order of the canonical list: address, then entrypoint. -/
def cmpCanonical (a b : CanonicalSessionPolicy) : Ordering :=
  ((cmpStr a.contractAddressHex b.contractAddressHex).then
    (cmpStr (toAsciiLowercase a.entrypoint) (toAsciiLowercase b.entrypoint))).then
    (cmpStr a.entrypoint b.entrypoint)

def canonicalPolicy (policy : SessionPolicy) : Except ControllerError CanonicalSessionPolicy := do
  let contractAddress ← (T.fromHex policy.contractAddress.value).mapError .invalidInput
  return .of contractAddress policy.entrypoint

def canonicalizeSessionPolicies (policies : SessionPolicies) :
    Except ControllerError (List CanonicalSessionPolicy) := do
  let entries ← policies.policies.mapM (canonicalPolicy T)
  return sortBy cmpCanonical entries

def sdkPolicy (policy : CanonicalSessionPolicy) : Except ControllerError Policy := do
  let selector ← (T.getSelectorFromName policy.entrypoint).mapError .invalidInput
  return Policy.newCall policy.contractAddress selector

/-- `TryFrom<&SessionPolicies> for Vec<Policy>` -/
def SessionPolicies.tryInto (policies : SessionPolicies) : Except ControllerError (List Policy) := do
  let canonical ← canonicalizeSessionPolicies T policies
  canonical.mapM (sdkPolicy T)

end

end ControllerUniffi
