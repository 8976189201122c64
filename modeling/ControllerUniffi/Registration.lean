import ControllerUniffi.Types

/-!
# Session registration

The registration URL of the keychain, which carries the public key of the session and its canonical policies in its
query, and the short link that a URL shortener makes of it.  `createSessionRegistrationUrlInner` sends at most one
request, a `PostRequest`; what the network does is a `Network`.
-/

namespace ControllerUniffi

open Text Whatwg

structure SessionRegistrationPolicyPayload where
  target : String
  method : String
  deriving DecidableEq, Repr

/-- The derived serialization. -/
def SessionRegistrationPolicyPayload.toJson (payload : SessionRegistrationPolicyPayload) : Json :=
  .obj [("target".toList, .str payload.target.toList), ("method".toList, .str payload.method.toList)]

structure ShortenRequest where
  url : String
  deriving DecidableEq, Repr

structure PostRequest where
  url : String
  json : ShortenRequest
  deriving DecidableEq, Repr

/-- A response, with what reading its body comes to. -/
structure Response where
  status : StatusCode
  bytes : Except String (List UInt8)

/-- What the network does: whether a client can be built, and how a request is answered. -/
structure Network where
  buildClient : Except String Unit
  send : PostRequest → Except String Response

def cartridgeApiBaseUrl : String := "https://api.cartridge.gg"

def keychainBaseUrl : String := "https://x.cartridge.gg"

/-! ### The registration URL -/

def policyPayload (policies : List CanonicalSessionPolicy) : List SessionRegistrationPolicyPayload :=
  policies.map fun policy => { target := policy.contractAddressHex, method := policy.entrypoint }

/-- The URL with the pairs of the registration appended to its query; an empty preset is left out. -/
def appendRegistration (url : Url) (publicKey policiesJson rpcUrl : String) (preset : Option String) : Url :=
  let query := ((url.queryPairsMut.appendPair "public_key".toList publicKey.toList).appendPair
    "policies".toList policiesJson.toList).appendPair "rpc_url".toList rpcUrl.toList
  match preset.filter (· ≠ "") with
  | some preset => query.appendPair "preset".toList preset.toList
  | none => query

section

variable (T : Crates)

/-- The URL that the registration is appended to. -/
def registrationBase (keychainUrl : String) : Except String Url :=
  T.urlParse (String.ofList (trimEnd '/' keychainUrl.toList) ++ "/session")

def buildSessionRegistrationLongUrl (publicKey : String) (policies : SessionPolicies) (rpcUrl keychainUrl : String)
    (preset : Option String) : Except ControllerError String := do
  let canonical ← canonicalizeSessionPolicies T policies
  let policiesJson ← (T.jsonToString (.arr ((policyPayload canonical).map (·.toJson)))).mapError fun e =>
    .invalidInput ("Failed to serialize session policies: " ++ e)
  let registrationUrl ← (registrationBase T keychainUrl).mapError fun e => .invalidInput ("Invalid keychain_url: " ++ e)
  return String.ofList (appendRegistration registrationUrl publicKey policiesJson rpcUrl preset).serialize

/-! ### The URL shortener -/

/-- The trailing `/query`s go first, the slashes before them after. -/
def shortenerEndpoint (cartridgeApiUrl : String) : Except ControllerError String := do
  let apiBase := trimEnd '/' (trimEndMatches "/query".toList cartridgeApiUrl.toList)
  let endpoint := String.ofList apiBase ++ "/s"
  let _ ← (T.urlParse endpoint).mapError fun e => .invalidInput ("Invalid cartridge_api_url: " ++ e)
  return endpoint

/-- Only the scheme, the host and the path are looked at. -/
def validateShortenedSessionUrl (shortUrl expectedHost : String) : Except ControllerError Unit := do
  let parsed ← (T.urlParse shortUrl).mapError fun e => .networkError ("Invalid short URL: " ++ e)
  let isExpectedHost := (parsed.hostText.map (eqIgnoreCase · expectedHost.toList)).getD false
  if parsed.scheme ≠ "https".toList ∨ isExpectedHost = false then
    throw (.networkError "Short URL has unexpected host or scheme")
  let code := (dropPrefix? "/s/".toList parsed.path.text).getD []
  -- the length is that of the UTF-8 bytes
  if (encode code).length ≠ 10 ∨ code.all Char.isAlphanum = false then
    throw (.networkError "Short URL has invalid code format")

def parseShortenResponse (status : StatusCode) (body : List UInt8) (expectedHost : String) :
    Except ControllerError String := do
  if status.isSuccess = false then
    throw (.networkError ("URL shortener returned status " ++ T.statusText status))
  let response ← (T.shortenResponseFromSlice body).mapError fun e =>
    .networkError ("Failed to parse shortener response: " ++ e)
  validateShortenedSessionUrl T response.url expectedHost
  return response.url

/-- Send the request, whatever the answer. -/
def Network.post (N : Network) (request : PostRequest) : Run PostRequest Response where
  outcome := .ofExcept ((N.send request).mapError fun e => .networkError ("Failed to shorten session URL: " ++ e))
  requests := [request]

def createSessionRegistrationUrlInner (N : Network) (privateKey : String) (policies : SessionPolicies)
    (rpcUrl keychainUrl cartridgeApiUrl : String) (preset : Option String) : Run PostRequest String := do
  let privateKeyFelt ← .quiet (.ofExcept ((T.fromHex privateKey).mapError .invalidInput))
  let publicKey ← .quiet (.ofOption (T.getPublicKey privateKeyFelt))
  let longUrl ← .quiet (.ofExcept
    (buildSessionRegistrationLongUrl T (feltLowerHex publicKey) policies rpcUrl keychainUrl preset))
  let endpoint ← .quiet (.ofExcept (shortenerEndpoint T cartridgeApiUrl))
  let endpointUrl ← .quiet (.ofExcept ((T.urlParse endpoint).mapError fun e =>
    .invalidInput ("Invalid shortener endpoint: " ++ e)))
  let expectedHost ← .quiet (.ofExcept
    (endpointUrl.hostText.elim (.error (.invalidInput "Shortener endpoint must have a host")) .ok))
  let _ ← .quiet (.ofExcept (N.buildClient.mapError fun e => .networkError ("Failed to build client: " ++ e)))
  let response ← N.post { url := endpoint, json := { url := longUrl } }
  let bytes ← .quiet (.ofExcept (response.bytes.mapError fun e =>
    .networkError ("Failed to read shortener response: " ++ e)))
  .quiet (.ofExcept (parseShortenResponse T response.status bytes (String.ofList expectedHost)))

def createSessionRegistrationUrl (N : Network) (privateKey : String) (policies : SessionPolicies) (rpcUrl : String)
    (preset : Option String) : Run PostRequest String :=
  createSessionRegistrationUrlInner T N privateKey policies rpcUrl keychainBaseUrl cartridgeApiBaseUrl preset

def createSessionRegistrationUrlWithUrls (N : Network) (privateKey : String) (policies : SessionPolicies)
    (rpcUrl keychainUrl cartridgeApiUrl : String) (preset : Option String) : Run PostRequest String :=
  createSessionRegistrationUrlInner T N privateKey policies rpcUrl keychainUrl cartridgeApiUrl preset

end

end ControllerUniffi
