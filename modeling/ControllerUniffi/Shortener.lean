import ControllerUniffi.LongUrl

/-!
# The registration flow

The flow checks its arguments first (`prepare`) and only then talks to the network (`exchange`).  A failed check is
an invalid input and sends nothing; after the checks at most one request is sent, and every failure is a network
error.  The answer is accepted iff it is a success whose body holds a short link of the host that was asked
(`createSessionRegistrationUrlInner_spec`).
-/

namespace ControllerUniffi

open Text Whatwg Collect

/-! ### The answer of the shortener -/

section

variable {T : Crates} {status : StatusCode} {body : List UInt8} {expectedHost u : String}

theorem parseShortenResponse_eq_ok_iff : parseShortenResponse T status body expectedHost = .ok u ↔
    status.isSuccess = true ∧ T.shortenResponseFromSlice body = .ok ⟨u⟩ ∧
      validateShortenedSessionUrl T u expectedHost = .ok () := by
  unfold parseShortenResponse
  by_cases hstatus : status.isSuccess = true
  · simp only [hstatus, Bool.true_eq_false, ↓reduceIte, true_and]
    constructor
    · intro h
      obtain ⟨⟨v⟩, hv, h⟩ := bind_eq_ok_iff.1 h
      obtain ⟨⟨⟩, hvalid, h⟩ := bind_eq_ok_iff.1 h
      cases h
      exact ⟨mapError_eq_ok_iff.1 hv, hvalid⟩
    · rintro ⟨hu, hvalid⟩
      exact bind_eq_ok_iff.2 ⟨⟨u⟩, mapError_eq_ok_iff.2 hu, bind_eq_ok_iff.2 ⟨(), hvalid, rfl⟩⟩
  · simp only [hstatus, ↓reduceIte, Bool.false_eq_true, false_and, iff_false]
    intro h
    cases h

theorem isNetworkError_of_validate {e : ControllerError} (h : validateShortenedSessionUrl T u expectedHost = .error e) :
    e.IsNetworkError := by
  unfold validateShortenedSessionUrl at h
  rcases bind_eq_error_iff.1 h with h | ⟨parsed, _, h⟩
  · exact isNetworkError_of_mapError h
  dsimp only at h
  split at h
  · cases h
    exact ⟨_, rfl⟩
  split at h
  · cases h
    exact ⟨_, rfl⟩
  · cases h

theorem isNetworkError_of_parseShortenResponse {e : ControllerError}
    (h : parseShortenResponse T status body expectedHost = .error e) : e.IsNetworkError := by
  unfold parseShortenResponse at h
  split at h
  · cases h
    exact ⟨_, rfl⟩
  rcases bind_eq_error_iff.1 h with h | ⟨response, _, h⟩
  · exact isNetworkError_of_mapError h
  rcases bind_eq_error_iff.1 h with h | ⟨_, _, h⟩
  · exact isNetworkError_of_validate h
  · cases h

end

/-! ### The two halves of the flow -/

section

variable (T : Crates) (privateKey : String) (policies : SessionPolicies)
  (rpcUrl keychainUrl cartridgeApiUrl : String) (preset : Option String)

/-- What is checked before anything is sent: the request to send, and the host that a short link must have. -/
def prepare : Outcome (PostRequest × String) := do
  let privateKeyFelt ← .ofExcept ((T.fromHex privateKey).mapError .invalidInput)
  let publicKey ← .ofOption (T.getPublicKey privateKeyFelt)
  let longUrl ← .ofExcept
    (buildSessionRegistrationLongUrl T (feltLowerHex publicKey) policies rpcUrl keychainUrl preset)
  let endpoint ← .ofExcept (shortenerEndpoint T cartridgeApiUrl)
  let endpointUrl ← .ofExcept ((T.urlParse endpoint).mapError fun e =>
    .invalidInput ("Invalid shortener endpoint: " ++ e))
  let expectedHost ← .ofExcept
    (endpointUrl.hostText.elim (.error (.invalidInput "Shortener endpoint must have a host")) .ok)
  return ({ url := endpoint, json := { url := longUrl } }, String.ofList expectedHost)

/-- What the network is used for. -/
def exchange (N : Network) (request : PostRequest) (expectedHost : String) : Run PostRequest String := do
  let _ ← .quiet (.ofExcept (N.buildClient.mapError fun e => .networkError ("Failed to build client: " ++ e)))
  let response ← N.post request
  let bytes ← .quiet (.ofExcept (response.bytes.mapError fun e =>
    .networkError ("Failed to read shortener response: " ++ e)))
  .quiet (.ofExcept (parseShortenResponse T response.status bytes expectedHost))

theorem createSessionRegistrationUrlInner_eq (N : Network) :
    createSessionRegistrationUrlInner T N privateKey policies rpcUrl keychainUrl cartridgeApiUrl preset =
      Run.quiet (prepare T privateKey policies rpcUrl keychainUrl cartridgeApiUrl preset) >>= fun r =>
        exchange T N r.1 r.2 := by
  simp only [prepare, Run.quiet_bind, Run.quiet_bind_bind]
  rfl

end

section

variable {T : Crates} {privateKey : String} {policies : SessionPolicies}
  {rpcUrl keychainUrl cartridgeApiUrl : String} {preset : Option String}

/-- The checks succeed iff all arguments are valid, and then give the request for them. -/
theorem prepare_eq_ok_iff {request : PostRequest} {expectedHost : String} :
    prepare T privateKey policies rpcUrl keychainUrl cartridgeApiUrl preset = .ok (request, expectedHost) ↔
      ∃ key publicKey url host, T.fromHex privateKey = .ok key ∧ T.getPublicKey key = some publicKey ∧
        buildSessionRegistrationLongUrl T (feltLowerHex publicKey) policies rpcUrl keychainUrl preset =
          .ok request.json.url ∧
        shortenerEndpoint T cartridgeApiUrl = .ok request.url ∧ T.urlParse request.url = .ok url ∧
        url.hostText = some host ∧ expectedHost = String.ofList host := by
  have hhost : ∀ (o : Option (List Char)) (e : ControllerError) (host : List Char),
      o.elim (Except.error e) Except.ok = .ok host ↔ o = some host := by
    intro o e host
    cases o <;> simp
  simp only [prepare, Outcome.bind_eq_ok_iff, Outcome.ofExcept_eq_ok_iff, Outcome.ofOption_eq_ok_iff,
    mapError_eq_ok_iff, hhost, Outcome.pure_eq, Outcome.ok.injEq, Prod.mk.injEq]
  constructor
  · rintro ⟨key, hkey, publicKey, hpublic, longUrl, hlong, endpoint, hendpoint, url, hurl, host, hhost, rfl, rfl⟩
    exact ⟨key, publicKey, url, host, hkey, hpublic, hlong, hendpoint, hurl, hhost, rfl⟩
  · rintro ⟨key, publicKey, url, host, hkey, hpublic, hlong, hendpoint, hurl, hhost, rfl⟩
    exact ⟨key, hkey, publicKey, hpublic, _, hlong, _, hendpoint, url, hurl, host, hhost, rfl, rfl⟩

theorem isInvalidInput_of_prepare {e : ControllerError}
    (h : prepare T privateKey policies rpcUrl keychainUrl cartridgeApiUrl preset = .err e) : e.IsInvalidInput := by
  unfold prepare at h
  rcases Outcome.bind_eq_err_iff.1 h with h | ⟨key, _, h⟩
  · exact isInvalidInput_of_mapError (Outcome.ofExcept_eq_err_iff.1 h)
  rcases Outcome.bind_eq_err_iff.1 h with h | ⟨publicKey, _, h⟩
  · exact absurd h Outcome.ofOption_ne_err
  rcases Outcome.bind_eq_err_iff.1 h with h | ⟨longUrl, _, h⟩
  · exact isInvalidInput_of_buildLongUrl (Outcome.ofExcept_eq_err_iff.1 h)
  rcases Outcome.bind_eq_err_iff.1 h with h | ⟨endpoint, _, h⟩
  -- the endpoint is checked once inside `shortenerEndpoint` and once more after it
  · rcases bind_eq_error_iff.1 (Outcome.ofExcept_eq_err_iff.1 h) with h | ⟨_, _, h⟩
    · exact isInvalidInput_of_mapError h
    · cases h
  rcases Outcome.bind_eq_err_iff.1 h with h | ⟨endpointUrl, _, h⟩
  · exact isInvalidInput_of_mapError (Outcome.ofExcept_eq_err_iff.1 h)
  rcases Outcome.bind_eq_err_iff.1 h with h | ⟨host, _, h⟩
  · cases hhost : endpointUrl.hostText with
    | none =>
      rw [hhost] at h
      cases h
      exact ⟨_, rfl⟩
    | some host =>
      rw [hhost] at h
      cases h
  · cases h

theorem prepare_ne_panicked
    (hkey : ∀ key, T.fromHex privateKey = .ok key → ∃ publicKey, T.getPublicKey key = some publicKey) :
    prepare T privateKey policies rpcUrl keychainUrl cartridgeApiUrl preset ≠ .panicked := by
  intro h
  simp only [prepare, Outcome.bind_eq_panicked_iff, Outcome.ofExcept_ne_panicked, false_or,
    Outcome.ofExcept_eq_ok_iff, mapError_eq_ok_iff, Outcome.ofOption_eq_panicked_iff, Outcome.pure_eq, reduceCtorEq,
    and_false, exists_false, or_false] at h
  obtain ⟨key, hparsed, hnone⟩ := h
  obtain ⟨publicKey, hsome⟩ := hkey key hparsed
  rw [hnone] at hsome
  cases hsome

variable {N : Network} {request : PostRequest} {expectedHost : String}

theorem exchange_of_client_error {e : String} (h : N.buildClient = .error e) :
    exchange T N request expectedHost = Run.quiet (.err (.networkError ("Failed to build client: " ++ e))) := by
  unfold exchange
  rw [h]
  rfl

/-- With a client, the request is sent, whatever comes of it. -/
theorem exchange_requests (h : N.buildClient = .ok ()) : (exchange T N request expectedHost).requests = [request] := by
  unfold exchange
  rw [h]
  refine Run.bind_requests_of_quiet (N.post request) fun response => ?_
  exact Run.bind_requests_of_quiet _ fun bytes => rfl

theorem exchange_outcome (h : N.buildClient = .ok ()) :
    (exchange T N request expectedHost).outcome =
      (Outcome.ofExcept ((N.send request).mapError fun e =>
          ControllerError.networkError ("Failed to shorten session URL: " ++ e)) >>= fun response =>
        Outcome.ofExcept (response.bytes.mapError fun e =>
          ControllerError.networkError ("Failed to read shortener response: " ++ e)) >>= fun bytes =>
        Outcome.ofExcept (parseShortenResponse T response.status bytes expectedHost)) := by
  unfold exchange
  rw [h]
  simp only [Except.mapError, Outcome.ofExcept_ok, Run.quiet_ok_bind, Run.bind_outcome, Run.quiet_outcome, Network.post]

theorem exchange_eq_ok_iff (h : N.buildClient = .ok ()) {u : String} :
    (exchange T N request expectedHost).outcome = .ok u ↔
      ∃ response bytes, N.send request = .ok response ∧ response.bytes = .ok bytes ∧
        parseShortenResponse T response.status bytes expectedHost = .ok u := by
  rw [exchange_outcome h]
  simp only [Outcome.bind_eq_ok_iff, Outcome.ofExcept_eq_ok_iff, mapError_eq_ok_iff]
  constructor
  · rintro ⟨response, hsend, bytes, hbytes, hu⟩
    exact ⟨response, bytes, hsend, hbytes, hu⟩
  · rintro ⟨response, bytes, hsend, hbytes, hu⟩
    exact ⟨response, hsend, bytes, hbytes, hu⟩

theorem isNetworkError_of_exchange (h : N.buildClient = .ok ()) {e : ControllerError}
    (he : (exchange T N request expectedHost).outcome = .err e) : e.IsNetworkError := by
  rw [exchange_outcome h] at he
  rcases Outcome.bind_eq_err_iff.1 he with he | ⟨response, _, he⟩
  · exact isNetworkError_of_mapError (Outcome.ofExcept_eq_err_iff.1 he)
  rcases Outcome.bind_eq_err_iff.1 he with he | ⟨bytes, _, he⟩
  · exact isNetworkError_of_mapError (Outcome.ofExcept_eq_err_iff.1 he)
  · exact isNetworkError_of_parseShortenResponse (Outcome.ofExcept_eq_err_iff.1 he)

theorem exchange_ne_panicked (h : N.buildClient = .ok ()) :
    (exchange T N request expectedHost).outcome ≠ .panicked := by
  rw [exchange_outcome h]
  intro hp
  simp only [Outcome.bind_eq_panicked_iff, Outcome.ofExcept_ne_panicked, and_false, exists_false, or_self] at hp

end

/-! ### The flow -/

section

variable (T : Crates) (N : Network) (privateKey : String) (policies : SessionPolicies)
  (rpcUrl keychainUrl cartridgeApiUrl : String) (preset : Option String)

/-- The arguments of the registration are valid. -/
structure ValidRegistration : Prop where
  privateKey : ∃ key, T.fromHex privateKey = .ok key
  addresses : ∀ p ∈ policies.policies, ∃ f, T.fromHex p.contractAddress.value = .ok f
  keychain : ∃ base, registrationBase T keychainUrl = .ok base
  endpoint : ∃ endpoint url host, shortenerEndpoint T cartridgeApiUrl = .ok endpoint ∧
    T.urlParse endpoint = .ok url ∧ url.hostText = some host

theorem prepare_ok_iff_valid (hjson : T.WritesJson)
    (hkey : ∀ key, T.fromHex privateKey = .ok key → ∃ publicKey, T.getPublicKey key = some publicKey) :
    (∃ r, prepare T privateKey policies rpcUrl keychainUrl cartridgeApiUrl preset = .ok r) ↔
      ValidRegistration T privateKey policies keychainUrl cartridgeApiUrl := by
  constructor
  · rintro ⟨⟨request, expectedHost⟩, h⟩
    obtain ⟨key, publicKey, url, host, hparsed, _, hlong, hendpoint, hurl, hhost, _⟩ := prepare_eq_ok_iff.1 h
    obtain ⟨haddr, hbase⟩ := (exists_buildLongUrl_iff hjson).1 ⟨_, hlong⟩
    exact ⟨⟨key, hparsed⟩, haddr, hbase, ⟨request.url, url, host, hendpoint, hurl, hhost⟩⟩
  · rintro ⟨⟨key, hparsed⟩, haddr, hbase, ⟨endpoint, url, host, hendpoint, hurl, hhost⟩⟩
    obtain ⟨publicKey, hpublic⟩ := hkey key hparsed
    obtain ⟨longUrl, hlong⟩ : ∃ s, buildSessionRegistrationLongUrl T (feltLowerHex publicKey) policies rpcUrl
      keychainUrl preset = .ok s := (exists_buildLongUrl_iff hjson).2 ⟨haddr, hbase⟩
    exact ⟨({ url := endpoint, json := { url := longUrl } }, String.ofList host), prepare_eq_ok_iff.2
      ⟨key, publicKey, url, host, hparsed, hpublic, hlong, hendpoint, hurl, hhost, rfl⟩⟩

/-- The flow sends at most one request, and sends it iff the arguments are valid and there is a client; the request
carries the registration URL to the endpoint.  Before the request, failures are invalid inputs or the missing
client; after it, network errors.  The result is the short link of a successful answer from the endpoint's host. -/
theorem createSessionRegistrationUrlInner_spec (hjson : T.WritesJson)
    (hkey : ∀ key, T.fromHex privateKey = .ok key → ∃ publicKey, T.getPublicKey key = some publicKey) :
    let run := createSessionRegistrationUrlInner T N privateKey policies rpcUrl keychainUrl cartridgeApiUrl preset
    run.requests.length ≤ 1 ∧
    (run.requests ≠ [] ↔
      ValidRegistration T privateKey policies keychainUrl cartridgeApiUrl ∧ N.buildClient = .ok ()) ∧
    (∀ request ∈ run.requests, shortenerEndpoint T cartridgeApiUrl = .ok request.url ∧
      ∃ key publicKey, T.fromHex privateKey = .ok key ∧ T.getPublicKey key = some publicKey ∧
        buildSessionRegistrationLongUrl T (feltLowerHex publicKey) policies rpcUrl keychainUrl preset =
          .ok request.json.url) ∧
    (run.requests = [] → (∃ m, run.outcome = .err (.invalidInput m)) ∨
      ∃ e, N.buildClient = .error e ∧ run.outcome = .err (.networkError ("Failed to build client: " ++ e))) ∧
    (run.requests ≠ [] → ∀ e, run.outcome = .err e → e.IsNetworkError) ∧
    run.outcome ≠ .panicked ∧
    ∀ u, run.outcome = .ok u ↔ ∃ request response bytes url host, run.requests = [request] ∧
      N.send request = .ok response ∧ response.bytes = .ok bytes ∧ response.status.isSuccess = true ∧
      T.shortenResponseFromSlice bytes = .ok ⟨u⟩ ∧ T.urlParse request.url = .ok url ∧ url.hostText = some host ∧
      validateShortenedSessionUrl T u (String.ofList host) = .ok () := by
  intro run
  have hrun : run = Run.quiet (prepare T privateKey policies rpcUrl keychainUrl cartridgeApiUrl preset) >>= fun r =>
      exchange T N r.1 r.2 := createSessionRegistrationUrlInner_eq ..
  have hvalid := prepare_ok_iff_valid T privateKey policies rpcUrl keychainUrl cartridgeApiUrl preset hjson hkey
  cases hprepare : prepare T privateKey policies rpcUrl keychainUrl cartridgeApiUrl preset with
  | panicked => exact absurd hprepare (prepare_ne_panicked hkey)
  | err e =>
    -- a failed check ends the flow before the network is used
    have hnot : ¬ ValidRegistration T privateKey policies keychainUrl cartridgeApiUrl := by
      rw [← hvalid, hprepare]
      rintro ⟨r, hr⟩
      cases hr
    rw [hprepare, Run.quiet_err_bind] at hrun
    obtain ⟨m, rfl⟩ := isInvalidInput_of_prepare hprepare
    simp [hrun, hnot]
  | ok r =>
    obtain ⟨request, expectedHost⟩ := r
    have hyes : ValidRegistration T privateKey policies keychainUrl cartridgeApiUrl := hvalid.1 ⟨_, hprepare⟩
    rw [hprepare, Run.quiet_ok_bind] at hrun
    rcases ok_or_error N.buildClient with ⟨⟨⟩, hclient⟩ | ⟨e, hclient⟩
    · have hrequests : run.requests = [request] := by rw [hrun, exchange_requests hclient]
      obtain ⟨key, publicKey, url, host, hparsed, hpublic, hlong, hendpoint, hurl, hhost, rfl⟩ :=
        prepare_eq_ok_iff.1 hprepare
      refine ⟨by simp [hrequests], by simp [hrequests, hyes, hclient], ?_, by simp [hrequests], ?_, ?_, ?_⟩
      · intro q hq
        rw [hrequests, List.mem_singleton] at hq
        subst hq
        exact ⟨hendpoint, key, publicKey, hparsed, hpublic, hlong⟩
      · intro _ e he
        rw [hrun] at he
        exact isNetworkError_of_exchange hclient he
      · rw [hrun]
        exact exchange_ne_panicked hclient
      · intro u
        rw [hrequests, hrun, exchange_eq_ok_iff hclient]
        simp only [parseShortenResponse_eq_ok_iff]
        constructor
        · rintro ⟨response, bytes, hsend, hbytes, hstatus, hbody, hlink⟩
          exact ⟨request, response, bytes, url, host, rfl, hsend, hbytes, hstatus, hbody, hurl, hhost, hlink⟩
        · rintro ⟨q, response, bytes, url', host', hq, hsend, hbytes, hstatus, hbody, hurl', hhost', hlink⟩
          -- the endpoint has only one host
          cases hq
          cases hurl.symm.trans hurl'
          cases hhost.symm.trans hhost'
          exact ⟨response, bytes, hsend, hbytes, hstatus, hbody, hlink⟩
    · rw [exchange_of_client_error hclient] at hrun
      simp [hrun, hyes, hclient]

end

/-- A network that answers every request with one short link. -/
def oneLinkNetwork : Network where
  buildClient := .ok ()
  send _ := .ok {
    status := ⟨200, by decide⟩
    bytes := .ok (encode "\x7b\"url\":\"https://api.cartridge.gg/s/a1B2c3D4e5\"\x7d".toList) }

theorem createSessionRegistrationUrlInner_transfer :
    (createSessionRegistrationUrlInner Crates.reference oneLinkNetwork "0x1" transferPolicies "" keychainBaseUrl
      cartridgeApiBaseUrl none).requests ≠ [] := by
  have hkey : ∀ key, Crates.reference.fromHex "0x1" = .ok key →
      ∃ publicKey, Crates.reference.getPublicKey key = some publicKey := by
    intro key hkey
    cases (show Crates.reference.fromHex "0x1" = .ok 1 by decide).symm.trans hkey
    exact ⟨_, rfl⟩
  have haddr : ∀ p ∈ transferPolicies.policies, ∃ f, Crates.reference.fromHex p.contractAddress.value = .ok f := by
    intro p hp
    cases List.mem_singleton.1 hp
    exact ⟨2, by decide⟩
  have hurl : Crates.reference.urlParse "https://api.cartridge.gg/s" = .ok {
      scheme := "https".toList
      authority := { username := [], password := [], host := some "api.cartridge.gg".toList, port := none }
      path := .segments ["s".toList]
      query := none
      fragment := none } := by decide
  exact (createSessionRegistrationUrlInner_spec Crates.reference oneLinkNetwork "0x1" transferPolicies "" keychainBaseUrl
    cartridgeApiBaseUrl none Reference.writesJson hkey).2.1.2
    ⟨⟨⟨1, by decide⟩, haddr, ⟨keychainSession, registrationBase_keychain⟩, ⟨_, _, _, by decide, hurl, rfl⟩⟩, rfl⟩

end ControllerUniffi
