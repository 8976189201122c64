import ControllerUniffi.Canonical
import ControllerUniffi.SessionAccount

/-!
# Building a session account

What has to hold for a session account to be built, from texts (`new_eq_ok_iff`) and from the answer to a
subscription (`createFromSubscribe_eq_ok_iff`), and what the account is then.  Nothing panics when the SDK can convert
the signer, since the authorization is only indexed within its length; a private key whose signer has no GUID panics
before anything is asked (`createFromSubscribe_spec`).
-/

namespace ControllerUniffi

namespace SessionAccount

open Collect

variable {Session AbigenSigner : Type} {T : Crates} {S : SessionSdk Session AbigenSigner}

/-- The SDK can convert the signer of the private key, if that parses. -/
def ConvertsSigner (T : Crates) (S : SessionSdk Session AbigenSigner) (privateKey : String) : Prop :=
  ∀ key, T.fromHex privateKey = .ok key →
    (∃ guid, S.signerGuid (.starknet ⟨key⟩) = some guid) ∧ ∃ signer, S.abigenSigner (.starknet ⟨key⟩) = some signer

/-! ### From texts -/

/-- The account for parsed arguments. -/
def opened (url : Whatwg.Url) (key address chainId ownerGuid : Felt) (session : Session) (sessionExpiration : UInt64) :
    SessionAccountInner Session where
  sessionAccount := .newAsRegistered ⟨url⟩ (.starknet ⟨key⟩) address chainId ownerGuid session
  lastError := none
  ownerGuid := ownerGuid
  expiresAt := sessionExpiration
  sessionId := none
  username := none
  appId := none
  isRevoked := false

/-- The account is built iff all arguments parse, the policies convert and the SDK makes a session of them. -/
theorem new_eq_ok_iff {rpcUrl privateKey : String} {address ownerGuid chainId : ControllerFieldElement}
    {policies : SessionPolicies} {sessionExpiration : UInt64} {inner : SessionAccountInner Session} :
    new T S rpcUrl privateKey address ownerGuid chainId policies sessionExpiration = .ok inner ↔
      ∃ url addr chain owner key policyVec signer session, T.urlParse rpcUrl = .ok url ∧
        T.fromHex address.value = .ok addr ∧ T.fromHex chainId.value = .ok chain ∧
        T.fromHex ownerGuid.value = .ok owner ∧ T.fromHex privateKey = .ok key ∧ policies.tryInto T = .ok policyVec ∧
        S.abigenSigner (.starknet ⟨key⟩) = some signer ∧
        S.sessionNew policyVec sessionExpiration signer 0 = .ok session ∧
        inner = opened url key addr chain owner session sessionExpiration := by
  simp only [new, Outcome.bind_eq_ok_iff, Outcome.ofExcept_eq_ok_iff, Outcome.ofOption_eq_ok_iff, mapError_eq_ok_iff,
    Outcome.pure_eq, Outcome.ok.injEq]
  constructor
  · rintro ⟨url, hurl, addr, haddr, chain, hchain, owner, howner, key, hkey, policyVec, hpolicies, signer, hsigner,
      session, hsession, rfl⟩
    exact ⟨url, addr, chain, owner, key, policyVec, signer, session, hurl, haddr, hchain, howner, hkey, hpolicies,
      hsigner, hsession, rfl⟩
  · rintro ⟨url, addr, chain, owner, key, policyVec, signer, session, hurl, haddr, hchain, howner, hkey, hpolicies,
      hsigner, hsession, rfl⟩
    exact ⟨url, hurl, addr, haddr, chain, hchain, owner, howner, key, hkey, policyVec, hpolicies, signer, hsigner,
      session, hsession, rfl⟩

theorem new_ne_panicked {rpcUrl privateKey : String} (hsigner : ConvertsSigner T S privateKey)
    {address ownerGuid chainId : ControllerFieldElement} {policies : SessionPolicies} {sessionExpiration : UInt64} :
    new T S rpcUrl privateKey address ownerGuid chainId policies sessionExpiration ≠ .panicked := by
  intro h
  simp only [new, Outcome.bind_eq_panicked_iff, Outcome.ofExcept_ne_panicked, false_or, Outcome.ofExcept_eq_ok_iff,
    mapError_eq_ok_iff, Outcome.ofOption_eq_panicked_iff, Outcome.pure_eq, reduceCtorEq, and_false, exists_false,
    or_false] at h
  -- only the conversion of the signer is left as a place to panic
  obtain ⟨_, _, _, _, _, _, _, _, key, hkey, _, _, hnone⟩ := h
  obtain ⟨signer, hsome⟩ := (hsigner key hkey).2
  rw [hnone] at hsome
  cases hsome

/-! ### From the answer to a subscription -/

/-- The authorization is by a registered owner, whose GUID is `owner`. -/
def Authorized (T : Crates) (authorization : List String) (owner : Felt) : Prop :=
  ∃ kind guid rest, authorization = kind :: guid :: rest ∧
    T.fromHex kind = .ok (T.shortString "authorization-by-registered") ∧ T.fromHex guid = .ok owner

/-- The subscription failed, or its data is missing, or the authorization is not by a registered owner, or it names
no owner. -/
inductive SubscriptionDefect (T : Crates) : Except String ResponseData → Prop where
  | failed (e : String) : SubscriptionDefect T (.error e)
  | noData : SubscriptionDefect T (.ok ⟨none⟩)
  | noAuthorization (data : SubscribeCreateSession) (h : data.authorization = []) :
    SubscriptionDefect T (.ok ⟨some data⟩)
  | invalidAuthorization (data : SubscribeCreateSession) (kind : String) (rest : List String)
    (h : data.authorization = kind :: rest)
    (hkind : T.fromHex kind ≠ .ok (T.shortString "authorization-by-registered")) : SubscriptionDefect T (.ok ⟨some data⟩)
  | noOwner (data : SubscribeCreateSession) (kind : String) (h : data.authorization = [kind]) :
    SubscriptionDefect T (.ok ⟨some data⟩)

variable (T S) in
/-- The account for the data of a subscription. -/
def fromData (privateKey : String) (policies : SessionPolicies) (rpcUrl : String) (data : SubscribeCreateSession)
    (ownerGuid : String) : Outcome (SessionAccountInner Session) := do
  let chainIdFelt ← .ofExcept ((T.cairoShortStringToFelt data.chainId).mapError fun e =>
    .initializationError ("Failed to parse chainId: " ++ e))
  let inner ← new T S rpcUrl privateKey ⟨data.controller.address⟩ ⟨ownerGuid⟩ ⟨feltLowerHex chainIdFelt⟩ policies
    data.expiresAt
  return { inner with
    sessionId := some data.id
    username := some data.controller.accountId
    appId := some data.appId
    isRevoked := data.isRevoked }

section

variable {subscribe : Felt → String → Except String ResponseData} {privateKey rpcUrl cartridgeApiUrl : String}
  {policies : SessionPolicies} {key guid : Felt}

private theorem createFromSubscribe_of_key_error {e : String} (hkey : T.fromHex privateKey = .error e) :
    createFromSubscribe T S subscribe privateKey policies rpcUrl cartridgeApiUrl = .err (.initializationError e) := by
  unfold createFromSubscribe
  rw [hkey]
  rfl

private theorem createFromSubscribe_of_no_guid (hkey : T.fromHex privateKey = .ok key)
    (hguid : S.signerGuid (.starknet ⟨key⟩) = none) :
    createFromSubscribe T S subscribe privateKey policies rpcUrl cartridgeApiUrl = .panicked := by
  unfold createFromSubscribe
  rw [hkey]
  simp [hguid, Except.mapError]

/-- A defect of the answer is reported as a failed signup. -/
theorem createFromSubscribe_of_defect (hkey : T.fromHex privateKey = .ok key)
    (hguid : S.signerGuid (.starknet ⟨key⟩) = some guid) (h : SubscriptionDefect T (subscribe guid cartridgeApiUrl)) :
    ∃ m, createFromSubscribe T S subscribe privateKey policies rpcUrl cartridgeApiUrl = .err (.signupError m) := by
  unfold createFromSubscribe
  generalize hreply : subscribe guid cartridgeApiUrl = reply at h
  cases h with
  | failed e =>
    refine ⟨"Failed to subscribe: " ++ e, ?_⟩
    simp [hkey, hguid, hreply, Except.mapError]
  | noData =>
    refine ⟨"No data inside the subscribe create session", ?_⟩
    simp [hkey, hguid, hreply, Except.mapError]
  | noAuthorization data hnil =>
    refine ⟨"No authorization in response", ?_⟩
    simp [hkey, hguid, hreply, hnil, Except.mapError]
  | invalidAuthorization data kind rest hcons hkind =>
    cases hfelt : T.fromHex kind with
    | error e =>
      refine ⟨e, ?_⟩
      simp [hkey, hguid, hreply, hcons, hfelt, Except.mapError]
    | ok f =>
      have hne : f ≠ T.shortString "authorization-by-registered" := fun hf => hkind (by rw [hfelt, hf])
      refine ⟨"Invalid authorization", ?_⟩
      simp [hkey, hguid, hreply, hcons, hfelt, hne, Except.mapError]
  | noOwner data kind hone =>
    -- the kind is looked at before the length, so that its own defects come first
    cases hfelt : T.fromHex kind with
    | error e =>
      refine ⟨e, ?_⟩
      simp [hkey, hguid, hreply, hone, hfelt, Except.mapError]
    | ok f =>
      by_cases hf : f = T.shortString "authorization-by-registered"
      · refine ⟨"Missing owner_guid in authorization", ?_⟩
        simp [hkey, hguid, hreply, hone, hfelt, hf, Except.mapError]
      · refine ⟨"Invalid authorization", ?_⟩
        simp [hkey, hguid, hreply, hone, hfelt, hf, Except.mapError]

/-- Without a defect only the data counts. -/
theorem createFromSubscribe_of_data {data : SubscribeCreateSession} {kind owner : String} {rest : List String}
    (hkey : T.fromHex privateKey = .ok key) (hguid : S.signerGuid (.starknet ⟨key⟩) = some guid)
    (hreply : subscribe guid cartridgeApiUrl = .ok ⟨some data⟩) (hauth : data.authorization = kind :: owner :: rest)
    (hkind : T.fromHex kind = .ok (T.shortString "authorization-by-registered")) :
    createFromSubscribe T S subscribe privateKey policies rpcUrl cartridgeApiUrl =
      fromData T S privateKey policies rpcUrl data owner := by
  have hlen : ¬ (kind :: owner :: rest).length < 2 := Nat.not_lt.2 (Nat.le_add_left 2 rest.length)
  unfold createFromSubscribe fromData
  simp only [hkey, hguid, hreply, hauth, hkind, Except.mapError, Outcome.ofExcept_ok, Outcome.ofOption_some,
    Outcome.ok_bind, Outcome.pure_eq, Option.elim_some, List.isEmpty_cons, Bool.false_eq_true,
    List.getElem?_cons_zero, List.getElem?_cons_succ, ne_eq, not_true_eq_false, hlen, ↓reduceIte]

/-- Every answer has a defect, or the data with an authorization by a registered owner. -/
theorem defect_or_data (reply : Except String ResponseData) :
    SubscriptionDefect T reply ∨ ∃ data kind owner rest, reply = .ok ⟨some data⟩ ∧
      data.authorization = kind :: owner :: rest ∧
      T.fromHex kind = .ok (T.shortString "authorization-by-registered") := by
  rcases reply with e | ⟨_ | data⟩
  · exact .inl (.failed e)
  · exact .inl .noData
  rcases hauth : data.authorization with _ | ⟨kind, _ | ⟨owner, rest⟩⟩
  · exact .inl (.noAuthorization data hauth)
  · exact .inl (.noOwner data kind hauth)
  · by_cases hkind : T.fromHex kind = .ok (T.shortString "authorization-by-registered")
    · exact .inr ⟨data, kind, owner, rest, rfl, hauth, hkind⟩
    · exact .inl (.invalidAuthorization data kind _ hauth hkind)

/-- The account for the data of a subscription, with `ownerGuid` as the text of the owner. -/
theorem fromData_eq_ok_iff (hhex : T.ReadsLowerHex) (hkey : T.fromHex privateKey = .ok key)
    {data : SubscribeCreateSession} {ownerGuid : String} {inner : SessionAccountInner Session} :
    fromData T S privateKey policies rpcUrl data ownerGuid = .ok inner ↔
      ∃ owner addr chain url policyVec signer session, T.fromHex ownerGuid = .ok owner ∧
        T.fromHex data.controller.address = .ok addr ∧ T.cairoShortStringToFelt data.chainId = .ok chain ∧
        T.urlParse rpcUrl = .ok url ∧ policies.tryInto T = .ok policyVec ∧
        S.abigenSigner (.starknet ⟨key⟩) = some signer ∧ S.sessionNew policyVec data.expiresAt signer 0 = .ok session ∧
        inner = { opened url key addr chain owner session data.expiresAt with
          sessionId := some data.id
          username := some data.controller.accountId
          appId := some data.appId
          isRevoked := data.isRevoked } := by
  simp only [fromData, Outcome.bind_eq_ok_iff, Outcome.ofExcept_eq_ok_iff, mapError_eq_ok_iff, Outcome.pure_eq,
    Outcome.ok.injEq, new_eq_ok_iff]
  constructor
  · rintro ⟨chain, hchain, inner', ⟨url, addr, chain', owner, key', policyVec, signer, session, hurl, haddr, hchain',
      howner, hkey', hpolicies, hsigner, hsession, rfl⟩, rfl⟩
    -- the chain id comes back from its text, and the private key is parsed twice
    rw [hhex] at hchain'
    rw [hkey] at hkey'
    cases hchain'
    cases hkey'
    exact ⟨owner, addr, chain, url, policyVec, signer, session, howner, haddr, hchain, hurl, hpolicies, hsigner,
      hsession, rfl⟩
  · rintro ⟨owner, addr, chain, url, policyVec, signer, session, howner, haddr, hchain, hurl, hpolicies, hsigner,
      hsession, rfl⟩
    exact ⟨chain, hchain, _, ⟨url, addr, chain, owner, key, policyVec, signer, session, hurl, haddr, hhex chain,
      howner, hkey, hpolicies, hsigner, hsession, rfl⟩, rfl⟩

theorem fromData_ne_panicked (hsigner : ConvertsSigner T S privateKey) {data : SubscribeCreateSession}
    {ownerGuid : String} : fromData T S privateKey policies rpcUrl data ownerGuid ≠ .panicked := by
  intro h
  simp only [fromData, Outcome.bind_eq_panicked_iff, Outcome.ofExcept_ne_panicked, false_or, new_ne_panicked hsigner,
    Outcome.pure_eq, reduceCtorEq, and_false, exists_false] at h

/-- Whatever is answered, the account is the one for authorized data, or the answer has a defect. -/
theorem createFromSubscribe_cases (policies : SessionPolicies) (rpcUrl : String)
    (hkey : T.fromHex privateKey = .ok key) (hguid : S.signerGuid (.starknet ⟨key⟩) = some guid) :
    (SubscriptionDefect T (subscribe guid cartridgeApiUrl) ∧
      ∃ m, createFromSubscribe T S subscribe privateKey policies rpcUrl cartridgeApiUrl = .err (.signupError m)) ∨
    ∃ data kind ownerGuid rest, subscribe guid cartridgeApiUrl = .ok ⟨some data⟩ ∧
      data.authorization = kind :: ownerGuid :: rest ∧
      T.fromHex kind = .ok (T.shortString "authorization-by-registered") ∧
      createFromSubscribe T S subscribe privateKey policies rpcUrl cartridgeApiUrl =
        fromData T S privateKey policies rpcUrl data ownerGuid := by
  rcases defect_or_data (T := T) (subscribe guid cartridgeApiUrl) with
    hdefect | ⟨data, kind, ownerGuid, rest, hreply, hauth, hkind⟩
  · exact .inl ⟨hdefect, createFromSubscribe_of_defect hkey hguid hdefect⟩
  · exact .inr ⟨data, kind, ownerGuid, rest, hreply, hauth, hkind,
      createFromSubscribe_of_data hkey hguid hreply hauth hkind⟩

theorem createFromSubscribe_ne_panicked (hsigner : ConvertsSigner T S privateKey) :
    createFromSubscribe T S subscribe privateKey policies rpcUrl cartridgeApiUrl ≠ .panicked := by
  rcases ok_or_error (T.fromHex privateKey) with ⟨key, hkey⟩ | ⟨e, hkey⟩
  · obtain ⟨⟨guid, hguid⟩, _⟩ := hsigner key hkey
    rcases createFromSubscribe_cases policies rpcUrl hkey hguid with
      ⟨_, m, hm⟩ | ⟨data, kind, ownerGuid, rest, _, _, _, heq⟩
    · rw [hm]
      intro h
      cases h
    · rw [heq]
      exact fromData_ne_panicked hsigner
  · rw [createFromSubscribe_of_key_error hkey]
    intro h
    cases h

/-- The account is built iff the answer is authorized data from which it can be built. -/
theorem createFromSubscribe_eq_ok_iff {inner : SessionAccountInner Session} :
    createFromSubscribe T S subscribe privateKey policies rpcUrl cartridgeApiUrl = .ok inner ↔
      ∃ key guid data kind ownerGuid rest, T.fromHex privateKey = .ok key ∧
        S.signerGuid (.starknet ⟨key⟩) = some guid ∧ subscribe guid cartridgeApiUrl = .ok ⟨some data⟩ ∧
        data.authorization = kind :: ownerGuid :: rest ∧
        T.fromHex kind = .ok (T.shortString "authorization-by-registered") ∧
        fromData T S privateKey policies rpcUrl data ownerGuid = .ok inner := by
  constructor
  · intro h
    rcases ok_or_error (T.fromHex privateKey) with ⟨key, hkey⟩ | ⟨e, hkey⟩
    · cases hguid : S.signerGuid (.starknet ⟨key⟩) with
      | none =>
        rw [createFromSubscribe_of_no_guid hkey hguid] at h
        cases h
      | some guid =>
        rcases createFromSubscribe_cases policies rpcUrl hkey hguid with
          ⟨_, m, hm⟩ | ⟨data, kind, ownerGuid, rest, hreply, hauth, hkind, heq⟩
        · rw [hm] at h
          cases h
        · rw [heq] at h
          exact ⟨key, guid, data, kind, ownerGuid, rest, hkey, hguid, hreply, hauth, hkind, h⟩
    · rw [createFromSubscribe_of_key_error hkey] at h
      cases h
  · rintro ⟨key, guid, data, kind, ownerGuid, rest, hkey, hguid, hreply, hauth, hkind, h⟩
    rw [createFromSubscribe_of_data hkey hguid hreply hauth hkind, h]

end

section

variable (T S)
variable (subscribe : Felt → String → Except String ResponseData) (privateKey : String) (policies : SessionPolicies)
  (rpcUrl cartridgeApiUrl : String)

/-- Creating an account from a subscription panics for no answer when the SDK converts the signer, and for every
answer when the signer has no GUID.  It succeeds iff everything it is made from is there and valid, and is then made
from exactly that; every defect of the subscription is reported as a failed signup. -/
theorem createFromSubscribe_spec (hhex : T.ReadsLowerHex) :
    (ConvertsSigner T S privateKey →
      createFromSubscribe T S subscribe privateKey policies rpcUrl cartridgeApiUrl ≠ .panicked) ∧
    (∀ key, T.fromHex privateKey = .ok key → S.signerGuid (.starknet ⟨key⟩) = none →
      createFromSubscribe T S subscribe privateKey policies rpcUrl cartridgeApiUrl = .panicked) ∧
    (∀ inner, createFromSubscribe T S subscribe privateKey policies rpcUrl cartridgeApiUrl = .ok inner ↔
      ∃ key guid data owner addr chain url policyVec signer session, T.fromHex privateKey = .ok key ∧
        S.signerGuid (.starknet ⟨key⟩) = some guid ∧ subscribe guid cartridgeApiUrl = .ok ⟨some data⟩ ∧
        Authorized T data.authorization owner ∧ T.fromHex data.controller.address = .ok addr ∧
        T.cairoShortStringToFelt data.chainId = .ok chain ∧ T.urlParse rpcUrl = .ok url ∧
        policies.tryInto T = .ok policyVec ∧ S.abigenSigner (.starknet ⟨key⟩) = some signer ∧
        S.sessionNew policyVec data.expiresAt signer 0 = .ok session ∧
        inner = {
          sessionAccount := .newAsRegistered ⟨url⟩ (.starknet ⟨key⟩) addr chain owner session
          lastError := none
          ownerGuid := owner
          expiresAt := data.expiresAt
          sessionId := some data.id
          username := some data.controller.accountId
          appId := some data.appId
          isRevoked := data.isRevoked }) ∧
    ∀ key guid, T.fromHex privateKey = .ok key → S.signerGuid (.starknet ⟨key⟩) = some guid →
      SubscriptionDefect T (subscribe guid cartridgeApiUrl) →
      ∃ m, createFromSubscribe T S subscribe privateKey policies rpcUrl cartridgeApiUrl = .err (.signupError m) := by
  refine ⟨fun hsigner => createFromSubscribe_ne_panicked hsigner, ?_, ?_, ?_⟩
  · intro key hkey hguid
    exact createFromSubscribe_of_no_guid hkey hguid
  · intro inner
    rw [createFromSubscribe_eq_ok_iff]
    constructor
    · rintro ⟨key, guid, data, kind, ownerGuid, rest, hkey, hguid, hreply, hauth, hkind, h⟩
      obtain ⟨owner, addr, chain, url, policyVec, signer, session, howner, haddr, hchain, hurl, hpolicies, habigen,
        hsession, rfl⟩ := (fromData_eq_ok_iff hhex hkey).1 h
      exact ⟨key, guid, data, owner, addr, chain, url, policyVec, signer, session, hkey, hguid, hreply,
        ⟨kind, ownerGuid, rest, hauth, hkind, howner⟩, haddr, hchain, hurl, hpolicies, habigen, hsession, rfl⟩
    · rintro ⟨key, guid, data, owner, addr, chain, url, policyVec, signer, session, hkey, hguid, hreply,
        ⟨kind, ownerGuid, rest, hauth, hkind, howner⟩, haddr, hchain, hurl, hpolicies, habigen, hsession, rfl⟩
      refine ⟨key, guid, data, kind, ownerGuid, rest, hkey, hguid, hreply, hauth, hkind, ?_⟩
      exact (fromData_eq_ok_iff hhex hkey).2 ⟨owner, addr, chain, url, policyVec, signer, session, howner, haddr,
        hchain, hurl, hpolicies, habigen, hsession, rfl⟩
  · intro key guid hkey hguid hdefect
    exact createFromSubscribe_of_defect hkey hguid hdefect

end

/-- An answer with a registered owner; the kind is the text of the short string. -/
def registeredData : SubscribeCreateSession where
  id := "session"
  appId := "app"
  chainId := "SN_MAIN"
  isRevoked := false
  expiresAt := 1700000000
  authorization := [feltLowerHex (Crates.reference.shortString "authorization-by-registered"), "0x7", "0x8"]
  controller := { address := "0xABC", accountId := "user" }

theorem createFromSubscribe_registered :
    createFromSubscribe Crates.reference SessionSdk.reference (fun _ _ => .ok ⟨some registeredData⟩) "0x1"
        transferPolicies "https://api.cartridge.gg/x/starknet/mainnet" "" ≠ .panicked ∧
    ∃ inner, createFromSubscribe Crates.reference SessionSdk.reference (fun _ _ => .ok ⟨some registeredData⟩) "0x1"
        transferPolicies "https://api.cartridge.gg/x/starknet/mainnet" "" = .ok inner ∧
      inner.ownerGuid = 7 ∧ inner.sessionAccount.chainId = 0x534e5f4d41494e := by
  have hsigner : ConvertsSigner Crates.reference SessionSdk.reference "0x1" := by
    intro key hkey
    cases (show Crates.reference.fromHex "0x1" = .ok 1 by decide).symm.trans hkey
    exact ⟨⟨_, rfl⟩, ⟨_, rfl⟩⟩
  have hurl : Crates.reference.urlParse "https://api.cartridge.gg/x/starknet/mainnet" = .ok {
      scheme := "https".toList
      authority := { username := [], password := [], host := some "api.cartridge.gg".toList, port := none }
      path := .segments ["x".toList, "starknet".toList, "mainnet".toList]
      query := none
      fragment := none } := by decide
  obtain ⟨hpanic, _, hok, _⟩ := createFromSubscribe_spec Crates.reference SessionSdk.reference
    (fun _ _ => .ok ⟨some registeredData⟩) "0x1" transferPolicies "https://api.cartridge.gg/x/starknet/mainnet" ""
    Reference.readsLowerHex
  refine ⟨hpanic hsigner, _, (hok _).2 ⟨1, _, registeredData, 7, 0xABC, 0x534e5f4d41494e, _, _, _, _, by decide,
    rfl, rfl, ?_, by decide, by decide, hurl, tryInto_transferPolicies, rfl, rfl, rfl⟩, rfl, rfl⟩
  exact ⟨_, "0x7", ["0x8"], rfl, Reference.readsLowerHex _, by decide⟩

/-- The private key 0 parses, but it has no public key, and its signer no GUID. -/
theorem createFromSubscribe_zeroKey :
    createFromSubscribe Crates.reference SessionSdk.reference (fun _ _ => .ok ⟨some registeredData⟩) "0x0"
      transferPolicies "https://api.cartridge.gg/x/starknet/mainnet" "" = .panicked := by
  have hkey : Crates.reference.fromHex "0x0" = .ok 0 := by decide
  exact createFromSubscribe_of_no_guid hkey rfl

end SessionAccount

end ControllerUniffi
