import Mathlib.Tactic.Tauto
import ControllerUniffi.LongUrl
import ControllerUniffi.Subscribe

/-!
# What is approved and what is used

The entries that the registration URL shows to the keychain are, one by one, the policies that the session is made
from (`registration_agrees`).  But the URL is also built for entrypoints that have no selector, and the session is
not: both accept the same policies iff there are no such entrypoints or the addresses do not all parse
(`registration_accepts_iff`).
-/

namespace ControllerUniffi

open Text Whatwg Collect

/-! ### Conversion to the SDK's policies -/

section

variable {T : Crates} {P : SessionPolicies}

theorem sdkPolicy_eq_ok_iff {c : CanonicalSessionPolicy} {v : Policy} :
    sdkPolicy T c = .ok v ↔ ∃ selector, T.getSelectorFromName c.entrypoint = .ok selector ∧
      v = .newCall c.contractAddress selector := by
  unfold sdkPolicy
  rw [bind_eq_ok_iff]
  constructor
  · rintro ⟨selector, hselector, hv⟩
    cases hv
    exact ⟨selector, mapError_eq_ok_iff.1 hselector, rfl⟩
  · rintro ⟨selector, hselector, rfl⟩
    exact ⟨selector, mapError_eq_ok_iff.2 hselector, rfl⟩

theorem tryInto_eq_ok_iff {V : List Policy} :
    P.tryInto T = .ok V ↔ ∃ canonical, canonicalizeSessionPolicies T P = .ok canonical ∧
      List.Forall₂ (fun c v => sdkPolicy T c = .ok v) canonical V := by
  unfold SessionPolicies.tryInto
  rw [bind_eq_ok_iff]
  simp only [mapM_eq_ok_iff]

/-- Policies convert iff their addresses parse and their entrypoints have selectors. -/
theorem exists_tryInto_iff :
    (∃ V, P.tryInto T = .ok V) ↔ (∀ p ∈ P.policies, ∃ f, T.fromHex p.contractAddress.value = .ok f) ∧
      ∀ p ∈ P.policies, ∃ selector, T.getSelectorFromName p.entrypoint = .ok selector := by
  constructor
  · rintro ⟨V, hV⟩
    obtain ⟨canonical, hcanonical, hall⟩ := tryInto_eq_ok_iff.1 hV
    have haddr := exists_canonicalize_iff.1 ⟨canonical, hcanonical⟩
    refine ⟨haddr, fun p hp => ?_⟩
    -- the entry for `p` is somewhere in the canonical list
    obtain ⟨f, hf⟩ := haddr p hp
    have hmem : CanonicalSessionPolicy.of f p.entrypoint ∈ canonical :=
      (mem_canonicalize_iff hcanonical).2 ⟨p, hp, hf, rfl⟩
    obtain ⟨v, hv⟩ := exists_mapM_eq_ok_iff.1 ⟨V, mapM_eq_ok_iff.2 hall⟩ _ hmem
    obtain ⟨selector, hselector, _⟩ := sdkPolicy_eq_ok_iff.1 hv
    exact ⟨selector, hselector⟩
  · rintro ⟨haddr, hselectors⟩
    obtain ⟨canonical, hcanonical⟩ := exists_canonicalize_iff.2 haddr
    have hall : ∀ c ∈ canonical, ∃ v, sdkPolicy T c = .ok v := by
      intro c hc
      obtain ⟨p, hp, _, hentry⟩ := (mem_canonicalize_iff hcanonical).1 hc
      obtain ⟨selector, hselector⟩ := hselectors p hp
      exact ⟨_, sdkPolicy_eq_ok_iff.2 ⟨selector, by rw [hentry, hselector], rfl⟩⟩
    obtain ⟨V, hV⟩ := exists_mapM_eq_ok_iff.2 hall
    exact ⟨V, tryInto_eq_ok_iff.2 ⟨canonical, hcanonical, mapM_eq_ok_iff.1 hV⟩⟩

end

/-! ### The same content in the same order -/

/-- The policies that the entries stand for. -/
def SessionPolicies.ofEntries (entries : List SessionRegistrationPolicyPayload) (maxFee : ControllerFieldElement) :
    SessionPolicies where
  policies := entries.map fun entry => { contractAddress := ⟨entry.target⟩, entrypoint := entry.method }
  maxFee := maxFee

section

variable {T : Crates}

/-- A canonical list is the canonical list of its own entries. -/
theorem canonicalize_ofEntries (hhex : T.ReadsPaddedHex) {P : SessionPolicies}
    {canonical : List CanonicalSessionPolicy} (h : canonicalizeSessionPolicies T P = .ok canonical)
    (maxFee : ControllerFieldElement) :
    canonicalizeSessionPolicies T (.ofEntries (policyPayload canonical) maxFee) = .ok canonical := by
  refine canonicalize_eq_ok_iff.2 ⟨(canonicalize_eq_ok_iff.1 h).1, canonical, ?_, List.Perm.refl _⟩
  rw [SessionPolicies.ofEntries, policyPayload, List.map_map, List.forall₂_map_left_iff, List.forall₂_same]
  intro c _
  refine ⟨?_, rfl⟩
  show T.fromHex c.contractAddressHex = .ok c.contractAddress
  rw [c.hex_eq, hhex]

/-- Entry by entry, the shown target and method give the SDK's policy. -/
theorem forall₂_policyPayload (hhex : T.ReadsPaddedHex) {canonical : List CanonicalSessionPolicy} {V : List Policy}
    (h : List.Forall₂ (fun c v => sdkPolicy T c = .ok v) canonical V) :
    List.Forall₂ (fun entry policy => ∃ target selector, T.fromHex entry.target = .ok target ∧
      T.getSelectorFromName entry.method = .ok selector ∧ policy = Policy.newCall target selector)
      (policyPayload canonical) V := by
  rw [policyPayload, List.forall₂_map_left_iff]
  refine h.imp fun c v hv => ?_
  obtain ⟨selector, hselector, hnew⟩ := sdkPolicy_eq_ok_iff.1 hv
  refine ⟨c.contractAddress, selector, ?_, hselector, hnew⟩
  show T.fromHex c.contractAddressHex = .ok c.contractAddress
  rw [c.hex_eq, hhex]

end

section

variable (T : Crates)

/-- When the policies convert to `V`, the `policies` of the registration URL are the targets and methods of entries
that stand for `V` one by one and convert to `V` again, and every session account for the policies has a session made
from `V`. -/
theorem registration_agrees (hurl : T.UrlStandard) (hjson : T.WritesJson) (hhex : T.ReadsPaddedHex)
    (P : SessionPolicies) (V : List Policy) (hV : P.tryInto T = .ok V) (keychainUrl : String) (base : Url)
    (hbase : registrationBase T keychainUrl = .ok base) (publicKey rpcUrl : String) (preset : Option String) :
    ∃ s json entries, buildSessionRegistrationLongUrl T publicKey P rpcUrl keychainUrl preset = .ok s ∧
      queryPairs s.toList = queryPairs base.serialize ++
        ([("public_key".toList, publicKey.toList), ("policies".toList, json), ("rpc_url".toList, rpcUrl.toList)] ++
          match preset with
          | some p => if p = "" then [] else [("preset".toList, p.toList)]
          | none => []) ∧
      Json.parse json = some (.arr (entries.map fun entry =>
        .obj [("target".toList, .str entry.target.toList), ("method".toList, .str entry.method.toList)])) ∧
      entries.length = V.length ∧
      List.Forall₂ (fun entry policy => ∃ target selector, T.fromHex entry.target = .ok target ∧
        T.getSelectorFromName entry.method = .ok selector ∧ policy = Policy.newCall target selector) entries V ∧
      (∀ maxFee, (SessionPolicies.ofEntries entries maxFee).tryInto T = .ok V) ∧
      ∀ (Session AbigenSigner : Type) (S : SessionSdk Session AbigenSigner) (privateKey : String)
        (inner : SessionAccountInner Session),
        (∀ rpcUrl address ownerGuid chainId expiration,
          SessionAccount.new T S rpcUrl privateKey address ownerGuid chainId P expiration = .ok inner →
          ∃ signer, S.sessionNew V expiration signer 0 = .ok inner.sessionAccount.session) ∧
        ∀ subscribe rpcUrl cartridgeApiUrl,
          SessionAccount.createFromSubscribe T S subscribe privateKey P rpcUrl cartridgeApiUrl = .ok inner →
          ∃ expiration signer, S.sessionNew V expiration signer 0 = .ok inner.sessionAccount.session := by
  obtain ⟨canonical, hcanonical, hall⟩ := tryInto_eq_ok_iff.1 hV
  obtain ⟨s, hs, hpairs⟩ := queryPairs_built hurl hjson hcanonical hbase publicKey rpcUrl preset
  have hentries := forall₂_policyPayload hhex hall
  -- `Session::new` is given the converted policies
  have hsession : ∀ (Session AbigenSigner : Type) (S : SessionSdk Session AbigenSigner) (privateKey rpcUrl : String)
      (address ownerGuid chainId : ControllerFieldElement) (expiration : UInt64) (inner : SessionAccountInner Session),
      SessionAccount.new T S rpcUrl privateKey address ownerGuid chainId P expiration = .ok inner →
      ∃ signer, S.sessionNew V expiration signer 0 = .ok inner.sessionAccount.session := by
    intro Session AbigenSigner S privateKey rpcUrl address ownerGuid chainId expiration inner hnew
    obtain ⟨_, _, _, _, _, W, signer, session, _, _, _, _, _, hW, _, hnew, rfl⟩ := SessionAccount.new_eq_ok_iff.1 hnew
    cases hV.symm.trans hW
    exact ⟨signer, hnew⟩
  refine ⟨s, (policiesJson (policyPayload canonical)).toList, policyPayload canonical, hs, hpairs,
    parse_policiesJson _, hentries.length_eq, hentries, ?_, ?_⟩
  · intro maxFee
    exact tryInto_eq_ok_iff.2 ⟨canonical, canonicalize_ofEntries hhex hcanonical maxFee, hall⟩
  · intro Session AbigenSigner S privateKey inner
    constructor
    · intro rpcUrl address ownerGuid chainId expiration hnew
      exact hsession _ _ S privateKey rpcUrl address ownerGuid chainId expiration inner hnew
    · intro subscribe rpcUrl cartridgeApiUrl hcreate
      obtain ⟨_, _, data, _, ownerGuid, _, _, _, _, _, _, hdata⟩ := SessionAccount.createFromSubscribe_eq_ok_iff.1 hcreate
      obtain ⟨chainId, _, hrest⟩ := Outcome.bind_eq_ok_iff.1 hdata
      obtain ⟨inner', hnew, hinner⟩ := Outcome.bind_eq_ok_iff.1 hrest
      obtain ⟨signer, hsigner⟩ := hsession _ _ S privateKey rpcUrl _ _ _ _ inner' hnew
      cases hinner
      exact ⟨data.expiresAt, signer, hsigner⟩

end

/-- Two policies, listed against the order of their addresses. -/
def approvingPolicies : SessionPolicies where
  policies := [⟨⟨"0x10"⟩, "transfer"⟩, ⟨⟨"0x2"⟩, "approve"⟩]
  maxFee := ⟨"0x0"⟩

theorem tryInto_approvingPolicies : approvingPolicies.tryInto Crates.reference =
    .ok [.newCall 2 0x219209e083275171774dab1df80982e9df2096516f06319c5c6d71ae0a8480c,
      .newCall 0x10 0x83afd3f4caedc6eebf44246fe54e38c95e3179a5ec9ea81740eca5b482d12e] := by
  have hcanonical : canonicalizeSessionPolicies Crates.reference approvingPolicies =
      .ok [.of 2 "approve", .of 0x10 "transfer"] := by
    refine canonicalize_eq_ok_iff.2 ⟨List.pairwise_pair.2 (by decide), _, ?_, List.Perm.swap _ _ _⟩
    exact .cons ⟨by decide, rfl⟩ (.cons ⟨by decide, rfl⟩ .nil)
  rw [SessionPolicies.tryInto, hcanonical]
  rfl

theorem registration_agrees_approving :
    ∃ s json entries,
      buildSessionRegistrationLongUrl Crates.reference "0x1" approvingPolicies "" keychainBaseUrl none = .ok s ∧
      queryPairs s.toList = queryPairs keychainSession.serialize ++
        ([("public_key".toList, "0x1".toList), ("policies".toList, json), ("rpc_url".toList, [])] ++ []) ∧
      Json.parse json = some (.arr (entries.map fun entry =>
        .obj [("target".toList, .str entry.target.toList), ("method".toList, .str entry.method.toList)])) ∧
      entries.length = 2 ∧
      ∀ maxFee, (SessionPolicies.ofEntries entries maxFee).tryInto Crates.reference =
        .ok [.newCall 2 0x219209e083275171774dab1df80982e9df2096516f06319c5c6d71ae0a8480c,
          .newCall 0x10 0x83afd3f4caedc6eebf44246fe54e38c95e3179a5ec9ea81740eca5b482d12e] := by
  obtain ⟨s, json, entries, hs, hpairs, hjson, hlen, _, hback, _⟩ := registration_agrees Crates.reference
    Reference.urlStandard Reference.writesJson Reference.readsPaddedHex approvingPolicies _ tryInto_approvingPolicies
    keychainBaseUrl keychainSession registrationBase_keychain "0x1" "" none
  exact ⟨s, json, entries, hs, hpairs, hjson, hlen, hback⟩

/-! ### The same policies accepted -/

section

variable (T : Crates)

/-- With a base URL that parses, the registration URL and the session accept the same policies iff some address is
refused by both or all entrypoints are ASCII. -/
theorem registration_accepts_iff (hselectors : T.SelectorsOfAscii) (hjson : T.WritesJson) (P : SessionPolicies)
    (keychainUrl : String) (base : Url) (hbase : registrationBase T keychainUrl = .ok base) (publicKey rpcUrl : String)
    (preset : Option String) :
    ((∃ s, buildSessionRegistrationLongUrl T publicKey P rpcUrl keychainUrl preset = .ok s) ↔
      ∃ V, P.tryInto T = .ok V) ↔
    ((∃ p ∈ P.policies, ∀ f, T.fromHex p.contractAddress.value ≠ .ok f) ∨
      ∀ p ∈ P.policies, ∀ c ∈ p.entrypoint.toList, c.toNat < 0x80) := by
  have hbuild : (∃ s, buildSessionRegistrationLongUrl T publicKey P rpcUrl keychainUrl preset = .ok s) ↔
      ∀ p ∈ P.policies, ∃ f, T.fromHex p.contractAddress.value = .ok f := by
    rw [exists_buildLongUrl_iff hjson]
    exact and_iff_left ⟨base, hbase⟩
  have hascii : (∀ p ∈ P.policies, ∃ selector, T.getSelectorFromName p.entrypoint = .ok selector) ↔
      ∀ p ∈ P.policies, ∀ c ∈ p.entrypoint.toList, c.toNat < 0x80 :=
    forall₂_congr fun p _ => hselectors p.entrypoint
  have hrefused : (∃ p ∈ P.policies, ∀ f, T.fromHex p.contractAddress.value ≠ .ok f) ↔
      ¬ ∀ p ∈ P.policies, ∃ f, T.fromHex p.contractAddress.value = .ok f := by
    simp only [not_forall, not_exists, exists_prop, ne_eq]
  rw [hbuild, exists_tryInto_iff, hascii, hrefused]
  tauto

end

theorem registration_accepts_iff_transfer :
    ((∃ s, buildSessionRegistrationLongUrl Crates.reference "0x1" transferPolicies "" keychainBaseUrl none = .ok s) ↔
      ∃ V, transferPolicies.tryInto Crates.reference = .ok V) ↔
    ((∃ p ∈ transferPolicies.policies, ∀ f, Crates.reference.fromHex p.contractAddress.value ≠ .ok f) ∨
      ∀ p ∈ transferPolicies.policies, ∀ c ∈ p.entrypoint.toList, c.toNat < 0x80) :=
  registration_accepts_iff Crates.reference Reference.selectorsOfAscii Reference.writesJson transferPolicies
    keychainBaseUrl keychainSession registrationBase_keychain "0x1" "" none

/-- A policy for an entrypoint without a selector. -/
def accentedPolicies : SessionPolicies where
  policies := [⟨⟨"0x2"⟩, "caf\u00e9"⟩]
  maxFee := ⟨"0x0"⟩

/-- The URL is built for a policy that does not convert. -/
theorem registration_accepts_accented :
    ¬ ((∃ s, buildSessionRegistrationLongUrl Crates.reference "0x1" accentedPolicies "" keychainBaseUrl none = .ok s) ↔
      ∃ V, accentedPolicies.tryInto Crates.reference = .ok V) := by
  have hcanonical : canonicalizeSessionPolicies Crates.reference accentedPolicies =
      .ok [.of 2 "caf\u00e9"] := by
    refine canonicalize_eq_ok_iff.2 ⟨List.pairwise_singleton _ _, _, ?_, List.Perm.refl _⟩
    exact .cons ⟨by decide, rfl⟩ .nil
  have hfail : accentedPolicies.tryInto Crates.reference =
      .error (.invalidInput "the provided name is not ASCII") := by
    rw [SessionPolicies.tryInto, hcanonical]
    rfl
  intro h
  obtain ⟨V, hV⟩ := h.1 ⟨_, (buildLongUrl_eq_ok_iff Reference.writesJson).2
    ⟨_, keychainSession, hcanonical, registrationBase_keychain, rfl⟩⟩
  rw [hfail] at hV
  cases hV

end ControllerUniffi
