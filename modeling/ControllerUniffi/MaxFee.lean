import ControllerUniffi.Agreement
import ControllerUniffi.Data.Trace

/-!
# The fee limit of a session

The fee limit of the session policies reaches nothing: policies that differ in it alone have the same registration URL,
the same session account and the same submissions (`results_congr`), and a limit that does not parse is not noticed.
So the limit is only kept where there is nothing to keep (`feeKept_iff`).
-/

namespace ControllerUniffi

open Collect

/-! ### Registering and using policies -/

inductive Submission where
  | execute (calls : List Call)
  | executeFromOutside (now : UInt64) (random : Felt) (calls : List Call)
  deriving DecidableEq, Repr

/-- The other arguments: of the registration, of the session account, and what is submitted with it. -/
structure Usage where
  publicKey : String
  registrationRpcUrl : String
  keychainUrl : String
  preset : Option String
  rpcUrl : String
  privateKey : String
  address : ControllerFieldElement
  ownerGuid : ControllerFieldElement
  chainId : ControllerFieldElement
  sessionExpiration : UInt64
  submissions : List Submission

structure Results (Session : Type) where
  registration : Except ControllerError String
  account : Outcome (SessionAccountInner Session)
  /-- What is asked of the SDK in all submissions, with the outcome of each. -/
  submitted : List (Submission × Outcome ControllerFieldElement × List SessionRequest)

section

variable (T : Crates) {Session AbigenSigner : Type} (S : SessionSdk Session AbigenSigner)

def submit (inner : SessionAccountInner Session) (submission : Submission) :
    (Outcome ControllerFieldElement × List SessionRequest) × SessionAccountInner Session :=
  let result := match submission with
    | .execute calls => SessionAccount.execute T S inner calls
    | .executeFromOutside now random calls => SessionAccount.executeFromOutside T S now random inner calls
  ((result.outcome, result.requests), result.state)

/-- Register the policies, open a session account for them and submit with it. -/
def results (usage : Usage) (P : SessionPolicies) : Results Session :=
  let account := SessionAccount.new T S usage.rpcUrl usage.privateKey usage.address usage.ownerGuid usage.chainId P
    usage.sessionExpiration
  { registration := buildSessionRegistrationLongUrl T usage.publicKey P usage.registrationRpcUrl usage.keychainUrl
      usage.preset
    account := account
    submitted := match account with
      | .ok inner => (Trace.run (submit T S) inner usage.submissions).1
      | _ => [] }

/-- Different fee limits show in the results, and a limit that does not parse is an invalid input. -/
def FeeKept (usage : Usage) (P Q : SessionPolicies) : Prop :=
  (∀ f g, T.fromHex P.maxFee.value = .ok f → T.fromHex Q.maxFee.value = .ok g → f ≠ g →
    results T S usage P ≠ results T S usage Q) ∧
  ((∀ f, T.fromHex P.maxFee.value ≠ .ok f) →
    (∃ e, (results T S usage P).registration = .error e ∧ e.IsInvalidInput) ∧
    ∃ e, (results T S usage P).account = .err e ∧ e.IsInvalidInput)

/-- Registration and session account are refused whatever the fee limit is: something else in the policies, or the
keychain's URL, is an invalid input, and the account does not fail before the policies are converted. -/
structure RefusedAnyway (usage : Usage) (policies : List SessionPolicy) : Prop where
  registration : (∃ p ∈ policies, ∀ f, T.fromHex p.contractAddress.value ≠ .ok f) ∨
    ∀ base, registrationBase T usage.keychainUrl ≠ .ok base
  session : ∃ p ∈ policies, (∀ f, T.fromHex p.contractAddress.value ≠ .ok f) ∨
    ∀ f, T.getSelectorFromName p.entrypoint ≠ .ok f
  rpcUrl : ∃ url, T.urlParse usage.rpcUrl = .ok url
  felts : ∀ s ∈ [usage.address.value, usage.chainId.value, usage.ownerGuid.value, usage.privateKey],
    ∃ f, T.fromHex s = .ok f

end

/-! ### The limit reaches nothing -/

section

variable {T : Crates} {Session AbigenSigner : Type} {S : SessionSdk Session AbigenSigner} {usage : Usage}
  {P Q : SessionPolicies}

theorem canonicalize_congr (h : P.policies = Q.policies) :
    canonicalizeSessionPolicies T P = canonicalizeSessionPolicies T Q := by
  unfold canonicalizeSessionPolicies
  rw [h]

theorem tryInto_congr (h : P.policies = Q.policies) : P.tryInto T = Q.tryInto T := by
  unfold SessionPolicies.tryInto
  rw [canonicalize_congr h]

/-- Policies that differ in the fee limit alone have the same results. -/
theorem results_congr (h : P.policies = Q.policies) : results T S usage P = results T S usage Q := by
  have hregistration : buildSessionRegistrationLongUrl T usage.publicKey P usage.registrationRpcUrl usage.keychainUrl
      usage.preset = buildSessionRegistrationLongUrl T usage.publicKey Q usage.registrationRpcUrl usage.keychainUrl
      usage.preset := by
    unfold buildSessionRegistrationLongUrl
    rw [canonicalize_congr h]
  have haccount : SessionAccount.new T S usage.rpcUrl usage.privateKey usage.address usage.ownerGuid usage.chainId P
      usage.sessionExpiration = SessionAccount.new T S usage.rpcUrl usage.privateKey usage.address usage.ownerGuid
      usage.chainId Q usage.sessionExpiration := by
    unfold SessionAccount.new
    rw [tryInto_congr h]
  unfold results
  rw [hregistration, haccount]

theorem isInvalidInput_of_tryInto {e : ControllerError} (h : P.tryInto T = .error e) : e.IsInvalidInput := by
  rcases bind_eq_error_iff.1 h with h | ⟨canonical, _, h⟩
  · exact isInvalidInput_of_canonicalize h
  obtain ⟨c, _, hc⟩ := exists_of_mapM_eq_error h
  rcases bind_eq_error_iff.1 hc with hc | ⟨_, _, hc⟩
  · exact isInvalidInput_of_mapError hc
  · cases hc

/-! ### When registration and account are refused -/

/-- The outcome is an invalid input. -/
def Invalid {α : Type} (x : Outcome α) : Prop := ∃ e, x = .err e ∧ e.IsInvalidInput

private theorem invalid_of_init {α β : Type} {x : Except String α} {f : α → Outcome β} :
    Invalid (.ofExcept (x.mapError .initializationError) >>= f) ↔ ∃ a, x = .ok a ∧ Invalid (f a) := by
  cases x with
  | ok a =>
    constructor
    · intro h
      exact ⟨a, rfl, h⟩
    · rintro ⟨_, ha, h⟩
      cases ha
      exact h
  | error m =>
    constructor
    · rintro ⟨e, he, d, hd⟩
      cases he
      cases hd
    · rintro ⟨a, ha, _⟩
      cases ha

private theorem not_invalid_ok {α : Type} (a : α) : ¬ Invalid (.ok a) := by
  rintro ⟨e, he, _⟩
  cases he

/-- A session account is an invalid input iff its policies do not convert and are reached. -/
theorem invalid_new_iff :
    Invalid (SessionAccount.new T S usage.rpcUrl usage.privateKey usage.address usage.ownerGuid usage.chainId P
      usage.sessionExpiration) ↔
    (∃ url, T.urlParse usage.rpcUrl = .ok url) ∧ (∃ f, T.fromHex usage.address.value = .ok f) ∧
      (∃ f, T.fromHex usage.chainId.value = .ok f) ∧ (∃ f, T.fromHex usage.ownerGuid.value = .ok f) ∧
      (∃ f, T.fromHex usage.privateKey = .ok f) ∧ ∃ e, P.tryInto T = .error e := by
  have hpolicies : ∀ key : Felt, ∀ build : Session → SessionAccountInner Session,
      Invalid (.ofExcept (P.tryInto T) >>= fun policyVec =>
        Outcome.ofOption (S.abigenSigner (.starknet ⟨key⟩)) >>= fun signer =>
        .ofExcept ((S.sessionNew policyVec usage.sessionExpiration signer 0).mapError .initializationError) >>=
          fun session => (pure (build session) : Outcome (SessionAccountInner Session))) ↔
      ∃ e, P.tryInto T = .error e := by
    intro key build
    cases hconvert : P.tryInto T with
    | error e =>
      constructor
      · intro _
        exact ⟨e, rfl⟩
      · intro _
        exact ⟨e, rfl, isInvalidInput_of_tryInto hconvert⟩
    | ok V =>
      -- after the conversion there are other failures only
      constructor
      · intro h
        rw [Outcome.ofExcept_ok, Outcome.ok_bind] at h
        cases hsigner : S.abigenSigner (.starknet ⟨key⟩) with
        | none =>
          rw [hsigner] at h
          obtain ⟨e, he, _⟩ := h
          cases he
        | some signer =>
          rw [hsigner, Outcome.ofOption_some, Outcome.ok_bind, invalid_of_init] at h
          obtain ⟨session, _, h⟩ := h
          exact absurd h (not_invalid_ok _)
      · rintro ⟨e, he⟩
        cases he
  unfold SessionAccount.new
  simp only [invalid_of_init, hpolicies]
  constructor
  · rintro ⟨url, hurl, addr, haddr, chain, hchain, owner, howner, key, hkey, he⟩
    exact ⟨⟨url, hurl⟩, ⟨addr, haddr⟩, ⟨chain, hchain⟩, ⟨owner, howner⟩, ⟨key, hkey⟩, he⟩
  · rintro ⟨⟨url, hurl⟩, ⟨addr, haddr⟩, ⟨chain, hchain⟩, ⟨owner, howner⟩, ⟨key, hkey⟩, he⟩
    exact ⟨url, hurl, addr, haddr, chain, hchain, owner, howner, key, hkey, he⟩

/-- Both are invalid inputs iff they are so whatever the fee limit is. -/
theorem refused_iff (hjson : T.WritesJson) :
    ((∃ e, (results T S usage P).registration = .error e ∧ e.IsInvalidInput) ∧
      ∃ e, (results T S usage P).account = .err e ∧ e.IsInvalidInput) ↔ RefusedAnyway T usage P.policies := by
  have hregistration : (∃ e, (results T S usage P).registration = .error e ∧ e.IsInvalidInput) ↔
      (∃ p ∈ P.policies, ∀ f, T.fromHex p.contractAddress.value ≠ .ok f) ∨
        ∀ base, registrationBase T usage.keychainUrl ≠ .ok base := by
    have hinvalid : (∃ e, (results T S usage P).registration = .error e ∧ e.IsInvalidInput) ↔
        ∃ e, (results T S usage P).registration = .error e :=
      ⟨fun ⟨e, he, _⟩ => ⟨e, he⟩, fun ⟨e, he⟩ => ⟨e, he, isInvalidInput_of_buildLongUrl he⟩⟩
    rw [hinvalid, exists_error_iff]
    show ¬ (∃ s, buildSessionRegistrationLongUrl T _ P _ _ _ = .ok s) ↔ _
    rw [exists_buildLongUrl_iff hjson, not_and_or]
    simp only [not_forall, not_exists, exists_prop, ne_eq]
  have hsession : (∃ e, P.tryInto T = .error e) ↔ ∃ p ∈ P.policies,
      (∀ f, T.fromHex p.contractAddress.value ≠ .ok f) ∨ ∀ f, T.getSelectorFromName p.entrypoint ≠ .ok f := by
    rw [exists_error_iff, exists_tryInto_iff, ← forall₂_and]
    simp only [not_forall, not_and_or, not_exists, exists_prop, ne_eq]
  have haccount : (∃ e, (results T S usage P).account = .err e ∧ e.IsInvalidInput) ↔ _ :=
    invalid_new_iff (T := T) (S := S) (P := P)
  rw [hregistration, haccount, hsession]
  constructor
  · rintro ⟨hreg, hurl, haddr, hchain, howner, hkey, hsess⟩
    refine ⟨hreg, hsess, hurl, ?_⟩
    intro s hs
    simp only [List.mem_cons, List.not_mem_nil, or_false] at hs
    rcases hs with rfl | rfl | rfl | rfl
    · exact haddr
    · exact hchain
    · exact howner
    · exact hkey
  · rintro ⟨hreg, hsess, hurl, hfelts⟩
    exact ⟨hreg, hurl, hfelts _ (by simp), hfelts _ (by simp), hfelts _ (by simp), hfelts _ (by simp), hsess⟩

end

section

variable (T : Crates) {Session AbigenSigner : Type} (S : SessionSdk Session AbigenSigner)

/-- The fee limit is kept iff the two limits are not two different felts, and a limit that does not parse stands in
policies that are refused anyway. -/
theorem feeKept_iff (hjson : T.WritesJson) (usage : Usage) (P Q : SessionPolicies) (h : P.policies = Q.policies) :
    FeeKept T S usage P Q ↔
      (∀ f g, T.fromHex P.maxFee.value = .ok f → T.fromHex Q.maxFee.value = .ok g → f = g) ∧
      ((∀ f, T.fromHex P.maxFee.value ≠ .ok f) → RefusedAnyway T usage P.policies) := by
  unfold FeeKept
  rw [refused_iff hjson]
  refine and_congr_left fun _ => forall₂_congr fun f g => ?_
  constructor
  · intro hkept hf hg
    by_contra hne
    exact hkept hf hg hne (results_congr h)
  · intro heq hf hg hne
    exact absurd (heq hf hg) hne

end

/-- One transfer in a session on the main chain. -/
def transferUsage : Usage where
  publicKey := "0x1"
  registrationRpcUrl := ""
  keychainUrl := keychainBaseUrl
  preset := none
  rpcUrl := "https://api.cartridge.gg/x/starknet/mainnet"
  privateKey := "0x1"
  address := ⟨"0xABC"⟩
  ownerGuid := ⟨"0x7"⟩
  chainId := ⟨"0x534e5f4d41494e"⟩
  sessionExpiration := 1700000000
  submissions := [.execute [⟨⟨"0x2"⟩, "transfer", []⟩]]

/-- The policy for transfers with a fee limit. -/
def limitedPolicies (maxFee : String) : SessionPolicies where
  policies := transferPolicies.policies
  maxFee := ⟨maxFee⟩

theorem feeKept_iff_same :
    FeeKept Crates.reference SessionSdk.reference transferUsage (limitedPolicies "0x1") (limitedPolicies "0x01") ↔
      (∀ f g, Crates.reference.fromHex "0x1" = .ok f → Crates.reference.fromHex "0x01" = .ok g → f = g) ∧
      ((∀ f, Crates.reference.fromHex "0x1" ≠ .ok f) →
        RefusedAnyway Crates.reference transferUsage (limitedPolicies "0x1").policies) :=
  feeKept_iff Crates.reference SessionSdk.reference Reference.writesJson transferUsage (limitedPolicies "0x1")
    (limitedPolicies "0x01") rfl

/-- A limit of 1 and a limit of 2 have the same results. -/
theorem feeKept_two :
    ¬ FeeKept Crates.reference SessionSdk.reference transferUsage (limitedPolicies "0x1") (limitedPolicies "0x2") := by
  rintro ⟨hdiffer, _⟩
  have hone : Crates.reference.fromHex (limitedPolicies "0x1").maxFee.value = .ok 1 := by decide
  have htwo : Crates.reference.fromHex (limitedPolicies "0x2").maxFee.value = .ok 2 := by decide
  exact hdiffer 1 2 hone htwo (by decide) (results_congr rfl)

end ControllerUniffi
