import ControllerUniffi.Canonical

/-!
# The query of the registration URL

The query of the registration URL decodes to the pairs of the base URL, followed by the pairs of the registration
(`queryPairs_registration`), whatever the values are, and the JSON text among them decodes to the canonical policies
(`parse_policiesJson`).
-/

namespace ControllerUniffi

open Text Whatwg Collect

/-- The name-value pairs in the text of a URL: its query, decoded as a form. -/
def queryPairs (s : List Char) : List (List Char × List Char) := Form.parse (encode (queryOf s))

theorem queryPairs_serialize {u : Url} (h : u.Wf) : queryPairs u.serialize = u.pairs := by
  rw [queryPairs, queryOf_serialize h, Url.pairs]

/-- The text that is written for the payload. -/
def policiesJson (payload : List SessionRegistrationPolicyPayload) : String :=
  String.ofList (Json.write (.arr (payload.map (·.toJson))))

theorem parse_policiesJson (payload : List SessionRegistrationPolicyPayload) :
    Json.parse (policiesJson payload).toList = some (.arr (payload.map (·.toJson))) := by
  rw [policiesJson, String.toList_ofList, Json.parse_write]

/-! ### Appending the registration -/

/-- The preset, unless it is missing or empty. -/
def presetPairs (preset : Option String) : List (List Char × List Char) :=
  match preset with
  | some p => if p = "" then [] else [("preset".toList, p.toList)]
  | none => []

/-- The pairs of the registration, in order. -/
def registrationPairs (publicKey json rpcUrl : String) (preset : Option String) : List (List Char × List Char) :=
  [("public_key".toList, publicKey.toList), ("policies".toList, json.toList), ("rpc_url".toList, rpcUrl.toList)] ++
    presetPairs preset

theorem appendRegistration_eq (url : Url) (publicKey json rpcUrl : String) (preset : Option String) :
    appendRegistration url publicKey json rpcUrl preset =
      url.queryPairsMut.appendPairs (registrationPairs publicKey json rpcUrl preset) := by
  unfold appendRegistration registrationPairs presetPairs
  cases preset with
  | none => rfl
  | some p =>
    by_cases hp : p = ""
    · subst hp
      rfl
    · have hfilter : (some p).filter (fun p : String => decide (p ≠ "")) = some p := by simp [hp]
      simp only [hfilter, if_neg hp]
      rfl

/-! ### Building the URL -/

section

variable {T : Crates} {P : SessionPolicies} {publicKey rpcUrl keychainUrl : String} {preset : Option String}

theorem buildLongUrl_eq_ok_iff (hjson : T.WritesJson) {s : String} :
    buildSessionRegistrationLongUrl T publicKey P rpcUrl keychainUrl preset = .ok s ↔
      ∃ canonical base, canonicalizeSessionPolicies T P = .ok canonical ∧ registrationBase T keychainUrl = .ok base ∧
        s = String.ofList
          (appendRegistration base publicKey (policiesJson (policyPayload canonical)) rpcUrl preset).serialize := by
  unfold buildSessionRegistrationLongUrl
  constructor
  · intro h
    obtain ⟨canonical, hcanonical, h⟩ := bind_eq_ok_iff.1 h
    obtain ⟨json, hj, h⟩ := bind_eq_ok_iff.1 h
    obtain ⟨base, hbase, h⟩ := bind_eq_ok_iff.1 h
    rw [hjson] at hj
    cases hj
    cases h
    exact ⟨canonical, base, hcanonical, mapError_eq_ok_iff.1 hbase, rfl⟩
  · rintro ⟨canonical, base, hcanonical, hbase, rfl⟩
    refine bind_eq_ok_iff.2 ⟨canonical, hcanonical, bind_eq_ok_iff.2 ⟨_, ?_, bind_eq_ok_iff.2 ⟨base, ?_, rfl⟩⟩⟩
    · rw [hjson]
      rfl
    · exact mapError_eq_ok_iff.2 hbase

/-- The URL is built iff the addresses and the base URL parse. -/
theorem exists_buildLongUrl_iff (hjson : T.WritesJson) :
    (∃ s, buildSessionRegistrationLongUrl T publicKey P rpcUrl keychainUrl preset = .ok s) ↔
      (∀ p ∈ P.policies, ∃ f, T.fromHex p.contractAddress.value = .ok f) ∧
        ∃ base, registrationBase T keychainUrl = .ok base := by
  rw [← exists_canonicalize_iff]
  constructor
  · rintro ⟨s, hs⟩
    obtain ⟨canonical, base, hcanonical, hbase, _⟩ := (buildLongUrl_eq_ok_iff hjson).1 hs
    exact ⟨⟨canonical, hcanonical⟩, ⟨base, hbase⟩⟩
  · rintro ⟨⟨canonical, hcanonical⟩, ⟨base, hbase⟩⟩
    exact ⟨_, (buildLongUrl_eq_ok_iff hjson).2 ⟨canonical, base, hcanonical, hbase, rfl⟩⟩

theorem isInvalidInput_of_buildLongUrl {e : ControllerError}
    (h : buildSessionRegistrationLongUrl T publicKey P rpcUrl keychainUrl preset = .error e) : e.IsInvalidInput := by
  rcases bind_eq_error_iff.1 h with h | ⟨canonical, _, h⟩
  · exact isInvalidInput_of_canonicalize h
  rcases bind_eq_error_iff.1 h with h | ⟨json, _, h⟩
  · exact isInvalidInput_of_mapError h
  rcases bind_eq_error_iff.1 h with h | ⟨base, _, h⟩
  · exact isInvalidInput_of_mapError h
  · cases h

/-- What the query of the built URL decodes to. -/
theorem queryPairs_built (hurl : T.UrlStandard) (hjson : T.WritesJson) {canonical : List CanonicalSessionPolicy}
    {base : Url} (hcanonical : canonicalizeSessionPolicies T P = .ok canonical)
    (hbase : registrationBase T keychainUrl = .ok base) (publicKey rpcUrl : String) (preset : Option String) :
    ∃ s, buildSessionRegistrationLongUrl T publicKey P rpcUrl keychainUrl preset = .ok s ∧
      queryPairs s.toList = queryPairs base.serialize ++
        registrationPairs publicKey (policiesJson (policyPayload canonical)) rpcUrl preset := by
  refine ⟨_, (buildLongUrl_eq_ok_iff hjson).2 ⟨canonical, base, hcanonical, hbase, rfl⟩, ?_⟩
  have hwf : base.Wf := hurl.wf hbase
  rw [String.toList_ofList, appendRegistration_eq, queryPairs_serialize (hwf.queryPairsMut.appendPairs _),
    queryPairs_serialize hwf, pairs_appendPairs, pairs_queryPairsMut]

end

section

variable (T : Crates)

/-- When the addresses and the base URL parse, the URL is built, its query decodes to the pairs of the base URL and
those of the registration, in order, and the text of the policies decodes to the canonical policies, which are the
entries that stand for the policies. -/
theorem queryPairs_registration (hurl : T.UrlStandard) (hjson : T.WritesJson) (P : SessionPolicies)
    (haddr : ∀ p ∈ P.policies, ∃ f, T.fromHex p.contractAddress.value = .ok f) (keychainUrl : String) (base : Url)
    (hbase : T.urlParse (String.ofList (trimEnd '/' keychainUrl.toList) ++ "/session") = .ok base)
    (publicKey rpcUrl : String) (preset : Option String) :
    ∃ s canonical json, buildSessionRegistrationLongUrl T publicKey P rpcUrl keychainUrl preset = .ok s ∧
      canonicalizeSessionPolicies T P = .ok canonical ∧
      (∃ entries, List.Forall₂ (Stands T) P.policies entries ∧ canonical.Perm entries) ∧
      queryPairs s.toList = queryPairs base.serialize ++
        ([("public_key".toList, publicKey.toList), ("policies".toList, json), ("rpc_url".toList, rpcUrl.toList)] ++
          match preset with
          | some p => if p = "" then [] else [("preset".toList, p.toList)]
          | none => []) ∧
      Json.parse json = some (.arr (canonical.map fun c =>
        .obj [("target".toList, .str c.contractAddressHex.toList), ("method".toList, .str c.entrypoint.toList)])) := by
  obtain ⟨canonical, hcanonical⟩ := exists_canonicalize_iff.2 haddr
  obtain ⟨s, hs, hpairs⟩ := queryPairs_built hurl hjson hcanonical hbase publicKey rpcUrl preset
  refine ⟨s, canonical, _, hs, hcanonical, (canonicalize_eq_ok_iff.1 hcanonical).2, hpairs, ?_⟩
  rw [parse_policiesJson, policyPayload, List.map_map]
  rfl

end

/-- The URL that registrations with the public keychain are appended to. -/
def keychainSession : Url where
  scheme := "https".toList
  authority := { username := [], password := [], host := some "x.cartridge.gg".toList, port := none }
  path := .segments ["session".toList]
  query := none
  fragment := none

theorem registrationBase_keychain : registrationBase Crates.reference keychainBaseUrl = .ok keychainSession := by decide

/-- One policy whose entrypoint would end the query if it were not escaped. -/
def forgingPolicies : SessionPolicies where
  policies := [⟨⟨"0x2"⟩, "a\"\x7d]&preset=b#"⟩]
  maxFee := ⟨"0x0"⟩

theorem queryPairs_registration_forging :
    ∃ s canonical json, buildSessionRegistrationLongUrl Crates.reference "0x1&policies=" forgingPolicies "" "foo:" none =
        .ok s ∧
      canonicalizeSessionPolicies Crates.reference forgingPolicies = .ok canonical ∧
      (∃ entries, List.Forall₂ (Stands Crates.reference) forgingPolicies.policies entries ∧ canonical.Perm entries) ∧
      queryPairs s.toList = queryPairs "foo:/session".toList ++
        ([("public_key".toList, "0x1&policies=".toList), ("policies".toList, json), ("rpc_url".toList, [])] ++ []) ∧
      Json.parse json = some (.arr (canonical.map fun c =>
        .obj [("target".toList, .str c.contractAddressHex.toList), ("method".toList, .str c.entrypoint.toList)])) := by
  apply queryPairs_registration Crates.reference Reference.urlStandard Reference.writesJson forgingPolicies
    _ "foo:" ⟨"foo".toList, noAuthority, .segments ["session".toList], none, none⟩ _ "0x1&policies=" "" none
  · intro p hp
    cases List.mem_singleton.1 hp
    exact ⟨2, by decide⟩
  · decide

end ControllerUniffi
