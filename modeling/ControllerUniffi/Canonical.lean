import ControllerUniffi.Registration

/-!
# The canonical list of policies

Only equal entries tie in the order of the canonical list, so that the list is the one sorted list of the entries
(`canonicalize_eq_ok_iff`).  It does not depend on the order in which the policies are listed, nor on the texts of
their addresses (`canonicalize_listing`).
-/

namespace ControllerUniffi

open Text Collect SortBy Std

/-! ### The order -/

instance : TransCmp cmpStr := inferInstanceAs (TransCmp (compareOn fun s : String => encode s.toList))

theorem eq_of_cmpStr {a b : String} (h : cmpStr a b = .eq) : a = b :=
  String.toList_injective (encode_injective (LawfulEqCmp.eq_of_compare h))

instance : TransCmp cmpCanonical := inferInstanceAs (TransCmp (compareLex
  (compareLex
    (compareOn fun p : CanonicalSessionPolicy => encode p.contractAddressHex.toList)
    (compareOn fun p : CanonicalSessionPolicy => encode (toAsciiLowercase p.entrypoint).toList))
  (compareOn fun p : CanonicalSessionPolicy => encode p.entrypoint.toList)))

/-- The padded text of the address determines the address. -/
theorem CanonicalSessionPolicy.eq_of_texts {a b : CanonicalSessionPolicy}
    (hhex : a.contractAddressHex = b.contractAddressHex) (hentry : a.entrypoint = b.entrypoint) : a = b := by
  have haddr : a.contractAddress = b.contractAddress := by
    apply feltPaddedHex_injective
    rw [← a.hex_eq, ← b.hex_eq, hhex]
  exact CanonicalSessionPolicy.ext haddr hhex hentry

instance : LawfulEqCmp cmpCanonical where
  eq_of_compare := by
    intro a b h
    -- the comparison without letter case is not needed: the last one decides
    obtain ⟨h, hentry⟩ := Ordering.then_eq_eq.1 h
    obtain ⟨hhex, _⟩ := Ordering.then_eq_eq.1 h
    exact CanonicalSessionPolicy.eq_of_texts (eq_of_cmpStr hhex) (eq_of_cmpStr hentry)

/-! ### What canonicalization does -/

section

variable {T : Crates}

/-- The entry `c` stands for the policy `p`. -/
def Stands (T : Crates) (p : SessionPolicy) (c : CanonicalSessionPolicy) : Prop :=
  T.fromHex p.contractAddress.value = .ok c.contractAddress ∧ c.entrypoint = p.entrypoint

theorem canonicalPolicy_eq_ok_iff {p : SessionPolicy} {c : CanonicalSessionPolicy} :
    canonicalPolicy T p = .ok c ↔ Stands T p c := by
  unfold canonicalPolicy Stands
  rw [bind_eq_ok_iff]
  constructor
  · rintro ⟨f, hf, hc⟩
    cases hc
    exact ⟨mapError_eq_ok_iff.1 hf, rfl⟩
  · rintro ⟨hf, hentry⟩
    refine ⟨c.contractAddress, mapError_eq_ok_iff.2 hf, ?_⟩
    exact congrArg Except.ok (CanonicalSessionPolicy.ext rfl c.hex_eq.symm hentry.symm)

theorem isInvalidInput_of_canonicalPolicy {p : SessionPolicy} {e : ControllerError}
    (h : canonicalPolicy T p = .error e) : e.IsInvalidInput := by
  rcases bind_eq_error_iff.1 h with h | ⟨f, _, h⟩
  · exact isInvalidInput_of_mapError h
  · cases h

/-- The canonical list is the sorted list of the entries that stand for the policies. -/
theorem canonicalize_eq_ok_iff {P : SessionPolicies} {l : List CanonicalSessionPolicy} :
    canonicalizeSessionPolicies T P = .ok l ↔
      Sorted cmpCanonical l ∧ ∃ entries, List.Forall₂ (Stands T) P.policies entries ∧ l.Perm entries := by
  have hstands : ∀ entries, P.policies.mapM (canonicalPolicy T) = .ok entries ↔
      List.Forall₂ (Stands T) P.policies entries := by
    intro entries
    rw [mapM_eq_ok_iff]
    exact ⟨fun h => h.imp fun _ _ => canonicalPolicy_eq_ok_iff.1, fun h => h.imp fun _ _ => canonicalPolicy_eq_ok_iff.2⟩
  unfold canonicalizeSessionPolicies
  rw [bind_eq_ok_iff]
  constructor
  · rintro ⟨entries, hentries, hl⟩
    cases hl
    exact ⟨sorted_sortBy entries, entries, (hstands entries).1 hentries, sortBy_perm entries⟩
  · rintro ⟨hsorted, entries, hentries, hperm⟩
    exact ⟨entries, (hstands entries).2 hentries, congrArg Except.ok (eq_sortBy hsorted hperm).symm⟩

theorem isInvalidInput_of_canonicalize {P : SessionPolicies} {e : ControllerError}
    (h : canonicalizeSessionPolicies T P = .error e) : e.IsInvalidInput := by
  rcases bind_eq_error_iff.1 h with h | ⟨entries, _, h⟩
  · obtain ⟨p, _, hp⟩ := exists_of_mapM_eq_error h
    exact isInvalidInput_of_canonicalPolicy hp
  · cases h

/-- Policies have a canonical list iff all their addresses parse. -/
theorem exists_canonicalize_iff {P : SessionPolicies} :
    (∃ l, canonicalizeSessionPolicies T P = .ok l) ↔
      ∀ p ∈ P.policies, ∃ f, T.fromHex p.contractAddress.value = .ok f := by
  have hone : ∀ p, (∃ c, canonicalPolicy T p = .ok c) ↔ ∃ f, T.fromHex p.contractAddress.value = .ok f := by
    intro p
    constructor
    · rintro ⟨c, hc⟩
      exact ⟨_, (canonicalPolicy_eq_ok_iff.1 hc).1⟩
    · rintro ⟨f, hf⟩
      exact ⟨.of f p.entrypoint, canonicalPolicy_eq_ok_iff.2 ⟨hf, rfl⟩⟩
  rw [← forall₂_congr fun p _ => hone p, ← exists_mapM_eq_ok_iff]
  unfold canonicalizeSessionPolicies
  constructor
  · rintro ⟨l, hl⟩
    obtain ⟨entries, hentries, _⟩ := bind_eq_ok_iff.1 hl
    exact ⟨entries, hentries⟩
  · rintro ⟨entries, hentries⟩
    exact ⟨_, bind_eq_ok_iff.2 ⟨entries, hentries, rfl⟩⟩

/-- The members of the canonical list are the entries that stand for the policies. -/
theorem mem_canonicalize_iff {P : SessionPolicies} {l : List CanonicalSessionPolicy}
    (h : canonicalizeSessionPolicies T P = .ok l) {c : CanonicalSessionPolicy} :
    c ∈ l ↔ ∃ p ∈ P.policies, Stands T p c := by
  obtain ⟨entries, hentries, hl⟩ := bind_eq_ok_iff.1 h
  cases hl
  rw [(sortBy_perm entries).mem_iff, mem_of_mapM_eq_ok hentries]
  simp only [canonicalPolicy_eq_ok_iff]

/-! ### Independence of the listing -/

/-- The address that the policy's text denotes, if it denotes one, and the entrypoint. -/
def SessionPolicy.denotes (T : Crates) (policy : SessionPolicy) : Option Felt × String :=
  ((T.fromHex policy.contractAddress.value).toOption, policy.entrypoint)

/-- The entry for an address and an entrypoint. -/
def denotedEntry (d : Option Felt × String) : Option CanonicalSessionPolicy :=
  d.1.map fun f => .of f d.2

theorem toOption_canonicalPolicy (p : SessionPolicy) :
    (canonicalPolicy T p).toOption = denotedEntry (p.denotes T) := by
  unfold canonicalPolicy denotedEntry SessionPolicy.denotes
  cases T.fromHex p.contractAddress.value <;> rfl

theorem canonicalize_of_perm {P Q : SessionPolicies}
    (h : (P.policies.map (·.denotes T)).Perm (Q.policies.map (·.denotes T))) {l : List CanonicalSessionPolicy}
    (hP : canonicalizeSessionPolicies T P = .ok l) : canonicalizeSessionPolicies T Q = .ok l := by
  obtain ⟨entries, hentries, hl⟩ := bind_eq_ok_iff.1 hP
  obtain ⟨entries', hentries', hperm⟩ := mapM_of_perm toOption_canonicalPolicy h hentries
  cases hl
  rw [sortBy_eq_of_perm hperm]
  exact bind_eq_ok_iff.2 ⟨entries', hentries', rfl⟩

end

section

variable (T : Crates)

/-- Policies that denote the same addresses and entrypoints, in any order, are both refused, or they have the same
canonical list, the same registration URL and the same policies for the SDK. -/
theorem canonicalize_listing (P Q : SessionPolicies)
    (h : (P.policies.map (·.denotes T)).Perm (Q.policies.map (·.denotes T))) :
    ((∃ e, canonicalizeSessionPolicies T P = .error e) ∧ ∃ e, canonicalizeSessionPolicies T Q = .error e) ∨
    ∃ l, canonicalizeSessionPolicies T P = .ok l ∧ canonicalizeSessionPolicies T Q = .ok l ∧
      (∀ publicKey rpcUrl keychainUrl preset,
        buildSessionRegistrationLongUrl T publicKey P rpcUrl keychainUrl preset =
          buildSessionRegistrationLongUrl T publicKey Q rpcUrl keychainUrl preset) ∧
      P.tryInto T = Q.tryInto T := by
  rcases ok_or_error (canonicalizeSessionPolicies T P) with ⟨l, hP⟩ | ⟨e, hP⟩
  · right
    have hQ := canonicalize_of_perm h hP
    refine ⟨l, hP, hQ, ?_, ?_⟩
    · intro publicKey rpcUrl keychainUrl preset
      unfold buildSessionRegistrationLongUrl
      rw [hP, hQ]
    · unfold SessionPolicies.tryInto
      rw [hP, hQ]
  · left
    refine ⟨⟨e, hP⟩, ?_⟩
    rcases ok_or_error (canonicalizeSessionPolicies T Q) with ⟨l, hQ⟩ | hQ
    · -- a canonical list of `Q` would be one of `P`
      have := canonicalize_of_perm h.symm hQ
      rw [hP] at this
      cases this
    · exact hQ

end

def twoPolicies : SessionPolicies where
  policies := [⟨⟨"0x2"⟩, "Beta"⟩, ⟨⟨"0xAB"⟩, "beta"⟩]
  maxFee := ⟨"0x0"⟩

def twoPoliciesRespelled : SessionPolicies where
  policies := [⟨⟨"0x0ab"⟩, "beta"⟩, ⟨⟨"2"⟩, "Beta"⟩]
  maxFee := ⟨"0x1"⟩

theorem canonicalize_listing_two :
    ((∃ e, canonicalizeSessionPolicies Crates.reference twoPolicies = .error e) ∧
      ∃ e, canonicalizeSessionPolicies Crates.reference twoPoliciesRespelled = .error e) ∨
    ∃ l, canonicalizeSessionPolicies Crates.reference twoPolicies = .ok l ∧
      canonicalizeSessionPolicies Crates.reference twoPoliciesRespelled = .ok l ∧
      (∀ publicKey rpcUrl keychainUrl preset,
        buildSessionRegistrationLongUrl Crates.reference publicKey twoPolicies rpcUrl keychainUrl preset =
          buildSessionRegistrationLongUrl Crates.reference publicKey twoPoliciesRespelled rpcUrl keychainUrl preset) ∧
      twoPolicies.tryInto Crates.reference = twoPoliciesRespelled.tryInto Crates.reference := by
  apply canonicalize_listing Crates.reference
  have h : twoPoliciesRespelled.policies.map (·.denotes Crates.reference) =
      (twoPolicies.policies.map (·.denotes Crates.reference)).reverse := by decide
  rw [h]
  exact (List.reverse_perm _).symm

def transferPolicies : SessionPolicies where
  policies := [⟨⟨"0x2"⟩, "transfer"⟩]
  maxFee := ⟨"0x0"⟩

theorem tryInto_transferPolicies : transferPolicies.tryInto Crates.reference =
    .ok [.newCall 2 0x83afd3f4caedc6eebf44246fe54e38c95e3179a5ec9ea81740eca5b482d12e] := by
  have hcanonical : canonicalizeSessionPolicies Crates.reference transferPolicies =
      .ok [.of 2 "transfer"] := by
    refine canonicalize_eq_ok_iff.2 ⟨List.pairwise_singleton _ _, _, ?_, List.Perm.refl _⟩
    exact .cons ⟨by decide, rfl⟩ .nil
  rw [SessionPolicies.tryInto, hcanonical]
  rfl

end ControllerUniffi
