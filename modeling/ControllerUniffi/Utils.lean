import ControllerUniffi.Canonical
import ControllerUniffi.Submission

/-!
# Utility functions

Functions of the interface that read one field element.  `validateFelt` only looks at the first two characters, so a
text that it accepts is a field element iff it is a numeral behind a lowercase `0x` that `from_hex` can read
(`validateFelt_sound_iff`).
-/

namespace ControllerUniffi

open Text Collect

def validateFelt (felt : String) : Except ControllerError Bool :=
  if "0x".toList <+: felt.toList ∨ "0X".toList <+: felt.toList then .ok true
  else .error (.invalidInput ("Invalid FieldElement: " ++ felt))

section

variable (T : Crates) {Session AbigenSigner : Type} (S : SessionSdk Session AbigenSigner)

def getPublicKey (privateKey : ControllerFieldElement) : Outcome ControllerFieldElement := do
  let felt ← .ofExcept ((T.fromHex privateKey.value).mapError .invalidInput)
  let publicKey ← .ofOption (T.getPublicKey felt)
  return ⟨feltLowerHex publicKey⟩

def signerToGuid (privateKey : ControllerFieldElement) : Outcome ControllerFieldElement := do
  let felt ← .ofExcept ((T.fromHex privateKey.value).mapError .invalidInput)
  let guid ← .ofOption (S.signerGuid (.starknet { secretScalar := felt }))
  return ⟨feltLowerHex guid⟩

end

/-! ### What `from_hex` reads -/

/-- `from_hex` reads hexadecimal numerals behind an optional lowercase `0x`, with at most `maxDigits` digits and a
value below `bound`, and nothing else. -/
def Crates.ReadsHexOnly (T : Crates) (maxDigits bound : Nat) : Prop :=
  ∀ s, (∃ f, T.fromHex s = .ok f) ↔
    ∃ digits n, (s.toList = digits ∨ s.toList = '0' :: 'x' :: digits) ∧ digits.length ≤ maxDigits ∧
      hexValue digits = some n ∧ n < bound

/-- A numeral has no second character `x` or `X`. -/
private theorem hexValue_marked {c : Char} (h : hexVal c = none) (s : List Char) : hexValue ('0' :: c :: s) = none := by
  have h0 : hexVal '0' = some 0 := rfl
  simp only [hexValue, hexValueFrom, h0, h]

/-- Behind a `0x` or `0X`, only the former is taken off. -/
theorem Crates.ReadsHexOnly.of_prefix {T : Crates} {maxDigits bound : Nat} (h : T.ReadsHexOnly maxDigits bound)
    {s : String} (hs : "0x".toList <+: s.toList ∨ "0X".toList <+: s.toList) :
    (∃ f, T.fromHex s = .ok f) ↔
      ∃ digits n, s.toList = '0' :: 'x' :: digits ∧ digits.length ≤ maxDigits ∧ hexValue digits = some n ∧ n < bound := by
  rw [h s]
  constructor
  · rintro ⟨digits, n, hdigits | hdigits, hlen, hvalue, hn⟩
    · -- the whole text would be a numeral
      rcases hs with ⟨t, ht⟩ | ⟨t, ht⟩
      · rw [← hdigits, ← ht] at hvalue
        exact absurd (hvalue.symm.trans (hexValue_marked (c := 'x') rfl t)) (by simp)
      · rw [← hdigits, ← ht] at hvalue
        exact absurd (hvalue.symm.trans (hexValue_marked (c := 'X') rfl t)) (by simp)
    · exact ⟨digits, n, hdigits, hlen, hvalue, hn⟩
  · rintro ⟨digits, n, hdigits, hlen, hvalue, hn⟩
    exact ⟨digits, n, .inr hdigits, hlen, hvalue, hn⟩

/-! ### Where a field element is expected -/

section

variable (T : Crates) {Session AbigenSigner State : Type} (S : SessionSdk Session AbigenSigner) (C : ControllerSdk State)

/-- Wherever the text stands for a field element, it is not what a call is refused for. -/
structure AcceptedAsFelt (s : String) : Prop where
  fromHex : ∃ f, T.fromHex s = .ok f
  publicKey : ∀ e, getPublicKey T ⟨s⟩ ≠ .err e
  guid : ∀ e, signerToGuid T S ⟨s⟩ ≠ .err e
  owner : ∃ owner, Owner.new T s = .ok owner
  callAddress : ∀ (call : Call) e, call.contractAddress.value = s → call.tryInto T = .error e →
    (∀ f, T.getSelectorFromName call.entrypoint ≠ .ok f) ∨ ∃ t ∈ call.calldata, ∀ f, T.fromHex t.value ≠ .ok f
  calldata : ∀ (call : Call) e, call.tryInto T = .error e →
    (∀ f, T.fromHex call.contractAddress.value ≠ .ok f) ∨ (∀ f, T.getSelectorFromName call.entrypoint ≠ .ok f) ∨
      ∃ t ∈ call.calldata, t.value ≠ s ∧ ∀ f, T.fromHex t.value ≠ .ok f
  policyAddress : ∀ policy : SessionPolicy, policy.contractAddress.value = s → ∃ c, canonicalPolicy T policy = .ok c
  recipient : ∀ inner amount e, (ControllerAccount.transfer T C inner ⟨s⟩ amount).outcome = .err (.invalidInput e) →
    T.fromHex amount.value = .error e
  amount : ∀ inner recipient e, (ControllerAccount.transfer T C inner recipient ⟨s⟩).outcome = .err (.invalidInput e) →
    T.fromHex recipient.value = .error e

end

section

variable {T : Crates} {Session AbigenSigner State : Type} {S : SessionSdk Session AbigenSigner}
  {C : ControllerSdk State}

/-- A transfer is refused as an invalid input for its recipient or for its amount. -/
theorem transfer_invalidInput {inner : ControllerInner State} {recipient amount : ControllerFieldElement} {e : String}
    (h : (ControllerAccount.transfer T C inner recipient amount).outcome = .err (.invalidInput e)) :
    T.fromHex recipient.value = .error e ∨ T.fromHex amount.value = .error e := by
  unfold ControllerAccount.transfer at h
  cases hrecipient : T.fromHex recipient.value with
  | error d =>
    simp only [hrecipient, ControllerAccount.refuse] at h
    cases h
    exact .inl rfl
  | ok f =>
    cases hamount : T.fromHex amount.value with
    | error d =>
      simp only [hrecipient, hamount, ControllerAccount.refuse] at h
      cases h
      exact .inr rfl
    | ok g =>
      -- what fails after the arguments is not an invalid input
      simp only [hrecipient, hamount] at h
      split at h
      · cases h
      · unfold ControllerAccount.conclude at h
        dsimp only at h
        split at h <;> cases h

/-- What `from_hex` reads is accepted everywhere. -/
theorem acceptedAsFelt_of_fromHex {s : String} {f : Felt} (h : T.fromHex s = .ok f) : AcceptedAsFelt T S C s where
  fromHex := ⟨f, h⟩
  publicKey e he := by
    rcases Outcome.bind_eq_err_iff.1 he with he | ⟨_, _, he⟩
    · rw [h] at he
      cases he
    rcases Outcome.bind_eq_err_iff.1 he with he | ⟨_, _, he⟩
    · exact Outcome.ofOption_ne_err he
    · cases he
  guid e he := by
    rcases Outcome.bind_eq_err_iff.1 he with he | ⟨_, _, he⟩
    · rw [h] at he
      cases he
    rcases Outcome.bind_eq_err_iff.1 he with he | ⟨_, _, he⟩
    · exact Outcome.ofOption_ne_err he
    · cases he
  owner := by
    refine ⟨{ inner := .signer (.starknet { secretScalar := f }) }, ?_⟩
    rw [Owner.new, h]
    rfl
  callAddress call e hs he := by
    rcases Call.rejected_iff.2 ⟨e, he⟩ with hrefused | hrefused | hrefused
    · rw [hs] at hrefused
      exact absurd h (hrefused f)
    · exact .inl hrefused
    · exact .inr hrefused
  calldata call e he := by
    rcases Call.rejected_iff.2 ⟨e, he⟩ with hrefused | hrefused | ⟨t, ht, hrefused⟩
    · exact .inl hrefused
    · exact .inr (.inl hrefused)
    · refine .inr (.inr ⟨t, ht, ?_, hrefused⟩)
      intro hs
      rw [hs] at hrefused
      exact hrefused f h
  policyAddress policy hs := by
    refine ⟨.of f policy.entrypoint, canonicalPolicy_eq_ok_iff.2 ⟨?_, rfl⟩⟩
    rw [hs]
    exact h
  recipient inner amount e he := by
    rcases transfer_invalidInput he with hrecipient | hamount
    · cases h.symm.trans hrecipient
    · exact hamount
  amount inner recipient e he := by
    rcases transfer_invalidInput he with hrecipient | hamount
    · exact hrecipient
    · cases h.symm.trans hamount

end

section

variable (T : Crates) {Session AbigenSigner State : Type} (S : SessionSdk Session AbigenSigner) (C : ControllerSdk State)

/-- A text that `validate_felt` accepts is accepted as a field element everywhere, iff the text has neither of the two
prefixes, or it is a readable numeral behind a lowercase one. -/
theorem validateFelt_sound_iff {maxDigits bound : Nat} (hhex : T.ReadsHexOnly maxDigits bound) (s : String) :
    (validateFelt s = .ok true → AcceptedAsFelt T S C s) ↔
      ¬ ("0x".toList <+: s.toList ∨ "0X".toList <+: s.toList) ∨
      ∃ digits n, s.toList = '0' :: 'x' :: digits ∧ digits.length ≤ maxDigits ∧ hexValue digits = some n ∧ n < bound := by
  by_cases hs : "0x".toList <+: s.toList ∨ "0X".toList <+: s.toList
  · have hvalid : validateFelt s = .ok true := if_pos hs
    rw [← hhex.of_prefix hs]
    constructor
    · intro h
      exact .inr (h hvalid).fromHex
    · rintro (h | ⟨f, hf⟩) _
      · exact absurd hs h
      · exact acceptedAsFelt_of_fromHex hf
  · constructor
    · intro _
      exact .inl hs
    · intro _ hvalid
      rw [validateFelt, if_neg hs] at hvalid
      cases hvalid

end

namespace Reference

private theorem fromHex_digits_iff (digits : List Char) :
    (∃ f, (match hexValue digits with
      | some n => if digits.length ≤ 64 then .ok (Fin.ofNat feltPrime n) else .error "failed to create Felt from string"
      | none => .error "failed to create Felt from string" : Except String Felt) = .ok f) ↔
    digits.length ≤ 64 ∧ ∃ n, hexValue digits = some n := by
  cases hexValue digits with
  | none => simp
  | some n =>
    by_cases hlen : digits.length ≤ 64
    · simp [hlen]
    · simp [hlen]

/-- The reference parser reads up to 64 digits of any value. -/
theorem readsHexOnly : Crates.reference.ReadsHexOnly 64 (16 ^ 64) := by
  intro s
  show (∃ f, fromHex s = .ok f) ↔ _
  have hbound : ∀ digits : List Char, (digits.length ≤ 64 ∧ ∃ n, hexValue digits = some n) ↔
      ∃ n, digits.length ≤ 64 ∧ hexValue digits = some n ∧ n < 16 ^ 64 := by
    intro digits
    constructor
    · rintro ⟨hlen, n, hn⟩
      exact ⟨n, hlen, hn, Nat.lt_of_lt_of_le (hexValue_lt hn) (Nat.pow_le_pow_right (by decide) hlen)⟩
    · rintro ⟨n, hlen, hn, _⟩
      exact ⟨hlen, n, hn⟩
  refine (fromHex_digits_iff _).trans ?_
  generalize s.toList = text
  split
  · rename_i d ds
    rw [hbound]
    constructor
    · rintro ⟨n, h⟩
      exact ⟨d :: ds, n, .inr rfl, h⟩
    · rintro ⟨digits, n, rfl | hdigits, hlen, hn, hlt⟩
      · rw [hexValue_marked (c := 'x') rfl] at hn
        cases hn
      · cases hdigits
        exact ⟨n, hlen, hn, hlt⟩
  · rename_i hmark
    rw [hbound]
    constructor
    · rintro ⟨n, h⟩
      exact ⟨text, n, .inl rfl, h⟩
    · rintro ⟨digits, n, rfl | hdigits, hlen, hn, hlt⟩
      · exact ⟨n, hlen, hn, hlt⟩
      · -- there would be no digit behind the mark
        cases digits with
        | nil => cases hn
        | cons d ds => exact absurd hdigits (hmark d ds)

end Reference

theorem validateFelt_sound_iff_marked :
    (validateFelt "0x1F" = .ok true → AcceptedAsFelt Crates.reference SessionSdk.reference ControllerSdk.reference "0x1F") ↔
      ¬ ("0x".toList <+: "0x1F".toList ∨ "0X".toList <+: "0x1F".toList) ∨
      ∃ digits n, "0x1F".toList = '0' :: 'x' :: digits ∧ digits.length ≤ 64 ∧ hexValue digits = some n ∧ n < 16 ^ 64 :=
  validateFelt_sound_iff Crates.reference SessionSdk.reference ControllerSdk.reference Reference.readsHexOnly "0x1F"

/-- Any text behind the mark is valid, and none of it needs to be a digit. -/
theorem validateFelt_zz :
    ¬ (validateFelt "0xzz" = .ok true →
      AcceptedAsFelt Crates.reference SessionSdk.reference ControllerSdk.reference "0xzz") := by
  intro h
  obtain ⟨f, hf⟩ := (h (by decide)).fromHex
  have herror : Crates.reference.fromHex "0xzz" = .error "failed to create Felt from string" := by decide
  rw [herror] at hf
  cases hf

end ControllerUniffi
