import ControllerUniffi.Canonical
import ControllerUniffi.Text.HexOrder

/-!
# The canonical list is sorted by numeric address

The padded texts of addresses are ordered like the addresses (`cmpStr_feltPaddedHex`), so the order of the canonical
list is numeric (`cmpCanonical_eq`).  It is a total order, and the canonical list is the one list in that order with
the entries that stand for the policies (`canonicalize_sorts`).
-/

namespace ControllerUniffi

open Text Collect SortBy Std

theorem feltPrime_lt : feltPrime < 2 ^ 252 := by decide

theorem encode_feltPaddedHex (f : Felt) : encode (feltPaddedHex f).toList = [0x30, 0x78] ++ encode (paddedHex 64 f.val) := by
  have hx : ('x' : Char).toNat < 0x80 := by decide
  have h0 : ('0' : Char).toNat < 0x80 := by decide
  rw [feltPaddedHex, String.toList_ofList, encode_ascii_cons h0, encode_ascii_cons hx]
  rfl

/-- The padded texts of addresses are ordered like the addresses. -/
theorem cmpStr_feltPaddedHex (f g : Felt) : cmpStr (feltPaddedHex f) (feltPaddedHex g) = compare f.val g.val := by
  have hprefix : compare ([0x30, 0x78] : List UInt8) [0x30, 0x78] = .eq := ReflCmp.compare_self
  rw [cmpStr, encode_feltPaddedHex, encode_feltPaddedHex, compare_append rfl, hprefix, Ordering.eq_then]
  exact compare_paddedHex (by decide) (felt_lt_pow f) (felt_lt_pow g)

/-- Numeric address, then the entrypoint without letter case, then the entrypoint. -/
def cmpNumeric (a b : CanonicalSessionPolicy) : Ordering :=
  ((compare a.contractAddress.val b.contractAddress.val).then
    (cmpStr (toAsciiLowercase a.entrypoint) (toAsciiLowercase b.entrypoint))).then
    (cmpStr a.entrypoint b.entrypoint)

theorem cmpCanonical_eq : cmpCanonical = cmpNumeric := by
  funext a b
  rw [cmpCanonical, cmpNumeric, a.hex_eq, b.hex_eq, cmpStr_feltPaddedHex]

/-- Each entry is at most the next one. -/
def Ascending (l : List CanonicalSessionPolicy) : Prop := l.IsChain fun a b => (cmpNumeric a b).isLE = true

/-- In a transitive order it is enough to compare neighbours. -/
theorem ascending_iff {l : List CanonicalSessionPolicy} : Ascending l ↔ Sorted cmpCanonical l := by
  have : IsTrans CanonicalSessionPolicy fun a b => (cmpCanonical a b).isLE = true :=
    ⟨fun _ _ _ hab hbc => TransCmp.isLE_trans hab hbc⟩
  unfold Ascending Sorted
  rw [← cmpCanonical_eq]
  exact List.isChain_iff_pairwise

section

variable (T : Crates)

/-- Canonicalization fails iff some address does not parse.  Otherwise its result is the one list that has the
entries for the policies and is ascending by numeric address, lowercased entrypoint and entrypoint; the order of the
code is this order, and it is total. -/
theorem canonicalize_sorts (P : SessionPolicies) :
    ((∃ e, canonicalizeSessionPolicies T P = .error e) ↔
      ∃ p ∈ P.policies, ∀ f, T.fromHex p.contractAddress.value ≠ .ok f) ∧
    ((∀ p ∈ P.policies, ∃ f, T.fromHex p.contractAddress.value = .ok f) →
      ∃ entries l, List.Forall₂ (Stands T) P.policies entries ∧ canonicalizeSessionPolicies T P = .ok l ∧
        l.Perm entries ∧ Ascending l ∧ ∀ m, m.Perm entries → Ascending m → m = l) ∧
    (feltPrime < 2 ^ 252 ∧ ∀ f g : Felt, cmpStr (feltPaddedHex f) (feltPaddedHex g) = compare f.val g.val) ∧
    cmpCanonical = cmpNumeric ∧
    (∀ a b, cmpCanonical b a = (cmpCanonical a b).swap) ∧
    (∀ a b c, (cmpCanonical a b).isLE = true → (cmpCanonical b c).isLE = true → (cmpCanonical a c).isLE = true) ∧
    ∀ a b, cmpCanonical a b = .eq ↔ a = b := by
  refine ⟨?_, ?_, ⟨feltPrime_lt, cmpStr_feltPaddedHex⟩, cmpCanonical_eq, ?_, ?_, ?_⟩
  · rw [exists_error_iff, exists_canonicalize_iff]
    simp only [not_forall, not_exists, exists_prop, ne_eq]
  · intro haddr
    obtain ⟨l, hl⟩ := exists_canonicalize_iff.2 haddr
    obtain ⟨hsorted, entries, hentries, hperm⟩ := canonicalize_eq_ok_iff.1 hl
    refine ⟨entries, l, hentries, hl, hperm, ascending_iff.2 hsorted, ?_⟩
    intro m hm hascending
    exact (ascending_iff.1 hascending).eq_of_perm hsorted (hm.trans hperm.symm)
  · intro a b
    exact OrientedCmp.eq_swap
  · intro a b c hab hbc
    exact TransCmp.isLE_trans hab hbc
  · intro a b
    constructor
    · intro h
      exact LawfulEqCmp.eq_of_compare h
    · rintro rfl
      exact ReflCmp.compare_self

end

end ControllerUniffi
