import Mathlib.Data.List.DropRight

/-!
# Texts

Operations on texts as lists of characters: ASCII letter case, removing a prefix, trimming repeated suffixes.  A
property of ASCII characters is checked on the 128 of them (`forall_ascii`).
-/

namespace Text

/-- The text with the ASCII capitals replaced by small letters. -/
def lower (s : List Char) : List Char := s.map Char.toLower

/-- Equality up to ASCII letter case. -/
def eqIgnoreCase (s t : List Char) : Bool := lower s = lower t

/-- The text behind the prefix `p`. -/
def dropPrefix? (p s : List Char) : Option (List Char) := if p <+: s then some (s.drop p.length) else none

/-- Remove the character `c` from the end as often as it stands there. -/
def trimEnd (c : Char) (s : List Char) : List Char := s.rdropWhile (· = c)

/-- Remove the suffix `p` as often as it stands at the end, at most `fuel` times. -/
def trimEndMatchesAux (p : List Char) : Nat → List Char → List Char
  | 0, s => s
  | fuel + 1, s => if p <:+ s then trimEndMatchesAux p fuel (s.take (s.length - p.length)) else s

/-- Remove the suffix `p` as often as it stands at the end. -/
def trimEndMatches (p s : List Char) : List Char := trimEndMatchesAux p s.length s

/-- A property of the characters or bytes of a fixed text is checked on them one by one. -/
theorem forall_mem_of_all {α : Type} {P : α → Prop} [DecidablePred P] {l : List α}
    (h : l.all (fun a => decide (P a)) = true) : ∀ a ∈ l, P a :=
  fun a ha => of_decide_eq_true (List.all_eq_true.1 h a ha)

theorem forall_ascii {P : Char → Prop} (h : ∀ n < 0x80, P (Char.ofNat n)) {c : Char} (hc : c.toNat < 0x80) : P c := by
  have := h c.toNat hc
  rwa [Char.ofNat_toNat] at this

theorem ascii_of_isAlphanum {c : Char} (h : c.isAlphanum = true) : c.toNat < 0x80 := by
  change (decide (c.val ≥ 'A'.val ∧ c.val ≤ 'Z'.val) || (decide (c.val ≥ 'a'.val) && decide (c.val ≤ 'z'.val)) ||
    (decide (c.val ≥ '0'.val) && decide (c.val ≤ '9'.val))) = true at h
  simp only [Bool.or_eq_true, Bool.and_eq_true, decide_eq_true_eq, UInt32.le_iff_toNat_le] at h
  have hZ : 'Z'.val.toNat = 90 := rfl
  have hz : 'z'.val.toNat = 122 := rfl
  have h9 : '9'.val.toNat = 57 := rfl
  have hc : c.val.toNat = c.toNat := rfl
  omega

theorem ascii_of_toLower {c : Char} (h : c.toLower.toNat < 0x80) : c.toNat < 0x80 := by
  unfold Char.toLower at h
  split at h
  · rename_i hupper
    have : c.val.toNat ≤ 90 := UInt32.le_iff_toNat_le.1 hupper.2
    exact Nat.lt_of_le_of_lt this (by decide)
  · exact h

theorem isAlpha_of_toLower {c : Char} (h : c.toLower.isAlpha = true) : c.isAlpha = true := by
  have hlower : c.toLower.isAlphanum = true := by rw [Char.isAlphanum, h, Bool.true_or]
  have hascii : c.toNat < 0x80 := ascii_of_toLower (ascii_of_isAlphanum hlower)
  exact forall_ascii (P := fun c => c.toLower.isAlpha = true → c.isAlpha = true) (by decide +kernel) hascii h

theorem isAlpha_of_lower {s : List Char} (h : ∀ c ∈ lower s, c.isAlpha = true) : ∀ c ∈ s, c.isAlpha = true :=
  fun c hc => isAlpha_of_toLower (h c.toLower (List.mem_map_of_mem hc))

theorem dropPrefix?_append (p s : List Char) : dropPrefix? p (p ++ s) = some s := by
  rw [dropPrefix?, if_pos (List.prefix_append p s), List.drop_left]

theorem eq_append_of_dropPrefix? {p s t : List Char} (h : dropPrefix? p s = some t) : s = p ++ t := by
  unfold dropPrefix? at h
  split at h
  · rename_i hp
    obtain ⟨r, rfl⟩ := hp
    cases h
    rw [List.drop_left]
  · cases h

end Text
