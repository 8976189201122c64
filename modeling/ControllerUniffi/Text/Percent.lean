import ControllerUniffi.Text.Basic
import ControllerUniffi.Text.Hex
import ControllerUniffi.Text.Utf8

/-!
# Percent-encoding

Percent-encoding of bytes and of the code points of a given set, and percent-decoding.  The key fact: decoding
undoes the encoding of a byte whatever follows it (`percentDecode_byte`); the encoder emits only characters it was
given, `%` and uppercase hexadecimal digits (`mem_percentEncode`).
-/

namespace Text

/-- The uppercase digit of value `d`. -/
def upperDigit (d : Nat) : Char := d.digitChar.toUpper

/-- Percent-encode a byte. -/
def percentByte (b : UInt8) : List Char := ['%', upperDigit (b.toNat / 16), upperDigit (b.toNat % 16)]

/-- UTF-8 percent-encode a text using the set of code points `set`. -/
def percentEncode (set : Char → Bool) (s : List Char) : List Char :=
  s.flatMap fun c => if set c then (String.utf8EncodeChar c).flatMap percentByte else [c]

/-- Percent-decode a byte sequence: a `%` not followed by two digits stands for itself. -/
def percentDecode : List UInt8 → List UInt8
  | [] => []
  | [a] => [a]
  | [a, b] => [a, b]
  | a :: b :: c :: rest =>
    if a = 0x25 then
      match hexVal (Char.ofNat b.toNat), hexVal (Char.ofNat c.toNat) with
      | some hi, some lo => UInt8.ofNat (16 * hi + lo) :: percentDecode rest
      | _, _ => a :: percentDecode (b :: c :: rest)
    else a :: percentDecode (b :: c :: rest)

theorem hexVal_upperDigit {d : Nat} (h : d < 16) : hexVal (upperDigit d) = some d := by
  have key : ∀ d : Fin 16, hexVal (upperDigit d) = some d.val := by decide
  exact key ⟨d, h⟩

/-- The characters of percent-encoded bytes. -/
def IsPercentChar (c : Char) : Prop := c = '%' ∨ ∃ d < 16, c = upperDigit d

theorem isPercentChar_of_mem_percentByte {b : UInt8} {c : Char} (h : c ∈ percentByte b) : IsPercentChar c := by
  have hb : b.toNat < 256 := b.toNat_lt
  simp only [percentByte, List.mem_cons, List.not_mem_nil, or_false] at h
  rcases h with h | h | h
  · exact Or.inl h
  · exact Or.inr ⟨_, by omega, h⟩
  · exact Or.inr ⟨_, by omega, h⟩

/-- So no delimiter of a URL or of a query is a character of percent-encoded bytes. -/
theorem IsPercentChar.alphanum_or {c : Char} (h : IsPercentChar c) : c = '%' ∨ c.isAlphanum = true := by
  rcases h with h | ⟨d, hd, rfl⟩
  · exact Or.inl h
  · have key : ∀ d : Fin 16, (upperDigit d).isAlphanum = true := by decide
    exact Or.inr (key ⟨d, hd⟩)

/-- The encoder adds nothing but the characters of percent-encoded bytes. -/
theorem mem_percentEncode {set : Char → Bool} {s : List Char} {c : Char} (h : c ∈ percentEncode set s) :
    c ∈ s ∨ IsPercentChar c := by
  obtain ⟨d, hd, hc⟩ := List.mem_flatMap.1 h
  by_cases hs : set d
  · simp only [hs, ↓reduceIte] at hc
    obtain ⟨b, _, hb⟩ := List.mem_flatMap.1 hc
    exact Or.inr (isPercentChar_of_mem_percentByte hb)
  · simp only [hs, Bool.false_eq_true, ↓reduceIte, List.mem_singleton] at hc
    exact Or.inl (hc ▸ hd)

theorem notMem_percentEncode {set : Char → Bool} {s : List Char} {c : Char} (hc : c ≠ '%' ∧ c.isAlphanum = false)
    (h : c ∉ s) : c ∉ percentEncode set s := by
  intro hmem
  rcases mem_percentEncode hmem with hs | hp
  · exact h hs
  · rcases hp.alphanum_or with he | ha
    · exact hc.1 he
    · rw [hc.2] at ha
      cases ha

theorem percentEncode_append (set : Char → Bool) (s t : List Char) :
    percentEncode set (s ++ t) = percentEncode set s ++ percentEncode set t :=
  List.flatMap_append

theorem percentEncode_ne_nil (set : Char → Bool) {s : List Char} (h : s ≠ []) : percentEncode set s ≠ [] := by
  obtain ⟨c, s, rfl⟩ := List.exists_cons_of_ne_nil h
  rw [percentEncode, List.flatMap_cons]
  intro hnil
  have hc := (List.append_eq_nil_iff.1 hnil).1
  split at hc
  · obtain ⟨b, bs, hb⟩ := List.exists_cons_of_ne_nil (String.utf8EncodeChar_ne_nil (c := c))
    rw [hb] at hc
    cases hc
  · cases hc

/-- A text without code points of the set is unchanged. -/
theorem percentEncode_eq_self {set : Char → Bool} {s : List Char} (h : ∀ c ∈ s, set c = false) :
    percentEncode set s = s := by
  induction s with
  | nil => rfl
  | cons c s ih =>
    have hc : set c = false := h c (by simp)
    have hs := ih fun d hd => h d (by simp [hd])
    simp only [percentEncode, List.flatMap_cons, hc, Bool.false_eq_true, ↓reduceIte] at hs ⊢
    rw [hs]
    rfl

/-- A text of ASCII characters is its own sequence of bytes. -/
theorem encode_ascii {s : List Char} (h : ∀ c ∈ s, c.toNat < 0x80) :
    encode s = s.map fun c => UInt8.ofNat c.toNat := by
  induction s with
  | nil => rfl
  | cons c s ih =>
    rw [encode_ascii_cons (h c (by simp)), ih fun d hd => h d (by simp [hd])]
    rfl

theorem percentByte_ascii {b : UInt8} : ∀ c ∈ percentByte b, c.toNat < 0x80 := by
  intro c hc
  rcases isPercentChar_of_mem_percentByte hc with rfl | ⟨d, hd, rfl⟩
  · decide
  · have key : ∀ d : Fin 16, (upperDigit d).toNat < 0x80 := by decide
    exact key ⟨d, hd⟩

/-- A byte other than `%` stands for itself. -/
theorem percentDecode_cons {a : UInt8} (h : a ≠ 0x25) (rest : List UInt8) :
    percentDecode (a :: rest) = a :: percentDecode rest := by
  rcases rest with _ | ⟨b, _ | ⟨c, rest⟩⟩
  · rfl
  · rfl
  · rw [percentDecode, if_neg h]

private theorem char_ofNat_upperDigit {d : Nat} (h : d < 16) :
    Char.ofNat (UInt8.ofNat (upperDigit d).toNat).toNat = upperDigit d := by
  have key : ∀ d : Fin 16, Char.ofNat (UInt8.ofNat (upperDigit d).toNat).toNat = upperDigit d := by decide
  exact key ⟨d, h⟩

/-- Decoding undoes the encoding of a byte, whatever follows. -/
theorem percentDecode_byte (b : UInt8) (rest : List UInt8) :
    percentDecode (encode (percentByte b) ++ rest) = b :: percentDecode rest := by
  have hb : b.toNat < 256 := b.toNat_lt
  have hhi : b.toNat / 16 < 16 := by omega
  have hlo : b.toNat % 16 < 16 := by omega
  rw [encode_ascii percentByte_ascii]
  show percentDecode (0x25 :: UInt8.ofNat (upperDigit (b.toNat / 16)).toNat ::
    UInt8.ofNat (upperDigit (b.toNat % 16)).toNat :: rest) = _
  rw [percentDecode, if_pos rfl, char_ofNat_upperDigit hhi, char_ofNat_upperDigit hlo, hexVal_upperDigit hhi,
    hexVal_upperDigit hlo]
  show UInt8.ofNat (16 * (b.toNat / 16) + b.toNat % 16) :: _ = _
  rw [Nat.div_add_mod, UInt8.ofNat_toNat]

end Text
