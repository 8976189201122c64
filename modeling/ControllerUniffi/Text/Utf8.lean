import Mathlib.Data.Nat.Notation

/-!
# UTF-8

Text as bytes: the encoder and the error-replacing decoder of the Encoding Standard, as its byte-at-a-time
machine.  The key fact: decoding undoes encoding (`decode_encode`), so the bytes determine the text
(`encode_injective`).  Only U+0000 is encoded with a zero byte, so that the first of these is where the first of those
is (`takeWhile_encode`).
-/

namespace Text

/-- The UTF-8 bytes of a text. -/
def encode (s : List Char) : List UInt8 := s.flatMap String.utf8EncodeChar

/-- A started multi-byte sequence: the bits read, the continuation bytes still missing and the range the next of
them has to lie in. -/
structure Pending where
  bits : Nat
  missing : Nat
  lower : Nat
  upper : Nat

/-- The byte `b` at the start of a character: what is emitted, and the sequence it starts. -/
def startByte (b : Nat) : List Char × Option Pending :=
  if b < 0x80 then ([Char.ofNat b], none)
  else if 0xC2 ≤ b ∧ b ≤ 0xDF then ([], some ⟨b % 32, 1, 0x80, 0xBF⟩)
  else if 0xE0 ≤ b ∧ b ≤ 0xEF then
    ([], some ⟨b % 16, 2, if b = 0xE0 then 0xA0 else 0x80, if b = 0xED then 0x9F else 0xBF⟩)
  else if 0xF0 ≤ b ∧ b ≤ 0xF4 then
    ([], some ⟨b % 8, 3, if b = 0xF0 then 0x90 else 0x80, if b = 0xF4 then 0x8F else 0xBF⟩)
  else (['\uFFFD'], none)

/-- The decoder, from the sequence under way.  A byte out of range ends it with a replacement character and is
read again as the start of the next character. -/
def decodeFrom : Option Pending → List UInt8 → List Char
  | none, [] => []
  | some _, [] => ['\uFFFD']
  | none, b :: rest => (startByte b.toNat).1 ++ decodeFrom (startByte b.toNat).2 rest
  | some p, b :: rest =>
    if p.lower ≤ b.toNat ∧ b.toNat ≤ p.upper then
      if p.missing = 1 then Char.ofNat (p.bits * 64 + b.toNat % 64) :: decodeFrom none rest
      else decodeFrom (some ⟨p.bits * 64 + b.toNat % 64, p.missing - 1, 0x80, 0xBF⟩) rest
    else '\uFFFD' :: ((startByte b.toNat).1 ++ decodeFrom (startByte b.toNat).2 rest)

/-- UTF-8 decode without BOM. -/
def decode (bytes : List UInt8) : List Char := decodeFrom none bytes

@[simp] theorem encode_nil : encode [] = [] := rfl

@[simp] theorem encode_cons (c : Char) (s : List Char) :
    encode (c :: s) = String.utf8EncodeChar c ++ encode s := rfl

@[simp] theorem encode_append (s t : List Char) : encode (s ++ t) = encode s ++ encode t :=
  List.flatMap_append

theorem encode_ascii_cons {c : Char} (h : c.toNat < 0x80) (s : List Char) :
    encode (c :: s) = UInt8.ofNat c.toNat :: encode s := by
  simp [String.utf8EncodeChar, show c.toNat ≤ 127 by omega]

private theorem toNat_ofNat_byte {n : Nat} (h : n < 256) : (UInt8.ofNat n).toNat = n := by
  simp [UInt8.toNat_ofNat', Nat.mod_eq_of_lt h]

/-- One continuation byte, not the last. -/
private theorem decodeFrom_more {p : Pending} {n : Nat} (rest : List UInt8) (hn : n < 256)
    (hlo : p.lower ≤ n) (hhi : n ≤ p.upper) (hm : p.missing ≠ 1) :
    decodeFrom (some p) (UInt8.ofNat n :: rest) =
      decodeFrom (some ⟨p.bits * 64 + n % 64, p.missing - 1, 0x80, 0xBF⟩) rest := by
  simp only [decodeFrom, toNat_ofNat_byte hn, hlo, hhi, hm, and_self, ↓reduceIte]

/-- The last continuation byte. -/
private theorem decodeFrom_last {p : Pending} {n : Nat} (rest : List UInt8) (hn : n < 256)
    (hlo : p.lower ≤ n) (hhi : n ≤ p.upper) (hm : p.missing = 1) :
    decodeFrom (some p) (UInt8.ofNat n :: rest) =
      Char.ofNat (p.bits * 64 + n % 64) :: decodeFrom none rest := by
  simp only [decodeFrom, toNat_ofNat_byte hn, hlo, hhi, hm, and_self, ↓reduceIte]

private theorem char_ranges (c : Char) : c.toNat < 0xD800 ∨ (0xDFFF < c.toNat ∧ c.toNat < 0x110000) := by
  have := c.valid
  simp only [UInt32.isValidChar, Nat.isValidChar] at this
  exact this

private theorem decodeFrom_start {n : Nat} (rest : List UInt8) (hn : n < 256) {p : Pending}
    (h : startByte n = ([], some p)) : decodeFrom none (UInt8.ofNat n :: rest) = decodeFrom (some p) rest := by
  rw [decodeFrom, toNat_ofNat_byte hn, h]
  rfl

private theorem startByte_two {b : Nat} (h : 0xC2 ≤ b ∧ b ≤ 0xDF) :
    startByte b = ([], some ⟨b % 32, 1, 0x80, 0xBF⟩) := by
  simp only [startByte, show ¬ b < 0x80 by omega, h, ↓reduceIte, and_self]

private theorem startByte_three {b : Nat} (h : 0xE0 ≤ b ∧ b ≤ 0xEF) :
    startByte b = ([], some ⟨b % 16, 2, if b = 0xE0 then 0xA0 else 0x80, if b = 0xED then 0x9F else 0xBF⟩) := by
  simp only [startByte, show ¬ b < 0x80 by omega, show ¬ (0xC2 ≤ b ∧ b ≤ 0xDF) by omega, h, ↓reduceIte, and_self]

private theorem startByte_four {b : Nat} (h : 0xF0 ≤ b ∧ b ≤ 0xF4) :
    startByte b = ([], some ⟨b % 8, 3, if b = 0xF0 then 0x90 else 0x80, if b = 0xF4 then 0x8F else 0xBF⟩) := by
  simp only [startByte, show ¬ b < 0x80 by omega, show ¬ (0xC2 ≤ b ∧ b ≤ 0xDF) by omega,
    show ¬ (0xE0 ≤ b ∧ b ≤ 0xEF) by omega, h, ↓reduceIte, and_self]

/-- The bytes of one character are read as that character, whatever follows. -/
private theorem decodeFrom_encodeChar (c : Char) (rest : List UInt8) :
    decodeFrom none (String.utf8EncodeChar c ++ rest) = c :: decodeFrom none rest := by
  have hc := char_ranges c
  have hof : Char.ofNat c.toNat = c := Char.ofNat_toNat c
  have hv : c.val.toNat = c.toNat := rfl
  unfold String.utf8EncodeChar
  simp only [hv]
  generalize c.toNat = v at *
  split
  · -- one byte
    simp only [List.cons_append, List.nil_append, decodeFrom, toNat_ofNat_byte (show v < 256 by omega),
      startByte, show v < 0x80 by omega, ↓reduceIte, hof]
  split
  · -- two bytes
    rw [List.cons_append, decodeFrom_start _ (by omega) (startByte_two (by omega)), List.cons_append,
      decodeFrom_last _ (by omega) (by dsimp only; omega) (by dsimp only; omega) rfl]
    dsimp only
    rw [show (v / 64 % 32 + 192) % 32 * 64 + (v % 64 + 128) % 64 = v by omega, hof]
    rfl
  split
  · -- three bytes: the second is bounded by the lead byte, as `v` is neither overlong nor a surrogate
    rw [List.cons_append, decodeFrom_start _ (by omega) (startByte_three (by omega)), List.cons_append,
      decodeFrom_more _ (by omega) (by dsimp only; split <;> omega) (by dsimp only; split <;> omega) (by simp),
      List.cons_append, decodeFrom_last _ (by omega) (by dsimp only; omega) (by dsimp only; omega) rfl]
    dsimp only
    rw [show ((v / 4096 % 16 + 224) % 16 * 64 + (v / 64 % 64 + 128) % 64) * 64 + (v % 64 + 128) % 64 = v by omega,
      hof]
    rfl
  · -- four bytes
    rw [List.cons_append, decodeFrom_start _ (by omega) (startByte_four (by omega)), List.cons_append,
      decodeFrom_more _ (by omega) (by dsimp only; split <;> omega) (by dsimp only; split <;> omega) (by simp),
      List.cons_append,
      decodeFrom_more _ (by omega) (by dsimp only; omega) (by dsimp only; omega) (by simp), List.cons_append,
      decodeFrom_last _ (by omega) (by dsimp only; omega) (by dsimp only; omega) rfl]
    dsimp only
    rw [show (((v / 262144 % 8 + 240) % 8 * 64 + (v / 4096 % 64 + 128) % 64) * 64 + (v / 64 % 64 + 128) % 64) * 64 +
      (v % 64 + 128) % 64 = v by omega, hof]
    rfl

/-- Decoding the bytes of a text gives the text back. -/
theorem decode_encode (s : List Char) : decode (encode s) = s := by
  induction s with
  | nil => rfl
  | cons c s ih =>
    rw [encode_cons, decode, decodeFrom_encodeChar]
    exact congrArg (c :: ·) ih

/-- Different texts have different bytes. -/
theorem encode_injective : Function.Injective encode := by
  intro s t h
  rw [← decode_encode s, h, decode_encode]

/-! ### Zero bytes -/

private theorem ofNat_byte_ne_zero {n : Nat} (hpos : 0 < n) (h : n < 256) : UInt8.ofNat n ≠ 0 := by
  intro hzero
  have hn := toNat_ofNat_byte h
  rw [hzero] at hn
  change 0 = n at hn
  omega

private theorem encodeChar_ne_zero {c : Char} (hc : c ≠ '\x00') : ∀ b ∈ String.utf8EncodeChar c, b ≠ 0 := by
  have hpos : 0 < c.val.toNat := Nat.pos_of_ne_zero fun hzero => hc (Char.ext (UInt32.toNat_inj.mp hzero))
  unfold String.utf8EncodeChar
  dsimp only
  -- the byte of a character below 0x80 is its number, and in a longer sequence every byte has its high bit set
  repeat' split
  all_goals
    simp only [List.forall_mem_cons, List.not_mem_nil, false_imp_iff, implies_true, and_true]
    and_intros
    all_goals exact ofNat_byte_ne_zero (by omega) (by omega)

/-- The bytes before the first zero byte are those of the text before the first U+0000. -/
theorem takeWhile_encode (s : List Char) :
    (encode s).takeWhile (fun b => decide (b ≠ 0)) = encode (s.takeWhile fun c => decide (c ≠ '\x00')) := by
  induction s with
  | nil => rfl
  | cons c s ih =>
    by_cases hc : c = '\x00'
    · subst hc
      rfl
    · rw [encode_cons, List.takeWhile_append_of_pos, ih, List.takeWhile_cons_of_pos (by simpa using hc), encode_cons]
      intro b hb
      exact decide_eq_true (encodeChar_ne_zero hc b hb)

end Text
