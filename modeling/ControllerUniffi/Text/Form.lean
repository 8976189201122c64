import ControllerUniffi.Text.Basic
import ControllerUniffi.Text.Percent

/-!
# `application/x-www-form-urlencoded`

The serializer of name-value pairs and the parser of queries.  Three facts carry the round trip: parsing splits at
every `&` (`parse_append`), the serializer emits letters, digits and a few marks only (`mem_serializePair`), and a
serialized text is read back byte by byte (`decodeField_serializeText`).
-/

namespace Text.Form

/-- The bytes that are written as themselves. -/
def isPlain (b : UInt8) : Bool :=
  (Char.ofNat b.toNat).isAlphanum || b = 0x2A || b = 0x2D || b = 0x2E || b = 0x5F

/-- The byte serializer: plain bytes stand for themselves, a space is `+`, the rest is percent-encoded. -/
def serializeByte (b : UInt8) : List Char :=
  if isPlain b then [Char.ofNat b.toNat]
  else if b = 0x20 then ['+']
  else percentByte b

def serializeText (s : List Char) : List Char := (encode s).flatMap serializeByte

/-- A serialized pair. -/
def serializePair (name value : List Char) : List Char := serializeText name ++ '=' :: serializeText value

/-- `+` stands for a space. -/
def plusToSpace (b : UInt8) : UInt8 := if b = 0x2B then 0x20 else b

/-- A name or a value, read back from its bytes. -/
def decodeField (bytes : List UInt8) : List Char := decode (percentDecode (bytes.map plusToSpace))

/-- A sequence between two `&`: the name ends at the first `=`. -/
def parsePair (bytes : List UInt8) : List Char × List Char :=
  (decodeField (bytes.takeWhile (· ≠ 0x3D)), decodeField ((bytes.dropWhile (· ≠ 0x3D)).drop 1))

/-- The parser: the non-empty sequences between the `&`s. -/
def parse (bytes : List UInt8) : List (List Char × List Char) :=
  ((bytes.splitOn 0x26).filter (· ≠ [])).map parsePair

@[simp] theorem parse_nil : parse [] = [] := rfl

/-- The parser works on both sides of a `&` separately. -/
theorem parse_append (p q : List UInt8) : parse (p ++ 0x26 :: q) = parse p ++ parse q := by
  simp only [parse, List.splitOn_append_cons_self, List.filter_append, List.map_append]

private theorem forall_byte {P : UInt8 → Prop} (h : ∀ n < 256, P (UInt8.ofNat n)) (b : UInt8) : P b := by
  have hb := h b.toNat b.toNat_lt
  rwa [UInt8.ofNat_toNat] at hb

/-- What the serializer emits: alphanumeric characters, `%` and the marks. -/
theorem mem_serializeByte {b : UInt8} {c : Char} (h : c ∈ serializeByte b) :
    c.isAlphanum = true ∨ c ∈ ['%', '*', '-', '.', '_', '+'] := by
  have key : ∀ b, (serializeByte b).all
      (fun c => decide (c.isAlphanum = true ∨ c ∈ ['%', '*', '-', '.', '_', '+'])) = true :=
    forall_byte (by decide +kernel)
  exact forall_mem_of_all (key b) c h

theorem mem_serializePair {name value : List Char} {c : Char} (h : c ∈ serializePair name value) :
    c.isAlphanum = true ∨ c ∈ ['%', '*', '-', '.', '_', '+', '='] := by
  have text : ∀ s, c ∈ serializeText s → c.isAlphanum = true ∨ c ∈ ['%', '*', '-', '.', '_', '+', '='] := by
    intro s hs
    obtain ⟨b, _, hb⟩ := List.mem_flatMap.1 hs
    exact (mem_serializeByte hb).imp id fun h => List.mem_append_left ['='] h
  simp only [serializePair, List.mem_append, List.mem_cons] at h
  rcases h with h | rfl | h
  · exact text name h
  · exact Or.inr (by decide)
  · exact text value h

private theorem encode_flatMap (f : UInt8 → List Char) (bytes : List UInt8) :
    encode (bytes.flatMap f) = bytes.flatMap fun b => encode (f b) := by
  induction bytes with
  | nil => rfl
  | cons b bytes ih => rw [List.flatMap_cons, encode_append, ih, List.flatMap_cons]

/-- No byte of a serialized text separates pairs, or a name from its value. -/
private theorem encode_serializeText_ne {s : List Char} {x : UInt8} (h : x ∈ encode (serializeText s)) :
    x ≠ 0x26 ∧ x ≠ 0x3D := by
  have key : ∀ b, (encode (serializeByte b)).all (fun x => decide (x ≠ 0x26 ∧ x ≠ 0x3D)) = true :=
    forall_byte (by decide +kernel)
  rw [serializeText, encode_flatMap] at h
  obtain ⟨b, _, hb⟩ := List.mem_flatMap.1 h
  exact forall_mem_of_all (key b) x hb

/-- A serialized byte is read back, whatever follows. -/
private theorem percentDecode_serializeByte (b : UInt8) (rest : List UInt8) :
    percentDecode ((encode (serializeByte b)).map plusToSpace ++ rest) = b :: percentDecode rest := by
  unfold serializeByte
  split
  · -- a plain byte is neither `+` nor `%`
    rename_i hp
    have key : ∀ b, isPlain b = true →
        (encode [Char.ofNat b.toNat]).map plusToSpace = [b] ∧ b ≠ 0x25 := forall_byte (by decide +kernel)
    obtain ⟨hmap, hne⟩ := key b hp
    rw [hmap]
    exact percentDecode_cons hne rest
  · split
    · rename_i hs
      subst hs
      exact percentDecode_cons (by decide) rest
    · have key : ∀ b, (encode (percentByte b)).map plusToSpace = encode (percentByte b) :=
        forall_byte (by decide +kernel)
      rw [key]
      exact percentDecode_byte b rest

/-- A serialized text is read back. -/
theorem decodeField_serializeText (s : List Char) : decodeField (encode (serializeText s)) = s := by
  have hbytes : ∀ bytes : List UInt8,
      percentDecode ((encode (bytes.flatMap serializeByte)).map plusToSpace) = bytes := by
    intro bytes
    induction bytes with
    | nil => rfl
    | cons b bytes ih =>
      rw [List.flatMap_cons, encode_append, List.map_append, percentDecode_serializeByte, ih]
  rw [decodeField, serializeText, hbytes, decode_encode]

/-- A serialized pair is parsed as that pair alone. -/
theorem parse_serializePair (name value : List Char) :
    parse (encode (serializePair name value)) = [(name, value)] := by
  have henc : encode (serializePair name value) =
      encode (serializeText name) ++ 0x3D :: encode (serializeText value) := by
    rw [serializePair, encode_append, encode_ascii_cons (by decide)]
    rfl
  have hamp : 0x26 ∉ encode (serializePair name value) := by
    rw [henc, List.mem_append, List.mem_cons]
    rintro (h | h | h)
    · exact (encode_serializeText_ne h).1 rfl
    · exact absurd h (by decide)
    · exact (encode_serializeText_ne h).1 rfl
  have hname : ∀ x ∈ encode (serializeText name), decide (x ≠ 0x3D) = true :=
    fun x hx => by simpa using (encode_serializeText_ne hx).2
  have hpair : parsePair (encode (serializePair name value)) = (name, value) := by
    rw [henc, parsePair, List.takeWhile_append_of_pos hname, List.dropWhile_append_of_pos hname]
    simp [decodeField_serializeText]
  have hne : encode (serializePair name value) ≠ [] := by simp [henc]
  rw [parse, List.splitOn_eq_singleton hamp, List.filter_cons_of_pos (by simpa using hne)]
  simp [hpair]

end Text.Form
