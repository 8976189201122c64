import ControllerUniffi.Bindings.Converter
import ControllerUniffi.Bindings.RustBuffer
import ControllerUniffi.Text.Utf8

/-!
# The Python bindings

A value is written by a builder that grows its buffer as it goes and stores through a bare pointer, and read from a
stream that raises at its end.  The readers are strict: negative lengths, flags other than 0 and 1, unknown variants,
malformed UTF-8 and leftover bytes all raise, so that exactly the bytes of the format are accepted (`lift_iff_wire`).
-/

namespace ControllerUniffi.Ffi.Python

open Wire Text

/-- A code point, surrogates included. -/
abbrev CodePoint := Fin 0x110000

abbrev Str := List CodePoint

/-- The exceptions of the converters; `outOfBounds` is no exception but a store outside the buffer. -/
inductive Fault where
  | internalError (message : String)
  | runtimeError (message : String)
  | unicodeEncodeError
  | unicodeDecodeError
  | structError
  | outOfBounds
  deriving DecidableEq, Repr

/-! ### Strings -/

def toChar? (c : CodePoint) : Option Char := if c.val.isValidChar then some (Char.ofNat c.val) else none

theorem codePoint_lt (c : Char) : c.toNat < 0x110000 := by
  have := c.valid
  simp only [UInt32.isValidChar, Nat.isValidChar] at this
  change c.val.toNat < 0x110000
  omega

/-- The code points of a text. -/
def ofText (text : List Char) : Str := text.map fun c => ⟨c.toNat, codePoint_lt c⟩

/-- `value.encode("utf-8")` -/
def encodeUtf8 (value : Str) : Except Fault Bytes :=
  match value.mapM toChar? with
  | some text => .ok (encode text)
  | none => .error .unicodeEncodeError

/-- `utf8_bytes.decode("utf-8")`: bytes that are not those of a text are refused. -/
def decodeUtf8 (bytes : Bytes) : Except Fault Str :=
  if encode (decode bytes) = bytes then .ok (ofText (decode bytes)) else .error .unicodeDecodeError

/-! ### The stream -/

structure RustBufferStream where
  data : Bytes
  offset : Nat
  deriving DecidableEq, Repr

abbrev Stream := StateT RustBufferStream (Except Fault)

/-- `read`, and `_unpack_from` before it unpacks -/
def RustBufferStream.read (size : Nat) : Stream Bytes := fun s =>
  if s.offset + size > s.data.length then .error (.internalError "read past end of rust buffer")
  else .ok ((s.data.drop s.offset).take size, { s with offset := s.offset + size })

def readI32 : Stream Int := return ofInt32 (← RustBufferStream.read 4)

def readU64 : Stream UInt64 := return ofUInt64 (← RustBufferStream.read 8)

/-! ### The builder -/

abbrev Builder := StateT RustBuffer (Except Fault)

/-- `_reserve` and the stores under it. -/
def RustBufferBuilder.write (R : RustBufferApi) (bytes : Bytes) : Builder Unit := fun rbuf =>
  let rbuf := if rbuf.len + bytes.length > rbuf.capacity then R.reserve rbuf bytes.length else rbuf
  if rbuf.len + bytes.length ≤ rbuf.capacity then
    .ok ((), { data := store rbuf.data rbuf.len bytes, len := rbuf.len + bytes.length })
  else .error .outOfBounds

/-- `struct.pack(">i", v)` takes integers of 32 bits only. -/
def writeI32 (R : RustBufferApi) (v : Int) : Builder Unit :=
  if -2147483648 ≤ v ∧ v ≤ 2147483647 then RustBufferBuilder.write R (int32 v) else throw .structError

namespace FfiConverterString

def read : Stream Str := do
  let size ← readI32
  if size < 0 then throw (.internalError "Unexpected negative string length")
  else do
    let utf8Bytes ← RustBufferStream.read size.toNat
    StateT.lift (decodeUtf8 utf8Bytes)

def write (R : RustBufferApi) (value : Str) : Builder Unit := do
  let utf8Bytes ← StateT.lift (encodeUtf8 value)
  writeI32 R utf8Bytes.length
  RustBufferBuilder.write R utf8Bytes

end FfiConverterString

def readSequence {α : Type} (read : Stream α) : Stream (List α) := do
  let count ← readI32
  if count < 0 then throw (.internalError "Unexpected negative sequence length") else times read count.toNat

def selectOptional {α : Type} (read : Stream α) (flag : Bytes) : Stream (Option α) :=
  if flag = [0] then return none
  else if flag = [1] then return some (← read)
  else throw (.internalError "Unexpected flag byte for optional type")

def readOptional {α : Type} (read : Stream α) : Stream (Option α) := do
  let flag ← RustBufferStream.read 1
  selectOptional read flag

def noCase : Fault := .internalError "Raw enum value doesn't match any cases"

def selectSignerType : Int → Except Fault SignerType
  | 1 => .ok .webauthn
  | 2 => .ok .starknet
  | _ => .error noCase

def selectVersion : Int → Except Fault Version
  | 1 => .ok .v104
  | 2 => .ok .v105
  | 3 => .ok .v106
  | 4 => .ok .v107
  | 5 => .ok .v108
  | 6 => .ok .v109
  | 7 => .ok .latest
  | _ => .error noCase

def selectError : Int → Except Fault ErrorKind
  | 1 => .ok .initializationError
  | 2 => .ok .signupError
  | 3 => .ok .executionError
  | 4 => .ok .networkError
  | 5 => .ok .storageError
  | 6 => .ok .invalidInput
  | 7 => .ok .disconnectError
  | _ => .error noCase

def reader : Reader RustBufferStream Fault Str where
  int32 := readI32
  uint64 := readU64
  string := FfiConverterString.read
  sequence := readSequence
  optional := readOptional
  signerType := selectSignerType
  errorKind := selectError

def writer (R : RustBufferApi) : Writer RustBuffer Fault Str where
  byte b := RustBufferBuilder.write R [b]
  int32 := writeI32 R
  uint64 n := RustBufferBuilder.write R (uint64 n)
  count n := writeI32 R n
  string := FfiConverterString.write R

/-! ### The converters -/

/-- `consume_with_stream`; the buffer is freed in any case. -/
def consumeWithStream {α : Type} (read : Stream α) (rbuf : RustBuffer) : Except Fault α := do
  let (value, s) ← read.run ⟨rbuf.bytes, 0⟩
  if s.data.length - s.offset ≠ 0 then
    throw (.runtimeError ("junk data left in buffer at end of consume_with_stream " ++ toString (s.data.length - s.offset)))
  else return value

/-- `alloc_with_builder`; the buffer is freed when the writer raises. -/
def allocWithBuilder (R : RustBufferApi) (write : Builder Unit) : Except Fault RustBuffer := do
  let (_, rbuf) ← write.run { R.alloc 16 with len := 0 }
  return rbuf

namespace FfiConverterString

/-- Alone, a string is the whole buffer. -/
def lift (rbuf : RustBuffer) : Except Fault Str :=
  consumeWithStream (do
    let s ← get
    let utf8Bytes ← RustBufferStream.read (s.data.length - s.offset)
    StateT.lift (decodeUtf8 utf8Bytes)) rbuf

def lower (R : RustBufferApi) (value : Str) : Except Fault RustBuffer :=
  allocWithBuilder R (do
    let utf8Bytes ← StateT.lift (encodeUtf8 value)
    RustBufferBuilder.write R utf8Bytes)

end FfiConverterString

structure FfiConverter (α : Type) where
  read : Stream α
  write : RustBufferApi → α → Builder Unit

namespace FfiConverter

variable {α : Type} (C : FfiConverter α)

def lift (rbuf : RustBuffer) : Except Fault α := consumeWithStream C.read rbuf

def lower (R : RustBufferApi) (value : α) : Except Fault RustBuffer := allocWithBuilder R (C.write R value)

end FfiConverter

def FfiConverterTypeCall : FfiConverter (Call Str) := ⟨readCall reader, fun R => writeCall (writer R)⟩

def FfiConverterTypeSessionPolicy : FfiConverter (SessionPolicy Str) :=
  ⟨readSessionPolicy reader, fun R => writeSessionPolicy (writer R)⟩

def FfiConverterTypeSessionPolicies : FfiConverter (SessionPolicies Str) :=
  ⟨readSessionPolicies reader, fun R => writeSessionPolicies (writer R)⟩

def FfiConverterTypeControllerError : FfiConverter (ControllerError Str) :=
  ⟨readControllerError reader, fun R => writeControllerError (writer R)⟩

def FfiConverterTypeSignerType : FfiConverter SignerType :=
  ⟨readVariant reader selectSignerType, fun R s => writeI32 R (signerTypeIndex s)⟩

def FfiConverterTypeVersion : FfiConverter Version :=
  ⟨readVariant reader selectVersion, fun R v => writeI32 R v.index⟩

def FfiConverterOptionalUInt64 : FfiConverter (Option UInt64) :=
  ⟨readOptional readU64, fun R => writeOptional (writer R) fun n => RustBufferBuilder.write R (uint64 n)⟩

def FfiConverterOptionalString : FfiConverter (Option Str) :=
  ⟨readOptional FfiConverterString.read, fun R => writeOptional (writer R) (FfiConverterString.write R)⟩

def FfiConverterSequence {α : Type} (C : FfiConverter α) : FfiConverter (List α) :=
  ⟨readSequence C.read, fun R => writeSequence (writer R) (C.write R)⟩

def FfiConverterSequenceTypeCall : FfiConverter (List (Call Str)) := FfiConverterSequence FfiConverterTypeCall

def FfiConverterSequenceTypeSessionPolicy : FfiConverter (List (SessionPolicy Str)) :=
  FfiConverterSequence FfiConverterTypeSessionPolicy

def FfiConverterSequenceTypeFieldElement : FfiConverter (List Str) :=
  FfiConverterSequence ⟨FfiConverterString.read, FfiConverterString.write⟩

def ffiConverter : (t : Ty) → FfiConverter (t.Val Str)
  | .call => FfiConverterTypeCall
  | .sessionPolicy => FfiConverterTypeSessionPolicy
  | .sessionPolicies => FfiConverterTypeSessionPolicies
  | .controllerError => FfiConverterTypeControllerError
  | .signerType => FfiConverterTypeSignerType
  | .optionalUInt64 => FfiConverterOptionalUInt64
  | .optionalString => FfiConverterOptionalString
  | .sequenceCall => FfiConverterSequenceTypeCall
  | .sequenceSessionPolicy => FfiConverterSequenceTypeSessionPolicy
  | .sequenceFieldElement => FfiConverterSequenceTypeFieldElement

theorem read_eq (t : Ty) : (ffiConverter t).read = Ffi.read reader t := by cases t <;> rfl

theorem write_eq (R : RustBufferApi) (t : Ty) : (ffiConverter t).write R = Ffi.write (writer R) t := by
  cases t <;> rfl

/-! ### The primitives -/

/-- `bytes` are behind the offset. -/
def Feeds (s : RustBufferStream) (bytes : Bytes) : Prop := s.offset ≤ s.data.length ∧ s.data.drop s.offset = bytes

def WellFormed (rbuf : RustBuffer) : Prop := rbuf.len ≤ rbuf.capacity

/-- `out` is in the buffer; there is always room for more. -/
def Holds (rbuf : RustBuffer) (out : Bytes) (_room : Nat) : Prop := WellFormed rbuf ∧ rbuf.bytes = out

private theorem length_of_feeds {s : RustBufferStream} {bytes : Bytes} (h : Feeds s bytes) :
    s.data.length - s.offset = bytes.length := by
  rw [← h.2, List.length_drop]

theorem reads_read (bytes : Bytes) : Reads Feeds (RustBufferStream.read bytes.length) bytes bytes := by
  intro s rest h
  have hlen := length_of_feeds h
  have hle := h.1
  rw [List.length_append] at hlen
  refine ⟨{ s with offset := s.offset + bytes.length }, ?_, ?_, ?_⟩
  · change (if s.offset + bytes.length > s.data.length then _ else _) = _
    rw [if_neg (by omega), h.2, List.take_left]
  · dsimp only
    omega
  · dsimp only
    rw [← List.drop_drop, h.2, List.drop_left]

/-- What is read are the next `size` bytes. -/
theorem takes_read (size : Nat) : Takes Feeds (RustBufferStream.read size) fun taken b => taken = b ∧ b.length = size := by
  intro s bytes b s' hs h
  have hlen := length_of_feeds hs
  have hle := hs.1
  change (if s.offset + size > s.data.length then _ else _) = _ at h
  by_cases hsize : s.offset + size > s.data.length
  · rw [if_pos hsize] at h
    cases h
  · rw [if_neg hsize, hs.2] at h
    obtain ⟨rfl, rfl⟩ := Prod.mk.inj (Except.ok.inj h)
    refine ⟨bytes.take size, bytes.drop size, (List.take_append_drop size bytes).symm,
      ⟨rfl, List.length_take_of_le (by omega)⟩, ?_, ?_⟩
    · dsimp only
      omega
    · dsimp only
      rw [← List.drop_drop, hs.2]

/-- The builder makes room before it stores. -/
private theorem run_write (R : RustBufferApi) {rbuf : RustBuffer} (h : WellFormed rbuf) (bytes : Bytes) :
    ∃ rbuf', (RustBufferBuilder.write R bytes).run rbuf = .ok ((), rbuf') ∧ WellFormed rbuf' ∧
      rbuf'.bytes = rbuf.bytes ++ bytes := by
  -- the buffer that is stored into
  obtain ⟨target, htarget, hlen, hbytes, hroom⟩ : ∃ target : RustBuffer,
      (if rbuf.len + bytes.length > rbuf.capacity then R.reserve rbuf bytes.length else rbuf) = target ∧
        target.len = rbuf.len ∧ target.bytes = rbuf.bytes ∧ target.len + bytes.length ≤ target.capacity := by
    by_cases hfull : rbuf.len + bytes.length > rbuf.capacity
    · have hcap := R.reserve_capacity rbuf bytes.length
      rw [if_pos hfull]
      exact ⟨_, rfl, R.reserve_len _ _, R.reserve_bytes _ _ h, by rwa [R.reserve_len]⟩
    · rw [if_neg hfull]
      exact ⟨rbuf, rfl, rfl, rfl, by omega⟩
  refine ⟨⟨store target.data target.len bytes, target.len + bytes.length⟩, ?_, ?_, ?_⟩
  · simp only [RustBufferBuilder.write, StateT.run, htarget, hroom, ↓reduceIte]
  · unfold WellFormed RustBuffer.capacity
    rw [store_length hroom]
    exact hroom
  · unfold RustBuffer.bytes at *
    rw [take_store hroom, hbytes]

theorem writes_write (R : RustBufferApi) (bytes : Bytes) : Writes Holds (RustBufferBuilder.write R bytes) bytes := by
  rintro rbuf out room ⟨hwf, rfl⟩
  obtain ⟨rbuf', hrun, hwf', hbytes⟩ := run_write R hwf bytes
  exact ⟨rbuf', hrun, hwf', hbytes⟩

private theorem writes_writeI32 (R : RustBufferApi) {v : Int} (h₁ : -2 ^ 31 ≤ v) (h₂ : v < 2 ^ 31) :
    Writes Holds (writeI32 R v) (int32 v) := by
  rw [writeI32, if_pos (by omega)]
  exact writes_write R (int32 v)

private theorem writes_writeLength (R : RustBufferApi) {n : Nat} (h : Short n) :
    Writes Holds (writeI32 R n) (int32 n) := by
  have hn : n < 2 ^ 31 := h
  exact writes_writeI32 R (by omega) (by omega)

private theorem reads_readI32 {i : Int} (h₁ : -2 ^ 31 ≤ i) (h₂ : i < 2 ^ 31) : Reads Feeds readI32 (int32 i) i := by
  have := (reads_read (int32 i)).map ofInt32
  rwa [int32_length, ofInt32_int32, bmod_of_range h₁ h₂] at this

private theorem reads_length {n : Nat} (h : Short n) : Reads Feeds readI32 (int32 n) n := by
  have hn : n < 2 ^ 31 := h
  exact reads_readI32 (by omega) (by omega)

theorem reader_lawful : reader.Lawful Feeds fun b s => decodeUtf8 b = .ok s where
  int32 _ := reads_readI32
  uint64 n := by
    have := (reads_read (uint64 n)).map ofUInt64
    rwa [uint64_length, ofUInt64_uint64] at this
  string b s hlen hbs := by
    have hdecode : Reads Feeds (do StateT.lift (decodeUtf8 (← RustBufferStream.read b.length))) b s := by
      have hlift : Reads Feeds (StateT.lift (decodeUtf8 b) : Stream Str) [] s := by
        rw [hbs]
        exact Reads.pure s
      have := (reads_read b).bind (k := fun utf8Bytes => StateT.lift (decodeUtf8 utf8Bytes)) hlift
      rwa [List.append_nil] at this
    refine (reads_length hlen).bind (k := fun size =>
      if size < 0 then throw (.internalError "Unexpected negative string length")
      else do StateT.lift (decodeUtf8 (← RustBufferStream.read size.toNat))) ?_
    rw [if_neg (by omega), Int.toNat_natCast]
    exact hdecode
  sequence put r xs ys hlen h := by
    refine (reads_length hlen).bind (k := fun count =>
      if count < 0 then throw (.internalError "Unexpected negative sequence length") else times r count.toNat) ?_
    rw [if_neg (by omega), Int.toNat_natCast]
    exact Reads.times h
  optional_none r := (reads_read [0]).bind (k := selectOptional r) (Reads.pure none)
  optional_some r b y h := (reads_read [1]).bind (k := selectOptional r) (h.map some)
  signerType s := by cases s <;> rfl
  errorKind k := by cases k <;> rfl

theorem decodeUtf8_eq_ok_iff {b : Bytes} {s : Str} :
    decodeUtf8 b = .ok s ↔ ∃ text, b = encode text ∧ s = ofText text := by
  unfold decodeUtf8
  constructor
  · intro h
    split at h
    · rename_i hb
      cases h
      exact ⟨decode b, hb.symm, rfl⟩
    · cases h
  · rintro ⟨text, rfl, rfl⟩
    rw [decode_encode, if_pos rfl]

private theorem toChar?_ofText (c : Char) : toChar? ⟨c.toNat, codePoint_lt c⟩ = some c := by
  have hvalid : c.toNat.isValidChar := c.valid
  rw [toChar?, if_pos hvalid, Char.ofNat_toNat]

private theorem ofText_of_toChar? {p : CodePoint} {c : Char} (h : toChar? p = some c) :
    p = ⟨c.toNat, codePoint_lt c⟩ := by
  unfold toChar? at h
  split at h
  · rename_i hvalid
    cases h
    apply Fin.ext
    dsimp only
    rw [Char.ofNat, dif_pos hvalid]
    rfl
  · cases h

private theorem mapM_toChar?_eq_some_iff {s : Str} {text : List Char} :
    s.mapM toChar? = some text ↔ s = ofText text := by
  induction s generalizing text with
  | nil =>
    constructor
    · intro h
      cases h
      rfl
    · intro h
      cases text with
      | nil => rfl
      | cons c text => cases h
  | cons p s ih =>
    rw [List.mapM_cons]
    constructor
    · intro h
      obtain ⟨c, hc, h⟩ := Option.bind_eq_some_iff.mp h
      obtain ⟨rest, hrest, h⟩ := Option.bind_eq_some_iff.mp h
      cases h
      rw [ofText_of_toChar? hc, ih.mp hrest]
      rfl
    · intro h
      cases text with
      | nil => cases h
      | cons c text =>
        obtain ⟨rfl, hs⟩ := List.cons.inj h
        rw [toChar?_ofText, ih.mpr hs]
        rfl

theorem encodeUtf8_eq_ok_iff {s : Str} {b : Bytes} :
    encodeUtf8 s = .ok b ↔ ∃ text, s = ofText text ∧ b = encode text := by
  unfold encodeUtf8
  cases h : s.mapM toChar? with
  | none =>
    constructor
    · intro hb
      cases hb
    · rintro ⟨text, htext, -⟩
      rw [mapM_toChar?_eq_some_iff.mpr htext] at h
      cases h
  | some text =>
    constructor
    · intro hb
      cases hb
      exact ⟨text, mapM_toChar?_eq_some_iff.mp h, rfl⟩
    · rintro ⟨text', htext, rfl⟩
      rw [mapM_toChar?_eq_some_iff.mpr htext] at h
      cases h
      rfl

private theorem takes_readI32 : Takes Feeds readI32 fun taken i => taken = int32 i := by
  refine ((takes_read 4).map ofInt32).mono ?_
  rintro taken i ⟨b, ⟨rfl, hlen⟩, rfl⟩
  exact (int32_ofInt32 hlen).symm

/-- A length that was read is short when it is not negative. -/
private theorem takes_readLength : Takes Feeds readI32 fun taken i =>
    taken = int32 i ∧ (0 ≤ i → Short i.toNat) := by
  refine ((takes_read 4).map ofInt32).mono ?_
  rintro taken i ⟨b, ⟨rfl, hlen⟩, rfl⟩
  have hrange := ofInt32_range taken
  refine ⟨(int32_ofInt32 hlen).symm, fun hpos => ?_⟩
  unfold Short
  omega

private theorem takes_throw {α : Type} (e : Fault) (P : Bytes → α → Prop) : Takes Feeds (throw e : Stream α) P := by
  intro s bytes a s' _ h
  cases h

private theorem takes_lift {α : Type} (x : Except Fault α) :
    Takes Feeds (StateT.lift x : Stream α) fun taken a => taken = [] ∧ x = .ok a := by
  cases x with
  | error e => exact takes_throw e _
  | ok b =>
    refine (Takes.pure b).mono ?_
    rintro taken a ⟨rfl, rfl⟩
    exact ⟨rfl, rfl⟩

theorem reader_strict : reader.Strict Feeds fun b s => decodeUtf8 b = .ok s where
  int32 := takes_readI32
  uint64 := by
    refine ((takes_read 8).map ofUInt64).mono ?_
    rintro taken n ⟨b, ⟨rfl, hlen⟩, rfl⟩
    exact (uint64_ofUInt64 hlen).symm
  string := by
    refine (takes_readLength.bind (Q := fun size taken s =>
      0 ≤ size ∧ taken.length = size.toNat ∧ decodeUtf8 taken = .ok s) fun size => ?_).mono ?_
    · by_cases hneg : size < 0
      · rw [if_pos hneg]
        exact takes_throw _ _
      · rw [if_neg hneg]
        refine ((takes_read size.toNat).bind fun b => takes_lift (decodeUtf8 b)).mono ?_
        rintro _ s ⟨b, first, _, rfl, ⟨rfl, hlen⟩, rfl, hs⟩
        rw [List.append_nil]
        exact ⟨by omega, hlen, hs⟩
    · rintro _ s ⟨size, _, taken, rfl, ⟨rfl, hshort⟩, hpos, hlen, hs⟩
      refine ⟨taken, ?_, by rw [hlen]; exact hshort hpos, hs⟩
      rw [string, hlen, Int.toNat_of_nonneg hpos]
  sequence {α r P} hr := by
    refine (takes_readLength.bind (Q := fun count taken (as : List α) =>
      0 ≤ count ∧ as.length = count.toNat ∧ ∃ chunks, taken = chunks.flatten ∧ List.Forall₂ P chunks as)
      fun count => ?_).mono ?_
    · by_cases hneg : count < 0
      · rw [if_pos hneg]
        exact takes_throw _ _
      · rw [if_neg hneg]
        exact (hr.times count.toNat).mono fun _ _ h => ⟨by omega, h⟩
    · rintro _ as ⟨count, _, _, rfl, ⟨rfl, hshort⟩, hpos, hlen, chunks, rfl, hall⟩
      have hchunks : chunks.length = count.toNat := by rw [hall.length_eq, hlen]
      refine ⟨chunks, ?_, by rw [hchunks]; exact hshort hpos, hall⟩
      rw [hchunks, Int.toNat_of_nonneg hpos]
  optional {α r P} hr := by
    refine ((takes_read 1).bind (Q := fun flag taken (x : Option α) =>
      (flag = [0] ∧ taken = [] ∧ x = none) ∨ (flag = [1] ∧ ∃ a, x = some a ∧ P taken a)) fun flag => ?_).mono ?_
    · unfold selectOptional
      by_cases h0 : flag = [0]
      · rw [if_pos h0]
        exact (Takes.pure none).mono fun _ _ h => .inl ⟨h0, h⟩
      · rw [if_neg h0]
        by_cases h1 : flag = [1]
        · rw [if_pos h1]
          refine (hr.map some).mono ?_
          rintro taken _ ⟨a, ha, rfl⟩
          exact .inr ⟨h1, a, rfl, ha⟩
        · rw [if_neg h1]
          exact takes_throw _ _
    · rintro _ x ⟨flag, _, taken, rfl, ⟨rfl, -⟩, ⟨rfl, rfl, rfl⟩ | ⟨rfl, a, rfl, ha⟩⟩
      · exact .inl ⟨rfl, rfl⟩
      · exact .inr ⟨taken, a, rfl, rfl, ha⟩
  signerType i s h := by
    unfold reader selectSignerType at h
    dsimp only at h
    split at h <;> cases h <;> rfl
  errorKind i k h := by
    unfold reader selectError at h
    dsimp only at h
    split at h <;> cases h <;> rfl

theorem writer_lawful (R : RustBufferApi) :
    (writer R).Lawful Holds (fun b => Short b.length) Short fun b s => encodeUtf8 s = .ok b where
  byte b := writes_write R [b]
  int32 i h₁ h₂ := writes_writeI32 R (by omega) (by omega)
  uint64 n := writes_write R (uint64 n)
  count n h := writes_writeLength R h
  string b s hlen hbs := by
    change Writes Holds (FfiConverterString.write R s) _
    rw [FfiConverterString.write, hbs]
    exact (writes_writeLength R hlen).bind (k := fun _ => RustBufferBuilder.write R b) (writes_write R b)

private theorem range_of_writeI32 {R : RustBufferApi} {v : Int} {s s' : RustBuffer}
    (h : (writeI32 R v).run s = .ok ((), s')) : v ≤ 2147483647 := by
  unfold writeI32 at h
  split at h
  · rename_i hv
    exact hv.2
  · cases h

/-- A string that is written is that of a text which is short enough. -/
theorem writer_demands (R : RustBufferApi) :
    (writer R).Demands (fun s => ∃ text, s = ofText text ∧ Short (encode text).length) Short where
  string {s st st'} h := by
    obtain ⟨b, st₁, hb, h⟩ := run_bind_eq_ok_iff.mp h
    obtain ⟨b', hutf8, heq⟩ := Collect.bind_eq_ok_iff.mp hb
    cases heq
    obtain ⟨text, htext, rfl⟩ := encodeUtf8_eq_ok_iff.mp hutf8
    obtain ⟨_, st₂, hlen, -⟩ := run_bind_eq_ok_iff.mp h
    have hrange := range_of_writeI32 hlen
    refine ⟨text, htext, ?_⟩
    unfold Short
    omega
  count {n st st'} h := by
    have hrange := range_of_writeI32 h
    unfold Short
    omega

/-- The builder stores only inside its buffer, whatever it is made to write. -/
theorem writer_keeps (R : RustBufferApi) : (writer R).Keeps WellFormed (· = .outOfBounds) := by
  have hwrite : ∀ bytes, Keeps WellFormed (· = .outOfBounds) (RustBufferBuilder.write R bytes) := by
    intro bytes rbuf hwf
    obtain ⟨rbuf', hrun, hwf', -⟩ := run_write R hwf bytes
    rw [hrun]
    refine ⟨?_, ?_⟩
    · intro a s' h
      cases h
      exact hwf'
    · intro e h
      cases h
  have hwriteI32 : ∀ v, Keeps WellFormed (· = .outOfBounds) (writeI32 R v) := by
    intro v
    unfold writeI32
    split
    · exact hwrite _
    · exact Keeps.lift (x := Except.error Fault.structError) (by rintro e ⟨⟩; simp)
  have hutf8 : ∀ s e, encodeUtf8 s = .error e → ¬ e = .outOfBounds := by
    intro s e h
    unfold encodeUtf8 at h
    split at h
    · cases h
    · cases h
      simp
  exact
    { byte := fun b => hwrite [b]
      int32 := hwriteI32
      uint64 := fun n => hwrite (uint64 n)
      count := fun n => hwriteI32 n
      string := fun s => (Keeps.lift (hutf8 s)).bind fun b => (hwriteI32 b.length).bind fun _ => hwrite b }

/-! ### Lowering and lifting -/

private theorem wellFormed_init (R : RustBufferApi) : WellFormed { R.alloc 16 with len := 0 } := Nat.zero_le _

/-- Whatever value is lowered, no byte is stored outside the buffer. -/
theorem lower_ne_outOfBounds (R : RustBufferApi) (t : Ty) (v : t.Val Str) :
    (ffiConverter t).lower R v ≠ .error .outOfBounds := by
  intro h
  rcases Collect.bind_eq_error_iff.mp h with h | ⟨p, -, h⟩
  · rw [write_eq] at h
    exact ((writer_keeps R).keeps t v _ (wellFormed_init R)).2 _ h rfl
  · cases h

/-- A value of well-formed strings, all lengths short, is lowered to its bytes. -/
theorem lower_bytes (R : RustBufferApi) {t : Ty} {a : t.Val (List Char)} (hfits : t.Fits (t.map encode a)) :
    ∃ buf, (ffiConverter t).lower R (t.map ofText a) = .ok buf ∧ buf.bytes = wire t (t.map encode a) ∧
      buf.len ≤ buf.capacity := by
  have hrel : t.Rel (fun b s => encodeUtf8 s = .ok b) (t.map encode a) (t.map ofText a) :=
    Ty.rel_map (R := fun b s => encodeUtf8 s = .ok b) (fun text => encodeUtf8_eq_ok_iff.mpr ⟨text, rfl, rfl⟩) t a
  obtain ⟨buf, hrun, hwf, hbytes⟩ := (writer_lawful R).writes t hfits hrel { R.alloc 16 with len := 0 } [] 0
    ⟨wellFormed_init R, rfl⟩
  refine ⟨buf, Collect.bind_eq_ok_iff.mpr ⟨((), buf), by rw [write_eq]; exact hrun, rfl⟩, ?_, hwf⟩
  rw [hbytes, List.nil_append]

/-- What is lowered is made of texts, and all lengths are short. -/
theorem text_of_lower {R : RustBufferApi} {t : Ty} {v : t.Val Str} {buf : RustBuffer}
    (h : (ffiConverter t).lower R v = .ok buf) :
    ∃ a : t.Val (List Char), v = t.map ofText a ∧ t.All (fun text => Short (encode text).length) Short a := by
  obtain ⟨⟨u, rbuf⟩, hrun, -⟩ := Collect.bind_eq_ok_iff.mp h
  rw [write_eq] at hrun
  exact Ty.exists_map ((writer_demands R).all t hrun)

/-- Exactly the values of well-formed strings whose lengths are all short are lowered. -/
theorem lower_iff_short (R : RustBufferApi) {t : Ty} (v : t.Val Str) :
    (∃ buf, (ffiConverter t).lower R v = .ok buf) ↔
      ∃ a : t.Val (List Char), v = t.map ofText a ∧ t.All (fun text => Short (encode text).length) Short a := by
  constructor
  · rintro ⟨buf, hbuf⟩
    exact text_of_lower hbuf
  · rintro ⟨a, rfl, hall⟩
    obtain ⟨buf, hbuf, -⟩ := lower_bytes R (Ty.all_map.mpr hall)
    exact ⟨buf, hbuf⟩

/-- A buffer is consumed when it is read to its end. -/
theorem consume_of_run {α : Type} {read : Stream α} {buf : RustBuffer} {a : α} {s : RustBufferStream}
    (hrun : read.run ⟨buf.bytes, 0⟩ = .ok (a, s)) (hs : Feeds s []) : consumeWithStream read buf = .ok a := by
  have hend := length_of_feeds hs
  rw [List.length_nil] at hend
  refine Collect.bind_eq_ok_iff.mpr ⟨_, hrun, ?_⟩
  dsimp only
  rw [hend, if_neg (by simp)]
  rfl

/-- The converter stops behind the bytes of the value. -/
private theorem run_read {t : Ty} {c : t.Val Bytes} {v : t.Val Str} (hfits : t.Fits c)
    (hrel : t.Rel (fun b s => decodeUtf8 b = .ok s) c v) {buf : RustBuffer} {junk : Bytes}
    (h : buf.bytes = wire t c ++ junk) : ∃ s, (ffiConverter t).read.run ⟨buf.bytes, 0⟩ = .ok (v, s) ∧ Feeds s junk := by
  have hfeeds : Feeds ⟨buf.bytes, 0⟩ (wire t c ++ junk) := ⟨Nat.zero_le _, h⟩
  rw [read_eq]
  exact reader_lawful.reads t hfits hrel _ _ hfeeds

/-- Bytes behind those of a value are refused, and the message counts them. -/
theorem lift_junk {t : Ty} {c : t.Val Bytes} {v : t.Val Str} (hfits : t.Fits c)
    (hrel : t.Rel (fun b s => decodeUtf8 b = .ok s) c v) {buf : RustBuffer} {junk : Bytes} (hjunk : junk ≠ [])
    (h : buf.bytes = wire t c ++ junk) : (ffiConverter t).lift buf =
      .error (.runtimeError ("junk data left in buffer at end of consume_with_stream " ++ toString junk.length)) := by
  obtain ⟨s, hrun, hs⟩ := run_read hfits hrel h
  have hrest := length_of_feeds hs
  have hpos := List.length_pos_iff.mpr hjunk
  refine Collect.bind_eq_error_iff.mpr (.inr ⟨_, hrun, ?_⟩)
  dsimp only
  rw [hrest, if_pos (by omega)]
  rfl

/-- What is lifted is in the format: the converter has taken the bytes of a value, and nothing is left. -/
theorem wire_of_lift {t : Ty} {buf : RustBuffer} {v : t.Val Str} (h : (ffiConverter t).lift buf = .ok v) :
    ∃ c : t.Val Bytes, buf.bytes = wire t c ∧ t.Fits c ∧ t.Rel (fun b s => decodeUtf8 b = .ok s) c v := by
  obtain ⟨⟨w, s⟩, hrun, h⟩ := Collect.bind_eq_ok_iff.mp h
  rw [read_eq] at hrun
  obtain ⟨taken, rest, htaken, ⟨c, rfl, hfits, hrel⟩, hs⟩ :=
    reader_strict.takes t _ _ _ _ ⟨Nat.zero_le _, rfl⟩ hrun
  have hlen := length_of_feeds hs
  dsimp only at h htaken
  split at h
  · cases h
  · cases h
    have hrest : rest = [] := List.eq_nil_of_length_eq_zero (by omega)
    rw [hrest, List.drop_zero, List.append_nil] at htaken
    exact ⟨c, htaken, hfits, hrel⟩

/-- What is in the format is lifted. -/
theorem lift_wire {t : Ty} {c : t.Val Bytes} {v : t.Val Str} (hfits : t.Fits c)
    (hrel : t.Rel (fun b s => decodeUtf8 b = .ok s) c v) {buf : RustBuffer} (h : buf.bytes = wire t c) :
    (ffiConverter t).lift buf = .ok v := by
  have hnil : buf.bytes = wire t c ++ [] := by rw [h, List.append_nil]
  obtain ⟨s, hrun, hs⟩ := run_read hfits hrel hnil
  exact consume_of_run hrun hs

/-- A buffer is lifted exactly when its bytes are those of a value whose lengths are short and whose strings are
UTF-8. -/
theorem lift_iff_wire {t : Ty} {buf : RustBuffer} {v : t.Val Str} :
    (ffiConverter t).lift buf = .ok v ↔ ∃ c : t.Val Bytes, buf.bytes = wire t c ∧ t.Fits c ∧
      t.Rel (fun b s => decodeUtf8 b = .ok s) c v := by
  constructor
  · exact wire_of_lift
  · rintro ⟨c, hbytes, hfits, hrel⟩
    exact lift_wire hfits hrel hbytes

theorem lower_version (R : RustBufferApi) (v : Version) :
    ∃ buf, FfiConverterTypeVersion.lower R v = .ok buf ∧ buf.bytes = int32 v.index := by
  obtain ⟨buf, hrun, -, hbytes⟩ := (writer_lawful R).int32 v.index (by cases v <;> decide) (by cases v <;> decide)
    { R.alloc 16 with len := 0 } [] 0 ⟨wellFormed_init R, rfl⟩
  exact ⟨buf, Collect.bind_eq_ok_iff.mpr ⟨((), buf), hrun, rfl⟩, hbytes⟩

theorem lift_version (v : Version) {buf : RustBuffer} (h : buf.bytes = int32 v.index) :
    FfiConverterTypeVersion.lift buf = .ok v := by
  have hselect : selectVersion v.index = .ok v := by cases v <;> rfl
  have hreads := reader_lawful.readsVariant (by cases v <;> decide) hselect
  have hfeeds : Feeds ⟨buf.bytes, 0⟩ (int32 v.index ++ []) := ⟨Nat.zero_le _, by rw [List.append_nil, ← h]; rfl⟩
  obtain ⟨s, hrun, hs⟩ := hreads _ _ hfeeds
  exact consume_of_run hrun hs

/-! ### Strings alone -/

theorem lower_string (R : RustBufferApi) (text : List Char) :
    ∃ buf, FfiConverterString.lower R (ofText text) = .ok buf ∧ buf.bytes = encode text ∧ buf.len ≤ buf.capacity := by
  obtain ⟨buf, hrun, hwf, hbytes⟩ := run_write R (wellFormed_init R) (encode text)
  refine ⟨buf, ?_, by rw [hbytes]; rfl, hwf⟩
  unfold FfiConverterString.lower
  rw [encodeUtf8_eq_ok_iff.mpr ⟨text, rfl, rfl⟩]
  exact Collect.bind_eq_ok_iff.mpr ⟨((), buf), hrun, rfl⟩

/-- A string alone is lifted exactly when the buffer is UTF-8. -/
theorem lift_string_eq_ok_iff {buf : RustBuffer} {s : Str} :
    FfiConverterString.lift buf = .ok s ↔ ∃ text, buf.bytes = encode text ∧ s = ofText text := by
  obtain ⟨stream, hrun, hs⟩ := reads_read buf.bytes ⟨buf.bytes, 0⟩ [] ⟨Nat.zero_le _, (List.append_nil _).symm⟩
  have hlift : FfiConverterString.lift buf = decodeUtf8 buf.bytes := by
    cases hdecode : decodeUtf8 buf.bytes with
    | error e =>
      unfold FfiConverterString.lift consumeWithStream
      refine Collect.bind_eq_error_iff.mpr (.inl ?_)
      refine run_bind_eq_error_iff.mpr (.inr ⟨_, _, rfl, ?_⟩)
      refine run_bind_eq_error_iff.mpr (.inr ⟨_, _, hrun, ?_⟩)
      rw [hdecode]
      rfl
    | ok s =>
      refine consume_of_run ?_ hs
      refine run_bind_eq_ok_iff.mpr ⟨_, _, rfl, ?_⟩
      refine run_bind_eq_ok_iff.mpr ⟨_, _, hrun, ?_⟩
      rw [hdecode]
      rfl
  rw [hlift, decodeUtf8_eq_ok_iff]

end ControllerUniffi.Ffi.Python
