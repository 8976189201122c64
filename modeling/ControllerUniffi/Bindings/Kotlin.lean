import ControllerUniffi.Bindings.Converter
import ControllerUniffi.Bindings.RustBuffer
import ControllerUniffi.Text.Utf16

/-!
# The Kotlin bindings

The converters over a `ByteBuffer`, whose gets and puts throw when the bytes or the room are missing.  Strings are
UTF-16 and written as UTF-8; a string with a surrogate that has no partner is refused.  The buffer for a value is
allocated before the UTF-8 is known, with three bytes for each code unit.
-/

namespace ControllerUniffi.Ffi.Kotlin

open Wire Text

abbrev JString := List UInt16

/-- The exceptions of the converters. -/
inductive Fault where
  | bufferUnderflow
  | bufferOverflow
  | negativeArraySize
  | illegalArgument
  | characterCoding
  | runtime (message : String)
  deriving DecidableEq, Repr

/-- A big-endian buffer over `data`, its limit the end of it. -/
structure ByteBuffer where
  data : Bytes
  position : Nat
  deriving DecidableEq, Repr

abbrev Buf := StateT ByteBuffer (Except Fault)

/-- `getByteBuffer`: a buffer of the runtime has fewer than `2 ^ 31` bytes. -/
def byteBuffer (data : Bytes) : Except Fault ByteBuffer :=
  if Short data.length then .ok ⟨data, 0⟩ else .error .illegalArgument

/-- `asByteBuffer` -/
def asByteBuffer (rbuf : RustBuffer) : Except Fault ByteBuffer := byteBuffer rbuf.bytes

/-- The next `n` bytes -/
def get (n : Nat) : Buf Bytes := fun buf =>
  if n ≤ buf.data.length - buf.position then
    .ok ((buf.data.drop buf.position).take n, { buf with position := buf.position + n })
  else .error .bufferUnderflow

def put (bytes : Bytes) : Buf Unit := fun buf =>
  if bytes.length ≤ buf.data.length - buf.position then
    .ok ((), { buf with data := store buf.data buf.position bytes, position := buf.position + bytes.length })
  else .error .bufferOverflow

def getInt : Buf Int := return ofInt32 (← get 4)

namespace FfiConverterULong

def read : Buf UInt64 := return ofUInt64 (← get 8)

def write (value : UInt64) : Buf Unit := put (uint64 value)

end FfiConverterULong

namespace FfiConverterString

def toUtf8 (value : JString) : Except Fault Bytes :=
  match decode16 value with
  | some s => .ok (encode s)
  | none => .error .characterCoding

/-- `toString(Charsets.UTF_8)`: malformed bytes are replaced. -/
def ofUtf8 (byteArr : Bytes) : JString := encode16 (decode byteArr)

def read : Buf JString := do
  let len ← getInt
  if len < 0 then throw .negativeArraySize else return ofUtf8 (← get len.toNat)

def write (value : JString) : Buf Unit := do
  let byteBuf ← StateT.lift (toUtf8 value)
  put (int32 byteBuf.length)
  put byteBuf

def allocationSize (value : JString) : Nat := 4 + value.length * 3

/-- Alone, a string is the whole buffer. -/
def lift (value : RustBuffer) : Except Fault JString := do
  let size := Int.bmod value.len (2 ^ 32)
  if size < 0 then throw .negativeArraySize
  else do
    let (byteArr, _) ← (get size.toNat).run (← asByteBuffer value)
    return ofUtf8 byteArr

def lower (R : RustBufferApi) (value : JString) : Except Fault RustBuffer := do
  let byteBuf ← toUtf8 value
  let rbuf := R.alloc byteBuf.length
  let (_, bbuf) ← (put byteBuf).run (← asByteBuffer rbuf)
  return { rbuf with data := bbuf.data ++ rbuf.data.drop rbuf.len }

end FfiConverterString

/-- `List(len) { read(buf) }` -/
def readSequence {α : Type} (read : Buf α) : Buf (List α) := do
  let len ← getInt
  if len < 0 then throw .illegalArgument else times read len.toNat

def readOptional {α : Type} (read : Buf α) : Buf (Option α) := do
  let flag ← get 1
  if flag = [0] then return none else return some (← read)

def signerTypeValues : List SignerType := [.webauthn, .starknet]

/-- `SignerType.values()[i - 1]` -/
def selectSignerType (i : Int) : Except Fault SignerType :=
  if i - 1 < 0 then .error (.runtime "invalid enum value, something is very wrong!!")
  else match signerTypeValues[(i - 1).toNat]? with
    | some s => .ok s
    | none => .error (.runtime "invalid enum value, something is very wrong!!")

def selectError : Int → Except Fault ErrorKind
  | 1 => .ok .initializationError
  | 2 => .ok .signupError
  | 3 => .ok .executionError
  | 4 => .ok .networkError
  | 5 => .ok .storageError
  | 6 => .ok .invalidInput
  | 7 => .ok .disconnectError
  | _ => .error (.runtime "invalid error enum value, something is very wrong!!")

def reader : Reader ByteBuffer Fault JString where
  int32 := getInt
  uint64 := FfiConverterULong.read
  string := FfiConverterString.read
  sequence := readSequence
  optional := readOptional
  signerType := selectSignerType
  errorKind := selectError

def writer : Writer ByteBuffer Fault JString where
  byte b := put [b]
  int32 i := put (int32 i)
  uint64 := FfiConverterULong.write
  count n := put (int32 n)
  string := FfiConverterString.write

/-! ### The converters -/

structure FfiConverter (α : Type) where
  read : Buf α
  write : α → Buf Unit
  allocationSize : α → Nat

namespace FfiConverter

variable {α : Type} (C : FfiConverter α)

/-- The buffer is freed in any case but that of a buffer too large to read. -/
def liftFromRustBuffer (rbuf : RustBuffer) : Except Fault α := do
  let (item, byteBuf) ← C.read.run (← asByteBuffer rbuf)
  if byteBuf.position < byteBuf.data.length then
    throw (.runtime "junk remaining in buffer after lifting, something is very wrong!!")
  else return item

/-- The buffer is freed when the converter throws. -/
def lowerIntoRustBuffer (R : RustBufferApi) (value : α) : Except Fault RustBuffer := do
  let rbuf := R.alloc (C.allocationSize value)
  let (_, bbuf) ← (C.write value).run (← byteBuffer rbuf.data)
  return ⟨bbuf.data, bbuf.position⟩

end FfiConverter

def FfiConverterTypeCall : FfiConverter (Call JString) :=
  ⟨readCall reader, writeCall writer, sizeCall FfiConverterString.allocationSize⟩

def FfiConverterTypeSessionPolicy : FfiConverter (SessionPolicy JString) :=
  ⟨readSessionPolicy reader, writeSessionPolicy writer, sizeSessionPolicy FfiConverterString.allocationSize⟩

def FfiConverterTypeSessionPolicies : FfiConverter (SessionPolicies JString) where
  read := readSessionPolicies reader
  write := writeSessionPolicies writer
  allocationSize p :=
    sizeSequence FfiConverterTypeSessionPolicy.allocationSize p.policies + FfiConverterString.allocationSize p.maxFee

def FfiConverterTypeControllerError : FfiConverter (ControllerError JString) :=
  ⟨readControllerError reader, writeControllerError writer, fun e => 4 + FfiConverterString.allocationSize e.message⟩

def FfiConverterTypeSignerType : FfiConverter SignerType :=
  ⟨readVariant reader selectSignerType, fun s => put (int32 (signerTypeIndex s)), fun _ => 4⟩

def FfiConverterOptionalULong : FfiConverter (Option UInt64) :=
  ⟨readOptional FfiConverterULong.read, writeOptional writer FfiConverterULong.write, sizeOptional fun _ => 8⟩

def FfiConverterOptionalString : FfiConverter (Option JString) :=
  ⟨readOptional FfiConverterString.read, writeOptional writer FfiConverterString.write,
    sizeOptional FfiConverterString.allocationSize⟩

def FfiConverterSequence {α : Type} (C : FfiConverter α) : FfiConverter (List α) :=
  ⟨readSequence C.read, writeSequence writer C.write, sizeSequence C.allocationSize⟩

def FfiConverterSequenceTypeCall : FfiConverter (List (Call JString)) := FfiConverterSequence FfiConverterTypeCall

def FfiConverterSequenceTypeSessionPolicy : FfiConverter (List (SessionPolicy JString)) :=
  FfiConverterSequence FfiConverterTypeSessionPolicy

def FfiConverterSequenceTypeFieldElement : FfiConverter (List JString) :=
  ⟨readSequence FfiConverterString.read, writeSequence writer FfiConverterString.write,
    sizeSequence FfiConverterString.allocationSize⟩

def ffiConverter : (t : Ty) → FfiConverter (t.Val JString)
  | .call => FfiConverterTypeCall
  | .sessionPolicy => FfiConverterTypeSessionPolicy
  | .sessionPolicies => FfiConverterTypeSessionPolicies
  | .controllerError => FfiConverterTypeControllerError
  | .signerType => FfiConverterTypeSignerType
  | .optionalUInt64 => FfiConverterOptionalULong
  | .optionalString => FfiConverterOptionalString
  | .sequenceCall => FfiConverterSequenceTypeCall
  | .sequenceSessionPolicy => FfiConverterSequenceTypeSessionPolicy
  | .sequenceFieldElement => FfiConverterSequenceTypeFieldElement

theorem read_eq (t : Ty) : (ffiConverter t).read = Ffi.read reader t := by cases t <;> rfl

theorem write_eq (t : Ty) : (ffiConverter t).write = Ffi.write writer t := by cases t <;> rfl

theorem allocationSize_eq (t : Ty) :
    (ffiConverter t).allocationSize = Ffi.allocationSize FfiConverterString.allocationSize t := by cases t <;> rfl

/-! ### The primitives -/

/-- `bytes` are before the position. -/
def Feeds (buf : ByteBuffer) (bytes : Bytes) : Prop :=
  buf.position ≤ buf.data.length ∧ buf.data.drop buf.position = bytes

/-- `out` is behind the position and `room` bytes are before it. -/
def Holds (buf : ByteBuffer) (out : Bytes) (room : Nat) : Prop :=
  buf.data.take buf.position = out ∧ buf.position + room = buf.data.length

private theorem length_of_feeds {buf : ByteBuffer} {bytes : Bytes} (h : Feeds buf bytes) :
    buf.data.length - buf.position = bytes.length := by
  rw [← h.2, List.length_drop]

theorem reads_get (bytes : Bytes) : Reads Feeds (get bytes.length) bytes bytes := by
  intro buf rest h
  have hlen := length_of_feeds h
  rw [List.length_append] at hlen
  refine ⟨{ buf with position := buf.position + bytes.length }, ?_, ?_, ?_⟩
  · change (if bytes.length ≤ buf.data.length - buf.position then _ else _) = _
    rw [if_pos (by omega), h.2, List.take_left]
  · have := h.1
    dsimp only
    omega
  · dsimp only
    rw [← List.drop_drop, h.2, List.drop_left]

theorem writes_put (bytes : Bytes) : Writes Holds (put bytes) bytes := by
  rintro buf out room ⟨hout, hroom⟩
  refine ⟨{ buf with data := store buf.data buf.position bytes, position := buf.position + bytes.length }, ?_, ?_, ?_⟩
  · change (if bytes.length ≤ buf.data.length - buf.position then _ else _) = _
    rw [if_pos (by omega)]
  · dsimp only
    rw [take_store (by omega), hout]
  · dsimp only
    rw [store_length (by omega)]
    omega

private theorem reads_getInt {i : Int} (h₁ : -2 ^ 31 ≤ i) (h₂ : i < 2 ^ 31) : Reads Feeds getInt (int32 i) i := by
  have := (reads_get (int32 i)).map ofInt32
  rwa [int32_length, ofInt32_int32, bmod_of_range h₁ h₂] at this

private theorem reads_length {n : Nat} (h : Short n) : Reads Feeds getInt (int32 n) n := by
  have hn : n < 2 ^ 31 := h
  exact reads_getInt (by omega) (by omega)

theorem reader_lawful : reader.Lawful Feeds fun b s => s = FfiConverterString.ofUtf8 b where
  int32 _ := reads_getInt
  uint64 n := by
    have := (reads_get (uint64 n)).map ofUInt64
    rwa [uint64_length, ofUInt64_uint64] at this
  string b s hlen hbs := by
    cases hbs
    refine (reads_length hlen).bind
      (k := fun len => if len < 0 then throw .negativeArraySize else FfiConverterString.ofUtf8 <$> get len.toNat) ?_
    rw [if_neg (by omega), Int.toNat_natCast]
    exact (reads_get b).map FfiConverterString.ofUtf8
  sequence put r xs ys hlen h := by
    refine (reads_length hlen).bind (k := fun len => if len < 0 then throw .illegalArgument else times r len.toNat) ?_
    rw [if_neg (by omega), Int.toNat_natCast]
    exact Reads.times h
  optional_none r :=
    (reads_get [0]).bind (k := fun flag => if flag = [0] then pure none else some <$> r) (Reads.pure none)
  optional_some r b y h :=
    (reads_get [1]).bind (k := fun flag => if flag = [0] then pure none else some <$> r) (h.map some)
  signerType s := by cases s <;> rfl
  errorKind k := by cases k <;> rfl

theorem writer_lawful :
    writer.Lawful Holds (fun _ => True) (fun _ => True) fun b s => FfiConverterString.toUtf8 s = .ok b where
  byte b := writes_put [b]
  int32 i _ _ := writes_put (int32 i)
  uint64 n := writes_put (uint64 n)
  count n _ := writes_put (int32 n)
  string b s _ hbs := by
    change Writes Holds (FfiConverterString.write s) _
    rw [FfiConverterString.write, hbs]
    exact (writes_put (int32 b.length)).bind (k := fun _ => put b) (writes_put b)

private theorem steady_get (n : Nat) : Steady Feeds (get n) := by
  intro buf bytes b buf' hs h
  have hlen := length_of_feeds hs
  by_cases hn : n ≤ buf.data.length - buf.position
  · have hb : b.length = n ∧ bytes = b ++ bytes.drop n := by
      change (if n ≤ buf.data.length - buf.position then _ else _) = _ at h
      rw [if_pos hn, hs.2] at h
      obtain ⟨rfl, -⟩ := Prod.mk.inj (Except.ok.inj h)
      exact ⟨List.length_take_of_le (by omega), (List.take_append_drop n bytes).symm⟩
    obtain ⟨rfl, hbytes⟩ := hb
    rw [hbytes] at hs
    exact ⟨b, _, hbytes, reads_get b, ((reads_get b).result hs h).2⟩
  · change (if n ≤ buf.data.length - buf.position then _ else _) = _ at h
    rw [if_neg hn] at h
    cases h

theorem reader_steady : reader.Steady Feeds where
  int32 := (steady_get 4).bind fun _ => .pure _
  uint64 := (steady_get 8).bind fun _ => .pure _
  string := by
    refine ((steady_get 4).bind fun _ => .pure _).bind fun len => ?_
    split
    · exact .throw _
    · exact (steady_get _).bind fun _ => .pure _
  sequence hr := by
    refine ((steady_get 4).bind fun _ => .pure _).bind fun len => ?_
    split
    · exact .throw _
    · exact hr.times _
  optional hr := by
    refine (steady_get 1).bind fun flag => ?_
    split
    · exact .pure _
    · exact hr.bind fun _ => .pure _

theorem toUtf8_eq_ok_iff {s : JString} {b : Bytes} :
    FfiConverterString.toUtf8 s = .ok b ↔ ∃ text, s = encode16 text ∧ b = encode text := by
  unfold FfiConverterString.toUtf8
  cases h : decode16 s with
  | none =>
    constructor
    · intro hb
      cases hb
    · rintro ⟨text, rfl, -⟩
      rw [decode16_encode16] at h
      cases h
  | some text =>
    rw [decode16_eq_some_iff.mp h]
    constructor
    · intro hb
      cases hb
      exact ⟨text, rfl, rfl⟩
    · rintro ⟨text', htext, rfl⟩
      rw [encode16_injective htext]

/-- A string that is written is the UTF-16 of a text. -/
theorem writer_demands : writer.Demands (fun s => ∃ text, s = encode16 text ∧ True) fun _ => True where
  string {s st st'} h := by
    obtain ⟨b, st₁, hb, -⟩ := run_bind_eq_ok_iff.mp h
    obtain ⟨b', hutf8, -⟩ := Collect.bind_eq_ok_iff.mp hb
    obtain ⟨text, htext, -⟩ := toUtf8_eq_ok_iff.mp hutf8
    exact ⟨text, htext, trivial⟩
  count _ := trivial

/-! ### Lowering and lifting -/

theorem byteBuffer_eq_ok_iff {data : Bytes} {buf : ByteBuffer} :
    byteBuffer data = .ok buf ↔ Short data.length ∧ buf = ⟨data, 0⟩ := by
  unfold byteBuffer
  by_cases h : Short data.length
  · rw [if_pos h]
    constructor
    · intro hbuf
      cases hbuf
      exact ⟨h, rfl⟩
    · rintro ⟨-, rfl⟩
      rfl
  · rw [if_neg h]
    constructor
    · intro hbuf
      cases hbuf
    · rintro ⟨hshort, -⟩
      exact absurd hshort h

/-- A value of well-formed strings whose block is not too large is lowered to its bytes: three bytes for each code
unit are enough. -/
theorem lower_bytes (R : RustBufferApi) {t : Ty} (a : t.Val (List Char))
    (hsize : Short (R.alloc ((ffiConverter t).allocationSize (t.map encode16 a))).capacity) :
    ∃ buf, (ffiConverter t).lowerIntoRustBuffer R (t.map encode16 a) = .ok buf ∧
      buf.bytes = wire t (t.map encode a) ∧ buf.len ≤ buf.capacity ∧ Short buf.capacity := by
  have hrel : t.Rel (fun b s => FfiConverterString.toUtf8 s = .ok b) (t.map encode a) (t.map encode16 a) :=
    Ty.rel_map (R := fun b s => FfiConverterString.toUtf8 s = .ok b)
      (fun text => toUtf8_eq_ok_iff.mpr ⟨text, rfl, rfl⟩) t a
  generalize ht : t.map encode16 a = v at hrel hsize ⊢
  generalize t.map encode a = c at hrel ⊢
  have henough : (wire t c).length ≤ (ffiConverter t).allocationSize v := by
    rw [wire_length, allocationSize_eq]
    refine allocationSize_le ?_ t hrel
    intro b s hbs
    obtain ⟨text, rfl, rfl⟩ := toUtf8_eq_ok_iff.mp hbs
    have := length_encode_le text
    unfold FfiConverterString.allocationSize
    omega
  have hcap := R.alloc_capacity ((ffiConverter t).allocationSize v)
  generalize hbuf : R.alloc ((ffiConverter t).allocationSize v) = rbuf at hcap hsize
  have hroom : Holds ⟨rbuf.data, 0⟩ [] ((wire t c).length + (rbuf.capacity - (wire t c).length)) := by
    refine ⟨rfl, ?_⟩
    change 0 + _ = rbuf.capacity
    omega
  obtain ⟨bbuf, hrun, hout, hend⟩ := writer_lawful.writes t (Ty.all_of_forall (fun _ => trivial) (fun _ => trivial) c)
    hrel _ _ _ hroom
  have hlength : bbuf.data.length = rbuf.capacity := by
    have hpos := congrArg List.length hout
    rw [List.nil_append, List.length_take] at hpos
    omega
  refine ⟨⟨bbuf.data, bbuf.position⟩, ?_, hout, ?_, ?_⟩
  · rw [FfiConverter.lowerIntoRustBuffer, hbuf, write_eq]
    exact Collect.bind_eq_ok_iff.mpr ⟨_, byteBuffer_eq_ok_iff.mpr ⟨hsize, rfl⟩,
      Collect.bind_eq_ok_iff.mpr ⟨((), bbuf), hrun, rfl⟩⟩
  · change bbuf.position ≤ bbuf.data.length
    omega
  · change Short bbuf.data.length
    rwa [hlength]

/-- What is lowered is made of texts, and its block is not too large. -/
theorem text_of_lower {R : RustBufferApi} {t : Ty} {v : t.Val JString} {buf : RustBuffer}
    (h : (ffiConverter t).lowerIntoRustBuffer R v = .ok buf) :
    (∃ a : t.Val (List Char), v = t.map encode16 a) ∧ Short (R.alloc ((ffiConverter t).allocationSize v)).capacity := by
  obtain ⟨start, hstart, h⟩ := Collect.bind_eq_ok_iff.mp h
  obtain ⟨⟨u, bbuf⟩, hrun, -⟩ := Collect.bind_eq_ok_iff.mp h
  rw [write_eq] at hrun
  obtain ⟨a, ha, -⟩ := Ty.exists_map (writer_demands.all t hrun)
  exact ⟨⟨a, ha⟩, (byteBuffer_eq_ok_iff.mp hstart).1⟩

/-- Exactly the values whose strings are well-formed UTF-16 and whose block is not too large are lowered. -/
theorem lower_iff_utf16 (R : RustBufferApi) {t : Ty} (v : t.Val JString) :
    (∃ buf, (ffiConverter t).lowerIntoRustBuffer R v = .ok buf) ↔
      (∃ a : t.Val (List Char), v = t.map encode16 a) ∧ Short (R.alloc ((ffiConverter t).allocationSize v)).capacity := by
  constructor
  · rintro ⟨buf, hbuf⟩
    exact text_of_lower hbuf
  · rintro ⟨⟨a, rfl⟩, hsize⟩
    obtain ⟨buf, hbuf, -⟩ := lower_bytes R a hsize
    exact ⟨buf, hbuf⟩

/-- A buffer is lifted when the converter comes to its end. -/
theorem lift_eq_ok_iff {t : Ty} {buf : RustBuffer} {v : t.Val JString} :
    (ffiConverter t).liftFromRustBuffer buf = .ok v ↔ Short buf.bytes.length ∧
      ∃ bbuf, (Ffi.read reader t).run ⟨buf.bytes, 0⟩ = .ok (v, bbuf) ∧ Feeds bbuf [] := by
  have hstart : Feeds ⟨buf.bytes, 0⟩ buf.bytes := ⟨Nat.zero_le _, rfl⟩
  constructor
  · intro h
    obtain ⟨start, hbuf, h⟩ := Collect.bind_eq_ok_iff.mp h
    obtain ⟨hshort, rfl⟩ := byteBuffer_eq_ok_iff.mp hbuf
    obtain ⟨⟨a, bbuf⟩, hrun, h⟩ := Collect.bind_eq_ok_iff.mp h
    rw [read_eq] at hrun
    obtain ⟨_, rest, -, -, hrest⟩ := reader_steady.steady t _ _ _ _ hstart hrun
    have hlen := length_of_feeds hrest
    dsimp only at h
    split at h
    · cases h
    · cases h
      have hnil : rest = [] := List.eq_nil_of_length_eq_zero (by omega)
      exact ⟨hshort, bbuf, hrun, hnil ▸ hrest⟩
  · rintro ⟨hshort, bbuf, hrun, hend⟩
    have hlen := length_of_feeds hend
    rw [List.length_nil] at hlen
    refine Collect.bind_eq_ok_iff.mpr ⟨_, byteBuffer_eq_ok_iff.mpr ⟨hshort, rfl⟩,
      Collect.bind_eq_ok_iff.mpr ⟨(v, bbuf), by rw [read_eq]; exact hrun, ?_⟩⟩
    dsimp only
    rw [if_neg (by omega)]
    rfl

/-- The converter stops behind the bytes of the value. -/
private theorem run_read {t : Ty} {c : t.Val Bytes} (hfits : t.Fits c) {buf : RustBuffer} {junk : Bytes}
    (h : buf.bytes = wire t c ++ junk) : ∃ bbuf,
      (Ffi.read reader t).run ⟨buf.bytes, 0⟩ = .ok (t.map FfiConverterString.ofUtf8 c, bbuf) ∧ Feeds bbuf junk := by
  have hfeeds : Feeds ⟨buf.bytes, 0⟩ (wire t c ++ junk) := ⟨Nat.zero_le _, h⟩
  exact reader_lawful.reads t hfits (Ty.rel_map_self FfiConverterString.ofUtf8 c) _ _ hfeeds

/-- The bytes of a value, with nothing behind them, are lifted to it. -/
theorem lift_wire {t : Ty} {c : t.Val Bytes} {buf : RustBuffer} (h : buf.bytes = wire t c)
    (hshort : Short buf.bytes.length) :
    (ffiConverter t).liftFromRustBuffer buf = .ok (t.map FfiConverterString.ofUtf8 c) := by
  have hfits : t.Fits c := fits_of_wire (by rwa [h] at hshort)
  have hnil : buf.bytes = wire t c ++ [] := by rw [h, List.append_nil]
  exact lift_eq_ok_iff.mpr ⟨hshort, run_read hfits hnil⟩

/-- Bytes behind those of a value are refused. -/
theorem lift_junk {t : Ty} {c : t.Val Bytes} {buf : RustBuffer} {junk : Bytes} (hjunk : junk ≠ [])
    (h : buf.bytes = wire t c ++ junk) (hshort : Short buf.bytes.length) : (ffiConverter t).liftFromRustBuffer buf =
      .error (.runtime "junk remaining in buffer after lifting, something is very wrong!!") := by
  have hfits : t.Fits c := by
    refine fits_of_wire ?_
    rw [h, List.length_append] at hshort
    unfold Short at *
    omega
  obtain ⟨bbuf, hrun, hend⟩ := run_read hfits h
  rw [← read_eq] at hrun
  have hrest := length_of_feeds hend
  have hpos := List.length_pos_iff.mpr hjunk
  refine Collect.bind_eq_error_iff.mpr (.inr ⟨_, byteBuffer_eq_ok_iff.mpr ⟨hshort, rfl⟩,
    Collect.bind_eq_error_iff.mpr (.inr ⟨_, hrun, ?_⟩)⟩)
  dsimp only
  rw [if_pos (by omega)]
  rfl

/-- Whatever is lowered is lifted back. -/
theorem lift_lower (R : RustBufferApi) {t : Ty} {v : t.Val JString} {buf : RustBuffer}
    (h : (ffiConverter t).lowerIntoRustBuffer R v = .ok buf) : (ffiConverter t).liftFromRustBuffer buf = .ok v := by
  obtain ⟨⟨a, rfl⟩, hsize⟩ := text_of_lower h
  obtain ⟨hbytes, -, hcap⟩ := Collect.of_eq_ok h (lower_bytes R a hsize)
  have hshort : Short buf.bytes.length := by
    have : buf.bytes.length ≤ buf.data.length := List.length_take_le' buf.len buf.data
    unfold RustBuffer.capacity at hcap
    unfold Short at *
    omega
  have hback : t.map FfiConverterString.ofUtf8 (t.map encode a) = t.map encode16 a := by
    symm
    refine Ty.eq_map_of_rel (R := fun b s => s = FfiConverterString.ofUtf8 b) (fun _ _ h => h) ?_
    refine Ty.rel_map (R := fun b s => s = FfiConverterString.ofUtf8 b) (fun text => ?_) t a
    rw [FfiConverterString.ofUtf8, decode_encode]
  rw [lift_wire hbytes hshort, hback]

theorem lift_lower_optionalString : ∃ buf,
    (ffiConverter .optionalString).lowerIntoRustBuffer .vec (some (encode16 ['h', 'i'])) = .ok buf ∧
      (ffiConverter .optionalString).liftFromRustBuffer buf = .ok (some (encode16 ['h', 'i'])) := by
  have hsize : Short (RustBufferApi.vec.alloc ((ffiConverter .optionalString).allocationSize
      (Ty.optionalString.map encode16 (some ['h', 'i'])))).capacity := by
    change Short (List.replicate 11 (0 : UInt8)).length
    rw [List.length_replicate]
    change 11 < 2 ^ 31
    omega
  obtain ⟨buf, hbuf, -⟩ := lower_bytes .vec (t := .optionalString) (some ['h', 'i']) hsize
  exact ⟨buf, hbuf, lift_lower .vec hbuf⟩

/-- No accepted buffer is the beginning of another: neither a truncated nor a prolonged one is accepted. -/
theorem lift_prefix {t : Ty} {buf buf' : RustBuffer} {v v' : t.Val JString} {junk : Bytes}
    (h : (ffiConverter t).liftFromRustBuffer buf = .ok v) (h' : (ffiConverter t).liftFromRustBuffer buf' = .ok v')
    (hbytes : buf'.bytes = buf.bytes ++ junk) : junk = [] ∧ v' = v := by
  obtain ⟨-, bbuf, hrun, hend⟩ := lift_eq_ok_iff.mp h
  obtain ⟨-, bbuf', hrun', hend'⟩ := lift_eq_ok_iff.mp h'
  obtain ⟨taken, rest, htaken, hreads, hrest⟩ := reader_steady.steady t _ _ _ _ ⟨Nat.zero_le _, rfl⟩ hrun
  have hnil : rest = [] := hrest.2.symm.trans hend.2
  rw [hnil, List.append_nil] at htaken
  have hstart : Feeds ⟨buf'.bytes, 0⟩ (taken ++ junk) := by
    rw [← htaken]
    exact ⟨Nat.zero_le _, hbytes⟩
  obtain ⟨rfl, hjunk⟩ := hreads.result hstart hrun'
  exact ⟨hjunk.2.symm.trans hend'.2, rfl⟩

/-- The bytes of a string that is not UTF-8, in a block of seven bytes and in one of eight. -/
theorem lift_prefix_malformed : ∃ v v',
    (ffiConverter .optionalString).liftFromRustBuffer ⟨wire .optionalString (some [104, 255]), 7⟩ = .ok v ∧
      (ffiConverter .optionalString).liftFromRustBuffer ⟨wire .optionalString (some [104, 255]) ++ [9], 7⟩ = .ok v' ∧
      v' = v := by
  have hlength : (wire .optionalString (some ([104, 255] : Bytes))).length = 7 := wire_length _ _
  have hseven : (⟨wire .optionalString (some [104, 255]), 7⟩ : RustBuffer).bytes =
      wire .optionalString (some [104, 255]) := List.take_of_length_le (Nat.le_of_eq hlength)
  have height : (⟨wire .optionalString (some [104, 255]) ++ [9], 7⟩ : RustBuffer).bytes =
      wire .optionalString (some [104, 255]) := List.take_left' hlength
  have hshort : Short (wire .optionalString (some ([104, 255] : Bytes))).length := by
    rw [hlength]
    change 7 < 2 ^ 31
    omega
  have hlift := lift_wire (t := .optionalString) hseven (by rwa [hseven])
  have hlift' := lift_wire (t := .optionalString) height (by rwa [height])
  have hbytes : (⟨wire .optionalString (some [104, 255]) ++ [9], 7⟩ : RustBuffer).bytes =
      (⟨wire .optionalString (some [104, 255]), 7⟩ : RustBuffer).bytes ++ [] := by rw [hseven, height, List.append_nil]
  obtain ⟨-, hsame⟩ := lift_prefix (t := .optionalString) hlift hlift' hbytes
  exact ⟨_, _, hlift, hlift', hsame⟩

/-- A buffer that ends behind the variant of an error is refused. -/
theorem lift_kind {k : ErrorKind} {buf : RustBuffer} (h : buf.bytes = int32 k.index) :
    FfiConverterTypeControllerError.liftFromRustBuffer buf = .error .bufferUnderflow := by
  have hshort : Short buf.bytes.length := by
    rw [h, int32_length]
    change 4 < 2 ^ 31
    omega
  have hkind := reader_lawful.readsVariant (by cases k <;> decide) (reader_lawful.errorKind k)
  obtain ⟨s, hrun, hs⟩ := hkind ⟨buf.bytes, 0⟩ [] ⟨Nat.zero_le _, by rw [List.append_nil, ← h]; rfl⟩
  have hend := length_of_feeds hs
  have hget : (get 4).run s = .error .bufferUnderflow := by
    change (if 4 ≤ s.data.length - s.position then _ else _) = _
    rw [if_neg (by rw [hend]; decide)]
  have hstring : FfiConverterString.read.run s = .error .bufferUnderflow :=
    run_bind_eq_error_iff.mpr (.inl (run_bind_eq_error_iff.mpr (.inl hget)))
  have hread : (readControllerError reader).run ⟨buf.bytes, 0⟩ = .error .bufferUnderflow :=
    run_bind_eq_error_iff.mpr (.inr ⟨_, s, hrun, run_bind_eq_error_iff.mpr (.inl hstring)⟩)
  exact Collect.bind_eq_error_iff.mpr (.inr ⟨_, byteBuffer_eq_ok_iff.mpr ⟨hshort, rfl⟩,
    Collect.bind_eq_error_iff.mpr (.inl hread)⟩)

/-! ### Strings alone -/

/-- A text is lowered to its UTF-8, and that fills the buffer. -/
theorem lower_string (R : RustBufferApi) {text : List Char} (hshort : Short (encode text).length) :
    ∃ buf, FfiConverterString.lower R (encode16 text) = .ok buf ∧ buf.bytes = encode text := by
  have hlen := R.alloc_len (encode text).length
  have hcap := R.alloc_capacity (encode text).length
  generalize hrbuf : R.alloc (encode text).length = rbuf at hlen hcap
  unfold RustBuffer.capacity at hcap
  have hbytes : rbuf.bytes.length = (encode text).length := by
    rw [RustBuffer.bytes, hlen, List.length_take_of_le hcap]
  have hroom : Holds ⟨rbuf.bytes, 0⟩ [] ((encode text).length + 0) := ⟨rfl, by dsimp only; omega⟩
  obtain ⟨bbuf, hrun, hout, hend⟩ := writes_put (encode text) _ _ _ hroom
  rw [List.nil_append] at hout
  refine ⟨{ rbuf with data := bbuf.data ++ rbuf.data.drop rbuf.len }, ?_, ?_⟩
  · rw [FfiConverterString.lower, toUtf8_eq_ok_iff.mpr ⟨text, rfl, rfl⟩]
    refine Collect.bind_eq_ok_iff.mpr ⟨_, rfl, ?_⟩
    rw [hrbuf]
    exact Collect.bind_eq_ok_iff.mpr ⟨_, byteBuffer_eq_ok_iff.mpr ⟨by rwa [hbytes], rfl⟩,
      Collect.bind_eq_ok_iff.mpr ⟨((), bbuf), hrun, rfl⟩⟩
  · -- the put has come to the end of the data
    have hpos := congrArg List.length hout
    rw [List.length_take] at hpos
    have hdata : bbuf.data = encode text := by
      rw [← hout, List.take_of_length_le (by omega)]
    rw [RustBuffer.bytes, hlen, hdata, List.take_left]

/-- Any bytes are lifted to their text, malformed ones replaced. -/
theorem lift_string {buf : RustBuffer} (hlen : buf.len ≤ buf.capacity) (hshort : Short buf.len) :
    FfiConverterString.lift buf = .ok (FfiConverterString.ofUtf8 buf.bytes) := by
  have hbytes : buf.bytes.length = buf.len := List.length_take_of_le hlen
  have hcast : Int.bmod buf.len (2 ^ 32) = buf.len := bmod_of_lt hshort
  obtain ⟨bbuf, hrun, -⟩ := reads_get buf.bytes ⟨buf.bytes, 0⟩ [] ⟨Nat.zero_le _, (List.append_nil _).symm⟩
  unfold FfiConverterString.lift
  rw [hcast, if_neg (by omega), Int.toNat_natCast]
  rw [hbytes] at hrun
  exact Collect.bind_eq_ok_iff.mpr ⟨_, byteBuffer_eq_ok_iff.mpr ⟨by rwa [hbytes], rfl⟩,
    Collect.bind_eq_ok_iff.mpr ⟨_, hrun, rfl⟩⟩

end ControllerUniffi.Ffi.Kotlin
