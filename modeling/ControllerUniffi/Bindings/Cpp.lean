import ControllerUniffi.Bindings.Converter
import ControllerUniffi.Bindings.RustBuffer

/-!
# The C++ bindings

`RustStream` over a buffer, the converters and `lift` and `lower`.  The stream never throws: a short read leaves the
integer it was to fill indeterminate and the stream failed, a write that does not fit stores what fits and nothing
after it.  Nobody looks at the state of the stream, so that a converter goes on with an indeterminate integer, which is
undefined behaviour and not an exception.  `lift` does not look at what is left in the buffer.

An error is the string that its exception is made from; `what()` shows that up to its first zero byte.
-/

namespace ControllerUniffi.Ffi.Cpp

open Wire

/-- What a converter throws. -/
inductive Thrown where
  | lengthError
  | runtimeError (what : String)
  deriving DecidableEq, Repr

/-- Why a converter is not known to return a value: it throws, or it uses an integer that was never filled. -/
inductive Fault where
  | thrown (e : Thrown)
  | undefined
  deriving DecidableEq, Repr

/-- The get area is the used part of the buffer, the put area the whole block. -/
structure RustStream where
  data : Bytes
  len : Nat
  gptr : Nat
  pptr : Nat
  good : Bool
  deriving DecidableEq, Repr

namespace RustStream

def of (buf : RustBuffer) : RustStream := ⟨buf.data, buf.len, 0, 0, true⟩

/-- What is left of the get area. -/
def input (s : RustStream) : Bytes := (s.data.take s.len).drop s.gptr

/-- `read`: the bytes that were stored, at most `n`. -/
def read (s : RustStream) (n : Nat) : Bytes × RustStream :=
  if s.good then
    (s.input.take n, { s with gptr := s.gptr + n, good := n ≤ s.input.length })
  else ([], s)

/-- `write` -/
def write (s : RustStream) (bytes : Bytes) : RustStream :=
  if s.good then
    let stored := bytes.take (s.data.length - s.pptr)
    { s with
      data := store s.data s.pptr stored
      pptr := s.pptr + stored.length
      good := bytes.length ≤ s.data.length - s.pptr }
  else s

end RustStream

abbrev Stream := StateT RustStream (Except Fault)

/-- `stream >> val` for an integer of `n` bytes, and `get`; every converter goes on to use what it has extracted. -/
def extract (n : Nat) : Stream Bytes := fun s =>
  if (s.read n).1.length = n then .ok (s.read n) else .error .undefined

def extractInt32 : Stream Int := return ofInt32 (← extract 4)

def insert (bytes : Bytes) : Stream Unit := fun s => .ok ((), s.write bytes)

/-- `static_cast<int32_t>` of a length -/
def castInt32 (n : Nat) : Int := Int.bmod n (2 ^ 32)

namespace FfiConverterUInt64

def read : Stream UInt64 := return ofUInt64 (← extract 8)

def write (val : UInt64) : Stream Unit := insert (uint64 val)

end FfiConverterUInt64

namespace FfiConverterString

/-- `read` into a string of `n` zeros. -/
def fill (n : Nat) : Stream Bytes := fun s =>
  .ok ((s.read n).1 ++ List.replicate (n - (s.read n).1.length) 0, (s.read n).2)

/-- A negative length is one that `resize` refuses. -/
def read : Stream Bytes := do
  let len ← extractInt32
  if len < 0 then throw (.thrown .lengthError) else fill len.toNat

def write (val : Bytes) : Stream Unit := do
  insert (int32 (castInt32 val.length))
  insert val

def allocationSize (val : Bytes) : Nat := 4 + val.length

end FfiConverterString

/-- `std::vector`: a negative count is a length that `reserve` refuses. -/
def readSequence {α : Type} (read : Stream α) : Stream (List α) := do
  let count ← extractInt32
  if count < 0 then throw (.thrown .lengthError) else times read count.toNat

def readOptional {α : Type} (read : Stream α) : Stream (Option α) := do
  let hasValue ← extract 1
  if hasValue = [0] then return none else return some (← read)

def selectSignerType : Int → Except Fault SignerType
  | 1 => .ok .webauthn
  | 2 => .ok .starknet
  | _ => .error (.thrown (.runtimeError "No matching SignerType variant"))

def selectVersion : Int → Except Fault Version
  | 1 => .ok .v104
  | 2 => .ok .v105
  | 3 => .ok .v106
  | 4 => .ok .v107
  | 5 => .ok .v108
  | 6 => .ok .v109
  | 7 => .ok .latest
  | _ => .error (.thrown (.runtimeError "No matching Version variant"))

def selectError : Int → Except Fault ErrorKind
  | 1 => .ok .initializationError
  | 2 => .ok .signupError
  | 3 => .ok .executionError
  | 4 => .ok .networkError
  | 5 => .ok .storageError
  | 6 => .ok .invalidInput
  | 7 => .ok .disconnectError
  | _ => .error (.thrown (.runtimeError "Unexpected error variant"))

def reader : Reader RustStream Fault Bytes where
  int32 := extractInt32
  uint64 := FfiConverterUInt64.read
  string := FfiConverterString.read
  sequence := readSequence
  optional := readOptional
  signerType := selectSignerType
  errorKind := selectError

def writer : Writer RustStream Fault Bytes where
  byte b := insert [b]
  int32 i := insert (int32 i)
  uint64 := FfiConverterUInt64.write
  count n := insert (int32 (castInt32 n))
  string := FfiConverterString.write

/-! ### The converters -/

structure FfiConverter (α : Type) where
  read : Stream α
  write : α → Stream Unit
  allocationSize : α → Nat

/-- What comes of lifting a buffer: a value or an exception, and whether the buffer is freed, or undefined behaviour. -/
inductive Lifted (α : Type) where
  | defined (result : Except Thrown α) (freed : Bool)
  | undefined

namespace FfiConverterString

def lift (buf : RustBuffer) : Lifted Bytes := .defined (.ok buf.bytes) true

/-- The library is told the length as a signed integer of 32 bits; its panic comes back as a `runtime_error`. -/
def lower (R : RustBufferApi) (val : Bytes) : Except Fault RustBuffer :=
  (R.fromBytes (castInt32 val.length) val).mapError fun message => .thrown (.runtimeError message)

end FfiConverterString

namespace FfiConverter

variable {α : Type} (C : FfiConverter α)

/-- An exception passes by the freeing of the buffer. -/
def lift (buf : RustBuffer) : Lifted α :=
  match C.read.run (RustStream.of buf) with
  | .ok (ret, _) => .defined (.ok ret) true
  | .error (.thrown e) => .defined (.error e) false
  | .error .undefined => .undefined

def lower (R : RustBufferApi) (val : α) : Except Fault RustBuffer := do
  let buf := R.alloc (C.allocationSize val)
  let (_, stream) ← (C.write val).run (RustStream.of buf)
  return { buf with data := stream.data }

end FfiConverter

def FfiConverterTypeCall : FfiConverter (Call Bytes) :=
  ⟨readCall reader, writeCall writer, sizeCall FfiConverterString.allocationSize⟩

def FfiConverterTypeSessionPolicy : FfiConverter (SessionPolicy Bytes) :=
  ⟨readSessionPolicy reader, writeSessionPolicy writer, sizeSessionPolicy FfiConverterString.allocationSize⟩

def FfiConverterTypeSessionPolicies : FfiConverter (SessionPolicies Bytes) where
  read := readSessionPolicies reader
  write := writeSessionPolicies writer
  allocationSize p :=
    sizeSequence FfiConverterTypeSessionPolicy.allocationSize p.policies + FfiConverterString.allocationSize p.maxFee

/-- `what()`: a string that ends at the first zero byte. -/
def what (e : ControllerError Bytes) : Bytes := e.message.takeWhile (· ≠ 0)

/-- The size counts the variant only. -/
def FfiConverterControllerError : FfiConverter (ControllerError Bytes) where
  read := readControllerError reader
  write e := do
    insert (int32 e.kind.index)
    FfiConverterString.write (what e)
  allocationSize _ := 4

def FfiConverterSignerType : FfiConverter SignerType :=
  ⟨readVariant reader selectSignerType, fun s => insert (int32 (signerTypeIndex s)), fun _ => 4⟩

def FfiConverterVersion : FfiConverter Version :=
  ⟨readVariant reader selectVersion, fun v => insert (int32 v.index), fun _ => 4⟩

def FfiConverterOptionalUInt64 : FfiConverter (Option UInt64) :=
  ⟨readOptional FfiConverterUInt64.read, writeOptional writer FfiConverterUInt64.write, sizeOptional fun _ => 8⟩

def FfiConverterOptionalString : FfiConverter (Option Bytes) :=
  ⟨readOptional FfiConverterString.read, writeOptional writer FfiConverterString.write,
    sizeOptional FfiConverterString.allocationSize⟩

def FfiConverterSequence {α : Type} (C : FfiConverter α) : FfiConverter (List α) :=
  ⟨readSequence C.read, writeSequence writer C.write, sizeSequence C.allocationSize⟩

def FfiConverterSequenceTypeCall : FfiConverter (List (Call Bytes)) := FfiConverterSequence FfiConverterTypeCall

def FfiConverterSequenceTypeSessionPolicy : FfiConverter (List (SessionPolicy Bytes)) :=
  FfiConverterSequence FfiConverterTypeSessionPolicy

def FfiConverterSequenceTypeFieldElement : FfiConverter (List Bytes) :=
  ⟨readSequence FfiConverterString.read, writeSequence writer FfiConverterString.write,
    sizeSequence FfiConverterString.allocationSize⟩

def ffiConverter : (t : Ty) → FfiConverter (t.Val Bytes)
  | .call => FfiConverterTypeCall
  | .sessionPolicy => FfiConverterTypeSessionPolicy
  | .sessionPolicies => FfiConverterTypeSessionPolicies
  | .controllerError => FfiConverterControllerError
  | .signerType => FfiConverterSignerType
  | .optionalUInt64 => FfiConverterOptionalUInt64
  | .optionalString => FfiConverterOptionalString
  | .sequenceCall => FfiConverterSequenceTypeCall
  | .sequenceSessionPolicy => FfiConverterSequenceTypeSessionPolicy
  | .sequenceFieldElement => FfiConverterSequenceTypeFieldElement

theorem read_eq (t : Ty) : (ffiConverter t).read = Ffi.read reader t := by cases t <;> rfl

theorem write_eq {t : Ty} (ht : t ≠ .controllerError) : (ffiConverter t).write = Ffi.write writer t := by
  cases t with
  | controllerError => exact absurd rfl ht
  | _ => rfl

theorem allocationSize_eq {t : Ty} (ht : t ≠ .controllerError) :
    (ffiConverter t).allocationSize = Ffi.allocationSize FfiConverterString.allocationSize t := by
  cases t with
  | controllerError => exact absurd rfl ht
  | _ => rfl

/-! ### The primitives -/

/-- The stream is good and has `bytes` before it. -/
def Feeds (s : RustStream) (bytes : Bytes) : Prop := s.good = true ∧ s.input = bytes

/-- The stream is good, has stored `out` and has room for `room` more bytes. -/
def Holds (s : RustStream) (out : Bytes) (room : Nat) : Prop :=
  s.good = true ∧ s.data.take s.pptr = out ∧ s.pptr + room = s.data.length

private theorem read_of_feeds {s : RustStream} {first rest : Bytes} (h : Feeds s (first ++ rest)) :
    (s.read first.length).1 = first ∧ Feeds (s.read first.length).2 rest := by
  obtain ⟨hgood, hinput⟩ := h
  have hdrop : ((s.data.take s.len).drop (s.gptr + first.length)) = rest := by
    rw [← List.drop_drop, show (s.data.take s.len).drop s.gptr = s.input from rfl, hinput, List.drop_left]
  simp only [RustStream.read, hgood, ↓reduceIte, hinput, List.take_left]
  refine ⟨trivial, ?_, hdrop⟩
  simp

theorem reads_extract (bytes : Bytes) : Reads Feeds (extract bytes.length) bytes bytes := by
  intro s rest h
  obtain ⟨hread, hfeeds⟩ := read_of_feeds h
  have hpair : s.read bytes.length = (bytes, (s.read bytes.length).2) := Prod.ext hread rfl
  refine ⟨(s.read bytes.length).2, ?_, hfeeds⟩
  change (if (s.read bytes.length).1.length = bytes.length then Except.ok (s.read bytes.length) else _) = _
  rw [hread, if_pos rfl, ← hpair]

theorem writes_insert (bytes : Bytes) : Writes Holds (insert bytes) bytes := by
  rintro s out room ⟨hgood, hout, hroom⟩
  have hfit : bytes.length ≤ s.data.length - s.pptr := by omega
  have hstored : bytes.take (s.data.length - s.pptr) = bytes := List.take_of_length_le hfit
  refine ⟨s.write bytes, rfl, ?_⟩
  simp only [RustStream.write, hgood, ↓reduceIte, hstored, Holds, hfit, decide_true, true_and]
  rw [take_store (by omega), store_length (by omega), hout]
  exact ⟨rfl, by omega⟩

private theorem reads_extractInt32 (i : Int) : Reads Feeds extractInt32 (int32 i) (i.bmod (2 ^ 32)) := by
  have := (reads_extract (int32 i)).map ofInt32
  rwa [int32_length, ofInt32_int32] at this

private theorem reads_length {n : Nat} (h : Short n) : Reads Feeds extractInt32 (int32 n) n := by
  have := reads_extractInt32 n
  rwa [bmod_of_lt h] at this

private theorem reads_fill (b : Bytes) : Reads Feeds (FfiConverterString.fill b.length) b b := by
  intro s rest h
  obtain ⟨hread, hfeeds⟩ := read_of_feeds h
  refine ⟨(s.read b.length).2, ?_, hfeeds⟩
  change Except.ok ((s.read b.length).1 ++ List.replicate (b.length - (s.read b.length).1.length) 0, _) = _
  rw [hread, Nat.sub_self, List.replicate_zero, List.append_nil]

private theorem length_of_fill {n : Nat} {s s' : RustStream} {b : Bytes}
    (h : (FfiConverterString.fill n).run s = .ok (b, s')) : b.length = n := by
  have hle : (s.read n).1.length ≤ n := by
    unfold RustStream.read
    split
    · exact List.length_take_le n s.input
    · exact Nat.zero_le n
  cases h
  rw [List.length_append, List.length_replicate]
  omega

private theorem reads_string {b : Bytes} (h : Short b.length) : Reads Feeds FfiConverterString.read (string b) b := by
  refine (reads_length h).bind
    (k := fun len => if len < 0 then throw (.thrown .lengthError) else FfiConverterString.fill len.toNat) ?_
  rw [if_neg (by omega), Int.toNat_natCast]
  exact reads_fill b

private theorem reads_sequence {α β : Type} {put : α → Bytes} {r : Stream β} {xs : List α} {ys : List β}
    (hlen : Short xs.length) (h : List.Forall₂ (fun x y => Reads Feeds r (put x) y) xs ys) :
    Reads Feeds (readSequence r) (Wire.sequence put xs) ys := by
  refine (reads_length hlen).bind
    (k := fun count => if count < 0 then throw (.thrown .lengthError) else times r count.toNat) ?_
  rw [if_neg (by omega), Int.toNat_natCast]
  exact Reads.times h

theorem reader_lawful : reader.Lawful Feeds Eq where
  int32 i h₁ h₂ := by
    have := reads_extractInt32 i
    rwa [bmod_of_range h₁ h₂] at this
  uint64 n := by
    have := (reads_extract (uint64 n)).map ofUInt64
    rwa [uint64_length, ofUInt64_uint64] at this
  string b s hlen hbs := by
    cases hbs
    exact reads_string hlen
  sequence put r xs ys hlen h := reads_sequence hlen h
  optional_none {β} r :=
    (reads_extract [0]).bind (k := fun hasValue => if hasValue = [0] then pure none else some <$> r) (Reads.pure none)
  optional_some r b y h :=
    (reads_extract [1]).bind (k := fun hasValue => if hasValue = [0] then pure none else some <$> r) (h.map some)
  signerType s := by cases s <;> rfl
  errorKind k := by cases k <;> rfl

/-- A length is wrapped, and the format keeps no more of it. -/
theorem int32_castInt32 (n : Nat) : int32 (castInt32 n) = int32 n := int32_bmod n

private theorem writes_length (n : Nat) : Writes Holds (insert (int32 (castInt32 n))) (int32 n) := by
  rw [int32_castInt32]
  exact writes_insert (int32 n)

theorem writer_lawful : writer.Lawful Holds (fun _ => True) (fun _ => True) Eq where
  byte b := writes_insert [b]
  int32 i _ _ := writes_insert (int32 i)
  uint64 n := writes_insert (uint64 n)
  count n _ := writes_length n
  string b s _ hbs := by
    cases hbs
    exact (writes_length b.length).bind (writes_insert b)

private theorem readsBack_string : ReadsBack Feeds FfiConverterString.read string fun s => Short s.length := by
  intro s rest a s' hs hrun
  rw [string, List.append_assoc] at hs
  obtain ⟨len, s₁, hlen, hrun⟩ := run_bind_eq_ok_iff.mp hrun
  obtain ⟨hcast, hs₁⟩ := (reads_extractInt32 a.length).result hs hlen
  by_cases hneg : len < 0
  · rw [if_pos hneg] at hrun
    cases hrun
  · rw [if_neg hneg] at hrun
    -- the string has the wrapped length, and it is the string that was written
    have hlength : len.toNat = a.length := by
      rw [← length_of_fill hrun]
    have hshort : Short a.length := lt_of_bmod_eq (by omega)
    rw [hlength] at hrun
    exact ⟨hshort, ((reads_fill a).result hs₁ hrun).2⟩

private theorem readsBack_sequence {α : Type} {r : Stream α} {put : α → Bytes} {Fits : α → Prop}
    (hr : ReadsBack Feeds r put Fits) :
    ReadsBack Feeds (readSequence r) (Wire.sequence put) fun xs => Short xs.length ∧ ∀ x ∈ xs, Fits x := by
  intro s rest as s' hs hrun
  rw [Wire.sequence, List.append_assoc] at hs
  obtain ⟨count, s₁, hcount, hrun⟩ := run_bind_eq_ok_iff.mp hrun
  obtain ⟨hcast, hs₁⟩ := (reads_extractInt32 as.length).result hs hcount
  by_cases hneg : count < 0
  · rw [if_pos hneg] at hrun
    cases hrun
  · rw [if_neg hneg] at hrun
    have hlength : as.length = count.toNat := length_of_times hrun
    have hshort : Short as.length := lt_of_bmod_eq (by omega)
    rw [← hlength] at hrun
    obtain ⟨hall, hs'⟩ := hr.times hs₁ hrun
    exact ⟨⟨hshort, hall⟩, hs'⟩

theorem reader_honest : reader.Honest Feeds where
  string := readsBack_string
  sequence := readsBack_sequence
  optional {α r put Fits} hr := by
    intro s rest x s' hs hrun
    obtain ⟨flag, s₁, hflag, hrun⟩ := run_bind_eq_ok_iff.mp hrun
    cases x with
    | none =>
      obtain ⟨rfl, hs₁⟩ := (reads_extract [0]).result hs hflag
      obtain ⟨-, rfl⟩ := run_pure_eq_ok_iff.mp hrun
      exact ⟨nofun, hs₁⟩
    | some a =>
      have hsome : Feeds s ([1] ++ (put a ++ rest)) := hs
      obtain ⟨rfl, hs₁⟩ := (reads_extract [1]).result hsome hflag
      obtain ⟨b, s₂, hb, hrun⟩ := run_bind_eq_ok_iff.mp hrun
      obtain ⟨heq, rfl⟩ := run_pure_eq_ok_iff.mp hrun
      cases heq
      obtain ⟨hfits, hs'⟩ := hr s₁ rest a s' hs₁ hb
      refine ⟨?_, hs'⟩
      rintro _ ⟨⟩
      exact hfits

/-! ### Lowering and lifting -/

theorem feeds_of (buf : RustBuffer) : Feeds (RustStream.of buf) buf.bytes := ⟨rfl, rfl⟩

theorem holds_of (buf : RustBuffer) : Holds (RustStream.of buf) [] buf.capacity :=
  ⟨rfl, rfl, Nat.zero_add _⟩

/-- What a stream has stored is where it has come to. -/
private theorem pptr_of_holds {s : RustStream} {out : Bytes} {room : Nat} (h : Holds s out room) :
    s.pptr = out.length := by
  obtain ⟨-, hout, hroom⟩ := h
  rw [← hout, List.length_take]
  omega

/-- A converter that counts what it writes fills the buffer exactly. -/
private theorem lower_of_writes (R : RustBufferApi) {α : Type} {C : FfiConverter α} {val : α} {bytes : Bytes}
    (hwrites : Writes Holds (C.write val) bytes) (hsize : C.allocationSize val = bytes.length) :
    ∃ buf, C.lower R val = .ok buf ∧ buf.bytes = bytes := by
  have hcap := R.alloc_capacity bytes.length
  obtain ⟨s, hrun, hholds⟩ := hwrites (RustStream.of (R.alloc bytes.length)) []
    ((R.alloc bytes.length).capacity - bytes.length) (by rw [Nat.add_sub_cancel' hcap]; exact holds_of _)
  rw [List.nil_append] at hholds
  refine ⟨{ R.alloc bytes.length with data := s.data }, ?_, ?_⟩
  · rw [FfiConverter.lower, hsize, hrun]
    rfl
  · rw [RustBuffer.bytes, R.alloc_len, ← pptr_of_holds hholds]
    exact hholds.2.1

/-- A value of any lengths is lowered to its bytes, which fill the buffer exactly. -/
theorem lower_bytes (R : RustBufferApi) {t : Ty} (ht : t ≠ .controllerError) (v : t.Val Bytes) :
    ∃ buf, (ffiConverter t).lower R v = .ok buf ∧ buf.bytes = wire t v := by
  refine lower_of_writes R ?_ ?_
  · rw [write_eq ht]
    exact writer_lawful.writes t (Ty.all_of_forall (fun _ => trivial) (fun _ => trivial) v) (Ty.rel_refl v)
  · rw [allocationSize_eq ht, wire_length]
    rfl

theorem lift_of_run {α : Type} {C : FfiConverter α} {buf : RustBuffer} {v : α} {s : RustStream}
    (h : C.read.run (RustStream.of buf) = .ok (v, s)) : C.lift buf = .defined (.ok v) true := by
  rw [FfiConverter.lift, h]

/-- The bytes of a value are lifted to it, and what is behind them is not looked at. -/
theorem lift_wire {t : Ty} {v : t.Val Bytes} (hfits : t.Fits v) {buf : RustBuffer} {junk : Bytes}
    (h : buf.bytes = wire t v ++ junk) : (ffiConverter t).lift buf = .defined (.ok v) true := by
  obtain ⟨s, hrun, -⟩ := reader_lawful.reads t hfits (Ty.rel_refl v) (RustStream.of buf) junk (h ▸ feeds_of buf)
  rw [← read_eq] at hrun
  exact lift_of_run hrun

theorem lift_eq_ok_iff {α : Type} {C : FfiConverter α} {buf : RustBuffer} {v : α} :
    C.lift buf = .defined (.ok v) true ↔ ∃ s, C.read.run (RustStream.of buf) = .ok (v, s) := by
  unfold FfiConverter.lift
  rcases C.read.run (RustStream.of buf) with (e | _) | ⟨ret, s⟩
  · simp
  · simp
  · simp [Prod.ext_iff]

/-- A value comes back from the buffer it was lowered to exactly when its strings and sequences are shorter than
`2 ^ 31`. -/
theorem lift_lower_iff (R : RustBufferApi) {t : Ty} (ht : t ≠ .controllerError) (v : t.Val Bytes) :
    (∃ buf, (ffiConverter t).lower R v = .ok buf ∧ (ffiConverter t).lift buf = .defined (.ok v) true) ↔ t.Fits v := by
  obtain ⟨buf, hbuf, hbytes⟩ := lower_bytes R ht v
  constructor
  · intro hback
    have hlift := Collect.of_eq_ok hbuf hback
    obtain ⟨s, hrun⟩ := lift_eq_ok_iff.mp hlift
    rw [read_eq] at hrun
    have hfeeds : Feeds (RustStream.of buf) (wire t v ++ []) := by
      rw [List.append_nil, ← hbytes]
      exact feeds_of buf
    exact (reader_honest.readsBack reader_lawful t _ _ _ _ hfeeds hrun).1
  · intro hfits
    have hnil : buf.bytes = wire t v ++ [] := by rw [hbytes, List.append_nil]
    exact ⟨buf, hbuf, lift_wire hfits hnil⟩

/-- A sequence with one policy -/
theorem lift_lower_policies :
    (∃ buf, (ffiConverter .sequenceSessionPolicy).lower .vec [⟨[48, 120, 49], [102]⟩] = .ok buf ∧
      (ffiConverter .sequenceSessionPolicy).lift buf = .defined (.ok [⟨[48, 120, 49], [102]⟩]) true) ↔
    Ty.sequenceSessionPolicy.Fits [⟨[48, 120, 49], [102]⟩] :=
  lift_lower_iff .vec (t := .sequenceSessionPolicy) (by decide) [⟨[48, 120, 49], [102]⟩]

theorem lower_version (R : RustBufferApi) (v : Version) :
    ∃ buf, FfiConverterVersion.lower R v = .ok buf ∧ buf.bytes = int32 v.index :=
  lower_of_writes R (writes_insert (int32 v.index)) (int32_length v.index).symm

theorem lift_version (v : Version) {buf : RustBuffer} (h : buf.bytes = int32 v.index) :
    FfiConverterVersion.lift buf = .defined (.ok v) true := by
  have hselect : selectVersion v.index = .ok v := by cases v <;> rfl
  have hreads := reader_lawful.readsVariant (by cases v <;> decide) hselect
  have hfeeds : Feeds (RustStream.of buf) (int32 v.index ++ []) := by
    rw [List.append_nil, ← h]
    exact feeds_of buf
  obtain ⟨s, hrun, -⟩ := hreads _ _ hfeeds
  exact lift_of_run hrun

theorem lower_string (R : RustBufferApi) {val : Bytes} (hshort : Short val.length) :
    ∃ buf, FfiConverterString.lower R val = .ok buf ∧ buf.bytes = val := by
  have heq : castInt32 val.length = val.length := bmod_of_lt hshort
  obtain ⟨buf, hbuf, hbytes⟩ := R.fromBytes_ok val.length val (Nat.le_refl _)
  refine ⟨buf, ?_, ?_⟩
  · rw [FfiConverterString.lower, heq, hbuf]
    rfl
  · rw [hbytes, List.take_length]

/-- A string alone comes back exactly when it is shorter than `2 ^ 31`: a longer one is refused or cut. -/
theorem lift_lower_string_iff (R : RustBufferApi) (val : Bytes) :
    (∃ buf, FfiConverterString.lower R val = .ok buf ∧ FfiConverterString.lift buf = .defined (.ok val) true) ↔
      Short val.length := by
  have hcast : castInt32 val.length ≤ val.length := bmod_le val.length
  constructor
  · rintro ⟨buf, hbuf, hlift⟩
    have hval : buf.bytes = val := Except.ok.inj (Lifted.defined.inj hlift).1
    by_cases hneg : castInt32 val.length < 0
    · obtain ⟨message, hmessage⟩ := R.fromBytes_negative _ val hneg
      rw [FfiConverterString.lower, hmessage] at hbuf
      cases hbuf
    · have hnat : ((castInt32 val.length).toNat : Int) = castInt32 val.length := Int.toNat_of_nonneg (by omega)
      obtain ⟨buf', hbuf', hbytes⟩ := R.fromBytes_ok (castInt32 val.length).toNat val (by omega)
      rw [FfiConverterString.lower, ← hnat, hbuf'] at hbuf
      cases hbuf
      -- nothing is cut only when the length is what it is cast to
      have hlen := congrArg List.length (hbytes.symm.trans hval)
      rw [List.length_take] at hlen
      exact lt_of_bmod_eq (show castInt32 val.length = val.length by omega)
  · intro hshort
    obtain ⟨buf, hbuf, hbytes⟩ := lower_string R hshort
    exact ⟨buf, hbuf, congrArg (fun bytes => Lifted.defined (.ok bytes) true) hbytes⟩

/-! ### Errors -/

/-- Whatever is written, the bytes stored so far stay. -/
private theorem write_keeps {s : RustStream} {n : Nat} (bytes : Bytes) (hn : n ≤ s.pptr) (hp : s.pptr ≤ s.data.length) :
    (s.write bytes).data.take n = s.data.take n ∧ n ≤ (s.write bytes).pptr ∧
      (s.write bytes).pptr ≤ (s.write bytes).data.length := by
  unfold RustStream.write
  split
  · have hstored : (bytes.take (s.data.length - s.pptr)).length ≤ s.data.length - s.pptr := List.length_take_le _ _
    dsimp only
    rw [store_length (by omega)]
    exact ⟨take_store_of_le hn hp, by omega, by omega⟩
  · exact ⟨rfl, hn, hp⟩

/-- The buffer of a lowered error holds its variant and nothing of its text. -/
theorem lower_controllerError (R : RustBufferApi) (e : ControllerError Bytes) :
    ∃ buf, FfiConverterControllerError.lower R e = .ok buf ∧ buf.bytes = int32 e.kind.index := by
  have hcap := R.alloc_capacity 4
  obtain ⟨s₁, hrun, hholds⟩ := writes_insert (int32 e.kind.index) (RustStream.of (R.alloc 4)) []
    ((R.alloc 4).capacity - 4) (by rw [int32_length, Nat.add_sub_cancel' hcap]; exact holds_of _)
  have hpptr := pptr_of_holds hholds
  rw [List.nil_append] at hholds hpptr
  rw [int32_length] at hpptr
  obtain ⟨-, hout, hroom⟩ := hholds
  -- the text goes behind the four bytes, if anywhere
  obtain ⟨hlen, hp, hd⟩ := write_keeps (s := s₁) (n := 4) (int32 (castInt32 (what e).length)) (by omega) (by omega)
  obtain ⟨htext, -, -⟩ := write_keeps (n := 4) (what e) hp hd
  refine ⟨{ R.alloc 4 with data := ((s₁.write (int32 (castInt32 (what e).length))).write (what e)).data }, ?_, ?_⟩
  · have : (FfiConverterControllerError.write e).run (RustStream.of (R.alloc 4)) =
        .ok ((), (s₁.write (int32 (castInt32 (what e).length))).write (what e)) :=
      run_bind_eq_ok_iff.mpr ⟨(), s₁, hrun, rfl⟩
    rw [FfiConverter.lower, show FfiConverterControllerError.allocationSize e = 4 from rfl, this]
    rfl
  · rw [RustBuffer.bytes, R.alloc_len, htext, hlen, ← hout, hpptr]

/-- At the end of the buffer the length of a string is never filled. -/
private theorem read_string_of_end {s : RustStream} (hs : Feeds s []) :
    FfiConverterString.read.run s = .error .undefined := by
  have hextract : (extract 4).run s = .error .undefined := by
    change (if (s.read 4).1.length = 4 then Except.ok (s.read 4) else _) = _
    rw [RustStream.read, if_pos hs.1, hs.2]
    rfl
  exact run_bind_eq_error_iff.mpr (.inl (run_bind_eq_error_iff.mpr (.inl hextract)))

/-- Lifting a lowered error is undefined: the length of its text is read from behind the end, and used. -/
theorem lift_lower_controllerError (R : RustBufferApi) (e : ControllerError Bytes) {buf : RustBuffer}
    (h : FfiConverterControllerError.lower R e = .ok buf) : FfiConverterControllerError.lift buf = .undefined := by
  have hbytes := Collect.of_eq_ok h (lower_controllerError R e)
  have hkind := reader_lawful.readsVariant (by cases e.kind <;> decide) (reader_lawful.errorKind e.kind)
  have hfeeds : Feeds (RustStream.of buf) (int32 e.kind.index ++ []) := by
    rw [List.append_nil, ← hbytes]
    exact feeds_of buf
  obtain ⟨s, hrun, hs⟩ := hkind _ _ hfeeds
  have hread : (readControllerError reader).run (RustStream.of buf) = .error .undefined := by
    have hstring : reader.string.run s = .error .undefined := read_string_of_end hs
    exact run_bind_eq_error_iff.mpr (.inr ⟨_, s, hrun, run_bind_eq_error_iff.mpr (.inl hstring)⟩)
  have hdef : FfiConverterControllerError.read = readControllerError reader := rfl
  rw [FfiConverter.lift, hdef, hread]

/-- A string whose bytes end too early is filled up with zeros. -/
private theorem fill_of_short {s : RustStream} {b : Bytes} (hs : Feeds s b) {n : Nat} (hn : b.length ≤ n) :
    ∃ s', (FfiConverterString.fill n).run s = .ok (b ++ List.replicate (n - b.length) 0, s') := by
  refine ⟨(s.read n).2, ?_⟩
  have hread : (s.read n).1 = b := by
    rw [RustStream.read, if_pos hs.1, hs.2]
    exact List.take_of_length_le hn
  change Except.ok ((s.read n).1 ++ List.replicate (n - (s.read n).1.length) 0, (s.read n).2) = _
  rw [hread]

/-- `what()` does not show zeros at the end. -/
private theorem what_zeros (kind : ErrorKind) (b : Bytes) (n : Nat) :
    what ⟨kind, b ++ List.replicate n 0⟩ = what ⟨kind, b⟩ := by
  have hzeros : (List.replicate n (0 : UInt8)).takeWhile (fun byte => decide (byte ≠ 0)) = [] := by simp
  unfold what
  rw [List.takeWhile_append, hzeros, List.append_nil]
  split
  · next hall => exact (List.takeWhile_prefix _).eq_of_length hall |>.symm
  · rfl

/-- A buffer that ends within the text of an error is lifted all the same: the exception is made from the text with
zeros for what is missing, and `what()` shows what there is of it. -/
theorem lift_truncated_controllerError {e : ControllerError Bytes} (hfits : Short e.message.length) {k : Nat}
    (hk : k ≤ e.message.length) {buf : RustBuffer} (h : buf.bytes = (wire .controllerError e).take (8 + k)) :
    FfiConverterControllerError.lift buf =
        .defined (.ok ⟨e.kind, e.message.take k ++ List.replicate (e.message.length - k) 0⟩) true ∧
      what ⟨e.kind, e.message.take k ++ List.replicate (e.message.length - k) 0⟩ = what ⟨e.kind, e.message.take k⟩ := by
  have hbytes : buf.bytes = int32 e.kind.index ++ (int32 e.message.length ++ e.message.take k) := by
    have hhead : (int32 e.kind.index ++ int32 e.message.length).length = 8 := by simp
    rw [h, wire, putControllerError, string, ← List.append_assoc, ← List.append_assoc, ← hhead, List.take_length_add_append]
  have hkind := reader_lawful.readsVariant (by cases e.kind <;> decide) (reader_lawful.errorKind e.kind)
  obtain ⟨s₁, hrun₁, hs₁⟩ := hkind (RustStream.of buf) _ (hbytes ▸ feeds_of buf)
  obtain ⟨s₂, hrun₂, hs₂⟩ := reads_length hfits s₁ _ hs₁
  have hshort : (e.message.take k).length ≤ e.message.length := List.length_take_le' k e.message
  obtain ⟨s₃, hrun₃⟩ := fill_of_short hs₂ hshort
  have hstring : FfiConverterString.read.run s₁ =
      .ok (e.message.take k ++ List.replicate (e.message.length - (e.message.take k).length) 0, s₃) := by
    refine run_bind_eq_ok_iff.mpr ⟨(e.message.length : Int), s₂, hrun₂, ?_⟩
    rw [if_neg (by omega), Int.toNat_natCast]
    exact hrun₃
  have hread : (readControllerError reader).run (RustStream.of buf) =
      .ok (⟨e.kind, e.message.take k ++ List.replicate (e.message.length - k) 0⟩, s₃) := by
    rw [List.length_take, Nat.min_eq_left hk] at hstring
    exact run_bind_eq_ok_iff.mpr ⟨_, s₁, hrun₁, run_bind_eq_ok_iff.mpr ⟨_, s₃, hstring, rfl⟩⟩
  exact ⟨lift_of_run hread, what_zeros _ _ _⟩

/-- Of two bytes of text one is left. -/
theorem lift_truncated_networkError :
    FfiConverterControllerError.lift ⟨(wire .controllerError (⟨.networkError, [104, 105]⟩ : ControllerError Bytes)).take 9, 9⟩ =
        .defined (.ok ⟨.networkError, [104, 0]⟩) true ∧
      what ⟨.networkError, [104, 0]⟩ = what ⟨.networkError, [104]⟩ :=
  lift_truncated_controllerError (e := ⟨.networkError, [104, 105]⟩) (k := 1) (by change 2 < 2 ^ 31; omega) (by decide)
    (List.take_of_length_le (List.length_take_le 9 _))

end ControllerUniffi.Ffi.Cpp
