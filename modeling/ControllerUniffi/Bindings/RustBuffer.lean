import Mathlib.Data.Nat.Notation

/-!
# Buffers owned by the library

A buffer is a block of memory of which the first `len` bytes are in use.  It is allocated, grown and freed by the
library; `RustBufferApi` is what the bindings rely on.
-/

namespace ControllerUniffi.Ffi

/-- `data` is the whole block, so its length is the capacity. -/
structure RustBuffer where
  data : List UInt8
  len : Nat
  deriving DecidableEq, Repr

def RustBuffer.capacity (buf : RustBuffer) : Nat := buf.data.length

/-- The bytes in use. -/
def RustBuffer.bytes (buf : RustBuffer) : List UInt8 := buf.data.take buf.len

/-- `data` after `bytes` are stored at position `i` and behind it. -/
def store (data : List UInt8) (i : Nat) (bytes : List UInt8) : List UInt8 :=
  data.take i ++ (bytes ++ data.drop (i + bytes.length))

/-- `rustbuffer_alloc`, `rustbuffer_from_bytes` and `rustbuffer_reserve`.  A negative length makes the second panic,
with the text of the error. -/
structure RustBufferApi where
  alloc : Nat → RustBuffer
  fromBytes : Int → List UInt8 → Except String RustBuffer
  reserve : RustBuffer → Nat → RustBuffer
  alloc_len : ∀ size, (alloc size).len = size
  alloc_capacity : ∀ size, size ≤ (alloc size).capacity
  fromBytes_ok : ∀ (len : Nat) data, len ≤ data.length →
    ∃ buf, fromBytes len data = .ok buf ∧ buf.bytes = data.take len
  fromBytes_negative : ∀ (len : Int) data, len < 0 → ∃ message, fromBytes len data = .error message
  reserve_len : ∀ buf additional, (reserve buf additional).len = buf.len
  reserve_bytes : ∀ buf additional, buf.len ≤ buf.capacity → (reserve buf additional).bytes = buf.bytes
  reserve_capacity : ∀ buf additional, buf.len + additional ≤ (reserve buf additional).capacity

/-- The blocks of the library as vectors: allocated with zeros, grown by what is asked for. -/
def RustBufferApi.vec : RustBufferApi where
  alloc size := ⟨List.replicate size 0, size⟩
  fromBytes len data :=
    if len < 0 then .error "bytes length negative or overflowed: TryFromIntError(())"
    else .ok ⟨data.take len.toNat, (data.take len.toNat).length⟩
  reserve buf additional := ⟨buf.data ++ List.replicate (buf.len + additional) 0, buf.len⟩
  alloc_len _ := rfl
  alloc_capacity size := by simp [RustBuffer.capacity]
  fromBytes_ok len data h := by
    rw [if_neg (by omega)]
    exact ⟨_, rfl, List.take_length⟩
  fromBytes_negative len data h := ⟨_, if_pos h⟩
  reserve_len _ _ := rfl
  reserve_bytes _ _ h := List.take_append_of_le_length h
  reserve_capacity buf additional := by simp [RustBuffer.capacity]

theorem store_length {data : List UInt8} {i : Nat} {bytes : List UInt8} (h : i + bytes.length ≤ data.length) :
    (store data i bytes).length = data.length := by
  simp [store]
  omega

/-- Up to the end of what is stored: what was there before it, and then it. -/
theorem take_store {data : List UInt8} {i : Nat} {bytes : List UInt8} (h : i + bytes.length ≤ data.length) :
    (store data i bytes).take (i + bytes.length) = data.take i ++ bytes := by
  have hi : (data.take i).length = i := List.length_take_of_le (by omega)
  rw [store, List.take_append, hi, List.take_of_length_le (by omega), Nat.add_sub_cancel_left, List.take_left]

/-- Before the place of storing nothing changes. -/
theorem take_store_of_le {data : List UInt8} {n i : Nat} {bytes : List UInt8} (hn : n ≤ i) (hi : i ≤ data.length) :
    (store data i bytes).take n = data.take n := by
  have hle : n ≤ (data.take i).length := by
    rw [List.length_take]
    omega
  rw [store, List.take_append_of_le_length hle, List.take_take, Nat.min_eq_left hn]

end ControllerUniffi.Ffi
