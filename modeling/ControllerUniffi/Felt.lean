import ControllerUniffi.Text.Hex

/-!
# Field elements

The elements of the Stark field, as numbers below its prime, and the two texts the code writes for them.  Different
elements have different texts.
-/

namespace ControllerUniffi

open Text

/-- The prime `2^251 + 17 * 2^192 + 1` of the Stark field. -/
def feltPrime : Nat := 2 ^ 251 + 17 * 2 ^ 192 + 1

instance : NeZero feltPrime := ⟨Nat.succ_ne_zero _⟩

abbrev Felt := Fin feltPrime

/-- `format!("{:#x}", felt)`, which is also `felt.to_hex_string()`. -/
def feltLowerHex (f : Felt) : String := String.ofList ('0' :: 'x' :: lowerHex f.val)

/-- `format!("0x{:064x}", felt)`. -/
def feltPaddedHex (f : Felt) : String := String.ofList ('0' :: 'x' :: paddedHex 64 f.val)

theorem felt_lt_pow (f : Felt) : f.val < 16 ^ 64 := Nat.lt_trans f.isLt (by decide)

theorem feltPaddedHex_injective : Function.Injective feltPaddedHex := by
  intro f g h
  have hlist := String.ofList_inj.1 h
  simp only [List.cons.injEq, true_and] at hlist
  exact Fin.ext (paddedHex_injective 64 hlist)

end ControllerUniffi
