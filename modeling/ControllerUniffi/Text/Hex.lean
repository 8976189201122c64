import Mathlib.Algebra.Ring.Nat

/-!
# Hexadecimal numerals

Writing a number in lowercase hexadecimal, with or without zero padding, and reading a digit string back.  The
key fact: reading undoes writing (`hexValue_lowerHex`, `hexValue_paddedHex`), so the padded text determines the
number (`paddedHex_injective`).
-/

namespace Text

/-- The value of a hexadecimal digit of either case. -/
def hexVal (c : Char) : Option Nat :=
  if '0' ≤ c ∧ c ≤ '9' then some (c.toNat - '0'.toNat)
  else if 'a' ≤ c ∧ c ≤ 'f' then some (c.toNat - 'a'.toNat + 10)
  else if 'A' ≤ c ∧ c ≤ 'F' then some (c.toNat - 'A'.toNat + 10)
  else none

/-- Read a digit string, most significant digit first, on top of the value `acc` read so far. -/
def hexValueFrom (acc : Nat) : List Char → Option Nat
  | [] => some acc
  | c :: s =>
    match hexVal c with
    | some d => hexValueFrom (16 * acc + d) s
    | none => none

/-- The number a nonempty string of hexadecimal digits denotes. -/
def hexValue : List Char → Option Nat
  | [] => none
  | c :: s => hexValueFrom 0 (c :: s)

/-- The minimal lowercase numeral of `n`. -/
def lowerHex (n : Nat) : List Char := Nat.toDigits 16 n

/-- The lowercase numeral of `n`, filled with zeros on the left up to `w` digits. -/
def paddedHex (w n : Nat) : List Char := (lowerHex n).leftpad w '0'

theorem hexVal_digitChar {d : Nat} (h : d < 16) : hexVal d.digitChar = some d := by
  have key : ∀ d : Fin 16, hexVal (Nat.digitChar d) = some d.val := by decide
  exact key ⟨d, h⟩

theorem hexVal_lt {c : Char} {d : Nat} (h : hexVal c = some d) : d < 16 := by
  have hle : ∀ {a b : Char}, a ≤ b → a.toNat ≤ b.toNat := fun hab => UInt32.le_iff_toNat_le.1 hab
  unfold hexVal at h
  split at h
  · rename_i hrange
    cases h
    have hupper : c.toNat ≤ 57 := hle hrange.2
    have hzero : '0'.toNat = 48 := rfl
    omega
  split at h
  · rename_i hrange
    cases h
    have hupper : c.toNat ≤ 102 := hle hrange.2
    have ha : 'a'.toNat = 97 := rfl
    omega
  split at h
  · rename_i hrange
    cases h
    have hupper : c.toNat ≤ 70 := hle hrange.2
    have hA : 'A'.toNat = 65 := rfl
    omega
  · cases h

theorem hexValueFrom_append (acc : Nat) (s t : List Char) :
    hexValueFrom acc (s ++ t) = (hexValueFrom acc s).bind fun n => hexValueFrom n t := by
  induction s generalizing acc with
  | nil => rfl
  | cons c s ih =>
    simp only [List.cons_append, hexValueFrom]
    cases hexVal c with
    | none => rfl
    | some d => exact ih _

/-- The value of a digit string is bounded by its length. -/
theorem hexValueFrom_lt {s : List Char} {acc n : Nat} (h : hexValueFrom acc s = some n) :
    n < (acc + 1) * 16 ^ s.length := by
  induction s generalizing acc with
  | nil =>
    cases h
    simp
  | cons c s ih =>
    rw [hexValueFrom] at h
    cases hc : hexVal c with
    | none =>
      rw [hc] at h
      cases h
    | some d =>
      rw [hc] at h
      have hd : d < 16 := hexVal_lt hc
      calc n < (16 * acc + d + 1) * 16 ^ s.length := ih h
        _ ≤ ((acc + 1) * 16) * 16 ^ s.length := Nat.mul_le_mul_right _ (by omega)
        _ = (acc + 1) * 16 ^ (c :: s).length := by
          rw [List.length_cons, Nat.pow_succ, Nat.mul_assoc, Nat.mul_comm 16]

theorem hexValue_lt {s : List Char} {n : Nat} (h : hexValue s = some n) : n < 16 ^ s.length := by
  cases s with
  | nil => cases h
  | cons c s =>
    have hlt := hexValueFrom_lt (s := c :: s) h
    omega

/-- Reading the numeral of `n` gives `n`: the last digit is `n % 16`, the ones before it are the numeral of
`n / 16`. -/
private theorem hexValueFrom_lowerHex (n : Nat) : hexValueFrom 0 (lowerHex n) = some n := by
  induction n using Nat.strongRecOn with
  | ind n ih =>
    by_cases h : n < 16
    · simp [lowerHex, Nat.toDigits_of_lt_base h, hexValueFrom, hexVal_digitChar h]
    · have hdigits : lowerHex n = lowerHex (n / 16) ++ [(n % 16).digitChar] :=
        Nat.toDigits_of_base_le (by decide) (by omega)
      have hlast : hexVal (n % 16).digitChar = some (n % 16) := hexVal_digitChar (by omega)
      rw [hdigits, hexValueFrom_append, ih (n / 16) (by omega)]
      simp only [Option.bind_some, hexValueFrom, hlast]
      congr 1
      omega

private theorem hexValueFrom_zeros (k : Nat) (s : List Char) :
    hexValueFrom 0 (List.replicate k '0' ++ s) = hexValueFrom 0 s := by
  induction k with
  | zero => rfl
  | succ k ih => exact ih

private theorem hexValue_of_ne_nil {s : List Char} (h : s ≠ []) : hexValue s = hexValueFrom 0 s := by
  cases s with
  | nil => exact absurd rfl h
  | cons c s => rfl

/-- Reading a minimal numeral gives the number back. -/
theorem hexValue_lowerHex (n : Nat) : hexValue (lowerHex n) = some n := by
  have hne : lowerHex n ≠ [] := Nat.toDigits_ne_nil
  rw [hexValue_of_ne_nil hne, hexValueFrom_lowerHex]

/-- Reading a padded numeral gives the number back. -/
theorem hexValue_paddedHex (w n : Nat) : hexValue (paddedHex w n) = some n := by
  have hne : paddedHex w n ≠ [] := by simp [paddedHex, List.leftpad, lowerHex, Nat.toDigits_ne_nil]
  rw [hexValue_of_ne_nil hne, paddedHex, List.leftpad, hexValueFrom_zeros, hexValueFrom_lowerHex]

/-- Different numbers have different padded numerals. -/
theorem paddedHex_injective (w : Nat) : Function.Injective (paddedHex w) := by
  intro a b h
  have := congrArg hexValue h
  simpa only [hexValue_paddedHex, Option.some.injEq] using this

theorem length_lowerHex_le {n w : Nat} (hw : 0 < w) (h : n < 16 ^ w) : (lowerHex n).length ≤ w :=
  (Nat.length_toDigits_le_iff (by decide) hw).2 h

/-- A number below `16 ^ w` is written with exactly `w` digits. -/
theorem length_paddedHex {n w : Nat} (hw : 0 < w) (h : n < 16 ^ w) : (paddedHex w n).length = w := by
  rw [paddedHex, List.length_leftpad]
  exact Nat.max_eq_left (length_lowerHex_le hw h)

end Text
