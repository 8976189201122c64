import ControllerUniffi.Text.Percent

/-!
# The order of numerals

Numerals that are padded to one length are ordered like their numbers: the last digit only decides when the digits
before it agree (`compare_paddedHex`).
-/

namespace Text

/-- Texts of one length are compared first by their beginnings. -/
theorem compare_append {α : Type} [Ord α] {s t : List α} (h : s.length = t.length) (u v : List α) :
    compare (s ++ u) (t ++ v) = (compare s t).then (compare u v) := by
  induction s generalizing t with
  | nil =>
    cases t with
    | nil => rw [List.nil_append, List.nil_append, List.compare_nil_nil, Ordering.eq_then]
    | cons b t => cases h
  | cons a s ih =>
    cases t with
    | nil => cases h
    | cons b t =>
      rw [List.cons_append, List.cons_append, List.compare_cons_cons, List.compare_cons_cons, ih (Nat.succ.inj h),
        Ordering.then_assoc]

/-- Numbers are compared by all digits but the last, then by the last. -/
theorem compare_div_mod (a b : Nat) : compare a b = (compare (a / 16) (b / 16)).then (compare (a % 16) (b % 16)) := by
  rcases Nat.lt_trichotomy (a / 16) (b / 16) with h | h | h
  · rw [Nat.compare_eq_lt.2 h, Nat.compare_eq_lt.2 (show a < b by omega)]
    rfl
  · rw [Nat.compare_eq_eq.2 h, Ordering.eq_then]
    rcases Nat.lt_trichotomy (a % 16) (b % 16) with h' | h' | h'
    · rw [Nat.compare_eq_lt.2 h', Nat.compare_eq_lt.2 (show a < b by omega)]
    · rw [Nat.compare_eq_eq.2 h', Nat.compare_eq_eq.2 (show a = b by omega)]
    · rw [Nat.compare_eq_gt.2 h', Nat.compare_eq_gt.2 (show b < a by omega)]
  · rw [Nat.compare_eq_gt.2 h, Nat.compare_eq_gt.2 (show b < a by omega)]
    rfl

/-- The last digit of a padded numeral. -/
theorem paddedHex_succ {w : Nat} (hw : 0 < w) (n : Nat) :
    paddedHex (w + 1) n = paddedHex w (n / 16) ++ [(n % 16).digitChar] := by
  by_cases h : n < 16
  · have hzero : n / 16 = 0 := by omega
    have hdigits : lowerHex n = [n.digitChar] := Nat.toDigits_of_lt_base h
    have hzeros : w - 1 + 1 = w := by omega
    rw [paddedHex, paddedHex, hdigits, hzero, Nat.mod_eq_of_lt h]
    show List.replicate (w + 1 - 1) '0' ++ [n.digitChar] = (List.replicate (w - 1) '0' ++ ['0']) ++ [n.digitChar]
    rw [← List.replicate_succ', hzeros, Nat.add_sub_cancel]
  · have hdigits : lowerHex n = lowerHex (n / 16) ++ [(n % 16).digitChar] :=
      Nat.toDigits_of_base_le (by decide) (by omega)
    rw [paddedHex, paddedHex, hdigits, List.leftpad, List.leftpad, List.length_append, List.length_singleton,
      Nat.add_sub_add_right, List.append_assoc]

private theorem ascii_digitChar {d : Nat} (h : d < 16) : d.digitChar.toNat < 0x80 := by
  have key : ∀ d : Fin 16, (Nat.digitChar d).toNat < 0x80 := by decide
  exact key ⟨d, h⟩

theorem ascii_paddedHex {w n : Nat} {c : Char} (h : c ∈ paddedHex w n) : c.toNat < 0x80 := by
  have hdigits : ∀ n, ∀ c ∈ lowerHex n, c.toNat < 0x80 := by
    intro n
    induction n using Nat.strongRecOn with
    | ind n ih =>
      intro c hc
      by_cases hn : n < 16
      · rw [lowerHex, Nat.toDigits_of_lt_base hn, List.mem_singleton] at hc
        rw [hc]
        exact ascii_digitChar hn
      · have hlast : lowerHex n = lowerHex (n / 16) ++ [(n % 16).digitChar] :=
          Nat.toDigits_of_base_le (by decide) (by omega)
        rw [hlast, List.mem_append, List.mem_singleton] at hc
        rcases hc with hc | hc
        · exact ih (n / 16) (by omega) c hc
        · rw [hc]
          exact ascii_digitChar (by omega)
  rw [paddedHex, List.leftpad, List.mem_append] at h
  rcases h with h | h
  · rw [List.eq_of_mem_replicate h]
    decide
  · exact hdigits n c h

/-- The byte of a digit. -/
private def digitByte (d : Nat) : UInt8 := UInt8.ofNat d.digitChar.toNat

private theorem compare_digitByte {a b : Nat} (ha : a < 16) (hb : b < 16) :
    compare [digitByte a] [digitByte b] = compare a b := by
  have key : ∀ a b : Fin 16, compare [digitByte a] [digitByte b] = compare a.val b.val := by decide
  exact key ⟨a, ha⟩ ⟨b, hb⟩

private theorem encode_paddedHex_succ {w : Nat} (hw : 0 < w) (n : Nat) :
    encode (paddedHex (w + 1) n) = encode (paddedHex w (n / 16)) ++ [digitByte (n % 16)] := by
  rw [paddedHex_succ hw, encode_append, encode_ascii (s := [(n % 16).digitChar])]
  · rfl
  · intro c hc
    rw [List.mem_singleton.1 hc]
    exact ascii_digitChar (by omega)

private theorem encode_paddedHex_one {n : Nat} (h : n < 16) : encode (paddedHex 1 n) = [digitByte n] := by
  have hdigits : paddedHex 1 n = [n.digitChar] := by
    rw [paddedHex, lowerHex, Nat.toDigits_of_lt_base h]
    rfl
  rw [hdigits, encode_ascii]
  · rfl
  · intro c hc
    rw [List.mem_singleton.1 hc]
    exact ascii_digitChar h

/-- Padded numerals of one length are ordered like their numbers. -/
theorem compare_paddedHex {w : Nat} (hw : 0 < w) {a b : Nat} (ha : a < 16 ^ w) (hb : b < 16 ^ w) :
    compare (encode (paddedHex w a)) (encode (paddedHex w b)) = compare a b := by
  induction w, hw using Nat.le_induction generalizing a b with
  | base => rw [encode_paddedHex_one ha, encode_paddedHex_one hb, compare_digitByte ha hb]
  | succ w hw ih =>
    have hlen : (encode (paddedHex w (a / 16))).length = (encode (paddedHex w (b / 16))).length := by
      have hpow : ∀ n, n < 16 ^ (w + 1) → n / 16 < 16 ^ w := by
        intro n hn
        rw [Nat.pow_succ] at hn
        omega
      have hlength : ∀ n, n < 16 ^ (w + 1) → (encode (paddedHex w (n / 16))).length = w := by
        intro n hn
        rw [encode_ascii fun c hc => ascii_paddedHex hc, List.length_map, length_paddedHex hw (hpow n hn)]
      rw [hlength a ha, hlength b hb]
    rw [Nat.pow_succ] at ha hb
    rw [encode_paddedHex_succ hw, encode_paddedHex_succ hw, compare_append hlen, ih (by omega) (by omega),
      compare_digitByte (by omega) (by omega), ← compare_div_mod]

end Text
