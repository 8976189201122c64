import ControllerUniffi.Text.Utf8

/-!
# UTF-16

Text as code units of 16 bits: the encoder, and the decoder that refuses surrogates without their partner.  The units
that are accepted are the encoded ones (`decode16_eq_some_iff`), and a text takes at most three bytes of UTF-8 for
each of its units (`length_encode_le`).
-/

namespace Text

def isHighSurrogate (u : UInt16) : Bool := 0xD800 ≤ u.toNat && u.toNat ≤ 0xDBFF

def isLowSurrogate (u : UInt16) : Bool := 0xDC00 ≤ u.toNat && u.toNat ≤ 0xDFFF

/-- The code units of a character: itself, or a pair of surrogates. -/
def units (c : Char) : List UInt16 :=
  if c.toNat < 0x10000 then [UInt16.ofNat c.toNat]
  else [UInt16.ofNat (0xD800 + (c.toNat - 0x10000) / 0x400), UInt16.ofNat (0xDC00 + c.toNat % 0x400)]

def encode16 (s : List Char) : List UInt16 := s.flatMap units

/-- The decoder, behind a high surrogate or not. -/
def decode16From : Option UInt16 → List UInt16 → Option (List Char)
  | none, [] => some []
  | some _, [] => none
  | none, u :: rest =>
    if isHighSurrogate u then decode16From (some u) rest
    else if isLowSurrogate u then none
    else (decode16From none rest).map (Char.ofNat u.toNat :: ·)
  | some h, u :: rest =>
    if isLowSurrogate u then
      (decode16From none rest).map
        (Char.ofNat (0x10000 + (h.toNat - 0xD800) * 0x400 + (u.toNat - 0xDC00)) :: ·)
    else none

def decode16 (us : List UInt16) : Option (List Char) := decode16From none us

private theorem toNat_ofNat_unit {n : Nat} (h : n < 0x10000) : (UInt16.ofNat n).toNat = n := by
  rw [UInt16.toNat_ofNat', Nat.mod_eq_of_lt h]

private theorem char_range (c : Char) : c.toNat < 0xD800 ∨ (0xDFFF < c.toNat ∧ c.toNat < 0x110000) := by
  have := c.valid
  simp only [UInt32.isValidChar, Nat.isValidChar] at this
  exact this

private theorem toNat_ofNat_char {n : Nat} (h : n < 0xD800 ∨ (0xDFFF < n ∧ n < 0x110000)) :
    (Char.ofNat n).toNat = n := by
  rw [Char.ofNat, dif_pos h]
  rfl

/-- The units of a character are decoded to it, whatever follows. -/
private theorem decode16From_units (c : Char) (rest : List UInt16) :
    decode16From none (units c ++ rest) = (decode16From none rest).map (c :: ·) := by
  have hc := char_range c
  have hof : Char.ofNat c.toNat = c := Char.ofNat_toNat c
  unfold units
  split
  · rename_i hsmall
    have hu : (UInt16.ofNat c.toNat).toNat = c.toNat := toNat_ofNat_unit hsmall
    have hhigh : isHighSurrogate (UInt16.ofNat c.toNat) = false := by
      simp [isHighSurrogate, hu]
      omega
    have hlow : isLowSurrogate (UInt16.ofNat c.toNat) = false := by
      simp [isLowSurrogate, hu]
      omega
    simp [decode16From, hhigh, hlow, hu, hof]
  · rename_i hlarge
    generalize hh : UInt16.ofNat (0xD800 + (c.toNat - 0x10000) / 0x400) = h
    generalize hl : UInt16.ofNat (0xDC00 + c.toNat % 0x400) = l
    have hhn : h.toNat = 0xD800 + (c.toNat - 0x10000) / 0x400 := by
      rw [← hh, toNat_ofNat_unit (by omega)]
    have hln : l.toNat = 0xDC00 + c.toNat % 0x400 := by
      rw [← hl, toNat_ofNat_unit (by omega)]
    have hhigh : isHighSurrogate h = true := by
      simp [isHighSurrogate, hhn]
      omega
    have hlow : isLowSurrogate l = true := by
      simp [isLowSurrogate, hln]
      omega
    have hback : 0x10000 + (h.toNat - 0xD800) * 0x400 + (l.toNat - 0xDC00) = c.toNat := by omega
    simp [decode16From, hhigh, hlow, hback, hof]

theorem decode16_encode16 (s : List Char) : decode16 (encode16 s) = some s := by
  induction s with
  | nil => rfl
  | cons c s ih =>
    have : decode16From none (encode16 s) = some s := ih
    change decode16From none (units c ++ encode16 s) = _
    rw [decode16From_units, this]
    rfl

private theorem isHighSurrogate_iff {u : UInt16} : isHighSurrogate u = true ↔ 0xD800 ≤ u.toNat ∧ u.toNat ≤ 0xDBFF := by
  simp [isHighSurrogate]

private theorem isLowSurrogate_iff {u : UInt16} : isLowSurrogate u = true ↔ 0xDC00 ≤ u.toNat ∧ u.toNat ≤ 0xDFFF := by
  simp [isLowSurrogate]

/-- What is decoded is encoded to the units that were read, the pending surrogate first. -/
private theorem encode16_of_decode16From {p : Option UInt16} {us : List UInt16} {s : List Char}
    (hp : ∀ h ∈ p, isHighSurrogate h = true) (h : decode16From p us = some s) : encode16 s = p.toList ++ us := by
  induction us generalizing p s with
  | nil =>
    cases p with
    | none =>
      cases h
      rfl
    | some u => cases h
  | cons u us ih =>
    cases p with
    | none =>
      simp only [decode16From] at h
      split at h
      · rename_i hhigh
        exact ih (p := some u) (by rintro _ ⟨⟩; exact hhigh) h
      · split at h
        · cases h
        · rename_i hhigh hlow
          rw [isHighSurrogate_iff] at hhigh
          rw [isLowSurrogate_iff] at hlow
          obtain ⟨t, ht, rfl⟩ := Option.map_eq_some_iff.mp h
          have hu : u.toNat < 0x10000 := u.toNat_lt
          have hunits : units (Char.ofNat u.toNat) = [u] := by
            rw [units, toNat_ofNat_char (by omega), if_pos hu, UInt16.ofNat_toNat]
          have := ih (p := none) nofun ht
          change units _ ++ encode16 t = _
          rw [hunits, this]
          rfl
    | some g =>
      simp only [decode16From] at h
      split at h
      · rename_i hlow
        have hhigh := isHighSurrogate_iff.mp (hp g rfl)
        rw [isLowSurrogate_iff] at hlow
        obtain ⟨t, ht, rfl⟩ := Option.map_eq_some_iff.mp h
        have hunits : units (Char.ofNat (0x10000 + (g.toNat - 0xD800) * 0x400 + (u.toNat - 0xDC00))) = [g, u] := by
          rw [units, toNat_ofNat_char (by omega), if_neg (by omega)]
          have hg : 0xD800 + (0x10000 + (g.toNat - 0xD800) * 0x400 + (u.toNat - 0xDC00) - 0x10000) / 0x400 = g.toNat := by
            omega
          have hu : 0xDC00 + (0x10000 + (g.toNat - 0xD800) * 0x400 + (u.toNat - 0xDC00)) % 0x400 = u.toNat := by omega
          rw [hg, hu, UInt16.ofNat_toNat, UInt16.ofNat_toNat]
        have := ih (p := none) nofun ht
        change units _ ++ encode16 t = _
        rw [hunits, this]
        rfl
      · cases h

/-- Exactly the units of a text are accepted. -/
theorem decode16_eq_some_iff {us : List UInt16} {s : List Char} : decode16 us = some s ↔ us = encode16 s := by
  constructor
  · intro h
    exact (encode16_of_decode16From (p := none) nofun h).symm
  · rintro rfl
    exact decode16_encode16 s

theorem encode16_injective : Function.Injective encode16 := by
  intro s t h
  have := decode16_encode16 s
  rw [h, decode16_encode16] at this
  exact (Option.some.inj this).symm

private theorem length_utf8EncodeChar_le (c : Char) : (String.utf8EncodeChar c).length ≤ 3 * (units c).length := by
  have hv : c.val.toNat = c.toNat := rfl
  unfold String.utf8EncodeChar units
  simp only [hv]
  split
  · split <;> simp
  · split
    · split <;> simp
    · split
      · split <;> simp
      · rw [if_neg (by omega)]
        simp

/-- Three bytes for each unit are enough. -/
theorem length_encode_le (s : List Char) : (encode s).length ≤ 3 * (encode16 s).length := by
  induction s with
  | nil => exact Nat.le_refl 0
  | cons c s ih =>
    have hc := length_utf8EncodeChar_le c
    change (String.utf8EncodeChar c ++ encode s).length ≤ 3 * (units c ++ encode16 s).length
    rw [List.length_append, List.length_append]
    omega

end Text
