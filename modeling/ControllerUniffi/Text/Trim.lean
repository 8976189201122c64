import ControllerUniffi.Text.Basic

/-!
# Trimming

What trimming does to a text with a known end.  A text is its trimmed text with the trimmed characters behind it
(`trimEnd_append_replicate`), and a suffix that is removed once is removed as often as it stands there
(`trimEndMatches_append`).
-/

namespace Text

/-- The last character is in the class `p`. -/
def endsIn (p : Char → Bool) (s : List Char) : Bool := s.getLast?.any p

/-- How often the character `c` stands at the end. -/
def trailing (c : Char) (s : List Char) : Nat := (s.rtakeWhile (· = c)).length

section

variable {p : Char → Bool} {s t : List Char} {c : Char}

theorem endsIn_concat : endsIn p (s ++ [c]) = p c := by simp [endsIn]

theorem endsIn_append (ht : t ≠ []) : endsIn p (s ++ t) = endsIn p t := by
  rw [endsIn, endsIn, List.getLast?_append_of_ne_nil s ht]

theorem endsIn_of_forall (hs : s ≠ []) (h : ∀ c ∈ s, p c = true) : endsIn p s = true := by
  rw [endsIn, List.getLast?_eq_some_getLast hs]
  exact h _ (List.getLast_mem hs)

theorem endsIn_eq_false_of_forall (h : ∀ c ∈ s, p c = false) : endsIn p s = false := by
  cases hs : s.getLast? with
  | none => simp [endsIn, hs]
  | some c => simp [endsIn, hs, h c (List.mem_of_getLast? hs)]

theorem exists_of_endsIn (h : endsIn p s = true) : ∃ t c, s = t ++ [c] ∧ p c = true := by
  rcases List.eq_nil_or_concat s with rfl | ⟨t, c, rfl⟩
  · cases h
  · exact ⟨t, c, List.concat_eq_append, by rwa [List.concat_eq_append, endsIn_concat] at h⟩

theorem rdropWhile_eq_self (h : endsIn p s = false) : s.rdropWhile p = s := by
  rw [List.rdropWhile_eq_self_iff]
  intro hne
  rw [endsIn, List.getLast?_eq_some_getLast hne] at h
  simpa using h

end

section

variable {c : Char} {s : List Char}

theorem trimEnd_append_replicate (c : Char) (s : List Char) :
    trimEnd c s ++ List.replicate (trailing c s) c = s := by
  have hall : s.rtakeWhile (· = c) = List.replicate (trailing c s) c :=
    List.eq_replicate_iff.2 ⟨rfl, fun d hd => by simpa using List.mem_rtakeWhile_imp hd⟩
  rw [← hall]
  exact List.rdropWhile_append_rtakeWhile

theorem endsIn_trimEnd (c : Char) (s : List Char) : endsIn (· = c) (trimEnd c s) = false := by
  cases h : endsIn (· = c) (trimEnd c s) with
  | false => rfl
  | true =>
    obtain ⟨t, d, ht, hd⟩ := exists_of_endsIn h
    have hne : s.rdropWhile (· = c) ≠ [] := by
      intro hnil
      rw [trimEnd, hnil] at ht
      simp at ht
    have hlast := List.rdropWhile_last_not (fun d => decide (d = c)) s hne
    have : (s.rdropWhile (· = c)).getLast hne = d := by
      simp only [trimEnd] at ht
      simp [ht]
    rw [this] at hlast
    exact absurd hd hlast

theorem trimEnd_of_endsIn (h : endsIn (· = c) s = false) : trimEnd c s = s := rdropWhile_eq_self h

theorem trimEnd_append_of_endsIn (h : endsIn (· = c) s = false) (n : Nat) :
    trimEnd c (s ++ List.replicate n c) = s := by
  induction n with
  | zero => rw [List.replicate_zero, List.append_nil, trimEnd_of_endsIn h]
  | succ n ih =>
    rw [List.replicate_succ', ← List.append_assoc, trimEnd, List.rdropWhile_concat_pos _ _ _ (by simp)]
    exact ih

theorem trimEnd_append (c : Char) (s : List Char) (n : Nat) :
    trimEnd c (s ++ List.replicate n c) = trimEnd c s := by
  have hs := trimEnd_append_replicate c s
  conv_lhs => rw [← hs, List.append_assoc, List.replicate_append_replicate]
  exact trimEnd_append_of_endsIn (endsIn_trimEnd c s) _

theorem trailing_append (c : Char) (s : List Char) (n : Nat) :
    trailing c (s ++ List.replicate n c) = trailing c s + n := by
  have h := congrArg List.length (trimEnd_append_replicate c (s ++ List.replicate n c))
  have hs := congrArg List.length (trimEnd_append_replicate c s)
  rw [trimEnd_append] at h
  simp only [List.length_append, List.length_replicate] at h hs
  omega

theorem trailing_eq_zero_iff : trailing c s = 0 ↔ trimEnd c s = s := by
  have hs := trimEnd_append_replicate c s
  constructor
  · intro h
    rwa [h, List.replicate_zero, List.append_nil] at hs
  · intro h
    have hlen := congrArg List.length hs
    rw [h, List.length_append, List.length_replicate] at hlen
    omega

theorem trailing_eq_zero : trailing c s = 0 ↔ endsIn (· = c) s = false := by
  rw [trailing_eq_zero_iff]
  exact ⟨fun h => h ▸ endsIn_trimEnd c s, trimEnd_of_endsIn⟩

end

/-! ### Suffixes -/

section

variable {p s : List Char}

/-- More fuel than characters changes nothing. -/
private theorem trimEndMatchesAux_fuel (hp : p ≠ []) {f g : Nat} (hf : s.length ≤ f) (hg : s.length ≤ g) :
    trimEndMatchesAux p f s = trimEndMatchesAux p g s := by
  have hpos : 0 < p.length := List.length_pos_iff.2 hp
  have hnil : ∀ n, trimEndMatchesAux p n [] = [] := by
    rintro (_ | n)
    · rfl
    · rw [trimEndMatchesAux, if_neg (by simpa using hp)]
  induction f generalizing g s with
  | zero =>
    cases List.eq_nil_of_length_eq_zero (Nat.le_zero.1 hf)
    rw [hnil, hnil]
  | succ f ih =>
    cases g with
    | zero =>
      cases List.eq_nil_of_length_eq_zero (Nat.le_zero.1 hg)
      rw [hnil, hnil]
    | succ g =>
      simp only [trimEndMatchesAux]
      split
      · have htake := List.length_take (i := s.length - p.length) (l := s)
        exact ih (by omega) (by omega)
      · rfl

theorem trimEndMatches_of_not_suffix (h : ¬ p <:+ s) : trimEndMatches p s = s := by
  unfold trimEndMatches
  cases s.length with
  | zero => rfl
  | succ n => rw [trimEndMatchesAux, if_neg h]

theorem trimEndMatches_append (hp : p ≠ []) : trimEndMatches p (s ++ p) = trimEndMatches p s := by
  obtain ⟨n, hn⟩ : ∃ n, (s ++ p).length = n + 1 :=
    Nat.exists_eq_succ_of_ne_zero (by simp [hp])
  have hlen : s.length ≤ n := by
    have hpos : 0 < p.length := List.length_pos_iff.2 hp
    rw [List.length_append] at hn
    omega
  have htake : (s ++ p).take ((s ++ p).length - p.length) = s := by simp
  rw [trimEndMatches, hn, trimEndMatchesAux, if_pos (List.suffix_append s p), htake]
  exact trimEndMatchesAux_fuel hp hlen (Nat.le_refl _)

end

end Text
