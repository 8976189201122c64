import ControllerUniffi.Data.Collect
import Mathlib.Algebra.Group.Int.Defs
import Mathlib.Algebra.Group.Nat.Defs
import Mathlib.Data.List.Forall2

/-!
# Writing and reading a wire format

Integers as big-endian bytes, strings and sequences behind their length, optional values behind a flag.  A reader and
a writer are state machines of their own; what they have to do with the format is said by relations: the reader takes
exactly these bytes and returns this value (`Reads`), the writer appends exactly these bytes when there is room
(`Writes`), the reader returns nothing but what is there (`Takes`).  Each relation is closed under sequencing, so
that a composite reader or writer is right when its parts are.
-/

namespace Wire

open Collect

/-! ### Integers -/

def littleEndian : Nat → Nat → List UInt8
  | 0, _ => []
  | w + 1, n => UInt8.ofNat n :: littleEndian w (n / 256)

def ofLittleEndian : List UInt8 → Nat
  | [] => 0
  | b :: bytes => b.toNat + 256 * ofLittleEndian bytes

/-- The last `w` bytes of `n`, the most significant one first. -/
def bigEndian (w n : Nat) : List UInt8 := (littleEndian w n).reverse

def ofBigEndian (bytes : List UInt8) : Nat := ofLittleEndian bytes.reverse

private theorem littleEndian_length (w n : Nat) : (littleEndian w n).length = w := by
  induction w generalizing n with
  | zero => rfl
  | succ w ih => simp [littleEndian, ih]

private theorem ofLittleEndian_littleEndian (w n : Nat) : ofLittleEndian (littleEndian w n) = n % 256 ^ w := by
  induction w generalizing n with
  | zero => simp [littleEndian, ofLittleEndian, Nat.mod_one]
  | succ w ih =>
    have hb : (UInt8.ofNat n).toNat = n % 256 := by simp [UInt8.toNat_ofNat']
    rw [littleEndian, ofLittleEndian, ih, hb, Nat.pow_succ', Nat.mod_mul]

private theorem littleEndian_ofLittleEndian (bytes : List UInt8) :
    littleEndian bytes.length (ofLittleEndian bytes) = bytes := by
  induction bytes with
  | nil => rfl
  | cons b bytes ih =>
    have hb := b.toNat_lt
    have hmod : UInt8.ofNat (b.toNat + 256 * ofLittleEndian bytes) = b := by
      apply UInt8.toNat_inj.mp
      simp
    have hdiv : (b.toNat + 256 * ofLittleEndian bytes) / 256 = ofLittleEndian bytes := by omega
    rw [List.length_cons, ofLittleEndian, littleEndian, hmod, hdiv, ih]

private theorem ofLittleEndian_lt (bytes : List UInt8) : ofLittleEndian bytes < 256 ^ bytes.length := by
  induction bytes with
  | nil => simp [ofLittleEndian]
  | cons b bytes ih =>
    have hb := b.toNat_lt
    rw [ofLittleEndian, List.length_cons, Nat.pow_succ]
    omega

@[simp] theorem bigEndian_length (w n : Nat) : (bigEndian w n).length = w := by
  simp [bigEndian, littleEndian_length]

theorem ofBigEndian_bigEndian (w n : Nat) : ofBigEndian (bigEndian w n) = n % 256 ^ w := by
  simp [ofBigEndian, bigEndian, ofLittleEndian_littleEndian]

theorem bigEndian_ofBigEndian (bytes : List UInt8) : bigEndian bytes.length (ofBigEndian bytes) = bytes := by
  have := littleEndian_ofLittleEndian bytes.reverse
  rw [List.length_reverse] at this
  simp [ofBigEndian, bigEndian, this]

theorem ofBigEndian_lt (bytes : List UInt8) : ofBigEndian bytes < 256 ^ bytes.length := by
  have := ofLittleEndian_lt bytes.reverse
  rwa [List.length_reverse] at this

/-- A signed integer of 32 bits, in two's complement. -/
def int32 (i : Int) : List UInt8 := bigEndian 4 (i % 2 ^ 32).toNat

def ofInt32 (bytes : List UInt8) : Int := Int.bmod (ofBigEndian bytes) (2 ^ 32)

def uint64 (n : UInt64) : List UInt8 := bigEndian 8 n.toNat

def ofUInt64 (bytes : List UInt8) : UInt64 := UInt64.ofNat (ofBigEndian bytes)

@[simp] theorem int32_length (i : Int) : (int32 i).length = 4 := by simp [int32]

@[simp] theorem uint64_length (n : UInt64) : (uint64 n).length = 8 := by simp [uint64]

theorem ofInt32_int32 (i : Int) : ofInt32 (int32 i) = i.bmod (2 ^ 32) := by
  have hlt : (i % 2 ^ 32).toNat < 256 ^ 4 := by omega
  unfold ofInt32 int32
  rw [ofBigEndian_bigEndian, Nat.mod_eq_of_lt hlt, Int.toNat_of_nonneg (by omega)]
  simp only [Int.bmod_def]
  omega

theorem int32_ofInt32 {bytes : List UInt8} (h : bytes.length = 4) : int32 (ofInt32 bytes) = bytes := by
  have hlt := ofBigEndian_lt bytes
  have hback := bigEndian_ofBigEndian bytes
  rw [h] at hlt hback
  have hmod : (ofInt32 bytes % 2 ^ 32).toNat = ofBigEndian bytes := by
    unfold ofInt32
    rw [Int.bmod_def]
    split <;> omega
  rw [int32, hmod, hback]

@[simp] theorem int32_bmod (i : Int) : int32 (i.bmod (2 ^ 32)) = int32 i := by
  have hmod : i.bmod (2 ^ 32) % 2 ^ 32 = i % 2 ^ 32 := by
    rw [Int.bmod_def]
    split <;> omega
  rw [int32, hmod, int32]

theorem ofInt32_range (bytes : List UInt8) : -2 ^ 31 ≤ ofInt32 bytes ∧ ofInt32 bytes < 2 ^ 31 := by
  unfold ofInt32
  rw [Int.bmod_def]
  split <;> omega

theorem bmod_of_range {i : Int} (h₁ : -2 ^ 31 ≤ i) (h₂ : i < 2 ^ 31) : i.bmod (2 ^ 32) = i := by
  rw [Int.bmod_def]
  split <;> omega

theorem bmod_of_lt {n : Nat} (h : n < 2 ^ 31) : Int.bmod n (2 ^ 32) = n :=
  bmod_of_range (by omega) (by omega)

/-- Wrapping to 32 bits does not give the number back from `2 ^ 31` on. -/
theorem lt_of_bmod_eq {n : Nat} (h : Int.bmod n (2 ^ 32) = n) : n < 2 ^ 31 := by
  rw [Int.bmod_def] at h
  split at h <;> omega

/-- A length that is wrapped to 32 bits does not grow. -/
theorem bmod_le (n : Nat) : Int.bmod n (2 ^ 32) ≤ n := by
  rw [Int.bmod_def]
  split <;> omega

theorem ofUInt64_uint64 (n : UInt64) : ofUInt64 (uint64 n) = n := by
  have := n.toNat_lt
  rw [ofUInt64, uint64, ofBigEndian_bigEndian, Nat.mod_eq_of_lt (by omega)]
  simp

theorem uint64_ofUInt64 {bytes : List UInt8} (h : bytes.length = 8) : uint64 (ofUInt64 bytes) = bytes := by
  have hlt := ofBigEndian_lt bytes
  have hback := bigEndian_ofBigEndian bytes
  rw [h] at hlt hback
  rw [uint64, ofUInt64, UInt64.toNat_ofNat', Nat.mod_eq_of_lt (by omega), hback]

-- the bytes of an integer are never computed in a proof, only named
attribute [irreducible] int32 ofInt32 uint64 ofUInt64

/-! ### The format -/

variable {σ ε α β γ : Type}

/-- A string behind its length. -/
def string (bytes : List UInt8) : List UInt8 := int32 bytes.length ++ bytes

/-- A sequence behind its length. -/
def sequence (put : α → List UInt8) (xs : List α) : List UInt8 := int32 xs.length ++ xs.flatMap put

/-- An optional value behind a flag. -/
def optional (put : α → List UInt8) : Option α → List UInt8
  | none => [0]
  | some a => 1 :: put a

/-! ### Readers -/

theorem run_bind_eq_ok_iff {r : StateT σ (Except ε) α} {k : α → StateT σ (Except ε) β} {s s' : σ} {b : β} :
    (r >>= k).run s = .ok (b, s') ↔ ∃ a s₁, r.run s = .ok (a, s₁) ∧ (k a).run s₁ = .ok (b, s') := by
  rw [StateT.run_bind, bind_eq_ok_iff]
  constructor
  · rintro ⟨⟨a, s₁⟩, hr, hk⟩
    exact ⟨a, s₁, hr, hk⟩
  · rintro ⟨a, s₁, hr, hk⟩
    exact ⟨(a, s₁), hr, hk⟩

theorem run_bind_eq_error_iff {r : StateT σ (Except ε) α} {k : α → StateT σ (Except ε) β} {s : σ} {e : ε} :
    (r >>= k).run s = .error e ↔ r.run s = .error e ∨ ∃ a s₁, r.run s = .ok (a, s₁) ∧ (k a).run s₁ = .error e := by
  rw [StateT.run_bind, bind_eq_error_iff]
  constructor
  · rintro (h | ⟨⟨a, s₁⟩, hr, hk⟩)
    · exact .inl h
    · exact .inr ⟨a, s₁, hr, hk⟩
  · rintro (h | ⟨a, s₁, hr, hk⟩)
    · exact .inl h
    · exact .inr ⟨(a, s₁), hr, hk⟩

theorem run_pure_eq_ok_iff {a b : α} {s s' : σ} :
    (pure a : StateT σ (Except ε) α).run s = .ok (b, s') ↔ b = a ∧ s' = s := by
  rw [StateT.run_pure]
  constructor
  · intro h
    cases h
    exact ⟨rfl, rfl⟩
  · rintro ⟨rfl, rfl⟩
    rfl

/-- The same reader `n` times, the results in order. -/
def times {m : Type → Type} [Monad m] (r : m α) : Nat → m (List α)
  | 0 => pure []
  | n + 1 => do
    let a ← r
    let as ← times r n
    return a :: as

theorem length_of_times {r : StateT σ (Except ε) α} {n : Nat} {s s' : σ} {as : List α}
    (h : (times r n).run s = .ok (as, s')) : as.length = n := by
  induction n generalizing s as s' with
  | zero =>
    obtain ⟨rfl, -⟩ := run_pure_eq_ok_iff.mp h
    rfl
  | succ n ih =>
    obtain ⟨a, s₁, -, h⟩ := run_bind_eq_ok_iff.mp h
    obtain ⟨as', s₂, has, h⟩ := run_bind_eq_ok_iff.mp h
    obtain ⟨rfl, -⟩ := run_pure_eq_ok_iff.mp h
    rw [List.length_cons, ih has]

section

variable (Feeds : σ → List UInt8 → Prop)

/-- Before `bytes`, the reader takes exactly them and returns `a`. -/
def Reads (r : StateT σ (Except ε) α) (bytes : List UInt8) (a : α) : Prop :=
  ∀ s rest, Feeds s (bytes ++ rest) → ∃ s', r.run s = .ok (a, s') ∧ Feeds s' rest

/-- Whatever the reader returns, it has taken bytes that stand for it. -/
def Takes (r : StateT σ (Except ε) α) (Stands : List UInt8 → α → Prop) : Prop :=
  ∀ s bytes a s', Feeds s bytes → r.run s = .ok (a, s') →
    ∃ taken rest, bytes = taken ++ rest ∧ Stands taken a ∧ Feeds s' rest

/-- Whatever the reader returns, it returns before the bytes that it has taken, with anything behind them. -/
def Steady (r : StateT σ (Except ε) α) : Prop := Takes Feeds r (Reads Feeds r)

/-- The reader returns a value before the bytes of the same value only when the value fits. -/
def ReadsBack (r : StateT σ (Except ε) α) (put : α → List UInt8) (Fits : α → Prop) : Prop :=
  ∀ s rest a s', Feeds s (put a ++ rest) → r.run s = .ok (a, s') → Fits a ∧ Feeds s' rest

end

variable {Feeds : σ → List UInt8 → Prop}

theorem Reads.pure (a : α) : Reads Feeds (pure a : StateT σ (Except ε) α) [] a :=
  fun s _ h => ⟨s, rfl, h⟩

theorem Reads.bind {r : StateT σ (Except ε) α} {k : α → StateT σ (Except ε) β} {first second : List UInt8} {a : α}
    {b : β} (hr : Reads Feeds r first a) (hk : Reads Feeds (k a) second b) :
    Reads Feeds (r >>= k) (first ++ second) b := by
  intro s rest h
  rw [List.append_assoc] at h
  obtain ⟨s₁, hr, h₁⟩ := hr s _ h
  obtain ⟨s₂, hk, h₂⟩ := hk s₁ rest h₁
  exact ⟨s₂, run_bind_eq_ok_iff.mpr ⟨a, s₁, hr, hk⟩, h₂⟩

/-- The last reader of a sequence, its result put into a value. -/
theorem Reads.map {r : StateT σ (Except ε) α} {bytes : List UInt8} {a : α} (hr : Reads Feeds r bytes a)
    (f : α → β) : Reads Feeds (do return f (← r)) bytes (f a) := by
  have := hr.bind (k := fun a => Pure.pure (f a)) (Reads.pure (f a))
  rwa [List.append_nil] at this

theorem Reads.times {put : α → List UInt8} {r : StateT σ (Except ε) β} {xs : List α} {ys : List β}
    (h : List.Forall₂ (fun x y => Reads Feeds r (put x) y) xs ys) :
    Reads Feeds (times r xs.length) (xs.flatMap put) ys := by
  induction h with
  | nil => exact Reads.pure []
  | cons hx _ ih => exact hx.bind (ih.map _)

/-- What a reader returns before bytes that it reads. -/
theorem Reads.result {r : StateT σ (Except ε) α} {bytes rest : List UInt8} {a b : α} {s s' : σ}
    (h : Reads Feeds r bytes a) (hs : Feeds s (bytes ++ rest)) (hrun : r.run s = .ok (b, s')) :
    b = a ∧ Feeds s' rest := by
  obtain ⟨s₁, hr, h₁⟩ := h s rest hs
  obtain ⟨rfl, rfl⟩ := Prod.mk.inj (Except.ok.inj (hr.symm.trans hrun))
  exact ⟨rfl, h₁⟩

theorem Takes.mono {r : StateT σ (Except ε) α} {P Q : List UInt8 → α → Prop} (hr : Takes Feeds r P)
    (h : ∀ bytes a, P bytes a → Q bytes a) : Takes Feeds r Q := by
  intro s bytes a s' hs hrun
  obtain ⟨taken, rest, hb, hP, hrest⟩ := hr s bytes a s' hs hrun
  exact ⟨taken, rest, hb, h taken a hP, hrest⟩

theorem Takes.pure (a : α) : Takes Feeds (pure a : StateT σ (Except ε) α) fun taken b => taken = [] ∧ b = a := by
  intro s bytes b s' hs h
  obtain ⟨rfl, rfl⟩ := run_pure_eq_ok_iff.mp h
  exact ⟨[], bytes, rfl, ⟨rfl, rfl⟩, hs⟩

theorem Takes.bind {r : StateT σ (Except ε) α} {k : α → StateT σ (Except ε) β} {P : List UInt8 → α → Prop}
    {Q : α → List UInt8 → β → Prop} (hr : Takes Feeds r P) (hk : ∀ a, Takes Feeds (k a) (Q a)) :
    Takes Feeds (r >>= k) fun taken b => ∃ a first second, taken = first ++ second ∧ P first a ∧ Q a second b := by
  intro s bytes b s' hs h
  obtain ⟨a, s₁, hra, hka⟩ := run_bind_eq_ok_iff.mp h
  obtain ⟨first, rest, rfl, hP, hs₁⟩ := hr s bytes a s₁ hs hra
  obtain ⟨second, rest', rfl, hQ, hs'⟩ := hk a s₁ rest b s' hs₁ hka
  exact ⟨first ++ second, rest', by rw [List.append_assoc], ⟨a, first, second, rfl, hP, hQ⟩, hs'⟩

theorem Takes.map {r : StateT σ (Except ε) α} {P : List UInt8 → α → Prop} (hr : Takes Feeds r P) (f : α → β) :
    Takes Feeds (do return f (← r)) fun taken b => ∃ a, P taken a ∧ b = f a := by
  refine (hr.bind fun a => Takes.pure (ε := ε) (f a)).mono ?_
  rintro bytes b ⟨a, first, second, rfl, hP, rfl, rfl⟩
  exact ⟨a, by rwa [List.append_nil], rfl⟩

theorem Takes.times {r : StateT σ (Except ε) α} {P : List UInt8 → α → Prop} (hr : Takes Feeds r P) (n : Nat) :
    Takes Feeds (times r n) fun taken as => as.length = n ∧ ∃ chunks, taken = chunks.flatten ∧ List.Forall₂ P chunks as := by
  induction n with
  | zero =>
    refine (Takes.pure (ε := ε) []).mono ?_
    rintro bytes as ⟨rfl, rfl⟩
    exact ⟨rfl, [], rfl, .nil⟩
  | succ n ih =>
    refine (hr.bind fun a => ih.map (a :: ·)).mono ?_
    rintro bytes as ⟨a, first, second, rfl, hP, as', ⟨hlen, chunks, rfl, hall⟩, rfl⟩
    exact ⟨by rw [List.length_cons, hlen], first :: chunks, rfl, .cons hP hall⟩

theorem Steady.pure (a : α) : Steady Feeds (pure a : StateT σ (Except ε) α) := by
  refine (Takes.pure a).mono ?_
  rintro bytes b ⟨rfl, rfl⟩
  exact Reads.pure b

theorem Steady.throw (e : ε) : Steady Feeds (throw e : StateT σ (Except ε) α) := by
  intro s bytes a s' _ h
  cases h

theorem Steady.lift (x : Except ε α) : Steady Feeds (StateT.lift x : StateT σ (Except ε) α) := by
  cases x with
  | error e => exact Steady.throw e
  | ok a => exact Steady.pure a

theorem Steady.bind {r : StateT σ (Except ε) α} {k : α → StateT σ (Except ε) β} (hr : Steady Feeds r)
    (hk : ∀ a, Steady Feeds (k a)) : Steady Feeds (r >>= k) := by
  refine (Takes.bind hr hk).mono ?_
  rintro bytes b ⟨a, first, second, rfl, ha, hb⟩
  exact ha.bind hb

theorem Steady.times {r : StateT σ (Except ε) α} (hr : Steady Feeds r) (n : Nat) : Steady Feeds (times r n) := by
  refine (Takes.times hr n).mono ?_
  rintro bytes as ⟨rfl, chunks, rfl, hall⟩
  have htimes : Reads Feeds (Wire.times r chunks.length) (chunks.flatMap id) as := Reads.times hall
  rwa [hall.length_eq, List.flatMap_id] at htimes

theorem ReadsBack.of_reads {r : StateT σ (Except ε) α} {put : α → List UInt8} (h : ∀ a, Reads Feeds r (put a) a) :
    ReadsBack Feeds r put fun _ => True := by
  intro s rest a s' hs hrun
  exact ⟨trivial, ((h a).result hs hrun).2⟩

theorem ReadsBack.times {r : StateT σ (Except ε) α} {put : α → List UInt8} {Fits : α → Prop}
    (hr : ReadsBack Feeds r put Fits) {s s' : σ} {rest : List UInt8} {as : List α}
    (hs : Feeds s (as.flatMap put ++ rest)) (h : (times r as.length).run s = .ok (as, s')) :
    (∀ a ∈ as, Fits a) ∧ Feeds s' rest := by
  induction as generalizing s with
  | nil =>
    obtain ⟨-, rfl⟩ := run_pure_eq_ok_iff.mp h
    exact ⟨nofun, hs⟩
  | cons a as ih =>
    obtain ⟨a', s₁, ha, h⟩ := run_bind_eq_ok_iff.mp h
    obtain ⟨as', s₂, has, h⟩ := run_bind_eq_ok_iff.mp h
    obtain ⟨heq, rfl⟩ := run_pure_eq_ok_iff.mp h
    cases heq
    rw [List.flatMap_cons, List.append_assoc] at hs
    obtain ⟨hfits, hs₁⟩ := hr s _ a s₁ hs ha
    obtain ⟨hall, hs'⟩ := ih hs₁ has
    exact ⟨List.forall_mem_cons.mpr ⟨hfits, hall⟩, hs'⟩

/-! ### Writers -/

/-- With room for them, the writer appends exactly `bytes`. -/
def Writes (Holds : σ → List UInt8 → Nat → Prop) (w : StateT σ (Except ε) Unit) (bytes : List UInt8) : Prop :=
  ∀ s out room, Holds s out (bytes.length + room) → ∃ s', w.run s = .ok ((), s') ∧ Holds s' (out ++ bytes) room

variable {Holds : σ → List UInt8 → Nat → Prop}

theorem Writes.pure : Writes Holds (pure () : StateT σ (Except ε) Unit) [] := by
  intro s out room h
  rw [List.length_nil, Nat.zero_add] at h
  exact ⟨s, rfl, by rwa [List.append_nil]⟩

theorem Writes.bind {w : StateT σ (Except ε) Unit} {k : Unit → StateT σ (Except ε) Unit} {first second : List UInt8}
    (hw : Writes Holds w first) (hk : Writes Holds (k ()) second) : Writes Holds (w >>= k) (first ++ second) := by
  intro s out room h
  rw [List.length_append, Nat.add_assoc] at h
  obtain ⟨s₁, hw, h₁⟩ := hw s out _ h
  obtain ⟨s₂, hk, h₂⟩ := hk s₁ _ room h₁
  exact ⟨s₂, run_bind_eq_ok_iff.mpr ⟨(), s₁, hw, hk⟩, by rwa [← List.append_assoc]⟩

theorem Writes.forM {put : β → List UInt8} {w : α → StateT σ (Except ε) Unit} {xs : List α} {ys : List β}
    (h : List.Forall₂ (fun y x => Writes Holds (w x) (put y)) ys xs) :
    Writes Holds (xs.forM w) (ys.flatMap put) := by
  induction h with
  | nil => exact Writes.pure
  | cons hx _ ih =>
    exact hx.bind (k := fun _ => List.forM _ w) ih

/-- From a state with the invariant the writer keeps it or fails, and never fails badly. -/
def Keeps (Inv : σ → Prop) (Bad : ε → Prop) (w : StateT σ (Except ε) α) : Prop :=
  ∀ s, Inv s → (∀ a s', w.run s = .ok (a, s') → Inv s') ∧ ∀ e, w.run s = .error e → ¬ Bad e

variable {Inv : σ → Prop} {Bad : ε → Prop}

theorem Keeps.pure (a : α) : Keeps Inv Bad (pure a : StateT σ (Except ε) α) := by
  intro s hs
  refine ⟨?_, ?_⟩
  · intro b s' h
    obtain ⟨-, rfl⟩ := run_pure_eq_ok_iff.mp h
    exact hs
  · intro e h
    cases h

theorem Keeps.lift {x : Except ε α} (h : ∀ e, x = .error e → ¬ Bad e) :
    Keeps Inv Bad (StateT.lift x : StateT σ (Except ε) α) := by
  cases x with
  | ok a => exact Keeps.pure a
  | error e =>
    intro s _
    refine ⟨?_, ?_⟩
    · intro b s' hrun
      cases hrun
    · intro d hrun
      cases hrun
      exact h e rfl

theorem Keeps.bind {w : StateT σ (Except ε) α} {k : α → StateT σ (Except ε) β} (hw : Keeps Inv Bad w)
    (hk : ∀ a, Keeps Inv Bad (k a)) : Keeps Inv Bad (w >>= k) := by
  intro s hs
  refine ⟨?_, ?_⟩
  · intro b s' h
    obtain ⟨a, s₁, ha, hb⟩ := run_bind_eq_ok_iff.mp h
    exact (hk a s₁ ((hw s hs).1 a s₁ ha)).1 b s' hb
  · intro e h
    rcases run_bind_eq_error_iff.mp h with h | ⟨a, s₁, ha, hb⟩
    · exact (hw s hs).2 e h
    · exact (hk a s₁ ((hw s hs).1 a s₁ ha)).2 e hb

theorem Keeps.forM {w : α → StateT σ (Except ε) Unit} (h : ∀ a, Keeps Inv Bad (w a)) (xs : List α) :
    Keeps Inv Bad (xs.forM w) := by
  induction xs with
  | nil => exact Keeps.pure ()
  | cons x xs ih => exact (h x).bind fun _ => ih

end Wire
