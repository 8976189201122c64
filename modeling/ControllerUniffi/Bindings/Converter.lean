import ControllerUniffi.Bindings.Interface
import ControllerUniffi.Data.Wire

/-!
# The wire format of the interface and its converters

The converters of a binding put its primitives together in the same way, field by field; the bindings differ in their
strings and in what a reader does with a length, a flag or a variant that does not occur.  The format is stated over
the UTF-8 bytes of the strings.  A converter is right when its primitives are: it reads what the format says
(`Reader.Lawful.reads`), accepts nothing else (`Reader.Strict.takes`), writes what the format says
(`Writer.Lawful.writes`).
-/

namespace ControllerUniffi.Ffi

open Wire

variable {σ ε S T : Type}

/-! ### The format -/

abbrev Bytes := List UInt8

def putCall (c : Call Bytes) : Bytes :=
  string c.contractAddress ++ (string c.entrypoint ++ sequence string c.calldata)

def putSessionPolicy (p : SessionPolicy Bytes) : Bytes := string p.contractAddress ++ string p.entrypoint

def putSessionPolicies (p : SessionPolicies Bytes) : Bytes := sequence putSessionPolicy p.policies ++ string p.maxFee

def putControllerError (e : ControllerError Bytes) : Bytes := int32 e.kind.index ++ string e.message

/-- The bytes of a value whose strings are given in UTF-8. -/
def wire : (t : Ty) → t.Val Bytes → Bytes
  | .call => putCall
  | .sessionPolicy => putSessionPolicy
  | .sessionPolicies => putSessionPolicies
  | .controllerError => putControllerError
  | .signerType => fun s => int32 (signerTypeIndex s)
  | .optionalUInt64 => optional uint64
  | .optionalString => optional string
  | .sequenceCall => sequence putCall
  | .sequenceSessionPolicy => sequence putSessionPolicy
  | .sequenceFieldElement => sequence string

/-- A length that a signed integer of 32 bits holds. -/
def Short (n : Nat) : Prop := n < 2 ^ 31

instance : DecidablePred Short := fun n => inferInstanceAs (Decidable (n < 2 ^ 31))

/-- Every length in the value is short. -/
abbrev Ty.Fits (t : Ty) (v : t.Val Bytes) : Prop := t.All (fun s => Short s.length) Short v

/-! ### Readers -/

/-- What a binding reads with. -/
structure Reader (σ ε S : Type) where
  int32 : StateT σ (Except ε) Int
  uint64 : StateT σ (Except ε) UInt64
  string : StateT σ (Except ε) S
  sequence : {α : Type} → StateT σ (Except ε) α → StateT σ (Except ε) (List α)
  optional : {α : Type} → StateT σ (Except ε) α → StateT σ (Except ε) (Option α)
  signerType : Int → Except ε SignerType
  errorKind : Int → Except ε ErrorKind

section

variable (F : Reader σ ε S)

def readVariant {α : Type} (select : Int → Except ε α) : StateT σ (Except ε) α := do
  let i ← F.int32
  StateT.lift (select i)

def readCall : StateT σ (Except ε) (Call S) := do
  let contractAddress ← F.string
  let entrypoint ← F.string
  let calldata ← F.sequence F.string
  return ⟨contractAddress, entrypoint, calldata⟩

def readSessionPolicy : StateT σ (Except ε) (SessionPolicy S) := do
  let contractAddress ← F.string
  let entrypoint ← F.string
  return ⟨contractAddress, entrypoint⟩

def readSessionPolicies : StateT σ (Except ε) (SessionPolicies S) := do
  let policies ← F.sequence (readSessionPolicy F)
  let maxFee ← F.string
  return ⟨policies, maxFee⟩

def readControllerError : StateT σ (Except ε) (ControllerError S) := do
  let kind ← readVariant F F.errorKind
  let message ← F.string
  return ⟨kind, message⟩

def read : (t : Ty) → StateT σ (Except ε) (t.Val S)
  | .call => readCall F
  | .sessionPolicy => readSessionPolicy F
  | .sessionPolicies => readSessionPolicies F
  | .controllerError => readControllerError F
  | .signerType => readVariant F F.signerType
  | .optionalUInt64 => F.optional F.uint64
  | .optionalString => F.optional F.string
  | .sequenceCall => F.sequence (readCall F)
  | .sequenceSessionPolicy => F.sequence (readSessionPolicy F)
  | .sequenceFieldElement => F.sequence F.string

end

/-- The primitives of a reader take what the format says; `R` relates the bytes of a string to what they are read as. -/
structure Reader.Lawful (F : Reader σ ε S) (Feeds : σ → Bytes → Prop) (R : Bytes → S → Prop) : Prop where
  int32 : ∀ i, -2 ^ 31 ≤ i → i < 2 ^ 31 → Reads Feeds F.int32 (Wire.int32 i) i
  uint64 : ∀ n, Reads Feeds F.uint64 (Wire.uint64 n) n
  string : ∀ b s, Short b.length → R b s → Reads Feeds F.string (Wire.string b) s
  sequence : ∀ {α β : Type} (put : α → Bytes) (r : StateT σ (Except ε) β) (xs : List α) (ys : List β), Short xs.length →
    List.Forall₂ (fun x y => Reads Feeds r (put x) y) xs ys → Reads Feeds (F.sequence r) (Wire.sequence put xs) ys
  optional_none : ∀ {β : Type} (r : StateT σ (Except ε) β), Reads Feeds (F.optional r) [0] none
  optional_some : ∀ {β : Type} (r : StateT σ (Except ε) β) (b : Bytes) (y : β), Reads Feeds r b y →
    Reads Feeds (F.optional r) (1 :: b) (some y)
  signerType : ∀ s, F.signerType (signerTypeIndex s) = .ok s
  errorKind : ∀ k, F.errorKind k.index = .ok k

namespace Reader.Lawful

variable {F : Reader σ ε S} {Feeds : σ → Bytes → Prop} {R : Bytes → S → Prop}

theorem readsVariant (L : F.Lawful Feeds R) {α : Type} {select : Int → Except ε α} {i : Int} {a : α}
    (hi : 1 ≤ i ∧ i ≤ 7) (h : select i = .ok a) : Reads Feeds (readVariant F select) (Wire.int32 i) a := by
  have hlift : Reads Feeds (StateT.lift (select i) : StateT σ (Except ε) α) [] a := by
    rw [h]
    exact fun s _ hs => ⟨s, rfl, hs⟩
  have := (L.int32 i (by omega) (by omega)).bind (k := fun i => StateT.lift (select i)) hlift
  rwa [List.append_nil] at this

theorem readsCall (L : F.Lawful Feeds R) {c : Call Bytes} {d : Call S}
    (hfits : c.All (fun s => Short s.length) Short) (h : c.Rel R d) : Reads Feeds (readCall F) (putCall c) d := by
  obtain ⟨h₁, h₂, hlen, hall⟩ := hfits
  have hdata := L.sequence Wire.string F.string c.calldata d.calldata hlen
    (((List.forall₂_and_left _ _).mpr ⟨hall, h.2.2⟩).imp fun b s hbs => L.string b s hbs.1 hbs.2)
  exact (L.string _ _ h₁ h.1).bind ((L.string _ _ h₂ h.2.1).bind (hdata.map _))

theorem readsSessionPolicy (L : F.Lawful Feeds R) {p : SessionPolicy Bytes} {q : SessionPolicy S}
    (hfits : p.All fun s => Short s.length) (h : p.Rel R q) :
    Reads Feeds (readSessionPolicy F) (putSessionPolicy p) q :=
  (L.string _ _ hfits.1 h.1).bind ((L.string _ _ hfits.2 h.2).map _)

theorem readsPolicies (L : F.Lawful Feeds R) {ps : List (SessionPolicy Bytes)} {qs : List (SessionPolicy S)}
    (hlen : Short ps.length) (hall : ∀ p ∈ ps, p.All fun s => Short s.length)
    (h : List.Forall₂ (SessionPolicy.Rel R) ps qs) :
    Reads Feeds (F.sequence (readSessionPolicy F)) (Wire.sequence putSessionPolicy ps) qs :=
  L.sequence _ _ _ _ hlen
    (((List.forall₂_and_left _ _).mpr ⟨hall, h⟩).imp fun _ _ hpq => L.readsSessionPolicy hpq.1 hpq.2)

/-- A reader whose primitives are right reads every value of the interface from its bytes. -/
theorem reads (L : F.Lawful Feeds R) (t : Ty) {c : t.Val Bytes} {v : t.Val S} (hfits : t.Fits c) (h : t.Rel R c v) :
    Reads Feeds (read F t) (wire t c) v := by
  cases t with
  | call => exact L.readsCall hfits h
  | sessionPolicy => exact L.readsSessionPolicy hfits h
  | sessionPolicies =>
    exact (L.readsPolicies hfits.1.1 hfits.1.2 h.1).bind ((L.string _ _ hfits.2 h.2).map _)
  | controllerError =>
    have hkind : Reads Feeds (readVariant F F.errorKind) (Wire.int32 c.kind.index) v.kind := by
      rw [h.1]
      exact L.readsVariant (by cases v.kind <;> decide) (L.errorKind _)
    exact hkind.bind ((L.string _ _ hfits h.2).map _)
  | signerType =>
    cases h
    exact L.readsVariant (by cases c <;> decide) (L.signerType c)
  | optionalUInt64 =>
    cases h
    cases c with
    | none => exact L.optional_none _
    | some n => exact L.optional_some _ _ _ (L.uint64 n)
  | optionalString =>
    cases h with
    | none => exact L.optional_none _
    | some hbs => exact L.optional_some _ _ _ (L.string _ _ (hfits _ rfl) hbs)
  | sequenceCall =>
    exact L.sequence _ _ _ _ hfits.1
      (((List.forall₂_and_left _ _).mpr ⟨hfits.2, h⟩).imp fun _ _ hcd => L.readsCall hcd.1 hcd.2)
  | sequenceSessionPolicy => exact L.readsPolicies hfits.1 hfits.2 h
  | sequenceFieldElement =>
    exact L.sequence _ _ _ _ hfits.1
      (((List.forall₂_and_left _ _).mpr ⟨hfits.2, h⟩).imp fun b s hbs => L.string b s hbs.1 hbs.2)

end Reader.Lawful

/-- The primitives of a reader accept nothing but what the format says. -/
structure Reader.Strict (F : Reader σ ε S) (Feeds : σ → Bytes → Prop) (R : Bytes → S → Prop) : Prop where
  int32 : Takes Feeds F.int32 fun b i => b = Wire.int32 i
  uint64 : Takes Feeds F.uint64 fun b n => b = Wire.uint64 n
  string : Takes Feeds F.string fun b s => ∃ c, b = Wire.string c ∧ Short c.length ∧ R c s
  sequence : ∀ {α : Type} {r : StateT σ (Except ε) α} {P : Bytes → α → Prop}, Takes Feeds r P →
    Takes Feeds (F.sequence r) fun b xs =>
      ∃ chunks, b = Wire.int32 chunks.length ++ chunks.flatten ∧ Short chunks.length ∧ List.Forall₂ P chunks xs
  optional : ∀ {α : Type} {r : StateT σ (Except ε) α} {P : Bytes → α → Prop}, Takes Feeds r P →
    Takes Feeds (F.optional r) fun b x => (b = [0] ∧ x = none) ∨ ∃ c a, b = 1 :: c ∧ x = some a ∧ P c a
  signerType : ∀ i s, F.signerType i = .ok s → i = signerTypeIndex s
  errorKind : ∀ i k, F.errorKind i = .ok k → i = k.index

namespace Reader.Strict

variable {F : Reader σ ε S} {Feeds : σ → Bytes → Prop} {R : Bytes → S → Prop}

private theorem sequence_of_chunks {α β : Type} {put : α → Bytes} {P : α → β → Prop} {A : α → Prop}
    {chunks : List Bytes} {ys : List β} (h : List.Forall₂ (fun b y => ∃ x, b = put x ∧ A x ∧ P x y) chunks ys) :
    ∃ xs : List α, Wire.int32 chunks.length ++ chunks.flatten = Wire.sequence put xs ∧ xs.length = chunks.length ∧
      (∀ x ∈ xs, A x) ∧ List.Forall₂ P xs ys := by
  have hxs : ∃ xs : List α, chunks = xs.map put ∧ (∀ x ∈ xs, A x) ∧ List.Forall₂ P xs ys := by
    induction h with
    | nil => exact ⟨[], rfl, nofun, .nil⟩
    | cons hx _ ih =>
      obtain ⟨x, rfl, hA, hP⟩ := hx
      obtain ⟨xs, rfl, hAs, hPs⟩ := ih
      exact ⟨x :: xs, rfl, List.forall_mem_cons.mpr ⟨hA, hAs⟩, .cons hP hPs⟩
  obtain ⟨xs, rfl, hA, hP⟩ := hxs
  exact ⟨xs, by rw [Wire.sequence, List.length_map, List.flatMap_def], by rw [List.length_map], hA, hP⟩

theorem takesVariant (L : F.Strict Feeds R) {α : Type} {select : Int → Except ε α} {index : α → Int}
    (h : ∀ i a, select i = .ok a → i = index a) :
    Takes Feeds (readVariant F select) fun b a => b = Wire.int32 (index a) := by
  have hlift : ∀ i, Takes Feeds (StateT.lift (select i) : StateT σ (Except ε) α)
      fun b a => b = [] ∧ i = index a := by
    intro i s bytes a s' hs hrun
    obtain ⟨a', ha, hk⟩ := Collect.bind_eq_ok_iff.mp hrun
    cases hk
    exact ⟨[], bytes, rfl, ⟨rfl, h i a ha⟩, hs⟩
  refine (L.int32.bind hlift).mono ?_
  rintro bytes a ⟨i, first, second, rfl, rfl, rfl, rfl⟩
  rw [List.append_nil]

theorem takesStrings (L : F.Strict Feeds R) : Takes Feeds (F.sequence F.string) fun b ss =>
    ∃ cs : List Bytes, b = Wire.sequence Wire.string cs ∧ (Short cs.length ∧ ∀ c ∈ cs, Short c.length) ∧
      List.Forall₂ R cs ss := by
  refine (L.sequence L.string).mono ?_
  rintro bytes ss ⟨chunks, rfl, hlen, hall⟩
  obtain ⟨cs, heq, hcs, hA, hP⟩ := sequence_of_chunks hall
  exact ⟨cs, heq, ⟨by rwa [hcs], hA⟩, hP⟩

theorem takesCall (L : F.Strict Feeds R) : Takes Feeds (readCall F) fun b d =>
    ∃ c, b = putCall c ∧ c.All (fun s => Short s.length) Short ∧ c.Rel R d := by
  refine (L.string.bind fun _ => L.string.bind fun _ => L.takesStrings.map _).mono ?_
  rintro _ _ ⟨s₁, _, _, rfl, ⟨c₁, rfl, h₁, hR₁⟩, s₂, _, _, rfl, ⟨c₂, rfl, h₂, hR₂⟩, ss, ⟨cs, rfl, h₃, hR₃⟩, rfl⟩
  exact ⟨⟨c₁, c₂, cs⟩, rfl, ⟨h₁, h₂, h₃⟩, hR₁, hR₂, hR₃⟩

theorem takesSessionPolicy (L : F.Strict Feeds R) : Takes Feeds (readSessionPolicy F) fun b q =>
    ∃ p, b = putSessionPolicy p ∧ (p.All fun s => Short s.length) ∧ p.Rel R q := by
  refine (L.string.bind fun _ => L.string.map _).mono ?_
  rintro _ _ ⟨s₁, _, _, rfl, ⟨c₁, rfl, h₁, hR₁⟩, s₂, ⟨c₂, rfl, h₂, hR₂⟩, rfl⟩
  exact ⟨⟨c₁, c₂⟩, rfl, ⟨h₁, h₂⟩, hR₁, hR₂⟩

theorem takesPolicies (L : F.Strict Feeds R) : Takes Feeds (F.sequence (readSessionPolicy F)) fun b qs =>
    ∃ ps, b = Wire.sequence putSessionPolicy ps ∧ (Short ps.length ∧ ∀ p ∈ ps, p.All fun s => Short s.length) ∧
      List.Forall₂ (SessionPolicy.Rel R) ps qs := by
  refine (L.sequence L.takesSessionPolicy).mono ?_
  rintro bytes qs ⟨chunks, rfl, hlen, hall⟩
  obtain ⟨ps, heq, hps, hA, hP⟩ := sequence_of_chunks hall
  exact ⟨ps, heq, ⟨by rwa [hps], hA⟩, hP⟩

/-- A reader whose primitives are strict accepts only the bytes of values of the interface. -/
theorem takes (L : F.Strict Feeds R) (t : Ty) :
    Takes Feeds (read F t) fun b v => ∃ c, b = wire t c ∧ t.Fits c ∧ t.Rel R c v := by
  cases t with
  | call => exact L.takesCall
  | sessionPolicy => exact L.takesSessionPolicy
  | sessionPolicies =>
    refine (L.takesPolicies.bind fun _ => L.string.map _).mono ?_
    rintro _ _ ⟨qs, _, _, rfl, ⟨ps, rfl, h₁, hR₁⟩, s, ⟨c, rfl, h₂, hR₂⟩, rfl⟩
    exact ⟨⟨ps, c⟩, rfl, ⟨h₁, h₂⟩, hR₁, hR₂⟩
  | controllerError =>
    refine ((L.takesVariant L.errorKind).bind fun _ => L.string.map _).mono ?_
    rintro _ _ ⟨kind, _, _, rfl, rfl, s, ⟨c, rfl, h, hR⟩, rfl⟩
    exact ⟨⟨kind, c⟩, rfl, h, rfl, hR⟩
  | signerType => exact (L.takesVariant L.signerType).mono fun _ s hb => ⟨s, hb, trivial, rfl⟩
  | optionalUInt64 =>
    refine (L.optional L.uint64).mono ?_
    rintro _ _ (⟨rfl, rfl⟩ | ⟨_, n, rfl, rfl, rfl⟩)
    · exact ⟨none, rfl, trivial, rfl⟩
    · exact ⟨some n, rfl, trivial, rfl⟩
  | optionalString =>
    refine (L.optional L.string).mono ?_
    rintro _ _ (⟨rfl, rfl⟩ | ⟨_, s, rfl, rfl, c, rfl, h, hR⟩)
    · exact ⟨none, rfl, nofun, .none⟩
    · refine ⟨some c, rfl, ?_, .some hR⟩
      rintro _ ⟨⟩
      exact h
  | sequenceCall =>
    refine (L.sequence L.takesCall).mono ?_
    rintro bytes cs ⟨chunks, rfl, hlen, hall⟩
    obtain ⟨ds, heq, hds, hA, hP⟩ := sequence_of_chunks hall
    exact ⟨ds, heq, ⟨by rwa [hds], hA⟩, hP⟩
  | sequenceSessionPolicy => exact L.takesPolicies
  | sequenceFieldElement => exact L.takesStrings

end Reader.Strict

/-- What the primitives of a reader return does not depend on what is behind the bytes they take. -/
structure Reader.Steady (F : Reader σ ε S) (Feeds : σ → Bytes → Prop) : Prop where
  int32 : Wire.Steady Feeds F.int32
  uint64 : Wire.Steady Feeds F.uint64
  string : Wire.Steady Feeds F.string
  sequence : ∀ {α : Type} {r : StateT σ (Except ε) α}, Wire.Steady Feeds r → Wire.Steady Feeds (F.sequence r)
  optional : ∀ {α : Type} {r : StateT σ (Except ε) α}, Wire.Steady Feeds r → Wire.Steady Feeds (F.optional r)

namespace Reader.Steady

variable {F : Reader σ ε S} {Feeds : σ → Bytes → Prop}

theorem steadyVariant (L : F.Steady Feeds) {α : Type} (select : Int → Except ε α) :
    Wire.Steady Feeds (readVariant F select) :=
  L.int32.bind fun i => .lift (select i)

theorem steadyCall (L : F.Steady Feeds) : Wire.Steady Feeds (readCall F) :=
  L.string.bind fun _ => L.string.bind fun _ => (L.sequence L.string).bind fun _ => .pure _

theorem steadySessionPolicy (L : F.Steady Feeds) : Wire.Steady Feeds (readSessionPolicy F) :=
  L.string.bind fun _ => L.string.bind fun _ => .pure _

theorem steady (L : F.Steady Feeds) (t : Ty) : Wire.Steady Feeds (read F t) := by
  cases t with
  | call => exact L.steadyCall
  | sessionPolicy => exact L.steadySessionPolicy
  | sessionPolicies => exact (L.sequence L.steadySessionPolicy).bind fun _ => L.string.bind fun _ => .pure _
  | controllerError => exact (L.steadyVariant F.errorKind).bind fun _ => L.string.bind fun _ => .pure _
  | signerType => exact L.steadyVariant F.signerType
  | optionalUInt64 => exact L.optional L.uint64
  | optionalString => exact L.optional L.string
  | sequenceCall => exact L.sequence L.steadyCall
  | sequenceSessionPolicy => exact L.sequence L.steadySessionPolicy
  | sequenceFieldElement => exact L.sequence L.string

end Reader.Steady

/-- The primitives of a reader give back no string or sequence that is too long for the format. -/
structure Reader.Honest (F : Reader σ ε Bytes) (Feeds : σ → Bytes → Prop) : Prop where
  string : ReadsBack Feeds F.string Wire.string fun s => Short s.length
  sequence : ∀ {α : Type} {r : StateT σ (Except ε) α} {put : α → Bytes} {Fits : α → Prop}, ReadsBack Feeds r put Fits →
    ReadsBack Feeds (F.sequence r) (Wire.sequence put) fun xs => Short xs.length ∧ ∀ x ∈ xs, Fits x
  optional : ∀ {α : Type} {r : StateT σ (Except ε) α} {put : α → Bytes} {Fits : α → Prop}, ReadsBack Feeds r put Fits →
    ReadsBack Feeds (F.optional r) (Wire.optional put) fun x => ∀ a ∈ x, Fits a

namespace Reader.Honest

variable {F : Reader σ ε Bytes} {Feeds : σ → Bytes → Prop} {R : Bytes → Bytes → Prop}

theorem readsBackCall (H : F.Honest Feeds) :
    ReadsBack Feeds (readCall F) putCall fun c => c.All (fun s => Short s.length) Short := by
  intro s rest c s' hs hrun
  obtain ⟨a, s₁, ha, hrun⟩ := run_bind_eq_ok_iff.mp hrun
  obtain ⟨b, s₂, hb, hrun⟩ := run_bind_eq_ok_iff.mp hrun
  obtain ⟨d, s₃, hd, hrun⟩ := run_bind_eq_ok_iff.mp hrun
  obtain ⟨rfl, rfl⟩ := run_pure_eq_ok_iff.mp hrun
  simp only [putCall, List.append_assoc] at hs
  obtain ⟨h₁, hs₁⟩ := H.string s _ a s₁ hs ha
  obtain ⟨h₂, hs₂⟩ := H.string s₁ _ b s₂ hs₁ hb
  obtain ⟨h₃, hs₃⟩ := H.sequence H.string s₂ _ d s' hs₂ hd
  exact ⟨⟨h₁, h₂, h₃⟩, hs₃⟩

theorem readsBackSessionPolicy (H : F.Honest Feeds) :
    ReadsBack Feeds (readSessionPolicy F) putSessionPolicy fun p => p.All fun s => Short s.length := by
  intro s rest c s' hs hrun
  obtain ⟨a, s₁, ha, hrun⟩ := run_bind_eq_ok_iff.mp hrun
  obtain ⟨b, s₂, hb, hrun⟩ := run_bind_eq_ok_iff.mp hrun
  obtain ⟨rfl, rfl⟩ := run_pure_eq_ok_iff.mp hrun
  simp only [putSessionPolicy, List.append_assoc] at hs
  obtain ⟨h₁, hs₁⟩ := H.string s _ a s₁ hs ha
  obtain ⟨h₂, hs₂⟩ := H.string s₁ _ b s' hs₁ hb
  exact ⟨⟨h₁, h₂⟩, hs₂⟩

theorem readsBackSessionPolicies (H : F.Honest Feeds) :
    ReadsBack Feeds (readSessionPolicies F) putSessionPolicies fun p => p.All (fun s => Short s.length) Short := by
  intro s rest c s' hs hrun
  obtain ⟨a, s₁, ha, hrun⟩ := run_bind_eq_ok_iff.mp hrun
  obtain ⟨b, s₂, hb, hrun⟩ := run_bind_eq_ok_iff.mp hrun
  obtain ⟨rfl, rfl⟩ := run_pure_eq_ok_iff.mp hrun
  simp only [putSessionPolicies, List.append_assoc] at hs
  obtain ⟨h₁, hs₁⟩ := H.sequence H.readsBackSessionPolicy s _ a s₁ hs ha
  obtain ⟨h₂, hs₂⟩ := H.string s₁ _ b s' hs₁ hb
  exact ⟨⟨h₁, h₂⟩, hs₂⟩

theorem readsBackControllerError (H : F.Honest Feeds) (L : F.Lawful Feeds R) :
    ReadsBack Feeds (readControllerError F) putControllerError fun e => Short e.message.length := by
  have hkind : ReadsBack Feeds (readVariant F F.errorKind) (fun k => Wire.int32 k.index) fun _ => True :=
    .of_reads fun k => L.readsVariant (by cases k <;> decide) (L.errorKind k)
  intro s rest c s' hs hrun
  obtain ⟨a, s₁, ha, hrun⟩ := run_bind_eq_ok_iff.mp hrun
  obtain ⟨b, s₂, hb, hrun⟩ := run_bind_eq_ok_iff.mp hrun
  obtain ⟨rfl, rfl⟩ := run_pure_eq_ok_iff.mp hrun
  simp only [putControllerError, List.append_assoc] at hs
  obtain ⟨-, hs₁⟩ := hkind s _ a s₁ hs ha
  exact H.string s₁ _ b s' hs₁ hb

/-- A reader whose primitives are honest gives a value back from its own bytes only when every length in it fits. -/
theorem readsBack (H : F.Honest Feeds) (L : F.Lawful Feeds R) (t : Ty) :
    ReadsBack Feeds (read F t) (wire t) t.Fits := by
  cases t with
  | call => exact H.readsBackCall
  | sessionPolicy => exact H.readsBackSessionPolicy
  | sessionPolicies => exact H.readsBackSessionPolicies
  | controllerError => exact H.readsBackControllerError L
  | signerType => exact .of_reads fun s => L.readsVariant (by cases s <;> decide) (L.signerType s)
  | optionalUInt64 =>
    intro s rest x s' hs hrun
    exact ⟨trivial, (H.optional (.of_reads L.uint64) s rest x s' hs hrun).2⟩
  | optionalString => exact H.optional H.string
  | sequenceCall => exact H.sequence H.readsBackCall
  | sequenceSessionPolicy => exact H.sequence H.readsBackSessionPolicy
  | sequenceFieldElement => exact H.sequence H.string

end Reader.Honest

/-! ### Writers -/

/-- What a binding writes with; `count` writes the length of a sequence. -/
structure Writer (σ ε S : Type) where
  byte : UInt8 → StateT σ (Except ε) Unit
  int32 : Int → StateT σ (Except ε) Unit
  uint64 : UInt64 → StateT σ (Except ε) Unit
  count : Nat → StateT σ (Except ε) Unit
  string : S → StateT σ (Except ε) Unit

section

variable (F : Writer σ ε S)

def writeSequence {α : Type} (write : α → StateT σ (Except ε) Unit) (xs : List α) : StateT σ (Except ε) Unit := do
  F.count xs.length
  xs.forM write

def writeOptional {α : Type} (write : α → StateT σ (Except ε) Unit) : Option α → StateT σ (Except ε) Unit
  | none => F.byte 0
  | some a => do
    F.byte 1
    write a

def writeCall (c : Call S) : StateT σ (Except ε) Unit := do
  F.string c.contractAddress
  F.string c.entrypoint
  writeSequence F F.string c.calldata

def writeSessionPolicy (p : SessionPolicy S) : StateT σ (Except ε) Unit := do
  F.string p.contractAddress
  F.string p.entrypoint

def writeSessionPolicies (p : SessionPolicies S) : StateT σ (Except ε) Unit := do
  writeSequence F (writeSessionPolicy F) p.policies
  F.string p.maxFee

def writeControllerError (e : ControllerError S) : StateT σ (Except ε) Unit := do
  F.int32 e.kind.index
  F.string e.message

def write : (t : Ty) → t.Val S → StateT σ (Except ε) Unit
  | .call => writeCall F
  | .sessionPolicy => writeSessionPolicy F
  | .sessionPolicies => writeSessionPolicies F
  | .controllerError => writeControllerError F
  | .signerType => fun s => F.int32 (signerTypeIndex s)
  | .optionalUInt64 => writeOptional F F.uint64
  | .optionalString => writeOptional F F.string
  | .sequenceCall => writeSequence F (writeCall F)
  | .sequenceSessionPolicy => writeSequence F (writeSessionPolicy F)
  | .sequenceFieldElement => writeSequence F F.string

end

/-- The primitives of a writer write what the format says, strings whose bytes satisfy `P` and sequences whose length
satisfies `Q`; `R` relates the bytes of a string to the string. -/
structure Writer.Lawful (F : Writer σ ε S) (Holds : σ → Bytes → Nat → Prop) (P : Bytes → Prop) (Q : Nat → Prop)
    (R : Bytes → S → Prop) : Prop where
  byte : ∀ b, Writes Holds (F.byte b) [b]
  int32 : ∀ i, 1 ≤ i → i ≤ 7 → Writes Holds (F.int32 i) (Wire.int32 i)
  uint64 : ∀ n, Writes Holds (F.uint64 n) (Wire.uint64 n)
  count : ∀ n : Nat, Q n → Writes Holds (F.count n) (Wire.int32 n)
  string : ∀ b s, P b → R b s → Writes Holds (F.string s) (Wire.string b)

namespace Writer.Lawful

variable {F : Writer σ ε S} {Holds : σ → Bytes → Nat → Prop} {P : Bytes → Prop} {Q : Nat → Prop} {R : Bytes → S → Prop}

theorem writesSequence (L : F.Lawful Holds P Q R) {α β : Type} {put : β → Bytes} {write : α → StateT σ (Except ε) Unit}
    {ys : List β} {xs : List α} (hlen : Q ys.length)
    (h : List.Forall₂ (fun y x => Writes Holds (write x) (put y)) ys xs) :
    Writes Holds (writeSequence F write xs) (Wire.sequence put ys) := by
  have hcount := L.count ys.length hlen
  rw [h.length_eq] at hcount
  rw [Wire.sequence, h.length_eq]
  exact hcount.bind (Writes.forM h)

theorem writesStrings (L : F.Lawful Holds P Q R) {cs : List Bytes} {ss : List S}
    (hall : Q cs.length ∧ ∀ c ∈ cs, P c) (h : List.Forall₂ R cs ss) :
    Writes Holds (writeSequence F F.string ss) (Wire.sequence Wire.string cs) :=
  L.writesSequence hall.1 (((List.forall₂_and_left _ _).mpr ⟨hall.2, h⟩).imp fun b s hbs => L.string b s hbs.1 hbs.2)

theorem writesCall (L : F.Lawful Holds P Q R) {c : Call Bytes} {d : Call S}
    (hall : c.All P Q) (h : c.Rel R d) : Writes Holds (writeCall F d) (putCall c) :=
  (L.string _ _ hall.1 h.1).bind ((L.string _ _ hall.2.1 h.2.1).bind (L.writesStrings hall.2.2 h.2.2))

theorem writesSessionPolicy (L : F.Lawful Holds P Q R) {p : SessionPolicy Bytes} {q : SessionPolicy S}
    (hall : p.All P) (h : p.Rel R q) :
    Writes Holds (writeSessionPolicy F q) (putSessionPolicy p) :=
  (L.string _ _ hall.1 h.1).bind (L.string _ _ hall.2 h.2)

theorem writesPolicies (L : F.Lawful Holds P Q R) {ps : List (SessionPolicy Bytes)} {qs : List (SessionPolicy S)}
    (hall : Q ps.length ∧ ∀ p ∈ ps, p.All P)
    (h : List.Forall₂ (SessionPolicy.Rel R) ps qs) :
    Writes Holds (writeSequence F (writeSessionPolicy F) qs) (Wire.sequence putSessionPolicy ps) :=
  L.writesSequence hall.1
    (((List.forall₂_and_left _ _).mpr ⟨hall.2, h⟩).imp fun _ _ hpq => L.writesSessionPolicy hpq.1 hpq.2)

/-- A writer whose primitives are right writes every value of the interface as the format says. -/
theorem writes (L : F.Lawful Holds P Q R) (t : Ty) {c : t.Val Bytes} {v : t.Val S} (hall : t.All P Q c) (h : t.Rel R c v) :
    Writes Holds (write F t v) (wire t c) := by
  cases t with
  | call => exact L.writesCall hall h
  | sessionPolicy => exact L.writesSessionPolicy hall h
  | sessionPolicies => exact (L.writesPolicies hall.1 h.1).bind (L.string _ _ hall.2 h.2)
  | controllerError =>
    have hkind : Writes Holds (F.int32 v.kind.index) (Wire.int32 c.kind.index) := by
      rw [h.1]
      exact L.int32 _ (by cases v.kind <;> decide) (by cases v.kind <;> decide)
    exact hkind.bind (k := fun _ => F.string v.message) (L.string _ _ hall h.2)
  | signerType =>
    cases h
    exact L.int32 _ (by cases c <;> decide) (by cases c <;> decide)
  | optionalUInt64 =>
    cases h
    cases c with
    | none => exact L.byte 0
    | some n => exact (L.byte 1).bind (L.uint64 n)
  | optionalString =>
    cases h with
    | none => exact L.byte 0
    | some hbs => exact (L.byte 1).bind (L.string _ _ (hall _ rfl) hbs)
  | sequenceCall =>
    exact L.writesSequence hall.1
      (((List.forall₂_and_left _ _).mpr ⟨hall.2, h⟩).imp fun _ _ hcd => L.writesCall hcd.1 hcd.2)
  | sequenceSessionPolicy => exact L.writesPolicies hall h
  | sequenceFieldElement => exact L.writesStrings hall h

end Writer.Lawful

/-- What the primitives of a writer ask of a string and of the length of a sequence. -/
structure Writer.Demands (F : Writer σ ε S) (P : S → Prop) (Q : Nat → Prop) : Prop where
  string : ∀ {s st st'}, (F.string s).run st = .ok ((), st') → P s
  count : ∀ {n st st'}, (F.count n).run st = .ok ((), st') → Q n

namespace Writer.Demands

variable {F : Writer σ ε S} {P : S → Prop} {Q : Nat → Prop}

theorem allSequence (D : F.Demands P Q) {α : Type} {write : α → StateT σ (Except ε) Unit} {A : α → Prop}
    (hA : ∀ {a st st'}, (write a).run st = .ok ((), st') → A a) {xs : List α} {st st' : σ}
    (h : (writeSequence F write xs).run st = .ok ((), st')) : Q xs.length ∧ ∀ x ∈ xs, A x := by
  have hforM : ∀ (xs : List α) {st : σ}, (xs.forM write).run st = .ok ((), st') → ∀ x ∈ xs, A x := by
    intro xs
    induction xs with
    | nil =>
      intro st _
      exact nofun
    | cons x xs ih =>
      intro st h
      obtain ⟨_, st₁, hx, hxs⟩ := run_bind_eq_ok_iff.mp h
      exact List.forall_mem_cons.mpr ⟨hA hx, ih hxs⟩
  obtain ⟨_, st₁, hcount, hxs⟩ := run_bind_eq_ok_iff.mp h
  exact ⟨D.count hcount, hforM xs hxs⟩

theorem allCall (D : F.Demands P Q) {c : Call S} {st st' : σ} (h : (writeCall F c).run st = .ok ((), st')) :
    c.All P Q := by
  obtain ⟨_, st₁, h₁, h⟩ := run_bind_eq_ok_iff.mp h
  obtain ⟨_, st₂, h₂, h⟩ := run_bind_eq_ok_iff.mp h
  exact ⟨D.string h₁, D.string h₂, D.allSequence D.string h⟩

theorem allSessionPolicy (D : F.Demands P Q) {p : SessionPolicy S} {st st' : σ}
    (h : (writeSessionPolicy F p).run st = .ok ((), st')) : p.All P := by
  obtain ⟨_, st₁, h₁, h₂⟩ := run_bind_eq_ok_iff.mp h
  exact ⟨D.string h₁, D.string h₂⟩

/-- A value that was written satisfies what the primitives ask. -/
theorem all (D : F.Demands P Q) (t : Ty) {v : t.Val S} {st st' : σ} (h : (write F t v).run st = .ok ((), st')) :
    t.All P Q v := by
  cases t with
  | call => exact D.allCall h
  | sessionPolicy => exact D.allSessionPolicy h
  | sessionPolicies =>
    obtain ⟨_, st₁, h₁, h₂⟩ := run_bind_eq_ok_iff.mp h
    exact ⟨D.allSequence D.allSessionPolicy h₁, D.string h₂⟩
  | controllerError =>
    obtain ⟨_, st₁, -, h₂⟩ := run_bind_eq_ok_iff.mp h
    exact D.string h₂
  | signerType => trivial
  | optionalUInt64 => trivial
  | optionalString =>
    cases v with
    | none => exact nofun
    | some s =>
      obtain ⟨_, st₁, -, h₂⟩ := run_bind_eq_ok_iff.mp h
      rintro _ ⟨⟩
      exact D.string h₂
  | sequenceCall => exact D.allSequence D.allCall h
  | sequenceSessionPolicy => exact D.allSequence D.allSessionPolicy h
  | sequenceFieldElement => exact D.allSequence D.string h

end Writer.Demands

/-- The primitives of a writer keep an invariant of its state and never fail badly. -/
structure Writer.Keeps (F : Writer σ ε S) (Inv : σ → Prop) (Bad : ε → Prop) : Prop where
  byte : ∀ b, Wire.Keeps Inv Bad (F.byte b)
  int32 : ∀ i, Wire.Keeps Inv Bad (F.int32 i)
  uint64 : ∀ n, Wire.Keeps Inv Bad (F.uint64 n)
  count : ∀ n, Wire.Keeps Inv Bad (F.count n)
  string : ∀ s, Wire.Keeps Inv Bad (F.string s)

namespace Writer.Keeps

variable {F : Writer σ ε S} {Inv : σ → Prop} {Bad : ε → Prop}

theorem keepsSequence (K : F.Keeps Inv Bad) {α : Type} {write : α → StateT σ (Except ε) Unit}
    (h : ∀ a, Wire.Keeps Inv Bad (write a)) (xs : List α) : Wire.Keeps Inv Bad (writeSequence F write xs) :=
  (K.count _).bind fun _ => .forM h xs

theorem keepsOptional (K : F.Keeps Inv Bad) {α : Type} {write : α → StateT σ (Except ε) Unit}
    (h : ∀ a, Wire.Keeps Inv Bad (write a)) (x : Option α) : Wire.Keeps Inv Bad (writeOptional F write x) := by
  cases x with
  | none => exact K.byte 0
  | some a => exact (K.byte 1).bind fun _ => h a

theorem keepsCall (K : F.Keeps Inv Bad) (c : Call S) : Wire.Keeps Inv Bad (writeCall F c) :=
  (K.string _).bind fun _ => (K.string _).bind fun _ => K.keepsSequence K.string _

theorem keepsSessionPolicy (K : F.Keeps Inv Bad) (p : SessionPolicy S) : Wire.Keeps Inv Bad (writeSessionPolicy F p) :=
  (K.string _).bind fun _ => K.string _

theorem keeps (K : F.Keeps Inv Bad) (t : Ty) (v : t.Val S) : Wire.Keeps Inv Bad (write F t v) := by
  cases t with
  | call => exact K.keepsCall v
  | sessionPolicy => exact K.keepsSessionPolicy v
  | sessionPolicies => exact (K.keepsSequence K.keepsSessionPolicy _).bind fun _ => K.string _
  | controllerError => exact (K.int32 _).bind fun _ => K.string _
  | signerType => exact K.int32 _
  | optionalUInt64 => exact K.keepsOptional K.uint64 v
  | optionalString => exact K.keepsOptional K.string v
  | sequenceCall => exact K.keepsSequence K.keepsCall v
  | sequenceSessionPolicy => exact K.keepsSequence K.keepsSessionPolicy v
  | sequenceFieldElement => exact K.keepsSequence K.string v

end Writer.Keeps

/-! ### Sizes -/

section

variable (f : S → Nat)

def sizeSequence {α : Type} (size : α → Nat) (xs : List α) : Nat := 4 + (xs.map size).sum

def sizeOptional {α : Type} (size : α → Nat) : Option α → Nat
  | none => 1
  | some a => 1 + size a

def sizeCall (c : Call S) : Nat := f c.contractAddress + f c.entrypoint + sizeSequence f c.calldata

def sizeSessionPolicy (p : SessionPolicy S) : Nat := f p.contractAddress + f p.entrypoint

/-- The bytes to allocate for a value, from those for a string. -/
def allocationSize : (t : Ty) → t.Val S → Nat
  | .call => sizeCall f
  | .sessionPolicy => sizeSessionPolicy f
  | .sessionPolicies => fun p => sizeSequence (sizeSessionPolicy f) p.policies + f p.maxFee
  | .controllerError => fun e => 4 + f e.message
  | .signerType => fun _ => 4
  | .optionalUInt64 => sizeOptional fun _ => 8
  | .optionalString => sizeOptional f
  | .sequenceCall => sizeSequence (sizeCall f)
  | .sequenceSessionPolicy => sizeSequence (sizeSessionPolicy f)
  | .sequenceFieldElement => sizeSequence f

end

private theorem sequence_length {α : Type} {put : α → Bytes} {size : α → Nat} (h : ∀ a, (put a).length = size a)
    (xs : List α) : (Wire.sequence put xs).length = sizeSequence size xs := by
  have hmap : xs.map (fun a => (put a).length) = xs.map size := List.map_congr_left fun a _ => h a
  rw [Wire.sequence, List.length_append, int32_length, List.length_flatMap, hmap, sizeSequence]

private theorem string_length (b : Bytes) : (Wire.string b).length = 4 + b.length := by
  rw [Wire.string, List.length_append, int32_length]

private theorem putCall_length (c : Call Bytes) : (putCall c).length = sizeCall (fun b => 4 + b.length) c := by
  simp only [putCall, List.length_append, string_length, sequence_length string_length, sizeCall]
  omega

private theorem putSessionPolicy_length (p : SessionPolicy Bytes) :
    (putSessionPolicy p).length = sizeSessionPolicy (fun b => 4 + b.length) p := by
  rw [putSessionPolicy, List.length_append, string_length, string_length, sizeSessionPolicy]

/-- The format takes four bytes and its own for a string. -/
theorem wire_length (t : Ty) (c : t.Val Bytes) : (wire t c).length = allocationSize (fun b => 4 + b.length) t c := by
  cases t with
  | call => exact putCall_length c
  | sessionPolicy => exact putSessionPolicy_length c
  | sessionPolicies =>
    rw [wire, putSessionPolicies, List.length_append, sequence_length putSessionPolicy_length, string_length]
    rfl
  | controllerError =>
    rw [wire, putControllerError, List.length_append, int32_length, string_length]
    rfl
  | signerType => exact int32_length _
  | optionalUInt64 =>
    cases c with
    | none => rfl
    | some n =>
      change (1 :: Wire.uint64 n).length = 1 + 8
      rw [List.length_cons, uint64_length]
  | optionalString =>
    cases c with
    | none => rfl
    | some b =>
      change (1 :: Wire.string b).length = 1 + (4 + b.length)
      rw [List.length_cons, string_length, Nat.add_comm]
  | sequenceCall => exact sequence_length putCall_length c
  | sequenceSessionPolicy => exact sequence_length putSessionPolicy_length c
  | sequenceFieldElement => exact sequence_length string_length c

private theorem sizeSequence_le {α β : Type} {R : α → β → Prop} {f : α → Nat} {g : β → Nat}
    (h : ∀ x y, R x y → f x ≤ g y) {xs : List α} {ys : List β} (hR : List.Forall₂ R xs ys) :
    sizeSequence f xs ≤ sizeSequence g ys := by
  have hsum : (xs.map f).sum ≤ (ys.map g).sum := by
    induction hR with
    | nil => exact Nat.le_refl 0
    | cons hxy _ ih =>
      have := h _ _ hxy
      simp only [List.map_cons, List.sum_cons]
      omega
  unfold sizeSequence
  omega

/-- Sizes grow with those of the strings. -/
theorem allocationSize_le {R : S → T → Prop} {f : S → Nat} {g : T → Nat} (h : ∀ x y, R x y → f x ≤ g y) (t : Ty)
    {v : t.Val S} {w : t.Val T} (hR : t.Rel R v w) : allocationSize f t v ≤ allocationSize g t w := by
  have hcall : ∀ (c : Call S) (d : Call T), c.Rel R d → sizeCall f c ≤ sizeCall g d := by
    intro c d hcd
    have h₁ := h _ _ hcd.1
    have h₂ := h _ _ hcd.2.1
    have h₃ := sizeSequence_le h hcd.2.2
    unfold sizeCall
    omega
  have hpolicy : ∀ (p : SessionPolicy S) (q : SessionPolicy T), p.Rel R q → sizeSessionPolicy f p ≤ sizeSessionPolicy g q := by
    intro p q hpq
    exact Nat.add_le_add (h _ _ hpq.1) (h _ _ hpq.2)
  cases t with
  | call => exact hcall v w hR
  | sessionPolicy => exact hpolicy v w hR
  | sessionPolicies => exact Nat.add_le_add (sizeSequence_le hpolicy hR.1) (h _ _ hR.2)
  | controllerError => exact Nat.add_le_add_left (h _ _ hR.2) 4
  | signerType => exact Nat.le_refl 4
  | optionalUInt64 =>
    cases hR
    exact Nat.le_refl _
  | optionalString =>
    cases hR with
    | none => exact Nat.le_refl 1
    | some hxy => exact Nat.add_le_add_left (h _ _ hxy) 1
  | sequenceCall => exact sizeSequence_le hcall hR
  | sequenceSessionPolicy => exact sizeSequence_le hpolicy hR
  | sequenceFieldElement => exact sizeSequence_le h hR

private theorem sizeSequence_bounds {α : Type} {size : α → Nat} (h : ∀ a, 4 ≤ size a) (xs : List α) :
    xs.length ≤ sizeSequence size xs ∧ ∀ x ∈ xs, size x ≤ sizeSequence size xs := by
  unfold sizeSequence
  induction xs with
  | nil => exact ⟨Nat.zero_le _, nofun⟩
  | cons a xs ih =>
    have ha := h a
    simp only [List.map_cons, List.sum_cons, List.length_cons, List.mem_cons, forall_eq_or_imp]
    refine ⟨by omega, by omega, fun x hx => ?_⟩
    have := ih.2 x hx
    omega

private theorem fits_sequence {α : Type} {size : α → Nat} {A : α → Prop} (h : ∀ a, 4 ≤ size a)
    (hA : ∀ a, size a < 2 ^ 31 → A a) {xs : List α} (hxs : sizeSequence size xs < 2 ^ 31) :
    xs.length < 2 ^ 31 ∧ ∀ x ∈ xs, A x := by
  obtain ⟨hlen, hall⟩ := sizeSequence_bounds h xs
  refine ⟨by omega, fun x hx => hA x ?_⟩
  have := hall x hx
  omega

/-- No length in a value exceeds that of its bytes. -/
theorem fits_of_wire {t : Ty} {c : t.Val Bytes} (h : Short (wire t c).length) : t.Fits c := by
  rw [wire_length] at h
  unfold Ty.Fits Short at *
  have hstring : ∀ b : Bytes, 4 + b.length < 2 ^ 31 → b.length < 2 ^ 31 := fun b hb => by omega
  have hstrings : ∀ bs : List Bytes, sizeSequence (fun b => 4 + b.length) bs < 2 ^ 31 →
      bs.length < 2 ^ 31 ∧ ∀ b ∈ bs, b.length < 2 ^ 31 := fun bs => fits_sequence (fun b => Nat.le_add_right 4 _) hstring
  have hcall : ∀ c : Call Bytes, sizeCall (fun b => 4 + b.length) c < 2 ^ 31 →
      c.All (fun s => s.length < 2 ^ 31) (· < 2 ^ 31) := by
    intro c hc
    unfold sizeCall at hc
    dsimp only at hc
    obtain ⟨hlen, hall⟩ := hstrings c.calldata (by omega)
    exact ⟨by omega, by omega, hlen, hall⟩
  have hpolicy : ∀ p : SessionPolicy Bytes, sizeSessionPolicy (fun b => 4 + b.length) p < 2 ^ 31 →
      p.All fun s => s.length < 2 ^ 31 := by
    intro p hp
    unfold sizeSessionPolicy at hp
    dsimp only at hp
    exact ⟨by omega, by omega⟩
  have hcallSize : ∀ c : Call Bytes, 4 ≤ sizeCall (fun b => 4 + b.length) c := fun c => by
    unfold sizeCall
    dsimp only
    omega
  have hpolicySize : ∀ p : SessionPolicy Bytes, 4 ≤ sizeSessionPolicy (fun b => 4 + b.length) p := fun p => by
    unfold sizeSessionPolicy
    dsimp only
    omega
  cases t with
  | call => exact hcall c h
  | sessionPolicy => exact hpolicy c h
  | sessionPolicies =>
    unfold allocationSize at h
    dsimp only at h
    exact ⟨fits_sequence hpolicySize hpolicy (by omega), by omega⟩
  | controllerError =>
    unfold allocationSize at h
    dsimp only at h
    exact hstring _ (by omega)
  | signerType => trivial
  | optionalUInt64 => trivial
  | optionalString =>
    rintro s ⟨⟩
    unfold allocationSize sizeOptional at h
    dsimp only at h ⊢
    omega
  | sequenceCall => exact fits_sequence hcallSize hcall h
  | sequenceSessionPolicy => exact fits_sequence hpolicySize hpolicy h
  | sequenceFieldElement => exact hstrings c h

end ControllerUniffi.Ffi
