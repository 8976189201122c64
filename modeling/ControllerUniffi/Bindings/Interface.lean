import ControllerUniffi.Types
import Mathlib.Data.List.Forall2

/-!
# The types of the interface

The foreign bindings pass records, enumerations, errors, optional values and sequences through buffers.  Each binding
has these types over its own strings; `Ty.Val` gives the values of a type over any strings, `Ty.map`, `Ty.Rel` and
`Ty.All` carry functions, relations and conditions from strings to values.
-/

namespace ControllerUniffi.Ffi

structure Call (S : Type) where
  contractAddress : S
  entrypoint : S
  calldata : List S
  deriving DecidableEq, Repr

structure SessionPolicy (S : Type) where
  contractAddress : S
  entrypoint : S
  deriving DecidableEq, Repr

structure SessionPolicies (S : Type) where
  policies : List (SessionPolicy S)
  maxFee : S
  deriving DecidableEq, Repr

inductive ErrorKind where
  | initializationError
  | signupError
  | executionError
  | networkError
  | storageError
  | invalidInput
  | disconnectError
  deriving DecidableEq, Repr

/-- An error as the bindings know it: its class and its text. -/
structure ControllerError (S : Type) where
  kind : ErrorKind
  message : S
  deriving DecidableEq, Repr

inductive Version where
  | v104
  | v105
  | v106
  | v107
  | v108
  | v109
  | latest
  deriving DecidableEq, Repr

def signerTypeIndex : SignerType → Int
  | .webauthn => 1
  | .starknet => 2

def ErrorKind.index : ErrorKind → Int
  | initializationError => 1
  | signupError => 2
  | executionError => 3
  | networkError => 4
  | storageError => 5
  | invalidInput => 6
  | disconnectError => 7

def Version.index : Version → Int
  | v104 => 1
  | v105 => 2
  | v106 => 3
  | v107 => 4
  | v108 => 5
  | v109 => 6
  | latest => 7

/-- The types that every binding passes in a buffer. -/
inductive Ty where
  | call
  | sessionPolicy
  | sessionPolicies
  | controllerError
  | signerType
  | optionalUInt64
  | optionalString
  | sequenceCall
  | sequenceSessionPolicy
  | sequenceFieldElement
  deriving DecidableEq, Repr

variable {S T : Type}

/-- The values of a type over the strings `S`. -/
@[reducible] def Ty.Val (S : Type) : Ty → Type
  | call => Call S
  | sessionPolicy => SessionPolicy S
  | sessionPolicies => SessionPolicies S
  | controllerError => ControllerError S
  | signerType => SignerType
  | optionalUInt64 => Option UInt64
  | optionalString => Option S
  | sequenceCall => List (Call S)
  | sequenceSessionPolicy => List (SessionPolicy S)
  | sequenceFieldElement => List S

/-! ### Values over different strings -/

def Call.map (f : S → T) (c : Call S) : Call T := ⟨f c.contractAddress, f c.entrypoint, c.calldata.map f⟩

def SessionPolicy.map (f : S → T) (p : SessionPolicy S) : SessionPolicy T := ⟨f p.contractAddress, f p.entrypoint⟩

def SessionPolicies.map (f : S → T) (p : SessionPolicies S) : SessionPolicies T :=
  ⟨p.policies.map (SessionPolicy.map f), f p.maxFee⟩

def ControllerError.map (f : S → T) (e : ControllerError S) : ControllerError T := ⟨e.kind, f e.message⟩

def Ty.map (f : S → T) : (t : Ty) → t.Val S → t.Val T
  | call, c => c.map f
  | sessionPolicy, p => p.map f
  | sessionPolicies, p => p.map f
  | controllerError, e => e.map f
  | signerType, s => s
  | optionalUInt64, n => n
  | optionalString, s => s.map f
  | sequenceCall, cs => cs.map (Call.map f)
  | sequenceSessionPolicy, ps => ps.map (SessionPolicy.map f)
  | sequenceFieldElement, ss => ss.map f

/-- The strings of two calls are related one by one. -/
def Call.Rel (R : S → T → Prop) (c : Call S) (d : Call T) : Prop :=
  R c.contractAddress d.contractAddress ∧ R c.entrypoint d.entrypoint ∧ List.Forall₂ R c.calldata d.calldata

def SessionPolicy.Rel (R : S → T → Prop) (p : SessionPolicy S) (q : SessionPolicy T) : Prop :=
  R p.contractAddress q.contractAddress ∧ R p.entrypoint q.entrypoint

def SessionPolicies.Rel (R : S → T → Prop) (p : SessionPolicies S) (q : SessionPolicies T) : Prop :=
  List.Forall₂ (SessionPolicy.Rel R) p.policies q.policies ∧ R p.maxFee q.maxFee

def ControllerError.Rel (R : S → T → Prop) (e : ControllerError S) (f : ControllerError T) : Prop :=
  e.kind = f.kind ∧ R e.message f.message

def Ty.Rel (R : S → T → Prop) : (t : Ty) → t.Val S → t.Val T → Prop
  | call => Call.Rel R
  | sessionPolicy => SessionPolicy.Rel R
  | sessionPolicies => SessionPolicies.Rel R
  | controllerError => ControllerError.Rel R
  | signerType => Eq
  | optionalUInt64 => Eq
  | optionalString => Option.Rel R
  | sequenceCall => List.Forall₂ (Call.Rel R)
  | sequenceSessionPolicy => List.Forall₂ (SessionPolicy.Rel R)
  | sequenceFieldElement => List.Forall₂ R

def Call.All (P : S → Prop) (Q : Nat → Prop) (c : Call S) : Prop :=
  P c.contractAddress ∧ P c.entrypoint ∧ Q c.calldata.length ∧ ∀ s ∈ c.calldata, P s

def SessionPolicy.All (P : S → Prop) (p : SessionPolicy S) : Prop := P p.contractAddress ∧ P p.entrypoint

def SessionPolicies.All (P : S → Prop) (Q : Nat → Prop) (p : SessionPolicies S) : Prop :=
  (Q p.policies.length ∧ ∀ q ∈ p.policies, q.All P) ∧ P p.maxFee

/-- `P` holds of every string of the value and `Q` of the length of every sequence in it. -/
def Ty.All (P : S → Prop) (Q : Nat → Prop) : (t : Ty) → t.Val S → Prop
  | call, c => c.All P Q
  | sessionPolicy, p => p.All P
  | sessionPolicies, p => p.All P Q
  | controllerError, e => P e.message
  | signerType, _ => True
  | optionalUInt64, _ => True
  | optionalString, s => ∀ x ∈ s, P x
  | sequenceCall, cs => Q cs.length ∧ ∀ c ∈ cs, c.All P Q
  | sequenceSessionPolicy, ps => Q ps.length ∧ ∀ p ∈ ps, p.All P
  | sequenceFieldElement, ss => Q ss.length ∧ ∀ s ∈ ss, P s

theorem Ty.all_of_forall {P : S → Prop} {Q : Nat → Prop} (hP : ∀ s, P s) (hQ : ∀ n, Q n) {t : Ty} (v : t.Val S) :
    t.All P Q v := by
  cases t with
  | call => exact ⟨hP _, hP _, hQ _, fun _ _ => hP _⟩
  | sessionPolicy => exact ⟨hP _, hP _⟩
  | sessionPolicies => exact ⟨⟨hQ _, fun _ _ => ⟨hP _, hP _⟩⟩, hP _⟩
  | controllerError => exact hP _
  | signerType => trivial
  | optionalUInt64 => trivial
  | optionalString => exact fun _ _ => hP _
  | sequenceCall => exact ⟨hQ _, fun _ _ => ⟨hP _, hP _, hQ _, fun _ _ => hP _⟩⟩
  | sequenceSessionPolicy => exact ⟨hQ _, fun _ _ => ⟨hP _, hP _⟩⟩
  | sequenceFieldElement => exact ⟨hQ _, fun _ _ => hP _⟩

theorem Ty.all_map {f : S → T} {P : T → Prop} {Q : Nat → Prop} {t : Ty} {v : t.Val S} :
    t.All P Q (t.map f v) ↔ t.All (fun s => P (f s)) Q v := by
  have hlist : ∀ ss : List S, (∀ x ∈ ss.map f, P x) ↔ ∀ s ∈ ss, P (f s) := fun ss => List.forall_mem_map
  have hcall : ∀ c : Call S, (c.map f).All P Q ↔ c.All (fun s => P (f s)) Q := fun c => by
    simp only [Call.All, Call.map, List.length_map, hlist]
  have hpolicy : ∀ ps : List (SessionPolicy S),
      (∀ q ∈ ps.map (SessionPolicy.map f), q.All P) ↔ ∀ p ∈ ps, p.All fun s => P (f s) := fun ps => List.forall_mem_map
  cases t with
  | call => exact hcall v
  | sessionPolicy => exact Iff.rfl
  | sessionPolicies => simp only [Ty.All, SessionPolicies.All, Ty.map, SessionPolicies.map, List.length_map, hpolicy]
  | controllerError => exact Iff.rfl
  | signerType => exact Iff.rfl
  | optionalUInt64 => exact Iff.rfl
  | optionalString =>
    cases v with
    | none => simp only [Ty.All, Ty.map, Option.map_none, Option.not_mem_none, false_implies, implies_true]
    | some s => simp only [Ty.All, Ty.map, Option.map_some, Option.mem_some_iff, forall_eq']
  | sequenceCall => simp only [Ty.All, Ty.map, List.length_map, List.forall_mem_map, hcall]
  | sequenceSessionPolicy => simp only [Ty.All, Ty.map, List.length_map, hpolicy]
  | sequenceFieldElement => simp only [Ty.All, Ty.map, List.length_map, hlist]

theorem Ty.rel_map {U : Type} {R : T → U → Prop} {f : S → T} {g : S → U} (h : ∀ s, R (f s) (g s)) (t : Ty)
    (v : t.Val S) : t.Rel R (t.map f v) (t.map g v) := by
  have hlist : ∀ ss : List S, List.Forall₂ R (ss.map f) (ss.map g) := fun ss =>
    List.forall₂_map_left_iff.mpr (List.forall₂_map_right_iff.mpr (List.forall₂_same.mpr fun s _ => h s))
  have hcall : ∀ c : Call S, (c.map f).Rel R (c.map g) := fun c => ⟨h _, h _, hlist _⟩
  have hpolicy : ∀ p : SessionPolicy S, (p.map f).Rel R (p.map g) := fun p => ⟨h _, h _⟩
  have hpolicies : ∀ ps : List (SessionPolicy S),
      List.Forall₂ (SessionPolicy.Rel R) (ps.map (SessionPolicy.map f)) (ps.map (SessionPolicy.map g)) := fun ps =>
    List.forall₂_map_left_iff.mpr (List.forall₂_map_right_iff.mpr (List.forall₂_same.mpr fun p _ => hpolicy p))
  cases t with
  | call => exact hcall v
  | sessionPolicy => exact hpolicy v
  | sessionPolicies => exact ⟨hpolicies _, h _⟩
  | controllerError => exact ⟨rfl, h _⟩
  | signerType => exact rfl
  | optionalUInt64 => exact rfl
  | optionalString =>
    cases v with
    | none => exact .none
    | some s => exact .some (h s)
  | sequenceCall =>
    exact List.forall₂_map_left_iff.mpr (List.forall₂_map_right_iff.mpr (List.forall₂_same.mpr fun c _ => hcall c))
  | sequenceSessionPolicy => exact hpolicies v
  | sequenceFieldElement => exact hlist v

theorem Ty.rel_refl {t : Ty} (v : t.Val S) : t.Rel Eq v v := by
  have hlist : ∀ ss : List S, List.Forall₂ Eq ss ss := fun ss => List.forall₂_same.mpr fun _ _ => rfl
  cases t with
  | call => exact ⟨rfl, rfl, hlist _⟩
  | sessionPolicy => exact ⟨rfl, rfl⟩
  | sessionPolicies => exact ⟨List.forall₂_same.mpr fun _ _ => ⟨rfl, rfl⟩, rfl⟩
  | controllerError => exact ⟨rfl, rfl⟩
  | signerType => exact rfl
  | optionalUInt64 => exact rfl
  | optionalString =>
    cases v with
    | none => exact .none
    | some s => exact .some rfl
  | sequenceCall => exact List.forall₂_same.mpr fun _ _ => ⟨rfl, rfl, hlist _⟩
  | sequenceSessionPolicy => exact List.forall₂_same.mpr fun _ _ => ⟨rfl, rfl⟩
  | sequenceFieldElement => exact hlist v

private theorem eq_map_of_forall₂ {α β : Type} {R : α → β → Prop} {f : α → β} (h : ∀ x y, R x y → y = f x) {xs : List α}
    {ys : List β} (hR : List.Forall₂ R xs ys) : ys = xs.map f := by
  induction hR with
  | nil => rfl
  | cons hxy _ ih => rw [List.map_cons, ← h _ _ hxy, ih]

/-- A relation of strings that is a function determines the value. -/
theorem Ty.eq_map_of_rel {R : S → T → Prop} {f : S → T} (h : ∀ x y, R x y → y = f x) {t : Ty} {v : t.Val S}
    {w : t.Val T} (hR : t.Rel R v w) : w = t.map f v := by
  have hcall : ∀ (c : Call S) (d : Call T), c.Rel R d → d = c.map f := by
    rintro c ⟨_, _, _⟩ ⟨h₁, h₂, h₃⟩
    cases h _ _ h₁
    cases h _ _ h₂
    cases eq_map_of_forall₂ h h₃
    rfl
  have hpolicy : ∀ (p : SessionPolicy S) (q : SessionPolicy T), p.Rel R q → q = p.map f := by
    rintro p ⟨_, _⟩ ⟨h₁, h₂⟩
    cases h _ _ h₁
    cases h _ _ h₂
    rfl
  cases t with
  | call => exact hcall _ _ hR
  | sessionPolicy => exact hpolicy _ _ hR
  | sessionPolicies =>
    obtain ⟨_, _⟩ := w
    obtain ⟨h₁, h₂⟩ := hR
    cases eq_map_of_forall₂ hpolicy h₁
    cases h _ _ h₂
    rfl
  | controllerError =>
    obtain ⟨_, _⟩ := w
    obtain ⟨h₁, h₂⟩ := hR
    cases h₁
    cases h _ _ h₂
    rfl
  | signerType => exact hR.symm
  | optionalUInt64 => exact hR.symm
  | optionalString =>
    cases hR with
    | none => rfl
    | some hxy => rw [h _ _ hxy]; rfl
  | sequenceCall => exact eq_map_of_forall₂ hcall hR
  | sequenceSessionPolicy => exact eq_map_of_forall₂ hpolicy hR
  | sequenceFieldElement => exact eq_map_of_forall₂ h hR

/-- A value is related to its image. -/
theorem Ty.rel_map_self (f : S → T) {t : Ty} (v : t.Val S) : t.Rel (fun x y => y = f x) v (t.map f v) := by
  have hid : v = t.map id v := Ty.eq_map_of_rel (fun _ _ h => h.symm) (Ty.rel_refl v)
  have := Ty.rel_map (R := fun x y => y = f x) (f := id) (fun _ => rfl) t v
  rwa [← hid] at this

private theorem forall_of_forall₂ {α β : Type} {R : α → β → Prop} {P : α → Prop} (h : ∀ x y, R x y → P x) {xs : List α}
    {ys : List β} (hR : List.Forall₂ R xs ys) : ∀ x ∈ xs, P x := by
  induction hR with
  | nil => exact nofun
  | cons hxy _ ih => exact List.forall_mem_cons.mpr ⟨h _ _ hxy, ih⟩

/-- What the relation asks of its left side holds of every string there. -/
theorem Ty.all_of_rel {R : S → T → Prop} {P : S → Prop} (h : ∀ x y, R x y → P x) {t : Ty} {v : t.Val S} {w : t.Val T}
    (hR : t.Rel R v w) : t.All P (fun _ => True) v := by
  have hcall : ∀ (c : Call S) (d : Call T), c.Rel R d → c.All P fun _ => True :=
    fun c d hcd => ⟨h _ _ hcd.1, h _ _ hcd.2.1, trivial, forall_of_forall₂ h hcd.2.2⟩
  have hpolicy : ∀ (p : SessionPolicy S) (q : SessionPolicy T), p.Rel R q → p.All P :=
    fun p q hpq => ⟨h _ _ hpq.1, h _ _ hpq.2⟩
  cases t with
  | call => exact hcall v w hR
  | sessionPolicy => exact hpolicy v w hR
  | sessionPolicies => exact ⟨⟨trivial, forall_of_forall₂ hpolicy hR.1⟩, h _ _ hR.2⟩
  | controllerError => exact h _ _ hR.2
  | signerType => trivial
  | optionalUInt64 => trivial
  | optionalString =>
    cases hR with
    | none => exact nofun
    | some hxy =>
      rintro s ⟨⟩
      exact h _ _ hxy
  | sequenceCall => exact ⟨trivial, forall_of_forall₂ hcall hR⟩
  | sequenceSessionPolicy => exact ⟨trivial, forall_of_forall₂ hpolicy hR⟩
  | sequenceFieldElement => exact ⟨trivial, forall_of_forall₂ h hR⟩

private theorem exists_map_of_forall {α β : Type} {f : α → β} {P : α → Prop} {ys : List β}
    (h : ∀ y ∈ ys, ∃ x, y = f x ∧ P x) : ∃ xs : List α, ys = xs.map f ∧ ∀ x ∈ xs, P x := by
  induction ys with
  | nil => exact ⟨[], rfl, nofun⟩
  | cons y ys ih =>
    obtain ⟨x, rfl, hx⟩ := h y List.mem_cons_self
    obtain ⟨xs, rfl, hxs⟩ := ih fun z hz => h z (List.mem_cons_of_mem _ hz)
    exact ⟨x :: xs, rfl, List.forall_mem_cons.mpr ⟨hx, hxs⟩⟩

/-- When every string of a value comes from one that satisfies `P`, the value comes from one whose strings all do. -/
theorem Ty.exists_map {f : S → T} {P : S → Prop} {Q : Nat → Prop} {t : Ty} {w : t.Val T}
    (h : t.All (fun s => ∃ x, s = f x ∧ P x) Q w) : ∃ v, w = t.map f v ∧ t.All P Q v := by
  have hcall : ∀ d : Call T, d.All (fun s => ∃ x, s = f x ∧ P x) Q → ∃ c : Call S, d = c.map f ∧ c.All P Q := by
    rintro ⟨_, _, data⟩ ⟨⟨x, rfl, hx⟩, ⟨y, rfl, hy⟩, hlen, hall⟩
    obtain ⟨xs, rfl, hxs⟩ := exists_map_of_forall hall
    exact ⟨⟨x, y, xs⟩, rfl, hx, hy, by rwa [List.length_map] at hlen, hxs⟩
  have hpolicy : ∀ q : SessionPolicy T, q.All (fun s => ∃ x, s = f x ∧ P x) →
      ∃ p : SessionPolicy S, q = p.map f ∧ p.All P := by
    rintro ⟨_, _⟩ ⟨⟨x, rfl, hx⟩, y, rfl, hy⟩
    exact ⟨⟨x, y⟩, rfl, hx, hy⟩
  cases t with
  | call => exact hcall w h
  | sessionPolicy => exact hpolicy w h
  | sessionPolicies =>
    obtain ⟨policies, _⟩ := w
    obtain ⟨⟨hlen, hall⟩, x, rfl, hx⟩ := h
    obtain ⟨ps, rfl, hps⟩ := exists_map_of_forall fun q hq => hpolicy q (hall q hq)
    exact ⟨⟨ps, x⟩, rfl, ⟨by rwa [List.length_map] at hlen, hps⟩, hx⟩
  | controllerError =>
    obtain ⟨kind, _⟩ := w
    obtain ⟨x, rfl, hx⟩ := h
    exact ⟨⟨kind, x⟩, rfl, hx⟩
  | signerType => exact ⟨w, rfl, trivial⟩
  | optionalUInt64 => exact ⟨w, rfl, trivial⟩
  | optionalString =>
    cases w with
    | none => exact ⟨none, rfl, nofun⟩
    | some s =>
      obtain ⟨x, rfl, hx⟩ := h s rfl
      refine ⟨some x, rfl, ?_⟩
      rintro _ ⟨⟩
      exact hx
  | sequenceCall =>
    obtain ⟨cs, rfl, hcs⟩ := exists_map_of_forall fun c hc => hcall c (h.2 c hc)
    have hlen := h.1
    rw [List.length_map] at hlen
    exact ⟨cs, rfl, hlen, hcs⟩
  | sequenceSessionPolicy =>
    obtain ⟨ps, rfl, hps⟩ := exists_map_of_forall fun p hp => hpolicy p (h.2 p hp)
    have hlen := h.1
    rw [List.length_map] at hlen
    exact ⟨ps, rfl, hlen, hps⟩
  | sequenceFieldElement =>
    obtain ⟨ss, rfl, hss⟩ := exists_map_of_forall h.2
    have hlen := h.1
    rw [List.length_map] at hlen
    exact ⟨ss, rfl, hlen, hss⟩

end ControllerUniffi.Ffi
