import ControllerUniffi.Data.Interleaving

/-!
# A resource with an owner and users

Users enter and leave, the owner gives the resource up once, and it is freed when it has been given up and nobody uses
it.  It is freed at most once (`count_free`), never under a user (`run_sound`), and when it is out of reach nobody comes
back to it (`run_of_unreachable`).
-/

namespace Lifetime

open Interleaving

structure State where
  owned : Bool
  users : Nat
  freed : Bool
  deriving DecidableEq, Repr

inductive Op where
  | enter
  | leave
  | giveUp
  | free
  deriving DecidableEq, Repr

def start : State := ⟨true, 0, false⟩

/-- The owner or another user is there. -/
def State.Reached (s : State) : Prop := s.owned = true ∨ 0 < s.users

instance (s : State) : Decidable s.Reached := inferInstanceAs (Decidable (_ ∨ _))

def step (s : State) : Op → Option State
  | .enter => if s.Reached ∧ s.freed = false then some { s with users := s.users + 1 } else none
  | .leave => if 0 < s.users then some { s with users := s.users - 1 } else none
  | .giveUp => if s.owned then some { s with owned := false } else none
  | .free => if ¬ s.Reached ∧ s.freed = false then some { s with freed := true } else none

private theorem step_cases {s s' : State} {op : Op} (h : step s op = some s') :
    (op = .enter ∧ (s.Reached ∧ s.freed = false) ∧ s' = { s with users := s.users + 1 }) ∨
    (op = .leave ∧ 0 < s.users ∧ s' = { s with users := s.users - 1 }) ∨
    (op = .giveUp ∧ s.owned = true ∧ s' = { s with owned := false }) ∨
    (op = .free ∧ (¬ s.Reached ∧ s.freed = false) ∧ s' = { s with freed := true }) := by
  cases op with
  | enter =>
    obtain ⟨hguard, heq⟩ := Option.ite_none_right_eq_some.mp h
    exact .inl ⟨rfl, hguard, (Option.some.inj heq).symm⟩
  | leave =>
    obtain ⟨hguard, heq⟩ := Option.ite_none_right_eq_some.mp h
    exact .inr (.inl ⟨rfl, hguard, (Option.some.inj heq).symm⟩)
  | giveUp =>
    obtain ⟨hguard, heq⟩ := Option.ite_none_right_eq_some.mp h
    exact .inr (.inr (.inl ⟨rfl, hguard, (Option.some.inj heq).symm⟩))
  | free =>
    obtain ⟨hguard, heq⟩ := Option.ite_none_right_eq_some.mp h
    exact .inr (.inr (.inr ⟨rfl, hguard, (Option.some.inj heq).symm⟩))

/-- A freed resource is out of reach. -/
def Sound (s : State) : Prop := s.freed = true → ¬ s.Reached

theorem start_sound : Sound start := by
  intro h
  cases h

theorem step_sound {s s' : State} {op : Op} (hs : Sound s) (h : step s op = some s') : Sound s' := by
  rcases step_cases h with ⟨-, ⟨-, hlive⟩, rfl⟩ | ⟨-, husers, rfl⟩ | ⟨-, howned, rfl⟩ | ⟨-, ⟨hreached, -⟩, rfl⟩
  · intro hfreed
    rw [hlive] at hfreed
    cases hfreed
  · exact fun hfreed => absurd (.inr husers) (hs hfreed)
  · exact fun hfreed => absurd (.inl howned) (hs hfreed)
  · exact fun _ => hreached

theorem run_sound {s s' : State} (hs : Sound s) {ops : List Op} (h : run step s ops = some s') : Sound s' :=
  run_invariant (fun _ _ _ => step_sound) hs h

/-- Nobody comes back to a resource that is out of reach. -/
theorem run_of_unreachable {s s' : State} (hs : ¬ s.Reached) {ops : List Op} (h : run step s ops = some s') :
    ¬ s'.Reached := by
  refine run_invariant (?_ : ∀ s op s', ¬ s.Reached → step s op = some s' → ¬ s'.Reached) hs h
  intro s op s₁ hs hop
  rcases step_cases hop with ⟨-, ⟨hreached, -⟩, rfl⟩ | ⟨-, husers, rfl⟩ | ⟨-, howned, rfl⟩ | ⟨-, -, rfl⟩
  · exact absurd hreached hs
  · exact absurd (.inr husers) hs
  · exact absurd (.inl howned) hs
  · exact hs

/-- A run frees the resource once when it ends up freed, and else never. -/
theorem count_free {s s' : State} {ops : List Op} (h : run step s ops = some s') :
    ops.count .free + s.freed.toNat = s'.freed.toNat := by
  induction ops generalizing s with
  | nil =>
    cases h
    exact Nat.zero_add _
  | cons op ops ih =>
    obtain ⟨s₁, hop, h⟩ := run_cons_eq_some_iff.mp h
    have hrest := ih h
    rcases step_cases hop with ⟨rfl, -, rfl⟩ | ⟨rfl, -, rfl⟩ | ⟨rfl, -, rfl⟩ | ⟨rfl, ⟨-, hlive⟩, rfl⟩
    · simpa using hrest
    · simpa using hrest
    · simpa using hrest
    · rw [List.count_cons_self, hlive]
      simpa using hrest

end Lifetime
