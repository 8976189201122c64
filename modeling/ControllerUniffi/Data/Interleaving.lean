import Mathlib.Algebra.GroupWithZero.Nat

/-!
# Tasks that share a state

A machine takes labelled steps, some of which are impossible; a run is a list of labels.  What every possible step
preserves, runs preserve (`run_invariant`).  When each step of a machine is a given step of another one, or is not seen
by it, the other makes the run of these steps (`run_refines`), which grows with the run (`trace_append`).

A configuration of tasks is such a machine: one task acts on the shared state and on its own.  A sum over the tasks
changes by what the acting task changes of it (`total_set`), so a law between the shared state and the acting task is
one between the shared state and all tasks.
-/

namespace Interleaving

variable {σ ε α β τ : Type}

/-! ### Runs -/

/-- The state after a run, when every step of it is possible. -/
def run (step : σ → ε → Option σ) : σ → List ε → Option σ
  | s, [] => some s
  | s, e :: events => (step s e).bind fun s' => run step s' events

theorem run_cons_eq_some_iff {step : σ → ε → Option σ} {s s' : σ} {e : ε} {events : List ε} :
    run step s (e :: events) = some s' ↔ ∃ s₁, step s e = some s₁ ∧ run step s₁ events = some s' :=
  Option.bind_eq_some_iff

theorem run_append {step : σ → ε → Option σ} {s : σ} {first second : List ε} :
    run step s (first ++ second) = (run step s first).bind fun s' => run step s' second := by
  induction first generalizing s with
  | nil => rfl
  | cons e first ih =>
    change (step s e).bind _ = ((step s e).bind _).bind _
    rw [Option.bind_assoc]
    congr 1
    funext s'
    exact ih

/-- What every possible step with an allowed label preserves is preserved by runs with such labels. -/
theorem run_invariant_of {step : σ → ε → Option σ} {Inv : σ → Prop} {allowed : ε → Prop}
    (hstep : ∀ s e s', Inv s → allowed e → step s e = some s' → Inv s') {s s' : σ} (hs : Inv s) {events : List ε}
    (hallowed : ∀ e ∈ events, allowed e) (h : run step s events = some s') : Inv s' := by
  induction events generalizing s with
  | nil =>
    cases h
    exact hs
  | cons e events ih =>
    obtain ⟨s₁, he, h⟩ := run_cons_eq_some_iff.mp h
    obtain ⟨hhead, htail⟩ := List.forall_mem_cons.mp hallowed
    exact ih (hstep s e s₁ hs hhead he) htail h

theorem run_invariant {step : σ → ε → Option σ} {Inv : σ → Prop}
    (hstep : ∀ s e s', Inv s → step s e = some s' → Inv s') {s s' : σ} (hs : Inv s) {events : List ε}
    (h : run step s events = some s') : Inv s' :=
  run_invariant_of (fun s e s' hInv _ => hstep s e s' hInv) hs (fun _ _ => trivial) h

/-- A step that the machine above takes with a label of its own, or does not see. -/
def Seen (above : α → β → Option α) (a : α) : Option β → α → Prop
  | none, a' => a' = a
  | some op, a' => above a op = some a'

/-- What the machine above sees of a run; `label` tells what it sees of a step. -/
def trace (step : σ → ε → Option σ) (label : σ → ε → Option β) : σ → List ε → List β
  | _, [] => []
  | s, e :: events => (label s e).toList ++ (step s e).elim [] fun s' => trace step label s' events

theorem trace_cons {step : σ → ε → Option σ} {label : σ → ε → Option β} {s s₁ : σ} {e : ε} (he : step s e = some s₁)
    (events : List ε) : trace step label s (e :: events) = (label s e).toList ++ trace step label s₁ events := by
  rw [trace, he]
  rfl

theorem trace_append {step : σ → ε → Option σ} {label : σ → ε → Option β} {s s' : σ} {first : List ε}
    (h : run step s first = some s') (second : List ε) :
    trace step label s (first ++ second) = trace step label s first ++ trace step label s' second := by
  induction first generalizing s with
  | nil =>
    cases h
    rfl
  | cons e first ih =>
    obtain ⟨s₁, he, h⟩ := run_cons_eq_some_iff.mp h
    rw [List.cons_append, trace_cons he, trace_cons he, ih h, List.append_assoc]

/-- When the steps of a machine are steps of the machine above it or are not seen there, so are its runs. -/
theorem run_refines {step : σ → ε → Option σ} {above : α → β → Option α} {Inv : σ → Prop} {abs : σ → α}
    {label : σ → ε → Option β} (hinv : ∀ s e s', Inv s → step s e = some s' → Inv s')
    (hsim : ∀ s e s', Inv s → step s e = some s' → Seen above (abs s) (label s e) (abs s')) {s s' : σ} (hs : Inv s)
    {events : List ε} (h : run step s events = some s') :
    run above (abs s) (trace step label s events) = some (abs s') := by
  induction events generalizing s with
  | nil =>
    cases h
    rfl
  | cons e events ih =>
    obtain ⟨s₁, he, h⟩ := run_cons_eq_some_iff.mp h
    have hrest := ih (hinv s e s₁ hs he) h
    have hseen := hsim s e s₁ hs he
    rw [trace_cons he]
    cases hlabel : label s e with
    | none =>
      rw [hlabel] at hseen
      rwa [show abs s₁ = abs s from hseen] at hrest
    | some op =>
      rw [hlabel] at hseen
      exact run_cons_eq_some_iff.mpr ⟨abs s₁, hseen, hrest⟩

/-! ### Configurations of tasks -/

structure Config (σ τ : Type) where
  shared : σ
  tasks : List τ
  deriving DecidableEq, Repr

/-- The task at `i` acts. -/
def act (f : σ → τ → Option (σ × τ)) (c : Config σ τ) (i : Nat) : Option (Config σ τ) :=
  match c.tasks[i]? with
  | none => none
  | some t =>
    match f c.shared t with
    | none => none
    | some (s, t') => some ⟨s, c.tasks.set i t'⟩

/-- A task is added. -/
def spawn (c : Config σ τ) (t : τ) : Config σ τ := ⟨c.shared, c.tasks ++ [t]⟩

theorem act_eq_some_iff {f : σ → τ → Option (σ × τ)} {c c' : Config σ τ} {i : Nat} : act f c i = some c' ↔
    ∃ t s t', c.tasks[i]? = some t ∧ f c.shared t = some (s, t') ∧ c' = ⟨s, c.tasks.set i t'⟩ := by
  unfold act
  constructor
  · intro h
    split at h
    · cases h
    · rename_i t ht
      split at h
      · cases h
      · rename_i s t' hf
        cases h
        exact ⟨t, s, t', ht, hf, rfl⟩
  · rintro ⟨t, s, t', ht, hf, rfl⟩
    rw [ht]
    dsimp only
    rw [hf]

/-! ### Sums over tasks -/

/-- The weight of all tasks together. -/
def total (w : τ → Nat) (tasks : List τ) : Nat := (tasks.map w).sum

variable {w : τ → Nat} {tasks : List τ}

@[simp] theorem total_nil : total w [] = 0 := rfl

@[simp] theorem total_cons (t : τ) : total w (t :: tasks) = w t + total w tasks := rfl

@[simp] theorem total_append (more : List τ) : total w (tasks ++ more) = total w tasks + total w more := by
  induction tasks with
  | nil => simp
  | cons t tasks ih =>
    simp only [List.cons_append, total_cons, ih]
    omega

/-- The weight changes by that of the task which is replaced. -/
theorem total_set {i : Nat} {t : τ} (h : tasks[i]? = some t) (t' : τ) :
    total w (tasks.set i t') + w t = total w tasks + w t' := by
  induction tasks generalizing i with
  | nil => simp at h
  | cons head tasks ih =>
    cases i with
    | zero =>
      simp only [List.getElem?_cons_zero, Option.some.injEq] at h
      simp only [List.set_cons_zero, total_cons, h]
      omega
    | succ i =>
      have := ih (List.getElem?_cons_succ ▸ h)
      simp only [List.set_cons_succ, total_cons]
      omega

theorem le_total {t : τ} (h : t ∈ tasks) : w t ≤ total w tasks := by
  induction tasks with
  | nil => cases h
  | cons head tasks ih =>
    simp only [total_cons]
    rcases List.mem_cons.mp h with rfl | h
    · omega
    · have := ih h
      omega

theorem total_le_mul {b : Nat} (h : ∀ t ∈ tasks, w t ≤ b) : total w tasks ≤ b * tasks.length := by
  induction tasks with
  | nil => simp
  | cons head tasks ih =>
    obtain ⟨hhead, htail⟩ := List.forall_mem_cons.mp h
    have := ih htail
    simp only [total_cons, List.length_cons, Nat.mul_succ]
    omega

theorem total_eq_zero_iff : total w tasks = 0 ↔ ∀ t ∈ tasks, w t = 0 := by
  induction tasks with
  | nil => simp
  | cons head tasks ih =>
    simp only [total_cons, List.forall_mem_cons, ← ih]
    omega

/-- When one task has all the weight, the others have none. -/
theorem eq_or_zero_of_total_le {i : Nat} {t : τ} (h : tasks[i]? = some t) (hle : total w tasks ≤ w t) (t' : τ) :
    ∀ u ∈ tasks.set i t', u = t' ∨ w u = 0 := by
  induction tasks generalizing i with
  | nil => simp at h
  | cons head tasks ih =>
    simp only [total_cons] at hle
    cases i with
    | zero =>
      simp only [List.getElem?_cons_zero, Option.some.injEq] at h
      subst h
      have hzero : total w tasks = 0 := by omega
      simp only [List.set_cons_zero, List.mem_cons, forall_eq_or_imp, true_or, true_and]
      exact fun u hu => .inr (total_eq_zero_iff.mp hzero u hu)
    | succ i =>
      have htask := List.getElem?_cons_succ ▸ h
      have := le_total (w := w) (List.mem_of_getElem? htask)
      simp only [List.set_cons_succ, List.mem_cons, forall_eq_or_imp]
      exact ⟨.inr (by omega), ih htask (by omega)⟩

/-- A weight that is there is that of a task. -/
theorem exists_of_total_pos (h : 0 < total w tasks) : ∃ t ∈ tasks, 0 < w t := by
  induction tasks with
  | nil => cases h
  | cons head tasks ih =>
    by_cases hw : 0 < w head
    · exact ⟨head, List.mem_cons_self, hw⟩
    · simp only [total_cons] at h
      obtain ⟨t, ht, hpos⟩ := ih (by omega)
      exact ⟨t, List.mem_cons_of_mem _ ht, hpos⟩

/-- What holds of every task and of the new one holds after the replacement. -/
theorem forall_mem_set {P : τ → Prop} (h : ∀ t ∈ tasks, P t) {t' : τ} (h' : P t') (i : Nat) :
    ∀ t ∈ tasks.set i t', P t := by
  intro t ht
  rcases List.mem_or_eq_of_mem_set ht with ht | rfl
  · exact h t ht
  · exact h'

end Interleaving
