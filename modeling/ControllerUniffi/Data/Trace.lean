import Mathlib.Data.Nat.Notation

/-!
# Runs of a machine and monitors

A machine takes inputs one after the other and answers each with an output; the inputs and outputs of a run are its
log.  A monitor is another state that is updated by the log alone.  A relation between the states of the two that
every allowed step preserves holds after every run of allowed steps (`run_monitor`), and so after every prefix of
such a run (`run_monitor_of_prefix`).
-/

namespace Trace

variable {σ ι ω τ : Type}

/-- The log of a run and the state it ends in. -/
def run (step : σ → ι → ω × σ) : σ → List ι → List (ι × ω) × σ
  | s, [] => ([], s)
  | s, i :: inputs =>
    let answer := step s i
    let rest := run step answer.2 inputs
    ((i, answer.1) :: rest.1, rest.2)

/-- Every input of the run is allowed in the state in which it is taken. -/
def Allowed (step : σ → ι → ω × σ) (allowed : σ → ι → Prop) : σ → List ι → Prop
  | _, [] => True
  | s, i :: inputs => allowed s i ∧ Allowed step allowed (step s i).2 inputs

variable {step : σ → ι → ω × σ} {allowed : σ → ι → Prop} {monitor : τ → ι × ω → τ} {R : σ → τ → Prop}

theorem Allowed.of_append {s : σ} {first second : List ι} (h : Allowed step allowed s (first ++ second)) :
    Allowed step allowed s first := by
  induction first generalizing s with
  | nil => trivial
  | cons i first ih => exact ⟨h.1, ih h.2⟩

theorem Allowed.of_forall {s : σ} {inputs : List ι} (h : ∀ s, ∀ i ∈ inputs, allowed s i) :
    Allowed step allowed s inputs := by
  induction inputs generalizing s with
  | nil => trivial
  | cons i inputs ih => exact ⟨h s i List.mem_cons_self, ih fun s j hj => h s j (List.mem_cons_of_mem i hj)⟩

/-- A run with one more input. -/
theorem run_concat {s : σ} {inputs : List ι} {i : ι} :
    run step s (inputs ++ [i]) =
      ((run step s inputs).1 ++ [(i, (step (run step s inputs).2 i).1)], (step (run step s inputs).2 i).2) := by
  induction inputs generalizing s with
  | nil => rfl
  | cons j inputs ih =>
    simp only [List.cons_append, run, ih]

/-- Every entry of the log comes from a state that the run was in, with what every step preserves. -/
theorem run_entries {Inv : σ → Prop} (hstep : ∀ s i, Inv s → Inv (step s i).2) {s : σ} (hs : Inv s) {inputs : List ι} :
    ∀ entry ∈ (run step s inputs).1, ∃ s', Inv s' ∧ entry.2 = (step s' entry.1).1 := by
  induction inputs generalizing s with
  | nil => exact nofun
  | cons i inputs ih => exact List.forall_mem_cons.mpr ⟨⟨s, hs, rfl⟩, ih (hstep s i hs)⟩

/-- What every allowed step preserves is preserved by a run of allowed steps. -/
theorem run_monitor (hstep : ∀ s t i, R s t → allowed s i → R (step s i).2 (monitor t (i, (step s i).1)))
    {s : σ} {t : τ} (hR : R s t) {inputs : List ι} (h : Allowed step allowed s inputs) :
    R (run step s inputs).2 ((run step s inputs).1.foldl monitor t) := by
  induction inputs generalizing s t with
  | nil => exact hR
  | cons i inputs ih => exact ih (hstep s t i hR h.1) h.2

theorem run_monitor_of_prefix (hstep : ∀ s t i, R s t → allowed s i → R (step s i).2 (monitor t (i, (step s i).1)))
    {s : σ} {t : τ} (hR : R s t) {done inputs : List ι} (h : Allowed step allowed s inputs) (hdone : done <+: inputs) :
    R (run step s done).2 ((run step s done).1.foldl monitor t) := by
  obtain ⟨rest, rfl⟩ := hdone
  exact run_monitor hstep hR h.of_append

end Trace
