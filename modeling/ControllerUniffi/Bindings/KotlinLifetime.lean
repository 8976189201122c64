import ControllerUniffi.Bindings.KotlinObject

/-!
# What a wrapper in Kotlin is for

The wrapper refines a resource with an owner and users, where `lifetimeOp` tells what each event is to the resource
(`run_refines_lifetime`).  From its invariant and from the resource follow what its comments promise: during a call the
struct is there (`live_in_call`), it is freed once nobody needs it (`cleaned_when_done`), calls are refused from then on
(`refused`), nobody waits (`finishes_alone`); and two things they do not: a call that fails early keeps its reference for
ever (`leaked`), and the wrapper can be passed as an argument after the struct is gone (`misused_by_passing`).
-/

namespace ControllerUniffi.Ffi.Kotlin

open Interleaving

section

variable {simpleName : String} {c c' : Config Wrapper Task} {handle : Int} {e : Event} {events : List Event}

/-! ### The resource behind the wrapper -/

/-- The wrapper is the owner until the decrement of `destroy` or until it is out of reach, the calls are the users. -/
def abs (c : Config Wrapper Task) : Lifetime.State where
  owned := !c.shared.collected && decide (0 < (!c.shared.wasDestroyed).toNat + total Task.destroying c.tasks)
  users := total Task.inCall c.tasks
  freed := c.shared.cleaned

/-- What a step of a task is to the resource: a call enters when it has counted itself and leaves with its decrement,
`destroy` gives the resource up with its own, and the first cleaning frees it. -/
def Task.lifetimeOp (w : Wrapper) (t : Task) : Option Lifetime.Op :=
  match t.pc with
  | .callCas c => if w.callCounter = c then some .enter else none
  | .leave => some .leave
  | .destroyDecrement => some .giveUp
  | .clean => if w.cleaned then none else some .free
  | _ => none

/-- What an event is to the resource; a wrapper that was not destroyed gives it up when it is out of reach. -/
def lifetimeOp (c : Config Wrapper Task) : Event → Option Lifetime.Op
  | .act i _ => c.tasks[i]?.bind (Task.lifetimeOp c.shared)
  | .call => none
  | .destroy => none
  | .pass => none
  | .collect => if c.shared.wasDestroyed then none else some .giveUp

/-- The owner and the users are what is counted, while the wrapper is in reach. -/
private theorem reached_iff (h : Inv c) (hcoll : c.shared.collected = false) :
    (abs c).Reached ↔ c.shared.callCounter ≠ 0 := by
  have hcounter := h.counter
  simp only [Lifetime.State.Reached, abs, hcoll, Bool.not_false, Bool.true_and, decide_eq_true_eq]
  omega

/-- Only what changes the owner, the users or the freeing is seen. -/
private theorem unseen {c' : Config Wrapper Task} (hcoll : c'.shared.collected = c.shared.collected)
    (hcleaned : c'.shared.cleaned = c.shared.cleaned)
    (howner : (!c'.shared.wasDestroyed).toNat + total Task.destroying c'.tasks =
      (!c.shared.wasDestroyed).toNat + total Task.destroying c.tasks)
    (husers : total Task.inCall c'.tasks = total Task.inCall c.tasks) : abs c' = abs c := by
  rw [abs, abs, hcoll, hcleaned, howner, husers]

variable {i : Nat} {t t' : Task} {fails : Bool} {w' : Wrapper}

private theorem unseen_act (hi : c.tasks[i]? = some t) (hsame : SameButReferences c.shared w')
    (hcall : t'.inCall = t.inCall) (hdestroying : t'.destroying = t.destroying) :
    abs ⟨w', c.tasks.set i t'⟩ = abs c := by
  obtain ⟨hcall', hdestroying', -, -⟩ := sums_set hi t'
  refine unseen hsame.collected hsame.cleaned ?_ ?_ <;> dsimp only
  · rw [hsame.wasDestroyed]
    omega
  · omega

private theorem seen_enter (h : Inv c) (hi : c.tasks[i]? = some t) (hpc : t.pc = .callCas c.shared.callCounter) :
    Lifetime.step (abs c) .enter = some (abs ⟨{ c.shared with callCounter := toLong (c.shared.callCounter + 1) },
      c.tasks.set i { t with pc := .cloneHandle }⟩) := by
  have hplace := (h.ok t (mem_of_at hi)).2
  rw [hpc] at hplace
  have hcoll := h.in_reach (mem_of_at hi) (by simp [Task.Detached, hpc])
  have hne : c.shared.callCounter ≠ 0 := hplace.2.1
  have hsums := sums_set hi { t with pc := .cloneHandle }
  simp only [Task.inCall, Task.destroying, hpc, reduceCtorEq, ↓reduceIte] at hsums
  obtain ⟨hcall, hdestroying, -, -⟩ := hsums
  unfold Lifetime.step
  dsimp only
  rw [if_pos ⟨(reached_iff h hcoll).mpr hne, (h.not_cleaned hcoll hne).1⟩]
  simp only [abs, Option.some.injEq, Lifetime.State.mk.injEq, and_true]
  refine ⟨?_, by omega⟩
  rw [show total Task.destroying (c.tasks.set i { t with pc := .cloneHandle }) = total Task.destroying c.tasks by omega]

private theorem seen_leave (hi : c.tasks[i]? = some t) (hcall : t.inCall = 1) (hdestroying : t.destroying = 0) :
    Lifetime.step (abs c) .leave =
      some (abs ⟨c.shared.decrement, c.tasks.set i (t.afterDecrement c.shared.decrement)⟩) := by
  obtain ⟨hcall', hdestroying', -, -⟩ := sums_set hi (t.afterDecrement c.shared.decrement)
  obtain ⟨ha₁, ha₂, -⟩ := afterDecrement_holds t c.shared.decrement
  have hle : t.inCall ≤ total Task.inCall c.tasks := le_total (mem_of_at hi)
  have howner : total Task.destroying (c.tasks.set i (t.afterDecrement c.shared.decrement)) =
      total Task.destroying c.tasks := by omega
  have husers : total Task.inCall (c.tasks.set i (t.afterDecrement c.shared.decrement)) =
      total Task.inCall c.tasks - 1 := by omega
  have hpos : 0 < (abs c).users := by
    change 0 < total Task.inCall c.tasks
    omega
  unfold Lifetime.step
  dsimp only
  rw [if_pos hpos]
  simp only [abs, howner, husers]
  rfl

/-- With the decrement of `destroy` the owner is gone: nobody else is in `destroy`. -/
private theorem seen_giveUp (h : Inv c) (hi : c.tasks[i]? = some t) (hpc : t.pc = .destroyDecrement) :
    Lifetime.step (abs c) .giveUp =
      some (abs ⟨c.shared.decrement, c.tasks.set i (t.afterDecrement c.shared.decrement)⟩) := by
  obtain ⟨hcall', hdestroying', -, -⟩ := sums_set hi (t.afterDecrement c.shared.decrement)
  obtain ⟨ha₁, ha₂, -⟩ := afterDecrement_holds t c.shared.decrement
  have hcoll := h.in_reach (mem_of_at hi) (by simp [Task.Detached, hpc])
  have hone : t.destroying = 1 ∧ t.inCall = 0 := by simp [Task.destroying, Task.inCall, hpc]
  have hd := h.destroying
  have hle : c.shared.wasDestroyed.toNat ≤ 1 := Bool.toNat_le _
  have hnot : (!c.shared.wasDestroyed).toNat = 1 - c.shared.wasDestroyed.toNat := by
    cases c.shared.wasDestroyed <;> rfl
  have howner : total Task.destroying (c.tasks.set i (t.afterDecrement c.shared.decrement)) = 0 := by omega
  have hbefore : total Task.destroying c.tasks = 1 := by omega
  have husers : total Task.inCall (c.tasks.set i (t.afterDecrement c.shared.decrement)) =
      total Task.inCall c.tasks := by omega
  have hdestroyed : (!c.shared.wasDestroyed).toNat = 0 := by omega
  have howned : (abs c).owned = true := by simp [abs, hcoll, hbefore]
  unfold Lifetime.step
  dsimp only
  rw [if_pos howned]
  simp only [abs, howner, husers, show c.shared.decrement.wasDestroyed = c.shared.wasDestroyed from rfl, hdestroyed,
    Nat.add_zero, Nat.lt_irrefl, decide_false, Bool.and_false]
  rfl

private theorem seen_clean (h : Inv c) (hi : c.tasks[i]? = some t) (hpc : t.pc = .clean)
    (hmisused : c.shared.misused = false) :
    Seen Lifetime.step (abs c) (if c.shared.cleaned then none else some .free)
      (abs ⟨c.shared.clean, c.tasks.set i { t with pc := .done }⟩) := by
  have hsums := sums_set hi { t with pc := .done }
  simp only [Task.inCall, Task.destroying, hpc, reduceCtorEq, ↓reduceIte] at hsums
  obtain ⟨hcall, hdestroying, -, -⟩ := hsums
  have howner : total Task.destroying (c.tasks.set i { t with pc := .done }) = total Task.destroying c.tasks := by omega
  have husers : total Task.inCall (c.tasks.set i { t with pc := .done }) = total Task.inCall c.tasks := by omega
  have hcleaning : t.cleaning ≤ total Task.cleaning c.tasks := le_total (mem_of_at hi)
  unfold Task.cleaning at hcleaning
  rw [if_pos hpc] at hcleaning
  -- nobody is in a call and nobody owns the wrapper
  have hunreached : ¬ (abs c).Reached := by
    cases hcoll : c.shared.collected with
    | false =>
      rw [reached_iff h hcoll]
      have := h.released.mp (.inr hcleaning)
      simpa [hcoll] using this
    | true =>
      have hzero : total Task.inCall c.tasks = 0 := by
        refine total_eq_zero_iff.mpr fun u hu => ?_
        rcases h.detached hcoll u hu with hpc | hpc | hpc <;> simp [Task.inCall, hpc]
      simp [Lifetime.State.Reached, abs, hcoll, hzero]
  cases hcleaned : c.shared.cleaned with
  | true =>
    have heq : c.shared.clean = c.shared := by
      unfold Wrapper.clean
      rw [hcleaned]
      rfl
    rw [heq]
    refine unseen rfl rfl ?_ ?_ <;> dsimp only
    · rw [howner]
    · rw [husers]
  | false =>
    change Lifetime.step (abs c) .free = some _
    unfold Lifetime.step
    dsimp only
    rw [if_pos ⟨hunreached, hcleaned⟩]
    rcases clean_cases h hmisused with ⟨hcleaned', -⟩ | ⟨-, -, heq⟩ | ⟨-, -, -, heq⟩
    · rw [hcleaned] at hcleaned'
      cases hcleaned'
    · rw [heq]
      simp only [abs, howner, husers]
    · rw [heq]
      simp only [abs, howner, husers]

private theorem seen_collect (hcoll : c.shared.collected = false) (hdetached : ∀ t ∈ c.tasks, t.Detached) :
    Seen Lifetime.step (abs c) (if c.shared.wasDestroyed then none else some .giveUp)
      (abs (spawn { c with shared := { c.shared with collected := true } } (Task.start .clean))) := by
  have hzero : total Task.destroying c.tasks = 0 := by
    refine total_eq_zero_iff.mpr fun u hu => ?_
    rcases hdetached u hu with hpc | hpc | hpc <;> simp [Task.destroying, hpc]
  have habs : abs (spawn { c with shared := { c.shared with collected := true } } (Task.start .clean)) =
      { abs c with owned := false } := by
    simp [abs, spawn, Task.start, Task.inCall]
  rw [habs]
  cases hdestroyed : c.shared.wasDestroyed with
  | true =>
    change { abs c with owned := false } = abs c
    simp [abs, hcoll, hdestroyed, hzero]
  | false =>
    have howned : (abs c).owned = true := by simp [abs, hcoll, hdestroyed, hzero]
    change Lifetime.step (abs c) .giveUp = some _
    unfold Lifetime.step
    dsimp only
    rw [if_pos howned]

private theorem unseen_flag (hi : c.tasks[i]? = some t) (hpc : t.pc = .destroyFlag)
    (hfirst : c.shared.wasDestroyed = false) :
    abs ⟨{ c.shared with wasDestroyed := true }, c.tasks.set i { t with pc := .destroyDecrement }⟩ = abs c := by
  have hsums := sums_set hi { t with pc := .destroyDecrement }
  simp only [Task.inCall, Task.destroying, hpc, reduceCtorEq, ↓reduceIte] at hsums
  obtain ⟨hcall, hdestroying, -, -⟩ := hsums
  refine unseen rfl rfl ?_ ?_ <;> dsimp only
  · rw [hfirst]
    simp only [Bool.not_true, Bool.toNat_false, Bool.not_false, Bool.toNat_true]
    omega
  · omega

/-- A step that leaves the wrapper alone is not seen. -/
private theorem lifetimeOp_of_stays {pc : Pc} (h : Stays c.shared.callCounter t.pc pc) :
    t.lifetimeOp c.shared = none := by
  obtain ⟨place, clone, thrown⟩ := t
  cases h with
  | again hlost => exact if_neg hlost
  | refused | loaded | uncloned | unlowered | called | flagged | unpassable | unpassed => rfl

private theorem task_step_refines (h : Inv c) (hm : c.shared.misused = false) (hi : c.tasks[i]? = some t)
    (hstep : Task.step simpleName fails c.shared t = some (w', t')) :
    Seen Lifetime.step (abs c) (t.lifetimeOp c.shared) (abs ⟨w', c.tasks.set i t'⟩) := by
  cases task_step_cases hstep with
  | stays e hstays =>
    obtain ⟨hcall, hdestroying, -, -⟩ := hstays.holds e
    rw [lifetimeOp_of_stays hstays]
    exact unseen_act hi (SameButReferences.refl _) hcall hdestroying
  | enter hpc =>
    rw [Task.lifetimeOp, hpc]
    dsimp only
    rw [if_pos rfl]
    exact seen_enter h hi hpc
  | clone hpc =>
    have hop : t.lifetimeOp c.shared = none := by
      rcases hpc with ⟨hpc, -⟩ | ⟨hpc, -⟩ <;> simp [Task.lifetimeOp, hpc]
    rw [hop]
    refine unseen_act hi (fnClone_same _) ?_ ?_
    all_goals rcases hpc with ⟨hpc, rfl⟩ | ⟨hpc, rfl⟩ <;> simp [Task.inCall, Task.destroying, hpc]
  | free e hpc =>
    have hop : t.lifetimeOp c.shared = none := by
      rcases hpc with ⟨hpc, -⟩ | ⟨hpc, -⟩ <;> simp [Task.lifetimeOp, hpc]
    rw [hop]
    refine unseen_act hi (fnFree_same _) ?_ ?_
    all_goals rcases hpc with ⟨hpc, rfl⟩ | ⟨hpc, rfl⟩ <;> simp [Task.inCall, Task.destroying, hpc]
  | decrement hpc =>
    rcases hpc with hpc | hpc
    · rw [Task.lifetimeOp, hpc]
      exact seen_leave hi (by simp [Task.inCall, hpc]) (by simp [Task.destroying, hpc])
    · rw [Task.lifetimeOp, hpc]
      exact seen_giveUp h hi hpc
  | flag hpc hfirst =>
    rw [Task.lifetimeOp, hpc]
    exact unseen_flag hi hpc hfirst
  | clean hpc =>
    rw [Task.lifetimeOp, hpc]
    exact seen_clean h hi hpc hm

/-- Every event is to the resource what `lifetimeOp` says. -/
theorem step_refines (h : Inv c) (hstep : step simpleName c e = some c') :
    Seen Lifetime.step (abs c) (lifetimeOp c e) (abs c') := by
  rcases step_cases hstep with ⟨i, fails, t, w', t', rfl, hm, hi, hs, rfl⟩ | ⟨pc, hpc, -, rfl⟩ | ⟨rfl, hcoll, hd, rfl⟩
  · rw [lifetimeOp, hi]
    exact task_step_refines h hm hi hs
  · have hzero : (Task.start pc).inCall = 0 ∧ (Task.start pc).destroying = 0 := by
      rcases hpc with ⟨-, rfl⟩ | ⟨-, rfl⟩ | ⟨-, rfl⟩ <;> exact ⟨rfl, rfl⟩
    have hop : lifetimeOp c e = none := by rcases hpc with ⟨rfl, -⟩ | ⟨rfl, -⟩ | ⟨rfl, -⟩ <;> rfl
    rw [hop]
    refine unseen rfl rfl ?_ ?_
    · simp only [spawn, total_append, total_cons, total_nil, hzero.2, Nat.add_zero]
    · simp only [spawn, total_append, total_cons, total_nil, hzero.1, Nat.add_zero]
  · exact seen_collect hcoll hd

/-- What the resource sees of the events from `c` on. -/
def lifetimeOps (simpleName : String) (c : Config Wrapper Task) (events : List Event) : List Lifetime.Op :=
  trace (step simpleName) lifetimeOp c events

private theorem abs_run (hinv : Inv c) (h : run (step simpleName) c events = some c') :
    run Lifetime.step (abs c) (lifetimeOps simpleName c events) = some (abs c') :=
  run_refines (fun _ _ _ => step_inv) (fun _ _ _ => step_refines) hinv h

/-- Every run of tasks is the run of the resource that its events make up, which frees it once when the wrapper ends up
cleaned and else never; with one more event comes what this is to the resource. -/
theorem run_refines_lifetime (h : run (step simpleName) (start handle) events = some c) :
    run Lifetime.step Lifetime.start (lifetimeOps simpleName (start handle) events) = some (abs c) ∧
      (lifetimeOps simpleName (start handle) events).count .free = c.shared.cleaned.toNat ∧
      ∀ e c', step simpleName c e = some c' → lifetimeOps simpleName (start handle) (events ++ [e]) =
        lifetimeOps simpleName (start handle) events ++ (lifetimeOp c e).toList := by
  have hrun := abs_run (inv_start handle) h
  refine ⟨hrun, Lifetime.count_free hrun, fun e c' hstep => ?_⟩
  have hlast : trace (step simpleName) lifetimeOp c [e] = (lifetimeOp c e).toList := by
    rw [trace_cons hstep, trace, List.append_nil]
  rw [lifetimeOps, trace_append h, hlast, lifetimeOps]

/-- A call during which the wrapper is destroyed -/
theorem run_refines_lifetime_destroyed :
    run Lifetime.step Lifetime.start [.enter, .giveUp, .leave, .free] = some ⟨false, 0, true⟩ ∧
      [Lifetime.Op.enter, .giveUp, .leave, .free].count .free = 1 := by
  have hrun : run (step "Controller") (start 7)
      [.call, .act 0 false, .act 0 false, .act 0 false, .destroy, .act 1 false, .act 1 false, .act 0 false,
        .act 0 false, .act 0 false, .act 0 false] =
      some ⟨⟨7, 0, true, true, 0, false, false⟩, [⟨.done, false, none⟩, ⟨.done, false, none⟩]⟩ := rfl
  obtain ⟨hops, hfree, -⟩ := run_refines_lifetime hrun
  exact ⟨hops, hfree⟩

/-! ### What holds in every run -/

private theorem handle_step (hstep : step simpleName c e = some c') (h : Inv c) :
    c'.shared.handle = c.shared.handle := by
  rcases step_cases hstep with ⟨i, fails, t, w', t', -, hm, hi, hs, rfl⟩ | ⟨pc, -, -, rfl⟩ | ⟨-, -, -, rfl⟩
  · cases task_step_cases hs with
    | stays | enter | decrement | flag => rfl
    | clone => exact (fnClone_same _).handle
    | free => exact (fnFree_same _).handle
    | clean => rcases clean_cases h hm with ⟨-, heq⟩ | ⟨-, -, heq⟩ | ⟨-, -, -, heq⟩ <;> rw [heq]
  · rfl
  · rfl

private theorem handle_run (h : run (step simpleName) (start handle) events = some c) : c.shared.handle = handle := by
  have hall : Inv c ∧ c.shared.handle = handle := by
    refine run_invariant (?_ : ∀ s e s', (Inv s ∧ s.shared.handle = handle) → step simpleName s e = some s' →
      Inv s' ∧ s'.shared.handle = handle) ⟨inv_start handle, rfl⟩ h
    rintro s e s' ⟨hinv, hhandle⟩ hstep
    exact ⟨step_inv hinv hstep, (handle_step hstep hinv).trans hhandle⟩
  exact hall.2

/-- During a call nothing has been freed and a reference is left. -/
theorem live_in_call (h : run (step simpleName) (start handle) events = some c) {t : Task} (ht : t ∈ c.tasks)
    (hcall : 0 < t.inCall) :
    c.shared.cleaned = false ∧ (handle ≠ 0 → c.shared.misused = false → c.shared.strong ≠ 0) := by
  refine ⟨?_, fun hhandle hm => (inv_run h).strong_of_inCall hm (by rwa [handle_run h]) ht hcall⟩
  have hops := abs_run (inv_start handle) h
  have hle : t.inCall ≤ total Task.inCall c.tasks := le_total ht
  have hreached : (abs c).Reached := .inr (Nat.lt_of_lt_of_le hcall hle)
  cases hcleaned : c.shared.cleaned with
  | false => rfl
  | true => exact absurd hreached (Lifetime.run_sound Lifetime.start_sound hops hcleaned)

theorem live_in_call_calling : calling.shared.cleaned = false ∧ calling.shared.strong ≠ 0 := by
  obtain ⟨hcleaned, hstrong⟩ := live_in_call run_calling (List.mem_singleton.mpr rfl) (by decide)
  exact ⟨hcleaned, hstrong (by decide) rfl⟩

private theorem total_when_done (hdone : ∀ t ∈ c.tasks, t.pc = .done) :
    total Task.inCall c.tasks = 0 ∧ total Task.destroying c.tasks = 0 ∧ total Task.cleaning c.tasks = 0 :=
  ⟨total_eq_zero_iff.mpr fun t ht => by simp [Task.inCall, hdone t ht],
    total_eq_zero_iff.mpr fun t ht => by simp [Task.destroying, hdone t ht],
    total_eq_zero_iff.mpr fun t ht => by simp [Task.cleaning, hdone t ht]⟩

private theorem cleaned_iff (h : run (step simpleName) (start handle) events = some c)
    (hdone : ∀ t ∈ c.tasks, t.pc = .done) :
    c.shared.cleaned = true ↔ c.shared.wasDestroyed = true ∨ c.shared.collected = true := by
  obtain ⟨hcall, hdestroying, hcleaning⟩ := total_when_done hdone
  have hreleased := (inv_run h).released
  have hcounter := (inv_run h).counter
  rw [hcleaning] at hreleased
  rw [hcall, hdestroying] at hcounter
  have hzero : c.shared.callCounter = 0 ↔ c.shared.wasDestroyed = true := by
    cases hdestroyed : c.shared.wasDestroyed with
    | true => simp [hcounter, hdestroyed]
    | false => simp [hcounter, hdestroyed]
  rw [hzero] at hreleased
  simpa using hreleased

private theorem strong_run (h : run (step simpleName) (start handle) events = some c) (hhandle : handle ≠ 0)
    (hm : c.shared.misused = false) : c.shared.strong = (!c.shared.cleaned).toNat + total Task.clones c.tasks :=
  (inv_run h).strong hm (by rwa [handle_run h])

/-- When every task is done, the wrapper has been cleaned exactly when it was destroyed or is out of reach, and then the
references left are those of cloned handles that no call has taken. -/
theorem cleaned_when_done (h : run (step simpleName) (start handle) events = some c)
    (hdone : ∀ t ∈ c.tasks, t.pc = .done) :
    (c.shared.cleaned = true ↔ c.shared.wasDestroyed = true ∨ c.shared.collected = true) ∧
      (handle ≠ 0 → c.shared.misused = false →
        c.shared.strong = (!c.shared.cleaned).toNat + total Task.clones c.tasks) :=
  ⟨cleaned_iff h hdone, fun hhandle hm => strong_run h hhandle hm⟩

theorem cleaned_when_done_destroyed : destroyed.shared.cleaned = true ∧ destroyed.shared.strong = 0 := by
  obtain ⟨hcleaned, hstrong⟩ := cleaned_when_done (run_destroyed "Controller") (by decide)
  exact ⟨hcleaned.mpr (.inl rfl), hstrong (by decide) rfl⟩

private theorem counter_zero_step (h : Inv c) (hzero : c.shared.callCounter = 0)
    (hstep : step simpleName c e = some c') : c'.shared.callCounter = 0 := by
  rcases step_cases hstep with ⟨i, fails, t, w', t', -, hm, hi, hs, rfl⟩ | ⟨pc, -, -, rfl⟩ | ⟨-, -, -, rfl⟩
  · have ht := mem_of_at hi
    cases task_step_cases hs with
    | stays | flag => exact hzero
    | enter hpc =>
      have hplace := (h.ok t ht).2
      rw [hpc] at hplace
      exact absurd hzero hplace.2.1
    | clone => exact (fnClone_same _).callCounter.trans hzero
    | free => exact (fnFree_same _).callCounter.trans hzero
    | decrement hpc =>
      -- who decrements is counted
      have hcall : t.inCall ≤ total Task.inCall c.tasks := le_total ht
      have hdestroying : t.destroying ≤ total Task.destroying c.tasks := le_total ht
      have hone : t.inCall + t.destroying = 1 := by
        rcases hpc with hpc | hpc <;> simp [Task.inCall, Task.destroying, hpc]
      have hcounter := h.counter
      omega
    | clean => rcases clean_cases h hm with ⟨-, heq⟩ | ⟨-, -, heq⟩ | ⟨-, -, -, heq⟩ <;> rw [heq] <;> exact hzero
  · exact hzero
  · exact hzero

/-- Once the counter is zero no call gets in any more, whatever happens: each is refused with the same text. -/
theorem refused (h : run (step simpleName) (start handle) events = some c) (hzero : c.shared.callCounter = 0)
    {later : List Event} (hrun : run (step simpleName) c later = some c') :
    c'.shared.callCounter = 0 ∧ (∀ t ∈ c'.tasks, t.inCall = 0) ∧
      ∀ t fails, t.pc = .callGet → Task.step simpleName fails c'.shared t =
        some (c'.shared, t.throws (.illegalState (simpleName ++ " object has already been destroyed"))) := by
  have hall : Inv c' ∧ c'.shared.callCounter = 0 := by
    refine run_invariant (?_ : ∀ s e s', (Inv s ∧ s.shared.callCounter = 0) → step simpleName s e = some s' →
      Inv s' ∧ s'.shared.callCounter = 0) ⟨inv_run h, hzero⟩ hrun
    rintro s e s' ⟨hinv, hs⟩ hstep
    exact ⟨step_inv hinv hstep, counter_zero_step hinv hs hstep⟩
  have hzero' := hall.2
  have hunreached : ¬ (abs c).Reached := by
    have hcounter := (inv_run h).counter
    have husers : total Task.inCall c.tasks = 0 := by omega
    have howner : (!c.shared.wasDestroyed).toNat + total Task.destroying c.tasks = 0 := by omega
    simp [Lifetime.State.Reached, abs, husers, howner]
  have hops := abs_run (inv_run h) hrun
  have hnobody : total Task.inCall c'.tasks = 0 :=
    Nat.eq_zero_of_not_pos fun hpos => Lifetime.run_of_unreachable hunreached hops (.inr hpos)
  refine ⟨hzero', total_eq_zero_iff.mp hnobody, ?_⟩
  intro t fails hpc
  unfold Task.step
  rw [hpc]
  dsimp only
  rw [if_pos hzero']

/-- A call after `destroy` -/
theorem refused_destroyed : Task.step "Controller" false destroyed.shared (Task.start .callGet) =
    some (destroyed.shared,
      ⟨.done, false, some (.illegalState "Controller object has already been destroyed")⟩) := by
  have hrun : run (step "Controller") destroyed [.call] = some (spawn destroyed (Task.start .callGet)) := rfl
  exact (refused (run_destroyed "Controller") rfl hrun).2.2 (Task.start .callGet) false rfl

/-! ### A cloned handle that no call takes -/

/-- The task has a cloned handle and will not call the library with it any more. -/
def Task.Stranded (t : Task) : Prop := t.clone = true ∧ (t.pc = .leave ∨ t.pc = .clean ∨ t.pc = .done)

private theorem stranded_task_step {w : Wrapper} (h : t.Stranded)
    (hstep : Task.step simpleName fails w t = some (w', t')) : t'.Stranded := by
  obtain ⟨hclone, hplace⟩ := h
  cases task_step_cases hstep with
  | stays e hstays =>
    obtain ⟨place, clone, thrown⟩ := t
    cases hstays <;> simp at hplace
  | decrement =>
    unfold Task.afterDecrement
    split
    · exact ⟨hclone, .inr (.inl rfl)⟩
    · exact ⟨hclone, .inr (.inr rfl)⟩
  | clean => exact ⟨hclone, .inr (.inr rfl)⟩
  | enter hpc => simp [hpc] at hplace
  | clone hpc => rcases hpc with ⟨hpc, -⟩ | ⟨hpc, -⟩ <;> simp [hpc] at hplace
  | free e hpc => rcases hpc with ⟨hpc, -⟩ | ⟨hpc, -⟩ <;> simp [hpc] at hplace
  | flag hpc => simp [hpc] at hplace

private theorem stranded_step (h : ∃ t ∈ c.tasks, t.Stranded) (hstep : step simpleName c e = some c') :
    ∃ t ∈ c'.tasks, t.Stranded := by
  obtain ⟨t, ht, hstranded⟩ := h
  rcases step_cases hstep with ⟨i, fails, u, w', u', -, -, hi, hs, rfl⟩ | ⟨pc, -, -, rfl⟩ | ⟨-, -, -, rfl⟩
  · obtain ⟨j, hj⟩ := List.getElem?_of_mem ht
    by_cases hij : i = j
    · subst hij
      rw [hi] at hj
      cases hj
      have hlt : i < c.tasks.length := (List.getElem?_eq_some_iff.mp hi).1
      exact ⟨u', List.mem_set hlt u', stranded_task_step hstranded hs⟩
    · have hj' : (c.tasks.set i u')[j]? = some t := by rwa [List.getElem?_set_ne hij]
      exact ⟨t, List.mem_of_getElem? hj', hstranded⟩
  · exact ⟨t, List.mem_append_left _ ht, hstranded⟩
  · exact ⟨t, List.mem_append_left _ ht, hstranded⟩

/-- When a call throws between the cloning and the call of the library, its reference stays for ever: the struct is
never dropped, also when the wrapper is destroyed. -/
theorem leaked (h : run (step simpleName) (start handle) events = some c) (hstranded : ∃ t ∈ c.tasks, t.Stranded)
    {later : List Event} (hrun : run (step simpleName) c later = some c') (hmisused : c'.shared.misused = false) :
    c'.shared.strong ≠ 0 := by
  obtain ⟨t, ht, hclone, -⟩ := run_invariant (fun _ _ _ => stranded_step) hstranded hrun
  have hinv : Inv c' := run_invariant (fun _ _ _ => step_inv) (inv_run h) hrun
  exact hinv.strong_of_clone hmisused ht hclone

/-- A call whose arguments were not lowered -/
def abandoned : Config Wrapper Task := ⟨⟨7, 2, false, false, 2, false, false⟩, [⟨.leave, true, some .other⟩]⟩

theorem run_abandoned : run (step "Controller") (start 7)
    [.call, .act 0 false, .act 0 false, .act 0 false, .act 0 true] = some abandoned := rfl

/-- The call leaves, and the wrapper is destroyed. -/
theorem leaked_abandoned : ∃ c,
    run (step "Controller") abandoned
      [.act 0 false, .destroy, .act 1 false, .act 1 false, .act 1 false] = some c ∧
    c.shared.cleaned = true ∧ c.shared.strong ≠ 0 := by
  have hrun : run (step "Controller") abandoned
      [.act 0 false, .destroy, .act 1 false, .act 1 false, .act 1 false] =
      some ⟨⟨7, 0, true, true, 1, false, false⟩, [⟨.done, true, some .other⟩, ⟨.done, false, none⟩]⟩ := rfl
  exact ⟨_, hrun, rfl, leaked run_abandoned ⟨_, List.mem_singleton.mpr rfl, rfl, .inl rfl⟩ hrun rfl⟩

/-- When everything is done and the wrapper was destroyed, passing it as an argument misuses the struct, unless a cloned
handle has been left behind. -/
theorem misused_by_passing (h : run (step simpleName) (start handle) events = some c)
    (hdone : ∀ t ∈ c.tasks, t.pc = .done) (hdestroyed : c.shared.wasDestroyed = true)
    (hcoll : c.shared.collected = false) (hhandle : handle ≠ 0) (hmisused : c.shared.misused = false)
    (hleft : ∀ t ∈ c.tasks, t.clone = false) (fails : Bool) :
    ∃ c', run (step simpleName) c [.pass, .act c.tasks.length fails] = some c' ∧ c'.shared.misused = true := by
  have hclones : total Task.clones c.tasks = 0 :=
    total_eq_zero_iff.mpr fun t ht => by
      unfold Task.clones
      rw [hleft t ht]
      rfl
  have hnone : c.shared.strong = 0 := by
    rw [strong_run h hhandle hmisused, (cleaned_iff h hdone).mpr (.inl hdestroyed), hclones]
    rfl
  have hne : c.shared.handle ≠ 0 := by rwa [handle_run h]
  have hpass : step simpleName c .pass = some (spawn c (Task.start .lower)) := by
    unfold step
    dsimp only
    rw [hcoll]
    rfl
  have hlast : (spawn c (Task.start .lower)).tasks[c.tasks.length]? = some (Task.start .lower) :=
    List.getElem?_concat_length
  have hlower : Task.step simpleName fails c.shared (Task.start .lower) =
      some ({ c.shared with misused := true }, ⟨.lowered, true, none⟩) := by
    unfold Task.step
    simp only [Task.start, hne, Wrapper.fnClone, hnone, ↓reduceIte]
  have hact : step simpleName (spawn c (Task.start .lower)) (.act c.tasks.length fails) =
      some ⟨{ c.shared with misused := true },
        (c.tasks ++ [Task.start .lower]).set c.tasks.length ⟨.lowered, true, none⟩⟩ := by
    unfold step
    dsimp only
    rw [show (spawn c (Task.start .lower)).shared.misused = false from hmisused]
    exact act_eq_some_iff.mpr ⟨_, _, _, hlast, hlower, rfl⟩
  exact ⟨_, run_cons_eq_some_iff.mpr ⟨_, hpass, run_cons_eq_some_iff.mpr ⟨_, hact, rfl⟩⟩, rfl⟩

theorem misused_by_passing_destroyed : ∃ c,
    run (step "Owner") destroyed [.pass, .act 1 false] = some c ∧ c.shared.misused = true :=
  misused_by_passing (run_destroyed "Owner") (by decide) rfl rfl (by decide) rfl (by decide) false

/-! ### Nobody waits for anybody -/

/-- How many steps a task takes when it is alone. -/
def Task.rank (w : Wrapper) (t : Task) : Nat :=
  match t.pc with
  | .callGet => 7
  | .callCas c => if w.callCounter = c then 6 else 8
  | .cloneHandle => 5
  | .block => 4
  | .inRust => 3
  | .leave => 2
  | .destroyFlag => 3
  | .destroyDecrement => 2
  | .clean => 1
  | .lower => 2
  | .lowered => 1
  | .done => 0

private theorem rank_decreases (simpleName : String) (fails : Bool) (w : Wrapper) (hdone : t.pc ≠ .done) :
    ∃ w' t', Task.step simpleName fails w t = some (w', t') ∧ t'.rank w' < t.rank w := by
  unfold Task.step
  cases hpc : t.pc with
  | callGet =>
    dsimp only
    split
    · exact ⟨_, _, rfl, by simp [Task.rank, Task.throws, hpc]⟩
    · split
      · exact ⟨_, _, rfl, by simp [Task.rank, Task.throws, hpc]⟩
      · exact ⟨_, _, rfl, by simp [Task.rank, hpc]⟩
  | callCas k =>
    dsimp only
    split
    · rename_i hk
      exact ⟨_, _, rfl, by simp [Task.rank, hpc, hk]⟩
    · rename_i hk
      exact ⟨_, _, rfl, by simp [Task.rank, hpc, hk]⟩
  | cloneHandle =>
    dsimp only
    split
    · exact ⟨_, _, rfl, by simp [Task.rank, hpc]⟩
    · exact ⟨_, _, rfl, by simp [Task.rank, hpc]⟩
  | block =>
    refine ⟨_, _, rfl, ?_⟩
    cases fails <;> simp [Task.rank, hpc]
  | inRust => exact ⟨_, _, rfl, by simp [Task.rank, hpc]⟩
  | leave =>
    refine ⟨_, _, rfl, ?_⟩
    unfold Task.afterDecrement
    split <;> simp [Task.rank, hpc]
  | destroyFlag =>
    dsimp only
    split
    · exact ⟨_, _, rfl, by simp [Task.rank, hpc]⟩
    · exact ⟨_, _, rfl, by simp [Task.rank, hpc]⟩
  | destroyDecrement =>
    refine ⟨_, _, rfl, ?_⟩
    unfold Task.afterDecrement
    split <;> simp [Task.rank, hpc]
  | clean => exact ⟨_, _, rfl, by simp [Task.rank, hpc]⟩
  | lower =>
    dsimp only
    split
    · exact ⟨_, _, rfl, by simp [Task.rank, Task.throws, hpc]⟩
    · exact ⟨_, _, rfl, by simp [Task.rank, hpc]⟩
  | lowered =>
    cases fails with
    | true => exact ⟨_, _, rfl, by simp [Task.rank, Task.throws, hpc]⟩
    | false => exact ⟨_, _, rfl, by simp [Task.rank, hpc]⟩
  | done => exact absurd hpc hdone

/-- `fails` tells of each step of the task whether something throws in it. -/
private theorem finishes_of_rank {n : Nat} (h : Inv c) (hmisused : c.shared.misused = false)
    (hi : c.tasks[i]? = some t) (hlower : t.pc = .lower → c.shared.strong ≠ 0) (hrank : t.rank c.shared ≤ n)
    (fails : Nat → Bool) :
    ∃ k, k ≤ n ∧ ∃ c' t', run (step simpleName) c ((List.range k).map fun j => .act i (fails j)) = some c' ∧
      c'.tasks[i]? = some t' ∧ t'.pc = .done := by
  induction n generalizing c t fails with
  | zero =>
    refine ⟨0, Nat.le_refl 0, c, t, rfl, hi, ?_⟩
    by_cases hdone : t.pc = .done
    · exact hdone
    · obtain ⟨w', t', -, hlt⟩ := rank_decreases simpleName false c.shared hdone
      omega
  | succ n ih =>
    by_cases hdone : t.pc = .done
    · exact ⟨0, Nat.zero_le _, c, t, rfl, hi, hdone⟩
    · obtain ⟨w', t', hs, hlt⟩ := rank_decreases simpleName (fails 0) c.shared hdone
      obtain ⟨hinv, hm⟩ := task_step_inv h hmisused hi hs
      have hm' : w'.misused = false := by
        rcases hm with hm | ⟨hpc, hstrong⟩
        · exact hm
        · exact absurd hstrong (hlower hpc)
      have hlt' : i < c.tasks.length := (List.getElem?_eq_some_iff.mp hi).1
      have hi' : (c.tasks.set i t')[i]? = some t' := by
        rw [List.getElem?_set_self hlt']
      obtain ⟨k, hk, c', u, hrun, hu, hpc⟩ :=
        ih hinv hm' hi' (fun hpc => absurd hpc (pc_ne_lower hs)) (by dsimp only; omega) fun j => fails (j + 1)
      have hstep : step simpleName c (.act i (fails 0)) = some ⟨w', c.tasks.set i t'⟩ := by
        unfold step
        dsimp only
        rw [hmisused]
        exact act_eq_some_iff.mpr ⟨t, w', t', hi, hs, rfl⟩
      refine ⟨k + 1, by omega, c', u, ?_, hu, hpc⟩
      rw [List.range_succ_eq_map, List.map_cons, List.map_map]
      exact run_cons_eq_some_iff.mpr ⟨_, hstep, hrun⟩

/-- From any state, in the middle of anything that others do, a task that goes on alone is done after eight steps at
most, whatever converters and calls throw in them: no call and no `destroy` waits for another. -/
theorem finishes_alone (h : run (step simpleName) (start handle) events = some c) (hmisused : c.shared.misused = false)
    (hi : c.tasks[i]? = some t) (hlower : t.pc = .lower → c.shared.strong ≠ 0) (fails : Nat → Bool) :
    ∃ k, k ≤ 8 ∧ ∃ c' t', run (step simpleName) c ((List.range k).map fun j => .act i (fails j)) = some c' ∧
      c'.tasks[i]? = some t' ∧ t'.pc = .done := by
  refine finishes_of_rank (inv_run h) hmisused hi hlower ?_ fails
  unfold Task.rank
  split <;> first | omega | (split <;> omega)

/-- Its arguments are not lowered. -/
theorem finishes_alone_calling : ∃ k, k ≤ 8 ∧ ∃ c t,
    run (step "Controller") calling ((List.range k).map fun _ => .act 0 true) = some c ∧ c.tasks[0]? = some t ∧
      t.pc = .done :=
  finishes_alone run_calling rfl rfl nofun fun _ => true

end

end ControllerUniffi.Ffi.Kotlin
