import ControllerUniffi.Data.Lifetime

/-!
# The life of an object in Kotlin

A wrapper holds a handle to a Rust struct.  Any number of tasks call methods, destroy the wrapper or pass it on as an
argument, at any time and in any order; the atomic operations and the calls of the library are the steps.
`callCounter` counts the calls in flight and one more until `destroy`; whoever brings it to zero cleans, and so does
the runtime when the wrapper is out of reach.

`Moves` is all that a step can do (`task_step_cases`).  The invariant (`Inv`) says what is counted and when the struct
has been freed; every step keeps it (`step_inv`).
-/

namespace ControllerUniffi.Ffi.Kotlin

open Interleaving

/-! ### The wrapper -/

/-- `Long.MAX_VALUE` -/
def longMax : Int := 9223372036854775807

/-- What a `Long` holds of a number. -/
def toLong (i : Int) : Int := i.bmod 18446744073709551616

/-- What a task throws; `other` is what a converter or the library throws. -/
inductive Thrown where
  | illegalState (message : String)
  | internal (message : String)
  | other
  deriving DecidableEq, Repr

/-- A wrapper, with the number of references to its Rust struct that the library counts, whether the runtime has found
it out of reach and whether the struct was used after it was dropped. -/
structure Wrapper where
  handle : Int
  callCounter : Int
  wasDestroyed : Bool
  cleaned : Bool
  strong : Nat
  collected : Bool
  misused : Bool
  deriving DecidableEq, Repr

namespace Wrapper

/-- The constructor; handle zero is that of a fake object without a struct. -/
def new (handle : Int) : Wrapper := ⟨handle, 1, false, false, if handle = 0 then 0 else 1, false, false⟩

/-- `fn_clone`, with a handle that is not checked -/
def fnClone (w : Wrapper) : Wrapper :=
  if w.strong = 0 then { w with misused := true } else { w with strong := w.strong + 1 }

/-- `fn_free`, and the end of a call that has taken a cloned handle -/
def fnFree (w : Wrapper) : Wrapper :=
  if w.strong = 0 then { w with misused := true } else { w with strong := w.strong - 1 }

/-- `decrementAndGet` -/
def decrement (w : Wrapper) : Wrapper := { w with callCounter := toLong (w.callCounter - 1) }

/-- `UniffiCleanAction` -/
def cleanAction (w : Wrapper) : Wrapper := if w.handle = 0 then w else w.fnFree

/-- `cleanable.clean()` runs the action the first time. -/
def clean (w : Wrapper) : Wrapper := if w.cleaned then w else { w with cleaned := true }.cleanAction

end Wrapper

/-! ### Tasks -/

/-- What a task does next. -/
inductive Pc where
  | callGet
  | callCas (c : Int)
  | cloneHandle
  | block
  | inRust
  | leave
  | destroyFlag
  | destroyDecrement
  | clean
  | lower
  | lowered
  | done
  deriving DecidableEq, Repr

/-- A task, whether it has a cloned handle that no call has taken, and what it has thrown. -/
structure Task where
  pc : Pc
  clone : Bool
  thrown : Option Thrown
  deriving DecidableEq, Repr

namespace Task

def start (pc : Pc) : Task := ⟨pc, false, none⟩

/-- It throws and is done. -/
def throws (t : Task) (e : Thrown) : Task := { t with pc := .done, thrown := some e }

/-- After a decrement: who has brought the counter to zero cleans. -/
def afterDecrement (t : Task) (w : Wrapper) : Task := { t with pc := if w.callCounter = 0 then .clean else .done }

/-- The next step of a task; `fails` tells whether a converter or a call of the library throws in it. -/
def step (simpleName : String) (fails : Bool) (w : Wrapper) (t : Task) : Option (Wrapper × Task) :=
  match t.pc with
  -- `callWithHandle`
  | .callGet =>
    if w.callCounter = 0 then
      some (w, t.throws (.illegalState (simpleName ++ " object has already been destroyed")))
    else if w.callCounter = longMax then
      some (w, t.throws (.illegalState (simpleName ++ " call counter would overflow")))
    else some (w, { t with pc := .callCas w.callCounter })
  | .callCas c =>
    if w.callCounter = c then some ({ w with callCounter := toLong (c + 1) }, { t with pc := .cloneHandle })
    else some (w, { t with pc := .callGet })
  | .cloneHandle =>
    if w.handle = 0 then
      some (w, { t with pc := .leave, thrown := some (.internal "uniffiCloneHandle() called on NoHandle object") })
    else some (w.fnClone, { t with pc := .block, clone := true })
  -- the arguments are lowered, and only then the library gets the handle
  | .block => some (w, if fails then { t with pc := .leave, thrown := some .other } else { t with pc := .inRust })
  | .inRust => some (w.fnFree, { t with pc := .leave, clone := false, thrown := if fails then some .other else none })
  | .leave => some (w.decrement, t.afterDecrement w.decrement)
  -- `destroy`
  | .destroyFlag =>
    if w.wasDestroyed then some (w, { t with pc := .done })
    else some ({ w with wasDestroyed := true }, { t with pc := .destroyDecrement })
  | .destroyDecrement => some (w.decrement, t.afterDecrement w.decrement)
  | .clean => some (w.clean, { t with pc := .done })
  -- `lower` of the wrapper as an argument of another call
  | .lower =>
    if w.handle = 0 then some (w, t.throws (.internal "uniffiCloneHandle() called on NoHandle object"))
    else some (w.fnClone, { t with pc := .lowered, clone := true })
  | .lowered => if fails then some (w, t.throws .other) else some (w.fnFree, { t with pc := .done, clone := false })
  | .done => none

/-- It does not need the wrapper any more. -/
def Detached (t : Task) : Prop := t.pc = .clean ∨ t.pc = .lowered ∨ t.pc = .done

instance (t : Task) : Decidable t.Detached := inferInstanceAs (Decidable (_ ∨ _ ∨ _))

end Task

/-! ### What a step can do -/

/-- The places around a step that leaves the wrapper alone. -/
inductive Stays (counter : Int) : Pc → Pc → Prop where
  | refused : Stays counter .callGet .done
  | loaded (hzero : counter ≠ 0) (hmax : counter ≠ longMax) : Stays counter .callGet (.callCas counter)
  | again {k : Int} (hlost : counter ≠ k) : Stays counter (.callCas k) .callGet
  | uncloned : Stays counter .cloneHandle .leave
  | unlowered : Stays counter .block .leave
  | called : Stays counter .block .inRust
  | flagged : Stays counter .destroyFlag .done
  | unpassable : Stays counter .lower .done
  | unpassed : Stays counter .lowered .done

/-- All that a step of a task can do to the wrapper, and where it leads. -/
inductive Moves (w : Wrapper) (t : Task) : Wrapper → Task → Prop where
  | stays {pc : Pc} (e : Option Thrown) (hstays : Stays w.callCounter t.pc pc) : Moves w t w ⟨pc, t.clone, e⟩
  | enter (hpc : t.pc = .callCas w.callCounter) :
    Moves w t { w with callCounter := toLong (w.callCounter + 1) } { t with pc := .cloneHandle }
  | clone {pc : Pc} (hpc : (t.pc = .cloneHandle ∧ pc = .block) ∨ (t.pc = .lower ∧ pc = .lowered))
    (hhandle : w.handle ≠ 0) : Moves w t w.fnClone ⟨pc, true, t.thrown⟩
  | free {pc : Pc} (e : Option Thrown) (hpc : (t.pc = .inRust ∧ pc = .leave) ∨ (t.pc = .lowered ∧ pc = .done)) :
    Moves w t w.fnFree ⟨pc, false, e⟩
  | decrement (hpc : t.pc = .leave ∨ t.pc = .destroyDecrement) :
    Moves w t w.decrement (t.afterDecrement w.decrement)
  | flag (hpc : t.pc = .destroyFlag) (hfirst : w.wasDestroyed = false) :
    Moves w t { w with wasDestroyed := true } { t with pc := .destroyDecrement }
  | clean (hpc : t.pc = .clean) : Moves w t w.clean { t with pc := .done }

theorem task_step_cases {simpleName : String} {fails : Bool} {w w' : Wrapper} {t t' : Task}
    (h : Task.step simpleName fails w t = some (w', t')) : Moves w t w' t' := by
  have stays {pc : Pc} (e : Option Thrown) (hstays : Stays w.callCounter t.pc pc) :
      Moves w t w ⟨pc, t.clone, e⟩ := .stays e hstays
  unfold Task.step at h
  cases hpc : t.pc with
  | callGet =>
    rw [hpc] at h stays
    dsimp only at h
    split at h
    · cases h
      exact stays _ .refused
    · split at h
      · cases h
        exact stays _ .refused
      · rename_i hzero hmax
        cases h
        exact stays _ (.loaded hzero hmax)
  | callCas k =>
    rw [hpc] at h stays
    dsimp only at h
    split at h
    · rename_i hk
      cases h
      rw [← hk]
      exact .enter (by rw [hpc, hk])
    · rename_i hlost
      cases h
      exact stays _ (.again hlost)
  | cloneHandle =>
    rw [hpc] at h stays
    dsimp only at h
    split at h
    · cases h
      exact stays _ .uncloned
    · rename_i hhandle
      cases h
      exact .clone (.inl ⟨hpc, rfl⟩) hhandle
  | block =>
    rw [hpc] at h stays
    cases fails with
    | true =>
      cases h
      exact stays _ .unlowered
    | false =>
      cases h
      exact stays _ .called
  | inRust =>
    rw [hpc] at h
    cases h
    exact .free _ (.inl ⟨hpc, rfl⟩)
  | leave =>
    rw [hpc] at h
    cases h
    exact .decrement (.inl hpc)
  | destroyFlag =>
    rw [hpc] at h stays
    dsimp only at h
    split at h
    · cases h
      exact stays _ .flagged
    · rename_i hfirst
      cases h
      exact .flag hpc (by simpa using hfirst)
  | destroyDecrement =>
    rw [hpc] at h
    cases h
    exact .decrement (.inr hpc)
  | clean =>
    rw [hpc] at h
    cases h
    exact .clean hpc
  | lower =>
    rw [hpc] at h stays
    dsimp only at h
    split at h
    · cases h
      exact stays _ .unpassable
    · rename_i hhandle
      cases h
      exact .clone (.inr ⟨hpc, rfl⟩) hhandle
  | lowered =>
    rw [hpc] at h stays
    cases fails with
    | true =>
      cases h
      exact stays _ .unpassed
    | false =>
      cases h
      exact .free _ (.inr ⟨hpc, rfl⟩)
  | done =>
    rw [hpc] at h
    cases h

/-! ### Runs -/

inductive Event where
  | act (i : Nat) (fails : Bool)
  | call
  | destroy
  | pass
  | collect
  deriving DecidableEq, Repr

/-- Tasks start while the wrapper is in reach; it is out of reach when no task needs it.  After a misuse nothing can be
said of the tasks any more. -/
def step (simpleName : String) (c : Config Wrapper Task) : Event → Option (Config Wrapper Task)
  | .act i fails => if c.shared.misused then none else act (Task.step simpleName fails) c i
  | .call => if c.shared.collected then none else some (spawn c (Task.start .callGet))
  | .destroy => if c.shared.collected then none else some (spawn c (Task.start .destroyFlag))
  | .pass => if c.shared.collected then none else some (spawn c (Task.start .lower))
  | .collect =>
    if c.shared.collected = false ∧ ∀ t ∈ c.tasks, t.Detached then
      some (spawn { c with shared := { c.shared with collected := true } } (Task.start .clean))
    else none

def start (handle : Int) : Config Wrapper Task := ⟨Wrapper.new handle, []⟩

/-! ### The invariant -/

namespace Task

/-- A call between its increment and its decrement. -/
def inCall (t : Task) : Nat :=
  match t.pc with
  | .cloneHandle | .block | .inRust | .leave => 1
  | _ => 0

/-- `destroy` before its decrement -/
def destroying (t : Task) : Nat := if t.pc = .destroyDecrement then 1 else 0

def cleaning (t : Task) : Nat := if t.pc = .clean then 1 else 0

def clones (t : Task) : Nat := t.clone.toNat

/-- What a task at its place knows. -/
def Ok (handle : Int) (t : Task) : Prop :=
  (t.clone = true → handle ≠ 0) ∧
  match t.pc with
  | .callCas c => t.clone = false ∧ c ≠ 0 ∧ c ≠ longMax
  | .block | .inRust | .lowered => t.clone = true
  | .leave | .clean | .done => True
  | _ => t.clone = false

end Task

structure Inv (c : Config Wrapper Task) : Prop where
  counter : c.shared.callCounter =
    ((!c.shared.wasDestroyed).toNat + total Task.destroying c.tasks + total Task.inCall c.tasks : Nat)
  bounded : c.shared.callCounter ≤ longMax
  destroying : total Task.destroying c.tasks ≤ c.shared.wasDestroyed.toNat
  released : (c.shared.cleaned = true ∨ 0 < total Task.cleaning c.tasks) ↔
    (c.shared.callCounter = 0 ∨ c.shared.collected = true)
  detached : c.shared.collected = true → ∀ t ∈ c.tasks, t.Detached
  strong : c.shared.misused = false → c.shared.handle ≠ 0 →
    c.shared.strong = (!c.shared.cleaned).toNat + total Task.clones c.tasks
  ok : ∀ t ∈ c.tasks, t.Ok c.shared.handle

theorem inv_start (handle : Int) : Inv (start handle) where
  counter := rfl
  bounded := by
    change (1 : Int) ≤ longMax
    decide
  destroying := Nat.le_refl 0
  released := by simp [start, Wrapper.new]
  detached := nofun
  strong := by
    intro _ h
    simp only [start, Wrapper.new] at h ⊢
    rw [if_neg h]
    rfl
  ok := nofun

theorem toLong_of_range {i : Int} (h₁ : 0 ≤ i) (h₂ : i ≤ longMax) : toLong i = i := by
  unfold toLong longMax at *
  rw [Int.bmod_def]
  split <;> omega

/-- A new task that holds nothing. -/
private theorem inv_spawn {c : Config Wrapper Task} (h : Inv c) {pc : Pc} (hcollected : c.shared.collected = false)
    (hpc : pc = .callGet ∨ pc = .destroyFlag ∨ pc = .lower) : Inv (spawn c (Task.start pc)) := by
  have hok : (Task.start pc).Ok c.shared.handle := by
    rcases hpc with rfl | rfl | rfl <;> exact ⟨nofun, rfl⟩
  have hzero : (Task.start pc).inCall = 0 ∧ (Task.start pc).destroying = 0 ∧ (Task.start pc).cleaning = 0 ∧
      (Task.start pc).clones = 0 := by
    rcases hpc with rfl | rfl | rfl <;> exact ⟨rfl, rfl, rfl, rfl⟩
  obtain ⟨h₁, h₂, h₃, h₄⟩ := hzero
  refine ⟨?_, h.bounded, ?_, ?_, ?_, ?_, ?_⟩
  · simp only [spawn, total_append, total_cons, total_nil, h₁, h₂]
    exact h.counter
  · simp only [spawn, total_append, total_cons, total_nil, h₂]
    exact h.destroying
  · simp only [spawn, total_append, total_cons, total_nil, h₃]
    exact h.released
  · intro hcoll
    rw [show (spawn c (Task.start pc)).shared = c.shared from rfl, hcollected] at hcoll
    cases hcoll
  · simp only [spawn, total_append, total_cons, total_nil, h₄]
    exact h.strong
  · intro t ht
    rcases List.mem_append.mp ht with ht | ht
    · exact h.ok t ht
    · rw [List.mem_singleton.mp ht]
      exact hok

section

variable {c : Config Wrapper Task} {i : Nat} {t t' : Task}

theorem mem_of_at (hi : c.tasks[i]? = some t) : t ∈ c.tasks := List.mem_of_getElem? hi

/-- How the sums change with the task. -/
theorem sums_set (hi : c.tasks[i]? = some t) (t' : Task) :
    total Task.inCall (c.tasks.set i t') + t.inCall = total Task.inCall c.tasks + t'.inCall ∧
    total Task.destroying (c.tasks.set i t') + t.destroying = total Task.destroying c.tasks + t'.destroying ∧
    total Task.cleaning (c.tasks.set i t') + t.cleaning = total Task.cleaning c.tasks + t'.cleaning ∧
    total Task.clones (c.tasks.set i t') + t.clones = total Task.clones c.tasks + t'.clones :=
  ⟨total_set hi t', total_set hi t', total_set hi t', total_set hi t'⟩

/-- The wrappers differ at most in the references to the struct. -/
structure SameButReferences (w w' : Wrapper) : Prop where
  handle : w'.handle = w.handle
  callCounter : w'.callCounter = w.callCounter
  wasDestroyed : w'.wasDestroyed = w.wasDestroyed
  cleaned : w'.cleaned = w.cleaned
  collected : w'.collected = w.collected

theorem SameButReferences.refl (w : Wrapper) : SameButReferences w w := ⟨rfl, rfl, rfl, rfl, rfl⟩

theorem fnClone_same (w : Wrapper) : SameButReferences w w.fnClone := by
  unfold Wrapper.fnClone
  split <;> exact ⟨rfl, rfl, rfl, rfl, rfl⟩

theorem fnFree_same (w : Wrapper) : SameButReferences w w.fnFree := by
  unfold Wrapper.fnFree
  split <;> exact ⟨rfl, rfl, rfl, rfl, rfl⟩

/-- A step that changes nothing of the wrapper but the references, by what the task holds of them. -/
private theorem inv_references (h : Inv c) (hi : c.tasks[i]? = some t) {w' : Wrapper}
    (hsame : SameButReferences c.shared w') (hcall : t'.inCall = t.inCall) (hdestroying : t'.destroying = t.destroying)
    (hcleaning : t'.cleaning = t.cleaning) (hdetached : t.Detached → t'.Detached) (hok : t'.Ok c.shared.handle)
    (hstrong : w'.misused = false → c.shared.misused = false ∧ w'.strong + t.clones = c.shared.strong + t'.clones) :
    Inv ⟨w', c.tasks.set i t'⟩ := by
  obtain ⟨hcall', hdestroying', hcleaning', hclones'⟩ := sums_set hi t'
  refine ⟨?_, ?_, ?_, ?_, ?_, ?_, ?_⟩ <;> dsimp only
  · have := h.counter
    rw [hsame.callCounter, hsame.wasDestroyed]
    omega
  · rw [hsame.callCounter]
    exact h.bounded
  · have := h.destroying
    rw [hsame.wasDestroyed]
    omega
  · have heq : total Task.cleaning (c.tasks.set i t') = total Task.cleaning c.tasks := by omega
    rw [hsame.callCounter, hsame.cleaned, hsame.collected, heq]
    exact h.released
  · intro hcoll
    rw [hsame.collected] at hcoll
    exact forall_mem_set (h.detached hcoll) (hdetached (h.detached hcoll t (mem_of_at hi))) i
  · intro hmisused hhandle
    obtain ⟨hm, hs⟩ := hstrong hmisused
    have := h.strong hm (by rwa [hsame.handle] at hhandle)
    rw [hsame.cleaned]
    omega
  · rw [hsame.handle]
    exact forall_mem_set h.ok hok i

/-- A task that needs the wrapper keeps it in reach. -/
theorem Inv.in_reach (h : Inv c) (ht : t ∈ c.tasks) (hneeds : ¬ t.Detached) : c.shared.collected = false := by
  cases hcoll : c.shared.collected with
  | false => rfl
  | true => exact absurd (h.detached hcoll t ht) hneeds

/-- While the counter is not zero and the wrapper is in reach nothing has been freed. -/
theorem Inv.not_cleaned (h : Inv c) (hcoll : c.shared.collected = false) (hcounter : c.shared.callCounter ≠ 0) :
    c.shared.cleaned = false ∧ total Task.cleaning c.tasks = 0 := by
  have hnot : ¬ (c.shared.cleaned = true ∨ 0 < total Task.cleaning c.tasks) := by
    rw [h.released, hcoll]
    simp [hcounter]
  refine ⟨?_, ?_⟩
  · cases hcleaned : c.shared.cleaned with
    | false => rfl
    | true => exact absurd (.inl hcleaned) hnot
  · exact Nat.eq_zero_of_not_pos fun hpos => hnot (.inr hpos)

/-- A call is counted. -/
private theorem inv_enter (h : Inv c) (hi : c.tasks[i]? = some t) (hpc : t.pc = .callCas c.shared.callCounter) :
    Inv ⟨{ c.shared with callCounter := toLong (c.shared.callCounter + 1) },
      c.tasks.set i { t with pc := .cloneHandle }⟩ := by
  have ht := h.ok t (mem_of_at hi)
  have hplace := ht.2
  rw [hpc] at hplace
  obtain ⟨hclone, hzero, hmax⟩ := hplace
  have hcoll := h.in_reach (mem_of_at hi) (by simp [Task.Detached, hpc])
  have hcounter := h.counter
  have hbounded := h.bounded
  have hlong : toLong (c.shared.callCounter + 1) = c.shared.callCounter + 1 := toLong_of_range (by omega) (by omega)
  have hsums := sums_set hi { t with pc := .cloneHandle }
  simp only [Task.inCall, Task.destroying, Task.cleaning, Task.clones, hpc, reduceCtorEq, ↓reduceIte] at hsums
  obtain ⟨hcall, hdestroying, hcleaning, hclones⟩ := hsums
  obtain ⟨hlive, hnone⟩ := h.not_cleaned hcoll (by omega)
  have hd := h.destroying
  refine ⟨?_, ?_, ?_, ?_, ?_, ?_, ?_⟩
  · dsimp only
    omega
  · dsimp only
    omega
  · dsimp only
    omega
  · dsimp only
    rw [hlive, hcoll]
    simp only [Bool.false_eq_true, false_or, or_false]
    omega
  · intro hcoll'
    rw [show c.shared.collected = true from hcoll'] at hcoll
    cases hcoll
  · intro hm hh
    dsimp only
    rw [h.strong hm hh]
    omega
  · have hok : Task.Ok c.shared.handle { t with pc := .cloneHandle } := ⟨ht.1, hclone⟩
    exact forall_mem_set h.ok hok i

theorem afterDecrement_holds (t : Task) (w : Wrapper) :
    (t.afterDecrement w).inCall = 0 ∧ (t.afterDecrement w).destroying = 0 ∧ (t.afterDecrement w).clones = t.clones := by
  unfold Task.afterDecrement
  split <;> exact ⟨rfl, rfl, rfl⟩

/-- Who brings the counter to zero is the one to clean. -/
private theorem inv_decrement (h : Inv c) (hi : c.tasks[i]? = some t) (hone : t.inCall + t.destroying = 1)
    (hcleaning : t.cleaning = 0) (hneeds : ¬ t.Detached) :
    Inv ⟨c.shared.decrement, c.tasks.set i (t.afterDecrement c.shared.decrement)⟩ := by
  have hcoll := h.in_reach (mem_of_at hi) hneeds
  have hcounter := h.counter
  have hbounded := h.bounded
  have hcall : t.inCall ≤ total Task.inCall c.tasks := le_total (mem_of_at hi)
  have hdestroying : t.destroying ≤ total Task.destroying c.tasks := le_total (mem_of_at hi)
  obtain ⟨hlive, hnone⟩ := h.not_cleaned hcoll (by omega)
  have hlong : c.shared.decrement.callCounter = c.shared.callCounter - 1 := toLong_of_range (by omega) (by omega)
  obtain ⟨hcall', hdestroying', hcleaning', hclones'⟩ := sums_set hi (t.afterDecrement c.shared.decrement)
  obtain ⟨ha₁, ha₂, ha₃⟩ := afterDecrement_holds t c.shared.decrement
  have hd := h.destroying
  refine ⟨?_, ?_, ?_, ?_, ?_, ?_, ?_⟩ <;> dsimp only
  · rw [hlong, show c.shared.decrement.wasDestroyed = c.shared.wasDestroyed from rfl]
    omega
  · omega
  · rw [show c.shared.decrement.wasDestroyed = c.shared.wasDestroyed from rfl]
    omega
  · rw [show c.shared.decrement.cleaned = c.shared.cleaned from rfl,
      show c.shared.decrement.collected = c.shared.collected from rfl, hlive, hcoll]
    by_cases hzero : c.shared.decrement.callCounter = 0
    · have : (t.afterDecrement c.shared.decrement).cleaning = 1 := by
        unfold Task.afterDecrement
        rw [if_pos hzero]
        rfl
      simp only [hzero, Bool.false_eq_true, or_false, false_or, iff_true]
      omega
    · have : (t.afterDecrement c.shared.decrement).cleaning = 0 := by
        unfold Task.afterDecrement
        rw [if_neg hzero]
        rfl
      simp only [hzero, Bool.false_eq_true, or_false, false_or, iff_false]
      omega
  · intro hcoll'
    rw [show c.shared.collected = true from hcoll'] at hcoll
    cases hcoll
  · intro hm hh
    have := h.strong hm hh
    rw [show c.shared.decrement.strong = c.shared.strong from rfl,
      show c.shared.decrement.cleaned = c.shared.cleaned from rfl]
    omega
  · have hok : (t.afterDecrement c.shared.decrement).Ok c.shared.handle := by
      have := (h.ok t (mem_of_at hi)).1
      unfold Task.afterDecrement
      split <;> exact ⟨this, trivial⟩
    exact forall_mem_set h.ok hok i

/-- Only the first `destroy` gets to the decrement. -/
private theorem inv_flag (h : Inv c) (hi : c.tasks[i]? = some t) (hpc : t.pc = .destroyFlag)
    (hfirst : c.shared.wasDestroyed = false) :
    Inv ⟨{ c.shared with wasDestroyed := true }, c.tasks.set i { t with pc := .destroyDecrement }⟩ := by
  have ht := h.ok t (mem_of_at hi)
  have hclone := ht.2
  rw [hpc] at hclone
  have hcoll := h.in_reach (mem_of_at hi) (by simp [Task.Detached, hpc])
  have hsums := sums_set hi { t with pc := .destroyDecrement }
  simp only [Task.inCall, Task.destroying, Task.cleaning, Task.clones, hpc, reduceCtorEq, ↓reduceIte] at hsums
  obtain ⟨hcall, hdestroying, hcleaning, hclones⟩ := hsums
  have hcounter := h.counter
  have hd := h.destroying
  rw [hfirst] at hcounter hd
  simp only [Bool.not_false, Bool.toNat_true, Bool.toNat_false] at hcounter hd
  refine ⟨?_, h.bounded, ?_, ?_, ?_, ?_, ?_⟩ <;> dsimp only
  · simp only [Bool.not_true, Bool.toNat_false]
    omega
  · simp only [Bool.toNat_true]
    omega
  · have heq : total Task.cleaning (c.tasks.set i { t with pc := .destroyDecrement }) =
        total Task.cleaning c.tasks := by omega
    rw [heq]
    exact h.released
  · intro hcoll'
    rw [hcoll'] at hcoll
    cases hcoll
  · intro hm hh
    have := h.strong hm hh
    omega
  · have hok : Task.Ok c.shared.handle { t with pc := .destroyDecrement } := ⟨ht.1, hclone⟩
    exact forall_mem_set h.ok hok i

/-- The reference of the wrapper is dropped with the first `clean`, while it is there. -/
theorem clean_cases (h : Inv c) (hmisused : c.shared.misused = false) :
    (c.shared.cleaned = true ∧ c.shared.clean = c.shared) ∨
    (c.shared.cleaned = false ∧ c.shared.handle = 0 ∧ c.shared.clean = { c.shared with cleaned := true }) ∨
    (c.shared.cleaned = false ∧ c.shared.handle ≠ 0 ∧ c.shared.strong = 1 + total Task.clones c.tasks ∧
      c.shared.clean = { c.shared with cleaned := true, strong := total Task.clones c.tasks }) := by
  unfold Wrapper.clean
  cases hcleaned : c.shared.cleaned with
  | true => exact .inl ⟨rfl, rfl⟩
  | false =>
    by_cases hhandle : c.shared.handle = 0
    · refine .inr (.inl ⟨rfl, hhandle, ?_⟩)
      simp only [Bool.false_eq_true, ↓reduceIte, Wrapper.cleanAction, hhandle]
    · have hstrong := h.strong hmisused hhandle
      rw [hcleaned, Bool.not_false, Bool.toNat_true] at hstrong
      refine .inr (.inr ⟨rfl, hhandle, hstrong, ?_⟩)
      simp only [Bool.false_eq_true, ↓reduceIte, Wrapper.cleanAction, Wrapper.fnFree, hhandle, hstrong]
      rw [if_neg (by omega), Nat.add_sub_cancel_left]

private theorem inv_clean (h : Inv c) (hi : c.tasks[i]? = some t) (hpc : t.pc = .clean)
    (hmisused : c.shared.misused = false) :
    Inv ⟨c.shared.clean, c.tasks.set i { t with pc := .done }⟩ ∧ c.shared.clean.misused = false := by
  have hsums := sums_set hi { t with pc := .done }
  simp only [Task.inCall, Task.destroying, Task.cleaning, Task.clones, hpc, reduceCtorEq, ↓reduceIte] at hsums
  obtain ⟨hcall, hdestroying, hcleaning, hclones⟩ := hsums
  have hframe : c.shared.clean.handle = c.shared.handle ∧ c.shared.clean.callCounter = c.shared.callCounter ∧
      c.shared.clean.wasDestroyed = c.shared.wasDestroyed ∧ c.shared.clean.collected = c.shared.collected ∧
      c.shared.clean.cleaned = true ∧ c.shared.clean.misused = false := by
    rcases clean_cases h hmisused with ⟨hcleaned, heq⟩ | ⟨-, -, heq⟩ | ⟨-, -, -, heq⟩
    · rw [heq]
      exact ⟨rfl, rfl, rfl, rfl, hcleaned, hmisused⟩
    · rw [heq]
      exact ⟨rfl, rfl, rfl, rfl, rfl, hmisused⟩
    · rw [heq]
      exact ⟨rfl, rfl, rfl, rfl, rfl, hmisused⟩
  obtain ⟨f₁, f₂, f₃, f₄, f₅, f₆⟩ := hframe
  have hpos : c.shared.callCounter = 0 ∨ c.shared.collected = true := by
    have : t.cleaning ≤ total Task.cleaning c.tasks := le_total (mem_of_at hi)
    unfold Task.cleaning at this
    rw [if_pos hpc] at this
    exact h.released.mp (.inr this)
  refine ⟨⟨?_, ?_, ?_, ?_, ?_, ?_, ?_⟩, f₆⟩ <;> dsimp only
  · have := h.counter
    rw [f₂, f₃]
    omega
  · rw [f₂]
    exact h.bounded
  · have := h.destroying
    rw [f₃]
    omega
  · rw [f₂, f₄, f₅]
    exact ⟨fun _ => hpos, fun _ => .inl rfl⟩
  · intro hcoll
    rw [f₄] at hcoll
    exact forall_mem_set (h.detached hcoll) (.inr (.inr rfl)) i
  · intro _ hhandle
    rw [f₁] at hhandle
    rcases clean_cases h hmisused with ⟨hcleaned, heq⟩ | ⟨-, hzero, -⟩ | ⟨-, -, -, heq⟩
    · have := h.strong hmisused hhandle
      rw [heq]
      omega
    · exact absurd hzero hhandle
    · rw [heq]
      dsimp only
      simp only [Bool.not_true, Bool.toNat_false]
      omega
  · rw [f₁]
    have hok : Task.Ok c.shared.handle { t with pc := .done } := ⟨(h.ok t (mem_of_at hi)).1, trivial⟩
    exact forall_mem_set h.ok hok i

/-- The runtime finds the wrapper out of reach. -/
private theorem inv_collect (h : Inv c) (hdetached : ∀ t ∈ c.tasks, t.Detached) :
    Inv (spawn { c with shared := { c.shared with collected := true } } (Task.start .clean)) := by
  refine ⟨?_, h.bounded, ?_, ?_, ?_, ?_, ?_⟩
  · simp only [spawn, total_append, total_cons, total_nil]
    exact h.counter
  · simp only [spawn, total_append, total_cons, total_nil]
    exact h.destroying
  · refine ⟨fun _ => .inr rfl, fun _ => .inr ?_⟩
    simp only [spawn, total_append, total_cons, total_nil]
    exact Nat.succ_pos _
  · intro _ t ht
    rcases List.mem_append.mp ht with ht | ht
    · exact hdetached t ht
    · rw [List.mem_singleton.mp ht]
      exact .inl rfl
  · simp only [spawn, total_append, total_cons, total_nil]
    exact h.strong
  · intro t ht
    rcases List.mem_append.mp ht with ht | ht
    · exact h.ok t ht
    · rw [List.mem_singleton.mp ht]
      exact ⟨nofun, trivial⟩

/-- A cloned handle is a reference. -/
theorem Inv.strong_of_clone (h : Inv c) (hmisused : c.shared.misused = false) (ht : t ∈ c.tasks)
    (hclone : t.clone = true) : c.shared.strong ≠ 0 := by
  have hstrong := h.strong hmisused ((h.ok t ht).1 hclone)
  have hle : t.clones ≤ total Task.clones c.tasks := le_total ht
  have hone : t.clones = 1 := by
    unfold Task.clones
    rw [hclone]
    rfl
  omega

/-- During a call nothing has been freed. -/
theorem Inv.live_of_inCall (h : Inv c) (ht : t ∈ c.tasks) (hcall : 0 < t.inCall) : c.shared.cleaned = false := by
  have hle : t.inCall ≤ total Task.inCall c.tasks := le_total ht
  have hneeds : ¬ t.Detached := by
    rintro (hpc | hpc | hpc) <;> simp [Task.inCall, hpc] at hcall
  have hcounter := h.counter
  exact (h.not_cleaned (h.in_reach ht hneeds) (by omega)).1

theorem Inv.strong_of_inCall (h : Inv c) (hmisused : c.shared.misused = false) (hhandle : c.shared.handle ≠ 0)
    (ht : t ∈ c.tasks) (hcall : 0 < t.inCall) : c.shared.strong ≠ 0 := by
  have hstrong := h.strong hmisused hhandle
  rw [h.live_of_inCall ht hcall, Bool.not_false, Bool.toNat_true] at hstrong
  omega

private theorem fnClone_of_strong {w : Wrapper} (h : w.strong ≠ 0) : w.fnClone = { w with strong := w.strong + 1 } := by
  rw [Wrapper.fnClone, if_neg h]

private theorem fnFree_of_strong {w : Wrapper} (h : w.strong ≠ 0) : w.fnFree = { w with strong := w.strong - 1 } := by
  rw [Wrapper.fnFree, if_neg h]

variable {simpleName : String} {fails : Bool} {w' : Wrapper}

/-- A step that leaves the wrapper alone keeps what is counted of the task. -/
theorem Stays.holds {counter : Int} {pc : Pc} (h : Stays counter t.pc pc) (e : Option Thrown) :
    (Task.mk pc t.clone e).inCall = t.inCall ∧ (Task.mk pc t.clone e).destroying = t.destroying ∧
      (Task.mk pc t.clone e).cleaning = t.cleaning ∧ (t.Detached → (Task.mk pc t.clone e).Detached) := by
  obtain ⟨place, clone, thrown⟩ := t
  cases h
  all_goals exact ⟨rfl, rfl, rfl, by simp [Task.Detached]⟩

/-- It also keeps what the task has to know at its place. -/
private theorem Stays.ok {counter handle : Int} {pc : Pc} (h : Stays counter t.pc pc) (hok : t.Ok handle)
    (e : Option Thrown) : Task.Ok handle ⟨pc, t.clone, e⟩ := by
  obtain ⟨place, clone, thrown⟩ := t
  obtain ⟨hhandle, hplace⟩ := hok
  cases h with
  | loaded hzero hmax => exact ⟨hhandle, hplace, hzero, hmax⟩
  | again _ => exact ⟨hhandle, hplace.1⟩
  | called => exact ⟨hhandle, hplace⟩
  | refused | uncloned | unlowered | flagged | unpassable | unpassed => exact ⟨hhandle, trivial⟩

private theorem inv_clone (h : Inv c) (hmisused : c.shared.misused = false) (hi : c.tasks[i]? = some t) {pc : Pc}
    (hpc : (t.pc = .cloneHandle ∧ pc = .block) ∨ (t.pc = .lower ∧ pc = .lowered)) (hhandle : c.shared.handle ≠ 0) :
    Inv ⟨c.shared.fnClone, c.tasks.set i ⟨pc, true, t.thrown⟩⟩ := by
  have hplace := (h.ok t (mem_of_at hi)).2
  have hclone : t.clone = false := by
    rcases hpc with ⟨hpc, -⟩ | ⟨hpc, -⟩
    · rwa [hpc] at hplace
    · rwa [hpc] at hplace
  have hstrong : c.shared.fnClone.misused = false → c.shared.misused = false ∧
      c.shared.fnClone.strong + t.clones = c.shared.strong + (Task.mk pc true t.thrown).clones := by
    intro hm
    refine ⟨hmisused, ?_⟩
    unfold Wrapper.fnClone at hm ⊢
    split at hm
    · cases hm
    · rename_i hstrong
      rw [if_neg hstrong]
      simp [Task.clones, hclone]
  have hok : Task.Ok c.shared.handle ⟨pc, true, t.thrown⟩ := by
    rcases hpc with ⟨-, rfl⟩ | ⟨-, rfl⟩
    · exact ⟨fun _ => hhandle, rfl⟩
    · exact ⟨fun _ => hhandle, rfl⟩
  refine inv_references h hi (fnClone_same _) ?_ ?_ ?_ ?_ hok hstrong
  all_goals rcases hpc with ⟨hpc, rfl⟩ | ⟨hpc, rfl⟩
  all_goals simp [Task.inCall, Task.destroying, Task.cleaning, Task.Detached, hpc]

private theorem inv_free (h : Inv c) (hmisused : c.shared.misused = false) (hi : c.tasks[i]? = some t) {pc : Pc}
    (e : Option Thrown) (hpc : (t.pc = .inRust ∧ pc = .leave) ∨ (t.pc = .lowered ∧ pc = .done)) :
    Inv ⟨c.shared.fnFree, c.tasks.set i ⟨pc, false, e⟩⟩ ∧ c.shared.fnFree.misused = false := by
  have hplace := (h.ok t (mem_of_at hi)).2
  have hclone : t.clone = true := by
    rcases hpc with ⟨hpc, -⟩ | ⟨hpc, -⟩
    · rwa [hpc] at hplace
    · rwa [hpc] at hplace
  have hstrong := h.strong_of_clone hmisused (mem_of_at hi) hclone
  have hok : Task.Ok c.shared.handle ⟨pc, false, e⟩ := by
    rcases hpc with ⟨-, rfl⟩ | ⟨-, rfl⟩
    · exact ⟨nofun, trivial⟩
    · exact ⟨nofun, trivial⟩
  rw [fnFree_of_strong hstrong]
  refine ⟨inv_references h hi ⟨rfl, rfl, rfl, rfl, rfl⟩ ?_ ?_ ?_ ?_ hok fun _ => ⟨hmisused, ?_⟩, hmisused⟩
  case refine_5 =>
    simp only [Task.clones, hclone, Bool.toNat_true, Bool.toNat_false]
    omega
  all_goals rcases hpc with ⟨hpc, rfl⟩ | ⟨hpc, rfl⟩
  all_goals simp [Task.inCall, Task.destroying, Task.cleaning, Task.Detached, hpc]

/-- A step of a task keeps the invariant and misuses the struct only when it lowers the wrapper as an argument, with no
reference left. -/
theorem task_step_inv (h : Inv c) (hmisused : c.shared.misused = false) (hi : c.tasks[i]? = some t)
    (hstep : Task.step simpleName fails c.shared t = some (w', t')) :
    Inv ⟨w', c.tasks.set i t'⟩ ∧ (w'.misused = false ∨ (t.pc = .lower ∧ c.shared.strong = 0)) := by
  have ht := mem_of_at hi
  cases task_step_cases hstep with
  | stays e hstays =>
    obtain ⟨hcall, hdestroying, hcleaning, hdetached⟩ := hstays.holds e
    exact ⟨inv_references h hi (SameButReferences.refl _) hcall hdestroying hcleaning hdetached
      (hstays.ok (h.ok t ht) e) fun hm => ⟨hm, rfl⟩, .inl hmisused⟩
  | enter hpc => exact ⟨inv_enter h hi hpc, .inl hmisused⟩
  | clone hpc hhandle =>
    refine ⟨inv_clone h hmisused hi hpc hhandle, ?_⟩
    by_cases hstrong : c.shared.strong = 0
    · rcases hpc with ⟨hpc, -⟩ | ⟨hpc, -⟩
      · exact absurd hstrong (h.strong_of_inCall hmisused hhandle ht (by simp [Task.inCall, hpc]))
      · exact .inr ⟨hpc, hstrong⟩
    · rw [fnClone_of_strong hstrong]
      exact .inl hmisused
  | free e hpc =>
    obtain ⟨hinv, hm⟩ := inv_free h hmisused hi e hpc
    exact ⟨hinv, .inl hm⟩
  | decrement hpc =>
    refine ⟨inv_decrement h hi ?_ ?_ ?_, .inl hmisused⟩
    all_goals rcases hpc with hpc | hpc <;> simp [Task.inCall, Task.destroying, Task.cleaning, Task.Detached, hpc]
  | flag hpc hfirst => exact ⟨inv_flag h hi hpc hfirst, .inl hmisused⟩
  | clean hpc =>
    obtain ⟨hinv, hm⟩ := inv_clean h hi hpc hmisused
    exact ⟨hinv, .inl hm⟩

end

/-! ### Runs from the constructor -/

section

variable {simpleName : String} {c c' : Config Wrapper Task} {handle : Int} {e : Event} {events : List Event}

/-- What an event does to a configuration. -/
theorem step_cases (h : step simpleName c e = some c') :
    (∃ i fails t w' t', e = .act i fails ∧ c.shared.misused = false ∧ c.tasks[i]? = some t ∧
      Task.step simpleName fails c.shared t = some (w', t') ∧ c' = ⟨w', c.tasks.set i t'⟩) ∨
    (∃ pc, ((e = .call ∧ pc = .callGet) ∨ (e = .destroy ∧ pc = .destroyFlag) ∨ (e = .pass ∧ pc = .lower)) ∧
      c.shared.collected = false ∧ c' = spawn c (Task.start pc)) ∨
    (e = .collect ∧ c.shared.collected = false ∧ (∀ t ∈ c.tasks, t.Detached) ∧
      c' = spawn { c with shared := { c.shared with collected := true } } (Task.start .clean)) := by
  have hspawn : ∀ {pc : Pc}, (if c.shared.collected then none else some (spawn c (Task.start pc))) = some c' →
      c.shared.collected = false ∧ c' = spawn c (Task.start pc) := by
    intro pc hpc
    split at hpc
    · cases hpc
    · rename_i hcoll
      cases hpc
      exact ⟨by simpa using hcoll, rfl⟩
  unfold step at h
  cases e with
  | act i fails =>
    dsimp only at h
    split at h
    · cases h
    · rename_i hmisused
      obtain ⟨t, w', t', ht, hstep, rfl⟩ := act_eq_some_iff.mp h
      exact .inl ⟨i, fails, t, w', t', rfl, by simpa using hmisused, ht, hstep, rfl⟩
  | call => exact .inr (.inl ⟨_, .inl ⟨rfl, rfl⟩, hspawn h⟩)
  | destroy => exact .inr (.inl ⟨_, .inr (.inl ⟨rfl, rfl⟩), hspawn h⟩)
  | pass => exact .inr (.inl ⟨_, .inr (.inr ⟨rfl, rfl⟩), hspawn h⟩)
  | collect =>
    dsimp only at h
    split at h
    · rename_i hguard
      cases h
      exact .inr (.inr ⟨rfl, hguard.1, hguard.2, rfl⟩)
    · cases h

theorem step_inv (h : Inv c) (hstep : step simpleName c e = some c') : Inv c' := by
  rcases step_cases hstep with ⟨i, fails, t, w', t', -, hm, ht, hs, rfl⟩ | ⟨pc, hpc, hcoll, rfl⟩ | ⟨-, -, hd, rfl⟩
  · exact (task_step_inv h hm ht hs).1
  · exact inv_spawn h hcoll (hpc.imp And.right (Or.imp And.right And.right))
  · exact inv_collect h hd

theorem inv_run (h : run (step simpleName) (start handle) events = some c) : Inv c :=
  run_invariant (fun _ _ _ => step_inv) (inv_start handle) h

/-- No step leads to `lower`. -/
theorem pc_ne_lower {fails : Bool} {w w' : Wrapper} {t t' : Task}
    (h : Task.step simpleName fails w t = some (w', t')) : t'.pc ≠ .lower := by
  cases task_step_cases h with
  | stays e hstays =>
    obtain ⟨place, clone, thrown⟩ := t
    cases hstays <;> simp
  | clone hpc => rcases hpc with ⟨-, rfl⟩ | ⟨-, rfl⟩ <;> simp
  | free e hpc => rcases hpc with ⟨-, rfl⟩ | ⟨-, rfl⟩ <;> simp
  | decrement =>
    unfold Task.afterDecrement
    split <;> simp
  | enter | flag | clean => simp

/-- Nothing is passed and nothing is misused. -/
private structure Unpassed (c : Config Wrapper Task) : Prop where
  inv : Inv c
  unmisused : c.shared.misused = false
  lower : ∀ t ∈ c.tasks, t.pc ≠ .lower

private theorem unpassed_spawn {pc : Pc} (hm : c.shared.misused = false) (hlower : ∀ t ∈ c.tasks, t.pc ≠ .lower)
    (hpc : pc ≠ .lower) (hinv : Inv (spawn c (Task.start pc))) : Unpassed (spawn c (Task.start pc)) := by
  refine ⟨hinv, hm, fun t ht => ?_⟩
  rcases List.mem_append.mp ht with ht | ht
  · exact hlower t ht
  · rw [List.mem_singleton.mp ht]
    exact hpc

private theorem unpassed_step (h : Unpassed c) (hpass : e ≠ .pass) (hstep : step simpleName c e = some c') :
    Unpassed c' := by
  have hinv := step_inv h.inv hstep
  rcases step_cases hstep with ⟨i, fails, t, w', t', rfl, -, ht, hs, rfl⟩ | ⟨pc, hpc, hcoll, rfl⟩ | ⟨-, -, -, rfl⟩
  · refine ⟨hinv, ?_, forall_mem_set h.lower (pc_ne_lower hs) i⟩
    rcases (task_step_inv h.inv h.unmisused ht hs).2 with hw | ⟨hpc, -⟩
    · exact hw
    · exact absurd hpc (h.lower t (mem_of_at ht))
  · refine unpassed_spawn h.unmisused h.lower ?_ hinv
    rcases hpc with ⟨-, rfl⟩ | ⟨-, rfl⟩ | ⟨rfl, -⟩
    · exact nofun
    · exact nofun
    · exact absurd rfl hpass
  · exact unpassed_spawn h.unmisused h.lower nofun hinv

/-- When the wrapper is never passed as an argument, the struct is never misused, whatever is called or destroyed. -/
theorem not_misused (h : run (step simpleName) (start handle) events = some c) (hpass : .pass ∉ events) :
    c.shared.misused = false := by
  have hall : ∀ e ∈ events, e ≠ .pass := by
    rintro e he rfl
    exact hpass he
  exact (run_invariant_of (fun _ _ _ => unpassed_step) ⟨inv_start handle, rfl, nofun⟩ hall h).unmisused

end

/-! ### Two runs -/

/-- A call has cloned the handle and is about to lower its arguments. -/
def calling : Config Wrapper Task := ⟨⟨7, 2, false, false, 2, false, false⟩, [⟨.block, true, none⟩]⟩

theorem run_calling : run (step "Controller") (start 7)
    [.call, .act 0 false, .act 0 false, .act 0 false] = some calling := rfl

/-- The wrapper has been destroyed. -/
def destroyed : Config Wrapper Task := ⟨⟨7, 0, true, true, 0, false, false⟩, [⟨.done, false, none⟩]⟩

theorem run_destroyed (simpleName : String) : run (step simpleName) (start 7)
    [.destroy, .act 0 false, .act 0 false, .act 0 false] = some destroyed := rfl

theorem not_misused_destroyed : destroyed.shared.misused = false := not_misused (run_destroyed "Controller") (by decide)

end ControllerUniffi.Ffi.Kotlin
