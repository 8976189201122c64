import ControllerUniffi.Data.Interleaving
import ControllerUniffi.Data.Trace

/-!
# Operations behind a lock

The operations of an object do a part before they take its lock and the rest under it, in several steps.  A panic under
the lock poisons it, and who takes a poisoned lock panics.

However its tasks are scheduled, the object is one whose operations are single steps (`run_linearized`): the operations
that have come to an end have a sequential run, in an order that only grows at its end; but for those that have panicked
under the lock or at the poisoned lock, which are not part of it.  Every schedule comes to an end at
which all operations have (`schedules_end`), and a poisoned object does nothing any more (`poisoned_run`).
-/

namespace Guarded

open Interleaving

variable {σ ι κ ω : Type}

/-- Where an operation goes on, or what it comes to. -/
inductive Next (κ ω : Type) where
  | go (k : κ)
  | done (o : ω)
  deriving DecidableEq, Repr

structure Object (σ ι κ ω : Type) where
  /-- The part before the lock. -/
  prepare : ι → Next κ ω
  /-- One step under the lock. -/
  advance : σ → κ → σ × Next κ ω
  /-- What a panic in the step can leave behind, if there can be one. -/
  crash : σ → κ → List σ
  /-- What an operation that panics comes to. -/
  panicked : ω
  /-- Under the lock an operation panics by `crash` only. -/
  done_ne : ∀ {s s' k o}, advance s k = (s', .done o) → o ≠ panicked
  /-- A bound of the steps that are left. -/
  rank : κ → Nat
  rank_lt : ∀ {s s' k k'}, advance s k = (s', .go k') → rank k' < rank k

/-- The state, and the lock over it. -/
structure Shared (σ : Type) where
  state : σ
  locked : Bool
  poisoned : Bool
  deriving DecidableEq, Repr

/-- What the task of an operation does next. -/
inductive Pc (κ ω : Type) where
  | called
  | waiting (k : κ)
  | inside (k : κ)
  | leaving (o : ω)
  | finished (o : ω)
  deriving DecidableEq, Repr

structure Task (ι κ ω : Type) where
  input : ι
  pc : Pc κ ω
  deriving DecidableEq, Repr

inductive Event (ι : Type) where
  | act (i : Nat) (panics : Option Nat)
  | call (input : ι)
  deriving DecidableEq, Repr

namespace Task

/-- What the operation has come to, from the end of its last step under the lock. -/
def outcome (t : Task ι κ ω) : Option ω :=
  match t.pc with
  | .leaving o | .finished o => some o
  | _ => none

/-- The task has the lock. -/
def holding (t : Task ι κ ω) : Nat :=
  match t.pc with
  | .inside _ | .leaving _ => 1
  | _ => 0

def Inside (t : Task ι κ ω) : Prop := ∃ k, t.pc = .inside k

def Finished (t : Task ι κ ω) : Prop := ∃ o, t.pc = .finished o

/-- The next step of a task; `panics` tells whether it panics under the lock, and what it leaves behind. -/
def step (M : Object σ ι κ ω) (panics : Option Nat) (s : Shared σ) (t : Task ι κ ω) : Option (Shared σ × Task ι κ ω) :=
  match t.pc with
  | .called =>
    match M.prepare t.input with
    | .done o => some (s, { t with pc := .finished o })
    | .go k => some (s, { t with pc := .waiting k })
  | .waiting k =>
    if s.locked then none
    else some ({ s with locked := true }, { t with pc := if s.poisoned then .leaving M.panicked else .inside k })
  | .inside k =>
    match panics with
    | some n =>
      match (M.crash s.state k)[n]? with
      | none => none
      | some state => some ({ s with state := state, poisoned := true }, { t with pc := .leaving M.panicked })
    | none =>
      match M.advance s.state k with
      | (state, .done o) => some ({ s with state := state }, { t with pc := .leaving o })
      | (state, .go k') => some ({ s with state := state }, { t with pc := .inside k' })
  | .leaving o => some ({ s with locked := false }, { t with pc := .finished o })
  | .finished _ => none

end Task

def start (s : σ) : Config (Shared σ) (Task ι κ ω) := ⟨⟨s, false, false⟩, []⟩

def step (M : Object σ ι κ ω) (c : Config (Shared σ) (Task ι κ ω)) : Event ι → Option (Config (Shared σ) (Task ι κ ω))
  | .act i panics => act (Task.step M panics) c i
  | .call input => some (spawn c ⟨input, .called⟩)

section

variable {M : Object σ ι κ ω} {c c' : Config (Shared σ) (Task ι κ ω)} {s s' : Shared σ} {t t' : Task ι κ ω}
  {panics : Option Nat} {e : Event ι} {events : List (Event ι)}

/-- What a task can do. -/
theorem task_step_cases (h : Task.step M panics s t = some (s', t')) :
    t'.input = t.input ∧
    ((∃ o, t.pc = .called ∧ M.prepare t.input = .done o ∧ s' = s ∧ t'.pc = .finished o) ∨
    (∃ k, t.pc = .called ∧ M.prepare t.input = .go k ∧ s' = s ∧ t'.pc = .waiting k) ∨
    (∃ k, t.pc = .waiting k ∧ s.locked = false ∧ s' = { s with locked := true } ∧
      t'.pc = if s.poisoned then .leaving M.panicked else .inside k) ∨
    (∃ k state, t.pc = .inside k ∧ state ∈ M.crash s.state k ∧
      s' = { s with state := state, poisoned := true } ∧ t'.pc = .leaving M.panicked) ∨
    (∃ k state o, t.pc = .inside k ∧ M.advance s.state k = (state, .done o) ∧ s' = { s with state := state } ∧
      t'.pc = .leaving o) ∨
    (∃ k state k', t.pc = .inside k ∧ M.advance s.state k = (state, .go k') ∧ s' = { s with state := state } ∧
      t'.pc = .inside k') ∨
    (∃ o, t.pc = .leaving o ∧ s' = { s with locked := false } ∧ t'.pc = .finished o)) := by
  unfold Task.step at h
  cases hpc : t.pc with
  | called =>
    rw [hpc] at h
    dsimp only at h
    split at h
    · rename_i o hprepare
      cases h
      exact ⟨rfl, .inl ⟨o, rfl, hprepare, rfl, rfl⟩⟩
    · rename_i k hprepare
      cases h
      exact ⟨rfl, .inr (.inl ⟨k, rfl, hprepare, rfl, rfl⟩)⟩
  | waiting k =>
    rw [hpc] at h
    dsimp only at h
    split at h
    · cases h
    · rename_i hlocked
      cases h
      exact ⟨rfl, .inr (.inr (.inl ⟨k, rfl, by simpa using hlocked, rfl, rfl⟩))⟩
  | inside k =>
    rw [hpc] at h
    dsimp only at h
    split at h
    · split at h
      · cases h
      · rename_i state hcrash
        cases h
        exact ⟨rfl, .inr (.inr (.inr (.inl ⟨k, state, rfl, List.mem_of_getElem? hcrash, rfl, rfl⟩)))⟩
    · split at h
      · rename_i state o hadvance
        cases h
        exact ⟨rfl, .inr (.inr (.inr (.inr (.inl ⟨k, state, o, rfl, hadvance, rfl, rfl⟩))))⟩
      · rename_i state k' hadvance
        cases h
        exact ⟨rfl, .inr (.inr (.inr (.inr (.inr (.inl ⟨k, state, k', rfl, hadvance, rfl, rfl⟩)))))⟩
  | leaving o =>
    rw [hpc] at h
    cases h
    exact ⟨rfl, .inr (.inr (.inr (.inr (.inr (.inr ⟨o, rfl, rfl, rfl⟩)))))⟩
  | finished o =>
    rw [hpc] at h
    cases h

theorem step_cases (h : step M c e = some c') :
    (∃ i panics t s' t', e = .act i panics ∧ c.tasks[i]? = some t ∧ Task.step M panics c.shared t = some (s', t') ∧
      c' = ⟨s', c.tasks.set i t'⟩) ∨
    (∃ input, e = .call input ∧ c' = spawn c ⟨input, .called⟩) := by
  cases e with
  | act i panics =>
    obtain ⟨t, s', t', hi, hs, rfl⟩ := act_eq_some_iff.mp h
    exact .inl ⟨i, panics, t, s', t', rfl, hi, hs, rfl⟩
  | call input =>
    cases h
    exact .inr ⟨input, rfl, rfl⟩

end

/-! ### The operations as single steps -/

/-- The rest of an operation when it is alone. -/
def Object.finish (M : Object σ ι κ ω) : Nat → σ → κ → Option (ω × σ)
  | 0, _, _ => none
  | fuel + 1, s, k =>
    match M.advance s k with
    | (s', .done o) => some (o, s')
    | (s', .go k') => M.finish fuel s' k'

/-- Alone, every operation is one step of `spec`. -/
structure Object.Implements (M : Object σ ι κ ω) (spec : σ → ι → ω × σ) : Prop where
  prepare : ∀ {i o}, M.prepare i = .done o → ∀ s, spec s i = (o, s)
  finish : ∀ {i k}, M.prepare i = .go k → ∀ s, M.finish (M.rank k + 1) s k = some (spec s i)

section

variable (M : Object σ ι κ ω) (spec : σ → ι → ω × σ) (s₀ : σ)

/-- The log has, for each operation in it, the number of its task, its input and its outcome. -/
def inputs (log : List (Nat × ι × ω)) : List ι := log.map fun entry => entry.2.1

/-- The state after the operations of the log, one after the other. -/
def after (log : List (Nat × ι × ω)) : σ := (Trace.run spec s₀ (inputs log)).2

/-- The log is a sequential run of operations that have come to an end, each of them once. -/
structure History (tasks : List (Task ι κ ω)) (log : List (Nat × ι × ω)) : Prop where
  nodup : (log.map Prod.fst).Nodup
  sequential : (Trace.run spec s₀ (inputs log)).1 = log.map Prod.snd
  entry : ∀ entry ∈ log, ∃ t, tasks[entry.1]? = some t ∧ t.input = entry.2.1 ∧ t.outcome = some entry.2.2

/-- The log accounts for the configuration.  It has all operations that have come to an end, but for those that have
panicked under the lock, which poisons it, or at the poisoned lock; of those it has none.  While the lock is not
poisoned and nobody is under it, the state is that after the log. -/
structure Linearized (c : Config (Shared σ) (Task ι κ ω)) (log : List (Nat × ι × ω)) : Prop where
  history : History spec s₀ c.tasks log
  covers : ∀ n t o, c.tasks[n]? = some t → t.outcome = some o →
    (n, t.input, o) ∈ log ∨ (c.shared.poisoned = true ∧ o = M.panicked)
  excludes : ∀ entry ∈ log, entry.2.2 = M.panicked → M.prepare entry.2.1 = .done M.panicked
  state : c.shared.poisoned = false → (∀ t ∈ c.tasks, ¬ t.Inside) → c.shared.state = after spec s₀ log

/-- Only one task at a time has the lock, and the one under it goes on to what `spec` says. -/
structure Inv (c : Config (Shared σ) (Task ι κ ω)) (log : List (Nat × ι × ω)) : Prop where
  linearized : Linearized M spec s₀ c log
  exclusive : total Task.holding c.tasks = c.shared.locked.toNat
  waiting : ∀ t ∈ c.tasks, ∀ k, t.pc = .waiting k → M.prepare t.input = .go k
  inside : ∀ t ∈ c.tasks, ∀ k, t.pc = .inside k → c.shared.poisoned = false ∧
    ∃ fuel, M.rank k < fuel ∧ M.finish fuel c.shared.state k = some (spec (after spec s₀ log) t.input)

end

section

variable {M : Object σ ι κ ω} {spec : σ → ι → ω × σ} {s₀ : σ} {c c' : Config (Shared σ) (Task ι κ ω)}
  {tasks : List (Task ι κ ω)} {log : List (Nat × ι × ω)} {t t' : Task ι κ ω} {i : Nat} {o : ω}
  {e : Event ι} {events : List (Event ι)}

theorem inputs_concat : inputs (log ++ [(i, t.input, o)]) = inputs log ++ [t.input] := by
  simp [inputs]

theorem after_concat : after spec s₀ (log ++ [(i, t.input, o)]) = (spec (after spec s₀ log) t.input).2 := by
  rw [after, inputs_concat, Trace.run_concat]
  rfl

/-- A task whose outcome stays, if it has one. -/
private theorem History.set (h : History spec s₀ tasks log) (hi : tasks[i]? = some t) (hinput : t'.input = t.input)
    (houtcome : ∀ o, t.outcome = some o → t'.outcome = some o) : History spec s₀ (tasks.set i t') log where
  nodup := h.nodup
  sequential := h.sequential
  entry := by
    rintro ⟨n, input, o⟩ hentry
    obtain ⟨u, hu, hin, hout⟩ := h.entry _ hentry
    dsimp only at hu hin hout ⊢
    by_cases hn : i = n
    · subst hn
      rw [hi] at hu
      cases hu
      have hlt : i < tasks.length := (List.getElem?_eq_some_iff.mp hi).1
      exact ⟨t', List.getElem?_set_self hlt, hinput.trans hin, houtcome o hout⟩
    · exact ⟨u, by rwa [List.getElem?_set_ne hn], hin, hout⟩

/-- A task that comes to the outcome which the sequential object gives. -/
private theorem History.set_concat (h : History spec s₀ tasks log) (hi : tasks[i]? = some t)
    (hinput : t'.input = t.input) (hbefore : t.outcome = none) (hafter : t'.outcome = some o)
    (hspec : (spec (after spec s₀ log) t.input).1 = o) :
    History spec s₀ (tasks.set i t') (log ++ [(i, t.input, o)]) := by
  have hlt : i < tasks.length := (List.getElem?_eq_some_iff.mp hi).1
  have hnew : ∀ entry ∈ log, entry.1 ≠ i := by
    rintro entry hentry rfl
    obtain ⟨u, hu, -, hout⟩ := h.entry entry hentry
    rw [hi] at hu
    cases hu
    rw [hbefore] at hout
    cases hout
  refine ⟨?_, ?_, ?_⟩
  · rw [List.map_append, List.map_singleton, List.nodup_append]
    refine ⟨h.nodup, by simp, ?_⟩
    intro n hn m hm hnm
    obtain ⟨entry, hentry, rfl⟩ := List.mem_map.mp hn
    exact hnew entry hentry (hnm.trans (List.mem_singleton.mp hm))
  · rw [inputs_concat, Trace.run_concat, h.sequential, List.map_append, List.map_singleton]
    rw [show (spec (Trace.run spec s₀ (inputs log)).2 t.input).1 = o from hspec]
  · intro entry hentry
    rcases List.mem_append.mp hentry with hentry | hentry
    · obtain ⟨u, hu, hin, hout⟩ := h.entry entry hentry
      exact ⟨u, by rwa [List.getElem?_set_ne (hnew entry hentry).symm], hin, hout⟩
    · rw [List.mem_singleton.mp hentry]
      exact ⟨t', List.getElem?_set_self hlt, hinput, hafter⟩

/-- The accounts are in order again when that of the task which has acted is. -/
private theorem covers_set {poisoned poisoned' : Bool} {log' : List (Nat × ι × ω)}
    (h : ∀ n t o, tasks[n]? = some t → t.outcome = some o → (n, t.input, o) ∈ log ∨ (poisoned = true ∧ o = M.panicked))
    (hi : tasks[i]? = some t) (hlog : ∀ entry ∈ log, entry ∈ log') (hpoisoned : poisoned = true → poisoned' = true)
    (ht' : ∀ o, t'.outcome = some o → (i, t'.input, o) ∈ log' ∨ (poisoned' = true ∧ o = M.panicked)) :
    ∀ n u o, (tasks.set i t')[n]? = some u → u.outcome = some o →
      (n, u.input, o) ∈ log' ∨ (poisoned' = true ∧ o = M.panicked) := by
  intro n u o hu ho
  by_cases hn : i = n
  · subst hn
    have hlt : i < tasks.length := (List.getElem?_eq_some_iff.mp hi).1
    rw [List.getElem?_set_self hlt] at hu
    cases hu
    exact ht' o ho
  · rw [List.getElem?_set_ne hn] at hu
    rcases h n u o hu ho with hmem | ⟨hp, ho⟩
    · exact .inl (hlog _ hmem)
    · exact .inr ⟨hpoisoned hp, ho⟩

theorem inv_start (s₀ : σ) : Inv M spec s₀ (start s₀) [] where
  linearized :=
    { history := ⟨List.nodup_nil, rfl, nofun⟩
      covers := by
        intro n t o ht
        simp [start] at ht
      excludes := nofun
      state := fun _ _ => rfl }
  exclusive := rfl
  waiting := nofun
  inside := nofun

private theorem holding_le (t : Task ι κ ω) : t.holding ≤ 1 := by
  unfold Task.holding
  split <;> omega

/-- Who has the lock has it alone. -/
private theorem Inv.alone (h : Inv M spec s₀ c log) (hi : c.tasks[i]? = some t) (hholding : t.holding = 1)
    (t' : Task ι κ ω) : c.shared.locked = true ∧ ∀ u ∈ c.tasks.set i t', u.Inside → u = t' := by
  have hle : t.holding ≤ total Task.holding c.tasks := le_total (List.mem_of_getElem? hi)
  have hmax : c.shared.locked.toNat ≤ 1 := Bool.toNat_le _
  have hexclusive := h.exclusive
  refine ⟨?_, ?_⟩
  · cases hlocked : c.shared.locked with
    | true => rfl
    | false =>
      simp only [hlocked, Bool.toNat_false] at hexclusive
      omega
  · rintro u hu ⟨k, hk⟩
    rcases eq_or_zero_of_total_le (w := Task.holding) hi (by omega) t' u hu with rfl | hzero
    · rfl
    · simp [Task.holding, hk] at hzero

/-- Nobody has a free lock. -/
private theorem Inv.nobody (h : Inv M spec s₀ c log) (hfree : c.shared.locked = false) : ∀ u ∈ c.tasks, ¬ u.Inside := by
  rintro u hu ⟨k, hk⟩
  have hzero : total Task.holding c.tasks = 0 := by rw [h.exclusive, hfree, Bool.toNat_false]
  have := total_eq_zero_iff.mp hzero u hu
  simp [Task.holding, hk] at this

private theorem inv_spawn (h : Inv M spec s₀ c log) (input : ι) : Inv M spec s₀ (spawn c ⟨input, .called⟩) log := by
  have hnew : ∀ u ∈ c.tasks ++ [(⟨input, .called⟩ : Task ι κ ω)], u ∈ c.tasks ∨ u.pc = .called := by
    intro u hu
    rcases List.mem_append.mp hu with hu | hu
    · exact .inl hu
    · rw [List.mem_singleton.mp hu]
      exact .inr rfl
  refine ⟨⟨⟨h.linearized.history.nodup, h.linearized.history.sequential, ?_⟩, ?_, h.linearized.excludes, ?_⟩,
    ?_, ?_, ?_⟩
  · intro entry hentry
    obtain ⟨t, ht, hin, hout⟩ := h.linearized.history.entry entry hentry
    have hlt := (List.getElem?_eq_some_iff.mp ht).1
    exact ⟨t, by rwa [spawn, List.getElem?_append_left hlt], hin, hout⟩
  · intro n t o ht ho
    by_cases hn : n < c.tasks.length
    · rw [spawn, List.getElem?_append_left hn] at ht
      exact h.linearized.covers n t o ht ho
    · rw [spawn, List.getElem?_append_right (by omega)] at ht
      rw [List.mem_singleton.mp (List.mem_of_getElem? ht)] at ho
      cases ho
  · intro hp hinside
    exact h.linearized.state hp fun t ht => hinside t (List.mem_append_left _ ht)
  · simp only [spawn, total_append, total_cons, total_nil, h.exclusive]
    rfl
  · intro t ht k hk
    rcases hnew t ht with hmem | hpc
    · exact h.waiting t hmem k hk
    · rw [hk] at hpc
      cases hpc
  · intro t ht k hk
    rcases hnew t ht with hmem | hpc
    · exact h.inside t hmem k hk
    · rw [hk] at hpc
      cases hpc

/-- How an operation that acts keeps the accounts, by what it changes. -/
private theorem Inv.act (h : Inv M spec s₀ c log) (hi : c.tasks[i]? = some t) {shared : Shared σ}
    {log' : List (Nat × ι × ω)} (hhistory : History spec s₀ (c.tasks.set i t') log')
    (hlog : ∀ entry ∈ log, entry ∈ log') (hpoisoned : c.shared.poisoned = true → shared.poisoned = true)
    (hcovers : ∀ o, t'.outcome = some o → (i, t'.input, o) ∈ log' ∨ (shared.poisoned = true ∧ o = M.panicked))
    (hexcludes : ∀ entry ∈ log', entry.2.2 = M.panicked → M.prepare entry.2.1 = .done M.panicked)
    (hstate : shared.poisoned = false → (∀ u ∈ c.tasks.set i t', ¬ u.Inside) → shared.state = after spec s₀ log')
    (hholding : t'.holding + c.shared.locked.toNat = t.holding + shared.locked.toNat)
    (hwaiting : ∀ k, t'.pc = .waiting k → M.prepare t'.input = .go k)
    (hinside : ∀ u ∈ c.tasks.set i t', ∀ k, u.pc = .inside k → shared.poisoned = false ∧
      ∃ fuel, M.rank k < fuel ∧ M.finish fuel shared.state k = some (spec (after spec s₀ log') u.input)) :
    Inv M spec s₀ ⟨shared, c.tasks.set i t'⟩ log' where
  linearized := ⟨hhistory, covers_set h.linearized.covers hi hlog hpoisoned hcovers, hexcludes, hstate⟩
  exclusive := by
    have hset := total_set (w := Task.holding) hi t'
    have hle : t.holding ≤ total Task.holding c.tasks := le_total (List.mem_of_getElem? hi)
    have hexclusive := h.exclusive
    dsimp only
    omega
  waiting := forall_mem_set h.waiting hwaiting i
  inside := hinside

private theorem excludes_concat (h : ∀ entry ∈ log, entry.2.2 = M.panicked → M.prepare entry.2.1 = .done M.panicked)
    (hnew : o = M.panicked → M.prepare t.input = .done M.panicked) :
    ∀ entry ∈ log ++ [(i, t.input, o)], entry.2.2 = M.panicked → M.prepare entry.2.1 = .done M.panicked := by
  intro entry hentry
  rcases List.mem_append.mp hentry with hentry | hentry
  · exact h entry hentry
  · rw [List.mem_singleton.mp hentry]
    exact hnew

/-- Nobody is under the lock when nobody is after a task that was not there has acted. -/
private theorem nobody_of_set (hi : tasks[i]? = some t) (ht : ¬ t.Inside) (h : ∀ u ∈ tasks.set i t', ¬ u.Inside) :
    ∀ u ∈ tasks, ¬ u.Inside := by
  intro u hu
  obtain ⟨n, hn⟩ := List.getElem?_of_mem hu
  by_cases hin : i = n
  · subst hin
    rw [hi] at hn
    cases hn
    exact ht
  · refine h u (List.mem_of_getElem? (i := n) ?_)
    rwa [List.getElem?_set_ne hin]

/-- The task is refused before the lock, and the state is not looked at. -/
private theorem inv_refused (A : M.Implements spec) (h : Inv M spec s₀ c log) (hi : c.tasks[i]? = some t)
    (hinput : t'.input = t.input) (hpc : t.pc = .called) (hprepare : M.prepare t.input = .done o)
    (hpc' : t'.pc = .finished o) : Inv M spec s₀ ⟨c.shared, c.tasks.set i t'⟩ (log ++ [(i, t.input, o)]) := by
  have hspec := A.prepare hprepare (after spec s₀ log)
  have hafter : after spec s₀ (log ++ [(i, t.input, o)]) = after spec s₀ log := by rw [after_concat, hspec]
  refine h.act hi (h.linearized.history.set_concat hi hinput ?_ ?_ ?_) (fun _ => List.mem_append_left _) id ?_
    (excludes_concat h.linearized.excludes fun ho => ho ▸ hprepare) ?_ ?_ ?_ ?_
  · simp [Task.outcome, hpc]
  · simp [Task.outcome, hpc']
  · rw [hspec]
  · intro o' ho'
    simp only [Task.outcome, hpc', Option.some.injEq] at ho'
    subst ho'
    exact .inl (List.mem_append_right _ (by rw [hinput]; exact List.mem_singleton_self _))
  · intro hp hnobody
    rw [hafter]
    exact h.linearized.state hp (nobody_of_set hi (by simp [Task.Inside, hpc]) hnobody)
  · simp [Task.holding, hpc, hpc']
  · simp [hpc']
  · rw [hafter]
    exact forall_mem_set h.inside (by simp [hpc']) i

/-- The task takes the free lock. -/
private theorem inv_taken (A : M.Implements spec) (h : Inv M spec s₀ c log) (hi : c.tasks[i]? = some t) {k : κ}
    (hinput : t'.input = t.input) (hpc : t.pc = .waiting k) (hfree : c.shared.locked = false)
    (hpc' : t'.pc = if c.shared.poisoned then .leaving M.panicked else .inside k) :
    Inv M spec s₀ ⟨{ c.shared with locked := true }, c.tasks.set i t'⟩ log := by
  have hnobody := h.nobody hfree
  have hbefore : t.outcome = none := by simp [Task.outcome, hpc]
  refine h.act hi (h.linearized.history.set hi hinput (by simp [hbefore])) (fun _ => id) id ?_ h.linearized.excludes
    ?_ ?_ ?_ ?_
  · intro o ho
    cases hp : c.shared.poisoned with
    | true =>
      simp only [Task.outcome, hpc', hp, ↓reduceIte, Option.some.injEq] at ho
      exact .inr ⟨rfl, ho.symm⟩
    | false => simp [Task.outcome, hpc', hp] at ho
  · exact fun hp _ => h.linearized.state hp hnobody
  · cases hp : c.shared.poisoned <;> simp [Task.holding, hpc, hpc', hp, hfree]
  · cases hp : c.shared.poisoned <;> simp [hpc', hp]
  · refine forall_mem_set (fun u hu k' hk' => absurd ⟨k', hk'⟩ (hnobody u hu)) ?_ i
    intro k' hk'
    cases hp : c.shared.poisoned with
    | true => simp [hpc', hp] at hk'
    | false =>
      simp only [hpc', hp, Bool.false_eq_true, ↓reduceIte, Pc.inside.injEq] at hk'
      subst hk'
      refine ⟨rfl, M.rank k + 1, Nat.lt_succ_self _, ?_⟩
      rw [hinput, ← h.linearized.state hp hnobody]
      exact A.finish (h.waiting t (List.mem_of_getElem? hi) k hpc) c.shared.state

/-- The task panics under the lock. -/
private theorem inv_crashed (h : Inv M spec s₀ c log) (hi : c.tasks[i]? = some t) {k : κ} {state : σ}
    (hinput : t'.input = t.input) (hpc : t.pc = .inside k) (hpc' : t'.pc = .leaving M.panicked) :
    Inv M spec s₀ ⟨{ c.shared with state := state, poisoned := true }, c.tasks.set i t'⟩ log := by
  have hbefore : t.outcome = none := by simp [Task.outcome, hpc]
  obtain ⟨-, halone⟩ := h.alone hi (by simp [Task.holding, hpc]) t'
  refine h.act hi (h.linearized.history.set hi hinput (by simp [hbefore])) (fun _ => id) (fun _ => rfl) ?_
    h.linearized.excludes nofun ?_ ?_ ?_
  · intro o ho
    simp only [Task.outcome, hpc', Option.some.injEq] at ho
    exact .inr ⟨rfl, ho.symm⟩
  · simp [Task.holding, hpc, hpc']
  · simp [hpc']
  · intro u hu k' hk'
    rw [halone u hu ⟨k', hk'⟩, hpc'] at hk'
    cases hk'

/-- The task ends under the lock: now it has had its effect. -/
private theorem inv_ended (h : Inv M spec s₀ c log) (hi : c.tasks[i]? = some t) {k : κ} {state : σ}
    (hinput : t'.input = t.input) (hpc : t.pc = .inside k) (hadvance : M.advance c.shared.state k = (state, .done o))
    (hpc' : t'.pc = .leaving o) :
    Inv M spec s₀ ⟨{ c.shared with state := state }, c.tasks.set i t'⟩ (log ++ [(i, t.input, o)]) := by
  obtain ⟨-, halone⟩ := h.alone hi (by simp [Task.holding, hpc]) t'
  obtain ⟨-, fuel, hfuel, hfinish⟩ := h.inside t (List.mem_of_getElem? hi) k hpc
  have hspec : spec (after spec s₀ log) t.input = (o, state) := by
    cases fuel with
    | zero => omega
    | succ fuel =>
      rw [Object.finish, hadvance] at hfinish
      exact (Option.some.inj hfinish).symm
  refine h.act hi (h.linearized.history.set_concat hi hinput ?_ ?_ ?_) (fun _ => List.mem_append_left _) id ?_
    (excludes_concat h.linearized.excludes fun ho => absurd ho (M.done_ne hadvance)) ?_ ?_ ?_ ?_
  · simp [Task.outcome, hpc]
  · simp [Task.outcome, hpc']
  · rw [hspec]
  · intro o' ho'
    simp only [Task.outcome, hpc', Option.some.injEq] at ho'
    subst ho'
    exact .inl (List.mem_append_right _ (by rw [hinput]; exact List.mem_singleton_self _))
  · intro _ _
    rw [after_concat, hspec]
  · simp [Task.holding, hpc, hpc']
  · simp [hpc']
  · intro u hu k' hk'
    rw [halone u hu ⟨k', hk'⟩, hpc'] at hk'
    cases hk'

/-- The task goes on under the lock. -/
private theorem inv_advanced (h : Inv M spec s₀ c log) (hi : c.tasks[i]? = some t) {k k' : κ} {state : σ}
    (hinput : t'.input = t.input) (hpc : t.pc = .inside k) (hadvance : M.advance c.shared.state k = (state, .go k'))
    (hpc' : t'.pc = .inside k') : Inv M spec s₀ ⟨{ c.shared with state := state }, c.tasks.set i t'⟩ log := by
  obtain ⟨-, halone⟩ := h.alone hi (by simp [Task.holding, hpc]) t'
  obtain ⟨hpoisoned, fuel, hfuel, hfinish⟩ := h.inside t (List.mem_of_getElem? hi) k hpc
  have hbefore : t.outcome = none := by simp [Task.outcome, hpc]
  have hlt : i < c.tasks.length := (List.getElem?_eq_some_iff.mp hi).1
  refine h.act hi (h.linearized.history.set hi hinput (by simp [hbefore])) (fun _ => id) id ?_ h.linearized.excludes
    ?_ ?_ ?_ ?_
  · simp [Task.outcome, hpc']
  · exact fun _ hnobody => absurd ⟨k', hpc'⟩ (hnobody t' (List.mem_set hlt t'))
  · simp [Task.holding, hpc, hpc']
  · simp [hpc']
  · intro u hu k'' hk''
    have hu' := halone u hu ⟨k'', hk''⟩
    subst hu'
    rw [hpc'] at hk''
    cases hk''
    refine ⟨hpoisoned, ?_⟩
    have hrank := M.rank_lt hadvance
    cases fuel with
    | zero => omega
    | succ fuel =>
      rw [Object.finish, hadvance] at hfinish
      exact ⟨fuel, by omega, by rw [hinput]; exact hfinish⟩

/-- A step that neither takes the lock nor works under it. -/
private theorem inv_quiet (h : Inv M spec s₀ c log) (hi : c.tasks[i]? = some t) {locked : Bool}
    (hinput : t'.input = t.input) (houtcome : t'.outcome = t.outcome) (ht : ¬ t.Inside) (ht' : ¬ t'.Inside)
    (hholding : t'.holding + c.shared.locked.toNat = t.holding + locked.toNat)
    (hwaiting : ∀ k, t'.pc = .waiting k → M.prepare t.input = .go k) :
    Inv M spec s₀ ⟨{ c.shared with locked := locked }, c.tasks.set i t'⟩ log := by
  refine h.act hi (h.linearized.history.set hi hinput (by simp [houtcome])) (fun _ => id) id ?_ h.linearized.excludes
    ?_ hholding ?_ ?_
  · intro o ho
    rw [hinput]
    exact h.linearized.covers i t o hi (houtcome.symm.trans ho)
  · exact fun hp hnobody => h.linearized.state hp (nobody_of_set hi ht hnobody)
  · rw [hinput]
    exact hwaiting
  · exact forall_mem_set h.inside (fun k hk => absurd ⟨k, hk⟩ ht') i

/-- Every step keeps the accounts, and adds to the log at most at its end. -/
theorem step_inv (A : M.Implements spec) (h : Inv M spec s₀ c log) (hstep : step M c e = some c') :
    ∃ more, Inv M spec s₀ c' (log ++ more) := by
  rcases step_cases hstep with ⟨i, panics, t, s', t', -, hi, hs, rfl⟩ | ⟨input, -, rfl⟩
  · obtain ⟨hinput, hcases⟩ := task_step_cases hs
    have ht := List.mem_of_getElem? hi
    rcases hcases with ⟨o, hpc, hprepare, rfl, hpc'⟩ | ⟨k, hpc, hprepare, rfl, hpc'⟩ |
      ⟨k, hpc, hfree, rfl, hpc'⟩ | ⟨k, state, hpc, hcrash, rfl, hpc'⟩ | ⟨k, state, o, hpc, hadvance, rfl, hpc'⟩ |
      ⟨k, state, k', hpc, hadvance, rfl, hpc'⟩ | ⟨o, hpc, rfl, hpc'⟩
    · exact ⟨_, inv_refused A h hi hinput hpc hprepare hpc'⟩
    · refine ⟨[], ?_⟩
      rw [List.append_nil]
      refine inv_quiet h hi hinput ?_ ?_ ?_ ?_ ?_
      · simp [Task.outcome, hpc, hpc']
      · simp [Task.Inside, hpc]
      · simp [Task.Inside, hpc']
      · simp [Task.holding, hpc, hpc']
      · simp [hpc', hprepare]
    · exact ⟨[], by rw [List.append_nil]; exact inv_taken A h hi hinput hpc hfree hpc'⟩
    · exact ⟨[], by rw [List.append_nil]; exact inv_crashed h hi hinput hpc hpc'⟩
    · exact ⟨_, inv_ended h hi hinput hpc hadvance hpc'⟩
    · exact ⟨[], by rw [List.append_nil]; exact inv_advanced h hi hinput hpc hadvance hpc'⟩
    · refine ⟨[], ?_⟩
      rw [List.append_nil]
      have hlocked := (h.alone hi (by simp [Task.holding, hpc]) t').1
      refine inv_quiet h hi hinput ?_ ?_ ?_ ?_ ?_
      · simp [Task.outcome, hpc, hpc']
      · simp [Task.Inside, hpc]
      · simp [Task.Inside, hpc']
      · simp [Task.holding, hpc, hpc', hlocked]
      · simp [hpc']
  · exact ⟨[], by rw [List.append_nil]; exact inv_spawn h input⟩

/-- Over a run the log only grows at its end: an operation that is called when another has come to an end is behind
it. -/
theorem run_inv (A : M.Implements spec) (h : Inv M spec s₀ c log) (hrun : run (step M) c events = some c') :
    ∃ more, Inv M spec s₀ c' (log ++ more) := by
  induction events generalizing c log with
  | nil =>
    cases hrun
    exact ⟨[], by rwa [List.append_nil]⟩
  | cons e events ih =>
    obtain ⟨c₁, hstep, hrun⟩ := run_cons_eq_some_iff.mp hrun
    obtain ⟨first, h₁⟩ := step_inv A h hstep
    obtain ⟨rest, h'⟩ := ih h₁ hrun
    exact ⟨first ++ rest, by rwa [← List.append_assoc]⟩

theorem inv_run (A : M.Implements spec) (hrun : run (step M) (start s₀) events = some c) :
    ∃ log, Inv M spec s₀ c log := run_inv A (inv_start s₀) hrun

/-- At every moment of every run the operations have a sequential log, which goes on as the run does. -/
theorem run_linearized (A : M.Implements spec) (hrun : run (step M) (start s₀) events = some c) {later : List (Event ι)}
    (hlater : run (step M) c later = some c') :
    ∃ log more, Linearized M spec s₀ c log ∧ Linearized M spec s₀ c' (log ++ more) := by
  obtain ⟨log, h⟩ := inv_run A hrun
  obtain ⟨more, h'⟩ := run_inv A h hlater
  exact ⟨log, more, h.linearized, h'.linearized⟩

/-! ### Under the lock -/

/-- What holds of the state, and of a task under the lock with it, and is kept by every step there. -/
structure Kept (M : Object σ ι κ ω) (P : σ → Prop) (Q : σ → κ → Prop) : Prop where
  enter : ∀ {i k s}, M.prepare i = .go k → P s → Q s k
  go : ∀ {s k s' k'}, P s → Q s k → M.advance s k = (s', .go k') → P s' ∧ Q s' k'
  done : ∀ {s k s' o}, P s → Q s k → M.advance s k = (s', .done o) → P s'
  crash : ∀ {s k s'}, P s → Q s k → s' ∈ M.crash s k → P s'

/-- What is kept holds at every moment of every run: nobody else changes the state under a task that has the lock. -/
theorem run_kept (A : M.Implements spec) {P : σ → Prop} {Q : σ → κ → Prop} (K : Kept M P Q) (hs : P s₀)
    (hrun : run (step M) (start s₀) events = some c) :
    P c.shared.state ∧ ∀ t ∈ c.tasks, ∀ k, t.pc = .inside k → Q c.shared.state k := by
  have hall : (∃ log, Inv M spec s₀ c log) ∧ P c.shared.state ∧
      ∀ t ∈ c.tasks, ∀ k, t.pc = .inside k → Q c.shared.state k := by
    refine run_invariant (?_ : ∀ c e c', ((∃ log, Inv M spec s₀ c log) ∧ P c.shared.state ∧
      ∀ t ∈ c.tasks, ∀ k, t.pc = .inside k → Q c.shared.state k) → step M c e = some c' →
        (∃ log, Inv M spec s₀ c' log) ∧ P c'.shared.state ∧
          ∀ t ∈ c'.tasks, ∀ k, t.pc = .inside k → Q c'.shared.state k) ⟨⟨[], inv_start s₀⟩, hs, nofun⟩ hrun
    rintro c e c' ⟨⟨log, h⟩, hP, hQ⟩ hstep
    obtain ⟨more, h'⟩ := step_inv A h hstep
    refine ⟨⟨_, h'⟩, ?_⟩
    rcases step_cases hstep with ⟨i, panics, t, s', t', -, hi, hs, rfl⟩ | ⟨input, -, rfl⟩
    · obtain ⟨-, hcases⟩ := task_step_cases hs
      have ht := List.mem_of_getElem? hi
      rcases hcases with ⟨o, hpc, -, rfl, hpc'⟩ | ⟨k, hpc, -, rfl, hpc'⟩ | ⟨k, hpc, -, rfl, hpc'⟩ |
        ⟨k, state, hpc, hcrash, rfl, hpc'⟩ | ⟨k, state, o, hpc, hadvance, rfl, hpc'⟩ |
        ⟨k, state, k', hpc, hadvance, rfl, hpc'⟩ | ⟨o, hpc, rfl, hpc'⟩
      · exact ⟨hP, forall_mem_set hQ (by simp [hpc']) i⟩
      · exact ⟨hP, forall_mem_set hQ (by simp [hpc']) i⟩
      · refine ⟨hP, forall_mem_set hQ ?_ i⟩
        intro k' hk'
        have hprepare := h.waiting t ht k hpc
        split at hpc'
        · rw [hpc'] at hk'
          cases hk'
        · rw [hpc'] at hk'
          cases hk'
          exact K.enter hprepare hP
      · obtain ⟨-, halone⟩ := h.alone hi (by simp [Task.holding, hpc]) t'
        refine ⟨K.crash hP (hQ t ht k hpc) hcrash, fun u hu k' hk' => ?_⟩
        rw [halone u hu ⟨k', hk'⟩, hpc'] at hk'
        cases hk'
      · obtain ⟨-, halone⟩ := h.alone hi (by simp [Task.holding, hpc]) t'
        refine ⟨K.done hP (hQ t ht k hpc) hadvance, fun u hu k' hk' => ?_⟩
        rw [halone u hu ⟨k', hk'⟩, hpc'] at hk'
        cases hk'
      · obtain ⟨-, halone⟩ := h.alone hi (by simp [Task.holding, hpc]) t'
        obtain ⟨hP', hQ'⟩ := K.go hP (hQ t ht k hpc) hadvance
        refine ⟨hP', fun u hu k'' hk'' => ?_⟩
        rw [halone u hu ⟨k'', hk''⟩, hpc'] at hk''
        cases hk''
        exact hQ'
      · exact ⟨hP, forall_mem_set hQ (by simp [hpc']) i⟩
    · refine ⟨hP, fun t ht k hk => ?_⟩
      rcases List.mem_append.mp ht with ht | ht
      · exact hQ t ht k hk
      · rw [List.mem_singleton.mp ht] at hk
        cases hk
  exact hall.2

/-! ### Schedules -/

/-- A bound of the steps that are left of a task. -/
def Task.rank (M : Object σ ι κ ω) (t : Task ι κ ω) : Nat :=
  match t.pc with
  | .called =>
    match M.prepare t.input with
    | .done _ => 1
    | .go k => M.rank k + 5
  | .waiting k => M.rank k + 4
  | .inside k => M.rank k + 3
  | .leaving _ => 1
  | .finished _ => 0

theorem Task.rank_le {b : Nat} (h : ∀ k, M.rank k ≤ b) (t : Task ι κ ω) : t.rank M ≤ b + 5 := by
  unfold Task.rank
  split
  · split
    · omega
    · rename_i k _
      have := h k
      omega
  · rename_i k _
    have := h k
    omega
  · rename_i k _
    have := h k
    omega
  · omega
  · omega

private theorem task_rank_lt {s s' : Shared σ} {panics : Option Nat} (h : Task.step M panics s t = some (s', t')) :
    t'.rank M < t.rank M := by
  obtain ⟨-, ⟨o, hpc, hprepare, -, hpc'⟩ | ⟨k, hpc, hprepare, -, hpc'⟩ | ⟨k, hpc, -, -, hpc'⟩ |
    ⟨k, state, hpc, -, -, hpc'⟩ | ⟨k, state, o, hpc, -, -, hpc'⟩ | ⟨k, state, k', hpc, hadvance, -, hpc'⟩ |
    ⟨o, hpc, -, hpc'⟩⟩ := task_step_cases h
  · simp [Task.rank, hpc, hpc', hprepare]
  · simp [Task.rank, hpc, hpc', hprepare]
  · cases hp : s.poisoned <;> simp [Task.rank, hpc, hpc', hp]
  · simp [Task.rank, hpc, hpc']
  · simp [Task.rank, hpc, hpc']
  · have := M.rank_lt hadvance
    simpa [Task.rank, hpc, hpc'] using this
  · simp [Task.rank, hpc, hpc']

/-- No schedule of the calls that have been made is endless. -/
theorem acts_bounded {acts : List (Nat × Option Nat)}
    (h : run (step M) c (acts.map fun a => .act a.1 a.2) = some c') :
    acts.length + total (Task.rank M) c'.tasks ≤ total (Task.rank M) c.tasks := by
  induction acts generalizing c with
  | nil =>
    cases h
    simp
  | cons a acts ih =>
    obtain ⟨c₁, hstep, h⟩ := run_cons_eq_some_iff.mp h
    obtain ⟨t, s', t', hi, hs, rfl⟩ := act_eq_some_iff.mp hstep
    have hrest := ih h
    have hset := total_set (w := Task.rank M) hi t'
    have hlt := task_rank_lt hs
    dsimp only at hrest
    simp only [List.length_cons]
    omega

private theorem task_can_step {s : Shared σ} (hnot : ¬ t.Finished) (hfree : t.holding = 1 ∨ s.locked = false) :
    ∃ s' t', Task.step M none s t = some (s', t') := by
  unfold Task.step
  cases hpc : t.pc with
  | called =>
    dsimp only
    split
    · exact ⟨_, _, rfl⟩
    · exact ⟨_, _, rfl⟩
  | waiting k =>
    have hlocked : s.locked = false := hfree.resolve_left (by simp [Task.holding, hpc])
    simp only [hlocked, Bool.false_eq_true, ↓reduceIte]
    exact ⟨_, _, rfl⟩
  | inside k =>
    dsimp only
    split
    · exact ⟨_, _, rfl⟩
    · exact ⟨_, _, rfl⟩
  | leaving o => exact ⟨_, _, rfl⟩
  | finished o => exact absurd ⟨o, hpc⟩ hnot

/-- While an operation has not come to its end some task can go on: who has the lock, or else anyone. -/
theorem can_act (h : Inv M spec s₀ c log) (ht : t ∈ c.tasks) (hnot : ¬ t.Finished) :
    ∃ i c', step M c (.act i none) = some c' := by
  obtain ⟨u, hu, hnot', hfree⟩ :
      ∃ u ∈ c.tasks, ¬ u.Finished ∧ (u.holding = 1 ∨ c.shared.locked = false) := by
    cases hlocked : c.shared.locked with
    | false => exact ⟨t, ht, hnot, .inr rfl⟩
    | true =>
      have hpos : 0 < total Task.holding c.tasks := by simp [h.exclusive, hlocked]
      obtain ⟨u, hu, hholding⟩ := exists_of_total_pos hpos
      have hle := holding_le u
      refine ⟨u, hu, ?_, .inl (by omega)⟩
      rintro ⟨o, hpc⟩
      simp [Task.holding, hpc] at hholding
  obtain ⟨s', t', hs⟩ := task_can_step (M := M) hnot' hfree
  obtain ⟨i, hi⟩ := List.getElem?_of_mem hu
  exact ⟨i, _, act_eq_some_iff.mpr ⟨u, s', t', hi, hs, rfl⟩⟩

/-- However the operations that have been called are scheduled, they come to their ends: no schedule is endless, and one
that cannot go on has finished them all. -/
theorem schedules_end (A : M.Implements spec) (h : Inv M spec s₀ c log) {acts : List (Nat × Option Nat)}
    (hrun : run (step M) c (acts.map fun a => .act a.1 a.2) = some c') :
    acts.length ≤ total (Task.rank M) c.tasks ∧
      ((∀ i, step M c' (.act i none) = none) → ∀ t ∈ c'.tasks, t.Finished) := by
  have hbound := acts_bounded hrun
  obtain ⟨more, h'⟩ := run_inv A h hrun
  refine ⟨by omega, fun hstuck t ht => ?_⟩
  by_cases hdone : t.Finished
  · exact hdone
  · obtain ⟨i, c'', hstep⟩ := can_act h' ht hdone
    rw [hstuck i] at hstep
    cases hstep

/-! ### The poisoned lock -/

/-- An operation that has ended since the lock was poisoned has panicked or was refused before the lock. -/
def Spent (M : Object σ ι κ ω) (c c' : Config (Shared σ) (Task ι κ ω)) : Prop :=
  ∀ (n : Nat) (t : Task ι κ ω) (o : ω), c'.tasks[n]? = some t → t.outcome = some o →
    (∃ u : Task ι κ ω, c.tasks[n]? = some u ∧ u.outcome = some o) ∨ o = M.panicked ∨ M.prepare t.input = .done o

private theorem Spent.set {c₁ : Config (Shared σ) (Task ι κ ω)} {shared : Shared σ} (h : Spent M c c₁)
    (hi : c₁.tasks[i]? = some t) (hinput : t'.input = t.input)
    (houtcome : ∀ o, t'.outcome = some o → t.outcome = some o ∨ o = M.panicked ∨ M.prepare t.input = .done o) :
    Spent M c ⟨shared, c₁.tasks.set i t'⟩ := by
  intro n u o hu ho
  by_cases hn : i = n
  · subst hn
    have hlt : i < c₁.tasks.length := (List.getElem?_eq_some_iff.mp hi).1
    rw [List.getElem?_set_self hlt] at hu
    cases hu
    rw [hinput]
    rcases houtcome o ho with hold | hnew
    · exact h i t o hi hold
    · exact .inr hnew
  · rw [List.getElem?_set_ne hn] at hu
    exact h n u o hu ho

private theorem poisoned_step {c₁ c₂ : Config (Shared σ) (Task ι κ ω)} (h : Inv M spec s₀ c₁ log)
    (hpoisoned : c₁.shared.poisoned = true) (hspent : Spent M c c₁) (hstep : step M c₁ e = some c₂) :
    c₂.shared.poisoned = true ∧ c₂.shared.state = c₁.shared.state ∧ Spent M c c₂ := by
  rcases step_cases hstep with ⟨i, panics, t, s', t', -, hi, hs, rfl⟩ | ⟨input, -, rfl⟩
  · obtain ⟨hinput, hcases⟩ := task_step_cases hs
    have hnot : ∀ k, t.pc ≠ .inside k := by
      intro k hpc
      have := (h.inside t (List.mem_of_getElem? hi) k hpc).1
      rw [hpoisoned] at this
      cases this
    rcases hcases with ⟨o, hpc, hprepare, rfl, hpc'⟩ | ⟨k, hpc, -, rfl, hpc'⟩ | ⟨k, hpc, -, rfl, hpc'⟩ |
      ⟨k, state, hpc, -⟩ | ⟨k, state, o, hpc, -⟩ | ⟨k, state, k', hpc, -⟩ | ⟨o, hpc, rfl, hpc'⟩
    · refine ⟨hpoisoned, rfl, hspent.set hi hinput fun o' ho' => .inr (.inr ?_)⟩
      simp only [Task.outcome, hpc', Option.some.injEq] at ho'
      rw [← ho']
      exact hprepare
    · refine ⟨hpoisoned, rfl, hspent.set hi hinput fun o' ho' => ?_⟩
      simp [Task.outcome, hpc'] at ho'
    · refine ⟨hpoisoned, rfl, hspent.set hi hinput fun o' ho' => .inr (.inl ?_)⟩
      simp only [Task.outcome, hpc', hpoisoned, ↓reduceIte, Option.some.injEq] at ho'
      exact ho'.symm
    · exact absurd hpc (hnot k)
    · exact absurd hpc (hnot k)
    · exact absurd hpc (hnot k)
    · refine ⟨hpoisoned, rfl, hspent.set hi hinput fun o' ho' => .inl ?_⟩
      simpa [Task.outcome, hpc, hpc'] using ho'
  · refine ⟨hpoisoned, rfl, ?_⟩
    intro n t o ht ho
    by_cases hn : n < c₁.tasks.length
    · rw [spawn, List.getElem?_append_left hn] at ht
      exact hspent n t o ht ho
    · rw [spawn, List.getElem?_append_right (by omega)] at ht
      rw [List.mem_singleton.mp (List.mem_of_getElem? ht)] at ho
      cases ho

/-- Once the lock is poisoned nothing happens to the state any more, and no operation gets through. -/
theorem poisoned_run (A : M.Implements spec) (h : Inv M spec s₀ c log) (hpoisoned : c.shared.poisoned = true)
    (hrun : run (step M) c events = some c') :
    c'.shared.poisoned = true ∧ c'.shared.state = c.shared.state ∧ Spent M c c' := by
  have hall : (∃ log, Inv M spec s₀ c' log) ∧ c'.shared.poisoned = true ∧ c'.shared.state = c.shared.state ∧
      Spent M c c' := by
    refine run_invariant (?_ : ∀ s e s', ((∃ log, Inv M spec s₀ s log) ∧ s.shared.poisoned = true ∧
      s.shared.state = c.shared.state ∧ Spent M c s) → step M s e = some s' → (∃ log, Inv M spec s₀ s' log) ∧
        s'.shared.poisoned = true ∧ s'.shared.state = c.shared.state ∧ Spent M c s') ?_ hrun
    · rintro s e s' ⟨⟨log, hinv⟩, hp, hstate, hspent⟩ hstep
      obtain ⟨more, hinv'⟩ := step_inv A hinv hstep
      obtain ⟨hp', hstate', hspent'⟩ := poisoned_step hinv hp hspent hstep
      exact ⟨⟨_, hinv'⟩, hp', hstate'.trans hstate, hspent'⟩
    · exact ⟨⟨log, h⟩, hpoisoned, rfl, fun n t o ht ho => .inl ⟨t, ht, ho⟩⟩
  exact hall.2

end

end Guarded
