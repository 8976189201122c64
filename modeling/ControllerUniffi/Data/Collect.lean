import Mathlib.Data.List.Perm.Basic

/-!
# Collecting fallible results

A list is mapped through a fallible function: all results in order, or the first error.  Success is success at
every element (`mapM_eq_ok_iff`), failure is failure at some element (`exists_mapM_eq_error_iff`), and the results
are reordered with the elements (`mapM_of_perm`).
-/

namespace Collect

variable {α β ε : Type}

/-! ### One result -/

theorem bind_eq_ok_iff {x : Except ε α} {f : α → Except ε β} {b : β} :
    (x >>= f) = .ok b ↔ ∃ a, x = .ok a ∧ f a = .ok b := by
  cases x with
  | error e =>
    constructor
    · intro h
      cases h
    · rintro ⟨a, ha, _⟩
      cases ha
  | ok a =>
    constructor
    · intro h
      exact ⟨a, rfl, h⟩
    · rintro ⟨_, ha, h⟩
      cases ha
      exact h

theorem bind_eq_error_iff {x : Except ε α} {f : α → Except ε β} {e : ε} :
    (x >>= f) = .error e ↔ x = .error e ∨ ∃ a, x = .ok a ∧ f a = .error e := by
  cases x with
  | error d =>
    constructor
    · intro h
      cases h
      exact .inl rfl
    · rintro (h | ⟨a, ha, _⟩)
      · cases h
        rfl
      · cases ha
  | ok a =>
    constructor
    · intro h
      exact .inr ⟨a, rfl, h⟩
    · rintro (h | ⟨_, ha, h⟩)
      · cases h
      · cases ha
        exact h

theorem mapError_eq_ok_iff {δ : Type} {x : Except ε α} {f : ε → δ} {a : α} : x.mapError f = .ok a ↔ x = .ok a := by
  cases x with
  | error e =>
    constructor
    · intro h
      cases h
    · intro h
      cases h
  | ok b =>
    constructor
    · intro h
      cases h
      rfl
    · intro h
      cases h
      rfl

theorem mapError_eq_error_iff {δ : Type} {x : Except ε α} {f : ε → δ} {d : δ} :
    x.mapError f = .error d ↔ ∃ e, x = .error e ∧ d = f e := by
  cases x with
  | error e =>
    constructor
    · intro h
      cases h
      exact ⟨e, rfl, rfl⟩
    · rintro ⟨_, he, rfl⟩
      cases he
      rfl
  | ok a =>
    constructor
    · intro h
      cases h
    · rintro ⟨_, he, _⟩
      cases he

/-- What is known of some success is known of this one. -/
theorem of_eq_ok {x : Except ε α} {a : α} {P : α → Prop} (h : x = .ok a) (hx : ∃ b, x = .ok b ∧ P b) : P a := by
  obtain ⟨b, hb, hP⟩ := hx
  rw [h] at hb
  cases hb
  exact hP

theorem ok_or_error (x : Except ε α) : (∃ a, x = .ok a) ∨ ∃ e, x = .error e := by
  cases x with
  | ok a => exact .inl ⟨a, rfl⟩
  | error e => exact .inr ⟨e, rfl⟩

theorem exists_error_iff {x : Except ε α} : (∃ e, x = .error e) ↔ ¬ ∃ a, x = .ok a := by
  cases x with
  | ok a =>
    constructor
    · rintro ⟨e, he⟩
      cases he
    · intro h
      exact absurd ⟨a, rfl⟩ h
  | error e =>
    constructor
    · rintro _ ⟨a, ha⟩
      cases ha
    · intro _
      exact ⟨e, rfl⟩

/-! ### A list of results -/

/-- The results of a successful collection are those of the elements, in order. -/
theorem mapM_eq_ok_iff {f : α → Except ε β} {l : List α} {ys : List β} :
    l.mapM f = .ok ys ↔ List.Forall₂ (fun a y => f a = .ok y) l ys := by
  induction l generalizing ys with
  | nil =>
    rw [List.mapM_nil, List.forall₂_nil_left_iff]
    constructor
    · intro h
      cases h
      rfl
    · intro h
      subst h
      rfl
  | cons a l ih =>
    rw [List.mapM_cons, List.forall₂_cons_left_iff]
    constructor
    · intro h
      cases ha : f a with
      | error e => rw [ha] at h; cases h
      | ok y =>
        cases hl : l.mapM f with
        | error e => rw [ha, hl] at h; cases h
        | ok zs =>
          rw [ha, hl] at h
          cases h
          exact ⟨y, zs, rfl, ih.1 hl, rfl⟩
    · rintro ⟨y, zs, hy, hzs, rfl⟩
      rw [hy, ih.2 hzs]
      rfl

/-- The error of a failed collection is that of some element. -/
theorem exists_of_mapM_eq_error {f : α → Except ε β} {l : List α} {e : ε} (h : l.mapM f = .error e) :
    ∃ a ∈ l, f a = .error e := by
  induction l with
  | nil => cases h
  | cons a l ih =>
    rw [List.mapM_cons] at h
    cases ha : f a with
    | error d =>
      rw [ha] at h
      cases h
      exact ⟨a, List.mem_cons_self, ha⟩
    | ok y =>
      cases hl : l.mapM f with
      | error d =>
        rw [ha, hl] at h
        cases h
        obtain ⟨b, hb, he⟩ := ih hl
        exact ⟨b, List.mem_cons_of_mem a hb, he⟩
      | ok zs => rw [ha, hl] at h; cases h

/-- A collection succeeds iff every element does. -/
theorem exists_mapM_eq_ok_iff {f : α → Except ε β} {l : List α} :
    (∃ ys, l.mapM f = .ok ys) ↔ ∀ a ∈ l, ∃ y, f a = .ok y := by
  constructor
  · rintro ⟨ys, h⟩ a ha
    have hall := mapM_eq_ok_iff.1 h
    clear h
    induction hall with
    | nil => cases ha
    | cons hy _ ih =>
      rcases List.mem_cons.1 ha with rfl | ha
      · exact ⟨_, hy⟩
      · exact ih ha
  · intro h
    cases hl : l.mapM f with
    | ok ys => exact ⟨ys, rfl⟩
    | error e =>
      obtain ⟨a, ha, he⟩ := exists_of_mapM_eq_error hl
      obtain ⟨y, hy⟩ := h a ha
      rw [he] at hy
      cases hy

/-- A collection fails iff some element does. -/
theorem exists_mapM_eq_error_iff {f : α → Except ε β} {l : List α} :
    (∃ e, l.mapM f = .error e) ↔ ∃ a ∈ l, ∃ e, f a = .error e := by
  constructor
  · rintro ⟨e, h⟩
    obtain ⟨a, ha, he⟩ := exists_of_mapM_eq_error h
    exact ⟨a, ha, e, he⟩
  · rintro ⟨a, ha, e, he⟩
    cases hl : l.mapM f with
    | error d => exact ⟨d, rfl⟩
    | ok ys =>
      obtain ⟨y, hy⟩ := exists_mapM_eq_ok_iff.1 ⟨ys, hl⟩ a ha
      rw [he] at hy
      cases hy

/-- The results of a successful collection are the values at its elements. -/
theorem mem_of_mapM_eq_ok {f : α → Except ε β} {l : List α} {ys : List β} (h : l.mapM f = .ok ys) {y : β} :
    y ∈ ys ↔ ∃ a ∈ l, f a = .ok y := by
  have hall := mapM_eq_ok_iff.1 h
  clear h
  induction hall with
  | nil => simp
  | @cons a z l zs hz _ ih =>
    have hhead : y = z ↔ f a = .ok y := by
      rw [hz]
      constructor
      · intro h
        rw [h]
      · intro h
        cases h
        rfl
    rw [List.mem_cons, List.exists_mem_cons_iff]
    exact or_congr hhead ih

/-- Elements that differ only where `f` does not look, listed in another order, give the results in another order. -/
theorem mapM_of_perm {κ : Type} {f : α → Except ε β} {k : α → κ} {g : κ → Option β}
    (hf : ∀ a, (f a).toOption = g (k a)) {l m : List α} (h : (l.map k).Perm (m.map k)) {ys : List β}
    (hl : l.mapM f = .ok ys) : ∃ zs, m.mapM f = .ok zs ∧ ys.Perm zs := by
  have hok : ∀ a y, g (k a) = some y ↔ f a = .ok y := by
    intro a y
    rw [← hf]
    cases f a <;> simp [Except.toOption]
  have hys : List.Forall₂ (fun c y => g c = some y) (l.map k) ys :=
    List.forall₂_map_left_iff.2 ((mapM_eq_ok_iff.1 hl).imp fun a y => (hok a y).2)
  obtain ⟨zs, hzs, hperm⟩ := List.perm_comp_forall₂ h.symm hys
  refine ⟨zs, mapM_eq_ok_iff.2 ?_, hperm.symm⟩
  exact (List.forall₂_map_left_iff.1 hzs).imp fun a y => (hok a y).1

end Collect
