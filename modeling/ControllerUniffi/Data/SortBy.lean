import Mathlib.Data.List.Forall2

/-!
# Stable sorting by a comparator

When the comparator is a total order in which only equal elements tie, the sorted list depends on the multiset of
the elements alone (`sortBy_eq_of_perm`), and it is the only sorted list of these elements (`eq_sortBy`).
-/

namespace SortBy

open Std

variable {α : Type} {cmp : α → α → Ordering}

/-- Stable sort: elements that tie keep their order. -/
def sortBy (cmp : α → α → Ordering) (l : List α) : List α := l.mergeSort fun a b => (cmp a b).isLE

/-- Each element is at most every later one. -/
def Sorted (cmp : α → α → Ordering) (l : List α) : Prop := l.Pairwise fun a b => (cmp a b).isLE = true

theorem sortBy_perm (l : List α) : (sortBy cmp l).Perm l := List.mergeSort_perm _ _

theorem sorted_sortBy [TransCmp cmp] (l : List α) : Sorted cmp (sortBy cmp l) := by
  apply List.pairwise_mergeSort
  · intro a b c hab hbc
    exact TransCmp.isLE_trans hab hbc
  · intro a b
    have hswap : cmp b a = (cmp a b).swap := OrientedCmp.eq_swap
    rw [hswap]
    cases cmp a b <;> rfl

/-- Two sorted lists with the same elements are equal. -/
theorem Sorted.eq_of_perm [TransCmp cmp] [LawfulEqCmp cmp] {l m : List α} (hl : Sorted cmp l) (hm : Sorted cmp m)
    (h : l.Perm m) : l = m := by
  refine List.Perm.eq_of_pairwise (fun a b _ _ hab hba => ?_) hl hm h
  have hswap : cmp b a = (cmp a b).swap := OrientedCmp.eq_swap
  have heq : cmp a b = .eq := by
    rw [hswap] at hba
    revert hab hba
    cases cmp a b <;> decide
  exact LawfulEqCmp.eq_of_compare heq

/-- The sorted list of the elements of `l`. -/
theorem eq_sortBy [TransCmp cmp] [LawfulEqCmp cmp] {l m : List α} (hm : Sorted cmp m) (h : m.Perm l) :
    m = sortBy cmp l :=
  hm.eq_of_perm (sorted_sortBy l) (h.trans (sortBy_perm l).symm)

/-- The order in which the elements are listed does not matter. -/
theorem sortBy_eq_of_perm [TransCmp cmp] [LawfulEqCmp cmp] {l m : List α} (h : l.Perm m) :
    sortBy cmp l = sortBy cmp m :=
  eq_sortBy (sorted_sortBy l) ((sortBy_perm l).trans h)

end SortBy
