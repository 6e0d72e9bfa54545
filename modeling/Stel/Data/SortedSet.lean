import Mathlib.Data.List.Sort
import Mathlib.Data.Finset.Dedup

/-!
# Sorted sets

`sorted(set(items))` for the items of a linear order.

## Main definitions

* `sortedSet`: the items, each once and in ascending order.

## Main results

* `sortedSet_eq_iff`: the sorted set depends on the set of the items only, and determines it.
* `insertionSort_congr`: sorting items that it tells apart.
-/

namespace Stel

variable {α : Type*} [LinearOrder α] {l l' : List α}

/-- The items, each once and in ascending order. -/
def sortedSet (l : List α) : List α := l.dedup.insertionSort (· ≤ ·)

@[simp] theorem mem_sortedSet {x : α} : x ∈ sortedSet l ↔ x ∈ l := by
  rw [sortedSet, List.mem_insertionSort, List.mem_dedup]

theorem nodup_sortedSet : (sortedSet l).Nodup :=
  (List.perm_insertionSort _ _).nodup_iff.mpr l.nodup_dedup

theorem pairwise_sortedSet : (sortedSet l).Pairwise (· ≤ ·) := List.pairwise_insertionSort _ _

theorem sortedSet_eq_iff : sortedSet l = sortedSet l' ↔ ∀ x, x ∈ l ↔ x ∈ l' := by
  constructor
  · intro h x
    rw [← mem_sortedSet, h, mem_sortedSet]
  · intro h
    have hperm : (sortedSet l).Perm (sortedSet l') :=
      (List.perm_ext_iff_of_nodup nodup_sortedSet nodup_sortedSet).mpr fun x => by
        rw [mem_sortedSet, mem_sortedSet, h]
    exact hperm.eq_of_pairwise (fun a b _ _ => le_antisymm) pairwise_sortedSet pairwise_sortedSet

/-- Sorting forgets the order of items that it tells apart. -/
theorem insertionSort_congr {β : Type*} {r : β → β → Prop} [DecidableRel r] [Std.Total r] [IsTrans β r]
    {xs ys : List β} (h : xs.Perm ys) (hinj : ∀ a ∈ xs, ∀ b ∈ xs, r a b → r b a → a = b) :
    xs.insertionSort r = ys.insertionSort r := by
  have hperm : (xs.insertionSort r).Perm (ys.insertionSort r) :=
    (List.perm_insertionSort r xs).trans (h.trans (List.perm_insertionSort r ys).symm)
  refine hperm.eq_of_pairwise (fun a b ha hb => ?_) (List.pairwise_insertionSort r xs)
    (List.pairwise_insertionSort r ys)
  exact hinj a ((List.mem_insertionSort r).mp ha) b (h.mem_iff.mpr ((List.mem_insertionSort r).mp hb))

/-- Sorting distinct items. -/
theorem insertionSort_eq_sortedSet (hnodup : l.Nodup) (h : ∀ x, x ∈ l ↔ x ∈ l') :
    l.insertionSort (· ≤ ·) = sortedSet l' := by
  rw [← sortedSet_eq_iff.mpr h, sortedSet, hnodup.dedup]

@[simp] theorem sortedSet_eq_nil : sortedSet l = [] ↔ l = [] := by
  simp only [List.eq_nil_iff_forall_not_mem, mem_sortedSet]

end Stel
