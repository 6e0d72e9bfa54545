import Stel.Failure
import Mathlib.Data.List.Nodup
import Mathlib.Data.List.Pairwise
import Mathlib.Data.Prod.Basic

/-!
# Pairs of a list, and loops that fill a list up to a cap

## Main definitions

* `laterPairs`: the pairs that two nested loops over the positions `i < j` of a list pass.
* `emit`: appends an entry, unless the list is full.

## Main results

* `mem_laterPairs`, `nodup_laterPairs`: the pairs of a list that an asymmetric relation orders.
* `foldlM_emit`: a loop that emits its entries raises exactly if there are too many of them.
-/

namespace Stel

variable {α : Type}

/-! ### Pairs -/

/-- The pairs of entries, each with all those that come after it. -/
def laterPairs : List α → List (α × α)
  | [] => []
  | x :: xs => xs.map (Prod.mk x) ++ laterPairs xs

theorem mem_left_of_mem_laterPairs {xs : List α} {p : α × α} (h : p ∈ laterPairs xs) :
    p.1 ∈ xs ∧ p.2 ∈ xs := by
  induction xs with
  | nil => cases h
  | cons x xs ih =>
    rcases List.mem_append.mp h with h | h
    · obtain ⟨y, hy, rfl⟩ := List.mem_map.mp h
      exact ⟨List.mem_cons_self, List.mem_cons_of_mem _ hy⟩
    · exact ⟨List.mem_cons_of_mem _ (ih h).1, List.mem_cons_of_mem _ (ih h).2⟩

/-- In a list that an asymmetric relation orders, the pairs are those of the relation. -/
theorem mem_laterPairs {R : α → α → Prop} (hasymm : ∀ a b, R a b → ¬ R b a) {xs : List α}
    (h : xs.Pairwise R) {a b : α} : (a, b) ∈ laterPairs xs ↔ a ∈ xs ∧ b ∈ xs ∧ R a b := by
  have hirrefl : ∀ a, ¬ R a a := fun a ha => hasymm a a ha ha
  induction xs with
  | nil => simp [laterPairs]
  | cons x xs ih =>
    obtain ⟨hfirst, hrest⟩ := List.pairwise_cons.mp h
    have hlater : (a, b) ∈ laterPairs xs ↔ a ∈ xs ∧ b ∈ xs ∧ R a b := ih hrest
    rw [laterPairs, List.mem_append, hlater]
    constructor
    · rintro (hmem | ⟨ha, hb, hab⟩)
      · obtain ⟨y, hy, heq⟩ := List.mem_map.mp hmem
        obtain ⟨rfl, rfl⟩ := Prod.mk.inj heq
        exact ⟨List.mem_cons_self, List.mem_cons_of_mem _ hy, hfirst _ hy⟩
      · exact ⟨List.mem_cons_of_mem _ ha, List.mem_cons_of_mem _ hb, hab⟩
    · rintro ⟨ha, hb, hab⟩
      rcases List.mem_cons.mp ha with rfl | harest
      · rcases List.mem_cons.mp hb with rfl | hbrest
        · exact absurd hab (hirrefl _)
        · exact .inl (List.mem_map_of_mem hbrest)
      · rcases List.mem_cons.mp hb with rfl | hbrest
        · exact absurd hab (hasymm _ _ (hfirst _ harest))
        · exact .inr ⟨harest, hbrest, hab⟩

/-- Of two different entries, one comes after the other. -/
theorem mem_laterPairs_or {xs : List α} {a b : α} (ha : a ∈ xs) (hb : b ∈ xs) (hne : a ≠ b) :
    (a, b) ∈ laterPairs xs ∨ (b, a) ∈ laterPairs xs := by
  induction xs with
  | nil => cases ha
  | cons x xs ih =>
    rcases List.mem_cons.mp ha with rfl | harest
    · have hbrest : b ∈ xs := (List.mem_cons.mp hb).resolve_left (Ne.symm hne)
      exact .inl (List.mem_append_left _ (List.mem_map_of_mem hbrest))
    · rcases List.mem_cons.mp hb with rfl | hbrest
      · exact .inr (List.mem_append_left _ (List.mem_map_of_mem harest))
      · exact (ih harest hbrest).imp (List.mem_append_right _) (List.mem_append_right _)

theorem nodup_laterPairs {xs : List α} (h : xs.Nodup) : (laterPairs xs).Nodup := by
  induction xs with
  | nil => exact List.nodup_nil
  | cons x xs ih =>
    obtain ⟨hnew, hrest⟩ := List.nodup_cons.mp h
    refine List.nodup_append'.mpr ⟨hrest.map (Prod.mk_right_injective x), ih hrest, ?_⟩
    intro p hp hlater
    obtain ⟨y, -, rfl⟩ := List.mem_map.mp hp
    exact hnew (mem_left_of_mem_laterPairs hlater).1

/-! ### Loops with a cap -/

/-- Appends an entry, unless the list has as many as the cap. -/
def emit (error : Failure) (cap : ℕ) (xs : List α) (x : α) : Except Failure (List α) :=
  if cap ≤ xs.length then .error error else .ok (xs ++ [x])

/-- A loop that emits its entries. -/
theorem foldlM_emit {error : Failure} {cap : ℕ} (xs start : List α) (h : start.length ≤ cap) :
    xs.foldlM (emit error cap) start =
      if start.length + xs.length ≤ cap then .ok (start ++ xs) else .error error := by
  induction xs generalizing start with
  | nil => simp [h, pure, Except.pure]
  | cons x xs ih =>
    rw [List.foldlM_cons, emit]
    by_cases hfull : cap ≤ start.length
    · rw [if_pos hfull, if_neg (by rw [List.length_cons]; omega)]
      rfl
    · have hlength : (start ++ [x]).length = start.length + 1 := List.length_append
      rw [if_neg hfull]
      change List.foldlM (emit error cap) (start ++ [x]) xs = _
      rw [ih _ (by omega), hlength, List.append_assoc, List.length_cons, List.singleton_append,
        Nat.add_right_comm, Nat.add_assoc]

/-- Nested loops are one loop over all their entries. -/
theorem foldlM_flatMap_eq {β σ : Type} {ε : Type} (f : σ → β → Except ε σ) (g : α → List β)
    (xs : List α) (s : σ) :
    xs.foldlM (fun s x => (g x).foldlM f s) s = (xs.flatMap g).foldlM f s := by
  induction xs generalizing s with
  | nil => rfl
  | cons x xs ih =>
    rw [List.foldlM_cons, List.flatMap_cons, List.foldlM_append]
    exact congrArg _ (funext fun t => ih t)

end Stel
