import Mathlib.Data.List.Basic
import Mathlib.Algebra.Order.BigOperators.Group.List
import Mathlib.Algebra.Order.Group.Nat
import Mathlib.Algebra.Ring.Nat
import Mathlib.Logic.Relation

/-!
# Searching a finite graph

A search with a stack of nodes to visit, over lists of adjacent nodes.

## Main definitions

* `explore`: the search, with a bound on its steps.
* `reachableFrom`: the search from the neighbours of a node.

## Main results

* `mem_reachableFrom`: the search finds the nodes that can be reached by at least one edge.
-/

namespace Stel

variable {V : Type*} [DecidableEq V]

/-- The nodes that a search has visited, from those visited and those on its stack. -/
def explore (adjacent : V → List V) : ℕ → List V → List V → List V
  | 0, visited, _ => visited
  | _ + 1, visited, [] => visited
  | steps + 1, visited, node :: stack =>
    if node ∈ visited then explore adjacent steps visited stack
    else explore adjacent steps (node :: visited) (adjacent node ++ stack)

/-- The number of edges that leave the nodes. -/
def edgeCount (adjacent : V → List V) (nodes : List V) : ℕ :=
  (nodes.map fun v => (adjacent v).length).sum

/-- The nodes that are reached by at least one edge. -/
def reachableFrom (adjacent : V → List V) (nodes : List V) (start : V) : List V :=
  explore adjacent ((adjacent start).length + edgeCount adjacent nodes + 1) [] (adjacent start)

variable {adjacent : V → List V} {nodes visited stack : List V}

theorem edgeCount_visit {node : V} (hnode : node ∈ nodes) (hnew : node ∉ visited) :
    (adjacent node).length + edgeCount adjacent (nodes.filter (· ∉ node :: visited)) ≤
      edgeCount adjacent (nodes.filter (· ∉ visited)) := by
  induction nodes with
  | nil => cases hnode
  | cons v nodes ih =>
    have hmono : edgeCount adjacent (nodes.filter (· ∉ node :: visited)) ≤
        edgeCount adjacent (nodes.filter (· ∉ visited)) := by
      refine List.Sublist.sum_le_sum (List.Sublist.map _ ?_) (by simp)
      refine List.monotone_filter_right _ fun w hw => ?_
      simp only [List.mem_cons, not_or, decide_eq_true_eq] at hw ⊢
      exact hw.2
    by_cases hv : v = node
    · subst hv
      rw [List.filter_cons_of_neg (by simp), List.filter_cons_of_pos (by simpa using hnew)]
      exact Nat.add_le_add_left hmono _
    · have htail := ih ((List.mem_cons.mp hnode).resolve_left (Ne.symm hv))
      by_cases hvisited : v ∈ visited
      · rw [List.filter_cons_of_neg (by simp [hvisited]),
          List.filter_cons_of_neg (by simp [hvisited])]
        exact htail
      · rw [List.filter_cons_of_pos (by simp [hvisited, hv]),
          List.filter_cons_of_pos (by simpa using hvisited)]
        simp only [edgeCount, List.map_cons, List.sum_cons] at htail ⊢
        omega

/-- With enough steps, the result contains what was visited and what was on the stack, it is closed
under edges, and every other node in it is reached from the stack. -/
theorem explore_spec (hnodes : ∀ v ∈ nodes, ∀ w ∈ adjacent v, w ∈ nodes) {steps : ℕ}
    (hstack : ∀ v ∈ stack, v ∈ nodes)
    (hclosed : ∀ v ∈ visited, ∀ w ∈ adjacent v, w ∈ visited ∨ w ∈ stack)
    (hsteps : stack.length + edgeCount adjacent (nodes.filter (· ∉ visited)) < steps) :
    (∀ v ∈ visited, v ∈ explore adjacent steps visited stack) ∧
      (∀ v ∈ stack, v ∈ explore adjacent steps visited stack) ∧
      (∀ v ∈ explore adjacent steps visited stack, ∀ w ∈ adjacent v,
        w ∈ explore adjacent steps visited stack) ∧
      ∀ w ∈ explore adjacent steps visited stack,
        w ∈ visited ∨ ∃ v ∈ stack, Relation.ReflTransGen (fun v w => w ∈ adjacent v) v w := by
  induction steps generalizing visited stack with
  | zero => exact absurd hsteps (Nat.not_lt_zero _)
  | succ steps ih =>
    cases stack with
    | nil =>
      refine ⟨fun v hv => hv, by simp, fun v hv w hw => ?_, fun w hw => .inl hw⟩
      exact (hclosed v hv w hw).resolve_right (by simp)
    | cons node stack =>
      rw [List.length_cons] at hsteps
      have hrest : ∀ v ∈ stack, v ∈ nodes := fun v hv => hstack v (List.mem_cons_of_mem _ hv)
      by_cases hnode : node ∈ visited
      · have hclosed' : ∀ v ∈ visited, ∀ w ∈ adjacent v, w ∈ visited ∨ w ∈ stack := by
          intro v hv w hw
          rcases hclosed v hv w hw with h | h
          · exact .inl h
          · rcases List.mem_cons.mp h with rfl | h
            · exact .inl hnode
            · exact .inr h
        obtain ⟨hvisited, hinner, hedges, hsound⟩ := ih hrest hclosed' (by omega)
        simp only [explore, if_pos hnode]
        refine ⟨hvisited, fun v hv => ?_, hedges, fun w hw => ?_⟩
        · rcases List.mem_cons.mp hv with rfl | hv
          · exact hvisited v hnode
          · exact hinner v hv
        · rcases hsound w hw with h | ⟨v, hv, hreach⟩
          · exact .inl h
          · exact .inr ⟨v, List.mem_cons_of_mem _ hv, hreach⟩
      · have hmem := hstack node List.mem_cons_self
        have hclosed' : ∀ v ∈ node :: visited, ∀ w ∈ adjacent v,
            w ∈ node :: visited ∨ w ∈ adjacent node ++ stack := by
          intro v hv w hw
          rcases List.mem_cons.mp hv with rfl | hv
          · exact .inr (List.mem_append_left _ hw)
          · rcases hclosed v hv w hw with h | h
            · exact .inl (List.mem_cons_of_mem _ h)
            · rcases List.mem_cons.mp h with rfl | h
              · exact .inl List.mem_cons_self
              · exact .inr (List.mem_append_right _ h)
        have hstack' : ∀ v ∈ adjacent node ++ stack, v ∈ nodes := by
          intro v hv
          rcases List.mem_append.mp hv with hv | hv
          · exact hnodes node hmem v hv
          · exact hrest v hv
        have hcount := @edgeCount_visit V _ adjacent _ _ _ hmem hnode
        obtain ⟨hvisited, hinner, hedges, hsound⟩ := ih hstack' hclosed'
          (by rw [List.length_append]; omega)
        simp only [explore, if_neg hnode]
        refine ⟨fun v hv => hvisited v (List.mem_cons_of_mem _ hv), fun v hv => ?_, hedges,
          fun w hw => ?_⟩
        · rcases List.mem_cons.mp hv with rfl | hv
          · exact hvisited v List.mem_cons_self
          · exact hinner v (List.mem_append_right _ hv)
        · rcases hsound w hw with h | ⟨v, hv, hreach⟩
          · rcases List.mem_cons.mp h with rfl | h
            · exact .inr ⟨w, List.mem_cons_self, .refl⟩
            · exact .inl h
          · rcases List.mem_append.mp hv with hv | hv
            · exact .inr ⟨node, List.mem_cons_self, .head hv hreach⟩
            · exact .inr ⟨v, List.mem_cons_of_mem _ hv, hreach⟩

/-- The search finds exactly the nodes that are reached by at least one edge. -/
theorem mem_reachableFrom (hnodes : ∀ v ∈ nodes, ∀ w ∈ adjacent v, w ∈ nodes) {start w : V}
    (hstart : start ∈ nodes) :
    w ∈ reachableFrom adjacent nodes start ↔
      Relation.TransGen (fun v w => w ∈ adjacent v) start w := by
  have hfilter : nodes.filter (· ∉ ([] : List V)) = nodes := List.filter_eq_self.mpr (by simp)
  obtain ⟨-, hstack, hedges, hsound⟩ := @explore_spec V _ adjacent nodes [] (adjacent start) hnodes
    ((adjacent start).length + edgeCount adjacent nodes + 1) (hnodes start hstart)
    (by simp) (by rw [hfilter]; exact Nat.lt_succ_self _)
  constructor
  · intro hw
    obtain ⟨v, hv, hreach⟩ := (hsound w hw).resolve_left (by simp)
    exact .head' hv hreach
  · intro hreach
    induction hreach with
    | single hw => exact hstack _ hw
    | tail _ hw ih => exact hedges _ ih _ hw

end Stel
