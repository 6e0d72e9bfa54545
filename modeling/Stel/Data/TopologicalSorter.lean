import Mathlib.Data.List.Nodup
import Mathlib.Data.List.Perm.Basic

/-!
# Topological generations

`graphlib.TopologicalSorter` after `prepare`, and the loop that takes the nodes that are ready and
marks them all as done before it takes the next ones.

## Main definitions

* `Sorter`: the nodes with their predecessors, those handed out and those marked as done.
* `Sorter.generations`: what the loop takes, each time in a given order.
* `Layered`: lists of nodes of which each holds the nodes whose predecessors are in earlier ones.

## Main results

* `Sorter.layered_of_same`: the loop takes layers, if the graph has no cycle.
* `Layered.perm`, `Layered.before`, `Layered.adjacent`: what layers are.
-/

namespace Stel

variable {V : Type*}

/-! ### The sorter -/

/-- `TopologicalSorter`, after `prepare`. -/
structure Sorter (V : Type*) where
  nodes : List V
  predecessors : V → List V
  passedOut : List V := []
  finished : List V := []

namespace Sorter

/-- `done`. -/
def done (s : Sorter V) (node : V) : Sorter V := { s with finished := s.finished ++ [node] }

variable [DecidableEq V]

/-- The nodes that were not handed out and whose predecessors are all done. -/
def ready (s : Sorter V) : List V :=
  s.nodes.filter fun n => n ∉ s.passedOut ∧ ∀ p ∈ s.predecessors n, p ∈ s.finished

/-- `is_active`. -/
def isActive (s : Sorter V) : Bool :=
  s.finished.length < s.passedOut.length || s.ready ≠ []

/-- `get_ready`. -/
def getReady (s : Sorter V) : List V × Sorter V :=
  (s.ready, { s with passedOut := s.passedOut ++ s.ready })

/-- `while is_active(): ready = order(get_ready()); …; for node in ready: done(node)`. -/
def generations (order : List V → List V) : ℕ → Sorter V → List (List V)
  | 0, _ => []
  | steps + 1, s =>
    if s.isActive then
      let batch := order s.getReady.1
      batch :: generations order steps (batch.foldl done s.getReady.2)
    else []

end Sorter

/-! ### Layers -/

/-- Lists of nodes that hold what is not done yet: each is not empty and holds the other nodes whose
predecessors are done before it. -/
def Layered (nodes : List V) (predecessors : V → List V) : List V → List (List V) → Prop
  | done, [] => ∀ n ∈ nodes, n ∈ done
  | done, layer :: layers =>
    (layer ≠ [] ∧ layer.Nodup ∧
      ∀ n, n ∈ layer ↔ n ∈ nodes ∧ n ∉ done ∧ ∀ p ∈ predecessors n, p ∈ done) ∧
    Layered nodes predecessors (done ++ layer) layers

section Layers

variable {nodes done : List V} {predecessors : V → List V} {layers : List (List V)}

/-- The layers hold the nodes that were not done, each once. -/
theorem Layered.mem_flatten (h : Layered nodes predecessors done layers) :
    layers.flatten.Nodup ∧ ∀ n, n ∈ layers.flatten ↔ n ∈ nodes ∧ n ∉ done := by
  induction layers generalizing done with
  | nil =>
    refine ⟨List.nodup_nil, fun n => iff_of_false List.not_mem_nil ?_⟩
    rintro ⟨hn, hdone⟩
    exact hdone (h n hn)
  | cons layer layers ih =>
    obtain ⟨⟨-, hnodup, hlayer⟩, hrest⟩ := h
    obtain ⟨hflat, hmem⟩ := ih hrest
    rw [List.flatten_cons]
    constructor
    · refine List.nodup_append'.mpr ⟨hnodup, hflat, fun n hn hlater => ?_⟩
      exact ((hmem n).mp hlater).2 (List.mem_append_right _ hn)
    · intro n
      rw [List.mem_append, hmem, List.mem_append, not_or]
      constructor
      · rintro (hn | ⟨hnode, hdone, -⟩)
        · exact ⟨((hlayer n).mp hn).1, ((hlayer n).mp hn).2.1⟩
        · exact ⟨hnode, hdone⟩
      · rintro ⟨hnode, hdone⟩
        by_cases hn : n ∈ layer
        · exact .inl hn
        · exact .inr ⟨hnode, hdone, hn⟩

theorem Layered.ne_nil (h : Layered nodes predecessors done layers) :
    ∀ layer ∈ layers, layer ≠ [] := by
  induction layers generalizing done with
  | nil => simp
  | cons first layers ih =>
    intro layer hlayer
    rcases List.mem_cons.mp hlayer with rfl | hlayer
    · exact h.1.1
    · exact ih h.2 layer hlayer

/-- What is left behind some layers is layered. -/
theorem Layered.drop {before : List (List V)} (h : Layered nodes predecessors done (before ++ layers)) :
    Layered nodes predecessors (done ++ before.flatten) layers := by
  induction before generalizing done with
  | nil => simpa using h
  | cons layer before ih =>
    rw [List.flatten_cons, ← List.append_assoc]
    exact ih h.2

/-- The predecessors of a node are done before its layer. -/
theorem Layered.before {before after : List (List V)} {layer : List V}
    (h : Layered nodes predecessors done (before ++ layer :: after)) {n : V} (hn : n ∈ layer) :
    ∀ p ∈ predecessors n, p ∈ done ++ before.flatten :=
  ((h.drop.1.2.2 n).mp hn).2.2

/-- A node of a later layer has a predecessor in the layer just before it. -/
theorem Layered.adjacent {before after : List (List V)} {layer next : List V}
    (h : Layered nodes predecessors done (before ++ layer :: next :: after)) {n : V}
    (hn : n ∈ next) : ∃ p ∈ predecessors n, p ∈ layer := by
  obtain ⟨⟨-, -, hlayer⟩, ⟨-, -, hnext⟩, -⟩ := h.drop
  obtain ⟨hnode, hlate, hpredecessors⟩ := (hnext n).mp hn
  rw [List.mem_append, not_or] at hlate
  have hwaits : ¬ ∀ p ∈ predecessors n, p ∈ done ++ before.flatten := fun hready =>
    hlate.2 ((hlayer n).mpr ⟨hnode, hlate.1, hready⟩)
  obtain ⟨p, hp, hnot⟩ := not_forall₂.mp hwaits
  exact ⟨p, hp, (List.mem_append.mp (hpredecessors p hp)).resolve_left hnot⟩

/-- The layers of a whole graph hold its nodes. -/
theorem Layered.perm (h : Layered nodes predecessors [] layers) (hnodes : nodes.Nodup) :
    layers.flatten.Perm nodes := by
  obtain ⟨hnodup, hmem⟩ := h.mem_flatten
  refine (List.perm_ext_iff_of_nodup hnodup hnodes).mpr fun n => ?_
  rw [hmem]
  exact and_iff_left List.not_mem_nil

end Layers

/-! ### The loop -/

namespace Sorter

variable {s : Sorter V}

theorem foldl_done (batch : List V) :
    batch.foldl done s = { s with finished := s.finished ++ batch } := by
  induction batch generalizing s with
  | nil => rw [List.append_nil]; rfl
  | cons node batch ih =>
    rw [List.foldl_cons, ih, done, List.append_assoc]
    rfl

variable [DecidableEq V] {order : List V → List V}

theorem mem_ready {n : V} : n ∈ s.ready ↔
    n ∈ s.nodes ∧ n ∉ s.passedOut ∧ ∀ p ∈ s.predecessors n, p ∈ s.finished := by
  rw [ready, List.mem_filter, decide_eq_true_eq]

/-- A batch is what was ready, in the given order. -/
theorem exists_of_mem_generations {steps : ℕ} {batch : List V}
    (h : batch ∈ generations order steps s) : ∃ ready, batch = order ready := by
  induction steps generalizing s with
  | zero => cases h
  | succ steps ih =>
    rw [generations] at h
    split at h
    · rcases List.mem_cons.mp h with rfl | h
      · exact ⟨_, rfl⟩
      · exact ih h
    · cases h

/-- In a graph without cycles, a node of least rank that is not done is ready. -/
theorem ready_ne_nil {rank : V → ℕ} (hpredecessors : ∀ n, ∀ p ∈ s.predecessors n, p ∈ s.nodes)
    (hrank : ∀ n, ∀ p ∈ s.predecessors n, rank p < rank n)
    (hsame : ∀ n, n ∈ s.passedOut ↔ n ∈ s.finished) {n : V} (hn : n ∈ s.nodes)
    (hleft : n ∉ s.finished) : s.ready ≠ [] := by
  induction hsize : rank n using Nat.strongRecOn generalizing n with
  | ind size ih =>
    by_cases hready : ∀ p ∈ s.predecessors n, p ∈ s.finished
    · exact List.ne_nil_of_mem (mem_ready.mpr ⟨hn, (not_congr (hsame n)).mpr hleft, hready⟩)
    · obtain ⟨p, hp, hnot⟩ := not_forall₂.mp hready
      exact ih (rank p) (hsize ▸ hrank n p hp) (hpredecessors n p hp) hnot rfl

/-- The loop takes layers: when it starts a pass, what was handed out is done. -/
theorem layered_of_same {rank : V → ℕ} (horder : ∀ l, (order l).Perm l)
    (hnodes : s.nodes.Nodup) (hpredecessors : ∀ n, ∀ p ∈ s.predecessors n, p ∈ s.nodes)
    (hrank : ∀ n, ∀ p ∈ s.predecessors n, rank p < rank n)
    (hsame : ∀ n, n ∈ s.passedOut ↔ n ∈ s.finished)
    (hlength : s.passedOut.length = s.finished.length) {steps : ℕ}
    (hsteps : (s.nodes.filter (· ∉ s.finished)).length ≤ steps) :
    Layered s.nodes s.predecessors s.finished (generations order steps s) := by
  induction steps generalizing s with
  | zero =>
    intro n hn
    by_contra hleft
    have hmem : n ∈ s.nodes.filter (· ∉ s.finished) := List.mem_filter.mpr ⟨hn, by simpa using hleft⟩
    rw [List.length_eq_zero_iff.mp (Nat.le_zero.mp hsteps)] at hmem
    cases hmem
  | succ steps ih =>
    rw [generations]
    by_cases hactive : s.isActive = true
    · rw [if_pos hactive]
      have hready : s.ready ≠ [] := by simpa [isActive, hlength] using hactive
      have hbatch := horder s.ready
      have hnew : ∀ n, n ∈ order s.ready ↔
          n ∈ s.nodes ∧ n ∉ s.finished ∧ ∀ p ∈ s.predecessors n, p ∈ s.finished := fun n => by
        rw [hbatch.mem_iff, mem_ready, hsame]
      refine ⟨⟨fun hnil => hready (hnil ▸ hbatch).nil_eq.symm, ?_, hnew⟩, ?_⟩
      · exact hbatch.nodup_iff.mpr (hnodes.filter _)
      · rw [foldl_done]
        let next : Sorter V :=
          ⟨s.nodes, s.predecessors, s.passedOut ++ s.ready, s.finished ++ order s.ready⟩
        refine ih (s := next) hnodes hpredecessors hrank ?_ ?_ ?_
        · intro n
          simp only [next]
          rw [List.mem_append, List.mem_append, hsame, hbatch.mem_iff]
        · simp only [next]
          rw [List.length_append, List.length_append, hlength, hbatch.length_eq]
        · have hsplit : s.nodes.filter (· ∉ s.finished ++ order s.ready) =
              (s.nodes.filter (· ∉ s.finished)).filter (· ∉ order s.ready) := by
            rw [List.filter_filter]
            refine List.filter_congr fun n _ => ?_
            simp [Bool.and_comm]
          obtain ⟨n, hn⟩ := List.exists_mem_of_ne_nil _ hready
          have hn' := (hnew n).mp (hbatch.mem_iff.mpr hn)
          have hlt : ((s.nodes.filter (· ∉ s.finished)).filter (· ∉ order s.ready)).length <
              (s.nodes.filter (· ∉ s.finished)).length := by
            refine List.length_filter_lt_length_iff_exists.mpr ⟨n, ?_, ?_⟩
            · exact List.mem_filter.mpr ⟨hn'.1, by simpa using hn'.2.1⟩
            · simpa using hbatch.mem_iff.mpr hn
          show (s.nodes.filter (· ∉ s.finished ++ order s.ready)).length ≤ steps
          rw [hsplit]
          omega
    · rw [if_neg hactive]
      intro n hn
      by_contra hleft
      exact hactive (by simp [isActive, ready_ne_nil hpredecessors hrank hsame hn hleft])

end Sorter

end Stel
