import Stel.Data.Reachability
import Stel.Data.Text
import Mathlib.Data.List.DropRight
import Mathlib.Data.List.Nodup
import Mathlib.Data.List.Perm.Basic

/-!
# The project graph

`dag.py`: the nodes of a project are its sources and models, and a model depends on its source, its
declared dependencies, the targets of its relationship tests and its golden sets.

## Main definitions

* `parseRef`, `isDbtRef`: references in a configuration.
* `ModelConfig`, `predecessorsOf`: a model and the nodes it depends on.
* `ProjectDAG`: a graph that was constructed, with `successors`, `descendants` and `selectModels`.
* `ProjectDAG.Ancestor`: there is a path between two nodes.

## Main results

* `ProjectDAG.mem_descendants`: the descendants are the nodes to which there is a path.
* `ProjectDAG.Ancestor.before`: an ancestor comes first in every selection.
-/

namespace Stel

/-! ### References -/

/-- The quotes of a reference. -/
def isQuote (c : Char) : Bool := c = '"' || c = Char.ofNat 39

/-- The quoted name in `^\s*call\(\s*['"]([^'"]+)['"]\s*\)\s*$`. -/
def matchCall (call value : String) : Option String := do
  let rest ← (call.toList ++ ['(']).isPrefixOf? (value.toList.dropWhile isSpace)
  match rest.dropWhile isSpace with
  | [] => none
  | quote :: rest =>
    let name := rest.takeWhile fun c => !isQuote c
    match rest.drop name.length with
    | [] => none
    | _ :: rest =>
      match rest.dropWhile isSpace with
      | close :: rest =>
        if isQuote quote ∧ name ≠ [] ∧ close = ')' ∧ rest.all isSpace then
          some (String.ofList name)
        else none
      | [] => none

example : matchCall "ref" " ref( 'docs' ) " = some "docs" := by decide +kernel

/-- `is_dbt_ref`. -/
def isDbtRef (value : String) : Bool := (matchCall "dbt_ref" value).isSome

/-- `str.strip`. -/
def stripText (value : String) : String :=
  String.ofList ((value.toList.dropWhile isSpace).rdropWhile isSpace)

@[simp] theorem stripText_stripText (value : String) : stripText (stripText value) = stripText value := by
  have hdrop : ((value.toList.dropWhile isSpace).rdropWhile isSpace).dropWhile isSpace =
      (value.toList.dropWhile isSpace).rdropWhile isSpace := by
    refine List.dropWhile_eq_self_iff.mpr fun hpos => ?_
    obtain ⟨rest, hrest⟩ := List.rdropWhile_prefix (p := isSpace) (l := value.toList.dropWhile isSpace)
    have hlong : 0 < (value.toList.dropWhile isSpace).length := by
      rw [← hrest, List.length_append]
      omega
    have hfirst := List.dropWhile_get_zero_not isSpace value.toList hlong
    rw [List.get_eq_getElem] at hfirst
    have hsame : (value.toList.dropWhile isSpace)[0] =
        ((value.toList.dropWhile isSpace).rdropWhile isSpace)[0] := by
      rw [List.getElem_of_eq hrest.symm hlong, List.getElem_append_left]
    rw [← hsame]
    exact hfirst
  rw [stripText, stripText, String.toList_ofList, hdrop, List.rdropWhile_idempotent]

/-- `parse_ref`. -/
def parseRef (value : String) : String := (matchCall "ref" value).getD (stripText value)

/-! ### Models -/

/-- What the graph and the build read of a model: the targets of its relationship tests are
`relationship_test_targets(model.tests)`. -/
structure ModelConfig where
  name : String
  materialization : String
  source : Option String
  dependsOn : List String
  relationshipTargets : List String
  goldenSets : List String
  search : Bool
  deriving DecidableEq, Repr

/-- The nodes that a model depends on. -/
def predecessorsOf (model : ModelConfig) : List String :=
  ((model.source.toList.filter fun source => source ≠ "" ∧ ¬ isDbtRef source).map parseRef) ++
    model.dependsOn.map parseRef ++ model.relationshipTargets ++ model.goldenSets.map parseRef

/-! ### The graph -/

/-- The models that depend on a node. -/
def successorsIn (models : List ModelConfig) (name : String) : List String :=
  (models.filter fun model => name ∈ predecessorsOf model).map ModelConfig.name

theorem mem_successorsIn {models : List ModelConfig} {name successor : String} :
    successor ∈ successorsIn models name ↔
      ∃ model ∈ models, name ∈ predecessorsOf model ∧ model.name = successor := by
  simp only [successorsIn, List.mem_map, List.mem_filter, decide_eq_true_eq, and_assoc]

theorem idxOf_lt_of_models {models : List ModelConfig} {sorted : List String}
    (h : ∀ model ∈ models, ∀ p ∈ predecessorsOf model, sorted.idxOf p < sorted.idxOf model.name) :
    ∀ name, ∀ successor ∈ successorsIn models name, sorted.idxOf name < sorted.idxOf successor := by
  intro name successor hsuccessor
  obtain ⟨model, hmodel, hname, rfl⟩ := mem_successorsIn.mp hsuccessor
  exact h model hmodel name hname

/-- A graph that `ProjectDAG.__init__` accepts: the names are distinct, no reference is unknown, and
the topological sorter has put every node after those it depends on. -/
structure ProjectDAG where
  sources : List String
  models : List ModelConfig
  sorted : List String
  nodup : (sources ++ models.map ModelConfig.name).Nodup
  known : ∀ model ∈ models, ∀ p ∈ predecessorsOf model,
    p ∈ sources ++ models.map ModelConfig.name
  sorted_perm : sorted.Perm (sources ++ models.map ModelConfig.name)
  sorted_lt : ∀ name, ∀ successor ∈ successorsIn models name,
    sorted.idxOf name < sorted.idxOf successor

namespace ProjectDAG

variable (dag : ProjectDAG)

/-- The names of the nodes. -/
def nodes : List String := dag.sources ++ dag.models.map ModelConfig.name

/-- `self.successors`. -/
def successors (name : String) : List String := successorsIn dag.models name

/-- `descendants`. -/
def descendants (name : String) : List String := reachableFrom dag.successors dag.nodes name

/-- `select_models`, for the nodes that the selectors choose. -/
def selectModels (chosen : String → Bool) : List String :=
  dag.sorted.filter fun name => chosen name ∧ name ∈ dag.models.map ModelConfig.name

/-- `models_by_name[name]`. -/
def model? (name : String) : Option ModelConfig := dag.models.find? (·.name = name)

/-- There is a path from a node to another one. -/
def Ancestor (a b : String) : Prop := Relation.TransGen (fun v w => w ∈ dag.successors v) a b

variable {dag}

theorem mem_nodes_of_successor {v w : String} (h : w ∈ dag.successors v) : w ∈ dag.nodes := by
  obtain ⟨model, hmodel, -, rfl⟩ := mem_successorsIn.mp h
  exact List.mem_append_right _ (List.mem_map_of_mem hmodel)

theorem mem_descendants {name w : String} (hname : name ∈ dag.nodes) :
    w ∈ dag.descendants name ↔ dag.Ancestor name w :=
  mem_reachableFrom (fun _ _ _ hw => mem_nodes_of_successor hw) hname

theorem Ancestor.trans {a b c : String} (hab : dag.Ancestor a b) (hbc : dag.Ancestor b c) :
    dag.Ancestor a c :=
  Relation.TransGen.trans hab hbc

theorem Ancestor.idxOf_lt {a b : String} (h : dag.Ancestor a b) :
    dag.sorted.idxOf a < dag.sorted.idxOf b := by
  induction h with
  | single h => exact dag.sorted_lt _ _ h
  | tail _ h ih => exact ih.trans (dag.sorted_lt _ _ h)

theorem sorted_nodup : dag.sorted.Nodup := dag.sorted_perm.nodup_iff.mpr dag.nodup

theorem selectModels_sublist (chosen : String → Bool) :
    (dag.selectModels chosen).Sublist dag.sorted := List.filter_sublist

theorem selectModels_nodup (chosen : String → Bool) : (dag.selectModels chosen).Nodup :=
  sorted_nodup.sublist (selectModels_sublist chosen)

theorem mem_nodes_of_selected {chosen : String → Bool} {name : String}
    (h : name ∈ dag.selectModels chosen) : name ∈ dag.nodes :=
  dag.sorted_perm.mem_iff.mp (List.mem_of_mem_filter h)

/-- In a selection, what comes later has a greater index. -/
theorem pairwise_idxOf (chosen : String → Bool) :
    (dag.selectModels chosen).Pairwise fun a b => dag.sorted.idxOf a < dag.sorted.idxOf b := by
  refine List.Pairwise.sublist (selectModels_sublist chosen) ?_
  refine List.pairwise_iff_getElem.mpr fun i j hi hj hij => ?_
  rwa [sorted_nodup.idxOf_getElem, sorted_nodup.idxOf_getElem]

/-- An ancestor that is selected comes first. -/
theorem Ancestor.before {a b : String} (h : dag.Ancestor a b) {chosen : String → Bool}
    {done todo : List String} (hselected : dag.selectModels chosen = done ++ b :: todo)
    (ha : a ∈ dag.selectModels chosen) : a ∈ done := by
  have hlt := h.idxOf_lt
  have hpairs := @pairwise_idxOf dag chosen
  rw [hselected] at hpairs ha
  rcases List.mem_append.mp ha with ha | ha
  · exact ha
  · rcases List.mem_cons.mp ha with rfl | ha
    · exact absurd hlt (lt_irrefl _)
    · have hgt := List.rel_of_pairwise_cons (List.pairwise_append.mp hpairs).2.1 ha
      exact absurd hgt hlt.asymm

end ProjectDAG

end Stel
