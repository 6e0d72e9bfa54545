import Stel.Dag
import Stel.Execution.Chunk

/-!
# Building a project

`build_project` of `runner.py`: the selected models are run and tested in topological order, and the
descendants of a model that failed are skipped.

## Main definitions

* `ProjectRuns`: what running and testing each model does.
* `BuildResult`, `buildProject`: the build.
* `ProjectRuns.Fails`, `ProjectRuns.Raises`: a model that fails, and one whose exception nothing
  catches.
* `BlocksDescendants`: what the report of a build promises.

## Main results

* `foldBuild_spec`: the loop from any of its states.
* `build_blocks_descendants_iff`: the build completes and blocks exactly the descendants of failures
  if and only if no model that is reached raises anything but a `RunError` in its run.
-/

namespace Stel

/-- The fields of `ModelRunResult` that the build sets or reads. -/
structure ModelRunResult where
  modelName : String
  materialization : String
  kind : String
  errors : List String
  deriving DecidableEq, Repr

/-- The fields of `TestResult` that the build passes on. -/
structure TestResult where
  testName : String
  modelName : String
  status : String
  message : String
  deriving DecidableEq, Repr

/-- `is_hard_failure`. -/
def TestResult.isHardFailure (result : TestResult) : Bool := result.status = "fail"

/-- `BuildResult`. -/
structure BuildResult where
  runResults : List ModelRunResult := []
  testResults : List TestResult := []
  skipped : List String := []
  deriving DecidableEq, Repr

/-- What `_run_model` and `run_model_tests` do for each model of a project. The result of a run
names its model. -/
structure ProjectRuns where
  runModel : (model : ModelConfig) →
    Except Failure { result : ModelRunResult // result.modelName = model.name }
  runModelTests : ModelConfig → Except Failure (List TestResult)

/-- The locals of the loop. -/
structure BuildState where
  out : BuildResult := {}
  blocked : List String := []
  deriving DecidableEq, Repr

namespace BuildState

/-- `out.skipped.append(name)`. -/
def skip (s : BuildState) (name : String) : BuildState :=
  { s with out := { s.out with skipped := s.out.skipped ++ [name] } }

/-- `out.run_results.append(result)`. -/
def report (s : BuildState) (result : ModelRunResult) : BuildState :=
  { s with out := { s.out with runResults := s.out.runResults ++ [result] } }

/-- `out.test_results.extend(model_tests)`. -/
def test (s : BuildState) (results : List TestResult) : BuildState :=
  { s with out := { s.out with testResults := s.out.testResults ++ results } }

/-- `blocked |= names`. -/
def block (s : BuildState) (names : List String) : BuildState :=
  { s with blocked := s.blocked ++ names }

/-- The names of the models that were run, in order. -/
def ran (s : BuildState) : List String := s.out.runResults.map ModelRunResult.modelName

end BuildState

/-- `_artifact_error_text` of a `RunError` that no provider caused. -/
def artifactErrorText (message : String) : String := "RunError: " ++ message

section Build

variable (dag : ProjectDAG) (runs : ProjectRuns)

/-- The tests of a model that was run without errors. -/
def buildTests (state : BuildState) (model : ModelConfig) : Except Failure BuildState :=
  if model.search then .ok state
  else match runs.runModelTests model with
    | .error e => .error e
    | .ok results =>
      if results.any TestResult.isHardFailure then
        .ok ((state.test results).block (dag.descendants model.name))
      else .ok (state.test results)

/-- The run of a model that is not blocked. Only a `RunError` of the run itself is caught. -/
def buildModel (state : BuildState) (model : ModelConfig) : Except Failure BuildState :=
  match runs.runModel model with
  | .error (.runError message) =>
    .ok ((state.report ⟨model.name, model.materialization, "unknown",
      [artifactErrorText message]⟩).block (dag.descendants model.name))
  | .error e => .error e
  | .ok result =>
    if result.1.errors ≠ [] then
      .ok ((state.report result.1).block (dag.descendants model.name))
    else buildTests dag runs (state.report result.1) model

/-- One pass of the loop over the selected names. -/
def buildStep (state : BuildState) (name : String) : Except Failure BuildState :=
  if name ∈ state.blocked then .ok (state.skip name)
  else match dag.model? name with
    | none => .error (.other ("KeyError: " ++ name))
    | some model => buildModel dag runs state model

/-- `build_project`, for the nodes that the selectors choose. -/
def buildProject (chosen : String → Bool) : Except Failure BuildResult := do
  let state ← (dag.selectModels chosen).foldlM (buildStep dag runs) {}
  return state.out

/-! ### Failures -/

/-- The run of a model fails, or its tests do. -/
def ProjectRuns.fails (model : ModelConfig) : Bool :=
  match runs.runModel model with
  | .error (.runError _) => true
  | .error _ => false
  | .ok result => result.1.errors ≠ [] || !model.search &&
      match runs.runModelTests model with
      | .error _ => false
      | .ok results => results.any TestResult.isHardFailure

/-- An exception of the run or of the tests of a model ends the build. -/
def ProjectRuns.raises (model : ModelConfig) : Bool :=
  match runs.runModel model with
  | .error (.runError _) => false
  | .error _ => true
  | .ok result => result.1.errors = [] && !model.search &&
      match runs.runModelTests model with
      | .error _ => true
      | .ok _ => false

/-- The model with a name fails. -/
def Fails (name : String) : Prop := ∃ model, dag.model? name = some model ∧ runs.fails model

/-- An exception of the model with a name ends the build. -/
def Raises (name : String) : Prop := ∃ model, dag.model? name = some model ∧ runs.raises model

/-- Every selected model is reported once, as run or as skipped; no model is run after an ancestor
that failed; and every skipped model has an ancestor that was run and failed. -/
def BlocksDescendants (chosen : String → Bool) (out : BuildResult) : Prop :=
  (out.runResults.map ModelRunResult.modelName ++ out.skipped).Perm (dag.selectModels chosen) ∧
    (out.runResults.map ModelRunResult.modelName).Pairwise
      (fun a b => dag.Ancestor a b → ¬ Fails dag runs a) ∧
    ∀ name ∈ out.skipped, ∃ a ∈ out.runResults.map ModelRunResult.modelName,
      dag.Ancestor a name ∧ Fails dag runs a

/-- No selected ancestor of a model fails. -/
def Reached (chosen : String → Bool) (name : String) : Prop :=
  ∀ a ∈ dag.selectModels chosen, dag.Ancestor a name → ¬ Fails dag runs a

variable {dag runs}

/-! ### One model -/

/-- A model that does not raise is reported as run, and blocks its descendants if it fails. -/
theorem buildModel_of_not_raises {state : BuildState} {model : ModelConfig}
    (h : runs.raises model = false) :
    ∃ state', buildModel dag runs state model = .ok state' ∧
      state'.ran = state.ran ++ [model.name] ∧ state'.out.skipped = state.out.skipped ∧
      state'.blocked = state.blocked ++
        if runs.fails model then dag.descendants model.name else [] := by
  unfold buildModel ProjectRuns.fails
  unfold ProjectRuns.raises at h
  cases hrun : runs.runModel model with
  | error e =>
    rw [hrun] at h
    cases e with
    | runError message => exact ⟨_, rfl, by simp [BuildState.ran, BuildState.report,
        BuildState.block], rfl, by simp [BuildState.report, BuildState.block]⟩
    | _ => cases h
  | ok result =>
    rw [hrun] at h
    obtain ⟨result, hname⟩ := result
    by_cases herrors : result.errors = []
    · have hsearch : model.search = true ∨ ∃ results, runs.runModelTests model = .ok results := by
        cases hmodel : model.search with
        | true => exact .inl rfl
        | false =>
          cases htests : runs.runModelTests model with
          | ok results => exact .inr ⟨results, rfl⟩
          | error e => simp [herrors, hmodel, htests] at h
      simp only [herrors, ne_eq, not_true_eq_false, if_false, decide_false, Bool.false_or,
        buildTests]
      cases hmodel : model.search with
      | true => exact ⟨_, rfl, by simp [BuildState.ran, BuildState.report, hname], rfl,
          by simp [BuildState.report]⟩
      | false =>
        obtain ⟨results, hresults⟩ := hsearch.resolve_left (by simp [hmodel])
        simp only [hresults, Bool.false_eq_true, if_false, Bool.not_false, Bool.true_and]
        cases hhard : results.any TestResult.isHardFailure with
        | true => exact ⟨_, rfl, by simp [BuildState.ran, BuildState.report, BuildState.test,
            BuildState.block, hname], rfl, by simp [BuildState.report, BuildState.test,
            BuildState.block]⟩
        | false => exact ⟨_, rfl, by simp [BuildState.ran, BuildState.report, BuildState.test,
            hname], rfl, by simp [BuildState.report, BuildState.test]⟩
    · simp only [herrors, ne_eq, not_false_eq_true, if_true, decide_true, Bool.true_or]
      exact ⟨_, rfl, by simp [BuildState.ran, BuildState.report, BuildState.block, hname], rfl,
        by simp [BuildState.report, BuildState.block]⟩

theorem buildModel_of_raises {state : BuildState} {model : ModelConfig}
    (h : runs.raises model = true) : ∃ e, buildModel dag runs state model = .error e := by
  unfold buildModel
  unfold ProjectRuns.raises at h
  cases hrun : runs.runModel model with
  | error e =>
    rw [hrun] at h
    cases e with
    | runError message => cases h
    | _ => exact ⟨_, rfl⟩
  | ok result =>
    rw [hrun] at h
    obtain ⟨result, hname⟩ := result
    cases htests : runs.runModelTests model with
    | ok results => simp [htests] at h
    | error e =>
      simp only [htests, Bool.and_true, Bool.and_eq_true, decide_eq_true_eq,
        Bool.not_eq_eq_eq_not, Bool.not_true] at h
      simp only [h.1, ne_eq, not_true_eq_false, if_false, buildTests, h.2, Bool.false_eq_true,
        htests]
      exact ⟨e, rfl⟩

/-! ### The loop -/

/-- What the loop has reported and blocked after a part of the selection. -/
structure Reports (dag : ProjectDAG) (runs : ProjectRuns) (done : List String)
    (state : BuildState) : Prop where
  once : (state.ran ++ state.out.skipped).Perm done
  blocked : ∀ x, x ∈ state.blocked ↔ ∃ a ∈ done, dag.Ancestor a x ∧ Fails dag runs a
  cause : ∀ x ∈ state.blocked, ∃ a ∈ state.ran, dag.Ancestor a x ∧ Fails dag runs a
  ordered : state.ran.Pairwise fun a b => dag.Ancestor a b → ¬ Fails dag runs a
  skipped : ∀ x ∈ state.out.skipped, ∃ a ∈ state.ran, dag.Ancestor a x ∧ Fails dag runs a

theorem model?_of_selected {chosen : String → Bool} {name : String}
    (h : name ∈ dag.selectModels chosen) :
    ∃ model, dag.model? name = some model ∧ model.name = name := by
  have hname : name ∈ dag.models.map ModelConfig.name :=
    (of_decide_eq_true (List.mem_filter.mp h).2).2
  obtain ⟨model, hmodel, hmatch⟩ := List.mem_map.mp hname
  have hsome : (dag.model? name).isSome :=
    List.find?_isSome.mpr ⟨model, hmodel, decide_eq_true hmatch⟩
  obtain ⟨found, hfound⟩ := Option.isSome_iff_exists.mp hsome
  exact ⟨found, hfound, by simpa using List.find?_some hfound⟩

theorem fails_iff {name : String} {model : ModelConfig} (h : dag.model? name = some model) :
    Fails dag runs name ↔ runs.fails model = true := by
  simp [Fails, h]

theorem raises_iff {name : String} {model : ModelConfig} (h : dag.model? name = some model) :
    Raises dag runs name ↔ runs.raises model = true := by
  simp [Raises, h]

/-- A blocked name is skipped. Its own descendants are blocked already. -/
theorem Reports.skip {done : List String} {state : BuildState} (h : Reports dag runs done state)
    {name : String} (hblocked : name ∈ state.blocked) :
    Reports dag runs (done ++ [name]) (state.skip name) where
  once := by
    have hstep : (state.skip name).ran ++ (state.skip name).out.skipped =
        (state.ran ++ state.out.skipped) ++ [name] := by
      simp [BuildState.ran, BuildState.skip]
    rw [hstep]
    exact h.once.append_right _
  blocked := by
    intro x
    rw [show (state.skip name).blocked = state.blocked from rfl, h.blocked]
    constructor
    · rintro ⟨a, ha, hx⟩
      exact ⟨a, List.mem_append_left _ ha, hx⟩
    · rintro ⟨a, ha, hax, hfails⟩
      rcases List.mem_append.mp ha with ha | ha
      · exact ⟨a, ha, hax, hfails⟩
      · obtain rfl := List.mem_singleton.mp ha
        obtain ⟨b, hb, hba, hbfails⟩ := (h.blocked a).mp hblocked
        exact ⟨b, hb, hba.trans hax, hbfails⟩
  cause := h.cause
  ordered := h.ordered
  skipped := by
    intro x hx
    rcases List.mem_append.mp hx with hx | hx
    · exact h.skipped x hx
    · obtain rfl := List.mem_singleton.mp hx
      exact h.cause x hblocked

/-- A name that is not blocked is run, and blocks its descendants if it fails. -/
theorem Reports.run {done : List String} {state state' : BuildState}
    (h : Reports dag runs done state) {model : ModelConfig} (hnode : model.name ∈ dag.nodes)
    (hmodel : dag.model? model.name = some model) (hblocked : model.name ∉ state.blocked)
    (hran : state'.ran = state.ran ++ [model.name])
    (hskipped : state'.out.skipped = state.out.skipped)
    (hblock : state'.blocked = state.blocked ++
      if runs.fails model then dag.descendants model.name else []) :
    Reports dag runs (done ++ [model.name]) state' := by
  have hnew : ∀ x, (x ∈ if runs.fails model then dag.descendants model.name else []) ↔
      dag.Ancestor model.name x ∧ Fails dag runs model.name := by
    intro x
    rw [fails_iff hmodel]
    by_cases hfails : runs.fails model = true
    · simp [hfails, ProjectDAG.mem_descendants hnode]
    · simp [hfails]
  have hkept : ∀ x, (∃ a ∈ state.ran, dag.Ancestor a x ∧ Fails dag runs a) →
      ∃ a ∈ state'.ran, dag.Ancestor a x ∧ Fails dag runs a := by
    rintro x ⟨a, ha, hx⟩
    exact ⟨a, by rw [hran]; exact List.mem_append_left _ ha, hx⟩
  constructor
  · rw [hran, hskipped, List.append_assoc]
    refine ((List.perm_append_comm ).append_left state.ran).trans ?_
    rw [← List.append_assoc]
    exact h.once.append_right _
  · intro x
    rw [hblock, List.mem_append, hnew, h.blocked]
    simp only [List.mem_append, List.mem_singleton]
    constructor
    · rintro (⟨a, ha, hx⟩ | hx)
      · exact ⟨a, .inl ha, hx⟩
      · exact ⟨model.name, .inr rfl, hx⟩
    · rintro ⟨a, ha | rfl, hx⟩
      · exact .inl ⟨a, ha, hx⟩
      · exact .inr hx
  · intro x hx
    rw [hblock, List.mem_append, hnew] at hx
    rcases hx with hx | hx
    · exact hkept x (h.cause x hx)
    · exact ⟨model.name, by simp [hran], hx⟩
  · rw [hran]
    refine List.pairwise_append.mpr ⟨h.ordered, List.pairwise_singleton _ _, fun a ha b hb => ?_⟩
    obtain rfl := List.mem_singleton.mp hb
    intro hab hfails
    refine hblocked ((h.blocked _).mpr ⟨a, ?_, hab, hfails⟩)
    exact h.once.mem_iff.mp (List.mem_append_left _ ha)
  · intro x hx
    rw [hskipped] at hx
    exact hkept x (h.skipped x hx)

/-- From any state of the loop, the rest completes exactly if no reached model raises, and what it
reports covers the whole selection. -/
theorem foldBuild_spec {chosen : String → Bool} {done todo : List String} {state : BuildState}
    (hselected : dag.selectModels chosen = done ++ todo) (h : Reports dag runs done state) :
    ((∃ state', todo.foldlM (buildStep dag runs) state = .ok state') ↔
      ∀ name ∈ todo, Reached dag runs chosen name → ¬ Raises dag runs name) ∧
    ∀ state', todo.foldlM (buildStep dag runs) state = .ok state' →
      Reports dag runs (dag.selectModels chosen) state' := by
  induction todo generalizing done state with
  | nil =>
    refine ⟨iff_of_true ⟨state, rfl⟩ (by simp), fun state' hstate' => ?_⟩
    obtain rfl := Except.ok.inj hstate'
    rwa [hselected, List.append_nil]
  | cons name todo ih =>
    have hmem : name ∈ dag.selectModels chosen := by simp [hselected]
    have hnext : dag.selectModels chosen = (done ++ [name]) ++ todo := by simp [hselected]
    have hreached : Reached dag runs chosen name ↔ name ∉ state.blocked := by
      rw [h.blocked]
      constructor
      · rintro hreach ⟨a, ha, hax, hfails⟩
        exact hreach a (by simp [hselected, ha]) hax hfails
      · intro hfree a ha hax hfails
        exact hfree ⟨a, hax.before hselected ha, hax, hfails⟩
    obtain ⟨model, hmodel, hname⟩ := model?_of_selected hmem
    by_cases hblocked : name ∈ state.blocked
    · have hstep : buildStep dag runs state name = .ok (state.skip name) := if_pos hblocked
      obtain ⟨hiff, hreports⟩ := ih hnext (h.skip hblocked)
      rw [List.foldlM_cons, hstep]
      refine ⟨hiff.trans ?_, hreports⟩
      rw [List.forall_mem_cons, and_iff_right fun hreach => absurd hblocked (hreached.mp hreach)]
    · have hstep : buildStep dag runs state name = buildModel dag runs state model := by
        rw [buildStep, if_neg hblocked, hmodel]
      rw [List.foldlM_cons, hstep]
      cases hraises : runs.raises model with
      | false =>
        obtain ⟨state', hrun, hran, hskipped, hblock⟩ :=
          buildModel_of_not_raises hraises
        subst hname
        obtain ⟨hiff, hreports⟩ := ih hnext
          (h.run (ProjectDAG.mem_nodes_of_selected hmem) hmodel hblocked hran hskipped hblock)
        rw [hrun]
        refine ⟨hiff.trans ?_, hreports⟩
        rw [List.forall_mem_cons, and_iff_right fun _ => by simp [raises_iff hmodel, hraises]]
      | true =>
        obtain ⟨e, hrun⟩ := buildModel_of_raises hraises
        rw [hrun]
        refine ⟨iff_of_false ?_ fun hall => ?_, ?_⟩
        · rintro ⟨state', hstate'⟩
          cases hstate'
        · exact hall name List.mem_cons_self (hreached.mpr hblocked)
            ((raises_iff hmodel).mpr hraises)
        · intro state' hstate'
          cases hstate'

theorem reports_nil (dag : ProjectDAG) (runs : ProjectRuns) : Reports dag runs [] {} where
  once := .refl _
  blocked := by simp
  cause := by simp
  ordered := .nil
  skipped := by simp

theorem Reports.blocksDescendants {chosen : String → Bool} {state : BuildState}
    (h : Reports dag runs (dag.selectModels chosen) state) :
    BlocksDescendants dag runs chosen state.out :=
  ⟨h.once, h.ordered, h.skipped⟩

/-- **Builds.** A build completes, reports every selected model once, runs none after an ancestor
that failed and skips only descendants of failures, exactly if no selected model without a failing
selected ancestor raises an exception other than a `RunError` of its run. -/
theorem build_blocks_descendants_iff (dag : ProjectDAG) (runs : ProjectRuns)
    (chosen : String → Bool) :
    (∃ out, buildProject dag runs chosen = .ok out ∧ BlocksDescendants dag runs chosen out) ↔
      ∀ name ∈ dag.selectModels chosen, Reached dag runs chosen name → ¬ Raises dag runs name := by
  have hselected : dag.selectModels chosen = [] ++ dag.selectModels chosen := rfl
  obtain ⟨hiff, hreports⟩ := foldBuild_spec hselected (reports_nil dag runs)
  rw [← hiff]
  constructor
  · rintro ⟨out, hout, -⟩
    obtain ⟨state, hstate, -⟩ := bind_eq_ok.mp hout
    exact ⟨state, hstate⟩
  · rintro ⟨state, hstate⟩
    exact ⟨state.out, bind_eq_ok.mpr ⟨state, hstate, rfl⟩,
      (hreports state hstate).blocksDescendants⟩

end Build

/-! ### A chunk model whose document was removed -/

section Removed

open Execution Warehouse

/-- A warehouse that still reads its state and fails to delete. -/
def failingDeletes : Interp TargetOp TargetOp.Ret Failure StateTable := fun o state =>
  match o with
  | .fetchState => (state, .ok state)
  | _ => (state, .error (.adapterError "DuckDB delete failed"))

/-- A runtime; no document is chunked below. -/
def idleRuntime : ChunkRuntime where
  finditer := fun _ _ => []
  encode := fun _ _ => []
  decode := fun _ _ => []
  digest := id
  inputFingerprint := fun documentId text _ => documentId ++ text
  codeVersion := fun _ _ => "v1"
  inferType := fun _ => "String"

/-- The run of the chunk model over an upstream from which its only document has gone. -/
def removedChunkRun : Except Failure ChunkResult :=
  ((runChunkModel idleRuntime ⟨"chunks", "docs", true, .fail⟩ plainConfig false
    "2026-01-01T00:00:00+00:00"
    ⟨[("document_id", "String"), ("text", "String")], [], nodup_documentColumns, by simp⟩).exec failingDeletes
      (StateTable.replace [⟨"doc-1", "fingerprint", "v1"⟩])).2

theorem removedChunkRun_eq :
    removedChunkRun = .error (.adapterError "DuckDB delete failed") := by decide +kernel

/-- A project of two models over one source. -/
def chunkProject : ProjectDAG where
  sources := ["docs"]
  models := [⟨"chunks", "incremental", some "ref('docs')", [], [], [], false⟩,
    ⟨"notes", "full", some "docs", [], [], [], false⟩]
  sorted := ["docs", "chunks", "notes"]
  nodup := by decide
  known := by decide +kernel
  sorted_perm := .refl _
  sorted_lt := idxOf_lt_of_models (by decide +kernel)

/-- The chunk model is run as above; the other model has nothing to do. -/
def chunkRuns : ProjectRuns where
  runModel := fun model =>
    if model.name = "chunks" then
      removedChunkRun.map fun _ => ⟨⟨model.name, model.materialization, "chunk", []⟩, rfl⟩
    else .ok ⟨⟨model.name, model.materialization, "transform", []⟩, rfl⟩
  runModelTests := fun _ => .ok []

/-- The `AdapterError` of the chunk model ends the build: nothing is reported, and the model that
does not depend on it is not run. -/
theorem adapter_error_ends_build :
    (∃ model, chunkProject.model? "chunks" = some model ∧
      (chunkRuns.runModel model).map (·.1) = .error (.adapterError "DuckDB delete failed")) ∧
    ¬ ∃ out, buildProject chunkProject chunkRuns (fun _ => true) = .ok out ∧
      BlocksDescendants chunkProject chunkRuns (fun _ => true) out := by
  have hbuild : buildProject chunkProject chunkRuns (fun _ => true) =
      .error (.adapterError "DuckDB delete failed") := by decide +kernel
  refine ⟨⟨_, rfl, ?_⟩, ?_⟩
  · simp only [chunkRuns, removedChunkRun_eq]
    rfl
  · rintro ⟨out, hout, -⟩
    rw [hbuild] at hout
    cases hout

end Removed

end Stel
