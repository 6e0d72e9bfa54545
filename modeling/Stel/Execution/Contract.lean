import Stel.Execution.Transform

/-!
# Incremental contracts

The contract by which a transform module declares how its input parents map to child rows
(`transforms/runner.py`), and the fingerprints over the frames it names (`execution/transform.py`).

## Main definitions

* `IncrementalContract`, `IncrementalContract.validateAgainst`.
* `frameFingerprint`, `parentFingerprint`.
* `IncrementalTransform`: a transform module with an accepted contract.
* `IncrementalTransform.run`: `_run_incremental_transform` on the frames of its dependencies.

## Main results

* `IncrementalContract.validateAgainst_eq_ok`: no dependency of an accepted contract escapes
  invalidation.
-/

namespace Stel.Execution

open Stel.Warehouse

/-- `IncrementalContract`. -/
structure IncrementalContract where
  parentKey : String
  childKey : String
  parentSourceKey : String
  parentSource : Option String := none
  referenceDeps : List String := []
  deriving DecidableEq, Repr

namespace IncrementalContract

variable (contract : IncrementalContract)

/-- `resolve_parent_source`. -/
def resolveParentSource (dependencies : List String) : String :=
  contract.parentSource.getD (dependencies.headD "")

/-- The check of one of the three names. -/
def requireName (name value : String) : Except Failure Unit :=
  if isBlank value then
    .error (.other ("IncrementalContract." ++ name ++ " must be a non-empty string"))
  else .ok ()

/-- The names of a set in order. -/
def sortedNames (names : List String) : List String := names.dedup.insertionSort (· ≤ ·)

/-- The last part of `validate_against`, for a contract that names its parent source. -/
def validateParentSource (source : String) (dependencies : List String) : Except Failure Unit :=
  let refs := contract.referenceDeps
  let unknown := sortedNames (refs.filter (· ∉ dependencies))
  let unclassified := sortedNames (dependencies.filter fun d => d ≠ source ∧ d ∉ refs)
  if isBlank source then
    .error (.other "IncrementalContract.parent_source must be non-empty or None")
  else if source ∉ dependencies then
    .error (.other ("IncrementalContract.parent_source '" ++ source ++ "' is not in depends_on " ++
      printNames (sortedNames dependencies)))
  else if source ∈ refs then
    .error (.other "IncrementalContract.parent_source must not also be a reference_dep")
  else if unknown ≠ [] then
    .error (.other ("IncrementalContract.reference_deps not in depends_on: " ++
      printNames unknown))
  else if unclassified ≠ [] then
    .error (.other ("IncrementalContract must account for every dependency; unclassified: " ++
      printNames unclassified ++ " (make one the parent_source or list it in reference_deps)"))
  else .ok ()

/-- `validate_against`. -/
def validateAgainst (dependencies : List String) : Except Failure Unit := do
  requireName "parent_key" contract.parentKey
  requireName "child_key" contract.childKey
  requireName "parent_source_key" contract.parentSourceKey
  if contract.parentKey = contract.childKey then
    .error (.other "IncrementalContract parent_key and child_key must differ")
  else if ∃ ref ∈ contract.referenceDeps, isBlank ref then
    .error (.other "IncrementalContract.reference_deps must be non-empty model-name strings")
  else if ¬ contract.referenceDeps.Nodup then
    .error (.other "IncrementalContract.reference_deps contains duplicates")
  else match contract.parentSource with
    | some source => contract.validateParentSource source dependencies
    | none =>
      if contract.referenceDeps ≠ [] then
        .error (.other ("IncrementalContract with no parent_source cannot declare " ++
          "reference_deps; name the parent_source explicitly instead"))
      else if dependencies.dedup.length ≠ 1 then
        .error (.other ("IncrementalContract without a parent_source requires exactly one " ++
          "dependency; depends_on is " ++ printNames (sortedNames dependencies)))
      else .ok ()

theorem sortedNames_eq_nil {names : List String} (h : sortedNames names = []) : names = [] := by
  have hlen : names.dedup.length = 0 := by
    rw [← List.length_insertionSort (· ≤ ·) names.dedup]
    exact List.length_eq_zero_iff.mpr h
  exact (List.dedup_eq_nil names).mp (List.length_eq_zero_iff.mp hlen)

theorem validateParentSource_eq_ok {source : String} {dependencies : List String}
    (h : contract.validateParentSource source dependencies = .ok ()) :
    ∀ d ∈ dependencies, d ≠ source → d ∈ contract.referenceDeps := by
  simp only [validateParentSource] at h
  split at h
  · cases h
  split at h
  · cases h
  split at h
  · cases h
  split at h
  · cases h
  split at h
  · cases h
  rename_i hnone
  intro d hd hne
  by_contra hout
  have hnil := sortedNames_eq_nil (not_not.mp hnone)
  have hmem : d ∈ dependencies.filter fun d => d ≠ source ∧ d ∉ contract.referenceDeps :=
    List.mem_filter.mpr ⟨hd, decide_eq_true ⟨hne, hout⟩⟩
  rw [hnil] at hmem
  cases hmem

/-- **No input escapes invalidation.** Every dependency of an accepted contract is its parent source
or one of its references. -/
theorem validateAgainst_eq_ok {dependencies : List String}
    (h : contract.validateAgainst dependencies = .ok ()) :
    ∀ d ∈ dependencies, d ≠ contract.resolveParentSource dependencies →
      d ∈ contract.referenceDeps := by
  obtain ⟨_, -, h⟩ := bind_eq_ok.mp h
  obtain ⟨_, -, h⟩ := bind_eq_ok.mp h
  obtain ⟨_, -, h⟩ := bind_eq_ok.mp h
  split at h
  · cases h
  split at h
  · cases h
  split at h
  · cases h
  split at h
  · rename_i source hsource
    rw [resolveParentSource, hsource, Option.getD_some]
    exact contract.validateParentSource_eq_ok h
  rename_i hsource
  split at h
  · cases h
  split at h
  · cases h
  rename_i hone
  rw [resolveParentSource, hsource, Option.getD_none]
  intro d hd hne
  obtain ⟨only, honly⟩ := List.length_eq_one_iff.mp (not_not.mp hone)
  have hall : ∀ x ∈ dependencies, x = only := fun x hx => by
    have hmem := List.mem_dedup.mpr hx
    rw [honly] at hmem
    exact List.mem_singleton.mp hmem
  cases dependencies with
  | nil => cases hd
  | cons first rest =>
    exact absurd ((hall d hd).trans (hall first List.mem_cons_self).symm) hne

end IncrementalContract

/-! ### Fingerprints -/

/-- A row as a mapping from column names to cells, in the order of the names. -/
abbrev RowDict : Type := List (String × Cell)

/-- A row of `iter_rows(named=True)`. -/
def rowDict (columns : List String) (row : Row) : RowDict :=
  (columns.insertionSort (· ≤ ·)).map fun c => (c, row c)

/-- The rows of a frame. -/
def rowDicts (frame : Frame) : List RowDict := frame.rows.map (rowDict frame.columns)

/-- What the fingerprints use of `hashing`. -/
structure TransformRuntime where
  /-- `canonical_json` of a row. -/
  canonicalJson : RowDict → String
  /-- `canonical_fingerprint` of the rows of a reference. -/
  referenceFingerprint : List RowDict → String
  /-- `canonical_fingerprint` of a parent, its rows and the fingerprints of the references. -/
  inputFingerprint : String → List RowDict → List (String × String) → String

/-- The digests do not collide. -/
structure TransformRuntime.CollisionFree (rt : TransformRuntime) : Prop where
  reference_inj : Function.Injective rt.referenceFingerprint
  input_inj : ∀ {key key' : String} {rows rows' : List RowDict} {refs refs' : List (String × String)},
    rt.inputFingerprint key rows refs = rt.inputFingerprint key' rows' refs' →
      key = key' ∧ rows = rows' ∧ refs = refs'

section Fingerprints

variable (rt : TransformRuntime)

/-- `sorted(rows, key=canonical_json)`. -/
def sortRows (rows : List RowDict) : List RowDict :=
  rows.insertionSort fun a b => rt.canonicalJson a ≤ rt.canonicalJson b

/-- `_frame_fingerprint`, on the rows of the frame. -/
def frameFingerprint (rows : List RowDict) : String := rt.referenceFingerprint (sortRows rt rows)

/-- `_parent_fingerprint`. -/
def parentFingerprint (parentKey : String) (rows : List RowDict)
    (referenceFingerprints : List (String × String)) : String :=
  rt.inputFingerprint parentKey (sortRows rt rows) referenceFingerprints

variable {rt}

/-- Sorted lists forget the order of the rows and nothing else. -/
theorem perm_of_sortRows_eq {rows rows' : List RowDict} (h : sortRows rt rows = sortRows rt rows') :
    rows.Perm rows' := by
  calc rows.Perm (sortRows rt rows) := (List.perm_insertionSort _ rows).symm
    _ = sortRows rt rows' := h
    List.Perm _ rows' := List.perm_insertionSort _ rows'

theorem perm_of_frameFingerprint_eq (hrt : rt.CollisionFree) {rows rows' : List RowDict}
    (h : frameFingerprint rt rows = frameFingerprint rt rows') : rows.Perm rows' :=
  perm_of_sortRows_eq (hrt.reference_inj h)

end Fingerprints

/-! ### A transform module -/

/-- A transform module under its options `Ω`, with a contract that its dependencies are validated
against. -/
structure IncrementalTransform (Ω : Type) where
  name : String
  dependencies : List String
  contract : IncrementalContract
  accepted : contract.validateAgainst dependencies = .ok ()
  onSchemaChange : OnSchemaChange
  /-- `warehouse_options.incremental_strategy` is `insert_overwrite`. -/
  insertOverwrite : Bool
  runtime : TransformRuntime
  /-- `compute_model_code_version`. -/
  codeVersion : Ω → String
  /-- `_invoke_transform` and `_validate_agent_context_output`, on the frames by their names. -/
  transformFn : Ω → (String → Frame) → Except Failure Frame

namespace IncrementalTransform

variable {Ω : Type} (T : IncrementalTransform Ω)

/-- The parent source. -/
def parentSource : String := T.contract.resolveParentSource T.dependencies

/-- The rows of the dependencies by name. -/
def frameRows (deps : String → Frame) : String → List RowDict := fun n => rowDicts (deps n)

/-- The fingerprints of the references. -/
def referenceFingerprints (refs : String → List RowDict) : List (String × String) :=
  T.contract.referenceDeps.map fun ref => (ref, frameFingerprint T.runtime (refs ref))

/-- The transform with its contract under some options. -/
def model (o : Ω) : TransformModel (String → Frame) where
  name := T.name
  parentKey := T.contract.parentKey
  childKey := T.contract.childKey
  parentSourceKey := T.contract.parentSourceKey
  codeVersion := T.codeVersion o
  onSchemaChange := T.onSchemaChange
  fingerprint key rows deps := parentFingerprint T.runtime key
    (rows.map (rowDict (deps T.parentSource).columns)) (T.referenceFingerprints (frameRows deps))
  transform called deps := T.transformFn o (Function.update deps T.parentSource called)
  insertOverwrite := T.insertOverwrite

/-- `_run_incremental_transform`, on the frames of the dependencies. -/
def run (o : Ω) (fullRefresh : Bool) (deps : String → Frame) : TargetProg TransformResult :=
  runIncrementalTransform (T.model o) fullRefresh (deps T.parentSource) deps

/-- The parents of the source with their rows. -/
def groups (deps : String → Frame) : Except Failure (List (String × List Row)) :=
  parentGroups (deps T.parentSource) T.contract.parentSourceKey T.name

/-- The state value of a parent with the given rows and reference rows. -/
def value (o : Ω) (key : String) (rows : List RowDict) (refs : String → List RowDict) : StateValue :=
  ⟨parentFingerprint T.runtime key rows (T.referenceFingerprints refs), T.codeVersion o⟩

/-- The rows of a parent as the fingerprint takes them. -/
def parentRows (deps : String → Frame) (rows : List Row) : List RowDict :=
  rows.map (rowDict (deps T.parentSource).columns)

/-- The state records of all the parents. -/
def records (o : Ω) (deps : String → Frame) : List StateRecord :=
  match T.groups deps with
  | .ok groups => groups.map fun g =>
      let value := T.value o g.1 (T.parentRows deps g.2) (frameRows deps)
      ⟨g.1, value.inputFingerprint, value.codeVersion⟩
  | .error _ => []

/-- The current state value of a parent, if the source has it. -/
def current (o : Ω) (deps : String → Frame) (key : String) : Option StateValue :=
  (StateTable.replace (T.records o deps)).lookup key

end IncrementalTransform

end Stel.Execution
