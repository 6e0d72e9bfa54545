import Stel.Warehouse.Target
import Stel.Data.Text

/-!
# Incremental transforms

`_run_incremental_transform` of `execution/transform.py`: a transform with a declared contract is
invoked on the changed and new parents only, and its output replaces their children.

## Main definitions

* `TransformModel`: the resolved transform with its contract.
* `parentGroups`, `classifyParents`, `validateIncrementalOutput`.
* `runIncrementalTransform`: the run.
* `Untouched`: a target row whose parent the run neither processes nor removes.

## Main results

* `untouched_rows_kept_iff`: when the run keeps every untouched row.
* `unchanged_child_deleted`: a run that deletes one.
-/

namespace Stel.Execution

open Stel.Warehouse

/-- A transform resolved against its project, with the contract it declares, over the frames `ρ`
of its reference dependencies. -/
structure TransformModel (ρ : Type) where
  name : String
  parentKey : String
  childKey : String
  parentSourceKey : String
  codeVersion : String
  onSchemaChange : OnSchemaChange
  /-- `_parent_fingerprint`, with the fingerprints of the references. -/
  fingerprint : String → List Row → ρ → String
  /-- `_invoke_transform` and `_validate_agent_context_output`. -/
  transform : Frame → ρ → Except Failure Frame
  /-- `warehouse_options.incremental_strategy` is `insert_overwrite`. -/
  insertOverwrite : Bool

/-- The fields of `ModelRunResult` that the run sets. -/
structure TransformResult where
  rowsWritten : ℕ := 0
  documentsProcessed : ℕ := 0
  documentsSkipped : ℕ := 0
  documentsDeleted : ℕ := 0
  incremental : Bool
  deriving DecidableEq, Repr

/-! ### Parents -/

/-- Adds a row to the group of its key, a new group coming last. -/
def addToGroup (key : String) (row : Row) : List (String × List Row) → List (String × List Row)
  | [] => [(key, [row])]
  | (k, rows) :: groups =>
    if k = key then (k, rows ++ [row]) :: groups else (k, rows) :: addToGroup key row groups

/-- The loop of `_parent_groups`. -/
def groupRows (name keyCol : String) :
    List (String × List Row) → List Row → Except Failure (List (String × List Row))
  | groups, [] => .ok groups
  | groups, row :: rows =>
    match (row keyCol).text with
    | some key =>
      if isBlank key then
        .error (.runError ("Incremental transform '" ++ name ++ "': parent key column '" ++
          keyCol ++ "' contains null or empty values"))
      else groupRows name keyCol (addToGroup key row groups) rows
    | none => .error (.runError ("Incremental transform '" ++ name ++ "': parent key column '" ++
        keyCol ++ "' contains null or empty values"))

/-- `_parent_groups`. -/
def parentGroups (frame : Frame) (keyCol name : String) :
    Except Failure (List (String × List Row)) :=
  match frame.schema.lookup keyCol with
  | none => .error (.runError ("Incremental transform '" ++ name ++
      "': parent_source is missing the parent key column '" ++ keyCol ++ "'. Available: " ++
      printNames (frame.columns.insertionSort (· ≤ ·))))
  | some type =>
    if type ≠ "String" then
      .error (.runError ("Incremental transform '" ++ name ++ "': parent key column '" ++ keyCol ++
        "' must be string-typed, got " ++ type))
    else groupRows name keyCol [] frame.rows

/-- The locals of the classification loop. -/
structure ParentClassification where
  processed : List String := []
  records : List StateRecord := []
  changed : List String := []
  skipped : ℕ := 0
  deriving DecidableEq, Repr

section Run

variable {ρ : Type} (model : TransformModel ρ)

/-- The classification loop. -/
def classifyParents (isIncremental : Bool) (prior : StateTable) (references : ρ) :
    List (String × List Row) → ParentClassification
  | [] => {}
  | (key, rows) :: groups =>
    let fingerprint := model.fingerprint key rows references
    let rest := classifyParents isIncremental prior references groups
    let previous := if isIncremental then prior.lookup key else none
    if previous = some ⟨fingerprint, model.codeVersion⟩ then
      { rest with skipped := rest.skipped + 1 }
    else
      { rest with
        processed := key :: rest.processed
        records := ⟨key, fingerprint, model.codeVersion⟩ :: rest.records
        changed := if previous.isSome then key :: rest.changed else rest.changed }

/-- `_validate_incremental_output`. -/
def validateIncrementalOutput (output : Frame) (processed : List String) (isIncremental : Bool) :
    Except Failure Unit :=
  let prefixed := "Incremental transform '" ++ model.name ++ "' "
  let emitted := output.rows.filterMap fun row => (row model.parentKey).text
  let unexpected := (emitted.filter (· ∉ processed)).dedup.insertionSort (· ≤ ·)
  if model.parentKey ∉ output.columns then
    .error (.runError (prefixed ++ "output is missing declared column '" ++ model.parentKey ++ "'"))
  else if model.childKey ∉ output.columns then
    .error (.runError (prefixed ++ "output is missing declared column '" ++ model.childKey ++ "'"))
  else if output.height = 0 then .ok ()
  else if ∃ row ∈ output.rows, row model.parentKey = .null then
    .error (.runError (prefixed ++ "produced null " ++ model.parentKey ++ " parent keys"))
  else if ∃ row ∈ output.rows, row model.childKey = .null then
    .error (.runError (prefixed ++ "produced null " ++ model.childKey ++ " child keys"))
  else if ¬ (output.rows.map (· model.childKey)).Nodup then
    .error (.runError (prefixed ++ "produced duplicate " ++ model.childKey ++ " child keys"))
  else if isIncremental ∧ unexpected ≠ [] then
    .error (.runError (prefixed ++ "emitted rows for parents outside the changed/new set: " ++
      printNames (unexpected.take 5)))
  else .ok ()

/-! ### The run -/

/-- `_reject_unsupported_incremental_strategy`. -/
def rejectUnsupportedStrategy : Except Failure Unit :=
  if model.insertOverwrite then
    .error (.runError ("Incremental transform '" ++ model.name ++ "' cannot use " ++
      "warehouse_options.incremental_strategy: insert_overwrite — it replaces " ++
      "whole partitions, but incremental transforms publish only changed and " ++
      "new parents, which would drop unchanged parents sharing a partition. " ++
      "Use the default merge strategy."))
  else .ok ()

/-- The prior state, and whether the run is incremental: a target without a state baseline is
rebuilt. -/
def stateBaseline (fullRefresh : Bool) : TargetProg (StateTable × Bool) :=
  if fullRefresh then .pure (∅, false)
  else do
    let prior ← Prog.perform TargetOp.fetchState
    if prior.keys = [] then do
      let present ← Prog.perform TargetOp.relationExists
      return (prior, !present)
    else return (prior, true)

/-- The publication of the processed parents. -/
def publishParents (isIncremental : Bool) (c : ParentClassification) (removed : List String)
    (output : Frame) : TargetProg TransformResult :=
  if ¬ isIncremental then do
    let rowsWritten ← Prog.perform (TargetOp.materializeFull output)
    Prog.perform (TargetOp.replaceState c.records)
    return { rowsWritten, documentsProcessed := c.processed.length, incremental := false }
  else do
    deleteRemoved model.parentKey removed
    let rowsWritten ← asRunError (Prog.perform (TargetOp.replaceChildren model.parentKey c.changed
      model.childKey output c.records model.onSchemaChange))
    return {
      rowsWritten
      documentsProcessed := c.processed.length
      documentsSkipped := c.skipped
      documentsDeleted := removed.length
      incremental := true }

/-- The parents that the transform is called with. -/
def changedParents (processed : List String) (parents : Frame) : Frame :=
  parents.filterRows fun row => ∃ key ∈ processed, (row model.parentSourceKey).text = some key

/-- `_run_incremental_transform`. -/
def runIncrementalTransform (fullRefresh : Bool) (parents : Frame) (references : ρ) :
    TargetProg TransformResult := do
  .ofExcept (rejectUnsupportedStrategy model)
  let (prior, isIncremental) ← stateBaseline fullRefresh
  let groups ← Prog.ofExcept (parentGroups parents model.parentSourceKey model.name)
  let c := classifyParents model isIncremental prior references groups
  let removed := if isIncremental then prior.keys.filter (· ∉ groups.map Prod.fst) else []
  if isIncremental ∧ c.processed = [] then do
    deleteRemoved model.parentKey removed
    return {
      documentsSkipped := c.skipped
      documentsDeleted := removed.length
      incremental := true }
  else do
    let called := if isIncremental then changedParents model c.processed parents else parents
    let output ← Prog.ofExcept (model.transform called references)
    .ofExcept (validateIncrementalOutput model output c.processed isIncremental)
    publishParents model isIncremental c removed output

/-! ### What a run does to the target -/

variable {assign : Assignment} {table : String}

/-- `stateBaseline` of an incremental run. -/
theorem exec_stateBaseline {s : Target} (h : s.state.keys ≠ [] ∨ s.table = none) :
    (stateBaseline false).exec (TargetOp.exec assign table) s = (s, .ok (s.state, true)) := by
  by_cases hkeys : s.state.keys = []
  · have htable : s.table = none := h.resolve_left (not_not.mpr hkeys)
    simp [stateBaseline, Prog.exec, TargetOp.exec, hkeys, htable]
  · simp [stateBaseline, Prog.exec, TargetOp.exec, hkeys]

/-- The publication of an incremental run. -/
theorem exec_publishParents {c : ParentClassification} {removed : List String} {output : Frame}
    {s t : Target} {out : Except Failure TransformResult}
    (h : (publishParents model true c removed output).exec (TargetOp.exec assign table) s =
      (t, out)) :
    (∃ e, out = .error e) ∧
        (t = s ∨ deleteRows model.parentKey (removed.map .string) s.table = .ok t.table) ∨
      (∃ result, out = .ok result) ∧ ∃ deleted,
        deleteRows model.parentKey (removed.map .string) s.table = .ok deleted ∧
          replaceChildren assign table model.parentKey c.changed model.childKey output
            model.onSchemaChange deleted = .ok t.table := by
  simp only [publishParents, not_true_eq_false, if_false] at h
  rcases hdel : (deleteRemoved model.parentKey removed).exec (TargetOp.exec assign table) s with
    ⟨u, out'⟩
  rcases exec_deleteRemoved hdel with ⟨⟨e, rfl⟩, rfl⟩ | ⟨rfl, hdeleted, -⟩
  · rw [Prog.exec_bind_error _ hdel] at h
    obtain ⟨rfl, rfl⟩ := Prod.mk.inj h
    exact .inl ⟨⟨e, rfl⟩, .inl rfl⟩
  rw [Prog.exec_bind_ok _ hdel] at h
  rcases hrep : (asRunError (Prog.perform (TargetOp.replaceChildren model.parentKey c.changed
    model.childKey output c.records model.onSchemaChange))).exec (TargetOp.exec assign table) u with
    ⟨v, out'⟩
  rcases exec_asRunError hrep with ⟨⟨e, rfl⟩, rfl⟩ | ⟨r, rfl, hop⟩
  · rw [Prog.exec_bind_error _ hrep] at h
    obtain ⟨rfl, rfl⟩ := Prod.mk.inj h
    exact .inl ⟨⟨e, rfl⟩, .inr hdeleted⟩
  · rw [Prog.exec_bind_ok _ hrep] at h
    obtain ⟨rfl, rfl⟩ := Prod.mk.inj h
    exact .inr ⟨⟨_, rfl⟩, u.table, hdeleted, (exec_replaceChildren hop).2.1⟩

/-- The parents of the source with their classification in an incremental run. -/
def incrementalParents (prior : StateTable) (parents : Frame) (references : ρ) :
    Except Failure (ParentClassification × List String) := do
  let groups ← parentGroups parents model.parentSourceKey model.name
  return (classifyParents model true prior references groups,
    prior.keys.filter (· ∉ groups.map Prod.fst))

/-- The output of the transform in an incremental run, if it is called and its output accepted. -/
def incrementalOutput (prior : StateTable) (parents : Frame) (references : ρ) :
    Except Failure (Option Frame) := do
  let (c, _) ← incrementalParents model prior parents references
  if c.processed = [] then return none
  let output ← model.transform (changedParents model c.processed parents) references
  validateIncrementalOutput model output c.processed true
  return some output

/-- What an incremental run does to the table: it fails, perhaps after it deleted the children of
the removed parents, it deletes these only, or it publishes the output of the transform. -/
theorem incremental_run_cases {parents : Frame} {references : ρ} {s t : Target}
    {out : Except Failure TransformResult} (hincremental : s.state.keys ≠ [] ∨ s.table = none)
    (h : (runIncrementalTransform model false parents references).exec
      (TargetOp.exec assign table) s = (t, out)) :
    (∃ e, out = .error e) ∧ t = s ∨
      ∃ c removed, incrementalParents model s.state parents references = .ok (c, removed) ∧
        ∃ deleted, deleteRows model.parentKey (removed.map .string) s.table = .ok deleted ∧
          ((∃ e, out = .error e) ∧ t.table = deleted ∨
            incrementalOutput model s.state parents references = .ok none ∧ t.table = deleted ∨
            ∃ output, incrementalOutput model s.state parents references = .ok (some output) ∧
              (∃ result, out = .ok result) ∧
              replaceChildren assign table model.parentKey c.changed model.childKey output
                model.onSchemaChange deleted = .ok t.table) := by
  have hfail : ∀ e : Failure, (s, Except.error e) = (t, out) → (∃ e, out = .error e) ∧ t = s := by
    intro e he
    obtain ⟨rfl, rfl⟩ := Prod.mk.inj he
    exact ⟨⟨e, rfl⟩, rfl⟩
  rw [runIncrementalTransform, Prog.exec_ofExcept_bind] at h
  split at h
  swap
  · exact .inl (hfail _ h)
  rw [Prog.exec_bind_ok _ (exec_stateBaseline hincremental), Prog.exec_ofExcept_bind] at h
  split at h
  swap
  · exact .inl (hfail _ h)
  rename_i groups hgroups
  simp only [if_true, true_and] at h
  set c := classifyParents model true s.state references groups with hc
  set removed := s.state.keys.filter (· ∉ groups.map Prod.fst) with hremoved
  have hparents : incrementalParents model s.state parents references = .ok (c, removed) := by
    simp only [incrementalParents, hgroups, bind, Except.bind, pure, Except.pure, hc, hremoved]
  by_cases hprocessed : c.processed = []
  · rw [if_pos hprocessed] at h
    have hout : incrementalOutput model s.state parents references = .ok none := by
      simp only [incrementalOutput, hparents, bind, Except.bind, if_pos hprocessed, pure,
        Except.pure]
    rcases hdel : (deleteRemoved model.parentKey removed).exec (TargetOp.exec assign table) s with
      ⟨u, out'⟩
    rcases exec_deleteRemoved hdel with ⟨⟨e, rfl⟩, rfl⟩ | ⟨rfl, hdeleted, -⟩
    · rw [Prog.exec_bind_error _ hdel] at h
      exact .inl (hfail e h)
    · rw [Prog.exec_bind_ok _ hdel] at h
      obtain ⟨rfl, rfl⟩ := Prod.mk.inj h
      exact .inr ⟨c, removed, hparents, _, hdeleted, .inr (.inl ⟨hout, rfl⟩)⟩
  · rw [if_neg hprocessed, Prog.exec_ofExcept_bind] at h
    split at h
    swap
    · exact .inl (hfail _ h)
    rename_i output houtput
    rw [Prog.exec_ofExcept_bind] at h
    split at h
    swap
    · exact .inl (hfail _ h)
    rename_i hvalid
    have hout : incrementalOutput model s.state parents references = .ok (some output) := by
      simp only [incrementalOutput, hparents, bind, Except.bind, if_neg hprocessed, houtput,
        hvalid, pure, Except.pure]
    rcases exec_publishParents model h with ⟨herr, rfl | hdeleted⟩ | ⟨hok, deleted, hdeleted, hrep⟩
    · exact .inl ⟨herr, rfl⟩
    · exact .inr ⟨c, removed, hparents, _, hdeleted, .inl ⟨herr, rfl⟩⟩
    · exact .inr ⟨c, removed, hparents, _, hdeleted, .inr (.inr ⟨output, hout, hok, hrep⟩)⟩

/-! ### Untouched parents -/

/-- The parents that an incremental run hands to the transform or removes. -/
def touchedParents (prior : StateTable) (parents : Frame) (references : ρ) : List String :=
  match incrementalParents model prior parents references with
  | .ok (c, removed) => c.processed ++ removed
  | .error _ => []

/-- The rows that the transform emits in an incremental run. -/
def emittedRows (prior : StateTable) (parents : Frame) (references : ρ) : List Row :=
  match incrementalOutput model prior parents references with
  | .ok (some output) => output.rows
  | _ => []

/-- A target row whose parent the run neither processes nor removes. -/
def Untouched (touched : List String) (row : Row) : Prop :=
  ∀ key ∈ touched, (row model.parentKey).text ≠ some key

instance (touched : List String) : DecidablePred (Untouched model touched) :=
  fun row => inferInstanceAs (Decidable (∀ key ∈ touched, (row model.parentKey).text ≠ some key))

/-- The untouched rows of a target. -/
def untouchedRows (touched : List String) (existing : Option Frame) : List Row :=
  (rowsOf existing).filter (Untouched model touched ·)

/-- Some untouched row has the child key of an emitted row. -/
def Clashes (s : Target) (parents : Frame) (references : ρ) : Prop :=
  ∃ row ∈ untouchedRows model (touchedParents model s.state parents references) s.table,
    ∃ e ∈ emittedRows model s.state parents references,
      (row model.childKey).Equals (e model.childKey)

instance (s : Target) (parents : Frame) (references : ρ) :
    Decidable (Clashes model s parents references) :=
  inferInstanceAs (Decidable (∃ row ∈ _, ∃ e ∈ _, Cell.Equals _ _))

/-- The untouched rows are present and identical in a later target. -/
def UntouchedKept (s t : Target) (parents : Frame) (references : ρ) : Prop :=
  (untouchedRows model (touchedParents model s.state parents references) s.table).Subperm
    (rowsOf t.table)

theorem changed_subset_processed {prior : StateTable} {references : ρ}
    {groups : List (String × List Row)} :
    (classifyParents model true prior references groups).changed ⊆
      (classifyParents model true prior references groups).processed := by
  induction groups with
  | nil => exact List.Subset.refl _
  | cons group groups ih =>
    simp only [classifyParents, if_true]
    by_cases hskip : prior.lookup group.1 =
        some ⟨model.fingerprint group.1 group.2 references, model.codeVersion⟩
    · rw [if_pos hskip]
      exact ih
    · rw [if_neg hskip]
      by_cases hprior : (prior.lookup group.1).isSome = true
      · rw [if_pos hprior]
        exact List.cons_subset_cons _ ih
      · rw [if_neg hprior]
        exact List.subset_cons_of_subset _ ih

/-- An accepted output has the declared columns. -/
theorem mem_columns_of_accepted {output : Frame} {processed : List String} {isIncremental : Bool}
    {u : Unit} (h : validateIncrementalOutput model output processed isIncremental = .ok u) :
    model.parentKey ∈ output.columns ∧ model.childKey ∈ output.columns := by
  simp only [validateIncrementalOutput] at h
  split at h
  · cases h
  rename_i hparent
  split at h
  · cases h
  rename_i hchild
  exact ⟨not_not.mp hparent, not_not.mp hchild⟩

/-- An accepted output has the declared columns, and its rows belong to the processed parents. -/
theorem validateIncrementalOutput_eq_ok {output : Frame} {processed : List String} {u : Unit}
    (h : validateIncrementalOutput model output processed true = .ok u) :
    model.parentKey ∈ output.columns ∧
      ∀ row ∈ output.rows, ∃ key ∈ processed, (row model.parentKey).text = some key := by
  simp only [validateIncrementalOutput] at h
  split at h
  · cases h
  rename_i hparent
  split at h
  · cases h
  split at h
  · rename_i hheight
    exact ⟨not_not.mp hparent, by simp [List.length_eq_zero_iff.mp hheight]⟩
  split at h
  · cases h
  rename_i hnull
  split at h
  · cases h
  split at h
  · cases h
  split at h
  · cases h
  rename_i hunexpected
  refine ⟨not_not.mp hparent, fun row hrow => ?_⟩
  have hsome : ∃ key, (row model.parentKey).text = some key := by
    cases hcell : row model.parentKey with
    | null => exact absurd ⟨row, hrow, hcell⟩ hnull
    | string key => exact ⟨key, rfl⟩
    | nested key => exact ⟨key, rfl⟩
    | other key => exact ⟨key, rfl⟩
  obtain ⟨key, hkey⟩ := hsome
  refine ⟨key, ?_, hkey⟩
  by_contra hout
  refine hunexpected ⟨trivial, List.ne_nil_of_mem (a := key) ?_⟩
  rw [List.mem_insertionSort, List.mem_dedup, List.mem_filter, List.mem_filterMap]
  exact ⟨⟨row, hrow, hkey⟩, by simpa using hout⟩

/-- The output of an incremental run is validated against its processed parents. -/
theorem incrementalOutput_eq_some {prior : StateTable} {parents output : Frame} {references : ρ}
    {c : ParentClassification} {removed : List String}
    (hparents : incrementalParents model prior parents references = .ok (c, removed))
    (hout : incrementalOutput model prior parents references = .ok (some output)) :
    model.parentKey ∈ output.columns ∧ c.changed ⊆ c.processed ∧
      ∀ row ∈ output.rows, ∃ key ∈ c.processed, (row model.parentKey).text = some key := by
  simp only [incrementalOutput, hparents, bind, Except.bind, pure, Except.pure] at hout
  split at hout
  · cases hout
  split at hout
  · cases hout
  split at hout
  · cases hout
  rename_i hvalid
  obtain rfl := Option.some.inj (Except.ok.inj hout)
  obtain ⟨hcolumn, hrows⟩ := validateIncrementalOutput_eq_ok model hvalid
  refine ⟨hcolumn, ?_, hrows⟩
  simp only [incrementalParents, bind, Except.bind, pure, Except.pure] at hparents
  split at hparents
  · cases hparents
  obtain ⟨rfl, -⟩ := Prod.mk.inj (Except.ok.inj hparents)
  exact changed_subset_processed model

section Kept

variable {touched keys : List String} {existing result : Option Frame}

/-- A deletion of the children of touched parents keeps the untouched rows. -/
theorem untouchedRows_deleteRows (hkeys : keys ⊆ touched)
    (h : deleteRows model.parentKey (keys.map .string) existing = .ok result) :
    untouchedRows model touched result = untouchedRows model touched existing := by
  unfold untouchedRows
  rw [(deleteRows_eq_ok h).2, List.filter_filter]
  refine List.filter_congr fun row _ => ?_
  rw [Bool.and_eq_left_iff_imp, decide_eq_true_iff, decide_eq_true_iff]
  rintro hrow ⟨cell, hcell, heq⟩
  obtain ⟨key, hkey, rfl⟩ := List.mem_map.mp hcell
  exact hrow key (hkeys hkey) (Cell.equals_string.mp heq)

/-- The column of the target stores the text of every cell that it accepts. -/
def KeepsText (assign : Assignment) (target : Frame) (column : String) : Prop :=
  ∃ type, target.schema.lookup column = some type ∧
    ∀ cell stored, assign type cell = some stored → stored.text = cell.text

/-- Publishing rows of touched parents keeps the untouched rows exactly if none of these has the
child key of a published row. -/
theorem replaceChildren_kept_iff {output : Frame} {policy : OnSchemaChange}
    (hkeys : keys ⊆ touched) (hcolumn : model.parentKey ∈ output.columns)
    (hemitted : ∀ e ∈ output.rows, ∃ key ∈ touched, (e model.parentKey).text = some key)
    (htext : ∀ target, existing = some target → KeepsText assign target model.parentKey)
    (h : replaceChildren assign table model.parentKey keys model.childKey output policy existing =
      .ok result) :
    (untouchedRows model touched existing).Subperm (rowsOf result) ↔
      ¬ ∃ row ∈ untouchedRows model touched existing, ∃ e ∈ output.rows,
        (row model.childKey).Equals (e model.childKey) := by
  have hwidth : output.schema = [] → output.rows = [] := fun hschema =>
    absurd hcolumn (by simp [Frame.columns, hschema])
  obtain ⟨stored, hreplaced⟩ := replaceChildren_eq_ok hwidth h
  have hkept : ∀ row ∈ untouchedRows model touched existing,
      ¬ ∃ k ∈ keys.map .string, (row model.parentKey).Equals k := by
    rintro row hrow ⟨cell, hcell, heq⟩
    obtain ⟨key, hkey, rfl⟩ := List.mem_map.mp hcell
    have huntouched := of_decide_eq_true (List.mem_filter.mp hrow).2
    exact huntouched key (hkeys hkey) (Cell.equals_string.mp heq)
  rw [hreplaced.rows]
  constructor
  · rintro hsub ⟨row, hrow, e, he, heq⟩
    obtain ⟨hmem, huntouched⟩ := List.mem_filter.mp hrow
    rcases List.mem_append.mp (hsub.subset hrow) with hin | hnew
    · exact (of_decide_eq_true (List.mem_filter.mp hin).2) ⟨e, he, heq⟩
    -- a stored row belongs to a processed parent, so it is not the untouched one
    obtain ⟨source, hsource, hassign⟩ := exists_of_mem_right hreplaced.stored hnew
    obtain ⟨key, hkey, hparent⟩ := hemitted source hsource
    obtain ⟨before, rfl⟩ : ∃ before, existing = some before := by
      cases existing with
      | none => cases hmem
      | some before => exact ⟨before, rfl⟩
    obtain ⟨type, htype, hkeeps⟩ := htext before rfl
    have hwide : (schemaOf result).lookup model.parentKey = some type := by
      obtain ⟨more, hmore⟩ := hreplaced.grows
      rw [← hmore, List.lookup_append, schemaOf_some, htype]
      rfl
    have hcell := assignRow_apply hassign hwide hcolumn
    exact of_decide_eq_true huntouched key hkey ((hkeeps _ _ hcell).trans hparent)
  · intro hclash
    refine (List.Sublist.trans ?_ (List.sublist_append_left _ _)).subperm
    have hall : ∀ row ∈ untouchedRows model touched existing,
        ¬ ∃ e ∈ output.rows, (row model.childKey).Equals (e model.childKey) := fun row hrow hex =>
      hclash ⟨row, hrow, hex⟩
    calc untouchedRows model touched existing
        = ((untouchedRows model touched existing).filter fun t =>
            ¬ ∃ k ∈ keys.map .string, (t model.parentKey).Equals k).filter fun t =>
              ¬ ∃ e ∈ output.rows, (t model.childKey).Equals (e model.childKey) := by
          rw [List.filter_eq_self.mpr fun row hrow => decide_eq_true (hkept row hrow),
            List.filter_eq_self.mpr fun row hrow => decide_eq_true (hall row hrow)]
      List.Sublist _ _ := (List.filter_sublist.filter _).filter _

end Kept

end Run

/-! ### Two documents that mention one entity -/

/-- A document and an entity that it mentions. -/
def mentionRow (doc entity : String) : Row := fun c =>
  if c = "doc" then .string doc else if c = "entity" then .string entity else .null

/-- A frame of mentions. -/
def mentions (pairs : List (String × String)) : Frame where
  schema := [("doc", "String"), ("entity", "String")]
  rows := pairs.map fun p => mentionRow p.1 p.2
  nodup := by decide
  blank := by
    intro row hrow c hc
    obtain ⟨p, -, rfl⟩ := List.mem_map.mp hrow
    simp only [List.map_cons, List.map_nil, List.mem_cons, List.not_mem_nil, or_false,
      not_or] at hc
    simp [mentionRow, hc.1, hc.2]

/-- A transform that emits the mentions of its documents, keyed by the entity. -/
def mentionTransform : TransformModel Unit where
  name := "mentions"
  parentKey := "doc"
  childKey := "entity"
  parentSourceKey := "doc"
  codeVersion := "v1"
  onSchemaChange := .fail
  fingerprint key rows _ := key ++ String.join (rows.map fun row => (row "entity").text.getD "")
  transform parents _ := .ok (mentions (parents.rows.map fun row =>
    ((row "doc").text.getD "", (row "entity").text.getD "")))
  insertOverwrite := false

/-- An incremental run of the transform in a warehouse of strings. -/
def runMentions (pairs : List (String × String)) (s : Target) :
    Target × Except Failure TransformResult :=
  (runIncrementalTransform mentionTransform false (mentions pairs) ()).exec
    (TargetOp.exec (fun _ cell => some cell) "mentions") s

/-- The target after a first run on one document. -/
def oneDocument : Target := (runMentions [("p1", "Ada")] {}).1

theorem keepsText_oneDocument (target : Frame) (h : oneDocument.table = some target) :
    KeepsText (fun _ cell => some cell) target mentionTransform.parentKey := by
  have hschema : oneDocument.table.map Frame.schema =
      some [("doc", "String"), ("entity", "String")] := by decide
  rw [h] at hschema
  refine ⟨"String", ?_, fun cell stored heq => (Option.some.inj heq) ▸ rfl⟩
  rw [Option.some.inj hschema]
  rfl

end Stel.Execution
