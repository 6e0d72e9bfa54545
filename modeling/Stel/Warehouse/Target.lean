import Stel.Warehouse.Frame
import Stel.Warehouse.StateTable
import Stel.Program.Faults
import Mathlib.Algebra.Ring.Nat

/-!
# The target table of a model

What an executor acts on when it publishes one model on DuckDB (`adapters/duckdb.py`): the target
table and the model's publication state. Every operation is one transaction, so it is atomic and
durable, and it leaves everything as it was if it raises.

## Main definitions

* `validateIncrementalKeys`, `materializeIncremental`, `replaceChildren`, `materializeFullChunks`:
  the operations on the target table.
* `Target`, `TargetOp`, `TargetOp.exec`: the operations with the publication state.

## Main results

* `deleteRows_eq_ok`, `replaceChildren_eq_ok`: the table after a replacement.
* `TargetOp.exec_error`: a refused operation changes nothing.
-/

namespace Stel.Warehouse

/-! ### Keys -/

/-- `validate_incremental_keys`. -/
def validateIncrementalKeys (df : Frame) (keyCol : String) : Except Failure Unit :=
  let cells := df.rows.map (· keyCol)
  let nullCount := (cells.filter (· = .null)).length
  let duplicateCount := df.height - cells.dedup.length
  if keyCol ∉ df.columns then
    .error (.adapterError ("Incremental input is missing required key column '" ++ keyCol ++ "'"))
  else if nullCount ≠ 0 then
    .error (.adapterError ("Incremental key column '" ++ keyCol ++ "' contains " ++
      toString nullCount ++ " NULL value(s)"))
  else if duplicateCount ≠ 0 then
    .error (.adapterError ("Incremental key column '" ++ keyCol ++ "' contains " ++
      toString duplicateCount ++ " duplicate value(s)"))
  else .ok ()

/-- Accepted keys are distinct and not `NULL`. -/
theorem validateIncrementalKeys_eq_ok {df : Frame} {keyCol : String} {u : Unit}
    (h : validateIncrementalKeys df keyCol = .ok u) :
    keyCol ∈ df.columns ∧ (∀ row ∈ df.rows, row keyCol ≠ .null) ∧
      (df.rows.map (· keyCol)).Nodup := by
  simp only [validateIncrementalKeys] at h
  split at h
  · cases h
  rename_i hcol
  split at h
  · cases h
  rename_i hnull
  split at h
  · cases h
  rename_i hdup
  refine ⟨not_not.mp hcol, fun row hrow he => hnull ?_, ?_⟩
  · have hmem : Cell.null ∈ (df.rows.map (· keyCol)).filter (· = .null) :=
      List.mem_filter.mpr ⟨he ▸ List.mem_map_of_mem (f := (· keyCol)) hrow, by simp⟩
    exact (List.length_pos_of_mem hmem).ne'
  · set cells := df.rows.map (· keyCol) with hcells
    have hlen : cells.length = df.height := List.length_map ..
    have hle : cells.dedup.length ≤ cells.length := (List.dedup_sublist cells).length_le
    have hself : cells.dedup = cells := (List.dedup_sublist cells).eq_of_length (by omega)
    exact List.dedup_eq_self.mp hself

/-- `validate_update_when_changed_columns`. -/
def validateUpdateWhenChanged (columns sourceColumns targetColumns : List String)
    (table : String) : Except Failure Unit :=
  match columns with
  | [] => .ok ()
  | column :: columns =>
    if column ∉ sourceColumns then
      .error (.adapterError ("update_when_changed column '" ++ column ++
        "' is not in the batch for incremental target '" ++ table ++ "'"))
    else if column ∉ targetColumns then
      .error (.adapterError ("update_when_changed column '" ++ column ++
        "' is not in incremental target '" ++ table ++ "'"))
    else validateUpdateWhenChanged columns sourceColumns targetColumns table

/-- `change_predicate`: some change-detection column is distinct. -/
def Changed (columns : List String) (target source : Row) : Prop :=
  ∃ c ∈ columns, (target c).text ≠ (source c).text

instance (columns : List String) (target source : Row) : Decidable (Changed columns target source) :=
  inferInstanceAs (Decidable (∃ c ∈ columns, _))

/-! ### Operations on the table -/

section Operations

variable (assign : Assignment) (table : String)

/-- `materialize_incremental`, in its transaction. -/
def materializeIncremental (df : Frame) (keyCol : String) (onSchemaChange : OnSchemaChange)
    (updateWhenChanged : List String) (existing : Option Frame) : Except Failure (Option Frame) :=
  if df.height = 0 then .ok existing
  else do
    validateIncrementalKeys df keyCol
    match existing with
    | none => .ok ()
    | some target =>
      if keyCol ∉ target.columns then
        .error (.adapterError ("Incremental target '" ++ table ++ "' is missing key column '" ++
          keyCol ++ "'"))
      else validateUpdateWhenChanged updateWhenChanged df.columns target.columns table
    let (target, columns) ← reconcileSchema table (existing.getD df.emptied) df onSchemaChange
    -- change detection only helps against an existing target
    let detect := if existing.isSome then updateWhenChanged else []
    let kept := target.filterRows fun t => ¬ ∃ s ∈ df.rows, (t keyCol).Equals (s keyCol) ∧
      (detect = [] ∨ Changed detect t s)
    let inserted := df.rows.filter fun s => detect = [] ∨
      ¬ ∃ t ∈ kept.rows, (t keyCol).Equals (s keyCol) ∧ ¬ Changed detect t s
    let result ← kept.insert assign columns inserted
    return some result

/-- The target without the rows whose key is one of `keys`. -/
def deleteRows (keyCol : String) (keys : List Cell) (existing : Option Frame) :
    Except Failure (Option Frame) :=
  match existing with
  | none => .ok none
  | some target =>
    if keys = [] then .ok (some target)
    else if keyCol ∉ target.columns then .error (.other "Binder Error")
    else .ok (some (target.filterRows fun t => ¬ ∃ k ∈ keys, (t keyCol).Equals k))

/-- `replace_children`, the part of its transaction that acts on the table. -/
def replaceChildren (parentKey : String) (parentIds : List String) (childKey : String)
    (newRows : Frame) (onSchemaChange : OnSchemaChange) (existing : Option Frame) :
    Except Failure (Option Frame) := do
  if newRows.height = 0 ∨ newRows.schema = [] then
    deleteRows parentKey (parentIds.map .string) existing
  else
    validateIncrementalKeys newRows childKey
    let existing ← deleteRows parentKey (parentIds.map .string) existing
    let (target, columns) ← reconcileSchema table (existing.getD newRows.emptied) newRows
      onSchemaChange
    if childKey ∉ target.columns then .error (.other "Binder Error")
    let kept := target.filterRows fun t => ¬ ∃ s ∈ newRows.rows, (t childKey).Equals (s childKey)
    let result ← kept.insert assign columns newRows.rows
    return some result

/-- `CREATE OR REPLACE TABLE … AS SELECT *`, which needs a column. -/
def materializeFull (df : Frame) : Except Failure (Option Frame) :=
  if df.schema = [] then .error (.other "Binder Error") else .ok (some df)

/-- The staging table of `materialize_full_chunks` after some of its frames. -/
def stageChunks (staging : Frame) : List Frame → Except Failure Frame
  | [] => .ok staging
  | df :: chunks => do
    let (widened, columns) ← reconcileSchema table staging df .appendNewColumns
    let staging ← widened.insert assign columns df.rows
    stageChunks staging chunks

/-- `materialize_full_chunks`: the target that replaces the old one. -/
def materializeFullChunks (chunks : List Frame) : Except Failure (Option Frame) :=
  match chunks with
  | [] => .ok none
  | df :: chunks => do
    let staging ← materializeFull df
    let staging ← stageChunks assign table (staging.getD df) chunks
    return some staging

end Operations

/-- A table that is created from a frame has its rows and columns. -/
theorem materializeFull_eq_ok {df : Frame} {result : Option Frame}
    (h : materializeFull df = .ok result) : df.schema ≠ [] ∧ result = some df := by
  unfold materializeFull at h
  split at h
  · cases h
  · rename_i hwide
    exact ⟨hwide, (Except.ok.inj h).symm⟩

/-- The rows of a table that may be missing. -/
def rowsOf (table : Option Frame) : List Row :=
  (table.map Frame.rows).getD []

@[simp] theorem rowsOf_some (f : Frame) : rowsOf (some f) = f.rows := rfl

@[simp] theorem rowsOf_none : rowsOf none = [] := rfl

/-- The schema of a table that may be missing. -/
def schemaOf (table : Option Frame) : List (String × String) :=
  (table.map Frame.schema).getD []

@[simp] theorem schemaOf_some (f : Frame) : schemaOf (some f) = f.schema := rfl

@[simp] theorem schemaOf_none : schemaOf none = [] := rfl

section Rows

variable {assign : Assignment} {table : String} {existing result : Option Frame}

/-- A deletion keeps the schema and the rows with other keys. -/
theorem deleteRows_eq_ok {keyCol : String} {keys : List Cell}
    (h : deleteRows keyCol keys existing = .ok result) :
    result.map Frame.schema = existing.map Frame.schema ∧
      rowsOf result = (rowsOf existing).filter fun t => ¬ ∃ k ∈ keys, (t keyCol).Equals k := by
  unfold deleteRows at h
  cases existing with
  | none =>
    obtain rfl := Except.ok.inj h
    exact ⟨rfl, rfl⟩
  | some target =>
    by_cases hkeys : keys = []
    · simp only [if_pos hkeys] at h
      obtain rfl := Except.ok.inj h
      simp [hkeys]
    · simp only [if_neg hkeys] at h
      split at h
      · cases h
      · obtain rfl := Except.ok.inj h
        exact ⟨rfl, rfl⟩

/-- What a replacement does: it keeps the rows that have neither one of the parents nor the key of a
new row, and appends the new rows as the target stores them. -/
structure Replaced (assign : Assignment) (parentKey : String) (parentIds : List String)
    (childKey : String) (newRows : Frame) (policy : OnSchemaChange)
    (existing result : Option Frame) (stored : List Row) : Prop where
  rows : rowsOf result = ((rowsOf existing).filter fun t =>
      ¬ ∃ k ∈ parentIds.map .string, (t parentKey).Equals k).filter (fun t =>
        ¬ ∃ s ∈ newRows.rows, (t childKey).Equals (s childKey)) ++ stored
  stored : List.Forall₂ (fun row s =>
    assignRow assign (schemaOf result) newRows.columns row = some s) newRows.rows stored
  grows : schemaOf existing <+: schemaOf result
  /-- Unless the policy ignores new columns, the target has those of the new rows. -/
  wide : newRows.rows ≠ [] → policy ≠ .ignore →
    newRows.columns ⊆ (schemaOf result).map Prod.fst
  /-- The schema changes for new columns only. -/
  same : existing ≠ none →
    (newRows.rows ≠ [] → policy ≠ .ignore → newRows.columns ⊆ (schemaOf existing).map Prod.fst) →
      schemaOf result = schemaOf existing
  /-- A missing target is created with the columns of the new rows. -/
  fresh : existing = none → newRows.rows ≠ [] → schemaOf result = newRows.schema
  missing : existing = none → newRows.rows = [] → result = none
  keys : (newRows.rows.map (· childKey)).Nodup

theorem replaceChildren_eq_ok {parentKey childKey : String} {parentIds : List String}
    {newRows : Frame} {policy : OnSchemaChange} (hwidth : newRows.schema = [] → newRows.rows = [])
    (h : replaceChildren assign table parentKey parentIds childKey newRows policy existing =
      .ok result) :
    ∃ stored, Replaced assign parentKey parentIds childKey newRows policy existing result stored := by
  unfold replaceChildren at h
  split at h
  · rename_i hempty
    have hrows : newRows.rows = [] := hempty.elim List.length_eq_zero_iff.mp hwidth
    obtain ⟨hschema, hkept⟩ := deleteRows_eq_ok h
    have hsame : schemaOf result = schemaOf existing := by
      rw [schemaOf, hschema, schemaOf]
    exact ⟨[], by simpa [hrows] using hkept, by rw [hrows]; exact .nil, hsame ▸ List.prefix_rfl,
      fun hne => absurd hrows hne, fun _ _ => hsame, fun _ hne => absurd hrows hne,
      fun hnone _ => by simpa [hnone] using hschema, by simp [hrows]⟩
  rename_i hrows
  obtain ⟨_, hkeys, h⟩ := bind_eq_ok.mp h
  obtain ⟨deleted, hdeleted, h⟩ := bind_eq_ok.mp h
  obtain ⟨⟨widened, columns⟩, hreconcile, h⟩ := bind_eq_ok.mp h
  simp only at h
  split at h
  · cases h
  obtain ⟨target, hinsert, h⟩ := bind_eq_ok.mp h
  obtain rfl := Except.ok.inj h
  obtain ⟨hschema, stored, hstored, htarget⟩ := Frame.insert_eq_ok.mp hinsert
  obtain ⟨hdelSchema, hkept⟩ := deleteRows_eq_ok hdeleted
  replace hschema : target.schema = widened.schema := hschema
  have hload := (reconcileSchema_cases hreconcile).2
  have hwidened : widened.rows = rowsOf deleted := by
    rw [reconcileSchema_rows hreconcile]
    cases deleted <;> rfl
  have hnonempty : newRows.rows ≠ [] := fun he => hrows (.inl (by simp [Frame.height, he]))
  refine ⟨stored, ?_, ?_, ?_, ?_, ?_, ?_, fun _ he => absurd he hnonempty,
    (validateIncrementalKeys_eq_ok hkeys).2.2⟩
  · rw [rowsOf_some, htarget, Frame.rows_filterRows, hwidened, hkept]
  · refine (assignRows_eq_some.mp hstored).imp fun row s hrow => ?_
    rw [schemaOf_some, hschema, ← hrow]
    exact assignRow_congr (fun c hc => (hload c hc).symm) row
  · rw [schemaOf_some, hschema]
    cases existing with
    | none => exact List.nil_prefix
    | some before =>
      obtain ⟨found, rfl, hfound⟩ := Option.map_eq_some_iff.mp hdelSchema
      rw [schemaOf_some, ← hfound]
      exact reconcileSchema_schema hreconcile
  · intro _ hpolicy
    rw [schemaOf_some, hschema]
    exact reconcileSchema_subset hpolicy hreconcile
  · intro hne hsub
    obtain ⟨before, rfl⟩ := Option.ne_none_iff_exists'.mp hne
    obtain ⟨found, rfl, hfound⟩ := Option.map_eq_some_iff.mp hdelSchema
    rw [schemaOf_some, hschema, schemaOf_some, ← hfound]
    refine reconcileSchema_eq_self (fun hpolicy => ?_) hreconcile
    show newRows.columns ⊆ found.schema.map Prod.fst
    rw [hfound]
    exact hsub hnonempty hpolicy
  · rintro rfl -
    obtain rfl : deleted = none := by simpa using hdelSchema
    rw [schemaOf_some, hschema]
    exact (reconcileSchema_eq_self (fun _ => List.Subset.refl _) hreconcile :)

/-- What an incremental load that does not raise has gone through. -/
theorem materializeIncremental_inv {keyCol : String} {df : Frame} {policy : OnSchemaChange}
    {updateWhenChanged : List String} (hrows : df.rows ≠ [])
    (h : materializeIncremental assign table df keyCol policy updateWhenChanged existing =
      .ok result) :
    validateIncrementalKeys df keyCol = .ok () ∧ keyCol ∈ (existing.getD df.emptied).columns ∧
      ∃ widened columns target,
        reconcileSchema table (existing.getD df.emptied) df policy = .ok (widened, columns) ∧
        (let detect := if existing.isSome then updateWhenChanged else []
         let kept := widened.filterRows fun t => ¬ ∃ s ∈ df.rows, (t keyCol).Equals (s keyCol) ∧
          (detect = [] ∨ Changed detect t s)
         kept.insert assign columns (df.rows.filter fun s => detect = [] ∨
          ¬ ∃ t ∈ kept.rows, (t keyCol).Equals (s keyCol) ∧ ¬ Changed detect t s) = .ok target) ∧
        result = some target := by
  unfold materializeIncremental at h
  rw [if_neg fun hheight : df.height = 0 => hrows (List.length_eq_zero_iff.mp hheight)] at h
  obtain ⟨_, hkeys, h⟩ := bind_eq_ok.mp h
  cases existing with
  | none =>
    obtain ⟨_, -, h⟩ := bind_eq_ok.mp h
    obtain ⟨⟨widened, columns⟩, hreconcile, h⟩ := bind_eq_ok.mp h
    obtain ⟨target, hinsert, h⟩ := bind_eq_ok.mp h
    exact ⟨hkeys, (validateIncrementalKeys_eq_ok hkeys).1, widened, columns, target, hreconcile,
      hinsert, (Except.ok.inj h).symm⟩
  | some before =>
    simp only at h
    split at h
    · cases h
    rename_i hin
    obtain ⟨_, -, h⟩ := bind_eq_ok.mp h
    obtain ⟨⟨widened, columns⟩, hreconcile, h⟩ := bind_eq_ok.mp h
    obtain ⟨target, hinsert, h⟩ := bind_eq_ok.mp h
    exact ⟨hkeys, not_not.mp hin, widened, columns, target, hreconcile, hinsert,
      (Except.ok.inj h).symm⟩

/-- Without change detection, `materialize_incremental` replaces the rows with the keys of the new
ones. -/
theorem materializeIncremental_eq_ok {keyCol : String} {df : Frame} {policy : OnSchemaChange}
    (hwidth : df.schema = [] → df.rows = [])
    (h : materializeIncremental assign table df keyCol policy [] existing = .ok result) :
    ∃ stored, Replaced assign keyCol [] keyCol df policy existing result stored := by
  refine @replaceChildren_eq_ok assign table _ _ _ _ _ _ _ hwidth ?_
  have hnone : deleteRows keyCol ([].map .string) existing = .ok existing := by
    cases existing <;> rfl
  unfold replaceChildren
  by_cases hrows : df.rows = []
  · have hheight : df.height = 0 := List.length_eq_zero_iff.mpr hrows
    unfold materializeIncremental at h
    rw [if_pos hheight] at h
    rw [if_pos (.inl hheight), hnone]
    exact h
  have hheight : df.height ≠ 0 := fun h0 => hrows (List.length_eq_zero_iff.mp h0)
  rw [if_neg (not_or.mpr ⟨hheight, mt hwidth hrows⟩), hnone]
  obtain ⟨hkeys, hkey, widened, columns, target, hreconcile, hinsert, rfl⟩ :=
    materializeIncremental_inv hrows h
  replace hinsert : (widened.filterRows fun t => ¬ ∃ s ∈ df.rows,
      (t keyCol).Equals (s keyCol)).insert assign columns df.rows = .ok target := by
    simpa using hinsert
  have hcolumn : keyCol ∈ widened.columns := by
    obtain ⟨more, hmore⟩ := reconcileSchema_schema hreconcile
    rw [Frame.columns, ← hmore, List.map_append]
    exact List.mem_append_left _ hkey
  refine bind_eq_ok.mpr ⟨(), hkeys, bind_eq_ok.mpr ⟨existing, rfl, bind_eq_ok.mpr
    ⟨(widened, columns), hreconcile, ?_⟩⟩⟩
  simp only [hcolumn, not_true_eq_false, if_false]
  exact bind_eq_ok.mpr ⟨target, hinsert, rfl⟩

/-- What an incremental load does, with change detection or without: it keeps the rows that no new
row replaces, and appends the new rows that replace one or have a new key. -/
structure Merged (assign : Assignment) (keyCol : String) (df : Frame) (policy : OnSchemaChange)
    (detect : List String) (existing result : Option Frame) (kept stored : List Row) : Prop where
  rows : rowsOf result = kept ++ stored
  keeps : kept = (rowsOf existing).filter fun t => ¬ ∃ s ∈ df.rows,
    (t keyCol).Equals (s keyCol) ∧ (detect = [] ∨ Changed detect t s)
  stores : List.Forall₂ (fun row s => assignRow assign (schemaOf result) df.columns row = some s)
    (df.rows.filter fun s => detect = [] ∨
      ¬ ∃ t ∈ kept, (t keyCol).Equals (s keyCol) ∧ ¬ Changed detect t s) stored
  /-- The schema changes for new columns only. -/
  same : existing ≠ none → (policy ≠ .ignore → df.columns ⊆ (schemaOf existing).map Prod.fst) →
    schemaOf result = schemaOf existing
  fresh : existing = none → schemaOf result = df.schema
  keys : (df.rows.map (· keyCol)).Nodup
  keyed : ∀ row ∈ df.rows, row keyCol ≠ .null

theorem materializeIncremental_merged {keyCol : String} {df : Frame} {policy : OnSchemaChange}
    {updateWhenChanged : List String} (hrows : df.rows ≠ [])
    (h : materializeIncremental assign table df keyCol policy updateWhenChanged existing =
      .ok result) :
    ∃ kept stored, Merged assign keyCol df policy
      (if existing.isSome then updateWhenChanged else []) existing result kept stored := by
  obtain ⟨hkeys, -, widened, columns, target, hreconcile, hinsert, rfl⟩ :=
    materializeIncremental_inv hrows h
  obtain ⟨-, hkeyed, hnodup⟩ := validateIncrementalKeys_eq_ok hkeys
  obtain ⟨hschema, stored, hstored, htarget⟩ := Frame.insert_eq_ok.mp hinsert
  replace hschema : target.schema = widened.schema := hschema
  have hload := (reconcileSchema_cases hreconcile).2
  have hwidened : widened.rows = rowsOf existing := by
    rw [reconcileSchema_rows hreconcile]
    cases existing <;> rfl
  rw [Frame.rows_filterRows, hwidened] at htarget
  refine ⟨_, stored, htarget, rfl, ?_, ?_, ?_, hnodup, hkeyed⟩
  · rw [Frame.rows_filterRows, hwidened] at hstored
    refine (assignRows_eq_some.mp hstored).imp fun row s hrow => ?_
    rw [schemaOf_some, hschema, ← hrow]
    exact assignRow_congr (fun c hc => (hload c hc).symm) row
  · intro hne hsub
    obtain ⟨before, rfl⟩ := Option.ne_none_iff_exists'.mp hne
    rw [schemaOf_some, hschema]
    exact reconcileSchema_eq_self hsub hreconcile
  · rintro rfl
    rw [schemaOf_some, hschema]
    exact (reconcileSchema_eq_self (fun _ => List.Subset.refl _) hreconcile :)

theorem validateIncrementalKeys_of_nodup {df : Frame} {keyCol : String} (hcol : keyCol ∈ df.columns)
    (hkeyed : ∀ row ∈ df.rows, row keyCol ≠ .null) (hnodup : (df.rows.map (· keyCol)).Nodup) :
    validateIncrementalKeys df keyCol = .ok () := by
  have hnull : (df.rows.map (· keyCol)).filter (· = .null) = [] := by
    refine List.filter_eq_nil_iff.mpr fun cell hcell => ?_
    obtain ⟨row, hrow, rfl⟩ := List.mem_map.mp hcell
    simpa using hkeyed row hrow
  have hlength : df.height - (df.rows.map (· keyCol)).dedup.length = 0 := by
    rw [hnodup.dedup, List.length_map, Frame.height, Nat.sub_self]
  simp only [validateIncrementalKeys, hcol, not_true_eq_false, if_false, hnull, List.length_nil,
    ne_eq, hlength]

theorem validateUpdateWhenChanged_of_subset {columns source target : List String}
    (hsource : columns ⊆ source) (htarget : columns ⊆ target) (table : String) :
    validateUpdateWhenChanged columns source target table = .ok () := by
  induction columns with
  | nil => rfl
  | cons column columns ih =>
    rw [List.cons_subset] at hsource htarget
    rw [validateUpdateWhenChanged, if_neg (not_not.mpr hsource.1), if_neg (not_not.mpr htarget.1)]
    exact ih hsource.2 htarget.2

theorem reconcileSchema_of_eq {target source : Frame} (h : target.columns = source.columns)
    (policy : OnSchemaChange) : reconcileSchema table target source policy =
      .ok (target, source.columns) := by
  have hnone : ∀ l : List String, l.filter (· ∉ l) = [] := fun l =>
    List.filter_eq_nil_iff.mpr fun c hc => by simpa using hc
  simp only [reconcileSchema, planSchemaChange, h, hnone, and_self, if_true]
  rfl

/-- An incremental load succeeds if its keys are valid, the target has the same columns and every row
can be assigned. -/
theorem exists_materializeIncremental {keyCol : String} {df : Frame} {updateWhenChanged : List String}
    (policy : OnSchemaChange) (hcol : keyCol ∈ df.columns)
    (hkeyed : ∀ row ∈ df.rows, row keyCol ≠ .null) (hnodup : (df.rows.map (· keyCol)).Nodup)
    (hwatch : updateWhenChanged ⊆ df.columns)
    (hcolumns : ∀ target, existing = some target → target.columns = df.columns)
    (hassign : ∀ s ∈ df.rows, ∃ stored,
      assignRow assign (existing.getD df.emptied).schema df.columns s = some stored) :
    ∃ result, materializeIncremental assign table df keyCol policy updateWhenChanged existing =
      .ok result := by
  unfold materializeIncremental
  split
  · exact ⟨_, rfl⟩
  have hsame : (existing.getD df.emptied).columns = df.columns := by
    cases existing with
    | none => rfl
    | some target => exact hcolumns target rfl
  have hinsert : ∀ (keep : Row → Bool) (select : Row → Bool), ∃ result,
      ((existing.getD df.emptied).filterRows keep).insert assign df.columns
        (df.rows.filter select) = .ok result := by
    intro keep select
    have hall : ∀ s ∈ df.rows.filter select, ∃ stored,
        assignRow assign (existing.getD df.emptied).schema df.columns s = some stored :=
      fun s hs => hassign s (List.mem_of_mem_filter hs)
    obtain ⟨stored, hstored⟩ : ∃ stored, assignRows assign (existing.getD df.emptied).schema
        df.columns (df.rows.filter select) = some stored := by
      generalize df.rows.filter select = rows at hall
      induction rows with
      | nil => exact ⟨[], rfl⟩
      | cons s rows ih =>
        obtain ⟨first, hfirst⟩ := hall s List.mem_cons_self
        obtain ⟨rest, hrest⟩ := ih fun s' hs' => hall s' (List.mem_cons_of_mem _ hs')
        exact ⟨first :: rest, assignRows_eq_some.mpr
          (.cons hfirst (assignRows_eq_some.mp hrest))⟩
    unfold Frame.insert
    split
    · exact ⟨_, rfl⟩
    · rename_i hnone
      rw [Frame.schema_filterRows, hstored] at hnone
      cases hnone
  refine exists_bind_eq_ok ⟨(), validateIncrementalKeys_of_nodup hcol hkeyed hnodup, ?_⟩
  cases existing with
  | none =>
    exact exists_bind_eq_ok ⟨(), rfl, exists_bind_eq_ok ⟨_, reconcileSchema_of_eq hsame policy,
      exists_bind_eq_ok ((hinsert _ _).imp fun result h => ⟨h, _, rfl⟩)⟩⟩
  | some target =>
    have hkey : keyCol ∈ target.columns := hcolumns target rfl ▸ hcol
    simp only [hkey, not_true_eq_false, if_false]
    exact exists_bind_eq_ok ⟨(), validateUpdateWhenChanged_of_subset hwatch
      (hcolumns target rfl ▸ hwatch) table, exists_bind_eq_ok
        ⟨_, reconcileSchema_of_eq hsame policy,
          exists_bind_eq_ok ((hinsert _ _).imp fun result h => ⟨h, _, rfl⟩)⟩⟩

/-- A column that a target has with some type, and a new target takes with it from the new rows. -/
theorem Replaced.lookup {parentKey childKey : String} {parentIds : List String} {newRows : Frame}
    {policy : OnSchemaChange} {stored : List Row}
    (h : Replaced assign parentKey parentIds childKey newRows policy existing result stored)
    {c type : String}
    (hexisting : ∀ target, existing = some target → target.schema.lookup c = some type)
    (hnew : newRows.rows ≠ [] → newRows.schema.lookup c = some type) :
    ∀ target, result = some target → target.schema.lookup c = some type := by
  intro target htarget
  cases hbefore : existing with
  | none =>
    by_cases hempty : newRows.rows = []
    · rw [h.missing hbefore hempty] at htarget
      cases htarget
    · have hschema := h.fresh hbefore hempty
      rw [htarget, schemaOf_some] at hschema
      rw [hschema]
      exact hnew hempty
  | some before =>
    obtain ⟨more, hmore⟩ := h.grows
    rw [htarget, schemaOf_some, hbefore, schemaOf_some] at hmore
    rw [← hmore, List.lookup_append, hexisting before hbefore]
    rfl

/-- A replacement with new rows leaves a table. -/
theorem Replaced.exists_result {parentKey childKey : String} {parentIds : List String}
    {newRows : Frame} {policy : OnSchemaChange} {stored : List Row}
    (h : Replaced assign parentKey parentIds childKey newRows policy existing result stored)
    (hne : newRows.rows ≠ []) : ∃ target, result = some target := by
  cases result with
  | some target => exact ⟨target, rfl⟩
  | none =>
    have hrows := h.rows
    rw [rowsOf_none] at hrows
    have hstored := h.stored
    rw [(List.append_eq_nil_iff.mp hrows.symm).2, List.forall₂_nil_right_iff] at hstored
    exact absurd hstored hne

/-- What holds of every new row and of what the target stores for it. -/
theorem Replaced.forall₂_stored {parentKey childKey : String} {parentIds : List String} {newRows : Frame}
    {policy : OnSchemaChange} {stored : List Row} {R : Row → Row → Prop}
    (h : Replaced assign parentKey parentIds childKey newRows policy existing result stored)
    (hR : newRows.rows ≠ [] → ∀ target, result = some target → ∀ row ∈ newRows.rows, ∀ s,
      assignRow assign target.schema newRows.columns row = some s → R row s) :
    List.Forall₂ R newRows.rows stored := by
  refine forall₂_imp_of_mem h.stored fun row hrow s hs => ?_
  have hne : newRows.rows ≠ [] := List.ne_nil_of_mem hrow
  obtain ⟨target, rfl⟩ := h.exists_result hne
  exact hR hne target rfl row hrow s hs

/-! ### The rows of one key -/

/-- The rows with a key. -/
def rowsAt (keyCol : String) (rows : List Row) (key : String) : List Row :=
  rows.filter fun row => (row keyCol).text = some key

@[simp] theorem rowsAt_nil (keyCol key : String) : rowsAt keyCol [] key = [] := rfl

theorem mem_rowsAt {keyCol key : String} {rows : List Row} {row : Row} :
    row ∈ rowsAt keyCol rows key ↔ row ∈ rows ∧ (row keyCol).text = some key := by
  simp [rowsAt]

theorem rowsAt_append (keyCol : String) (rows rows' : List Row) (key : String) :
    rowsAt keyCol (rows ++ rows') key = rowsAt keyCol rows key ++ rowsAt keyCol rows' key :=
  List.filter_append ..

theorem rowsAt_eq_self {keyCol key : String} {rows : List Row}
    (h : ∀ row ∈ rows, (row keyCol).text = some key) : rowsAt keyCol rows key = rows :=
  List.filter_eq_self.mpr fun row hrow => decide_eq_true (h row hrow)

theorem rowsAt_eq_nil {keyCol key : String} {rows : List Row}
    (h : ∀ row ∈ rows, (row keyCol).text ≠ some key) : rowsAt keyCol rows key = [] :=
  List.filter_eq_nil_iff.mpr fun row hrow => by simpa using h row hrow

theorem rowsAt_filter_eq {keyCol key : String} {rows : List Row} {keep : Row → Bool}
    (h : ∀ row ∈ rowsAt keyCol rows key, keep row) :
    rowsAt keyCol (rows.filter keep) key = rowsAt keyCol rows key := by
  unfold rowsAt
  rw [List.filter_filter]
  refine List.filter_congr fun row hrow => ?_
  rw [Bool.and_eq_left_iff_imp, decide_eq_true_iff]
  exact fun htext => h row (mem_rowsAt.mpr ⟨hrow, htext⟩)

theorem rowsAt_filter_eq_nil {keyCol key : String} {rows : List Row} {keep : Row → Bool}
    (h : ∀ row ∈ rowsAt keyCol rows key, keep row = false) :
    rowsAt keyCol (rows.filter keep) key = [] := by
  refine rowsAt_eq_nil fun row hrow htext => ?_
  obtain ⟨hmem, hkeep⟩ := List.mem_filter.mp hrow
  rw [h row (mem_rowsAt.mpr ⟨hmem, htext⟩)] at hkeep
  cases hkeep

/-- Filtering out some keys removes their rows and no others. -/
theorem rowsAt_filter_keys (keyCol : String) (keys : List String) (rows : List Row)
    (key : String) :
    rowsAt keyCol (rows.filter fun t => ¬ ∃ k ∈ keys.map Cell.string, (t keyCol).Equals k) key =
      if key ∈ keys then [] else rowsAt keyCol rows key := by
  split
  · rename_i hkey
    refine rowsAt_filter_eq_nil fun row hrow => decide_eq_false (not_not.mpr ?_)
    exact ⟨.string key, List.mem_map_of_mem hkey, Cell.equals_string.mpr (mem_rowsAt.mp hrow).2⟩
  · rename_i hkey
    refine rowsAt_filter_eq fun row hrow => decide_eq_true ?_
    rintro ⟨cell, hcell, heq⟩
    obtain ⟨key', hkey', rfl⟩ := List.mem_map.mp hcell
    have htext := Cell.equals_string.mp heq
    rw [(mem_rowsAt.mp hrow).2] at htext
    obtain rfl := Option.some.inj htext
    exact hkey hkey'

/-- The rows of one key in the union of labelled lists of rows. -/
theorem rowsAt_flatMap {β : Type} {keyCol : String} {entries : List (String × β)} {f : String × β → List Row}
    (hnodup : (entries.map Prod.fst).Nodup)
    (hlabel : ∀ e ∈ entries, ∀ row ∈ f e, (row keyCol).text = some e.1) {e : String × β}
    (he : e ∈ entries) : rowsAt keyCol (entries.flatMap f) e.1 = f e := by
  induction entries with
  | nil => cases he
  | cons e' entries ih =>
    obtain ⟨hnew, hrest⟩ := List.nodup_cons.mp hnodup
    obtain ⟨hfirst, hlater⟩ := List.forall_mem_cons.mp hlabel
    rw [List.flatMap_cons, rowsAt_append]
    rcases List.mem_cons.mp he with rfl | he
    · rw [rowsAt_eq_self hfirst, rowsAt_eq_nil fun row hrow htext => ?_, List.append_nil]
      obtain ⟨e', he', hrow⟩ := List.mem_flatMap.mp hrow
      rw [hlater e' he' row hrow] at htext
      exact hnew (Option.some.inj htext ▸ List.mem_map_of_mem he')
    · rw [rowsAt_eq_nil fun row hrow htext => ?_, List.nil_append]
      · exact ih hrest hlater he
      · rw [hfirst row hrow] at htext
        exact hnew (Option.some.inj htext ▸ List.mem_map_of_mem he)

/-- A deletion by key removes the rows of its keys and no others. -/
theorem rowsAt_deleteRows {keyCol : String} {keys : List String}
    (h : deleteRows keyCol (keys.map .string) existing = .ok result) (key : String) :
    rowsAt keyCol (rowsOf result) key =
      if key ∈ keys then [] else rowsAt keyCol (rowsOf existing) key := by
  rw [(deleteRows_eq_ok h).2, rowsAt_filter_keys]

end Rows

/-! ### The operations with the state -/

/-- The target table of a model, if it exists, and the model's publication state. -/
structure Target where
  table : Option Frame := none
  state : StateTable := ∅

/-- The operations of the adapter on one model's target. -/
inductive TargetOp
  /-- `fetch_state`. -/
  | fetchState
  /-- Whether `list_tables` names the table; `relation_exists`. -/
  | relationExists
  /-- `row_count`. -/
  | rowCount
  /-- `read_table`. -/
  | readTable
  /-- `materialize_full`. -/
  | materializeFull (df : Frame)
  /-- `materialize_full_chunks`, with the frames that its iterator yields. -/
  | materializeFullChunks (chunks : List Frame)
  /-- `materialize_incremental`. -/
  | materializeIncremental (df : Frame) (keyCol : String) (onSchemaChange : OnSchemaChange)
      (updateWhenChanged : List String)
  /-- `delete_rows_and_state`. -/
  | deleteRowsAndState (keyCol : String) (keys : List Cell) (stateRecordKeys : List String)
  /-- `replace_children`. -/
  | replaceChildren (parentKey : String) (parentIds : List String) (childKey : String)
      (newRows : Frame) (stateRecords : List StateRecord) (onSchemaChange : OnSchemaChange)
  /-- `upsert_state`. -/
  | upsertState (records : List StateRecord)
  /-- `replace_state`. -/
  | replaceState (records : List StateRecord)

/-- What an operation replies. -/
@[reducible] def TargetOp.Ret : TargetOp → Type
  | .fetchState => StateTable
  | .relationExists => Bool
  | .readTable => Frame
  | .upsertState _ | .replaceState _ => Unit
  | _ => ℕ

/-- A transaction on the target: its reply and the target after it, which is the old one if it
raises. -/
def Target.commit {α : Type} (s : Target) : Except Failure (Target × α) → Target × Except Failure α
  | .ok (t, r) => (t, .ok r)
  | .error e => (s, .error e)

/-- The effect of an operation on the model's target `table`. -/
def TargetOp.exec (assign : Assignment) (table : String) :
    Interp TargetOp TargetOp.Ret Failure Target
  | .fetchState, s => (s, .ok s.state)
  | .relationExists, s => (s, .ok s.table.isSome)
  | .rowCount, s => s.commit (match s.table with
      | some target => .ok (s, target.height)
      | none => .error (.other "Catalog Error"))
  | .readTable, s => s.commit (match s.table with
      | some target => .ok (s, target)
      | none => .error (.other "Catalog Error"))
  | .materializeFull df, s => s.commit (do
      let target ← Stel.Warehouse.materializeFull df
      return ({ s with table := target }, df.height))
  | .materializeFullChunks chunks, s => s.commit (do
      let target ← Stel.Warehouse.materializeFullChunks assign table chunks
      return ({ s with table := target }, (chunks.map Frame.height).sum))
  | .materializeIncremental df keyCol policy updateWhenChanged, s => s.commit (do
      let target ← Stel.Warehouse.materializeIncremental assign table df keyCol policy
        updateWhenChanged s.table
      return ({ s with table := target }, df.height))
  | .deleteRowsAndState keyCol keys stateRecordKeys, s => s.commit (do
      validateStateKeys stateRecordKeys
      let target ← deleteRows keyCol keys s.table
      let before := (s.table.map Frame.height).getD 0
      let after := (target.map Frame.height).getD 0
      return (⟨target, s.state.delete stateRecordKeys⟩, before - after))
  | .replaceChildren parentKey parentIds childKey newRows records policy, s => s.commit (do
      validateStateRecords records
      let target ← Stel.Warehouse.replaceChildren assign table parentKey parentIds childKey newRows
        policy s.table
      return (⟨target, s.state.upsert records⟩, newRows.height))
  | .upsertState records, s => s.commit (do
      validateStateRecords records
      return ({ s with state := s.state.upsert records }, ()))
  | .replaceState records, s => s.commit (do
      validateStateRecords records
      return ({ s with state := .replace records }, ()))

/-- Programs of an executor on its target. -/
abbrev TargetProg (α : Type) : Type := Prog TargetOp TargetOp.Ret Failure α

theorem Target.commit_error {α : Type} {s t : Target} {x : Except Failure (Target × α)}
    {e : Failure} (h : s.commit x = (t, .error e)) : t = s ∧ x = .error e := by
  cases x with
  | ok r => cases h
  | error e' =>
    cases h
    exact ⟨rfl, rfl⟩

theorem Target.commit_ok {α : Type} {s t : Target} {x : Except Failure (Target × α)} {r : α}
    (h : s.commit x = (t, .ok r)) : x = .ok (t, r) := by
  cases x with
  | ok r' =>
    cases h
    rfl
  | error e => cases h

/-- A refused operation changes nothing. -/
theorem TargetOp.exec_error {assign : Assignment} {table : String} {o : TargetOp} {s t : Target}
    {e : Failure} (h : o.exec assign table s = (t, .error e)) : t = s := by
  cases o with
  | fetchState => cases h
  | relationExists => cases h
  | _ => exact (Target.commit_error h).1

section Commits

variable {assign : Assignment} {table : String} {s t : Target} {r : ℕ}

theorem exec_deleteRowsAndState {keyCol : String} {keys : List Cell} {recordKeys : List String}
    (h : (TargetOp.deleteRowsAndState keyCol keys recordKeys).exec assign table s = (t, .ok r)) :
    deleteRows keyCol keys s.table = .ok t.table ∧ t.state = s.state.delete recordKeys := by
  have hcommit := Target.commit_ok h
  simp only [bind, Except.bind, pure, Except.pure] at hcommit
  split at hcommit
  · cases hcommit
  split at hcommit
  · cases hcommit
  rename_i target htarget
  obtain ⟨rfl, -⟩ := Prod.mk.inj (Except.ok.inj hcommit)
  exact ⟨htarget, rfl⟩

theorem exec_replaceChildren {parentKey childKey : String} {parentIds : List String}
    {newRows : Frame} {records : List StateRecord} {policy : OnSchemaChange}
    (h : (TargetOp.replaceChildren parentKey parentIds childKey newRows records policy).exec assign
      table s = (t, .ok r)) :
    (records.map (·.recordKey)).Nodup ∧
      replaceChildren assign table parentKey parentIds childKey newRows policy s.table =
        .ok t.table ∧ t.state = s.state.upsert records := by
  have hcommit := Target.commit_ok h
  simp only [bind, Except.bind, pure, Except.pure] at hcommit
  split at hcommit
  · cases hcommit
  rename_i hvalid
  split at hcommit
  · cases hcommit
  rename_i target htarget
  obtain ⟨rfl, -⟩ := Prod.mk.inj (Except.ok.inj hcommit)
  refine ⟨?_, htarget, rfl⟩
  unfold validateStateRecords at hvalid
  split at hvalid
  · assumption
  · cases hvalid

end Commits

/-! ### Steps of the executors -/

/-- Deletes the rows and the state of removed keys, if there are any. -/
def deleteRemoved (keyCol : String) (removed : List String) : TargetProg Unit :=
  if removed = [] then .pure ()
  else do
    let _ ← Prog.perform (TargetOp.deleteRowsAndState keyCol (removed.map .string) removed)
    return ()

/-- `except AdapterError as error: raise RunError(str(error))`. -/
def asRunError {α : Type} (p : TargetProg α) : TargetProg α :=
  p.tryCatch fun e =>
    match e with
    | .adapterError m => .throw (.runError m)
    | e => .throw e

section Steps

variable {assign : Assignment} {table : String} {s t : Target}

theorem exec_deleteRemoved {keyCol : String} {removed : List String} {out : Except Failure Unit}
    (h : (deleteRemoved keyCol removed).exec (TargetOp.exec assign table) s = (t, out)) :
    (∃ e, out = .error e) ∧ t = s ∨
      out = .ok () ∧ deleteRows keyCol (removed.map .string) s.table = .ok t.table ∧
        t.state = s.state.delete removed := by
  unfold deleteRemoved at h
  split at h
  · rename_i hremoved
    obtain ⟨rfl, rfl⟩ := Prod.mk.inj h
    subst hremoved
    refine .inr ⟨rfl, ?_, rfl⟩
    cases s.table <;> rfl
  · rw [Prog.perform_bind] at h
    rcases hop : (TargetOp.deleteRowsAndState keyCol (removed.map .string) removed).exec
      assign table s with ⟨t', e | r⟩
    · rw [Prog.exec_call_error _ hop] at h
      obtain ⟨rfl, rfl⟩ := Prod.mk.inj h
      exact .inl ⟨⟨e, rfl⟩, TargetOp.exec_error hop⟩
    · rw [Prog.exec_call_ok _ hop] at h
      obtain ⟨rfl, rfl⟩ := Prod.mk.inj h
      exact .inr ⟨rfl, exec_deleteRowsAndState hop⟩

/-- An operation that leaves the target alone when it raises, with its error turned into a
`RunError`. -/
theorem exec_asRunError {o : TargetOp} {out : Except Failure o.Ret}
    (h : (asRunError (Prog.perform o)).exec (TargetOp.exec assign table) s = (t, out)) :
    (∃ e, out = .error e) ∧ t = s ∨
      ∃ r, out = .ok r ∧ o.exec assign table s = (t, .ok r) := by
  rw [asRunError, Prog.exec_tryCatch, Prog.exec_perform] at h
  rcases hop : o.exec assign table s with ⟨u, e | r⟩
  · rw [hop] at h
    obtain rfl := TargetOp.exec_error hop
    refine .inl ?_
    cases e <;>
    · obtain ⟨rfl, rfl⟩ := Prod.mk.inj h
      exact ⟨⟨_, rfl⟩, rfl⟩
  · rw [hop] at h
    obtain ⟨rfl, rfl⟩ := Prod.mk.inj h
    exact .inr ⟨r, rfl, rfl⟩

end Steps

end Stel.Warehouse
