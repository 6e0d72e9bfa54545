import Stel.Warehouse.SqlAgreement
import Stel.Warehouse.Target

/-!
# The incremental strategies of BigQuery

`materialize_incremental` of `adapters/bigquery.py`: a staged batch is merged into the target by its
key, or it replaces the partitions that it mentions. The target of a load that raises, and the change
detection of `merge`, are not part of the model.

## Main definitions

* `partitionScalar`, `stelPartitions`: the partitions of a time-partitioned table.
* `IncrementalStrategy`, `publishStaged`: the statement that publishes the staged rows.
* `bigqueryIncremental`: the operation.

## Main results

* `not_inPartitions_of_null`: a row without a partition value is never overwritten.
* `publishStaged_perm`: both strategies leave the same rows if the partitions of the batch hold the
  rows of its keys and no others.
-/

namespace Stel.Warehouse

/-! ### Partitions -/

/-- `data_type` of a partitioning by time. -/
inductive PartitionType
  | date
  | timestamp
  | datetime
  deriving DecidableEq

/-- `granularity`. -/
inductive Granularity
  | hour
  | day
  | month
  | year
  deriving DecidableEq

/-- `granularity.upper()`. -/
def Granularity.upper : Granularity → String
  | .hour => "HOUR"
  | .day => "DAY"
  | .month => "MONTH"
  | .year => "YEAR"

/-- `BigQueryPartitionBy` with a field, which `insert_overwrite` requires, as it requires time. -/
structure PartitionBy where
  field : String
  dataType : PartitionType := .date
  granularity : Granularity := .day

/-- `incremental_strategy`, with what the layout says for it. -/
inductive IncrementalStrategy
  | merge
  | insertOverwrite (partitionBy : PartitionBy)

section Script

variable (trunc : String → String → String → String) (pb : PartitionBy)

/-- `_partition_scalar`, where `trunc` are the functions of the engine by their name and the
granularity; they make `NULL` of `NULL`. -/
def partitionScalar (ref : Cell) : Cell :=
  let truncated := fun function =>
    (ref.text.map fun value => Cell.other (trunc function pb.granularity.upper value)).getD .null
  match pb.dataType with
  | .date => if pb.granularity = .day then ref else truncated "DATE_TRUNC"
  | .timestamp => truncated "TIMESTAMP_TRUNC"
  | .datetime => truncated "DATETIME_TRUNC"

/-- `stel_partitions`: the partitions of the staged rows. -/
def stelPartitions (staged : List Row) : List Cell :=
  ((staged.filter fun s => s pb.field ≠ .null).map fun s => partitionScalar trunc pb (s pb.field)).dedup

/-- The partition of a target row `IN UNNEST(stel_partitions)`. -/
def InPartitions (staged : List Row) (t : Row) : Prop :=
  ∃ p ∈ stelPartitions trunc pb staged, (partitionScalar trunc pb (t pb.field)).Equals p

instance (staged : List Row) (t : Row) : Decidable (InPartitions trunc pb staged t) :=
  inferInstanceAs (Decidable (∃ p ∈ stelPartitions trunc pb staged, _))

/-- A row without a partition value is in no partition of the batch. -/
theorem not_inPartitions_of_null {staged : List Row} {t : Row} (ht : t pb.field = .null) :
    ¬ InPartitions trunc pb staged t := by
  rintro ⟨p, -, text, htext, -⟩
  have hnull : partitionScalar trunc pb (t pb.field) = .null := by
    rw [ht]
    unfold partitionScalar
    cases pb.dataType with
    | date =>
      show (if pb.granularity = .day then Cell.null else Cell.null) = .null
      exact ite_self _
    | timestamp => rfl
    | datetime => rfl
  rw [hnull] at htext
  cases htext

end Script

/-! ### The statements -/

section Statements

variable (assign : Assignment) (trunc : String → String → String → String) (keyCol : String)

/-- The rows after the `MERGE` on the key. Every column is set: those that the batch does not have
become `NULL`. -/
def mergeStagedRows (schema : List (String × String)) (columns : List String) (staged targetRows : List Row) :
    Option (List Row) := do
  let updated ← targetRows.mapM fun t =>
    match staged.find? fun s => KeyMatch keyCol t s with
    | some s => assignRow assign schema columns s
    | none => some t
  let inserted ← assignRows assign schema columns
    (staged.filter fun s => ¬ ∃ t ∈ targetRows, KeyMatch keyCol t s)
  return updated ++ inserted

variable {assign keyCol} in
theorem mergeStagedRows_blank {f : Frame} {columns : List String} {staged merged : List Row}
    (h : mergeStagedRows assign keyCol f.schema columns staged f.rows = some merged) :
    ∀ row ∈ merged, ∀ c ∉ f.schema.map Prod.fst, row c = .null := by
  obtain ⟨updated, hupdated, h⟩ := Option.bind_eq_some_iff.mp h
  obtain ⟨inserted, hinserted, h⟩ := Option.bind_eq_some_iff.mp h
  obtain rfl := Option.some.inj h
  intro row hrow
  rcases List.mem_append.mp hrow with hrow | hrow
  · obtain ⟨t, ht, hrow⟩ := exists_of_mem_right (mapM_eq_some.mp hupdated) hrow
    split at hrow
    · exact fun c hc => assignRow_blank hrow hc
    · obtain rfl := Option.some.inj hrow
      exact f.blank t ht
  · obtain ⟨s, -, hs⟩ := exists_of_mem_assignRows hinserted hrow
    exact fun c hc => assignRow_blank hs hc

/-- The `MERGE` of the staged rows on the key. -/
def Frame.mergeStaged (f : Frame) (columns : List String) (staged : List Row) : Except Failure Frame :=
  match h : mergeStagedRows assign keyCol f.schema columns staged f.rows with
  | some merged => .ok ⟨f.schema, merged, f.nodup, mergeStagedRows_blank h⟩
  | none => .error (.other "BadRequest")

/-- `_insert_overwrite_script`: a `MERGE` on `FALSE` that deletes the rows in the partitions of the
batch and inserts the batch. -/
def Frame.insertOverwrite (f : Frame) (pb : PartitionBy) (columns : List String) (staged : List Row) :
    Except Failure Frame :=
  match (f.filterRows fun t => ¬ InPartitions trunc pb staged t).insert assign columns staged with
  | .ok result => .ok result
  | .error _ => .error (.other "BadRequest")

/-- The statement that publishes the staged rows. -/
def publishStaged (strategy : IncrementalStrategy) (f : Frame) (columns : List String)
    (staged : List Row) : Except Failure Frame :=
  match strategy with
  | .merge => f.mergeStaged assign keyCol columns staged
  | .insertOverwrite pb => f.insertOverwrite assign trunc pb columns staged

/-- The check of the partition column. -/
def checkPartitionColumn (table : String) (columns : List String) :
    IncrementalStrategy → Except Failure Unit
  | .merge => .ok ()
  | .insertOverwrite pb => raiseIf (pb.field ∉ columns) (.adapterError ("insert_overwrite on '" ++
      table ++ "' needs partition column '" ++ pb.field ++ "' in the incremental batch"))

variable (accepts : String → Bool) (table : String) (targetIsIceberg declaredIceberg : Bool)

/-- `materialize_incremental` of `BigQueryAdapter`. A missing target is created by the load. -/
def bigqueryIncremental (strategy : IncrementalStrategy) (df : Frame) (policy : OnSchemaChange)
    (existing : Option Frame) : Except Failure (Option Frame) :=
  if df.height = 0 then .ok existing
  else do
    validateIncrementalKeys df keyCol
    match existing with
    | none => return some df
    | some target =>
      checkIncrementalFormat table targetIsIceberg declaredIceberg
      raiseIf (keyCol ∉ target.columns) (.adapterError ("Incremental target '" ++ table ++
        "' is missing key column '" ++ keyCol ++ "'"))
      let plan ← planSchemaChange target.columns df.columns policy table
      checkPartitionColumn table plan.columnsToLoad strategy
      raiseIf (∃ c ∈ df.schema, c.1 ∈ plan.columnsToAdd ∧ accepts c.2 = false) (.other "BadRequest")
      let result ← publishStaged assign trunc keyCol strategy (widenedTarget plan df target)
        plan.columnsToLoad df.rows
      return some result

end Statements

/-! ### The rows -/

section Rows

variable {assign : Assignment} {trunc : String → String → String → String} {keyCol : String}
  {pb : PartitionBy} {f g f' : Frame} {columns : List String} {staged : List Row}

theorem insertOverwrite_eq_ok (h : f.insertOverwrite assign trunc pb columns staged = .ok f') :
    (∀ s ∈ staged, Storable assign f.schema columns s) ∧ f'.schema = f.schema ∧
      f'.rows = (f.rows.filter fun t => ¬ InPartitions trunc pb staged t) ++
        staged.map (storedRow assign f.schema columns) := by
  unfold Frame.insertOverwrite at h
  split at h
  · rename_i result hinsert
    obtain rfl := Except.ok.inj h
    obtain ⟨hschema, stored, hstored, hrows⟩ := Frame.insert_eq_ok.mp hinsert
    have hall := storable_of_insert hinsert
    rw [Frame.schema_filterRows, assignRows_of_storable hall] at hstored
    obtain rfl := Option.some.inj hstored
    exact ⟨hall, hschema, hrows⟩
  · cases h

variable (keyCol) in
theorem exists_mergeStaged (h : ∀ s ∈ staged, Storable assign g.schema columns s) :
    ∃ g', g.mergeStaged assign keyCol columns staged = .ok g' ∧ g'.schema = g.schema ∧
      g'.rows = updateInsert (KeyMatch keyCol) (storedRow assign g.schema columns)
        (fun _ => storedRow assign g.schema columns) g.rows staged := by
  have hmerged : mergeStagedRows assign keyCol g.schema columns staged g.rows =
      some (updateInsert (KeyMatch keyCol) (storedRow assign g.schema columns)
        (fun _ => storedRow assign g.schema columns) g.rows staged) := by
    refine Option.bind_eq_some_iff.mpr ⟨_, mapM_eq_some.mpr (List.forall₂_map_right_iff.mpr
      (List.forall₂_same.mpr fun t _ => ?_)), Option.bind_eq_some_iff.mpr
        ⟨_, assignRows_of_storable fun s hs => h s (List.mem_of_mem_filter hs), rfl⟩⟩
    unfold updateMatched
    cases hfind : staged.find? fun s => KeyMatch keyCol t s with
    | none => rfl
    | some s => exact assignRow_of_storable (h s (List.mem_of_find?_eq_some hfind))
  unfold Frame.mergeStaged
  split
  · rename_i merged hmerged'
    exact ⟨_, rfl, rfl, Option.some.inj (hmerged'.symm.trans hmerged)⟩
  · rename_i hnone
    rw [hmerged] at hnone
    cases hnone

/-- The order of the rows of the target does not matter. -/
theorem updateInsert_perm {α β : Type} {R : α → β → Prop} [∀ a b, Decidable (R a b)] {store : β → α}
    {update : α → β → α} {targets targets' : List α} {sources : List β} (h : targets.Perm targets') :
    (updateInsert R store update targets sources).Perm (updateInsert R store update targets' sources) := by
  refine (h.map _).append (List.Perm.of_eq (congrArg (List.map store) (List.filter_congr fun s _ => ?_)))
  simp only [h.mem_iff]

/-- Both strategies leave the same rows if the partitions of the batch hold the rows of its keys and
no others. -/
theorem publishStaged_perm (hunique : UniqueKeys keyCol f)
    (hdistinct : staged.Pairwise fun s s' => ¬ (s keyCol).Equals (s' keyCol))
    (hstored : ∀ s ∈ staged, (storedRow assign f.schema columns s keyCol).text = (s keyCol).text)
    (hpartitions : ∀ t ∈ f.rows, InPartitions trunc pb staged t ↔ ∃ s ∈ staged, KeyMatch keyCol t s)
    (hschema : g.schema = f.schema) (hrows : f.rows.Perm g.rows)
    (h : publishStaged assign trunc keyCol (.insertOverwrite pb) f columns staged = .ok f') :
    ∃ g', publishStaged assign trunc keyCol .merge g columns staged = .ok g' ∧ g'.schema = f'.schema ∧
      f'.rows.Perm g'.rows := by
  obtain ⟨hstorable, hschema', hrows'⟩ := insertOverwrite_eq_ok h
  obtain ⟨g', hg', hgschema, hgrows⟩ := exists_mergeStaged keyCol (hschema.symm ▸ hstorable)
  refine ⟨g', hg', hgschema.trans (hschema.trans hschema'.symm), ?_⟩
  have hmatching : Matching (KeyMatch keyCol) f.rows staged := matching_of_distinct hunique hdistinct
  have hdelete : f'.rows = deleteInsert (KeyMatch keyCol) (storedRow assign f.schema columns) f.rows
      staged := by
    rw [hrows', deleteInsert]
    congr 1
    exact List.filter_congr fun t ht => decide_eq_decide.mpr (not_congr (hpartitions t ht))
  rw [hdelete, hgrows, hschema]
  refine List.Perm.trans ?_ (updateInsert_perm hrows)
  refine (deleteInsert_perm_iff hmatching ?_).mpr fun t _ s _ _ => rfl
  intro t ht t' ht' s hs s' hs' hR hR' heq
  refine hmatching.eq_target ht ht' hs hR ?_
  obtain ⟨key, hkey, hs'key⟩ := hR'
  have htext : (s keyCol).text = (s' keyCol).text := by
    rw [← hstored s hs, ← hstored s' hs', heq]
  exact ⟨key, hkey, htext.trans hs'key⟩

end Rows

/-! ### The operation -/

section Operation

variable {assign : Assignment} {trunc : String → String → String → String} {keyCol : String}
  {accepts : String → Bool} {table : String} {targetIsIceberg declaredIceberg : Bool}
  {strategy : IncrementalStrategy} {df target : Frame} {policy : OnSchemaChange} {result : Option Frame}

theorem bigqueryIncremental_some_eq_ok (hne : df.height ≠ 0) :
    bigqueryIncremental assign trunc keyCol accepts table targetIsIceberg declaredIceberg strategy df
      policy (some target) = .ok result ↔
    validateIncrementalKeys df keyCol = .ok () ∧
      checkIncrementalFormat table targetIsIceberg declaredIceberg = .ok () ∧ keyCol ∈ target.columns ∧
      ∃ plan, planSchemaChange target.columns df.columns policy table = .ok plan ∧
        checkPartitionColumn table plan.columnsToLoad strategy = .ok () ∧
        ¬ (∃ c ∈ df.schema, c.1 ∈ plan.columnsToAdd ∧ accepts c.2 = false) ∧
        ∃ f, publishStaged assign trunc keyCol strategy (widenedTarget plan df target)
          plan.columnsToLoad df.rows = .ok f ∧ result = some f := by
  rw [bigqueryIncremental, if_neg hne]
  simp only [bind_eq_ok]
  constructor
  · rintro ⟨⟨⟩, hkeys, ⟨⟩, hformat, ⟨⟩, hkey, plan, hplan, ⟨⟩, hcolumn, ⟨⟩, haccepts, f, hf, h⟩
    exact ⟨hkeys, hformat, not_not.mp (raiseIf_eq_ok.mp hkey), plan, hplan, hcolumn,
      raiseIf_eq_ok.mp haccepts, f, hf, (Except.ok.inj h).symm⟩
  · rintro ⟨hkeys, hformat, hkey, plan, hplan, hcolumn, haccepts, f, hf, rfl⟩
    exact ⟨⟨⟩, hkeys, ⟨⟩, hformat, ⟨⟩, raiseIf_eq_ok.mpr (not_not.mpr hkey), plan, hplan, ⟨⟩, hcolumn, ⟨⟩,
      raiseIf_eq_ok.mpr haccepts, f, hf, rfl⟩

/-- The columns that a plan loads. -/
theorem mem_columnsToLoad {plan : SchemaChangePlan} {c : String} (htarget : c ∈ target.columns)
    (hplan : planSchemaChange target.columns df.columns policy table = .ok plan) :
    c ∈ plan.columnsToLoad ↔ c ∈ df.columns := by
  have hreconcile : reconcileSchema table target df policy =
      .ok (widenedTarget plan df target, plan.columnsToLoad) := by
    rw [reconcileSchema, hplan]
    rfl
  refine (reconcileSchema_cases hreconcile).2 c ?_
  exact ((reconcileSchema_schema hreconcile).map Prod.fst).subset htarget

theorem lookup_widenedTarget {plan : SchemaChangePlan} {c type : String}
    (h : target.schema.lookup c = some type) :
    (widenedTarget plan df target).schema.lookup c = some type := by
  unfold widenedTarget
  split
  · exact h
  · show (target.schema ++ target.newColumns df).lookup c = some type
    rw [List.lookup_append, h]
    rfl

theorem schema_widenedTarget {plan : SchemaChangePlan} {target' : Frame}
    (h : target'.schema = target.schema) :
    (widenedTarget plan df target').schema = (widenedTarget plan df target).schema := by
  unfold widenedTarget
  split
  · exact h
  · show target'.schema ++ target'.newColumns df = target.schema ++ target.newColumns df
    rw [Frame.newColumns, Frame.newColumns, Frame.columns, Frame.columns, h]

end Operation

end Stel.Warehouse
