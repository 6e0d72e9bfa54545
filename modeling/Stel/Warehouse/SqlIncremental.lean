import Stel.Warehouse.Frame
import Mathlib.Data.Int.Notation
import Mathlib.Data.List.Dedup

/-!
# Incremental SQL models

`materialize_sql_incremental` of `adapters/duckdb.py` and of `adapters/bigquery.py`: the staged result
of a query is put into the target by its unique key. What the target holds after a run that raises is
not part of the model.

## Main definitions

* `keyCheck`, `checkKeys`: the check of the staged keys.
* `Frame.merge`: `MERGE`, with the warehouse's assignment casts as a parameter.
* `duckdbSqlIncremental`, `bigquerySqlIncremental`: the two adapters.

## Main results

* `mergeRows_blank`: a merged row has no cell outside the columns of the target.
-/

namespace Stel.Warehouse

/-! ### Checks -/

/-- `SqlMaterializationResult`, without the relation and the metadata of the job. -/
structure SqlMaterializationResult where
  rowsWritten : ℤ
  rowsInserted : Option ℤ := none
  rowsUpdated : Option ℤ := none
  deriving DecidableEq, Repr

/-- `build_key_check_sql`: the number of null and of duplicate keys, or `none` for the error of the
engine about a column that the relation does not have. -/
def keyCheck (staging : Frame) (uniqueKey : String) : Option (ℕ × ℕ) :=
  let cells := staging.rows.map (· uniqueKey)
  if uniqueKey ∈ staging.columns then
    some ((cells.filter (· = .null)).length, staging.height - (cells.filterMap Cell.text).dedup.length)
  else none

section Adapters

variable (assign : Assignment) (accepts : String → Bool) (table : String) (uniqueKey : String)
  (policy : OnSchemaChange)

/-- The check of the counts. -/
def checkKeys (counts : ℕ × ℕ) : Except Failure Unit :=
  raiseIf (counts.1 ≠ 0 ∨ counts.2 ≠ 0) (.adapterError ("Incremental SQL model '" ++ table ++
    "' unique_key '" ++ uniqueKey ++ "' has " ++ toString counts.1 ++ " null and " ++
    toString counts.2 ++ " duplicate value(s) in the query result."))

/-- The check that the query selects the key. -/
def checkSelected (staging : Frame) : Except Failure Unit :=
  raiseIf (uniqueKey ∉ staging.columns) (.adapterError ("Incremental SQL model '" ++ table ++
    "' query does not select its unique_key column '" ++ uniqueKey ++ "'"))

/-- The check that the target has the key. -/
def checkTarget (target : Frame) : Except Failure Unit :=
  raiseIf (uniqueKey ∉ target.columns) (.adapterError ("Incremental SQL model '" ++ table ++
    "' unique_key '" ++ uniqueKey ++ "' does not exist in the current target table (the key may have " ++
    "changed). Run with --full-refresh to rebuild the target under the new key."))

/-- The error of an engine, as the adapters report it. -/
def materializationFailed (error : String) : Failure :=
  .adapterError ("Incremental SQL model materialization for '" ++ table ++ "' failed [" ++ error ++ "]")

/-! ### DuckDB -/

/-- The keys are equal in SQL. -/
def KeyMatch (t s : Row) : Prop := (t uniqueKey).Equals (s uniqueKey)

instance (t s : Row) : Decidable (KeyMatch uniqueKey t s) :=
  inferInstanceAs (Decidable (Cell.Equals _ _))

/-- `_reconcile_sql_schema` of `DuckDBAdapter`. -/
def duckdbReconcileSqlSchema (staging target : Frame) : Except Failure (Frame × List String) := do
  checkTarget table uniqueKey target
  reconcileSchema table target staging policy

/-- `materialize_sql_incremental` of `DuckDBAdapter`: every error of the engine is reported as an
`AdapterError`. -/
def duckdbSqlIncremental (staging target : Frame) :
    Except Failure (Frame × SqlMaterializationResult) := do
  let counts ← (keyCheck staging uniqueKey).elim
    (.error (materializationFailed table "BinderException")) .ok
  checkKeys table uniqueKey counts
  checkSelected table uniqueKey staging
  let (widened, columns) ← duckdbReconcileSqlSchema table uniqueKey policy staging target
  let updated := (staging.rows.flatMap fun s => widened.rows.filter fun t => KeyMatch uniqueKey t s).length
  let kept := widened.filterRows fun t => ¬ ∃ s ∈ staging.rows, KeyMatch uniqueKey t s
  match kept.insert assign columns staging.rows with
  | .ok result => .ok (result, ⟨staging.height, some (staging.height - updated), some updated⟩)
  | .error _ => .error (materializationFailed table "ConversionException")

/-! ### BigQuery -/

/-- `WHEN MATCHED THEN UPDATE SET`, when `others` are the columns that are set. -/
def updateRow (schema : List (String × String)) (others : List String) (t s : Row) : Option Row :=
  (assignRow assign schema others s).map fun stored c => if c ∈ others then stored c else t c

/-- The rows after `MERGE`. The keys of the source are distinct, so no row has two matches. -/
def mergeRows (schema : List (String × String)) (columns : List String) (rows targetRows : List Row) :
    Option (List Row) := do
  let updated ← targetRows.mapM fun t =>
    match rows.find? fun s => KeyMatch uniqueKey t s with
    | some s => updateRow assign schema (columns.filter (· ≠ uniqueKey)) t s
    | none => some t
  let inserted ← assignRows assign schema columns
    (rows.filter fun s => ¬ ∃ t ∈ targetRows, KeyMatch uniqueKey t s)
  return updated ++ inserted

variable {assign uniqueKey} in
theorem updateRow_blank {schema : List (String × String)} {others : List String} {t s row : Row}
    (ht : ∀ c ∉ schema.map Prod.fst, t c = .null) (h : updateRow assign schema others t s = some row) :
    ∀ c ∉ schema.map Prod.fst, row c = .null := by
  obtain ⟨stored, hstored, rfl⟩ := Option.map_eq_some_iff.mp h
  intro c hc
  show (if c ∈ others then stored c else t c) = .null
  split
  · exact assignRow_blank hstored hc
  · exact ht c hc

variable {assign uniqueKey} in
theorem mergeRows_blank {f : Frame} {columns : List String} {rows merged : List Row}
    (h : mergeRows assign uniqueKey f.schema columns rows f.rows = some merged) :
    ∀ row ∈ merged, ∀ c ∉ f.schema.map Prod.fst, row c = .null := by
  obtain ⟨updated, hupdated, h⟩ := Option.bind_eq_some_iff.mp h
  obtain ⟨inserted, hinserted, h⟩ := Option.bind_eq_some_iff.mp h
  obtain rfl := Option.some.inj h
  intro row hrow
  rcases List.mem_append.mp hrow with hrow | hrow
  · obtain ⟨t, ht, hrow⟩ := exists_of_mem_right (mapM_eq_some.mp hupdated) hrow
    split at hrow
    · exact updateRow_blank (f.blank t ht) hrow
    · obtain rfl := Option.some.inj hrow
      exact f.blank t ht
  · obtain ⟨s, -, hs⟩ := exists_of_mem_assignRows hinserted hrow
    exact fun c hc => assignRow_blank hs hc

/-- `MERGE … USING … ON` the unique key. -/
def Frame.merge (f : Frame) (columns : List String) (rows : List Row) : Option Frame :=
  match h : mergeRows assign uniqueKey f.schema columns rows f.rows with
  | some merged => some ⟨f.schema, merged, f.nodup, mergeRows_blank h⟩
  | none => none

/-- `_reconcile_sql_schema` of `BigQueryAdapter`. The engine accepts some types in `ADD COLUMN`; its
error about another one is not caught. -/
def bigqueryReconcileSqlSchema (staging target : Frame) : Except Failure (Frame × List String) := do
  let plan ← planSchemaChange target.columns staging.columns policy table
  raiseIf (∃ c ∈ staging.schema, c.1 ∈ plan.columnsToAdd ∧ accepts c.2 = false) (.other "BadRequest")
  return (if plan.columnsToAdd = [] then target else target.widen staging, plan.columnsToLoad)

/-- `_check_incremental_format`. -/
def checkIncrementalFormat (targetIsIceberg declaredIceberg : Bool) : Except Failure Unit :=
  if targetIsIceberg = declaredIceberg then .ok ()
  else if declaredIceberg then .error (.adapterError ("Incremental target '" ++ table ++
    "' exists as a standard table but the config declares `table_format: iceberg`. Re-run with " ++
    "--full-refresh to rebuild it as Iceberg."))
  else .error (.adapterError ("Incremental target '" ++ table ++ "' exists as an Iceberg table but the " ++
    "config does not declare `table_format: iceberg`. Re-run with --full-refresh to rebuild it as a " ++
    "standard table, or add `table_format: iceberg` to keep it as Iceberg."))

/-- `materialize_sql_incremental` of `BigQueryAdapter`: only the errors of the engine about the `MERGE`
are reported as an `AdapterError`. -/
def bigquerySqlIncremental (targetIsIceberg declaredIceberg : Bool) (staging target : Frame) :
    Except Failure (Frame × SqlMaterializationResult) := do
  checkIncrementalFormat table targetIsIceberg declaredIceberg
  let counts ← (keyCheck staging uniqueKey).elim (.error (.other "BadRequest")) .ok
  checkKeys table uniqueKey counts
  checkSelected table uniqueKey staging
  checkTarget table uniqueKey target
  let (widened, columns) ← bigqueryReconcileSqlSchema accepts table policy staging target
  let matched := widened.rows.filter fun t => ∃ s ∈ staging.rows, KeyMatch uniqueKey t s
  let unmatched := staging.rows.filter fun s => ¬ ∃ t ∈ widened.rows, KeyMatch uniqueKey t s
  -- without other columns there is no clause for matched rows
  let affected := (if columns.filter (· ≠ uniqueKey) = [] then 0 else matched.length) + unmatched.length
  match widened.merge assign uniqueKey columns staging.rows with
  | some result => .ok (result, ⟨affected, none, none⟩)
  | none => .error (materializationFailed table "BadRequest")

end Adapters

end Stel.Warehouse
