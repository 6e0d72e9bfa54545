import Stel.ClassificationMetrics
import Stel.Dag
import Stel.Execution.Documents
import Stel.Hashing

/-!
# Eval models

`execution/eval.py`: an eval model reads predictions and labelled ground truth, and publishes its
report, one row for each metric. A row is identified by its metric, its label and the version of the
predictions; an incremental run first deletes the rows of that version that the report does not
have, and then loads the rows of the report.

A column of a frame has the type `"Null"` if all its cells are missing, and so has the column of a
table that was created from such a frame.

## Main definitions

* `EvalConfig`, `EvalRun`: the configuration of a model, and what one run of it reads.
* `EvalRun.evaluate`: the report and the rows of a run.
* `EvalRun.runEvalModel`: `run_eval_model`.

## Main results

* `EvalRun.evaluate_eq_ok`: the rows of a run.
* `EvalRun.runEvalModel_cases`: what an incremental run does to the table.
-/

namespace Stel.Execution

open Stel.Warehouse Stel.Hashing Stel.ClassificationMetrics

/-- `EvalConfig`. -/
structure EvalConfig where
  predictions : String
  predictedField : String
  expected : String
  expectedField : String
  key : String
  labels : List String := []
  deriving DecidableEq, Repr

/-- What one run of an eval model reads: its configuration, the other relations of the warehouse,
the declared values of the fields of the other models, the code version and the time. -/
structure EvalRun where
  config : EvalConfig
  incremental : Bool
  fullRefresh : Bool := false
  onSchemaChange : OnSchemaChange := .fail
  updateWhenChanged : List String := []
  tables : String → Option Frame
  fields : String → Option (List (String × List String))
  codeVersion : String
  evaluatedAt : String

/-- What the warehouse and the other packages do: the digest, the assignment casts, and how a float
and the cell of a float column are printed and read. -/
structure EvalEnv where
  blake2b : ℤ → List UInt8 → List UInt8
  assign : Assignment
  double : ℚ → String
  number : String → ℚ
  fixed : ℚ → String

/-! ### The labels of a relation -/

/-- `_column`. -/
def requireColumn (frame : Frame) (name model relation : String) : Except Failure Unit :=
  if name ∈ frame.columns then .ok ()
  else .error (.runError ("Eval model '" ++ model ++ "': relation '" ++ relation ++
    "' has no column '" ++ name ++ "'. Available: " ++ printNames (sortedSet frame.columns)))

/-- The state of the loop of `_labels_by_key`. -/
structure KeyedLabels where
  out : List (String × String) := []
  duplicates : List String := []
  dropped : ℕ := 0
  deriving DecidableEq, Repr

/-- `out[key] = label`. -/
def setLabel (out : List (String × String)) (key label : String) : List (String × String) :=
  if key ∈ out.map Prod.fst then out.map fun e => if e.1 = key then (key, label) else e
  else out ++ [(key, label)]

/-- One pass of the loop of `_labels_by_key`. -/
def KeyedLabels.add (key value : String) (acc : KeyedLabels) (row : Row) : KeyedLabels :=
  match (row key).text, (row value).text with
  | some rowKey, some label =>
    { acc with
      out := setLabel acc.out rowKey label
      duplicates := if rowKey ∈ acc.out.map Prod.fst then rowKey :: acc.duplicates
        else acc.duplicates }
  | _, _ => { acc with dropped := acc.dropped + 1 }

/-- `_labels_by_key`. -/
def labelsByKey (frame : Frame) (key value model relation : String) :
    Except Failure (List (String × String) × ℕ) :=
  let labels := frame.rows.foldl (KeyedLabels.add key value) {}
  let duplicates := sortedSet labels.duplicates
  if duplicates ≠ [] then
    .error (.runError ("Eval model '" ++ model ++ "': relation '" ++ relation ++ "' has " ++
      toString duplicates.length ++ " duplicate '" ++ key ++ "' value(s) (e.g. " ++
      ", ".intercalate (duplicates.take 5) ++ "). Which row would be scored depends on " ++
      "warehouse row order; deduplicate the relation or evaluate at a different key."))
  else .ok (labels.out, labels.dropped)

/-- `_predictions_version`. -/
def predictionsVersion (frame : Frame) : Option String :=
  if "code_version" ∈ frame.columns then
    match (frame.rows.filterMap fun row => (row "code_version").text).dedup with
    | [version] => some version
    | _ => none
  else none

/-! ### The report -/

namespace EvalRun

variable (env : EvalEnv) (name : String) (run : EvalRun)

/-- `adapter.read_table`. -/
def readTable (relation : String) : Except Failure Frame :=
  match run.tables relation with
  | some frame => .ok frame
  | none => .error (.other "Catalog Error")

/-- `declared_labels_for`. -/
def declaredLabelsFor (fieldName : String) (fields : List (String × List String)) : List String :=
  (fields.lookup fieldName).getD []

/-- The taxonomy that the predictions were asked for. -/
def declared : List String :=
  if run.config.labels ≠ [] then run.config.labels
  else match run.fields (parseRef run.config.predictions) with
    | some fields => declaredLabelsFor run.config.predictedField fields
    | none => []

/-- The check that there is ground truth. -/
def requireExpected (expectedName : String) (expectedByKey : List (String × String)) :
    Except Failure Unit :=
  if expectedByKey ≠ [] then .ok ()
  else .error (.runError ("Eval model '" ++ name ++ "': '" ++ expectedName ++
    "' has no usable rows (every '" ++ run.config.key ++ "' or '" ++ run.config.expectedField ++
    "' was null). Scoring nothing would report a perfect zero."))

/-- The report, and the version of the predictions. -/
def report : Except Failure (ClassificationReport × Option String) := do
  let predictionsName := parseRef run.config.predictions
  let expectedName := parseRef run.config.expected
  let predictions ← run.readTable predictionsName
  let expected ← run.readTable expectedName
  requireColumn predictions run.config.key name predictionsName
  requireColumn predictions run.config.predictedField name predictionsName
  requireColumn expected run.config.key name expectedName
  requireColumn expected run.config.expectedField name expectedName
  let (predictedByKey, _) ← labelsByKey predictions run.config.key run.config.predictedField name
    predictionsName
  let (expectedByKey, unusableExpected) ← labelsByKey expected run.config.key
    run.config.expectedField name expectedName
  run.requireExpected name expectedName expectedByKey
  let (pairs, unmatched) := joinPairs predictedByKey expectedByKey
  return (score pairs run.declared unmatched unusableExpected, predictionsVersion predictions)

/-! ### The rows -/

/-- A text that may be missing, as a Python value. -/
def optionalValue (text : Option String) : PyValue := text.elim .none .str

/-- What a metric id is the fingerprint of. -/
def metricIdentity (metric : String) (label version : Option String) : PyValue :=
  .mapping [(.str "model", .str name), (.str "metric", .str metric),
    (.str "label", optionalValue label), (.str "predictions_version", optionalValue version)]

theorem optionalValue_inj {a b : Option String}
    (h : canonicalValue (optionalValue a) = canonicalValue (optionalValue b)) : a = b := by
  cases a <;> cases b <;> simp_all [optionalValue, canonicalValue]

/-- The metric, the label and the version are told apart. -/
theorem metricIdentity_inj {name metric metric' : String} {label label' version version' : Option String}
    (h : canonicalValue (metricIdentity name metric label version) =
      canonicalValue (metricIdentity name metric' label' version')) :
    metric = metric' ∧ label = label' ∧ version = version' := by
  have hitem : ∀ key v w, (PyValue.str key, v) ∈ [(PyValue.str "model", PyValue.str name),
      (.str "metric", .str metric), (.str "label", optionalValue label),
      (.str "predictions_version", optionalValue version)] →
      (PyValue.str key, w) ∈ [(PyValue.str "model", PyValue.str name),
      (.str "metric", .str metric'), (.str "label", optionalValue label'),
      (.str "predictions_version", optionalValue version')] →
      canonicalValue v = canonicalValue w := fun key v w =>
    canonicalValue_item_eq _ h (by simp [canonicalValue])
  have hmetric := hitem "metric" (.str metric) (.str metric') (by simp) (by simp)
  exact ⟨by simpa [canonicalValue] using hmetric,
    optionalValue_inj (hitem "label" _ _ (by simp) (by simp)),
    optionalValue_inj (hitem "predictions_version" _ _ (by simp) (by simp))⟩

/-- The id of a metric row. -/
def metricId (metric : String) (label version : Option String) : Except Failure String :=
  canonicalFingerprint env.blake2b (metricIdentity name metric label version) "eval-metric-id" 1 16

/-- The columns of an eval table. -/
def metricColumns : List String :=
  ["metric_id", "metric", "label", "value", "predictions_version", "code_version", "evaluated_at"]

/-- A published row. -/
def metricRow (version : Option String) (id : String) (row : MetricRow) : Row :=
  dictRow [("metric_id", .string id), ("metric", .string row.metric),
    ("label", optionalCell row.label), ("value", .other (env.double row.value)),
    ("predictions_version", optionalCell version), ("code_version", .string run.codeVersion),
    ("evaluated_at", .string run.evaluatedAt)]

/-- The type of a column of optional texts. -/
def textType (cells : List Cell) : String := if ∀ c ∈ cells, c = .null then "Null" else "String"

/-- The columns of an eval table with their types. -/
def metricSchema (labelType versionType : String) : List (String × String) :=
  [("metric_id", "String"), ("metric", "String"), ("label", labelType), ("value", "Float64"),
    ("predictions_version", versionType), ("code_version", "String"), ("evaluated_at", "String")]

theorem metricRow_blank {version : Option String} {id : String} {row : MetricRow} {c : String}
    (hc : c ∉ metricColumns) : run.metricRow env version id row c = .null := by
  rw [metricRow, dictRow, lookup_eq_none_of_notMem]
  · rfl
  · exact hc

section Cells

variable (version : Option String) (id : String) (row : MetricRow)

@[simp] theorem metricRow_metric_id :
    run.metricRow env version id row "metric_id" = .string id := rfl

@[simp] theorem metricRow_metric : run.metricRow env version id row "metric" = .string row.metric :=
  rfl

@[simp] theorem metricRow_label :
    run.metricRow env version id row "label" = optionalCell row.label := rfl

@[simp] theorem metricRow_value :
    run.metricRow env version id row "value" = .other (env.double row.value) := rfl

@[simp] theorem metricRow_predictions_version :
    run.metricRow env version id row "predictions_version" = optionalCell version := rfl

@[simp] theorem metricRow_code_version :
    run.metricRow env version id row "code_version" = .string run.codeVersion := rfl

@[simp] theorem metricRow_evaluated_at :
    run.metricRow env version id row "evaluated_at" = .string run.evaluatedAt := rfl

end Cells

/-- `pl.DataFrame(rows)`. -/
def metricFrame (version : Option String) (rows : List (String × MetricRow)) : Frame where
  schema := metricSchema (textType (rows.map fun r => optionalCell r.2.label))
    (textType (rows.map fun _ => optionalCell version))
  rows := rows.map fun r => run.metricRow env version r.1 r.2
  nodup := by simp [metricSchema]
  blank := by
    intro row hrow c hc
    obtain ⟨r, -, rfl⟩ := List.mem_map.mp hrow
    exact run.metricRow_blank env hc

/-- What a run computes before it publishes. -/
structure Evaluation where
  report : ClassificationReport
  version : Option String
  frame : Frame

/-- `run_eval_model`, up to the publication. -/
def evaluate : Except Failure Evaluation := do
  let (report, version) ← run.report name
  let ids ← (asRows report).mapM fun row => metricId env name row.metric row.label version
  return ⟨report, version, run.metricFrame env version (ids.zip (asRows report))⟩

/-! ### The publication -/

/-- The rows of one version of the predictions. -/
def sameVersion (version : Option String) (row : Row) : Bool :=
  row "predictions_version" = optionalCell version

/-- The ids of the rows of the version that the report does not have. A text cannot be compared with
a column that has no texts. -/
def staleIds (version : Option String) (currentIds : List Cell) (existing : Frame) :
    Except Failure (List Cell) :=
  if "predictions_version" ∈ existing.columns then
    if version.isSome ∧ existing.schema.lookup "predictions_version" ≠ some "String" then
      .error (.other "ComputeError")
    else if "metric_id" ∉ existing.columns then .error (.other "ColumnNotFoundError")
    else .ok (((existing.rows.filter (sameVersion version)).map (· "metric_id")).filter
      (· ∉ currentIds))
  else .ok []

/-- The table without the stale rows. -/
def deleteStale (evaluation : Evaluation) (existing : Option Frame) :
    Except Failure (Option Frame) :=
  match existing with
  | none => .ok none
  | some table => do
    let stale ← staleIds evaluation.version (evaluation.frame.rows.map (· "metric_id")) table
    deleteRows "metric_id" stale existing

/-- The publication, and the table after it. The deletion is durable when the load fails. -/
def publish (evaluation : Evaluation) (existing : Option Frame) :
    Except Failure ℕ × Option Frame :=
  if ¬ run.incremental ∨ run.fullRefresh then
    match materializeFull evaluation.frame with
    | .ok table => (.ok evaluation.frame.height, table)
    | .error e => (.error e, existing)
  else match deleteStale evaluation existing with
    | .error e => (.error e, existing)
    | .ok kept =>
      match materializeIncremental env.assign name evaluation.frame "metric_id" run.onSchemaChange
          run.updateWhenChanged kept with
      | .ok table => (.ok evaluation.frame.height, table)
      | .error e => (.error e, kept)

/-- `ModelRunResult`. -/
structure Result where
  documentsProcessed : ℕ
  documentsSkipped : ℕ
  rowsWritten : ℕ
  deriving DecidableEq, Repr

/-- `run_eval_model`: its result, and the table after it. -/
def runEvalModel (existing : Option Frame) : Except Failure Result × Option Frame :=
  match run.evaluate env name with
  | .error e => (.error e, existing)
  | .ok evaluation =>
    let (rowsWritten, table) := run.publish env name evaluation existing
    (rowsWritten.map fun n =>
      ⟨evaluation.report.evaluatedRows, evaluation.report.unmatchedRows, n⟩, table)

/-! ### What a run leaves -/

variable {env name run}

/-- The report depends on what the run reads. -/
theorem report_congr {run run' : EvalRun} (hconfig : run.config = run'.config)
    (htables : run.tables = run'.tables) (hfields : run.fields = run'.fields) :
    run.report name = run'.report name := by
  simp only [report, readTable, requireExpected, declared, hconfig, htables, hfields]

/-- The rows of a run are those of its report, each with its id. -/
theorem evaluate_eq_ok {evaluation : Evaluation} (h : run.evaluate env name = .ok evaluation) :
    ∃ rows : List (String × MetricRow),
      evaluation.frame = run.metricFrame env evaluation.version rows ∧
      rows.map Prod.snd = asRows evaluation.report ∧
      (∀ r ∈ rows, metricId env name r.2.metric r.2.label evaluation.version = .ok r.1) ∧
      ((asRows evaluation.report).map MetricRow.identity).Nodup := by
  obtain ⟨⟨report, version⟩, hreport, h⟩ := bind_eq_ok.mp h
  obtain ⟨ids, hids, h⟩ := bind_eq_ok.mp h
  obtain rfl := Except.ok.inj h
  have hforall := mapM_eq_ok.mp hids
  refine ⟨ids.zip (asRows report), rfl, List.map_snd_zip hforall.length_eq.le, ?_, ?_⟩
  · rintro ⟨id, row⟩ hr
    exact List.forall₂_iff_zip.mp hforall.flip |>.2 hr
  · obtain ⟨predictions, -, hreport⟩ := bind_eq_ok.mp hreport
    obtain ⟨expected, -, hreport⟩ := bind_eq_ok.mp hreport
    iterate 4 obtain ⟨_, -, hreport⟩ := bind_eq_ok.mp hreport
    obtain ⟨⟨predictedByKey, _⟩, -, hreport⟩ := bind_eq_ok.mp hreport
    obtain ⟨⟨expectedByKey, unusableExpected⟩, -, hreport⟩ := bind_eq_ok.mp hreport
    obtain ⟨_, -, hreport⟩ := bind_eq_ok.mp hreport
    obtain ⟨rfl, -⟩ := Prod.mk.inj (Except.ok.inj hreport)
    exact nodup_asRows_score ..

/-- What an incremental run does to the table: nothing, or the stale rows are deleted and then the
report is loaded, where the load may fail. -/
theorem runEvalModel_cases {existing table : Option Frame} {out : Except Failure Result}
    (hincremental : run.incremental = true) (hrefresh : run.fullRefresh = false)
    (h : run.runEvalModel env name existing = (out, table)) :
    table = existing ∧ (∃ e, out = .error e) ∨
    ∃ evaluation kept, run.evaluate env name = .ok evaluation ∧
      deleteStale evaluation existing = .ok kept ∧
      (table = kept ∧ (∃ e, out = .error e) ∨
        materializeIncremental env.assign name evaluation.frame "metric_id" run.onSchemaChange
          run.updateWhenChanged kept = .ok table ∧ ∃ result, out = .ok result) := by
  unfold runEvalModel at h
  split at h
  · obtain ⟨rfl, rfl⟩ := Prod.mk.inj h
    exact .inl ⟨rfl, _, rfl⟩
  rename_i evaluation hevaluate
  simp only [publish, hincremental, hrefresh, not_true_eq_false, Bool.false_eq_true, or_self,
    if_false] at h
  split at h
  · obtain ⟨rfl, rfl⟩ := Prod.mk.inj h
    exact .inl ⟨rfl, _, rfl⟩
  rename_i kept hkept
  split at h
  · rename_i loaded hload
    obtain ⟨rfl, rfl⟩ := Prod.mk.inj h
    exact .inr ⟨evaluation, kept, hevaluate, hkept, .inr ⟨hload, _, rfl⟩⟩
  · obtain ⟨rfl, rfl⟩ := Prod.mk.inj h
    exact .inr ⟨evaluation, kept, hevaluate, hkept, .inl ⟨rfl, _, rfl⟩⟩

end EvalRun

end Stel.Execution
