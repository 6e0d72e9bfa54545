import Stel.Execution.EvalGate

/-!
# Loading an evaluation

What one run of an eval model does to its table. A load with change detection leaves the unchanged
rows with the time of an earlier run, and a table that was created without any label has no column
for labels that are texts.

## Main definitions

* `EvalRun.Reliable`: what is assumed of the warehouse and the digest.
* `EvalRun.IsLastRun`, `EvalRun.LastRun`: the table after a run is that of its report.
* `EvalRun.Overwrites`: a run writes every row of its report, with its labels.
* `EvalRun.Recorded`: what holds of every table of an eval model.
* `EvalRun.Loaded`: what a completed run does.

## Main results

* `EvalRun.isLastRun_of_overwrites`, `EvalRun.overwrites_of_newest`: a completed run leaves the table
  of its report if it overwrites, and only then.
* `EvalRun.exists_runEvalModel`: a run completes if the table has columns for its report.
-/

namespace Stel.Execution

open Stel.Warehouse Stel.Hashing Stel.ClassificationMetrics

namespace EvalRun

variable (env : EvalEnv) (name : String)

/-! ### The table of a report -/

/-- What is assumed of the warehouse and the digest: metric ids do not collide, texts and floats are
stored as they are in columns of their types, and a column without a type holds no text. -/
structure Reliable : Prop where
  collisionFree : ∀ metric label version metric' label' version', CollisionFree env.blake2b
    (metricIdentity name metric label version) (metricIdentity name metric' label' version')
    "eval-metric-id"
  assign_null : ∀ type, env.assign type .null = some .null
  assign_string : ∀ s, env.assign "String" (.string s) = some (.string s)
  assign_double : ∀ t, env.assign "Float64" (.other t) = some (.other t)
  assign_untyped : ∀ cell s, env.assign "Null" cell ≠ some (.string s)

/-- The metric, the label and the version of a row. -/
def metricKey (row : Row) : Cell × Cell × Cell :=
  (row "metric", row "label", row "predictions_version")

/-- The table after a run is that of its report: its rows are the newest evaluation, no two rows
have the same metric, label and version, the version of the run has no other row, and the rows of
the other versions are as before. The gate reads a value of the report, if any. -/
structure IsLastRun (evaluation : Evaluation) (before after : List Row) : Prop where
  newest : newestRows after = evaluation.frame.rows
  unique : (after.map metricKey).Nodup
  version : after.filter (sameVersion evaluation.version) = evaluation.frame.rows
  others : (after.filter fun row => !sameVersion evaluation.version row) =
    before.filter fun row => !sameVersion evaluation.version row
  observed : ∀ metric label value, observedMetric env after metric label = some value →
    ∃ row ∈ evaluation.frame.rows, metricMatches metric label row = true ∧
      (row "value").text = some value
  gate : ∀ modelName metric label minimum minimumText,
    (minMetric env modelName after metric label minimum minimumText).passed = true →
      ∃ row ∈ evaluation.frame.rows, metricMatches metric label row = true ∧
        ∃ value ∈ (row "value").text, minimum ≤ env.number value

/-- If a run completes, the table after it is that of its report. -/
def LastRun (run : EvalRun) (existing : Option Frame) : Prop :=
  ∀ result after evaluation, run.runEvalModel env name existing = (.ok result, after) →
    run.evaluate env name = .ok evaluation →
      IsLastRun env evaluation (rowsOf existing) (rowsOf after)

/-- If a run completes, it overwrites every row of its report that the table has: the load does not
detect changes, or each row has changed. The table has a column for the labels of the report. -/
def Overwrites (run : EvalRun) (existing : Option Frame) : Prop :=
  ∀ result after evaluation table, run.runEvalModel env name existing = (.ok result, after) →
    run.evaluate env name = .ok evaluation → existing = some table →
      (run.updateWhenChanged = [] ∨ ∀ s ∈ evaluation.frame.rows, ∀ t ∈ table.rows,
        t "metric_id" = s "metric_id" → Changed run.updateWhenChanged t s) ∧
      (table.schema.lookup "label" = some "String" ∨
        ∀ s ∈ evaluation.frame.rows, s "label" = .null)

/-! ### The tables of histories -/

/-- The id of a row is that of a metric of its version. -/
def Identified (row : Row) : Prop :=
  ∃ metric label version id, metricId env name metric label version = .ok id ∧
    row "metric_id" = .string id ∧ row "predictions_version" = optionalCell version

/-- The id of a row is that of its metric, label and version. -/
def Labelled (row : Row) : Prop :=
  ∃ metric label version id, metricId env name metric label version = .ok id ∧
    row "metric_id" = .string id ∧
    metricKey row = (.string metric, optionalCell label, optionalCell version)

/-- What holds of the table after every history of runs at some times. -/
structure Recorded (past : List String) (table : Frame) : Prop where
  schema : ∃ labelType versionType, table.schema = metricSchema labelType versionType ∧
    labelType ∈ ["Null", "String"] ∧ versionType ∈ ["Null", "String"]
  ids : (table.rows.map (· "metric_id")).Nodup
  identified : ∀ row ∈ table.rows, Identified env name row
  evaluated : ∀ row ∈ table.rows, ∃ time ∈ past, row "evaluated_at" = .string time

variable {env name}

theorem Labelled.identified {row : Row} (h : Labelled env name row) : Identified env name row := by
  obtain ⟨metric, label, version, id, hid, hrow, hkey⟩ := h
  exact ⟨metric, label, version, id, hid, hrow, congrArg (fun key => key.2.2) hkey⟩

/-- Rows whose ids are those of their contents are told apart by their contents. -/
theorem nodup_metricKey {rows : List Row} (h : ∀ row ∈ rows, Labelled env name row)
    (hids : (rows.map (· "metric_id")).Nodup) : (rows.map metricKey).Nodup := by
  refine List.pairwise_map.mpr ((List.pairwise_map.mp hids).imp_of_mem fun {a b} ha hb hne => ?_)
  intro hkey
  refine hne ?_
  obtain ⟨metric, label, version, id, hid, hrow, hcells⟩ := h a ha
  obtain ⟨metric', label', version', id', hid', hrow', hcells'⟩ := h b hb
  rw [hcells, hcells'] at hkey
  simp only [Prod.mk.injEq, Cell.string.injEq, optionalCell_inj] at hkey
  obtain ⟨rfl, rfl, rfl⟩ := hkey
  rw [hrow, hrow', Except.ok.inj (hid.symm.trans hid')]

/-- Different metrics have different ids. -/
theorem Reliable.metric_eq (hreliable : Reliable env name) {metric metric' id : String}
    {label label' version version' : Option String}
    (h : metricId env name metric label version = .ok id)
    (h' : metricId env name metric' label' version' = .ok id) :
    metric = metric' ∧ label = label' ∧ version = version' :=
  metricIdentity_inj ((CollisionFree.fingerprint_eq_iff
    (hreliable.collisionFree _ _ _ _ _ _) h h').mp rfl)

/-- Metric ids of different versions are different. -/
theorem Reliable.version_eq (hreliable : Reliable env name) {metric metric' id : String}
    {label label' version version' : Option String}
    (h : metricId env name metric label version = .ok id)
    (h' : metricId env name metric' label' version' = .ok id) : version = version' := by
  exact (hreliable.metric_eq h h').2.2

theorem Identified.exists_id {row : Row} (h : Identified env name row) :
    ∃ id, row "metric_id" = .string id := by
  obtain ⟨-, -, -, id, -, hid, -⟩ := h
  exact ⟨id, hid⟩

theorem equals_iff_eq {a b : Cell} (ha : ∃ s, a = .string s) (hb : ∃ s, b = .string s) :
    a.Equals b ↔ a = b := by
  obtain ⟨s, rfl⟩ := ha
  obtain ⟨t, rfl⟩ := hb
  rw [Cell.equals_string]
  simp [Cell.text]

/-- Deleting the stale rows keeps the schema, and removes the rows of the version whose metric the
report does not have. -/
theorem deleteStale_eq_ok {evaluation : Evaluation} {existing kept : Option Frame}
    {past : List String} (hrec : ∀ table, existing = some table → Recorded env name past table)
    (h : deleteStale evaluation existing = .ok kept) :
    kept.map Frame.schema = existing.map Frame.schema ∧
      rowsOf kept = (rowsOf existing).filter (fun t => ¬ (sameVersion evaluation.version t = true ∧
        t "metric_id" ∉ evaluation.frame.rows.map (· "metric_id"))) ∧
      ∀ table, existing = some table → evaluation.version.isSome →
        table.schema.lookup "predictions_version" = some "String" := by
  cases existing with
  | none =>
    obtain rfl := Except.ok.inj h
    exact ⟨rfl, rfl, by simp⟩
  | some table =>
    obtain ⟨⟨labelType, versionType, hschema, -⟩, hids, hidentified, -⟩ := hrec table rfl
    obtain ⟨stale, hstale, h⟩ := bind_eq_ok.mp h
    obtain ⟨hkept, hrows⟩ := deleteRows_eq_ok h
    have hcolumns : ∀ c ∈ metricColumns, c ∈ table.columns := by
      intro c hc
      rw [Frame.columns, hschema]
      exact hc
    unfold staleIds at hstale
    rw [if_pos (hcolumns _ (by decide))] at hstale
    split at hstale
    · cases hstale
    rename_i htyped
    rw [if_neg (not_not.mpr (hcolumns _ (by decide)))] at hstale
    obtain rfl := Except.ok.inj hstale
    refine ⟨hkept, ?_, ?_⟩
    · rw [hrows]
      refine List.filter_congr fun t ht => decide_eq_decide.mpr (not_congr ?_)
      constructor
      · rintro ⟨k, hk, hequals⟩
        obtain ⟨hk, hcurrent⟩ := List.mem_filter.mp hk
        obtain ⟨t', ht', rfl⟩ := List.mem_map.mp hk
        obtain ⟨ht', hversion⟩ := List.mem_filter.mp ht'
        have heq := (equals_iff_eq (hidentified t ht).exists_id (hidentified t' ht').exists_id).mp
          hequals
        obtain rfl := List.inj_on_of_nodup_map hids ht ht' heq
        exact ⟨hversion, of_decide_eq_true hcurrent⟩
      · rintro ⟨hversion, hcurrent⟩
        refine ⟨t "metric_id", List.mem_filter.mpr ⟨List.mem_map.mpr ⟨t, List.mem_filter.mpr
          ⟨ht, hversion⟩, rfl⟩, decide_eq_true hcurrent⟩, ?_⟩
        exact (equals_iff_eq (hidentified t ht).exists_id (hidentified t ht).exists_id).mpr rfl
    · intro table' heq hsome
      obtain rfl := Option.some.inj heq
      exact not_not.mp fun hne => htyped ⟨hsome, hne⟩

/-- A text column stores an optional text, and every column stores a missing one. -/
theorem Reliable.assign_optional (hreliable : Reliable env name) {type : String}
    {text : Option String} (h : type = "String" ∨ text = none) :
    env.assign type (optionalCell text) = some (optionalCell text) := by
  cases text with
  | none => exact hreliable.assign_null type
  | some s =>
    obtain rfl := h.resolve_right (by simp)
    exact hreliable.assign_string s

/-- A row of a report can be stored if the table has columns for it. -/
theorem exists_assignRow (hreliable : Reliable env name) {run : EvalRun} {version : Option String}
    {id labelType versionType : String} {row : MetricRow}
    (hlabel : labelType = "String" ∨ row.label = none)
    (hversion : versionType = "String" ∨ version = none) :
    ∃ stored, assignRow env.assign (metricSchema labelType versionType) metricColumns
      (run.metricRow env version id row) = some stored := by
  have hall : ∀ c ∈ metricSchema labelType versionType, c.1 ∈ metricColumns →
      (env.assign c.2 (run.metricRow env version id row c.1)).isSome := by
    simp only [metricSchema, List.forall_mem_cons]
    simp [hreliable.assign_string, hreliable.assign_double, hreliable.assign_optional hlabel,
      hreliable.assign_optional hversion]
  exact ⟨_, if_pos hall⟩

/-- What an eval table stores for a row of a report: the row itself, but for the label if the table
has no column for labels. -/
theorem stored_eq (hreliable : Reliable env name) {run : EvalRun} {version : Option String}
    {id labelType versionType : String} {row : MetricRow} {stored : Row}
    (hlabel : labelType ∈ ["Null", "String"])
    (hversion : versionType = "String" ∨ version = none)
    (h : assignRow env.assign (metricSchema labelType versionType) metricColumns
      (run.metricRow env version id row) = some stored) :
    (∀ c, c ≠ "label" → stored c = run.metricRow env version id row c) ∧
      (labelType = "String" ∨ row.label = none → stored = run.metricRow env version id row) ∧
      (∀ text, stored "label" = .string text → labelType = "String") := by
  have happly : ∀ c type, (metricSchema labelType versionType).lookup c = some type →
      c ∈ metricColumns → env.assign type (run.metricRow env version id row c) = some (stored c) :=
    fun c type htype hc => assignRow_apply h htype hc
  have hother : ∀ c, c ≠ "label" → stored c = run.metricRow env version id row c := by
    intro c hc
    by_cases hcolumn : c ∈ metricColumns
    · simp only [metricColumns, List.mem_cons, List.not_mem_nil, or_false, hc, false_or] at hcolumn
      rcases hcolumn with rfl | rfl | rfl | rfl | rfl | rfl
      · have hid := happly "metric_id" "String" rfl (by decide)
        rw [metricRow_metric_id, hreliable.assign_string] at hid
        exact (Option.some.inj hid).symm
      · have hmetric := happly "metric" "String" rfl (by decide)
        rw [metricRow_metric, hreliable.assign_string] at hmetric
        exact (Option.some.inj hmetric).symm
      · have hvalue := happly "value" "Float64" rfl (by decide)
        rw [metricRow_value, hreliable.assign_double] at hvalue
        exact (Option.some.inj hvalue).symm
      · have hcell := happly "predictions_version" versionType rfl (by decide)
        rw [metricRow_predictions_version,
          hreliable.assign_optional hversion] at hcell
        exact (Option.some.inj hcell).symm
      · have hcode := happly "code_version" "String" rfl (by decide)
        rw [metricRow_code_version, hreliable.assign_string] at hcode
        exact (Option.some.inj hcode).symm
      · have htime := happly "evaluated_at" "String" rfl (by decide)
        rw [metricRow_evaluated_at, hreliable.assign_string] at htime
        exact (Option.some.inj htime).symm
    · rw [run.metricRow_blank env hcolumn]
      exact assignRow_blank h hcolumn
  have hstored := happly "label" labelType rfl (by decide)
  rw [metricRow_label] at hstored
  refine ⟨hother, fun hfits => funext fun c => ?_, fun text htext => ?_⟩
  · by_cases hc : c = "label"
    · subst hc
      rw [hreliable.assign_optional hfits] at hstored
      exact (Option.some.inj hstored).symm
    · exact hother c hc
  · rcases List.mem_cons.mp hlabel with rfl | hstring
    · rw [htext] at hstored
      exact absurd hstored (hreliable.assign_untyped _ _)
    · exact List.mem_singleton.mp hstring

/-! ### One run -/

section Step

variable {run : EvalRun} {evaluation : Evaluation} {existing after : Option Frame}
  {past : List String}

/-- The rows of a report. -/
theorem evaluate_rows (h : run.evaluate env name = .ok evaluation) :
    evaluation.frame.rows ≠ [] ∧ ∀ s ∈ evaluation.frame.rows,
      Labelled env name s ∧ s "evaluated_at" = .string run.evaluatedAt ∧
      sameVersion evaluation.version s = true ∧
      ∃ id row, s = run.metricRow env evaluation.version id row := by
  obtain ⟨rows, hframe, hreport, hids, -⟩ := evaluate_eq_ok h
  rw [hframe]
  constructor
  · intro hnil
    have hempty : rows = [] := List.map_eq_nil_iff.mp hnil
    rw [hempty, asRows] at hreport
    cases hreport
  · intro s hs
    obtain ⟨r, hr, rfl⟩ := List.mem_map.mp hs
    exact ⟨⟨r.2.metric, r.2.label, evaluation.version, r.1, hids r hr, rfl, rfl⟩, rfl,
      by simp [sameVersion], r.1, r.2, rfl⟩

/-- What a completed run does: it keeps the rows that are neither stale nor replaced, and appends the
rows that replace one or have a new id, as the table stores them. -/
structure Loaded (env : EvalEnv) (name : String) (run : EvalRun) (evaluation : Evaluation)
    (existing after : Option Frame) (detect : List String) (labelType : String)
    (kept source stored : List Row) : Prop where
  rows : rowsOf after = kept ++ stored
  detects : ∀ table, existing = some table → detect = run.updateWhenChanged
  fresh : existing = none → detect = []
  keeps : kept = (rowsOf existing).filter fun t =>
    ¬ (sameVersion evaluation.version t = true ∧
      t "metric_id" ∉ evaluation.frame.rows.map (· "metric_id")) ∧
    ¬ ∃ s ∈ evaluation.frame.rows, t "metric_id" = s "metric_id" ∧
      (detect = [] ∨ Changed detect t s)
  sources : source = evaluation.frame.rows.filter fun s => detect = [] ∨
    ¬ ∃ t ∈ kept, t "metric_id" = s "metric_id" ∧ ¬ Changed detect t s
  stores : List.Forall₂ (fun row s => (∀ c, c ≠ "label" → s c = row c) ∧
    (labelType = "String" ∨ row "label" = .null → s = row) ∧
    ∀ text, s "label" = .string text → labelType = "String") source stored
  label : (∀ table, existing = some table → table.schema.lookup "label" = some labelType) ∧
    (existing = none → labelType = "String" ∨ ∀ s ∈ evaluation.frame.rows, s "label" = .null)
  schema : ∃ versionType, schemaOf after = metricSchema labelType versionType ∧
    labelType ∈ ["Null", "String"] ∧ versionType ∈ ["Null", "String"] ∧
    (versionType = "String" ∨ evaluation.version = none)
  ids : (evaluation.frame.rows.map (· "metric_id")).Nodup

theorem textType_mem (cells : List Cell) : textType cells ∈ ["Null", "String"] := by
  unfold textType
  split <;> simp

theorem textType_eq_string_or {cells : List Cell} {text : Option String}
    (h : optionalCell text ∈ cells) : textType cells = "String" ∨ text = none := by
  by_cases hall : ∀ c ∈ cells, c = .null
  · exact .inr (optionalCell_eq_null.mp (hall _ h))
  · exact .inl (if_neg hall)

/-- The columns of the table after a load. -/
theorem schema_load (hrec : ∀ table, existing = some table → Recorded env name past table)
    {kept : Option Frame} (hevaluate : run.evaluate env name = .ok evaluation)
    (hkept : deleteStale evaluation existing = .ok kept) {detect : List String}
    {keptRows stored : List Row}
    (hmerged : Merged env.assign "metric_id" evaluation.frame run.onSchemaChange detect kept after
      keptRows stored) :
    ∃ labelType versionType, schemaOf after = metricSchema labelType versionType ∧
      labelType ∈ ["Null", "String"] ∧ versionType ∈ ["Null", "String"] ∧
      (versionType = "String" ∨ evaluation.version = none) ∧
      (∀ table, existing = some table → table.schema.lookup "label" = some labelType) ∧
      (existing = none → labelType = "String" ∨ ∀ s ∈ evaluation.frame.rows, s "label" = .null) := by
  obtain ⟨hne, -⟩ := evaluate_rows hevaluate
  obtain ⟨rows, hframe, -⟩ := evaluate_eq_ok hevaluate
  obtain ⟨hschema, -, hversion⟩ := deleteStale_eq_ok hrec hkept
  cases existing with
  | none =>
    obtain rfl : kept = none := by simpa using hschema
    have hafter := hmerged.fresh rfl
    rw [hframe] at hafter hne ⊢
    refine ⟨_, _, hafter, textType_mem _, textType_mem _, ?_, by simp, fun _ => ?_⟩
    · obtain ⟨r, hr⟩ := List.exists_mem_of_ne_nil rows fun hnil => hne (by
        rw [metricFrame, hnil]
        rfl)
      exact textType_eq_string_or (List.mem_map_of_mem (f := fun _ : String × MetricRow => _) hr)
    · by_cases hall : ∀ c ∈ rows.map fun r => optionalCell r.2.label, c = .null
      · refine .inr fun s hs => ?_
        obtain ⟨r, hr, rfl⟩ := List.mem_map.mp hs
        exact hall _ (List.mem_map_of_mem (f := fun r : String × MetricRow => _) hr)
      · exact .inl (if_neg hall)
  | some table =>
    obtain ⟨⟨labelType, versionType, htable, hlabel, htype⟩, -⟩ := hrec table rfl
    obtain ⟨rest, rfl, hrest⟩ := Option.map_eq_some_iff.mp hschema
    have hafter := hmerged.same (by simp) fun _ => by
      rw [hframe, schemaOf_some, hrest, htable]
      exact List.Subset.refl _
    rw [schemaOf_some, hrest, htable] at hafter
    refine ⟨labelType, versionType, hafter, hlabel, htype, ?_, ?_, by simp⟩
    · cases hsome : evaluation.version with
      | none => exact .inr rfl
      | some version =>
        have hlookup := hversion table rfl (by simp [hsome])
        rw [htable] at hlookup
        exact .inl (Option.some.inj hlookup)
    · intro table' heq
      obtain rfl := Option.some.inj heq
      rw [htable]
      rfl

theorem exists_loaded (hreliable : Reliable env name)
    (hrec : ∀ table, existing = some table → Recorded env name past table)
    {kept : Option Frame} (hevaluate : run.evaluate env name = .ok evaluation)
    (hkept : deleteStale evaluation existing = .ok kept)
    (hload : materializeIncremental env.assign name evaluation.frame "metric_id" run.onSchemaChange
      run.updateWhenChanged kept = .ok after) :
    ∃ detect labelType keptRows source stored,
      Loaded env name run evaluation existing after detect labelType keptRows source stored := by
  obtain ⟨hne, hframe⟩ := evaluate_rows hevaluate
  obtain ⟨keptRows, stored, hmerged⟩ := materializeIncremental_merged hne hload
  generalize hdetect : (if kept.isSome then run.updateWhenChanged else []) = detect at hmerged
  obtain ⟨labelType, versionType, hschema, hlabel, htype, hversion, htable, hfresh⟩ :=
    schema_load hrec hevaluate hkept hmerged
  obtain ⟨hkeptSchema, hrows, -⟩ := deleteStale_eq_ok hrec hkept
  have hidentified : ∀ t ∈ rowsOf existing, ∃ id, t "metric_id" = .string id := by
    intro t ht
    cases existing with
    | none => cases ht
    | some table => exact ((hrec table rfl).identified t ht).exists_id
  have hequals : ∀ t ∈ rowsOf existing, ∀ s ∈ evaluation.frame.rows,
      (t "metric_id").Equals (s "metric_id") ↔ t "metric_id" = s "metric_id" := fun t ht s hs =>
    equals_iff_eq (hidentified t ht) (hframe s hs).1.identified.exists_id
  have hkeeps : keptRows = (rowsOf existing).filter fun t =>
      ¬ (sameVersion evaluation.version t = true ∧
        t "metric_id" ∉ evaluation.frame.rows.map (· "metric_id")) ∧
      ¬ ∃ s ∈ evaluation.frame.rows, t "metric_id" = s "metric_id" ∧
        (detect = [] ∨ Changed detect t s) := by
    rw [hmerged.keeps, hrows, List.filter_filter]
    refine List.filter_congr fun t ht => ?_
    rw [Bool.decide_and, Bool.and_comm]
    refine congrArg _ (decide_eq_decide.mpr (not_congr ?_))
    refine exists_congr fun s => and_congr_right fun hs => ?_
    rw [hequals t ht s hs]
  refine ⟨detect, labelType, keptRows, _, stored, hmerged.rows, ?_, ?_, hkeeps, rfl, ?_,
    ⟨htable, hfresh⟩, ⟨versionType, hschema, hlabel, htype, hversion⟩, hmerged.keys⟩
  · rintro table rfl
    obtain ⟨rest, rfl, -⟩ := Option.map_eq_some_iff.mp hkeptSchema
    exact hdetect.symm
  · rintro rfl
    obtain rfl : kept = none := by simpa using hkeptSchema
    exact hdetect.symm
  · have hsource : evaluation.frame.rows.filter (fun s => detect = [] ∨
        ¬ ∃ t ∈ keptRows, t "metric_id" = s "metric_id" ∧ ¬ Changed detect t s) =
        evaluation.frame.rows.filter (fun s => detect = [] ∨
        ¬ ∃ t ∈ keptRows, (t "metric_id").Equals (s "metric_id") ∧ ¬ Changed detect t s) := by
      refine List.filter_congr fun s hs => decide_eq_decide.mpr (or_congr_right (not_congr ?_))
      refine exists_congr fun t => and_congr_right fun ht => ?_
      rw [hkeeps] at ht
      rw [hequals t (List.mem_of_mem_filter ht) s hs]
    rw [hsource]
    have hstores := (List.forall₂_and_left _ _).mpr ⟨fun s hs => (hframe s (List.mem_of_mem_filter hs)).2.2.2,
      hmerged.stores⟩
    refine hstores.imp fun row s hrow => ?_
    obtain ⟨⟨id, metric, rfl⟩, hassign⟩ := hrow
    have hcolumns : evaluation.frame.columns = metricColumns := by
      obtain ⟨rows, hmetric, -⟩ := evaluate_eq_ok hevaluate
      rw [hmetric]
      rfl
    rw [hschema, hcolumns] at hassign
    have hstored := stored_eq hreliable hlabel hversion hassign
    refine ⟨hstored.1, fun hfits => hstored.2.1 (hfits.imp_right fun hnull => ?_), hstored.2.2⟩
    exact optionalCell_eq_null.mp hnull

namespace Loaded

variable {detect : List String} {labelType : String} {kept source stored : List Row}
  (h : Loaded env name run evaluation existing after detect labelType kept source stored)

include h

theorem sublist : kept.Sublist (rowsOf existing) := by
  rw [h.keeps]
  exact List.filter_sublist

theorem mem_kept {t : Row} : t ∈ kept ↔ t ∈ rowsOf existing ∧
    ¬ (sameVersion evaluation.version t = true ∧
      t "metric_id" ∉ evaluation.frame.rows.map (· "metric_id")) ∧
    ¬ ∃ s ∈ evaluation.frame.rows, t "metric_id" = s "metric_id" ∧
      (detect = [] ∨ Changed detect t s) := by
  rw [h.keeps, List.mem_filter, decide_eq_true_iff]

/-- A stored row is that of a row of the report, up to its label. -/
theorem exists_source {row : Row} (hrow : row ∈ stored) :
    ∃ s ∈ evaluation.frame.rows, s ∈ source ∧ (∀ c, c ≠ "label" → row c = s c) ∧
      (labelType = "String" ∨ s "label" = .null → row = s) ∧
      ∀ text, row "label" = .string text → labelType = "String" := by
  obtain ⟨s, hs, hcells⟩ := exists_of_mem_right h.stores hrow
  refine ⟨s, ?_, hs, hcells⟩
  rw [h.sources] at hs
  exact List.mem_of_mem_filter hs

/-- A row that was kept has the id of none of the stored rows. -/
theorem ids_ne {t row : Row} (ht : t ∈ kept) (hrow : row ∈ stored) :
    t "metric_id" ≠ row "metric_id" := by
  intro heq
  obtain ⟨s, hs, hsource, hcells, -⟩ := h.exists_source hrow
  rw [hcells "metric_id" (by decide)] at heq
  have hunchanged : ¬ (detect = [] ∨ Changed detect t s) := fun hchanged =>
    (h.mem_kept.mp ht).2.2 ⟨s, hs, heq, hchanged⟩
  rw [not_or] at hunchanged
  rw [h.sources] at hsource
  have hinserted := of_decide_eq_true (List.mem_filter.mp hsource).2
  exact hinserted.resolve_left hunchanged.1 ⟨t, ht, heq, hunchanged.2⟩

/-- The table after a completed run. -/
theorem recorded (hrec : ∀ table, existing = some table → Recorded env name past table)
    (hevaluate : run.evaluate env name = .ok evaluation) {table : Frame}
    (hafter : after = some table) : Recorded env name (past ++ [run.evaluatedAt]) table := by
  have hrows : table.rows = kept ++ stored := by
    rw [← h.rows, hafter, rowsOf_some]
  obtain ⟨versionType, hschema, hlabel, htype, -⟩ := h.schema
  rw [hafter, schemaOf_some] at hschema
  obtain ⟨-, hframe⟩ := evaluate_rows hevaluate
  have hkept : ∀ t ∈ kept, Identified env name t ∧ ∃ time ∈ past, t "evaluated_at" = .string time := by
    intro t ht
    have hbefore := h.sublist.subset ht
    cases existing with
    | none => cases hbefore
    | some before =>
      exact ⟨(hrec before rfl).identified t hbefore, (hrec before rfl).evaluated t hbefore⟩
  have hold : ((rowsOf existing).map (· "metric_id")).Nodup := by
    cases existing with
    | none => exact List.nodup_nil
    | some before => exact (hrec before rfl).ids
  refine ⟨⟨labelType, versionType, hschema, hlabel, htype⟩, ?_, ?_, ?_⟩
  · rw [hrows, List.map_append]
    refine List.nodup_append'.mpr ⟨hold.sublist (h.sublist.map _), ?_, ?_⟩
    · have hids : source.map (· "metric_id") = stored.map (· "metric_id") := by
        rw [← List.forall₂_eq_eq_eq, List.forall₂_map_left_iff, List.forall₂_map_right_iff]
        exact h.stores.imp fun s row hcells => (hcells.1 _ (by decide)).symm
      rw [← hids, h.sources]
      exact h.ids.sublist (List.filter_sublist.map _)
    · intro id hid hid'
      obtain ⟨t, ht, rfl⟩ := List.mem_map.mp hid
      obtain ⟨row, hrow, heq⟩ := List.mem_map.mp hid'
      exact h.ids_ne ht hrow heq.symm
  · intro row hrow
    rw [hrows] at hrow
    rcases List.mem_append.mp hrow with hrow | hrow
    · exact (hkept row hrow).1
    · obtain ⟨s, hs, -, hcells, -⟩ := h.exists_source hrow
      obtain ⟨metric, label, version, id, hid, hrowId, hversion⟩ := (hframe s hs).1.identified
      exact ⟨metric, label, version, id, hid, (hcells _ (by decide)).trans hrowId,
        (hcells _ (by decide)).trans hversion⟩
  · intro row hrow
    rw [hrows] at hrow
    rcases List.mem_append.mp hrow with hrow | hrow
    · obtain ⟨time, htime, hcell⟩ := (hkept row hrow).2
      exact ⟨time, List.mem_append_left _ htime, hcell⟩
    · obtain ⟨s, hs, -, hcells, -⟩ := h.exists_source hrow
      exact ⟨run.evaluatedAt, List.mem_append_right _ (List.mem_singleton_self _),
        (hcells _ (by decide)).trans (hframe s hs).2.1⟩

/-- If the newest evaluation is the report, every row of the report was written with its label. -/
theorem overwrites (hevaluate : run.evaluate env name = .ok evaluation)
    (holder : ∀ t ∈ rowsOf existing, ∃ u ∈ (t "evaluated_at").text, u < run.evaluatedAt)
    (hnewest : newestRows (rowsOf after) = evaluation.frame.rows) :
    (detect = [] ∨ ∀ s ∈ evaluation.frame.rows, ∀ t ∈ rowsOf existing,
      t "metric_id" = s "metric_id" → Changed detect t s) ∧
      (labelType = "String" ∨ ∀ s ∈ evaluation.frame.rows, s "label" = .null) := by
  obtain ⟨-, hframe⟩ := evaluate_rows hevaluate
  have hstored : ∀ s ∈ evaluation.frame.rows, s ∈ stored := by
    intro s hs
    have hafter : s ∈ rowsOf after := (mem_newestRows.mp (hnewest ▸ hs)).1
    rw [h.rows] at hafter
    refine (List.mem_append.mp hafter).resolve_left fun hkept => ?_
    obtain ⟨u, hu, hlt⟩ := holder s (h.sublist.subset hkept)
    rw [(hframe s hs).2.1] at hu
    exact absurd (Option.some.inj hu) hlt.ne'
  constructor
  · by_cases hdetect : detect = []
    · exact .inl hdetect
    refine .inr fun s hs t ht heq => ?_
    by_contra hunchanged
    have hkept : t ∈ kept := by
      refine h.mem_kept.mpr ⟨ht, fun hstale => hstale.2 ?_, ?_⟩
      · exact List.mem_map.mpr ⟨s, hs, heq.symm⟩
      · rintro ⟨s', hs', heq', hchanged⟩
        obtain rfl := List.inj_on_of_nodup_map h.ids hs hs' (heq.symm.trans heq')
        exact hchanged.elim hdetect hunchanged
    exact h.ids_ne hkept (hstored s hs) heq
  · by_cases hall : ∀ s ∈ evaluation.frame.rows, s "label" = .null
    · exact .inr hall
    push Not at hall
    obtain ⟨s, hs, hlabel⟩ := hall
    obtain ⟨_, -, -, -, -, htyped⟩ := h.exists_source (hstored s hs)
    obtain ⟨metric, label, version, id, -, -, hkey⟩ := (hframe s hs).1
    have hcell : s "label" = optionalCell label := congrArg (fun key => key.2.1) hkey
    cases label with
    | none => exact absurd hcell hlabel
    | some text => exact .inl (htyped text hcell)

/-- A run that writes every row of its report with its label leaves the table of its report. -/
theorem isLastRun (hreliable : Reliable env name)
    (hrec : ∀ table, existing = some table → Recorded env name past table)
    (hlabelled : ∀ t ∈ rowsOf existing, Labelled env name t)
    (hevaluate : run.evaluate env name = .ok evaluation)
    (holder : ∀ t ∈ rowsOf existing, ∃ u ∈ (t "evaluated_at").text, u < run.evaluatedAt)
    (hchanged : detect = [] ∨ ∀ s ∈ evaluation.frame.rows, ∀ t ∈ rowsOf existing,
      t "metric_id" = s "metric_id" → Changed detect t s)
    (hlabel : labelType = "String" ∨ ∀ s ∈ evaluation.frame.rows, s "label" = .null) :
    IsLastRun env evaluation (rowsOf existing) (rowsOf after) ∧
      ∀ row ∈ rowsOf after, Labelled env name row := by
  obtain ⟨hne, hframe⟩ := evaluate_rows hevaluate
  have hsource : source = evaluation.frame.rows := by
    rw [h.sources]
    refine List.filter_eq_self.mpr fun s hs => decide_eq_true (hchanged.imp_right fun hall => ?_)
    rintro ⟨t, ht, heq, hunchanged⟩
    exact hunchanged (hall s hs t (h.sublist.subset ht) heq)
  have hstored : stored = evaluation.frame.rows := by
    rw [← hsource, eq_comm, ← List.forall₂_eq_eq_eq]
    refine forall₂_imp_of_mem h.stores fun s hs row hrow => ?_
    exact (hrow.2.1 (hlabel.imp_right fun hall => hall s (hsource ▸ hs))).symm
  have hrows : rowsOf after = kept ++ evaluation.frame.rows := h.rows.trans (by rw [hstored])
  have hlabelledAfter : ∀ row ∈ rowsOf after, Labelled env name row := by
    intro row hrow
    rw [hrows] at hrow
    rcases List.mem_append.mp hrow with hrow | hrow
    · exact hlabelled row (h.sublist.subset hrow)
    · exact (hframe row hrow).1
  have hnewest : newestRows (rowsOf after) = evaluation.frame.rows := by
    rw [hrows]
    have htimes : ∀ row ∈ evaluation.frame.rows,
        (row "evaluated_at").text = some run.evaluatedAt := by
      intro row hrow
      rw [(hframe row hrow).2.1]
      rfl
    exact newestRows_append hne htimes fun row hrow => holder row (h.sublist.subset hrow)
  have hobserved : ∀ metric label value, observedMetric env (rowsOf after) metric label = some value →
      ∃ row ∈ evaluation.frame.rows, metricMatches metric label row = true ∧
        (row "value").text = some value := by
    intro metric label value hvalue
    obtain ⟨row, hrow, hmatches⟩ := exists_of_observedMetric hvalue
    exact ⟨row, hnewest ▸ hrow, hmatches⟩
  refine ⟨⟨hnewest, ?_, ?_, ?_, ?_, ?_⟩, hlabelledAfter⟩
  · refine nodup_metricKey hlabelledAfter ?_
    cases hafter : after with
    | none => exact List.nodup_nil
    | some table => exact (h.recorded hrec hevaluate hafter).ids
  · rw [hrows, List.filter_append, List.filter_eq_nil_iff.mpr, List.nil_append,
      List.filter_eq_self.mpr fun s hs => (hframe s hs).2.2.1]
    -- a kept row of the version would be stale or replaced
    intro t ht hversion
    obtain ⟨hbefore, hfresh, hreplaced⟩ := h.mem_kept.mp ht
    have hcurrent : t "metric_id" ∈ evaluation.frame.rows.map (· "metric_id") := by
      by_contra hstale
      exact hfresh ⟨hversion, hstale⟩
    obtain ⟨s, hs, heq⟩ := List.mem_map.mp hcurrent
    exact hreplaced ⟨s, hs, heq.symm, hchanged.imp_right fun hall => hall s hs t hbefore heq.symm⟩
  · have hnone : evaluation.frame.rows.filter (fun row => !sameVersion evaluation.version row) = [] :=
      List.filter_eq_nil_iff.mpr fun s hs => by simp [(hframe s hs).2.2.1]
    rw [hrows, List.filter_append, hnone, List.append_nil, h.keeps, List.filter_filter]
    refine List.filter_congr fun t ht => ?_
    rw [Bool.and_eq_left_iff_imp, Bool.not_eq_true']
    intro hother
    refine decide_eq_true ⟨fun hstale => by simp [hstale.1] at hother, ?_⟩
    rintro ⟨s, hs, heq, -⟩
    obtain ⟨_, _, version, id, hid, hrow, hversion⟩ := (hlabelled t ht).identified
    obtain ⟨_, _, version', id', hid', hrow', hversion'⟩ := (hframe s hs).1.identified
    have hids : id = id' := by
      rw [hrow, hrow'] at heq
      exact Cell.string.inj heq
    subst hids
    have hsame := (hframe s hs).2.2.1
    rw [sameVersion, hversion', ← hreliable.version_eq hid hid', ← hversion] at hsame
    rw [sameVersion, hsame] at hother
    cases hother
  · exact hobserved
  · intro modelName metric label minimum minimumText hpassed
    obtain ⟨value, hvalue, hle⟩ := minMetric_passed hpassed
    obtain ⟨row, hrow, hmatches, htext⟩ := hobserved metric label value hvalue
    exact ⟨row, hrow, hmatches, value, htext, hle⟩

end Loaded

/-- A run that completes has loaded its report. -/
theorem exists_loaded_of_ok (hreliable : Reliable env name)
    (hrec : ∀ table, existing = some table → Recorded env name past table)
    (hincremental : run.incremental = true ∧ run.fullRefresh = false) {result : Result}
    (h : run.runEvalModel env name existing = (.ok result, after))
    (hevaluate : run.evaluate env name = .ok evaluation) :
    ∃ detect labelType kept source stored,
      Loaded env name run evaluation existing after detect labelType kept source stored := by
  rcases runEvalModel_cases hincremental.1 hincremental.2 h with
    ⟨-, e, he⟩ | ⟨evaluation', kept, hevaluate', hkept, ⟨-, e, he⟩ | ⟨hload, -⟩⟩
  · cases he
  · cases he
  · obtain rfl := Except.ok.inj (hevaluate.symm.trans hevaluate')
    exact exists_loaded hreliable hrec hevaluate hkept hload

theorem Recorded.mono {table table' : Frame} (h : Recorded env name past table) {time : String}
    (hschema : table'.schema = table.schema) (hrows : table'.rows.Sublist table.rows) :
    Recorded env name (past ++ [time]) table' where
  schema := hschema ▸ h.schema
  ids := h.ids.sublist (hrows.map _)
  identified row hrow := h.identified row (hrows.subset hrow)
  evaluated row hrow := by
    obtain ⟨t, ht, hcell⟩ := h.evaluated row (hrows.subset hrow)
    exact ⟨t, List.mem_append_left _ ht, hcell⟩

/-- The metric ids of a report are different. -/
theorem nodup_metric_ids (hreliable : Reliable env name)
    (hevaluate : run.evaluate env name = .ok evaluation) :
    (evaluation.frame.rows.map (· "metric_id")).Nodup := by
  obtain ⟨rows, hframe, hreport, hids, hnodup⟩ := evaluate_eq_ok hevaluate
  rw [hframe, metricFrame, List.map_map]
  rw [← hreport, List.map_map] at hnodup
  refine List.pairwise_map.mpr ((List.pairwise_map.mp hnodup).imp_of_mem fun {a b} ha hb hne => ?_)
  intro heq
  have hid : a.1 = b.1 := Cell.string.inj heq
  obtain ⟨hmetric, hlabel, -⟩ := hreliable.metric_eq (hids a ha) (hid ▸ hids b hb)
  exact hne (Prod.ext hmetric hlabel)

/-- A run with a report completes if the table has columns for it. -/
theorem exists_runEvalModel (hreliable : Reliable env name)
    (hrec : ∀ table, existing = some table → Recorded env name past table)
    (hincremental : run.incremental = true ∧ run.fullRefresh = false)
    (hevaluate : run.evaluate env name = .ok evaluation)
    (hwatch : run.updateWhenChanged ⊆ metricColumns)
    (hlabel : ∀ table, existing = some table → table.schema.lookup "label" = some "String" ∨
      ∀ s ∈ evaluation.frame.rows, s "label" = .null)
    (hversion : ∀ table, existing = some table →
      table.schema.lookup "predictions_version" = some "String" ∨ evaluation.version = none) :
    ∃ result after, run.runEvalModel env name existing = (.ok result, after) := by
  obtain ⟨hne, hframe⟩ := evaluate_rows hevaluate
  obtain ⟨kept, hkept⟩ : ∃ kept, deleteStale evaluation existing = .ok kept := by
    cases existing with
    | none => exact ⟨none, rfl⟩
    | some table =>
      obtain ⟨⟨labelType, versionType, hschema, -⟩, -⟩ := hrec table rfl
      have hcolumns : ∀ c ∈ metricColumns, c ∈ table.columns := by
        intro c hc
        rw [Frame.columns, hschema]
        exact hc
      have htyped : ¬ (evaluation.version.isSome = true ∧
          table.schema.lookup "predictions_version" ≠ some "String") := by
        rintro ⟨hsome, hne⟩
        rw [(hversion table rfl).resolve_left hne] at hsome
        cases hsome
      have hstale : ∃ stale, staleIds evaluation.version
          (evaluation.frame.rows.map (· "metric_id")) table = .ok stale := by
        rw [staleIds, if_pos (hcolumns _ (by decide)), if_neg htyped,
          if_neg (not_not.mpr (hcolumns _ (by decide)))]
        exact ⟨_, rfl⟩
      refine exists_bind_eq_ok (hstale.imp fun stale h => ⟨h, ?_⟩)
      simp only [deleteRows, hcolumns "metric_id" (by decide), not_true_eq_false, if_false]
      split <;> exact ⟨_, rfl⟩
  obtain ⟨hschema, -, -⟩ := deleteStale_eq_ok hrec hkept
  obtain ⟨rows, hmetric, -⟩ := evaluate_eq_ok hevaluate
  have hcolumns : evaluation.frame.columns = metricColumns := by
    rw [hmetric]
    rfl
  obtain ⟨after, hload⟩ : ∃ after, materializeIncremental env.assign name evaluation.frame
      "metric_id" run.onSchemaChange run.updateWhenChanged kept = .ok after := by
    refine exists_materializeIncremental _ (by rw [hcolumns]; decide) (fun s hs => ?_)
      (nodup_metric_ids hreliable hevaluate) (hcolumns ▸ hwatch) ?_ ?_
    · obtain ⟨id, hid⟩ := (hframe s hs).1.identified.exists_id
      rw [hid]
      simp
    · rintro target rfl
      rw [Option.map_some, eq_comm, Option.map_eq_some_iff] at hschema
      obtain ⟨table, rfl, htable⟩ := hschema
      obtain ⟨⟨labelType, versionType, hmetricSchema, -⟩, -⟩ := hrec table rfl
      rw [hcolumns, Frame.columns, ← htable, hmetricSchema]
      rfl
    · intro s hs
      obtain ⟨-, -, -, id, row, rfl⟩ := hframe s hs
      rw [hcolumns]
      cases existing with
      | none =>
        obtain rfl : kept = none := by simpa using hschema
        rw [Option.getD_none, Frame.schema_emptied]
        rw [hmetric] at hs ⊢
        obtain ⟨r, hr, heq⟩ := List.mem_map.mp hs
        have hlabel : optionalCell r.2.label = optionalCell row.label := congrFun heq "label"
        refine exists_assignRow hreliable (textType_eq_string_or ?_) (textType_eq_string_or ?_)
        · exact hlabel ▸ List.mem_map_of_mem (f := fun r : String × MetricRow => _) hr
        · exact List.mem_map_of_mem (f := fun _ : String × MetricRow => _) hr
      | some table =>
        obtain ⟨⟨labelType, versionType, hmetricSchema, -⟩, -⟩ := hrec table rfl
        obtain ⟨target, rfl, htarget⟩ := Option.map_eq_some_iff.mp hschema
        rw [Option.getD_some, htarget, hmetricSchema]
        have hlabel := hlabel table rfl
        have hversion := hversion table rfl
        rw [hmetricSchema] at hlabel hversion
        refine exists_assignRow hreliable (hlabel.imp Option.some.inj fun hnone => ?_)
          (hversion.imp_left Option.some.inj)
        exact optionalCell_eq_null.mp (hnone _ hs)
  refine ⟨⟨evaluation.report.evaluatedRows, evaluation.report.unmatchedRows,
    evaluation.frame.height⟩, after, ?_⟩
  simp only [runEvalModel, hevaluate, publish, hincremental.1, hincremental.2, hkept, hload]
  rfl

/-- What a run leaves of the table: a part of it, or the table with the report. -/
theorem runEvalModel_table
    (hrec : ∀ table, existing = some table → Recorded env name past table)
    (hincremental : run.incremental = true ∧ run.fullRefresh = false)
    (h : (run.runEvalModel env name existing).2 = after) :
    (after.map Frame.schema = existing.map Frame.schema ∧
        (rowsOf after).Sublist (rowsOf existing)) ∨
      ∃ result evaluation, run.runEvalModel env name existing = (.ok result, after) ∧
        run.evaluate env name = .ok evaluation := by
  have hrun : run.runEvalModel env name existing = (_, after) := Prod.ext rfl h
  rcases runEvalModel_cases hincremental.1 hincremental.2 hrun with
    ⟨rfl, -⟩ | ⟨evaluation, kept, hevaluate, hkept, ⟨rfl, -⟩ | ⟨-, result, hresult⟩⟩
  · exact .inl ⟨rfl, List.Sublist.refl _⟩
  · obtain ⟨hschema, hrows, -⟩ := deleteStale_eq_ok hrec hkept
    exact .inl ⟨hschema, hrows ▸ List.filter_sublist⟩
  · exact .inr ⟨result, evaluation, hresult ▸ hrun, hevaluate⟩

theorem recorded_runEvalModel (hreliable : Reliable env name)
    (hrec : ∀ table, existing = some table → Recorded env name past table)
    (hincremental : run.incremental = true ∧ run.fullRefresh = false)
    (h : (run.runEvalModel env name existing).2 = after) {table : Frame}
    (hafter : after = some table) : Recorded env name (past ++ [run.evaluatedAt]) table := by
  rcases runEvalModel_table hrec hincremental h with ⟨hschema, hrows⟩ | ⟨_, _, hrun, hevaluate⟩
  · rw [hafter, Option.map_some, eq_comm, Option.map_eq_some_iff] at hschema
    obtain ⟨before, rfl, hbefore⟩ := hschema
    rw [hafter, rowsOf_some, rowsOf_some] at hrows
    exact (hrec before rfl).mono hbefore.symm hrows
  · obtain ⟨_, _, _, _, _, hloaded⟩ :=
      exists_loaded_of_ok hreliable hrec hincremental hrun hevaluate
    exact hloaded.recorded hrec hevaluate hafter

/-- A completed run that overwrites leaves the table of its report. -/
theorem isLastRun_of_overwrites (hreliable : Reliable env name)
    (hrec : ∀ table, existing = some table → Recorded env name past table)
    (hincremental : run.incremental = true ∧ run.fullRefresh = false)
    (hlabelled : ∀ t ∈ rowsOf existing, Labelled env name t)
    (holder : ∀ t ∈ rowsOf existing, ∃ u ∈ (t "evaluated_at").text, u < run.evaluatedAt)
    (hoverwrites : Overwrites env name run existing) {result : Result}
    (h : run.runEvalModel env name existing = (.ok result, after))
    (hevaluate : run.evaluate env name = .ok evaluation) :
    IsLastRun env evaluation (rowsOf existing) (rowsOf after) ∧
      ∀ row ∈ rowsOf after, Labelled env name row := by
  obtain ⟨detect, labelType, kept, source, stored, hloaded⟩ :=
    exists_loaded_of_ok hreliable hrec hincremental h hevaluate
  cases hexisting : existing with
  | none =>
    subst hexisting
    exact hloaded.isLastRun hreliable hrec hlabelled hevaluate holder
      (.inl (hloaded.fresh rfl)) (hloaded.label.2 rfl)
  | some table =>
    subst hexisting
    obtain ⟨hchanged, hlabel⟩ := hoverwrites result after evaluation table h hevaluate rfl
    refine hloaded.isLastRun hreliable hrec hlabelled hevaluate holder ?_ ?_
    · rw [hloaded.detects table rfl]
      exact hchanged
    · exact hlabel.imp_left fun hstring =>
        Option.some.inj ((hloaded.label.1 table rfl).symm.trans hstring)

/-- A completed run whose report is the newest evaluation has overwritten. -/
theorem overwrites_of_newest (hreliable : Reliable env name)
    (hrec : ∀ table, existing = some table → Recorded env name past table)
    (hincremental : run.incremental = true ∧ run.fullRefresh = false)
    (holder : ∀ t ∈ rowsOf existing, ∃ u ∈ (t "evaluated_at").text, u < run.evaluatedAt)
    (hlast : LastRun env name run existing) : Overwrites env name run existing := by
  rintro result after evaluation table h hevaluate rfl
  obtain ⟨detect, labelType, kept, source, stored, hloaded⟩ :=
    exists_loaded_of_ok hreliable hrec hincremental h hevaluate
  have hnewest := (hlast result after evaluation h hevaluate).newest
  obtain ⟨hchanged, hlabel⟩ := hloaded.overwrites hevaluate holder hnewest
  rw [hloaded.detects table rfl] at hchanged
  exact ⟨hchanged, hlabel.imp_left fun hstring => by rw [hloaded.label.1 table rfl, hstring]⟩

end Step

end EvalRun

end Stel.Execution
