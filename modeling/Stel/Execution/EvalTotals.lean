import Stel.Execution.Eval

/-!
# The totals of an evaluation

An eval model joins the labelled rows with the predictions by key. Every labelled row is counted
once: as evaluated, as without a prediction, or as unusable. The labels and the counts of a report
are those of the evaluated rows: a label that only occurs in a row without a counterpart is not
reported, and a prediction without one is not counted.

## Main definitions

* `usableRows`, `innerJoin`: the rows with a key and a label, and the evaluated rows.
* `Accounts`: a report accounts for its rows.
* `EvalRun.Permutes`: two runs read the same rows in different orders.

## Main results

* `EvalRun.evaluation_accounts`: an accepted evaluation accounts for the labelled rows, in whatever
  order the relations are read.
-/

namespace Stel.Execution

open Stel.Warehouse Stel.ClassificationMetrics

/-! ### The evaluated rows -/

/-- The key and the label of a row, as texts. -/
def keyAndLabel (key value : String) (row : Row) : Option (String × String) :=
  match (row key).text, (row value).text with
  | some rowKey, some label => some (rowKey, label)
  | _, _ => none

/-- The keys and the labels of the rows that have both. -/
def usableRows (key value : String) (rows : List Row) : List (String × String) :=
  rows.filterMap (keyAndLabel key value)

/-- The predicted and the expected label of every labelled row with a prediction. -/
def innerJoin (predicted labelled : List (String × String)) : List (String × String) :=
  labelled.flatMap fun e => (predicted.filter fun p => p.1 = e.1).map fun p => (p.2, e.2)

section Labels

variable {key value : String} {rows rows' : List Row} {acc : KeyedLabels}

theorem duplicates_foldl (h : acc.duplicates ≠ []) :
    (rows.foldl (KeyedLabels.add key value) acc).duplicates ≠ [] := by
  induction rows generalizing acc with
  | nil => exact h
  | cons row rows ih =>
    refine ih ?_
    unfold KeyedLabels.add
    split
    · dsimp only
      split
      · exact List.cons_ne_nil _ _
      · exact h
    · exact h

/-- The loop of `_labels_by_key` finds a duplicate exactly if a key repeats; otherwise it keeps every
usable row and counts the others. -/
theorem foldl_add (hacc : (acc.out.map Prod.fst).Nodup) :
    ((rows.foldl (KeyedLabels.add key value) acc).duplicates = [] ↔ acc.duplicates = [] ∧
      ((acc.out ++ usableRows key value rows).map Prod.fst).Nodup) ∧
    ((rows.foldl (KeyedLabels.add key value) acc).duplicates = [] →
      (rows.foldl (KeyedLabels.add key value) acc).out = acc.out ++ usableRows key value rows ∧
      (rows.foldl (KeyedLabels.add key value) acc).dropped + (usableRows key value rows).length =
        acc.dropped + rows.length) := by
  induction rows generalizing acc with
  | nil => simp [usableRows, hacc]
  | cons row rows ih =>
    rw [List.foldl_cons]
    cases hrow : keyAndLabel key value row with
    | none =>
      have hadd : acc.add key value row = { acc with dropped := acc.dropped + 1 } := by
        cases hkey : (row key).text with
        | none => simp only [KeyedLabels.add, hkey]
        | some rowKey =>
          cases hlabel : (row value).text with
          | none => simp only [KeyedLabels.add, hkey, hlabel]
          | some label => simp [keyAndLabel, hkey, hlabel] at hrow
      have husable : usableRows key value (row :: rows) = usableRows key value rows :=
        List.filterMap_cons_none hrow
      have hstep := @ih { acc with dropped := acc.dropped + 1 } hacc
      rw [hadd, husable, List.length_cons]
      refine ⟨hstep.1, fun h => ?_⟩
      obtain ⟨hout, hdropped⟩ := hstep.2 h
      dsimp only at hdropped
      exact ⟨hout, by omega⟩
    | some keyed =>
      obtain ⟨rowKey, label⟩ := keyed
      have htexts : (row key).text = some rowKey ∧ (row value).text = some label := by
        unfold keyAndLabel at hrow
        split at hrow
        · rename_i hkey hlabel
          obtain ⟨rfl, rfl⟩ := Prod.mk.inj (Option.some.inj hrow)
          exact ⟨hkey, hlabel⟩
        · cases hrow
      have husable : usableRows key value (row :: rows) = (rowKey, label) :: usableRows key value rows :=
        List.filterMap_cons_some hrow
      rw [husable]
      by_cases hmem : rowKey ∈ acc.out.map Prod.fst
      · have hfound : (rows.foldl (KeyedLabels.add key value) (acc.add key value row)).duplicates ≠ [] := by
          refine duplicates_foldl ?_
          simp [KeyedLabels.add, htexts, hmem]
        refine ⟨iff_of_false hfound ?_, fun h => absurd h hfound⟩
        rintro ⟨-, hnodup⟩
        rw [List.map_append, List.map_cons] at hnodup
        exact (List.nodup_append'.mp hnodup).2.2 hmem List.mem_cons_self
      · have hadd : acc.add key value row = { acc with out := acc.out ++ [(rowKey, label)] } := by
          simp only [KeyedLabels.add, htexts, setLabel, if_neg hmem]
        have hacc' : ((acc.out ++ [(rowKey, label)]).map Prod.fst).Nodup := by
          rw [List.map_append]
          refine List.nodup_append'.mpr ⟨hacc, List.nodup_singleton _, ?_⟩
          exact List.disjoint_singleton.mpr hmem
        have hstep := @ih { acc with out := acc.out ++ [(rowKey, label)] } hacc'
        rw [List.append_assoc, List.singleton_append] at hstep
        rw [hadd]
        refine ⟨hstep.1, fun h => ?_⟩
        obtain ⟨hout, hdropped⟩ := hstep.2 h
        dsimp only at hdropped
        rw [List.length_cons, List.length_cons]
        exact ⟨hout, by omega⟩

/-- `_labels_by_key` accepts a relation whose usable keys are distinct, and counts its other rows. -/
theorem labelsByKey_eq_ok {frame : Frame} {model relation : String} {out : List (String × String)}
    {dropped : ℕ} : labelsByKey frame key value model relation = .ok (out, dropped) ↔
      ((usableRows key value frame.rows).map Prod.fst).Nodup ∧
        out = usableRows key value frame.rows ∧ dropped + out.length = frame.rows.length := by
  obtain ⟨hduplicates, hkept⟩ := @foldl_add key value frame.rows {} List.nodup_nil
  have hfound : (frame.rows.foldl (KeyedLabels.add key value) {}).duplicates = [] ↔
      ((usableRows key value frame.rows).map Prod.fst).Nodup :=
    hduplicates.trans (and_iff_right rfl)
  unfold labelsByKey
  dsimp only
  constructor
  · intro h
    split_ifs at h with hsorted
    · have hnone := sortedSet_eq_nil.mp (not_not.mp hsorted)
      obtain ⟨rfl, rfl⟩ := Prod.mk.inj (Except.ok.inj h)
      obtain ⟨hout, hdropped⟩ := hkept hnone
      refine ⟨hfound.mp hnone, hout, ?_⟩
      rw [hout, List.nil_append, hdropped, Nat.zero_add]
  · rintro ⟨hnodup, rfl, hcount⟩
    have hnone := hfound.mpr hnodup
    obtain ⟨hout, hdropped⟩ := hkept hnone
    rw [if_neg (not_not.mpr (sortedSet_eq_nil.mpr hnone)), hout]
    refine congrArg (fun n => Except.ok (_, n)) ?_
    dsimp only at hdropped
    omega

theorem dropped_usableRows {frame : Frame} :
    frame.height - (usableRows key value frame.rows).length + (usableRows key value frame.rows).length =
      frame.rows.length :=
  Nat.sub_add_cancel (List.length_filterMap_le _ _)

end Labels

/-! ### The join -/

section Join

variable {predicted predicted' labelled labelled' : List (String × String)}

/-- Under distinct keys, the lookup of a key finds the row with it. -/
theorem filter_eq_lookup (h : (predicted.map Prod.fst).Nodup) (key : String) :
    (predicted.filter fun p => p.1 = key) = ((predicted.lookup key).map fun label => (key, label)).toList := by
  induction predicted with
  | nil => rfl
  | cons p predicted ih =>
    obtain ⟨hnotMem, hnodup⟩ := List.nodup_cons.mp h
    by_cases hkey : p.1 = key
    · subst hkey
      have hnone : (predicted.filter fun q => q.1 = p.1) = [] := by
        refine List.filter_eq_nil_iff.mpr fun q hq => ?_
        simpa using fun heq : q.1 = p.1 => hnotMem (heq ▸ List.mem_map_of_mem hq)
      rw [List.filter_cons_of_pos (by simp), hnone, List.lookup_cons_self]
      rfl
    · rw [List.filter_cons_of_neg (by simpa using hkey), ih hnodup, List.lookup_cons,
        beq_eq_false_iff_ne.mpr (Ne.symm hkey)]

theorem filterMap_eq_innerJoin (h : (predicted.map Prod.fst).Nodup) :
    (labelled.filterMap fun e => (predicted.lookup e.1).map fun p => (p, e.2)) =
      innerJoin predicted labelled := by
  rw [List.filterMap_eq_flatMap_toList, innerJoin]
  refine List.flatMap_congr fun e _ => ?_
  rw [filter_eq_lookup h]
  cases predicted.lookup e.1 <;> rfl

theorem length_innerJoin_le (h : (predicted.map Prod.fst).Nodup) :
    (innerJoin predicted labelled).length ≤ labelled.length := by
  rw [← filterMap_eq_innerJoin h]
  exact List.length_filterMap_le _ _

/-- The pairs of an evaluation, and the number of labelled rows without a prediction. -/
theorem joinPairs_eq (h : (predicted.map Prod.fst).Nodup) : joinPairs predicted labelled =
    (innerJoin predicted labelled, labelled.length - (innerJoin predicted labelled).length) := by
  rw [joinPairs, filterMap_eq_innerJoin h]

theorem innerJoin_perm (hpredicted : predicted.Perm predicted') (hlabelled : labelled.Perm labelled') :
    (innerJoin predicted labelled).Perm (innerJoin predicted' labelled') := by
  refine hlabelled.flatMap fun e _ => ?_
  exact (hpredicted.filter _).map _

/-- The report depends on the evaluated rows, not on their order. -/
theorem score_perm {pairs pairs' : List (String × String)} (h : pairs.Perm pairs')
    (declared : List String) (unmatchedRows unusableExpectedRows : ℕ) :
    score pairs declared unmatchedRows unusableExpectedRows =
      score pairs' declared unmatchedRows unusableExpectedRows := by
  have hlabels : sortedSet (declared ++ pairs.flatMap fun p => [p.1, p.2]) =
      sortedSet (declared ++ pairs'.flatMap fun p => [p.1, p.2]) := by
    refine sortedSet_eq_iff.mpr fun label => ?_
    simp only [List.mem_append, List.mem_flatMap, h.mem_iff]
  have hscore : scoreLabel pairs = scoreLabel pairs' := by
    funext label
    simp only [scoreLabel, h.countP_eq]
  simp only [score, hlabels, hscore, h.countP_eq, h.length_eq]

end Join

/-! ### Accounting -/

/-- A report over `pairs` accounts for the rows: every labelled row is counted once, every declared
label and every label that occurs is reported once, and the rates are the quotients of the
true-positive counts. `predictions` counts the predictions of a label. -/
structure Accounts (labelledRows : ℕ) (declared : List String) (pairs : List (String × String))
    (occurs : String → Prop) (predictions : String → ℕ) (report : ClassificationReport) : Prop where
  rows : report.evaluatedRows + report.unmatchedRows + report.unusableExpectedRows = labelledRows
  supports : (report.labels.map LabelScore.support).sum = report.evaluatedRows
  labels : ∀ label, label ∈ declared ∨ occurs label →
    (report.labels.map LabelScore.label).count label = 1
  accuracy : report.accuracy * report.evaluatedRows = pairs.countP fun p => p.1 = p.2
  «recall» : ∀ item ∈ report.labels, item.«recall» * item.support = hits pairs item.label
  precision : ∀ item ∈ report.labels,
    item.precision * predictions item.label = hits pairs item.label
  rates : ∀ item ∈ report.labels, item.Rates
  overall : (0 ≤ report.accuracy ∧ report.accuracy ≤ 1) ∧ 0 ≤ report.macroF1 ∧ report.macroF1 ≤ 1

/-- A label occurs in an evaluated row. -/
def Occurs (pairs : List (String × String)) (label : String) : Prop :=
  ∃ p ∈ pairs, p.1 = label ∨ p.2 = label

/-- A report accounts for the rows with respect to its pairs. -/
theorem accounts_score {pairs : List (String × String)} {declared : List String}
    {labelledRows unmatchedRows unusableExpectedRows : ℕ}
    (h : pairs.length + unmatchedRows + unusableExpectedRows = labelledRows) :
    Accounts labelledRows declared pairs (Occurs pairs) (fun label => pairs.countP fun p => p.1 = label)
      (score pairs declared unmatchedRows unusableExpectedRows) where
  rows := h
  supports := sum_support_score _ _
  labels := by
    intro label hlabel
    rw [labels_score]
    refine List.count_eq_one_of_mem nodup_sortedSet (mem_sortedSet.mpr (List.mem_append.mpr ?_))
    obtain hdeclared | ⟨p, hp, hlabel⟩ := hlabel
    · exact .inl hdeclared
    · exact .inr (List.mem_flatMap.mpr ⟨p, hp, by simpa [eq_comm] using hlabel⟩)
  accuracy := ratio_mul List.countP_le_length
  «recall» := by
    intro item hitem
    obtain ⟨label, -, rfl⟩ := List.mem_map.mp hitem
    exact ratio_mul hits_le_expected
  precision := by
    intro item hitem
    obtain ⟨label, -, rfl⟩ := List.mem_map.mp hitem
    exact ratio_mul hits_le_predicted
  rates := by
    intro item hitem
    obtain ⟨label, -, rfl⟩ := List.mem_map.mp hitem
    exact scoreLabel_rates pairs label
  overall := by
    refine ⟨⟨ratio_nonneg _ _, ratio_le_one List.countP_le_length⟩, mean_rate ?_⟩
    intro item hitem
    obtain ⟨label, -, rfl⟩ := List.mem_map.mp hitem
    exact scoreLabel_rates pairs label

/-! ### Runs -/

/-- Two relations have the same rows, in any order. -/
def SameRows (frame frame' : Frame) : Prop :=
  frame.schema = frame'.schema ∧ frame.rows.Perm frame'.rows

theorem SameRows.usableRows_perm {frame frame' : Frame} (h : SameRows frame frame') (key value : String) :
    (usableRows key value frame.rows).Perm (usableRows key value frame'.rows) := h.2.filterMap _

namespace EvalRun

variable {env : EvalEnv} {name : String} {run run' : EvalRun}

/-- Two runs differ at most in the order in which they read the rows of the relations. -/
structure Permutes (run run' : EvalRun) : Prop where
  tables : ∀ relation, Option.Rel SameRows (run.tables relation) (run'.tables relation)
  others : run' = { run with tables := run'.tables }

/-- The labelled rows of a relation of a run, and those of its predictions. -/
def labelled (run : EvalRun) (expected : Frame) : List (String × String) :=
  usableRows run.config.key run.config.expectedField expected.rows

def predicted (run : EvalRun) (predictions : Frame) : List (String × String) :=
  usableRows run.config.key run.config.predictedField predictions.rows

theorem readTable_eq_ok {relation : String} {frame : Frame} :
    run.readTable relation = .ok frame ↔ run.tables relation = some frame := by
  unfold readTable
  cases run.tables relation <;> simp

theorem requireColumn_eq_ok {frame : Frame} {column model relation : String} :
    requireColumn frame column model relation = .ok () ↔ column ∈ frame.columns := by
  unfold requireColumn
  split <;> simp_all

theorem requireExpected_eq_ok {expectedName : String} {expectedByKey : List (String × String)} :
    run.requireExpected name expectedName expectedByKey = .ok () ↔ expectedByKey ≠ [] := by
  unfold requireExpected
  split <;> simp_all

/-- The evaluated rows of a run. -/
def pairs (run : EvalRun) (predictions expected : Frame) : List (String × String) :=
  innerJoin (run.predicted predictions) (run.labelled expected)

/-- The report that a run makes of two relations. -/
def reportOf (run : EvalRun) (predictions expected : Frame) : ClassificationReport × Option String :=
  (score (run.pairs predictions expected) run.declared
    ((run.labelled expected).length - (run.pairs predictions expected).length)
    (expected.height - (run.labelled expected).length), predictionsVersion predictions)

/-- A run accepts two relations. -/
structure Accepts (run : EvalRun) (predictions expected : Frame) : Prop where
  predictionsColumns :
    run.config.key ∈ predictions.columns ∧ run.config.predictedField ∈ predictions.columns
  expectedColumns : run.config.key ∈ expected.columns ∧ run.config.expectedField ∈ expected.columns
  predictedKeys : ((run.predicted predictions).map Prod.fst).Nodup
  labelledKeys : ((run.labelled expected).map Prod.fst).Nodup
  usable : run.labelled expected ≠ []

/-- The report of a run. -/
theorem report_eq_ok {report : ClassificationReport × Option String} :
    run.report name = .ok report ↔ ∃ predictions expected,
      run.tables (parseRef run.config.predictions) = some predictions ∧
      run.tables (parseRef run.config.expected) = some expected ∧
      run.Accepts predictions expected ∧ report = run.reportOf predictions expected := by
  simp only [EvalRun.report, bind_eq_ok (α := Frame), check_bind_eq_ok, readTable_eq_ok,
    requireColumn_eq_ok]
  constructor
  · rintro ⟨predictions, hpredictions, expected, hexpected, hkey, hfield, hkey', hfield', h⟩
    obtain ⟨⟨predictedByKey, dropped⟩, hpredicted, h⟩ := bind_eq_ok.mp h
    obtain ⟨⟨expectedByKey, unusable⟩, hlabelled, h⟩ := bind_eq_ok.mp h
    obtain ⟨hne, h⟩ := check_bind_eq_ok.mp h
    obtain ⟨hnodup, rfl, -⟩ := labelsByKey_eq_ok.mp hpredicted
    obtain ⟨hnodup', rfl, hcount⟩ := labelsByKey_eq_ok.mp hlabelled
    refine ⟨predictions, expected, hpredictions, hexpected,
      ⟨⟨hkey, hfield⟩, ⟨hkey', hfield'⟩, hnodup, hnodup', requireExpected_eq_ok.mp hne⟩, ?_⟩
    obtain rfl : unusable = expected.height - (run.labelled expected).length := by
      change unusable + (run.labelled expected).length = expected.height at hcount
      omega
    dsimp only at h
    rw [joinPairs_eq hnodup] at h
    exact (Except.ok.inj h).symm
  · rintro ⟨predictions, expected, hpredictions, hexpected, h, rfl⟩
    refine ⟨predictions, hpredictions, expected, hexpected, h.predictionsColumns.1,
      h.predictionsColumns.2, h.expectedColumns.1, h.expectedColumns.2, ?_⟩
    refine bind_eq_ok.mpr ⟨_, labelsByKey_eq_ok.mpr ⟨h.predictedKeys, rfl, dropped_usableRows⟩, ?_⟩
    refine bind_eq_ok.mpr ⟨_, labelsByKey_eq_ok.mpr ⟨h.labelledKeys, rfl, dropped_usableRows⟩, ?_⟩
    refine check_bind_eq_ok.mpr ⟨requireExpected_eq_ok.mpr h.usable, ?_⟩
    have hnodup : ((usableRows run.config.key run.config.predictedField
        predictions.rows).map Prod.fst).Nodup := h.predictedKeys
    dsimp only
    rw [joinPairs_eq hnodup]
    rfl

/-! ### Permuted relations -/

/-- The version of the predictions does not depend on their order. -/
theorem predictionsVersion_congr {frame frame' : Frame} (h : SameRows frame frame') :
    predictionsVersion frame = predictionsVersion frame' := by
  have hcolumns : frame.columns = frame'.columns := congrArg (·.map Prod.fst) h.1
  have hperm := (h.2.filterMap fun row => (row "code_version").text).dedup
  unfold predictionsVersion
  rw [hcolumns]
  split
  · generalize (frame.rows.filterMap fun row => (row "code_version").text).dedup = versions at hperm
    generalize (frame'.rows.filterMap fun row => (row "code_version").text).dedup = versions' at hperm
    match versions, versions', hperm with
    | [], versions', hperm => rw [hperm.nil_eq]
    | [version], versions', hperm => rw [List.singleton_perm.mp hperm]
    | v :: w :: versions, [], hperm => cases hperm.eq_nil
    | v :: w :: versions, [v'], hperm => cases hperm.length_eq
    | v :: w :: versions, v' :: w' :: versions', hperm => rfl
  · rfl

/-- A run accepts permuted relations, and makes the same report of them. -/
theorem Accepts.permute {predictions predictions' expected expected' : Frame}
    (h : run.Accepts predictions expected) (hpredictions : SameRows predictions predictions')
    (hexpected : SameRows expected expected') : run.Accepts predictions' expected' ∧
      run.reportOf predictions' expected' = run.reportOf predictions expected := by
  have hpredicted := hpredictions.usableRows_perm run.config.key run.config.predictedField
  have hlabelled := hexpected.usableRows_perm run.config.key run.config.expectedField
  have hcolumns : predictions.columns = predictions'.columns := congrArg (·.map Prod.fst) hpredictions.1
  have hcolumns' : expected.columns = expected'.columns := congrArg (·.map Prod.fst) hexpected.1
  have hpairs := innerJoin_perm hpredicted hlabelled
  constructor
  · refine ⟨hcolumns ▸ h.predictionsColumns, hcolumns' ▸ h.expectedColumns, ?_, ?_, ?_⟩
    · exact (hpredicted.map Prod.fst).nodup_iff.mp h.predictedKeys
    · exact (hlabelled.map Prod.fst).nodup_iff.mp h.labelledKeys
    · exact fun hnil => h.usable (List.Perm.eq_nil (hnil ▸ hlabelled))
  · refine Prod.ext ?_ (predictionsVersion_congr hpredictions).symm
    have hheight : expected.height = expected'.height := hexpected.2.length_eq
    rw [reportOf, reportOf]
    dsimp only [pairs, labelled, predicted]
    rw [hheight, hlabelled.length_eq, hpairs.length_eq, score_perm hpairs]

/-- A run that reads accepted relations in another order makes the same report. -/
theorem Permutes.report (h : run.Permutes run') {report : ClassificationReport × Option String}
    (hreport : run.report name = .ok report) : run'.report name = .ok report := by
  obtain ⟨predictions, expected, hpredictions, hexpected, haccepts, rfl⟩ := report_eq_ok.mp hreport
  have htables : ∀ {relation frame}, run.tables relation = some frame →
      ∃ frame', run'.tables relation = some frame' ∧ SameRows frame frame' := by
    intro relation frame hframe
    have hrel := h.tables relation
    rw [hframe] at hrel
    generalize run'.tables relation = table' at hrel
    cases hrel with
    | some hsame => exact ⟨_, rfl, hsame⟩
  obtain ⟨predictions', hpredictions', hsame⟩ := htables hpredictions
  obtain ⟨expected', hexpected', hsame'⟩ := htables hexpected
  obtain ⟨haccepts', hreport'⟩ := haccepts.permute hsame hsame'
  rw [h.others]
  refine report_eq_ok.mpr ⟨predictions', expected', hpredictions', hexpected', ?_, hreport'.symm⟩
  exact ⟨haccepts'.predictionsColumns, haccepts'.expectedColumns, haccepts'.predictedKeys,
    haccepts'.labelledKeys, haccepts'.usable⟩

/-- A run that reads accepted relations in another order does the same. -/
theorem Permutes.runEvalModel (h : run.Permutes run') {report : ClassificationReport × Option String}
    (hreport : run.report name = .ok report) (existing : Option Frame) :
    run'.runEvalModel env name existing = run.runEvalModel env name existing := by
  have hevaluate : run'.evaluate env name = run.evaluate env name := by
    unfold EvalRun.evaluate
    rw [h.report hreport, hreport, h.others]
    rfl
  unfold EvalRun.runEvalModel
  rw [hevaluate, h.others]
  rfl

/-- **An accepted evaluation accounts for every labelled row**: the counts are those of the evaluated
rows, and neither they nor what is published depends on the order of the rows. -/
theorem evaluation_accounts {report : ClassificationReport} {version : Option String}
    (h : run.report name = .ok (report, version)) : ∃ predictions expected,
      run.tables (parseRef run.config.predictions) = some predictions ∧
      run.tables (parseRef run.config.expected) = some expected ∧
      Accounts expected.height run.declared (run.pairs predictions expected)
        (Occurs (run.pairs predictions expected))
        (fun label => (run.pairs predictions expected).countP fun p => p.1 = label) report ∧
      ∀ run' existing, run.Permutes run' → run'.report name = .ok (report, version) ∧
        run'.runEvalModel env name existing = run.runEvalModel env name existing := by
  obtain ⟨predictions, expected, hpredictions, hexpected, haccepts, heq⟩ := report_eq_ok.mp h
  obtain ⟨rfl, rfl⟩ := Prod.mk.inj heq
  refine ⟨predictions, expected, hpredictions, hexpected, accounts_score ?_, ?_⟩
  · have hjoin : (run.pairs predictions expected).length ≤ (run.labelled expected).length :=
      length_innerJoin_le haccepts.predictedKeys
    have husable : (run.labelled expected).length ≤ expected.height := List.length_filterMap_le _ _
    omega
  · exact fun run' existing hpermutes => ⟨hpermutes.report h, hpermutes.runEvalModel h existing⟩

/-! ### Rows without a counterpart -/

/-- A relation of documents with a column of texts. -/
def textsById (column : String) (hcolumn : column ≠ "id") (rows : List (String × String)) : Frame where
  schema := [("id", "String"), (column, "String")]
  rows := rows.map fun r => dictRow [("id", .string r.1), (column, .string r.2)]
  nodup := by simpa using hcolumn.symm
  blank := by
    intro row hrow c hc
    obtain ⟨r, -, rfl⟩ := List.mem_map.mp hrow
    have hnone : [("id", Cell.string r.1), (column, Cell.string r.2)].lookup c = none :=
      lookup_eq_none_of_notMem hc
    rw [dictRow, hnone]
    rfl

/-- The predictions of two tickets. -/
def ticketSignals : Frame := textsById "signal" (by decide) [("a", "churn"), ("b", "churn")]

/-- The labels of two tickets, one of which has no prediction. -/
def ticketLabels : Frame := textsById "expected" (by decide) [("a", "churn"), ("c", "spam")]

def ticketRun : EvalRun where
  config := ⟨"ref('signals')", "signal", "ref('labels')", "expected", "id", []⟩
  incremental := false
  tables := fun relation =>
    if relation = "signals" then some ticketSignals
    else if relation = "labels" then some ticketLabels
    else none
  fields := fun _ => none
  codeVersion := "e1"
  evaluatedAt := "2026-01-01"

/-- The report of the tickets. -/
def ticketReport : ClassificationReport := ⟨1, 1, 1, 1, 0, [⟨"churn", 1, 1, 1, 1⟩]⟩

theorem report_ticketRun : ticketRun.report "quality" = .ok (ticketReport, none) := by
  decide +kernel

/-- The report of the tickets accounts for both. -/
theorem evaluation_accounts_tickets : ∃ predictions expected,
    ticketRun.tables (parseRef ticketRun.config.predictions) = some predictions ∧
    ticketRun.tables (parseRef ticketRun.config.expected) = some expected ∧
    Accounts expected.height ticketRun.declared (ticketRun.pairs predictions expected)
      (Occurs (ticketRun.pairs predictions expected))
      (fun label => (ticketRun.pairs predictions expected).countP fun p => p.1 = label)
      ticketReport ∧
    ∀ run' existing, ticketRun.Permutes run' → run'.report "quality" = .ok (ticketReport, none) ∧
      run'.runEvalModel ⟨fun _ b => b, fun _ => some, toString, fun _ => 0, toString⟩ "quality"
        existing = ticketRun.runEvalModel ⟨fun _ b => b, fun _ => some, toString, fun _ => 0, toString⟩
          "quality" existing :=
  evaluation_accounts report_ticketRun

/-- The label of a row without a prediction is not reported, and a prediction without a label does
not count. -/
theorem tickets_without_counterpart :
    ticketRun.report "quality" = .ok (ticketReport, none) ∧
    ¬ Accounts ticketLabels.height [] (ticketRun.pairs ticketSignals ticketLabels)
      (fun label => label ∈ (ticketRun.labelled ticketLabels).map Prod.snd)
      (fun label => (ticketRun.pairs ticketSignals ticketLabels).countP fun p => p.1 = label)
      ticketReport ∧
    ¬ Accounts ticketLabels.height [] (ticketRun.pairs ticketSignals ticketLabels)
      (Occurs (ticketRun.pairs ticketSignals ticketLabels))
      (fun label => (ticketRun.predicted ticketSignals).countP fun p => p.2 = label)
      ticketReport := by
  refine ⟨report_ticketRun, fun h => ?_, fun h => ?_⟩
  · exact absurd (h.labels "spam" (.inr (by decide +kernel))) (by decide +kernel)
  · have hprecision := h.precision _ List.mem_cons_self
    exact absurd hprecision (by decide +kernel)

end EvalRun

end Stel.Execution
