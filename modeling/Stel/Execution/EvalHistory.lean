import Stel.Execution.EvalLoad
import Stel.Hashing.Known

/-!
# The newest evaluation

The rows with the greatest time in an eval table have to be the report of the last run, for the gate
reads them. They are in every history of runs that overwrite the rows of their reports.

## Main definitions

* `EvalRun.tableAfter`: the table after a history of runs.

## Main results

* `EvalRun.newest_evaluation_iff`: in every history, each completed run is the newest evaluation
  exactly if each of them overwrites.
-/

namespace Stel.Execution

open Stel.Warehouse Stel.Hashing Stel.ClassificationMetrics

namespace EvalRun

variable (env : EvalEnv) (name : String)

/-! ### Histories -/

/-- The table after a history of runs. -/
def tableAfter (runs : List EvalRun) : Option Frame :=
  runs.foldl (fun table run => (run.runEvalModel env name table).2) none

theorem tableAfter_concat (runs : List EvalRun) (run : EvalRun) :
    tableAfter env name (runs ++ [run]) =
      (run.runEvalModel env name (tableAfter env name runs)).2 := by
  rw [tableAfter, List.foldl_append]
  rfl

variable {env name}

section History

variable (hreliable : Reliable env name)

include hreliable

theorem recorded_tableAfter (runs : List EvalRun)
    (hincremental : ∀ run ∈ runs, run.incremental = true ∧ run.fullRefresh = false) {table : Frame}
    (h : tableAfter env name runs = some table) :
    Recorded env name (runs.map EvalRun.evaluatedAt) table := by
  induction runs using List.reverseRecOn generalizing table with
  | nil => cases h
  | append_singleton runs run ih =>
    rw [tableAfter_concat] at h
    rw [List.map_append]
    exact recorded_runEvalModel hreliable
      (fun before hbefore => ih (fun r hr => hincremental r (List.mem_append_left _ hr)) hbefore)
      (hincremental run (List.mem_append_right _ (List.mem_singleton_self _))) rfl h

/-- The rows of a history are older than those of a later run. -/
theorem older_tableAfter {runs : List EvalRun} {run : EvalRun}
    (hincremental : ∀ run ∈ runs, run.incremental = true ∧ run.fullRefresh = false)
    (hincreasing : ∀ time ∈ runs.map EvalRun.evaluatedAt, time < run.evaluatedAt) :
    ∀ t ∈ rowsOf (tableAfter env name runs),
      ∃ u ∈ (t "evaluated_at").text, u < run.evaluatedAt := by
  intro t ht
  cases htable : tableAfter env name runs with
  | none =>
    rw [htable] at ht
    cases ht
  | some table =>
    rw [htable] at ht
    obtain ⟨time, htime, hcell⟩ :=
      (recorded_tableAfter hreliable runs hincremental htable).evaluated t ht
    exact ⟨time, by rw [hcell]; rfl, hincreasing time htime⟩

/-- After a history whose runs overwrite, the id of every row is that of its contents. -/
theorem labelled_tableAfter (runs : List EvalRun)
    (hincremental : ∀ run ∈ runs, run.incremental = true ∧ run.fullRefresh = false)
    (hincreasing : (runs.map EvalRun.evaluatedAt).Pairwise (· < ·))
    (hoverwrites : ∀ before run rest, runs = before ++ run :: rest →
      Overwrites env name run (tableAfter env name before)) :
    ∀ row ∈ rowsOf (tableAfter env name runs), Labelled env name row := by
  induction runs using List.reverseRecOn with
  | nil => exact fun row hrow => absurd hrow List.not_mem_nil
  | append_singleton runs run ih =>
    have hbefore : ∀ r ∈ runs, r.incremental = true ∧ r.fullRefresh = false := fun r hr =>
      hincremental r (List.mem_append_left _ hr)
    have hrun := hincremental run (List.mem_append_right _ (List.mem_singleton_self _))
    rw [List.map_append, List.pairwise_append] at hincreasing
    have hlabelled := ih hbefore hincreasing.1 fun before r rest hsplit =>
      hoverwrites before r (rest ++ [run]) (by rw [hsplit, List.append_assoc, List.cons_append])
    have hrec : ∀ table, tableAfter env name runs = some table →
        Recorded env name (runs.map EvalRun.evaluatedAt) table :=
      fun table htable => recorded_tableAfter hreliable runs hbefore htable
    rw [tableAfter_concat]
    rcases runEvalModel_table hrec hrun rfl with ⟨-, hrows⟩ | ⟨result, evaluation, hok, hevaluate⟩
    · exact fun row hrow => hlabelled row (hrows.subset hrow)
    · exact (isLastRun_of_overwrites hreliable hrec hrun hlabelled
        (older_tableAfter hreliable hbefore fun time htime =>
          hincreasing.2.2 time htime _ (List.mem_singleton_self _))
        (hoverwrites runs run [] rfl) hok hevaluate).2

end History

/-- **The newest evaluation of an eval table.** In every history of incremental runs at increasing
times, every completed run leaves the table of its report exactly if every completed run overwrites
the rows of its report. -/
theorem newest_evaluation_iff (hreliable : Reliable env name) (runs : List EvalRun)
    (hincremental : ∀ run ∈ runs, run.incremental = true ∧ run.fullRefresh = false)
    (hincreasing : (runs.map EvalRun.evaluatedAt).Pairwise (· < ·)) :
    (∀ before run rest, runs = before ++ run :: rest →
      LastRun env name run (tableAfter env name before)) ↔
    ∀ before run rest, runs = before ++ run :: rest →
      Overwrites env name run (tableAfter env name before) := by
  have hsplit : ∀ before run rest, runs = before ++ run :: rest →
      (∀ r ∈ before, r.incremental = true ∧ r.fullRefresh = false) ∧
      (run.incremental = true ∧ run.fullRefresh = false) ∧
      (before.map EvalRun.evaluatedAt).Pairwise (· < ·) ∧
      ∀ t ∈ rowsOf (tableAfter env name before),
        ∃ u ∈ (t "evaluated_at").text, u < run.evaluatedAt := by
    rintro before run rest rfl
    have hbefore : ∀ r ∈ before, r.incremental = true ∧ r.fullRefresh = false := fun r hr =>
      hincremental r (List.mem_append_left _ hr)
    rw [List.map_append, List.pairwise_append] at hincreasing
    exact ⟨hbefore, hincremental run (by simp), hincreasing.1, older_tableAfter hreliable hbefore
      fun time htime => hincreasing.2.2 time htime _ List.mem_cons_self⟩
  constructor
  · intro hlast before run rest hruns
    obtain ⟨hbefore, hrun, -, holder⟩ := hsplit before run rest hruns
    exact overwrites_of_newest hreliable
      (fun table htable => recorded_tableAfter hreliable before hbefore htable) hrun holder
      (hlast before run rest hruns)
  · intro hoverwrites before run rest hruns result after evaluation hok hevaluate
    obtain ⟨hbefore, hrun, hincreasing, holder⟩ := hsplit before run rest hruns
    refine (isLastRun_of_overwrites hreliable
      (fun table htable => recorded_tableAfter hreliable before hbefore htable) hrun ?_ holder
      (hoverwrites before run rest hruns) hok hevaluate).1
    refine labelled_tableAfter hreliable before hbefore hincreasing fun first r more hfirst => ?_
    exact hoverwrites first r (more ++ run :: rest) (by
      rw [hruns, hfirst, List.append_assoc, List.cons_append])

/-! ### A model that no prediction matches -/

/-- The metrics of a report without labels, with the digests of their ids. -/
def qualityMetrics : List (String × List UInt8) :=
  [("accuracy", [15, 2, 153, 22, 129, 57, 94, 46, 106, 182, 234, 119, 117, 132, 80, 138]),
    ("macro_f1", [45, 219, 112, 45, 165, 168, 251, 205, 121, 10, 40, 166, 64, 27, 150, 107]),
    ("evaluated_rows", [88, 252, 207, 153, 182, 127, 13, 102, 167, 110, 49, 63, 242, 44, 161, 238]),
    ("unmatched_rows", [176, 79, 222, 0, 37, 36, 82, 163, 148, 181, 114, 123, 23, 77, 134, 92]),
    ("unusable_expected_rows",
      [175, 99, 219, 207, 33, 51, 223, 154, 221, 100, 50, 186, 87, 187, 118, 85])]

def qualityDigests : List (PyValue × List UInt8) :=
  qualityMetrics.map fun e => (metricIdentity "quality" e.1 none (some "v1"), e.2)

/-- The metric ids. -/
def qualityIds : List String :=
  ["0f02991681395e2e6ab6ea777584508a", "2ddb702da5a8fbcd790a28a6401b966b",
    "58fccf99b67f0d66a76e313ff22ca1ee", "b04fde00252452a394b5727b174d865c",
    "af63dbcf2133df9add6432ba57bb7655"]

theorem hex_qualityDigests : (qualityDigests.map fun e => hex e.2) = qualityIds := by
  decide +kernel

/-- A warehouse, on columns of texts and floats. -/
def qualityEnv : EvalEnv where
  blake2b := knownDigest (knownInputs "eval-metric-id" qualityDigests)
  assign type cell := match type, cell with
    | _, .null => some .null
    | "String", cell => some cell
    | "Float64", cell => some cell
    | _, _ => none
  double q := toString q.num ++ ".0"
  number text := if text = "0.0" then 0 else 1
  fixed q := toString q.num ++ ".0000"

theorem reliable_qualityEnv : Reliable qualityEnv "quality" where
  collisionFree _ _ _ _ _ _ := collisionFree_knownDigest (by decide) (by decide) _ _ _
  assign_null type := by
    simp only [qualityEnv]
  assign_string _ := rfl
  assign_double _ := rfl
  assign_untyped cell s := by
    cases cell <;> simp [qualityEnv]

/-- A relation with one row. -/
def oneRow (entries : List (String × Cell)) (h : (entries.map Prod.fst).Nodup) : Frame where
  schema := entries.map fun e => (e.1, "String")
  rows := [dictRow entries]
  nodup := by
    rw [List.map_map]
    exact h
  blank := by
    intro row hrow c hc
    rw [List.map_map] at hc
    rw [List.mem_singleton.mp hrow, dictRow, lookup_eq_none_of_notMem hc]
    rfl

/-- A run over the predictions of version `v1`, none of which is for a labelled document. -/
def qualityRun (updateWhenChanged : List String) (evaluatedAt : String) : EvalRun where
  config := ⟨"ref('signals')", "signal", "ref('labels')", "expected", "id", []⟩
  incremental := true
  updateWhenChanged := updateWhenChanged
  tables := fun relation =>
    if relation = "signals" then
      some (oneRow [("id", .string "a"), ("signal", .string "churn"),
        ("code_version", .string "v1")] (by decide))
    else if relation = "labels" then
      some (oneRow [("id", .string "b"), ("expected", .string "churn")] (by decide))
    else none
  fields := fun _ => none
  codeVersion := "e1"
  evaluatedAt := evaluatedAt

theorem report_qualityRun (updateWhenChanged : List String) (evaluatedAt : String) :
    (qualityRun updateWhenChanged evaluatedAt).report "quality" =
      .ok (⟨0, 0, 0, 1, 0, []⟩, some "v1") := by
  have hcongr : (qualityRun updateWhenChanged evaluatedAt).report "quality" =
      (qualityRun [] "").report "quality" := report_congr rfl rfl rfl
  rw [hcongr]
  decide +kernel

/-- The report of every run. -/
def qualityEvaluation (run : EvalRun) : Evaluation where
  report := ⟨0, 0, 0, 1, 0, []⟩
  version := some "v1"
  frame := run.metricFrame qualityEnv (some "v1")
    (qualityIds.zip (asRows ⟨0, 0, 0, 1, 0, []⟩))

theorem evaluate_qualityRun (updateWhenChanged : List String) (evaluatedAt : String) :
    (qualityRun updateWhenChanged evaluatedAt).evaluate qualityEnv "quality" =
      .ok (qualityEvaluation (qualityRun updateWhenChanged evaluatedAt)) := by
  have hnodup : (qualityDigests.map fun e => canonicalValue e.1).Nodup := by
    have hmetrics : (qualityMetrics.map Prod.fst).Nodup := by decide
    rw [qualityDigests, List.map_map]
    exact (List.Nodup.of_map _ hmetrics).map_on fun a ha b hb heq =>
      List.inj_on_of_nodup_map hmetrics ha hb (metricIdentity_inj heq).1
  have hknown : ∀ e ∈ qualityDigests,
      canonicalFingerprint qualityEnv.blake2b e.1 "eval-metric-id" 1 16 = .ok (hex e.2) := fun e he =>
    canonicalFingerprint_known (by decide) (by decide +kernel) (by decide +kernel) hnodup he
  have hids : (asRows ⟨0, 0, 0, 1, 0, []⟩).mapM
      (fun row => metricId qualityEnv "quality" row.metric row.label (some "v1")) =
        .ok qualityIds := by
    rw [← hex_qualityDigests]
    refine mapM_eq_ok.mpr ?_
    have hrows : (asRows ⟨0, 0, 0, 1, 0, []⟩).map (fun row =>
        metricIdentity "quality" row.metric row.label (some "v1")) = qualityDigests.map Prod.fst := rfl
    rw [List.forall₂_map_right_iff]
    have hsame : List.Forall₂ (fun row e =>
        metricIdentity "quality" row.metric row.label (some "v1") = e.1)
        (asRows ⟨0, 0, 0, 1, 0, []⟩) qualityDigests := by
      rwa [← List.forall₂_eq_eq_eq, List.forall₂_map_left_iff, List.forall₂_map_right_iff] at hrows
    have hmem := ((List.forall₂_and_left _ _).mpr ⟨fun e (he : e ∈ qualityDigests) => he, hsame.flip⟩)
    refine hmem.flip.imp fun row e hrow => ?_
    rw [metricId, hrow.2]
    exact hknown e hrow.1
  refine bind_eq_ok.mpr ⟨_, report_qualityRun _ _, bind_eq_ok.mpr ⟨_, hids, ?_⟩⟩
  rfl

theorem label_qualityEvaluation (run : EvalRun) :
    ∀ s ∈ (qualityEvaluation run).frame.rows, s "label" = .null := by
  intro s hs
  obtain ⟨r, hr, rfl⟩ := List.mem_map.mp hs
  have hlabel : ∀ row ∈ asRows ⟨0, 0, 0, 1, 0, []⟩, row.label = none := by decide +kernel
  rw [metricRow_label, hlabel _ (List.of_mem_zip hr).2]
  rfl

/-- The first run completes, and its report is in the table. -/
theorem first_qualityRun {updateWhenChanged : List String}
    (hwatch : updateWhenChanged ⊆ metricColumns) :
    ∃ table, tableAfter qualityEnv "quality" [qualityRun updateWhenChanged "2026-01-01"] =
        some table ∧ Recorded qualityEnv "quality" ["2026-01-01"] table ∧
      table.schema.lookup "predictions_version" = some "String" ∧
      newestRows table.rows =
        (qualityEvaluation (qualityRun updateWhenChanged "2026-01-01")).frame.rows := by
  have hrec : ∀ table, (none : Option Frame) = some table →
      Recorded qualityEnv "quality" [] table := nofun
  have hevaluate := evaluate_qualityRun updateWhenChanged "2026-01-01"
  obtain ⟨result, after, hrun⟩ := exists_runEvalModel reliable_qualityEnv hrec ⟨rfl, rfl⟩ hevaluate
    hwatch nofun nofun
  obtain ⟨detect, labelType, kept, source, stored, hloaded⟩ :=
    exists_loaded_of_ok reliable_qualityEnv hrec ⟨rfl, rfl⟩ hrun hevaluate
  have hlast := (isLastRun_of_overwrites reliable_qualityEnv hrec ⟨rfl, rfl⟩
    (fun t ht => absurd ht List.not_mem_nil) (fun t ht => absurd ht List.not_mem_nil)
    (fun _ _ _ _ _ _ h => nomatch h) hrun hevaluate).1.newest
  have hafter : tableAfter qualityEnv "quality" [qualityRun updateWhenChanged "2026-01-01"] =
      after := by
    rw [tableAfter, List.foldl_cons, List.foldl_nil, hrun]
  obtain ⟨versionType, hschema, -, -, hversion⟩ := hloaded.schema
  obtain rfl := hversion.resolve_right (by simp [qualityEvaluation])
  cases after with
  | none => cases hschema
  | some table =>
    refine ⟨table, hafter, hloaded.recorded hrec hevaluate rfl, ?_, hlast⟩
    rw [schemaOf_some] at hschema
    rw [hschema]
    rfl

/-- So does the second run. -/
theorem second_qualityRun {updateWhenChanged : List String}
    (hwatch : updateWhenChanged ⊆ metricColumns) :
    ∃ result after, (qualityRun updateWhenChanged "2026-01-02").runEvalModel qualityEnv "quality"
      (tableAfter qualityEnv "quality" [qualityRun updateWhenChanged "2026-01-01"]) =
        (.ok result, after) := by
  obtain ⟨table, htable, hrec, hversion, -⟩ := first_qualityRun hwatch
  rw [htable]
  refine exists_runEvalModel reliable_qualityEnv (fun t ht => Option.some.inj ht ▸ hrec) ⟨rfl, rfl⟩
    (evaluate_qualityRun _ _) hwatch (fun _ _ => .inr (label_qualityEvaluation _)) ?_
  intro t ht
  exact .inl (Option.some.inj ht ▸ hversion)

theorem newest_evaluation_iff_rerun :
    newestRows (rowsOf (tableAfter qualityEnv "quality"
      [qualityRun [] "2026-01-01", qualityRun [] "2026-01-02"])) =
      (qualityEvaluation (qualityRun [] "2026-01-02")).frame.rows := by
  obtain ⟨result, after, hrun⟩ := second_qualityRun (List.nil_subset _)
  have hlast := (newest_evaluation_iff reliable_qualityEnv
    [qualityRun [] "2026-01-01", qualityRun [] "2026-01-02"] (by simp [qualityRun]) (by decide)).mpr
    (by
      rintro before run rest hruns result after evaluation table - hevaluate -
      have hmem : run ∈ [qualityRun [] "2026-01-01", qualityRun [] "2026-01-02"] := by simp [hruns]
      obtain ⟨evaluatedAt, rfl⟩ : ∃ evaluatedAt, run = qualityRun [] evaluatedAt := by
        rcases List.mem_cons.mp hmem with rfl | hmem
        · exact ⟨_, rfl⟩
        · exact ⟨_, List.mem_singleton.mp hmem⟩
      rw [evaluate_qualityRun] at hevaluate
      obtain rfl := Except.ok.inj hevaluate
      exact ⟨.inl rfl, .inr (label_qualityEvaluation _)⟩)
  have hnewest := (hlast [qualityRun [] "2026-01-01"] (qualityRun [] "2026-01-02") [] rfl result
    after _ hrun (evaluate_qualityRun _ _)).newest
  have hafter : tableAfter qualityEnv "quality"
      ([qualityRun [] "2026-01-01"] ++ [qualityRun [] "2026-01-02"]) = after := by
    rw [tableAfter_concat, hrun]
  rw [List.singleton_append] at hafter
  rw [hafter]
  exact hnewest

/-- A rerun that detects changes by the code version completes, and the newest evaluation is not its
report. -/
theorem newest_evaluation_unchanged :
    Reliable qualityEnv "quality" ∧
      (∃ result after, (qualityRun ["code_version"] "2026-01-02").runEvalModel qualityEnv "quality"
        (tableAfter qualityEnv "quality" [qualityRun ["code_version"] "2026-01-01"]) =
          (.ok result, after)) ∧
      ¬ LastRun qualityEnv "quality" (qualityRun ["code_version"] "2026-01-02")
        (tableAfter qualityEnv "quality" [qualityRun ["code_version"] "2026-01-01"]) := by
  have hwatch : ["code_version"] ⊆ metricColumns := by decide
  obtain ⟨result, after, hrun⟩ := second_qualityRun hwatch
  refine ⟨reliable_qualityEnv, ⟨result, after, hrun⟩, fun hlast => ?_⟩
  obtain ⟨table, htable, hrec, -, hfirst⟩ := first_qualityRun hwatch
  rw [htable] at hrun hlast
  have holder : ∀ t ∈ rowsOf (some table), ∃ u ∈ (t "evaluated_at").text, u < "2026-01-02" := by
    intro t ht
    obtain ⟨time, htime, hcell⟩ := hrec.evaluated t ht
    obtain rfl := List.mem_singleton.mp htime
    exact ⟨_, by rw [hcell]; rfl, by decide⟩
  obtain ⟨hchanged, -⟩ := overwrites_of_newest reliable_qualityEnv
    (fun t ht => Option.some.inj ht ▸ hrec) ⟨rfl, rfl⟩ holder hlast result after _ table hrun
    (evaluate_qualityRun _ _) rfl
  have hall := hchanged.resolve_left (by simp [qualityRun])
  let r : String × MetricRow := ("0f02991681395e2e6ab6ea777584508a", ⟨"accuracy", none, 0⟩)
  have hr : r ∈ qualityIds.zip (asRows ⟨0, 0, 0, 1, 0, []⟩) := List.mem_cons_self
  have ht : metricRow qualityEnv (qualityRun ["code_version"] "2026-01-01") (some "v1") r.1 r.2 ∈
      table.rows := by
    refine (mem_newestRows.mp ?_).1
    rw [hfirst]
    exact List.mem_map_of_mem hr
  have hchange := hall _ (List.mem_map_of_mem hr) _ ht rfl
  simp [Changed, qualityRun] at hchange

end EvalRun

end Stel.Execution
