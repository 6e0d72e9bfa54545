import Stel.Execution.Eval
import Mathlib.Data.List.MinMax

/-!
# The gate on an eval table

`_min_metric` in `checks/schema.py` reads the rows with the greatest `evaluated_at`, so that a gate on
a metric sees the newest evaluation only.

## Main definitions

* `newestRows`, `observedMetric`, `minMetric`: what the gate reads.

## Main results

* `newestRows_append`: rows that come after all others are the newest evaluation.
* `minMetric_passed`: the gate passes on a value of the newest evaluation only.
-/

namespace Stel.Execution

open Stel.Warehouse

/-- The rows of the newest evaluation. -/
def newestRows (rows : List Row) : List Row :=
  rows.filter fun row => ∃ t ∈ (row "evaluated_at").text,
    ∀ other ∈ rows, ∀ u ∈ (other "evaluated_at").text, u ≤ t

theorem mem_newestRows {rows : List Row} {row : Row} : row ∈ newestRows rows ↔ row ∈ rows ∧
    ∃ t ∈ (row "evaluated_at").text, ∀ other ∈ rows, ∀ u ∈ (other "evaluated_at").text, u ≤ t := by
  simp [newestRows]

/-- The rows of one metric and label. -/
def metricMatches (metric : String) (label : Option String) (row : Row) : Bool :=
  (row "metric").text = some metric ∧ (row "label").text = label

/-- The value that the gate reads: the least one of the newest evaluation. -/
def observedMetric (env : EvalEnv) (rows : List Row) (metric : String) (label : Option String) :
    Option String :=
  (((newestRows rows).filter (metricMatches metric label)).filterMap fun row =>
    (row "value").text).argmin env.number

/-- The gate reads a value of the newest evaluation. -/
theorem exists_of_observedMetric {env : EvalEnv} {rows : List Row} {metric value : String}
    {label : Option String} (h : observedMetric env rows metric label = some value) :
    ∃ row ∈ newestRows rows, metricMatches metric label row = true ∧
      (row "value").text = some value := by
  obtain ⟨row, hrow, hvalue⟩ := List.mem_filterMap.mp (List.argmin_mem h)
  exact ⟨row, (List.mem_filter.mp hrow).1, (List.mem_filter.mp hrow).2, hvalue⟩

/-- `TestResult`. -/
structure TestResult where
  testName : String
  modelName : String
  column : String
  passed : Bool
  message : String
  deriving DecidableEq, Repr

/-- `_min_metric`; the minimum comes with its text. -/
def minMetric (env : EvalEnv) (modelName : String) (rows : List Row) (metric : String)
    (label : Option String) (minimum : ℚ) (minimumText : String) : TestResult :=
  let described := match label with
    | some label => metric ++ "[" ++ label ++ "]"
    | none => metric
  match observedMetric env rows metric label with
  | none => ⟨"min_metric", modelName, described, false,
      "no " ++ described ++ " row to check; expected one at or above " ++ minimumText⟩
  | some observed =>
    let passed := decide (minimum ≤ env.number observed)
    ⟨"min_metric", modelName, described, passed,
      if passed then ""
      else described ++ " is " ++ env.fixed (env.number observed) ++ ", below " ++ minimumText⟩

/-- The gate passes only on a value that it reads. -/
theorem minMetric_passed {env : EvalEnv} {modelName metric minimumText : String} {rows : List Row}
    {label : Option String} {minimum : ℚ}
    (h : (minMetric env modelName rows metric label minimum minimumText).passed = true) :
    ∃ value, observedMetric env rows metric label = some value ∧ minimum ≤ env.number value := by
  unfold minMetric at h
  cases hobserved : observedMetric env rows metric label with
  | none => simp [hobserved] at h
  | some value => exact ⟨value, rfl, by simpa [hobserved] using h⟩

/-- The newest evaluation, if some rows come after all others. -/
theorem newestRows_append {kept added : List Row} {time : String} (hne : added ≠ [])
    (hadded : ∀ row ∈ added, (row "evaluated_at").text = some time)
    (hkept : ∀ row ∈ kept, ∃ t ∈ (row "evaluated_at").text, t < time) :
    newestRows (kept ++ added) = added := by
  obtain ⟨latest, hlatest⟩ := List.exists_mem_of_ne_nil added hne
  rw [newestRows, List.filter_append]
  have hold : kept.filter (fun row => ∃ t ∈ (row "evaluated_at").text,
      ∀ other ∈ kept ++ added, ∀ u ∈ (other "evaluated_at").text, u ≤ t) = [] := by
    refine List.filter_eq_nil_iff.mpr fun row hrow hnewest => ?_
    obtain ⟨t, ht, hmax⟩ := of_decide_eq_true hnewest
    obtain ⟨t', ht', hlt⟩ := hkept row hrow
    obtain rfl := Option.some.inj (ht'.symm.trans ht)
    exact absurd (hmax latest (List.mem_append_right _ hlatest) time (hadded latest hlatest))
      (not_le.mpr hlt)
  have hnew : added.filter (fun row => ∃ t ∈ (row "evaluated_at").text,
      ∀ other ∈ kept ++ added, ∀ u ∈ (other "evaluated_at").text, u ≤ t) = added := by
    refine List.filter_eq_self.mpr fun row hrow => decide_eq_true ?_
    refine ⟨time, hadded row hrow, fun other hother u hu => ?_⟩
    rcases List.mem_append.mp hother with hother | hother
    · obtain ⟨t, ht, hlt⟩ := hkept other hother
      obtain rfl := Option.some.inj (ht.symm.trans hu)
      exact hlt.le
    · exact (Option.some.inj ((hadded other hother).symm.trans hu)).ge
  rw [hold, hnew, List.nil_append]

end Stel.Execution
