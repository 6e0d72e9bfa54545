import Stel.Data.SortedSet
import Mathlib.Algebra.Order.BigOperators.Group.Finset
import Mathlib.Algebra.Order.Field.Rat
import Mathlib.Data.String.Basic
import Mathlib.Tactic.Linarith
import Mathlib.Tactic.Positivity

/-!
# Classification metrics

`classification_metrics.py`: what a set of predicted and expected labels scores, and the report in
long format. The scores are exact quotients.

## Main definitions

* `LabelScore`, `ClassificationReport`, `score`.
* `asRows`: one row for each metric.

## Main results

* `nodup_asRows_score`: a report has one row for each metric and label.
* `sum_support_score`: the supports of a report sum to the number of pairs.
* `ratio_mul`, `scoreLabel_rates`, `score_rates`: the rates of a report, as quotients of its counts.
-/

namespace Stel.ClassificationMetrics

/-- `LabelScore`. -/
structure LabelScore where
  label : String
  precision : ℚ
  «recall» : ℚ
  f1 : ℚ
  support : ℕ
  deriving DecidableEq, Repr

/-- `ClassificationReport`. -/
structure ClassificationReport where
  accuracy : ℚ
  macroF1 : ℚ
  evaluatedRows : ℕ
  unmatchedRows : ℕ
  unusableExpectedRows : ℕ
  labels : List LabelScore
  deriving DecidableEq, Repr

/-- `_ratio`. -/
def ratio (numerator denominator : ℕ) : ℚ :=
  if denominator = 0 then 0 else numerator / denominator

/-- The score of one label over `(predicted, expected)` pairs. -/
def scoreLabel (pairs : List (String × String)) (label : String) : LabelScore :=
  let hits := pairs.countP fun p => p.1 = p.2 ∧ p.1 = label
  let predictedCount := pairs.countP fun p => p.1 = label
  let expectedCount := pairs.countP fun p => p.2 = label
  let precision := ratio hits predictedCount
  let «recall» := ratio hits expectedCount
  let denominator := precision + «recall»
  { label := label
    precision := precision
    «recall» := «recall»
    f1 := if denominator = 0 then 0 else 2 * precision * «recall» / denominator
    support := expectedCount }

/-- `score`. -/
def score (pairs : List (String × String)) (declaredLabels : List String)
    (unmatchedRows unusableExpectedRows : ℕ) : ClassificationReport :=
  let known := sortedSet (declaredLabels ++ pairs.flatMap fun p => [p.1, p.2])
  let scores := known.map (scoreLabel pairs)
  { accuracy := ratio (pairs.countP fun p => p.1 = p.2) pairs.length
    macroF1 := if scores = [] then 0 else (scores.map LabelScore.f1).sum / scores.length
    evaluatedRows := pairs.length
    unmatchedRows := unmatchedRows
    unusableExpectedRows := unusableExpectedRows
    labels := scores }

/-- A row of the report in long format. -/
structure MetricRow where
  metric : String
  label : Option String
  value : ℚ
  deriving DecidableEq, Repr

/-- The rows of one label. -/
def labelRows (item : LabelScore) : List MetricRow :=
  [⟨"precision", some item.label, item.precision⟩, ⟨"recall", some item.label, item.«recall»⟩,
    ⟨"f1", some item.label, item.f1⟩, ⟨"support", some item.label, item.support⟩]

/-- `as_rows`. -/
def asRows (report : ClassificationReport) : List MetricRow :=
  [⟨"accuracy", none, report.accuracy⟩, ⟨"macro_f1", none, report.macroF1⟩,
    ⟨"evaluated_rows", none, report.evaluatedRows⟩,
    ⟨"unmatched_rows", none, report.unmatchedRows⟩,
    ⟨"unusable_expected_rows", none, report.unusableExpectedRows⟩] ++
  report.labels.flatMap labelRows

/-- What identifies a row of a report. -/
def MetricRow.identity (row : MetricRow) : String × Option String := (row.metric, row.label)

/-- `join_pairs`: the pairs, and the number of expected keys without a prediction. -/
def joinPairs (predictions expected : List (String × String)) : List (String × String) × ℕ :=
  let pairs := expected.filterMap fun e => (predictions.lookup e.1).map fun p => (p, e.2)
  (pairs, expected.length - pairs.length)

/-! ### One row for each metric and label -/

theorem nodup_identity_labelRows (item : LabelScore) :
    ((labelRows item).map MetricRow.identity).Nodup := by
  simp [labelRows, MetricRow.identity]

/-- The rows of different labels are different, and none is a row without label. -/
theorem nodup_asRows {report : ClassificationReport}
    (h : (report.labels.map LabelScore.label).Nodup) :
    ((asRows report).map MetricRow.identity).Nodup := by
  have hlabel : ∀ item : LabelScore, ∀ id ∈ (labelRows item).map MetricRow.identity,
      id.2 = some item.label := by
    intro item id hid
    simp only [labelRows, MetricRow.identity, List.map_cons, List.map_nil, List.mem_cons,
      List.not_mem_nil, or_false] at hid
    rcases hid with rfl | rfl | rfl | rfl <;> rfl
  rw [asRows, List.map_append, List.map_flatMap]
  refine List.nodup_append'.mpr ⟨by simp [MetricRow.identity], ?_, ?_⟩
  · refine List.nodup_flatMap.mpr ⟨fun item _ => nodup_identity_labelRows item, ?_⟩
    refine (List.pairwise_map.mp h).imp fun {a b} hab => ?_
    intro id ha hb
    exact hab (Option.some.inj ((hlabel a id ha).symm.trans (hlabel b id hb)))
  · intro id hfixed hid
    obtain ⟨item, -, hid⟩ := List.mem_flatMap.mp hid
    have hsome := hlabel item id hid
    simp only [MetricRow.identity, List.map_cons, List.map_nil, List.mem_cons, List.not_mem_nil,
      or_false] at hfixed
    rcases hfixed with rfl | rfl | rfl | rfl | rfl <;> cases hsome

/-- The labels of a report. -/
theorem labels_score (pairs : List (String × String)) (declaredLabels : List String)
    (unmatchedRows unusableExpectedRows : ℕ) :
    (score pairs declaredLabels unmatchedRows unusableExpectedRows).labels.map LabelScore.label =
      sortedSet (declaredLabels ++ pairs.flatMap fun p => [p.1, p.2]) := by
  rw [score, List.map_map]
  exact List.map_id _

/-- **A report has one row for each metric and label.** -/
theorem nodup_asRows_score (pairs : List (String × String)) (declaredLabels : List String)
    (unmatchedRows unusableExpectedRows : ℕ) :
    ((asRows (score pairs declaredLabels unmatchedRows unusableExpectedRows)).map
      MetricRow.identity).Nodup := by
  refine nodup_asRows ?_
  rw [labels_score]
  exact nodup_sortedSet

/-! ### The counts of a report -/

variable {pairs : List (String × String)} {declaredLabels : List String} {label : String}

/-- The number of pairs whose prediction of a label is right. -/
def hits (pairs : List (String × String)) (label : String) : ℕ :=
  pairs.countP fun p => p.1 = p.2 ∧ p.1 = label

theorem hits_le_predicted : hits pairs label ≤ pairs.countP fun p => p.1 = label :=
  List.countP_mono_left fun p _ hp => by simpa using (of_decide_eq_true hp).2

theorem hits_le_expected : hits pairs label ≤ pairs.countP fun p => p.2 = label :=
  List.countP_mono_left fun p _ hp => by
    obtain ⟨heq, hlabel⟩ := of_decide_eq_true hp
    simpa using heq ▸ hlabel

/-- The supports of a report sum to the number of pairs. -/
theorem sum_support_score (unmatchedRows unusableExpectedRows : ℕ) :
    ((score pairs declaredLabels unmatchedRows unusableExpectedRows).labels.map
      LabelScore.support).sum = pairs.length := by
  have hsupport : ∀ label, pairs.countP (fun p => p.2 = label) = (pairs.map Prod.snd).count label := by
    intro label
    simp only [List.count, List.countP_map, Function.comp_def, beq_eq_decide]
  have hmem : ∀ label ∈ (pairs.map Prod.snd : Multiset String),
      label ∈ (sortedSet (declaredLabels ++ pairs.flatMap fun p => [p.1, p.2])).toFinset := by
    intro label hlabel
    obtain ⟨p, hp, rfl⟩ := List.mem_map.mp (Multiset.mem_coe.mp hlabel)
    refine List.mem_toFinset.mpr (mem_sortedSet.mpr (List.mem_append_right _ ?_))
    exact List.mem_flatMap.mpr ⟨p, hp, by simp⟩
  have hsum := Multiset.sum_count_eq_card hmem
  rw [List.sum_toFinset _ nodup_sortedSet, Multiset.coe_card, List.length_map] at hsum
  rw [score, List.map_map, ← hsum]
  refine congrArg List.sum (List.map_congr_left fun label _ => ?_)
  exact (hsupport label).trans (Multiset.coe_count _ _).symm

/-! ### The rates of a report -/

theorem ratio_nonneg (a b : ℕ) : 0 ≤ ratio a b := by
  unfold ratio
  split
  · exact le_rfl
  · positivity

theorem ratio_le_one {a b : ℕ} (h : a ≤ b) : ratio a b ≤ 1 := by
  unfold ratio
  split
  · exact zero_le_one
  · exact div_le_one_of_le₀ (by exact_mod_cast h) (by positivity)

/-- A quotient of counts, times its denominator, is its numerator. -/
theorem ratio_mul {a b : ℕ} (h : a ≤ b) : ratio a b * b = a := by
  unfold ratio
  split
  · rename_i hzero
    obtain rfl : a = 0 := by omega
    simp
  · rename_i hne
    exact div_mul_cancel₀ _ (by exact_mod_cast hne)

/-- The harmonic mean of two rates lies between them. -/
theorem harmonic_between {p r : ℚ} (hp : 0 ≤ p) (hr : 0 ≤ r) :
    min p r ≤ (if p + r = 0 then 0 else 2 * p * r / (p + r)) ∧
      (if p + r = 0 then 0 else 2 * p * r / (p + r)) ≤ max p r := by
  split
  · rename_i hzero
    exact ⟨(min_le_left _ _).trans (by linarith), hp.trans (le_max_left _ _)⟩
  · rename_i hne
    have hpos : 0 < p + r := lt_of_le_of_ne (add_nonneg hp hr) (Ne.symm hne)
    constructor
    · rw [le_div_iff₀ hpos]
      rcases le_total p r with hle | hle
      · rw [min_eq_left hle]
        nlinarith
      · rw [min_eq_right hle]
        nlinarith
    · rw [div_le_iff₀ hpos]
      rcases le_total p r with hle | hle
      · rw [max_eq_right hle]
        nlinarith
      · rw [max_eq_left hle]
        nlinarith

/-- The rates of one label. -/
structure LabelScore.Rates (item : LabelScore) : Prop where
  precision : 0 ≤ item.precision ∧ item.precision ≤ 1
  «recall» : 0 ≤ item.«recall» ∧ item.«recall» ≤ 1
  between : min item.precision item.«recall» ≤ item.f1 ∧ item.f1 ≤ max item.precision item.«recall»

theorem scoreLabel_rates (pairs : List (String × String)) (label : String) :
    (scoreLabel pairs label).Rates where
  precision := ⟨ratio_nonneg _ _, ratio_le_one hits_le_predicted⟩
  «recall» := ⟨ratio_nonneg _ _, ratio_le_one hits_le_expected⟩
  between := harmonic_between (ratio_nonneg _ _) (ratio_nonneg _ _)

theorem LabelScore.Rates.f1 {item : LabelScore} (h : item.Rates) : 0 ≤ item.f1 ∧ item.f1 ≤ 1 :=
  ⟨(le_min h.precision.1 h.«recall».1).trans h.between.1,
    h.between.2.trans (max_le h.precision.2 h.«recall».2)⟩

/-- The mean of rates is a rate. -/
theorem mean_rate {scores : List LabelScore} (h : ∀ item ∈ scores, item.Rates) :
    0 ≤ (if scores = [] then 0 else (scores.map LabelScore.f1).sum / scores.length) ∧
      (if scores = [] then 0 else (scores.map LabelScore.f1).sum / scores.length) ≤ 1 := by
  have hsum : 0 ≤ (scores.map LabelScore.f1).sum ∧ (scores.map LabelScore.f1).sum ≤ scores.length := by
    induction scores with
    | nil => simp
    | cons item scores ih =>
      obtain ⟨hlow, hhigh⟩ := ih fun i hi => h i (List.mem_cons_of_mem _ hi)
      have hitem := (h item List.mem_cons_self).f1
      rw [List.map_cons, List.sum_cons, List.length_cons, Nat.cast_add, Nat.cast_one]
      exact ⟨by linarith, by linarith⟩
  split
  · exact ⟨le_rfl, zero_le_one⟩
  · exact ⟨div_nonneg hsum.1 (Nat.cast_nonneg _), div_le_one_of_le₀ hsum.2 (Nat.cast_nonneg _)⟩

/-- A label scores full recall if every row that expects it was predicted so. -/
example : ((score [("churn", "churn"), ("churn", "ok")] ["churn", "ok", "spam"] 0 0).labels.map
    LabelScore.«recall») = [1, 0, 0] := by decide +kernel

end Stel.ClassificationMetrics
