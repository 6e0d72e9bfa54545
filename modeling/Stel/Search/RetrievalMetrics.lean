import Stel.Data.SortedSet
import Stel.Failure
import Mathlib.Algebra.Order.Field.Rat
import Mathlib.Algebra.Ring.Nat
import Mathlib.Data.Finset.Card
import Mathlib.Data.List.Sort
import Mathlib.Data.String.Basic

/-!
# Ranking metrics

`retrieval_metrics.py`: the metrics of a ranked list of ids against the judgments of a query, with
exact numbers. The binary logarithm is a parameter.

## Main definitions

* `recallAtK`, `precisionAtK`, `hitRateAtK`, `mrrAtK`, `ndcgAtK`.
* `evaluateQuery`: every metric of one query at every cutoff.
* `aggregateMetrics`: the means over the queries.

## Main results

* `evaluateQuery_empty`: a query without relevant ids is not scored.
-/

namespace Stel.RetrievalEval

/-- The names of the metrics. -/
inductive Metric
  | recall
  | precision
  | hitRate
  | mrr
  | ndcg
  deriving DecidableEq, Repr

namespace Metric

/-- The name of a metric. -/
def name : Metric → String
  | .recall => "recall"
  | .precision => "precision"
  | .hitRate => "hit_rate"
  | .mrr => "mrr"
  | .ndcg => "ndcg"

/-- `(*_METRIC_FNS, "ndcg")`. -/
def all : List Metric := [.recall, .precision, .hitRate, .mrr, .ndcg]

end Metric

/-- `recall_at_k`, for a nonempty set of relevant ids. -/
def recallAtK (rankedIds : List String) (relevantIds : Finset String) (k : ℕ) : ℚ :=
  ((rankedIds.take k).toFinset ∩ relevantIds).card / relevantIds.card

/-- `precision_at_k`, for a positive `k`. -/
def precisionAtK (rankedIds : List String) (relevantIds : Finset String) (k : ℕ) : ℚ :=
  let topK := rankedIds.take k
  if topK = [] then 0 else (topK.countP (· ∈ relevantIds) : ℚ) / topK.length

/-- `hit_rate_at_k`. -/
def hitRateAtK (rankedIds : List String) (relevantIds : Finset String) (k : ℕ) : ℚ :=
  if ((rankedIds.take k).toFinset ∩ relevantIds) = ∅ then 0 else 1

/-- `mrr_at_k`. -/
def mrrAtK (rankedIds : List String) (relevantIds : Finset String) (k : ℕ) : ℚ :=
  match (rankedIds.take k).findIdx? (· ∈ relevantIds) with
  | some i => 1 / (i + 1)
  | none => 0

/-- `dcg` of `ndcg_at_k`. -/
def dcg (log2 : ℕ → ℚ) (relevance : List (String × ℚ)) (ids : List String) (k : ℕ) : ℚ :=
  ((ids.take k).zipIdx 1).foldl (fun total item =>
    let grade := (relevance.lookup item.1).getD 0
    if grade ≠ 0 then total + grade / log2 (item.2 + 1) else total) 0

/-- `ndcg_at_k`. -/
def ndcgAtK (log2 : ℕ → ℚ) (rankedIds : List String) (relevance : List (String × ℚ)) (k : ℕ) :
    Except Failure ℚ :=
  let idealOrder := (relevance.insertionSort fun a b => b.2 ≤ a.2).map Prod.fst
  let ideal := dcg log2 relevance idealOrder k
  if ideal = 0 then .error (.other "ndcg_at_k requires at least one relevant grade > 0")
  else .ok (dcg log2 relevance rankedIds k / ideal)

/-- `QueryDiagnosis`. -/
inductive QueryDiagnosis
  | ok
  | noRelevantLabels
  | emptyResults
  deriving DecidableEq, Repr

/-- `QueryMetrics`. The values are listed by metric and cutoff. -/
structure QueryMetrics where
  queryId : String
  diagnosis : QueryDiagnosis
  values : List ((Metric × ℕ) × ℚ)
  rankedIds : List String
  missingIds : List String
  deriving DecidableEq, Repr

/-- The metrics of a query at one cutoff. -/
def metricsAtK (log2 : ℕ → ℚ) (rankedIds : List String) (relevantIds : Finset String)
    (grades : List (String × ℚ)) (k : ℕ) : Except Failure (List ((Metric × ℕ) × ℚ)) := do
  let ndcg ← ndcgAtK log2 rankedIds grades k
  return [((.recall, k), recallAtK rankedIds relevantIds k),
    ((.precision, k), precisionAtK rankedIds relevantIds k),
    ((.hitRate, k), hitRateAtK rankedIds relevantIds k),
    ((.mrr, k), mrrAtK rankedIds relevantIds k), ((.ndcg, k), ndcg)]

/-- `evaluate_query`. -/
def evaluateQuery (log2 : ℕ → ℚ) (queryId : String) (rankedIds : List String)
    (relevantIds : List String) (gradedRelevance : Option (List (String × ℚ)))
    (cutoffs : List ℕ) : Except Failure QueryMetrics :=
  if relevantIds = [] then .ok ⟨queryId, .noRelevantLabels, [], rankedIds, []⟩
  else do
    let relevant := sortedSet relevantIds
    let grades := (gradedRelevance.filter (· ≠ [])).getD (relevant.map fun id => (id, 1))
    let values ← cutoffs.mapM (metricsAtK log2 rankedIds relevantIds.toFinset grades)
    return ⟨queryId, if rankedIds = [] then .emptyResults else .ok, values.flatten, rankedIds,
      relevant.filter (· ∉ rankedIds)⟩

/-- A query without relevant ids is not scored. -/
theorem evaluateQuery_empty (log2 : ℕ → ℚ) (queryId : String) (rankedIds : List String)
    (gradedRelevance : Option (List (String × ℚ))) (cutoffs : List ℕ) :
    evaluateQuery log2 queryId rankedIds [] gradedRelevance cutoffs =
      .ok ⟨queryId, .noRelevantLabels, [], rankedIds, []⟩ := if_pos rfl

/-- `sum(samples) / len(samples) if samples else 0.0`. -/
def mean (samples : List ℚ) : ℚ :=
  if samples = [] then 0 else samples.sum / samples.length

/-- `aggregate_metrics`. -/
def aggregateMetrics (perQuery : List QueryMetrics) (cutoffs : List ℕ) :
    List ((Metric × ℕ) × ℚ) :=
  let scored := perQuery.filter (·.values ≠ [])
  Metric.all.flatMap fun metric => cutoffs.map fun k =>
    ((metric, k), mean (scored.filterMap fun q => q.values.lookup (metric, k)))

end Stel.RetrievalEval
