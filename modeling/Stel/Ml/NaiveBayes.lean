import Stel.Ml.Text

/-!
# Naive Bayes

The classifier of `classic_ml/classifier.py`: multinomial naive Bayes with additive smoothing, and its
prediction rows.

## Main definitions

* `Classifier`, `fitNaiveBayes`, `predictionRows`.

## Main results

* `fitNaiveBayes_eq_ok`: what a fitted classifier holds; its logarithms are finite.
* `predictionRows_congr`: the order of the members of its dictionaries does not matter for the rows.
-/

namespace Stel.Ml

/-- A fitted classifier. -/
structure Classifier (F : Type) where
  provider : Provider
  classes : List String
  vocabulary : List String
  nFeatures : ℕ
  options : Options F
  classDocCounts : List (String × Number F)
  classLogPrior : List (String × Number F)
  featureLogProb : List (String × List (String × Number F))
  defaultLogProb : List (String × Number F)
  alpha : F

/-- `raw_options.get("alpha")`. -/
def Options.alpha? {F : Type} : Options F → Option (Number F)
  | .naiveBayes _ alpha => some alpha
  | _ => none

section Fitting

variable {F : Type} (L : Library F)

/-- `float(n)`. -/
def toFloat (n : ℕ) : Except Failure F := orRaise "OverflowError" (L.floats.ofInt n)

/-- `float(number)`. -/
def numberFloat (n : Number F) : Except Failure F := orRaise "OverflowError" (L.floats.ofNumber n)

/-- `float(raw_options.get("alpha", 1.0))`. -/
def alphaOf (options : Options F) : Except Failure F :=
  match options.alpha? with
  | some alpha => numberFloat L alpha
  | none => toFloat L 1

/-- `math.log(x / y)`. -/
def logShare (x y : F) : Except Failure F := do
  let share ← orRaise "ZeroDivisionError" (L.floats.div x y)
  orRaise "ValueError" (L.floats.log share)

/-- `math.log((count + alpha) / denominator)`. -/
def logSmoothed (alpha denominator : F) (count : ℕ) : Except Failure F := do
  logShare L (L.floats.add (← toFloat L count) alpha) denominator

/-- `total + alpha * size`. -/
def smoothedTotal (alpha : F) (total size : ℕ) : Except Failure F := do
  return L.floats.add (← toFloat L total) (L.floats.mul alpha (← toFloat L size))

/-- The tokens of the documents with a label. -/
def labelTokens (labels : List String) (docTokens : List (List String)) (label : String) : List String :=
  ((labels.zip docTokens).filter fun entry => entry.1 = label).flatMap Prod.snd

/-- The logarithm of the prior of a class. -/
def classPrior (alpha : F) (nDocs nClasses count : ℕ) : Except Failure (Number F) := do
  let denominator ← smoothedTotal L alpha nDocs nClasses
  return .float (← logSmoothed L alpha denominator count)

/-- The logarithms of a class: the default one, and those of the terms. -/
def classLogProbs (alpha : F) (vocabulary tokens : List String) :
    Except Failure (F × List (String × Number F)) := do
  let known := tokens.filter (· ∈ vocabulary)
  let denominator ← smoothedTotal L alpha known.length (max 1 vocabulary.length)
  let default ← logShare L alpha denominator
  let probs ← vocabulary.mapM fun term =>
    ((logSmoothed L alpha denominator (known.count term)).map Number.float).map (term, ·)
  return (default, probs)

/-- `_fit_naive_bayes`. -/
def fitNaiveBayes (rows : List (SourceRow F)) (provider : Provider) (options : TextOptions F)
    (rawOptions : Options F) : Except Failure (Classifier F) :=
  let labeled := rows.filter fun row => row.label.any (· ≠ "")
  if labeled = [] then valueError "Classifier fitting requires at least one non-null label."
  else do
    let docTokens ← labeled.mapM fun row => analyze L row.text options
    let vocabulary ← selectTerms L (documentFrequencies docTokens) labeled.length options
    let alpha ← alphaOf L rawOptions
    if L.floats.cmpInt alpha 0 = some .lt ∨ L.floats.cmpInt alpha 0 = some .eq then
      valueError "ml.options.alpha must be positive for builtin.naive_bayes."
    else
      let labels := labeled.map fun row => row.label.getD ""
      let classDocCounts := counter labels
      let classes := sortedSet labels
      let classLogPrior ← classes.mapM fun label =>
        (classPrior L alpha labeled.length classes.length (countOf classDocCounts label)).map (label, ·)
      let probs ← classes.mapM fun label =>
        (classLogProbs L alpha vocabulary (labelTokens labels docTokens label)).map (label, ·)
      return ⟨provider, classes, vocabulary, vocabulary.length, rawOptions,
        classDocCounts.map fun entry => (entry.1, .int entry.2), classLogPrior,
        probs.map fun entry => (entry.1, entry.2.2),
        probs.map fun entry => (entry.1, .float entry.2.1), alpha⟩

end Fitting

/-! ### Predictions -/

/-- A row of predictions. -/
structure PredictionRow (F : Type) where
  sourceModel : String
  rowIndex : ℕ
  rowId : String
  provider : String
  prediction : String
  score : F
  probabilities : JsonText F
  label : Option String
  correct : Option Bool
  documentId : Option (Value F)
  sourcePath : Option (Value F)

section Prediction

variable {F : Type} (L : Library F)

/-- `max(entries, key=...)`: the first entry whose value no other one exceeds. -/
def maxEntry : List (String × F) → Except Failure (String × F)
  | [] => valueError "max() iterable argument is empty"
  | first :: rest => .ok (rest.foldl (fun best entry =>
      if L.floats.cmp entry.2 best.2 = some .gt then entry else best) first)

/-- `_softmax`. -/
def softmax (logScores : List (String × F)) : Except Failure (List (String × F)) := do
  let (_, maxScore) ← maxEntry L logScores
  let expScores ← logScores.mapM fun entry => do
    let x ← orRaise "OverflowError" (L.floats.exp (L.floats.sub entry.2 maxScore))
    return (entry.1, x)
  let sum := L.floats.sum (expScores.map Prod.snd)
  let total ← if L.floats.cmpInt sum 0 = some .eq then toFloat L 1 else .ok sum
  (sortedSet (expScores.map Prod.fst)).mapM fun label => do
    let x ← orRaise "KeyError" (expScores.lookup label)
    let share ← orRaise "ZeroDivisionError" (L.floats.div x total)
    return (label, share)

/-- A score with the logarithms of the terms of a text. -/
def addTerms (default : F) (termProbs : List (String × Number F)) (counts : List (String × ℕ)) (score : F) :
    Except Failure F :=
  counts.foldlM (fun score (term, count) => do
    let prob ← match termProbs.lookup term with
      | some number => numberFloat L number
      | none => .ok default
    return L.floats.add score (L.floats.mul (← toFloat L count) prob)) score

/-- The logarithmic score of a label for the terms of a text. -/
def labelScore (classifier : Classifier F) (counts : List (String × ℕ)) (label : String) :
    Except Failure F := do
  let prior ← orRaise "KeyError" (classifier.classLogPrior.lookup label)
  let score ← numberFloat L prior
  let defaultNumber ← orRaise "KeyError" (classifier.defaultLogProb.lookup label)
  let default ← numberFloat L defaultNumber
  let termProbs ← orRaise "KeyError" (classifier.featureLogProb.lookup label)
  addTerms L default termProbs counts score

/-- The prediction for one row. -/
def predictionRow (classifier : Classifier F) (options : TextOptions F) (sourceName : String)
    (row : SourceRow F) : Except Failure (PredictionRow F) := do
  let tokens ← analyze L row.text options
  let counts := counter (tokens.filter (· ∈ classifier.vocabulary))
  let logScores ← classifier.classes.mapM fun label => (labelScore L classifier counts label).map (label, ·)
  let probabilities ← softmax L logScores
  let (prediction, score) ← maxEntry L probabilities
  return ⟨sourceName, row.rowIndex, row.rowId, classifier.provider.text, prediction, score,
    (Value.object (probabilities.map fun entry => (entry.1, .float entry.2))).dumps, row.label,
    row.label.map (· = prediction), row.documentId, row.sourcePath⟩

/-- `_classifier_prediction_rows`. -/
def predictionRows (rows : List (SourceRow F)) (classifier : Classifier F) (sourceName : String) :
    Except Failure (List (PredictionRow F)) := do
  let options ← textOptions L classifier.options
  rows.mapM (predictionRow L classifier options sourceName)

/-- `_classifier_metrics`. -/
def classifierMetrics (rows : List (SourceRow F)) (predictions : List (PredictionRow F))
    (classifier : Classifier F) : Except Failure (List (String × Value F)) :=
  let metrics : List (String × Value F) := [("row_count", .int rows.length),
    ("prediction_rows", .int predictions.length), ("class_count", .int classifier.classes.length),
    ("vocabulary_size", .int classifier.vocabulary.length)]
  let labeled := predictions.filter fun row => row.correct.isSome
  if labeled.isEmpty then .ok metrics
  else do
    let accuracy ← orRaise "OverflowError"
      (L.floats.divInt (labeled.countP fun row => row.correct = some true) labeled.length)
    return metrics ++ [("accuracy", .float accuracy), ("labeled_row_count", .int labeled.length)]

theorem lookup_classCount {rows : List (SourceRow F)} {predictions : List (PredictionRow F)}
    {classifier : Classifier F} {metrics : List (String × Value F)}
    (h : classifierMetrics L rows predictions classifier = .ok metrics) :
    metrics.lookup "class_count" = some (.int classifier.classes.length) := by
  unfold classifierMetrics at h
  dsimp only at h
  split at h
  · obtain rfl := Except.ok.inj h
    rfl
  · obtain ⟨accuracy, -, h⟩ := bind_eq_ok.mp h
    obtain rfl := Except.ok.inj h
    rfl

end Prediction

/-! ### Fitted classifiers -/

section Fitted

variable {F : Type} {L : Library F}

theorem eq_of_lookup_map {α β : Type} [DecidableEq α] {items : List α} {f : α → β} {item : α} {b : β}
    (h : (items.map fun x => (x, f x)).lookup item = some b) : b = f item := by
  induction items with
  | nil => cases h
  | cons x items ih =>
    rw [List.map_cons, List.lookup_cons] at h
    by_cases hx : item = x
    · subst hx
      simpa [eq_comm] using h
    · have hne : (item == x) = false := by simpa using hx
      rw [hne] at h
      exact ih h

theorem countOf_counter_le {α : Type} [DecidableEq α] (items : List α) (item : α) :
    countOf (counter items) item ≤ items.length := by
  rw [countOf]
  cases hlookup : (counter items).lookup item with
  | none => exact Nat.zero_le _
  | some n =>
    obtain rfl : n = items.count item := eq_of_lookup_map (f := fun x => items.count x) hlookup
    exact List.count_le_length

/-- A number whose float is finite. -/
def FiniteNumber (L : Library F) (n : Number F) : Prop :=
  ∃ x, L.floats.ofNumber n = some x ∧ L.floats.isFinite x = true

/-- A smoothing that is finite, positive and not too large. -/
structure Smoothing (L : Library F) (alpha : F) : Prop where
  finite : L.floats.isFinite alpha = true
  pos : L.floats.cmpInt alpha 0 = some .gt
  le : L.floats.cmpInt alpha 1000000 ≠ some .gt

theorem Smoothing.nonNeg {alpha : F} (h : Smoothing L alpha) : L.floats.NonNeg alpha := .inl h.pos

theorem isFinite_logShare (hL : L.Lawful) {x y z : F} (hx : L.floats.isFinite x = true)
    (hpos : L.floats.NonNeg x) (hle : L.floats.Le x y) (h : logShare L x y = .ok z) :
    L.floats.isFinite z = true := by
  obtain ⟨share, hshare, h⟩ := bind_eq_ok.mp h
  have hfinite := hL.rounds.div_finite x y share hx hpos hle (orRaise_eq_ok.mp hshare)
  exact hL.rounds.log_finite share z hfinite (orRaise_eq_ok.mp h)

/-- The total is at least the smoothing. -/
theorem smoothedTotal_eq_ok (hL : L.Lawful) {alpha y : F} (halpha : Smoothing L alpha) {total size : ℕ}
    (hsize : 1 ≤ size) (h : smoothedTotal L alpha total size = .ok y) :
    L.floats.Le alpha y ∧ ∀ count ≤ total, ∀ x, L.floats.ofInt count = some x →
      L.floats.Le (L.floats.add x alpha) y := by
  obtain ⟨t, ht, h⟩ := bind_eq_ok.mp h
  obtain ⟨s, hs, h⟩ := bind_eq_ok.mp h
  obtain rfl := Except.ok.inj h
  have ht' : L.floats.ofInt total = some t := orRaise_eq_ok.mp ht
  have hs' : L.floats.ofInt size = some s := orRaise_eq_ok.mp hs
  have hmul := hL.rounds.le_mul alpha size s halpha.nonNeg (by omega) hs'
  have htpos := hL.rounds.ofInt_nonNeg total t (by omega) ht'
  refine ⟨hL.rounds.le_add t alpha _ htpos halpha.nonNeg hmul, fun count hcount x hx => ?_⟩
  have hxpos := hL.rounds.ofInt_nonNeg count x (by omega) hx
  have hxt := hL.rounds.ofInt_le count total x t (by omega) hx ht'
  exact hL.rounds.add_le_add x t alpha _ hxpos halpha.nonNeg hxt hmul

/-- A smoothed share has a finite logarithm. -/
theorem isFinite_logSmoothed (hL : L.Lawful) {alpha y z : F} (halpha : Smoothing L alpha)
    {total size count : ℕ} (hsize : 1 ≤ size) (hcount : count ≤ total)
    (hy : smoothedTotal L alpha total size = .ok y) (h : logSmoothed L alpha y count = .ok z) :
    L.floats.isFinite z = true := by
  obtain ⟨x, hx, h⟩ := bind_eq_ok.mp h
  have hx' : L.floats.ofInt count = some x := orRaise_eq_ok.mp hx
  have hxpos := hL.rounds.ofInt_nonNeg count x (by omega) hx'
  refine isFinite_logShare hL ?_ ?_ ((smoothedTotal_eq_ok hL halpha hsize hy).2 count hcount x hx') h
  · exact hL.rounds.add_finite count x alpha hx' halpha.finite halpha.nonNeg halpha.le
  · exact hL.rounds.add_nonNeg x alpha hxpos halpha.nonNeg

/-- A dictionary over some keys with finite numbers. -/
def FiniteOver (L : Library F) (keys : List String) (entries : List (String × Number F)) : Prop :=
  entries.map Prod.fst = keys ∧ ∀ entry ∈ entries, FiniteNumber L entry.2

theorem finiteNumber_float {x : F} (h : L.floats.isFinite x = true) : FiniteNumber L (.float x) := ⟨x, rfl, h⟩

theorem finiteNumber_classPrior (hL : L.Lawful) {alpha : F} (halpha : Smoothing L alpha)
    {nDocs nClasses count : ℕ} (hclasses : 1 ≤ nClasses) (hcount : count ≤ nDocs) {n : Number F}
    (h : classPrior L alpha nDocs nClasses count = .ok n) : FiniteNumber L n := by
  obtain ⟨y, hy, h⟩ := bind_eq_ok.mp h
  obtain ⟨x, hx, h⟩ := bind_eq_ok.mp h
  obtain rfl := Except.ok.inj h
  exact finiteNumber_float (isFinite_logSmoothed hL halpha hclasses hcount hy hx)

theorem classLogProbs_eq_ok (hL : L.Lawful) {alpha : F} (halpha : Smoothing L alpha)
    {vocabulary tokens : List String} {result : F × List (String × Number F)}
    (h : classLogProbs L alpha vocabulary tokens = .ok result) :
    FiniteNumber L (.float result.1) ∧ FiniteOver L vocabulary result.2 := by
  obtain ⟨y, hy, h⟩ := bind_eq_ok.mp h
  obtain ⟨default, hdefault, h⟩ := bind_eq_ok.mp h
  obtain ⟨probs, hprobs, h⟩ := bind_eq_ok.mp h
  obtain rfl := Except.ok.inj h
  have hsize : 1 ≤ max 1 vocabulary.length := le_max_left _ _
  have hle := (smoothedTotal_eq_ok hL halpha hsize hy).1
  obtain ⟨hkeys, hvalues⟩ := mapM_pairs_eq_ok hprobs
  refine ⟨finiteNumber_float (isFinite_logShare hL halpha.finite halpha.nonNeg hle hdefault), hkeys,
    fun entry hentry => ?_⟩
  cases hx : logSmoothed L alpha y ((tokens.filter (· ∈ vocabulary)).count entry.1) with
  | error e =>
    have hvalue := hvalues entry hentry
    rw [hx] at hvalue
    cases hvalue
  | ok x =>
    have hvalue := hvalues entry hentry
    rw [hx] at hvalue
    rw [← Except.ok.inj hvalue]
    exact finiteNumber_float (isFinite_logSmoothed hL halpha hsize List.count_le_length hy hx)

/-- What a fitted classifier holds. -/
structure Classifier.Fitted (L : Library F) (provider : Provider) (rawOptions : Options F)
    (c : Classifier F) : Prop where
  provider_eq : c.provider = provider
  options_eq : c.options = rawOptions
  alpha : alphaOf L rawOptions = .ok c.alpha
  classes_ne : c.classes ≠ []
  classes : c.classes.Nodup
  vocabulary : c.vocabulary.Nodup
  nFeatures : c.nFeatures = c.vocabulary.length
  docCountKeys : (c.classDocCounts.map Prod.fst).Perm c.classes
  docCounts : ∀ entry ∈ c.classDocCounts, FiniteNumber L entry.2
  classLogPrior : FiniteOver L c.classes c.classLogPrior
  defaultLogProb : FiniteOver L c.classes c.defaultLogProb
  featureKeys : c.featureLogProb.map Prod.fst = c.classes
  featureLogProb : ∀ entry ∈ c.featureLogProb, FiniteOver L c.vocabulary entry.2

theorem countOf_of_mem {counts : List (String × ℕ)} (hnodup : (counts.map Prod.fst).Nodup)
    {entry : String × ℕ} (h : entry ∈ counts) : countOf counts entry.1 = entry.2 := by
  rw [countOf, (mem_iff_lookup hnodup).mp h]
  rfl

/-- A count that was smoothed has a float. -/
theorem finiteNumber_count (hL : L.Lawful) {alpha : F} {nDocs nClasses count : ℕ} {n : Number F}
    (h : classPrior L alpha nDocs nClasses count = .ok n) : FiniteNumber L (.int count) := by
  obtain ⟨y, -, h⟩ := bind_eq_ok.mp h
  obtain ⟨z, hz, -⟩ := bind_eq_ok.mp h
  obtain ⟨x, hx, -⟩ := bind_eq_ok.mp hz
  have hx' : L.floats.ofInt count = some x := orRaise_eq_ok.mp hx
  exact ⟨x, hx', hL.rounds.ofInt_finite count x hx'⟩

/-- What `_fit_naive_bayes` returns is fitted. -/
theorem fitNaiveBayes_eq_ok (hL : L.Lawful) {rows : List (SourceRow F)} {provider : Provider}
    {options : TextOptions F} {rawOptions : Options F} {c : Classifier F}
    (hsmoothing : ∀ alpha, alphaOf L rawOptions = .ok alpha → Smoothing L alpha)
    (h : fitNaiveBayes L rows provider options rawOptions = .ok c) : c.Fitted L provider rawOptions := by
  unfold fitNaiveBayes at h
  dsimp only at h
  generalize rows.filter (fun row => row.label.any (· ≠ "")) = labeled at h
  split at h
  · cases h
  rename_i hlabeled
  obtain ⟨docTokens, -, h⟩ := bind_eq_ok.mp h
  obtain ⟨vocabulary, hvocabulary, h⟩ := bind_eq_ok.mp h
  obtain ⟨alpha, halpha, h⟩ := bind_eq_ok.mp h
  split at h
  · cases h
  obtain ⟨priors, hpriors, h⟩ := bind_eq_ok.mp h
  obtain ⟨probs, hprobs, h⟩ := bind_eq_ok.mp h
  obtain rfl := Except.ok.inj h
  generalize hlabels : (labeled.map fun row => row.label.getD "") = labels at hpriors hprobs ⊢
  have hlength : labels.length = labeled.length := by rw [← hlabels, List.length_map]
  have hne : labels ≠ [] := fun hnil => hlabeled (List.map_eq_nil_iff.mp (hlabels.trans hnil))
  have hclassesNe : sortedSet labels ≠ [] := fun hnil => hne (sortedSet_eq_nil.mp hnil)
  have hclasses : 1 ≤ (sortedSet labels).length := List.length_pos_iff.mpr hclassesNe
  obtain ⟨hpriorKeys, hpriorValues⟩ := mapM_pairs_eq_ok hpriors
  obtain ⟨hprobKeys, hprobValues⟩ := mapM_pairs_eq_ok hprobs
  have hsmooth := hsmoothing alpha halpha
  have hcounts : (counter labels).map Prod.fst = labels.reverse.dedup.reverse := keys_counter labels
  refine
    { provider_eq := rfl
      options_eq := rfl
      alpha := halpha
      classes_ne := hclassesNe
      classes := nodup_sortedSet
      vocabulary := nodup_selectTerms (nodup_keys_counter _) hvocabulary
      nFeatures := rfl
      docCountKeys := ?_
      docCounts := ?_
      classLogPrior := ⟨hpriorKeys, ?_⟩
      defaultLogProb := ⟨?_, ?_⟩
      featureKeys := ?_
      featureLogProb := ?_ }
  · have hkeys : ((counter labels).map fun entry => (entry.1, Number.int (F := F) entry.2)).map Prod.fst =
        labels.reverse.dedup.reverse := by
      rw [List.map_map]
      exact hcounts
    rw [hkeys]
    have hnodup : labels.reverse.dedup.reverse.Nodup := hcounts ▸ nodup_keys_counter labels
    refine (List.perm_ext_iff_of_nodup hnodup nodup_sortedSet).mpr fun label => ?_
    rw [List.mem_reverse, List.mem_dedup, List.mem_reverse, mem_sortedSet]
  · intro entry hentry
    obtain ⟨count, hcount, rfl⟩ := List.mem_map.mp hentry
    have hlabel : count.1 ∈ priors.map Prod.fst := by
      have hmem : count.1 ∈ (counter labels).map Prod.fst := List.mem_map_of_mem hcount
      rw [hcounts, List.mem_reverse, List.mem_dedup, List.mem_reverse] at hmem
      rw [hpriorKeys]
      exact mem_sortedSet.mpr hmem
    obtain ⟨prior, hprior, hname⟩ := List.mem_map.mp hlabel
    have hvalue := hpriorValues prior hprior
    rw [hname, countOf_of_mem (nodup_keys_counter labels) hcount] at hvalue
    exact finiteNumber_count hL hvalue
  · intro entry hentry
    have hle := hlength ▸ countOf_counter_le labels entry.1
    exact finiteNumber_classPrior hL hsmooth hclasses hle (hpriorValues entry hentry)
  · rw [List.map_map]
    exact hprobKeys
  · intro entry hentry
    obtain ⟨prob, hprob, rfl⟩ := List.mem_map.mp hentry
    exact (classLogProbs_eq_ok hL hsmooth (hprobValues prob hprob)).1
  · rw [List.map_map]
    exact hprobKeys
  · intro entry hentry
    obtain ⟨prob, hprob, rfl⟩ := List.mem_map.mp hentry
    exact (classLogProbs_eq_ok hL hsmooth (hprobValues prob hprob)).2

/-- The smoothing of accepted options. -/
theorem smoothing_of_accepted (hL : L.Lawful) {members : List (String × Value F)} {o : Options F}
    (h : readOptions L members .naiveBayes = some o) {alpha : F} (halpha : alphaOf L o = .ok alpha) :
    Smoothing L alpha := by
  obtain ⟨⟨v, number, rfl, hread⟩, -⟩ := readOptions_naiveBayes hL h
  have hnumber : L.floats.ofNumber number = some alpha := orRaise_eq_ok.mp halpha
  cases number with
  | int n =>
    obtain ⟨⟨hpos, hle⟩, -⟩ := Option.ite_none_right_eq_some.mp hread
    have hcmp : ∀ m, L.floats.cmpInt alpha m = some (compare n m) := fun m =>
      hL.rounds.cmpInt_ofInt n m alpha hpos.le (hle.trans (by decide)) hnumber
    refine ⟨hL.rounds.ofInt_finite n alpha hnumber, ?_, ?_⟩
    · rw [hcmp, compare_gt_iff_gt.mpr hpos]
    · rw [hcmp, ne_eq, Option.some.injEq, compare_gt_iff_gt]
      exact not_lt.mpr hle
  | float x =>
    obtain ⟨⟨hfinite, hpos, hle⟩, -⟩ := Option.ite_none_right_eq_some.mp hread
    obtain rfl : x = alpha := Option.some.inj hnumber
    exact ⟨hfinite, hpos, hle⟩

/-! ### Scores -/

variable {c c' : Classifier F}

/-- Two dictionaries of a class with the same members, or no dictionary. -/
def SameProbs (d d' : Option (List (String × Number F))) : Prop :=
  Option.Rel (fun probs probs' => ∀ term, probs.lookup term = probs'.lookup term) d d'

theorem labelScore_congr (hprior : ∀ label, c.classLogPrior.lookup label = c'.classLogPrior.lookup label)
    (hdefault : ∀ label, c.defaultLogProb.lookup label = c'.defaultLogProb.lookup label)
    (hprobs : ∀ label, SameProbs (c.featureLogProb.lookup label) (c'.featureLogProb.lookup label)) :
    labelScore L c = labelScore L c' := by
  funext counts label
  have hsame := hprobs label
  unfold labelScore
  rw [hprior, hdefault]
  generalize c.featureLogProb.lookup label = d at hsame ⊢
  generalize c'.featureLogProb.lookup label = d' at hsame ⊢
  refine bind_congr fun prior => bind_congr fun score => bind_congr fun number => bind_congr fun default => ?_
  cases hsame with
  | none => rfl
  | @some probs probs' hterms =>
    have hadd : addTerms L default probs counts score = addTerms L default probs' counts score := by
      simp only [addTerms, hterms]
    exact hadd

/-- The order of the members of the dictionaries does not matter for the rows. -/
theorem predictionRows_congr (hprovider : c.provider = c'.provider) (hclasses : c.classes = c'.classes)
    (hvocabulary : c.vocabulary = c'.vocabulary) (hoptions : c.options = c'.options)
    (hscore : labelScore L c = labelScore L c') (rows : List (SourceRow F)) (sourceName : String) :
    predictionRows L rows c sourceName = predictionRows L rows c' sourceName := by
  have hrow : predictionRow L c = predictionRow L c' := by
    funext options sourceName row
    simp only [predictionRow, hprovider, hclasses, hvocabulary, hscore]
  simp only [predictionRows, hoptions, hrow]

end Fitted

end Stel.Ml
