import Stel.Data.SortedSet
import Stel.Failure
import Stel.Ml.Options
import Mathlib.Algebra.Ring.Int.Defs

/-!
# Text features

The analyzers and vectorizers of `classic_ml/text.py`: tokens and n-grams, the selection of a vocabulary, and
the feature rows of documents.

## Main definitions

* `TextOptions`, `textOptions`: the options of an analyzer.
* `analyze`: the terms of a text.
* `Vectorizer`, `fitVectorizer`, `featureRows`.

## Main results

* `fitVectorizer_eq_ok`: what a fitted vectorizer holds.
* `scoreFeatures_congr`: the order of the idf values does not matter for the rows.
-/

namespace Stel.Ml

/-- `raise ValueError(message)`. -/
def valueError {α : Type} (message : String) : Except Failure α := .error (.other message)

/-- The result of an operation that may raise. -/
def orRaise {α : Type} (exception : String) : Option α → Except Failure α
  | some a => .ok a
  | none => .error (.other exception)

theorem orRaise_eq_ok {α : Type} {exception : String} {x : Option α} {a : α} :
    orRaise exception x = .ok a ↔ x = some a := by
  cases x <;> simp [orRaise]

/-- A row of the source, with the texts that were made of its cells. -/
structure SourceRow (F : Type) where
  rowIndex : ℕ
  rowId : String
  text : String
  label : Option String
  documentId : Option (Value F)
  sourcePath : Option (Value F)

/-! ### Analyzers -/

/-- `_ENGLISH_STOP_WORDS`. -/
def englishStopWords : List String :=
  ["a", "an", "and", "are", "as", "at", "be", "but", "by", "for", "from", "has", "in", "is", "it", "of", "on",
    "or", "that", "the", "to", "was", "were", "will", "with"]

/-- `TextOptions`. -/
structure TextOptions (F : Type) where
  analyzer : Analyzer
  lowercase : Bool
  tokenPattern : String
  ngramRange : ℕ × ℕ
  stopWords : List String
  minDf : Number F
  maxDf : Option (Number F)
  maxFeatures : Option ℕ
  binary : Bool
  nFeatures : ℕ
  alternateSign : Bool

/-- The analyzer options among the options of a provider. -/
def Options.analyzerOptions {F : Type} : Options F → AnalyzerOptions
  | .vocabulary o _ | .naiveBayes o _ => o.toAnalyzerOptions
  | .hashing o _ _ => o
  | .matrix _ => ⟨.word, true, "\\w+", (1, 1), .absent⟩

section Analysis

variable {F : Type} (L : Library F)

/-- `_stop_words`. -/
def stopWordSet : StopWords → List String
  | .absent => []
  | .english => englishStopWords
  | .terms terms => terms.map L.lower

/-- `_text_options`. -/
def textOptions (options : Options F) : Except Failure (TextOptions F) :=
  let o := options.analyzerOptions
  if o.ngramRange.1 = 0 ∨ o.ngramRange.2 < o.ngramRange.1 then
    valueError "ml.options.ngram_range must be positive and ordered."
  else
    let base : TextOptions F := ⟨o.analyzer, o.lowercase, o.tokenPattern, o.ngramRange,
      stopWordSet L o.stopWords, .int 1, none, none, false, 2 ^ 20, true⟩
    .ok (match options with
      | .vocabulary v binary =>
        { base with minDf := v.minDf, maxDf := v.maxDf, maxFeatures := v.maxFeatures, binary := binary }
      | .naiveBayes v _ => { base with minDf := v.minDf, maxDf := v.maxDf, maxFeatures := v.maxFeatures }
      | .hashing _ nFeatures alternateSign =>
        { base with nFeatures := nFeatures, alternateSign := alternateSign }
      | .matrix _ => base)

/-- The runs of items whose lengths are in a range, the shorter ones first. -/
def windows {α : Type} (range : ℕ × ℕ) (items : List α) : List (List α) :=
  (List.range' range.1 (range.2 + 1 - range.1)).flatMap fun n =>
    if items.length < n then [] else
      (List.range (items.length - n + 1)).map fun i => (items.drop i).take n

/-- `_token_ngrams`. -/
def tokenNgrams (tokens : List String) (range : ℕ × ℕ) : List String :=
  (windows range tokens).map (" ".intercalate)

/-- `_char_ngrams`. -/
def charNgrams (text : String) (range : ℕ × ℕ) : List String := (windows range text.toList).map String.ofList

/-- `_char_wb_ngrams`. -/
def charWbNgrams (text : String) (range : ℕ × ℕ) : List String :=
  (Text.splitWords text).flatMap fun token => charNgrams (" " ++ token ++ " ") range

/-- `_analyze`. -/
def analyze (text : String) (options : TextOptions F) : Except Failure (List String) :=
  let text := if options.lowercase then L.lower text else text
  match options.analyzer with
  | .word => do
    let pattern ← orRaise "re.error" (L.compile options.tokenPattern)
    let found := pattern.finditer text
    if found.any fun m => m.start = m.stop then
      valueError "ml.options.token_pattern produced an empty match"
    else
      let tokens := found.map fun m => if pattern.groups = 1 then m.group else some m.text
      if tokens.any fun token => token.all (· = "") then
        valueError "ml.options.token_pattern produced an empty token"
      else
        return tokenNgrams ((tokens.filterMap id).filter (· ∉ options.stopWords)) options.ngramRange
  | .charWb => .ok (charWbNgrams text options.ngramRange)
  | .char => .ok (charNgrams text options.ngramRange)

end Analysis

/-! ### Vocabularies -/

/-- `Counter(items)`: the items in the order in which they come first. -/
def counter {α : Type} [DecidableEq α] (items : List α) : List (α × ℕ) :=
  items.reverse.dedup.reverse.map fun item => (item, items.count item)

/-- `counts[item]`. -/
def countOf {α : Type} [DecidableEq α] (counts : List (α × ℕ)) (item : α) : ℕ := (counts.lookup item).getD 0

/-- `Counter` of the terms of each document, each counted once. -/
def documentFrequencies (docTokens : List (List String)) : List (String × ℕ) :=
  counter (docTokens.flatMap List.dedup)

section Fitting

variable {F : Type} (L : Library F)

/-- `_df_threshold`. -/
def dfThreshold (value : Option (Number F)) (nDocs default : ℕ) (ceiling : Bool) : Except Failure ℤ :=
  match value with
  | none => .ok default
  | some (.int n) => .ok n
  | some (.float x) =>
    if L.floats.cmpInt x 0 = some .gt ∧ L.floats.cmpInt x 1 ≠ some .gt then do
      let scaled := L.floats.mul x (← orRaise "OverflowError" (L.floats.ofInt nDocs))
      orRaise "OverflowError" (if ceiling then L.floats.ceil scaled else L.floats.floor scaled)
    else orRaise "OverflowError" (L.floats.trunc x)

/-- `_select_terms`. -/
def selectTerms (docFreq : List (String × ℕ)) (nDocs : ℕ) (options : TextOptions F) :
    Except Failure (List String) :=
  if nDocs = 0 then .ok []
  else do
    let minCount ← dfThreshold L (some options.minDf) nDocs 1 true
    let maxCount ← dfThreshold L options.maxDf nDocs nDocs false
    let terms := (docFreq.filter fun entry => minCount ≤ entry.2 ∧ (entry.2 : ℤ) ≤ maxCount).map Prod.fst
    let byCount := terms.insertionSort fun s t =>
      countOf docFreq t < countOf docFreq s ∨ (countOf docFreq s = countOf docFreq t ∧ s ≤ t)
    let kept := match options.maxFeatures with
      | some n => byCount.take n
      | none => byCount
    return kept.insertionSort (· ≤ ·)

/-- A fitted vectorizer. -/
structure Vectorizer (F : Type) where
  provider : Provider
  vocabulary : List String
  idf : List (String × F)
  nFeatures : ℕ
  options : Options F

/-- The idf of a term. -/
def idfOf (nDocs docFreq : ℕ) : Except Failure F := do
  let ratio ← orRaise "OverflowError" (L.floats.divInt (1 + nDocs) (1 + docFreq))
  let log ← orRaise "ValueError" (L.floats.log ratio)
  let one ← orRaise "OverflowError" (L.floats.ofInt 1)
  return L.floats.add log one

/-- `idf_by_term`. -/
def idfByTerm (provider : Provider) (nDocs : ℕ) (docFreq : List (String × ℕ)) (terms : List String) :
    Except Failure (List (String × F)) :=
  if provider = .tfidf then terms.mapM fun term => (idfOf L nDocs (countOf docFreq term)).map (term, ·)
  else .ok []

/-- `_fit_hashing_vectorizer`. -/
def fitHashingVectorizer (provider : Provider) (options : TextOptions F) (providerOptions : Options F) :
    Except Failure (Vectorizer F) :=
  if options.nFeatures = 0 then
    valueError "ml.options.n_features must be positive for builtin.hashing."
  else .ok ⟨provider, [], [], options.nFeatures, providerOptions⟩

/-- `_fit_vectorizer`. -/
def fitVectorizer (rows : List (SourceRow F)) (provider : Provider) (options : TextOptions F)
    (providerOptions : Options F) : Except Failure (Vectorizer F) :=
  if provider = .hashing then fitHashingVectorizer provider options providerOptions
  else do
    let docTokens ← rows.mapM fun row => analyze L row.text options
    let docFreq := documentFrequencies docTokens
    let terms ← selectTerms L docFreq rows.length options
    let idf ← idfByTerm L provider (max 1 rows.length) docFreq terms
    return ⟨provider, terms, idf, terms.length, providerOptions⟩

end Fitting

/-! ### Feature rows -/

/-- A row of features. -/
structure FeatureRow (F : Type) where
  sourceModel : String
  rowIndex : ℕ
  rowId : String
  provider : String
  term : String
  termIndex : ℕ
  count : ℕ
  tf : Option F
  idf : Option F
  tfidf : Option F
  value : F
  hashBucket : Option ℕ
  documentId : Option (Value F)
  sourcePath : Option (Value F)

section Rows

variable {F : Type} (L : Library F)

/-- `_base_feature_row`. -/
def baseFeatureRow (row : SourceRow F) (sourceName : String) (provider : Provider) (featureName : String)
    (termIndex count : ℕ) (tf idf : Option F) (value : F) (hashBucket : Option ℕ) : FeatureRow F :=
  ⟨sourceName, row.rowIndex, row.rowId, provider.text, featureName, termIndex, count, tf, idf,
    if provider = .tfidf then some value else none, value, hashBucket, row.documentId, row.sourcePath⟩

/-- `options["binary"]`. -/
def Options.binary? : Options F → Option Bool
  | .vocabulary _ binary => some binary
  | _ => none

/-- `options["alternate_sign"]`. -/
def Options.alternateSign? : Options F → Option Bool
  | .hashing _ _ alternateSign => some alternateSign
  | _ => none

/-- The bucket of a token and its sign, for `n` buckets. -/
def bucketOf (n : ℕ) (alternateSign : Bool) (token : String) : ℕ × ℤ :=
  let digest := L.digest token
  let hashed := (digest.take 8).foldl (fun acc byte => 256 * acc + byte.val) 0
  let odd := (digest.getD 8 0).val % 2 = 1
  (hashed % n, if alternateSign ∧ odd then -1 else 1)

/-- The rows of one document in `_hashed_feature_rows`. -/
def hashedRowsOf (vectorizer : Vectorizer F) (sourceName : String) (row : SourceRow F)
    (tokens : List String) : Except Failure (List (FeatureRow F)) := do
  let signed ← tokens.mapM fun token => do
    let alternateSign ← orRaise "KeyError" vectorizer.options.alternateSign?
    return bucketOf L vectorizer.nFeatures alternateSign token
  (sortedSet (signed.map Prod.fst)).mapM fun bucket => do
    let total := ((signed.filter fun entry => entry.1 = bucket).map Prod.snd).sum
    let value ← orRaise "OverflowError" (L.floats.ofInt total)
    return baseFeatureRow row sourceName vectorizer.provider s!"hash_{bucket}" bucket total.natAbs none none
      value (some bucket)

/-- The rows of one document in `_feature_rows`. -/
def vocabularyRowsOf (vectorizer : Vectorizer F) (sourceName : String) (row : SourceRow F)
    (tokens : List String) : Except Failure (List (FeatureRow F)) := do
  let counts := counter (tokens.filter (· ∈ vectorizer.vocabulary))
  let binary ← orRaise "KeyError" vectorizer.options.binary?
  let sum := if binary then counts.length else (counts.map Prod.snd).sum
  let total := if sum = 0 then 1 else sum
  ((counts.map Prod.fst).insertionSort (· ≤ ·)).mapM fun term => do
    let count := if binary then 1 else countOf counts term
    let tf ← orRaise "OverflowError" (L.floats.divInt count total)
    let idf := vectorizer.idf.lookup term
    let value ← match idf with
      | some idf => .ok (L.floats.mul tf idf)
      | none => orRaise "OverflowError" (L.floats.ofInt count)
    return baseFeatureRow row sourceName vectorizer.provider term (vectorizer.vocabulary.idxOf term) count
      (some tf) idf value none

/-- `_feature_rows`. -/
def featureRows (rows : List (SourceRow F)) (docTokens : List (List String)) (vectorizer : Vectorizer F)
    (sourceName : String) : Except Failure (List (FeatureRow F)) :=
  if rows.length ≠ docTokens.length then valueError "zip() arguments have different lengths"
  else do
    let features ← (rows.zip docTokens).mapM fun (row, tokens) =>
      if vectorizer.provider = .hashing then hashedRowsOf L vectorizer sourceName row tokens
      else vocabularyRowsOf L vectorizer sourceName row tokens
    return features.flatten

/-- What `_run_features` does with a vectorizer: the texts are analyzed with its options. -/
def scoreFeatures (rows : List (SourceRow F)) (vectorizer : Vectorizer F) (sourceName : String) :
    Except Failure (List (FeatureRow F)) := do
  let options ← textOptions L vectorizer.options
  let docTokens ← rows.mapM fun row => analyze L row.text options
  featureRows L rows docTokens vectorizer sourceName

end Rows

/-! ### Fitted vectorizers -/

section Fitted

variable {F : Type} {L : Library F}

/-- A dictionary over some keys has these keys, and for each of them what was computed. -/
theorem mapM_pairs_eq_ok {κ β : Type} {f : κ → Except Failure β} {keys : List κ} {entries : List (κ × β)}
    (h : keys.mapM (fun key => (f key).map (key, ·)) = .ok entries) :
    entries.map Prod.fst = keys ∧ ∀ entry ∈ entries, f entry.1 = .ok entry.2 := by
  have hentries := mapM_eq_ok.mp h
  clear h
  induction hentries with
  | nil => exact ⟨rfl, fun _ h => absurd h List.not_mem_nil⟩
  | @cons key entry keys entries hentry hrest ih =>
    cases hvalue : f key with
    | error e =>
      rw [hvalue] at hentry
      cases hentry
    | ok b =>
      rw [hvalue] at hentry
      obtain rfl := Except.ok.inj hentry
      exact ⟨congrArg (key :: ·) ih.1, List.forall_mem_cons.mpr ⟨hvalue, ih.2⟩⟩

theorem keys_counter {α : Type} [DecidableEq α] (items : List α) :
    (counter items).map Prod.fst = items.reverse.dedup.reverse := by
  rw [counter, List.map_map]
  exact List.map_id _

theorem nodup_keys_counter {α : Type} [DecidableEq α] (items : List α) :
    ((counter items).map Prod.fst).Nodup := by
  rw [keys_counter]
  exact List.nodup_reverse.mpr (List.nodup_dedup _)

/-- The terms of a vocabulary are different. -/
theorem nodup_selectTerms {docFreq : List (String × ℕ)} (hnodup : (docFreq.map Prod.fst).Nodup) {nDocs : ℕ}
    {options : TextOptions F} {terms : List String} (h : selectTerms L docFreq nDocs options = .ok terms) :
    terms.Nodup := by
  unfold selectTerms at h
  split at h
  · obtain rfl := Except.ok.inj h
    exact List.nodup_nil
  · obtain ⟨minCount, -, h⟩ := bind_eq_ok.mp h
    obtain ⟨maxCount, -, h⟩ := bind_eq_ok.mp h
    obtain rfl := Except.ok.inj h
    refine (List.perm_insertionSort _ _).nodup_iff.mpr ?_
    have hfilter : ((docFreq.filter fun entry => minCount ≤ entry.2 ∧ (entry.2 : ℤ) ≤ maxCount).map
        Prod.fst).Nodup := (List.filter_sublist.map Prod.fst).nodup hnodup
    have hsorted := (List.perm_insertionSort (fun s t => countOf docFreq t < countOf docFreq s ∨
      (countOf docFreq s = countOf docFreq t ∧ s ≤ t)) _).nodup_iff.mpr hfilter
    split
    · exact (List.take_sublist _ _).nodup hsorted
    · exact hsorted

/-- An idf is finite. -/
theorem isFinite_idfOf (hL : L.Lawful) {nDocs docFreq : ℕ} {x : F} (h : idfOf L nDocs docFreq = .ok x) :
    L.floats.isFinite x = true := by
  obtain ⟨ratio, hratio, h⟩ := bind_eq_ok.mp h
  obtain ⟨log, hlog, h⟩ := bind_eq_ok.mp h
  obtain ⟨one, hone, h⟩ := bind_eq_ok.mp h
  obtain rfl := Except.ok.inj h
  have hfinite := hL.rounds.divInt_finite _ _ _ (orRaise_eq_ok.mp hratio)
  exact hL.rounds.log_add_finite _ _ _ _ hfinite (orRaise_eq_ok.mp hlog) (orRaise_eq_ok.mp hone)

/-- The idf values of a vocabulary. -/
theorem idfByTerm_eq_ok (hL : L.Lawful) {provider : Provider} {nDocs : ℕ} {docFreq : List (String × ℕ)}
    {terms : List String} {idf : List (String × F)} (h : idfByTerm L provider nDocs docFreq terms = .ok idf) :
    idf.map Prod.fst = (if provider = .tfidf then terms else []) ∧
      ∀ entry ∈ idf, L.floats.isFinite entry.2 = true := by
  unfold idfByTerm at h
  split at h
  · rename_i htfidf
    rw [if_pos htfidf]
    obtain ⟨hkeys, hvalues⟩ := mapM_pairs_eq_ok h
    exact ⟨hkeys, fun entry hentry => isFinite_idfOf hL (hvalues entry hentry)⟩
  · rename_i htfidf
    obtain rfl := Except.ok.inj h
    exact ⟨(if_neg htfidf).symm, fun _ h => absurd h List.not_mem_nil⟩

/-- What a fitted vectorizer holds. -/
structure Vectorizer.Fitted (L : Library F) (provider : Provider) (options : TextOptions F)
    (providerOptions : Options F) (v : Vectorizer F) : Prop where
  provider_eq : v.provider = provider
  options_eq : v.options = providerOptions
  nodup : v.vocabulary.Nodup
  hashing : provider = .hashing → v.vocabulary = [] ∧ v.idf = [] ∧ v.nFeatures = options.nFeatures
  nFeatures : provider ≠ .hashing → v.nFeatures = v.vocabulary.length
  idf : v.idf.map Prod.fst = if provider = .tfidf then v.vocabulary else []
  finite : ∀ entry ∈ v.idf, L.floats.isFinite entry.2 = true

/-- What `_fit_vectorizer` returns is fitted. -/
theorem fitVectorizer_eq_ok (hL : L.Lawful) {rows : List (SourceRow F)} {provider : Provider}
    {options : TextOptions F} {providerOptions : Options F} {v : Vectorizer F}
    (h : fitVectorizer L rows provider options providerOptions = .ok v) :
    v.Fitted L provider options providerOptions := by
  unfold fitVectorizer at h
  split at h
  · rename_i hhashing
    unfold fitHashingVectorizer at h
    split at h
    · cases h
    · obtain rfl := Except.ok.inj h
      have hne : provider ≠ .tfidf := by rw [hhashing]; decide
      exact ⟨rfl, rfl, List.nodup_nil, fun _ => ⟨rfl, rfl, rfl⟩, fun hne => absurd hhashing hne,
        (if_neg hne).symm, fun _ h => absurd h List.not_mem_nil⟩
  · rename_i hhashing
    obtain ⟨docTokens, -, h⟩ := bind_eq_ok.mp h
    obtain ⟨terms, hterms, h⟩ := bind_eq_ok.mp h
    obtain ⟨idf, hidf, h⟩ := bind_eq_ok.mp h
    obtain rfl := Except.ok.inj h
    have hnodup : terms.Nodup := nodup_selectTerms (nodup_keys_counter _) hterms
    obtain ⟨hkeys, hfinite⟩ := idfByTerm_eq_ok hL hidf
    exact ⟨rfl, rfl, hnodup, fun heq => absurd heq hhashing, fun _ => rfl, hkeys, hfinite⟩

/-- The order of the idf values does not matter for the rows. -/
theorem scoreFeatures_congr {v : Vectorizer F} {idf : List (String × F)}
    (h : ∀ term, v.idf.lookup term = idf.lookup term) (rows : List (SourceRow F)) (sourceName : String) :
    scoreFeatures L rows { v with idf := idf } sourceName = scoreFeatures L rows v sourceName := by
  have hrows : vocabularyRowsOf L { v with idf := idf } = vocabularyRowsOf L v := by
    funext sourceName row tokens
    simp only [vocabularyRowsOf, h]
  simp only [scoreFeatures, featureRows, hrows]
  rfl

end Fitted

end Stel.Ml
