import Stel.Data.JsonValue
import Stel.Search.RetrievalMetrics

/-!
# Golden-set retrieval evaluation

`retrieval_eval.py`: the cells of a golden row, the evaluation of a row against the ranked ids of its
search, and the result of a test. What precedes a search comes with its answer, and the metadata of
a result (duration, identities, hash) is left out.

## Main definitions

* `Cell`, `parseJson`, `parseIds`: the cells of a row and their ids.
* `scoreRow`, `runOne`: the evaluation of a row and of a test.
* `RetrievalTestResult.status`: the verdict.
* `LeakFails`: malformed lists of ids are rejected, and a leaked id fails the test.

## Main results

* `parseIds_of_rejected`, `parseIds_of_taken`: what the parser does with a cell.
* `leak_fails_iff`: the cells for which no leak can pass.
-/

namespace Stel.RetrievalEval

/-! ### Cells -/

/-- A value of a row: null, the values of JSON, bytes, or any other value, which is no iterable. A
float is the text of its `repr`. -/
inductive Cell
  | null
  | bool (b : Bool)
  | int (n : ℤ)
  | float (digits : String)
  | text (s : String)
  | list (items : List JsonValue)
  | struct (members : List (String × JsonValue))
  | bytes (b : List UInt8)
  | other (truthy : Bool)

namespace Cell

/-- A value of `json.loads`. -/
def ofJson : JsonValue → Cell
  | .null => .null
  | .bool b => .bool b
  | .int n => .int n
  | .float digits => .float digits
  | .string s => .text s
  | .array items => .list items
  | .object members => .struct members

/-- `bool(value)`. -/
def truthy : Cell → Bool
  | .null => false
  | .bool b => b
  | .int n => n ≠ 0
  | .float digits => digits ∉ ["0.0", "-0.0"]
  | .text s => s ≠ ""
  | .list items => !items.isEmpty
  | .struct members => !members.isEmpty
  | .bytes b => !b.isEmpty
  | .other truthy => truthy

end Cell

/-- An exception of a call: of a class that the caller catches, with its text, or any other one. -/
inductive CallError
  | caught (message : String)
  | uncaught (e : Failure)
  deriving DecidableEq, Repr

/-- An exception of an evaluation: a `RetrievalEvalError` with its text, or any other one. -/
inductive EvalFailure
  | evalError (message : String)
  | raised (e : Failure)
  deriving DecidableEq, Repr

/-- What the evaluation uses of the standard library: `json.loads`, whose `JSONDecodeError` is
caught, `str` of a list or a dict, `float`, whose `TypeError` and `ValueError` are caught, and
`math.log2`. -/
structure EvalEnv where
  loads : String → Except CallError JsonValue
  display : JsonValue → String
  toFloat : JsonValue → Except CallError ℚ
  log2 : ℕ → ℚ

variable (env : EvalEnv)

/-- `_parse_json`. -/
def parseJson (context : String) : Cell → Except EvalFailure Cell
  | .text s =>
    match env.loads s with
    | .ok value => .ok (.ofJson value)
    | .error (.caught message) => .error (.evalError (context ++ " is not valid JSON: " ++ message))
    | .error (.uncaught e) => .error (.raised e)
  | value => .ok value

/-- `str(item)`. -/
def str : JsonValue → String
  | .null => "None"
  | .bool b => if b then "True" else "False"
  | .int n => toString n
  | .float digits =>
    if digits = "NaN" then "nan" else if digits = "Infinity" then "inf"
    else if digits = "-Infinity" then "-inf" else digits
  | .string s => s
  | value => env.display value

/-- `[str(item) for item in value]`, if the value is iterable. -/
def strItems : Cell → Option (List String)
  | .text s => some (s.toList.map String.singleton)
  | .list items => some (items.map (str env))
  | .struct members => some (members.map Prod.fst)
  | .bytes b => some (b.map fun byte => toString byte.toNat)
  | _ => none

/-- `_parse_ids`. -/
def parseIds (context : String) (value : Cell) : Except EvalFailure (List String) := do
  let parsed ← parseJson env context value
  if parsed.truthy = false then return []
  match strItems env parsed with
  | some ids => return ids
  | none => .error (.evalError (context ++ " must be a JSON array"))

/-- `float(v)` in `_parse_graded_relevance`. -/
def parseGrade (context : String) (entry : String × JsonValue) :
    Except EvalFailure (String × ℚ) :=
  match env.toFloat entry.2 with
  | .ok grade => .ok (entry.1, grade)
  | .error (.caught _) =>
    .error (.evalError (context ++ " must be a JSON object mapping id to a numeric grade"))
  | .error (.uncaught e) => .error (.raised e)

/-- `_parse_graded_relevance`. -/
def parseGradedRelevance (context : String) (value : Cell) :
    Except EvalFailure (Option (List (String × ℚ))) := do
  let parsed ← parseJson env context value
  if parsed.truthy = false then return none
  match parsed with
  | .struct members => return some (← members.mapM (parseGrade env context))
  | _ => .error (.evalError (context ++ " must be a JSON object mapping id to a numeric grade"))

/-! ### Rows -/

/-- The columns of a golden row that the evaluation of its answer reads. -/
structure GoldenRow where
  queryId : Cell
  requiredIds : Cell
  excludedIds : Cell
  relevantIds : Cell
  gradedRelevance : Cell

/-- A golden row with the ranked ids that its search gives, or with what is raised before. -/
structure GoldenQuery where
  row : GoldenRow
  answer : Except EvalFailure (List String)

/-- The kinds of a policy violation. -/
inductive ViolationKind
  | missingRequired
  | unexpectedExcluded
  deriving DecidableEq, Repr

/-- `PolicyViolation`. -/
structure PolicyViolation where
  queryId : String
  kind : ViolationKind
  ids : List String
  deriving DecidableEq, Repr

/-- `_require_str`. -/
def requireStr (value : Cell) (fieldName goldenName : String) : Except EvalFailure String :=
  match value with
  | .text s =>
    if s ≠ "" then .ok s
    else .error (.evalError ("Golden-set '" ++ goldenName ++ "' row is missing a non-empty '" ++
      fieldName ++ "'"))
  | _ => .error (.evalError ("Golden-set '" ++ goldenName ++ "' row is missing a non-empty '" ++
      fieldName ++ "'"))

/-- `_field_context`. -/
def fieldContext (goldenName queryId fieldName : String) : String :=
  "Golden-set '" ++ goldenName ++ "' row '" ++ queryId ++ "' field '" ++ fieldName ++ "'"

/-- A violation, unless no id violates the policy. -/
def violation (queryId : String) (kind : ViolationKind) (ids : List String) :
    List PolicyViolation :=
  if ids = [] then [] else [⟨queryId, kind, sortedSet ids⟩]

/-- What a row adds to the result of its test. -/
structure Scored where
  metrics : QueryMetrics
  violations : List PolicyViolation

/-- An exception of the metrics. -/
def liftFailure {α : Type} : Except Failure α → Except EvalFailure α
  | .ok value => .ok value
  | .error e => .error (.raised e)

/-- The loop body of `_run_one`. -/
def scoreRow (goldenName : String) (cutoffs : List ℕ) (query : GoldenQuery) :
    Except EvalFailure Scored := do
  let queryId ← requireStr query.row.queryId "query_id" goldenName
  let rankedIds ← query.answer
  let required ← parseIds env (fieldContext goldenName queryId "required_ids")
    query.row.requiredIds
  let missingRequired := required.filter (· ∉ rankedIds)
  let excluded ← parseIds env (fieldContext goldenName queryId "excluded_ids")
    query.row.excludedIds
  let foundExcluded := excluded.filter (· ∈ rankedIds)
  let relevant ← parseIds env (fieldContext goldenName queryId "relevant_ids")
    query.row.relevantIds
  let graded ← parseGradedRelevance env (fieldContext goldenName queryId "graded_relevance")
    query.row.gradedRelevance
  let metrics ← liftFailure (evaluateQuery env.log2 queryId rankedIds relevant graded cutoffs)
  return ⟨metrics, violation queryId .missingRequired missingRequired ++
    violation queryId .unexpectedExcluded foundExcluded⟩

/-! ### Tests -/

/-- `SearchMode`. -/
inductive SearchMode
  | vector
  | text
  | hybrid
  deriving DecidableEq, Repr

/-- The severities of a threshold. -/
inductive Severity
  | error
  | warn
  deriving DecidableEq, Repr

/-- The outcomes of a threshold and of a test. -/
inductive Status
  | pass
  | warn
  | fail
  deriving DecidableEq, Repr

/-- An entry of `thresholds`, with its key taken apart. -/
structure Threshold where
  metric : Metric
  k : ℕ
  min : ℚ
  severity : Severity := .error
  deriving DecidableEq, Repr

/-- `ThresholdStatus`. -/
structure ThresholdStatus where
  key : String
  min : ℚ
  actual : ℚ
  severity : Severity
  status : Status
  deriving DecidableEq, Repr

/-- `RetrievalTestConfig`. -/
structure RetrievalTestConfig where
  name : String
  mode : Option SearchMode
  cutoffs : List ℕ
  thresholds : List Threshold

/-- `RetrievalTestResult`. -/
structure RetrievalTestResult where
  testName : String
  goldenSet : String
  mode : SearchMode
  perQuery : List QueryMetrics
  aggregate : List ((Metric × ℕ) × ℚ)
  thresholds : List ThresholdStatus
  policyViolations : List PolicyViolation

/-- `RetrievalTestResult.status`. -/
def RetrievalTestResult.status (result : RetrievalTestResult) : Status :=
  if result.policyViolations ≠ [] then .fail
  else
    let statuses := result.thresholds.map ThresholdStatus.status
    if .fail ∈ statuses then .fail else if .warn ∈ statuses then .warn else .pass

/-- The loop body of `_evaluate_thresholds`. -/
def evaluateThreshold (aggregate : List ((Metric × ℕ) × ℚ)) (threshold : Threshold) :
    ThresholdStatus :=
  let actual := (aggregate.lookup (threshold.metric, threshold.k)).getD 0
  ⟨threshold.metric.name ++ "_at_" ++ toString threshold.k, threshold.min, actual,
    threshold.severity,
    if threshold.min ≤ actual then .pass
    else if threshold.severity = .warn then .warn else .fail⟩

/-- `_default_mode`. -/
def defaultMode (declaredModes : List SearchMode) : Except EvalFailure SearchMode :=
  match [SearchMode.hybrid, .vector, .text].find? (· ∈ declaredModes) with
  | some mode => .ok mode
  | none => .error (.evalError "Search model declares no vector/text/hybrid query mode to evaluate")

/-- `_run_one`. -/
def runOne (test : RetrievalTestConfig) (declaredModes : List SearchMode) (goldenName : String)
    (golden : List GoldenQuery) : Except EvalFailure RetrievalTestResult :=
  if golden = [] then
    .error (.evalError ("Retrieval test '" ++ test.name ++ "' golden_set '" ++ goldenName ++
      "' has no rows"))
  else do
    let mode ← test.mode.elim (defaultMode declaredModes) .ok
    let scored ← golden.mapM (scoreRow env goldenName test.cutoffs)
    let aggregate := aggregateMetrics (scored.map Scored.metrics) test.cutoffs
    return ⟨test.name, goldenName, mode, scored.map Scored.metrics, aggregate,
      test.thresholds.map (evaluateThreshold aggregate), scored.flatMap Scored.violations⟩

/-! ### Lists of ids -/

/-- The value of a cell, with JSON text decoded. -/
def Cell.decoded : Cell → Option Cell
  | .text s => (env.loads s).toOption.map .ofJson
  | value => some value

/-- A cell is null, or a list or a JSON array of ids. -/
def IsIds (isId : JsonValue → Prop) (cell : Cell) : Prop :=
  cell = .null ∨ ∃ items, cell.decoded env = some (.list items) ∧ ∀ item ∈ items, isId item

/-- A cell that is not JSON, or whose value is neither falsy nor iterable. -/
def Rejected (cell : Cell) : Prop :=
  (∃ s message, cell = .text s ∧ env.loads s = .error (.caught message)) ∨
    ∃ value, cell.decoded env = some value ∧ value.truthy = true ∧ strItems env value = none

/-- A cell whose value is falsy or iterable. -/
def Taken (cell : Cell) : Prop :=
  ∃ value, cell.decoded env = some value ∧ (value.truthy = true → (strItems env value).isSome)

/-- Malformed lists of required or excluded ids stop the evaluation with a `RetrievalEvalError`,
unless an earlier row stops it otherwise, and an excluded id among the ranked ones fails the test,
whatever the other rows, the metrics and the thresholds are. -/
structure LeakFails (isId : JsonValue → Prop) (required excluded : Cell) : Prop where
  raises : ¬ (IsIds env isId required ∧ IsIds env isId excluded) →
    ∀ (test : RetrievalTestConfig) (declaredModes : List SearchMode) (goldenName : String)
      (before after : List GoldenQuery) (query : GoldenQuery) (rankedIds : List String),
    query.row.requiredIds = required → query.row.excludedIds = excluded →
    query.answer = .ok rankedIds →
    ∃ e, runOne env test declaredModes goldenName (before ++ query :: after) = .error e ∧
      ((∀ q ∈ before, ∃ scored, scoreRow env goldenName test.cutoffs q = .ok scored) →
        ∃ message, e = .evalError message)
  fails : IsIds env isId required ∧ IsIds env isId excluded →
    ∀ (test : RetrievalTestConfig) (declaredModes : List SearchMode) (goldenName : String)
      (golden : List GoldenQuery) (result : RetrievalTestResult),
    runOne env test declaredModes goldenName golden = .ok result →
    ∀ query ∈ golden, query.row.requiredIds = required → query.row.excludedIds = excluded →
    ∀ rankedIds, query.answer = .ok rankedIds →
    ∀ items, excluded.decoded env = some (.list items) →
    ∀ item ∈ items, str env item ∈ rankedIds →
      result.status = .fail ∧ ∃ v ∈ result.policyViolations, query.row.queryId = .text v.queryId ∧
        v.kind = .unexpectedExcluded ∧ str env item ∈ v.ids

/-! ### What the parser takes -/

variable {env}

theorem parseJson_eq_ok {context : String} {cell value : Cell} :
    parseJson env context cell = .ok value ↔ cell.decoded env = some value := by
  cases cell with
  | text s =>
    simp only [parseJson, Cell.decoded]
    rcases env.loads s with (message | e) | json <;> simp [Except.toOption]
  | _ => simp [parseJson, Cell.decoded]

theorem parseIds_eq_ok {context : String} {cell : Cell} {ids : List String} :
    parseIds env context cell = .ok ids ↔ ∃ value, cell.decoded env = some value ∧
      (if value.truthy = false then ids = [] else strItems env value = some ids) := by
  simp only [parseIds, bind_eq_ok, parseJson_eq_ok]
  refine exists_congr fun value => and_congr_right fun _ => ?_
  cases value.truthy with
  | false => simp [pure, Except.pure, eq_comm]
  | true => cases strItems env value <;> simp [pure, Except.pure]

theorem exists_parseIds_eq_ok (context : String) {cell : Cell} :
    (∃ ids, parseIds env context cell = .ok ids) ↔ Taken env cell := by
  simp only [parseIds_eq_ok, Taken]
  rw [exists_comm]
  refine exists_congr fun value => ?_
  rw [exists_and_left]
  refine and_congr_right fun _ => ?_
  cases value.truthy <;> simp [Option.isSome_iff_exists]

theorem exists_parseIds_eq_evalError (context : String) {cell : Cell} :
    (∃ message, parseIds env context cell = .error (.evalError message)) ↔ Rejected env cell := by
  have hjson : (∃ message, parseJson env context cell = .error (.evalError message)) ↔
      ∃ s message, cell = .text s ∧ env.loads s = .error (.caught message) := by
    cases cell with
    | text s =>
      simp only [parseJson]
      rcases hloads : env.loads s with (message | e) | json <;> simp [hloads]
    | _ => simp [parseJson]
  simp only [parseIds, bind_eq_error, exists_or, hjson, parseJson_eq_ok, Rejected]
  refine or_congr_right ?_
  rw [exists_comm]
  refine exists_congr fun value => ?_
  rw [exists_and_left]
  refine and_congr_right fun _ => ?_
  cases value.truthy with
  | false => simp [pure, Except.pure]
  | true => cases strItems env value <;> simp [pure, Except.pure]

/-- The ids of a list are the texts of its items. -/
theorem parseIds_of_list {context : String} {cell : Cell} {items : List JsonValue}
    (h : cell.decoded env = some (.list items)) :
    parseIds env context cell = .ok (items.map (str env)) := by
  refine parseIds_eq_ok.mpr ⟨_, h, ?_⟩
  cases items <;> simp [Cell.truthy, strItems]

/-! ### Rows -/

theorem requireStr_eq_ok {value : Cell} {fieldName goldenName s : String}
    (h : requireStr value fieldName goldenName = .ok s) : value = .text s := by
  unfold requireStr at h
  split at h
  · split at h
    · rw [Except.ok.inj h]
    · cases h
  · cases h

theorem requireStr_eq_error {value : Cell} {fieldName goldenName : String} {e : EvalFailure}
    (h : requireStr value fieldName goldenName = .error e) : ∃ message, e = .evalError message := by
  unfold requireStr at h
  split at h
  · split at h
    · cases h
    · exact ⟨_, (Except.error.inj h).symm⟩
  · exact ⟨_, (Except.error.inj h).symm⟩

/-- A rejected cell stops the evaluation of its row. -/
theorem scoreRow_of_rejected {goldenName : String} {cutoffs : List ℕ} {query : GoldenQuery}
    {rankedIds : List String} (hanswer : query.answer = .ok rankedIds)
    (h : Rejected env query.row.requiredIds ∨
      Taken env query.row.requiredIds ∧ Rejected env query.row.excludedIds) :
    ∃ message, scoreRow env goldenName cutoffs query = .error (.evalError message) := by
  cases hid : requireStr query.row.queryId "query_id" goldenName with
  | error e =>
    obtain ⟨message, rfl⟩ := requireStr_eq_error hid
    exact ⟨message, by rw [scoreRow, hid]; rfl⟩
  | ok queryId =>
    rw [scoreRow, hid, hanswer]
    rcases h with hrequired | ⟨hrequired, hexcluded⟩
    · obtain ⟨message, hmessage⟩ := (exists_parseIds_eq_evalError
        (fieldContext goldenName queryId "required_ids")).mpr hrequired
      exact ⟨message, by simp only [bind, Except.bind, hmessage]⟩
    · obtain ⟨ids, hids⟩ := (exists_parseIds_eq_ok
        (fieldContext goldenName queryId "required_ids")).mpr hrequired
      obtain ⟨message, hmessage⟩ := (exists_parseIds_eq_evalError
        (fieldContext goldenName queryId "excluded_ids")).mpr hexcluded
      exact ⟨message, by simp only [bind, Except.bind, hids, hmessage]⟩

/-- An excluded id among the ranked ones is a violation. -/
theorem violation_of_scoreRow {goldenName : String} {cutoffs : List ℕ} {query : GoldenQuery}
    {scored : Scored} (h : scoreRow env goldenName cutoffs query = .ok scored)
    {rankedIds : List String} (hanswer : query.answer = .ok rankedIds) {items : List JsonValue}
    (hitems : query.row.excludedIds.decoded env = some (.list items)) {item : JsonValue}
    (hitem : item ∈ items) (hranked : str env item ∈ rankedIds) :
    ∃ v ∈ scored.violations, query.row.queryId = .text v.queryId ∧
      v.kind = .unexpectedExcluded ∧ str env item ∈ v.ids := by
  simp only [scoreRow, bind_eq_ok, hanswer, Except.ok.injEq, exists_eq_left',
    parseIds_of_list hitems] at h
  obtain ⟨queryId, hid, required, -, relevant, -, graded, -, metrics, -, hscored⟩ := h
  obtain rfl := Except.ok.inj hscored
  have hfound : str env item ∈ (items.map (str env)).filter (· ∈ rankedIds) :=
    List.mem_filter.mpr ⟨List.mem_map_of_mem hitem, decide_eq_true hranked⟩
  refine ⟨⟨queryId, .unexpectedExcluded, _⟩, ?_, requireStr_eq_ok hid, rfl,
    mem_sortedSet.mpr hfound⟩
  rw [List.mem_append, violation, violation, if_neg (List.ne_nil_of_mem hfound)]
  exact .inr (List.mem_singleton_self _)

/-! ### Tests -/

theorem runOne_eq_ok {test : RetrievalTestConfig} {declaredModes : List SearchMode}
    {goldenName : String} {golden : List GoldenQuery} {result : RetrievalTestResult}
    (h : runOne env test declaredModes goldenName golden = .ok result) :
    ∃ scored, golden.mapM (scoreRow env goldenName test.cutoffs) = .ok scored ∧
      result.policyViolations = scored.flatMap Scored.violations := by
  unfold runOne at h
  split at h
  · cases h
  simp only [bind_eq_ok] at h
  obtain ⟨mode, -, scored, hscored, hresult⟩ := h
  obtain rfl := Except.ok.inj hresult
  exact ⟨scored, hscored, rfl⟩

theorem defaultMode_eq_error {declaredModes : List SearchMode} {e : EvalFailure}
    (h : defaultMode declaredModes = .error e) : ∃ message, e = .evalError message := by
  unfold defaultMode at h
  split at h
  · cases h
  · exact ⟨_, (Except.error.inj h).symm⟩

/-- A row that is rejected stops the test, unless an earlier row does. -/
theorem runOne_of_scoreRow_error {test : RetrievalTestConfig} {declaredModes : List SearchMode}
    {goldenName message : String} {before after : List GoldenQuery} {query : GoldenQuery}
    (h : scoreRow env goldenName test.cutoffs query = .error (.evalError message)) :
    ∃ e, runOne env test declaredModes goldenName (before ++ query :: after) = .error e ∧
      ((∀ q ∈ before, ∃ scored, scoreRow env goldenName test.cutoffs q = .ok scored) →
        ∃ message, e = .evalError message) := by
  have hne : before ++ query :: after ≠ [] := by simp
  rw [runOne, if_neg hne]
  cases hmode : test.mode.elim (defaultMode declaredModes) .ok with
  | error e =>
    have hdefault : defaultMode declaredModes = .error e := by
      cases hdeclared : test.mode with
      | none => rwa [hdeclared] at hmode
      | some mode =>
        rw [hdeclared] at hmode
        cases hmode
    exact ⟨e, rfl, fun _ => defaultMode_eq_error hdefault⟩
  | ok mode =>
    obtain ⟨e, he, hsame⟩ := mapM_append_cons_error before after h
    exact ⟨e, by simp only [bind, Except.bind, he], fun hbefore => ⟨message, hsame hbefore⟩⟩

/-- A test with a violation fails. -/
theorem status_of_violation {result : RetrievalTestResult} {v : PolicyViolation}
    (h : v ∈ result.policyViolations) : result.status = .fail := by
  rw [RetrievalTestResult.status, if_pos (List.ne_nil_of_mem h)]

/-- A row without judgments is stopped by its required or excluded ids only. -/
theorem rejected_of_scoreRow {goldenName message : String} {cutoffs : List ℕ}
    {required excluded : Cell}
    (h : scoreRow env goldenName cutoffs ⟨⟨.text "q1", required, excluded, .null, .null⟩, .ok []⟩ =
      .error (.evalError message)) :
    Rejected env required ∨ Taken env required ∧ Rejected env excluded := by
  rcases bind_eq_error.mp h with hid | ⟨queryId, -, h⟩
  · cases hid
  rcases bind_eq_error.mp h with hanswer | ⟨rankedIds, -, h⟩
  · cases hanswer
  rcases bind_eq_error.mp h with hrequired | ⟨requiredIds, hrequired, h⟩
  · exact .inl ((exists_parseIds_eq_evalError _).mp ⟨message, hrequired⟩)
  rcases bind_eq_error.mp h with hexcluded | ⟨excludedIds, -, h⟩
  · exact .inr ⟨(exists_parseIds_eq_ok _).mp ⟨requiredIds, hrequired⟩,
      (exists_parseIds_eq_evalError _).mp ⟨message, hexcluded⟩⟩
  have hscored : ∀ violations, (do
      let metrics ← liftFailure (evaluateQuery env.log2 queryId rankedIds [] none cutoffs)
      return (⟨metrics, violations⟩ : Scored)) ≠ .error (.evalError message) := by
    intro violations
    rw [evaluateQuery_empty]
    exact fun h => nomatch h
  exact absurd h (hscored _)

variable (env)

/-- For every list of required and excluded ids: malformed lists are rejected and leaks fail, in
every test whose golden set has a row with these cells, if and only if both lists are well formed,
or one of them is rejected before the evaluation takes a malformed one. -/
theorem leak_fails_iff (isId : JsonValue → Prop) (required excluded : Cell) :
    LeakFails env isId required excluded ↔
      (IsIds env isId required ∧ IsIds env isId excluded) ∨ Rejected env required ∨
        (Taken env required ∧ Rejected env excluded) := by
  constructor
  · intro h
    by_cases hids : IsIds env isId required ∧ IsIds env isId excluded
    · exact .inl hids
    obtain ⟨e, herror, heval⟩ := h.raises hids ⟨"quality", some .text, [10], []⟩ [] "golden" [] []
      ⟨⟨.text "q1", required, excluded, .null, .null⟩, .ok []⟩ [] rfl rfl rfl
    obtain ⟨message, rfl⟩ := heval fun q hq => absurd hq List.not_mem_nil
    rw [List.nil_append, runOne, if_neg (List.cons_ne_nil _ _)] at herror
    rcases bind_eq_error.mp herror with hmode | ⟨mode, -, herror⟩
    · cases hmode
    rcases bind_eq_error.mp herror with hrows | ⟨scored, -, herror⟩
    · obtain ⟨query, hquery, hrow⟩ := mapM_error hrows
      rw [List.mem_singleton.mp hquery] at hrow
      exact .inr (rejected_of_scoreRow hrow)
    · cases herror
  · intro h
    refine ⟨fun hids test declaredModes goldenName before after query rankedIds hrequired
      hexcluded hanswer => ?_, fun hids test declaredModes goldenName golden result hresult query
      hquery hrequired hexcluded rankedIds hanswer items hitems item hitem hranked => ?_⟩
    · have hrejected := h.resolve_left hids
      rw [← hrequired, ← hexcluded] at hrejected
      obtain ⟨message, hmessage⟩ := scoreRow_of_rejected hanswer hrejected
      exact runOne_of_scoreRow_error hmessage
    · obtain ⟨scored, hscored, hviolations⟩ := runOne_eq_ok hresult
      obtain ⟨row, hrow, hok⟩ := exists_of_mem_left (mapM_eq_ok.mp hscored) hquery
      rw [← hexcluded] at hitems
      obtain ⟨v, hv, hid, hkind, hmem⟩ := violation_of_scoreRow hok hanswer hitems hitem hranked
      have hresultViolation : v ∈ result.policyViolations := by
        rw [hviolations]
        exact List.mem_flatMap.mpr ⟨row, hrow, hv⟩
      exact ⟨status_of_violation hresultViolation, v, hresultViolation, hid, hkind, hmem⟩

/-- `json.loads` on one JSON string. -/
def stringEnv : EvalEnv where
  loads := fun s => if s = "\"doc-1\"" then .ok (.string "doc-1")
    else .error (.caught "Expecting value: line 1 column 1 (char 0)")
  display := fun _ => ""
  toFloat := fun _ => .error (.caught "could not convert string to float")
  log2 := fun n => n.log2

/-- A row that excludes `doc-1` by a JSON string, and finds it. -/
def stringQuery : GoldenQuery :=
  ⟨⟨.text "q1", .null, .text "\"doc-1\"", .null, .null⟩, .ok ["doc-1"]⟩

/-- The characters of the string are excluded in its place, and the test passes. -/
theorem string_of_excluded_id_passes :
    (∃ result, runOne stringEnv ⟨"quality", none, [10], []⟩ [.text] "golden" [stringQuery] =
      .ok result ∧ result.status = .pass) ∧
    ¬ LeakFails stringEnv (fun _ => True) .null (.text "\"doc-1\"") := by
  have hids : ¬ (IsIds stringEnv (fun _ => True) .null ∧
      IsIds stringEnv (fun _ => True) (.text "\"doc-1\"")) := by
    rintro ⟨-, hnull | ⟨items, hitems, -⟩⟩
    · cases hnull
    · cases hitems
  have hpass : (runOne stringEnv ⟨"quality", none, [10], []⟩ [.text] "golden" [stringQuery]).map
      RetrievalTestResult.status = .ok .pass := by decide +kernel
  obtain ⟨result, hresult⟩ : ∃ result, runOne stringEnv ⟨"quality", none, [10], []⟩ [.text]
      "golden" [stringQuery] = .ok result := exists_eq_ok_of_isOk (by decide +kernel)
  refine ⟨⟨result, hresult, ?_⟩, fun h => ?_⟩
  · rw [hresult] at hpass
    exact Except.ok.inj hpass
  · obtain ⟨e, herror, -⟩ := h.raises hids ⟨"quality", none, [10], []⟩ [.text] "golden" [] []
      stringQuery ["doc-1"] rfl rfl rfl
    have hboth := hresult.symm.trans herror
    cases hboth

end Stel.RetrievalEval
