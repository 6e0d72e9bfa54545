import Stel.Failure
import Mathlib.Algebra.Field.Rat
import Mathlib.Data.List.Dedup
import Mathlib.Data.List.Infix
import Mathlib.Logic.Function.Basic

/-!
# Schema tests

`run_model_tests` evaluates the test specs of a model on its relation. A check reads the relation
through an SQL aggregate, through a data frame, or row by row. With `store_failures` a failing check
materializes the rows that it found, in a table named after the model, the test and the column.

Values are taken up to the equality of the warehouse. What a check computes from vectors and numbers
in floating point is a parameter, as are regular expressions and the fuzzy text comparison. Messages
are left out. The tests that neither read a single column nor store rows (`min_rows`, `not_empty`,
`python`, `min_metric`, `drift`, `llm_judge`) only report a status here.

## Main definitions

* `Relation`, `Warehouse`, `Statistics`: what the checks read, and what they compute with.
* `failuresTableName`, `storeRows`: the tables of failing rows.
* `notNull`, `unique`, `matchesRegex`, `acceptedValues`, `acceptedRange`, `nullRate`, `groundedIn`,
  `relationships`, `vectorCheck`, `columnStat`, `cardinality`, `outlierRate`, `golden`: the checks.
* `evaluateTestSpec`, `runModelTests`: a test spec, and the specs of a model.
-/

namespace Stel.Checks

/-! ### Relations -/

/-- A row: the value of each column. -/
abbrev Row (V : Type) : Type := String → V

/-- A relation as a data frame shows it. `numeric` says which columns have a numeric type. -/
structure Relation (V : Type) where
  columns : List String
  rows : List (Row V)
  numeric : String → Bool

/-- `row.get(column)`. -/
def Relation.get {V : Type} (relation : Relation V) (null : V) (row : Row V) (column : String) : V :=
  if column ∈ relation.columns then row column else null

/-- The contents of a table of failures: rows of a relation, or keys with an issue. -/
inductive Contents (V : Type)
  | rows (rows : List (Row V))
  | issues (entries : List (String × String))

/-- The number of rows. -/
def Contents.height {V : Type} : Contents V → ℕ
  | .rows found => found.length
  | .issues entries => entries.length

/-- What ends a check: a spec that cannot be tested, which the run reports as a failed test, or an
error of the warehouse, which ends the run. -/
inductive CheckError
  | unknownTest
  | warehouse
  deriving DecidableEq

/-- The warehouse: its comparison of values that are not null, its comparison of identifiers, the
relations of models, and how it names the tables it materializes. An empty frame may drop its table
instead of replacing it. -/
structure Warehouse (V : Type) where
  null : V
  less : V → V → Bool
  sameName : String → String → Bool
  sameName_refl : ∀ name, sameName name name = true
  relation : String → Option (Relation V)
  tableKey : String → String
  dropsEmpty : Bool

/-- The options of the checks on vectors. -/
inductive VectorCheck
  | valid (dimensions : Option ℕ) (minNorm maxNorm : Option ℚ) (maxZeroRate : ℚ)
  | variance (minVariance : ℚ)
  | duplicates (maxRate : ℚ)
  | outliers (maxRate z : ℚ)

/-- The options of `column_stat`. -/
structure ColumnStat where
  stat : String
  min : Option ℚ
  max : Option ℚ
  quantile : Option ℚ

/-- The options of `cardinality`. -/
structure CardinalityBounds where
  min : Option ℕ
  max : Option ℕ
  minRatio : Option ℚ
  maxRatio : Option ℚ

/-- The options of `outlier_rate`. -/
structure OutlierRate where
  zscore : Bool
  k : ℚ
  maxRate : ℚ

/-- How a grounded text may occur in its source. -/
inductive GroundingMethod
  | exact
  | fuzzy
  deriving DecidableEq

/-- What a statistic says of the values it was computed from: that they pass, or that they fail, and
which of them it blames. -/
inductive Verdict (X : Type)
  | pass
  | fail (blames : X → Bool)

/-- What the checks compute with: texts and regular expressions, vectors (`none` for what is not a
list), finite numbers (`none` for nulls, booleans and other numbers), scalars that can be counted,
the float quotient of two counts, and the statistics. -/
structure Statistics (V W N : Type) where
  text : V → String
  search : String → String → Bool
  lower : String → String
  strip : String → String
  fuzzyContains : String → String → ℚ → Bool
  vector : V → Option W
  number : V → Option N
  hashable : V → Bool
  ratio : ℕ → ℕ → ℚ
  ratio_zero : ∀ n, ratio 0 n = 0
  vectors : VectorCheck → List W → Verdict W
  columnStat : ColumnStat → List N → Bool
  cardinality : CardinalityBounds → List V → Bool
  outliers : OutlierRate → List N → Verdict N
  valuesMatch : V → V → Option ℚ → Bool

variable {V W N : Type} [DecidableEq V]

/-! ### SQL -/

/-- An identifier resolved in a relation. Unknown columns raise. -/
def Warehouse.resolve (warehouse : Warehouse V) (relation : Relation V) (name : String) :
    Except CheckError String :=
  match relation.columns.find? (warehouse.sameName name) with
  | some column => .ok column
  | none => .error .warehouse

/-- `u = v`, which is unknown for nulls. -/
def Warehouse.sqlEq (warehouse : Warehouse V) (u v : V) : Option Bool :=
  if u = warehouse.null ∨ v = warehouse.null then none else some (u = v)

/-- `v IN (values)`. -/
def Warehouse.isIn (warehouse : Warehouse V) (v : V) (values : List V) : Option Bool :=
  if values.any fun u => warehouse.sqlEq v u = some true then some true
  else if values.any fun u => warehouse.sqlEq v u = none then none
  else some false

/-- `v IS NOT NULL AND v NOT IN (values)` selects a row. -/
def Warehouse.outside (warehouse : Warehouse V) (v : V) (values : List V) : Bool :=
  v ≠ warehouse.null && warehouse.isIn v values = some false

/-- `(columns) IN (groups)` selects a row: every component equals that of one group. -/
def Warehouse.inGroups (warehouse : Warehouse V) (columns : List String) (groups : List (List V))
    (row : Row V) : Bool :=
  groups.any fun group =>
    (columns.zip group).all fun entry => warehouse.sqlEq (row entry.1) entry.2 = some true

/-! ### Results and failure tables -/

inductive Status
  | pass
  | warn
  | fail
  deriving DecidableEq

inductive Severity
  | error
  | warn
  deriving DecidableEq

/-- `TestResult`. -/
structure TestResult where
  testName : String
  modelName : String
  column : Option String
  status : Status
  severity : Severity
  failuresTable : Option String
  failureCount : Option ℕ
  deriving DecidableEq

/-- A result, with the table that was materialized for it. -/
structure Report (V : Type) where
  result : TestResult
  table : Option (String × Contents V)

/-- Runs of characters that are no word characters become one underscore. `gap` says that the
character before was none. -/
def collapse (isWord : Char → Bool) (gap : Bool) : List Char → List Char
  | [] => []
  | c :: cs =>
    if isWord c then c :: collapse isWord false cs
    else if gap then collapse isWord true cs
    else '_' :: collapse isWord true cs

/-- `_slug`. -/
def slug (isWord : Char → Bool) (value : String) : String :=
  let stripped := (collapse isWord false value.toList).dropWhile (· = '_')
  String.ofList (stripped.reverse.dropWhile (· = '_')).reverse

/-- `_failures_table_name`. -/
def failuresTableName (isWord : Char → Bool) (modelName testName column : String) : String :=
  "stel_test_failures__" ++ "__".intercalate
    ([slug isWord modelName, slug isWord testName] ++ if column = "" then [] else [slug isWord column])

/-- What every check of a model is given. -/
structure Context (V W N : Type) where
  warehouse : Warehouse V
  statistics : Statistics V W N
  isWord : Char → Bool
  modelName : String
  relation : Relation V
  storeFailures : Bool

/-- A result without a table. -/
def Context.result (ctx : Context V W N) (testName : String) (column : Option String)
    (fails : Bool) : TestResult :=
  ⟨testName, ctx.modelName, column, if fails then .fail else .pass, .error, none, none⟩

/-- `_store` and `_store_df`: materializes what a check found and notes it in the result. -/
def storeRows (ctx : Context V W N) (testName column : String) (contents : Contents V)
    (result : TestResult) : Report V :=
  let table := failuresTableName ctx.isWord ctx.modelName testName column
  ⟨{ result with failuresTable := some table, failureCount := some contents.height },
    some (table, contents)⟩

/-- The end of a check: what it found is stored if it fails and there is something to store. -/
def finish (ctx : Context V W N) (testName column : String) (fails stores : Bool)
    (contents : Contents V) : Report V :=
  let result := ctx.result testName (some column) fails
  if fails && stores && ctx.storeFailures then storeRows ctx testName column contents result
  else ⟨result, none⟩

/-! ### Checks by SQL aggregate -/

/-- A check that counts the rows its `WHERE` selects and fails if there are any. -/
def countCheck (ctx : Context V W N) (testName column : String) (selects : Row V → Bool) : Report V :=
  let bad := ctx.relation.rows.filter selects
  finish ctx testName column (bad ≠ []) true (.rows bad)

/-- `_not_null` for one column. -/
def notNullColumn (ctx : Context V W N) (column : String) : Except CheckError (Report V) := do
  let c ← ctx.warehouse.resolve ctx.relation column
  .ok (countCheck ctx "not_null" column fun row => row c = ctx.warehouse.null)

/-- `_not_null`. -/
def notNull (ctx : Context V W N) (columns : List String) : Except CheckError (List (Report V)) :=
  columns.mapM (notNullColumn ctx)

/-- The groups of `GROUP BY columns HAVING COUNT(*) > 1`. Nulls are one value here. -/
def duplicateGroups (rows : List (Row V)) (columns : List String) : List (List V) :=
  ((rows.map columns.map).filter fun key => 1 < (rows.map columns.map).count key).dedup

/-- `_unique`. The stored rows are selected by `IN`. -/
def unique (ctx : Context V W N) (columns : List String) : Except CheckError (Report V) := do
  let cs ← columns.mapM (ctx.warehouse.resolve ctx.relation)
  let groups := duplicateGroups ctx.relation.rows cs
  .ok (finish ctx "unique" (",".intercalate columns) (groups ≠ []) true
    (.rows (ctx.relation.rows.filter (ctx.warehouse.inGroups cs groups))))

/-- `_accepted_values`. -/
def acceptedValues (ctx : Context V W N) (column : String) (values : List V) :
    Except CheckError (Report V) := do
  let c ← ctx.warehouse.resolve ctx.relation column
  .ok (countCheck ctx "accepted_values" column fun row => ctx.warehouse.outside (row c) values)

/-- `v IS NOT NULL AND (v < min OR v > max)` selects a row. -/
def Warehouse.outOfRange (warehouse : Warehouse V) (min max : Option V) (v : V) : Bool :=
  v ≠ warehouse.null &&
    (min.any (fun bound => warehouse.less v bound) || max.any fun bound => warehouse.less bound v)

/-- `_accepted_range`. -/
def acceptedRange (ctx : Context V W N) (column : String) (min max : Option V) :
    Except CheckError (Report V) :=
  if min.isNone ∧ max.isNone then .error .unknownTest
  else do
    let c ← ctx.warehouse.resolve ctx.relation column
    .ok (countCheck ctx "accepted_range" column fun row => ctx.warehouse.outOfRange min max (row c))

/-- `_null_rate`. An empty relation passes before its column is read. -/
def nullRate (ctx : Context V W N) (column : String) (max : ℚ) : Except CheckError (Report V) :=
  if ctx.relation.rows.length = 0 then .ok ⟨ctx.result "null_rate" (some column) false, none⟩
  else do
    let c ← ctx.warehouse.resolve ctx.relation column
    let nulls := ctx.relation.rows.filter fun row => row c = ctx.warehouse.null
    let rate := ctx.statistics.ratio nulls.length ctx.relation.rows.length
    .ok (finish ctx "null_rate" column (max < rate) true (.rows nulls))

/-- A column of the parent inside the subquery of `_relationships`: of the parent if it has one, else
the column of the outer row, else the query raises. -/
def Warehouse.subqueryColumn (warehouse : Warehouse V) (parent child : Relation V) (field : String) :
    Except CheckError (Row V → List V) :=
  match parent.columns.find? (warehouse.sameName field) with
  | some c => .ok fun _ => parent.rows.map fun row => row c
  | none => do
    let c ← warehouse.resolve child field
    .ok fun row => parent.rows.map fun _ => row c

/-- `_relationships`. -/
def relationships (ctx : Context V W N) (column parentName field : String) :
    Except CheckError (Report V) := do
  match ctx.warehouse.relation parentName with
  | none => .error .warehouse
  | some parent => do
    let c ← ctx.warehouse.resolve ctx.relation column
    let keys ← ctx.warehouse.subqueryColumn parent ctx.relation field
    .ok (countCheck ctx "relationships" column fun row =>
      ctx.warehouse.outside (row c) ((keys row).filter fun key => key ≠ ctx.warehouse.null))

/-! ### Checks by data frame -/

/-- A check that fails if it blames a row. -/
def maskCheck (ctx : Context V W N) (testName column : String) (blames : Row V → Bool) : Report V :=
  countCheck ctx testName column blames

/-- `_matches_regex`. A column that the frame does not have has no values. -/
def matchesRegex (ctx : Context V W N) (column pattern : String) : Report V :=
  if column ∈ ctx.relation.columns then
    maskCheck ctx "matches_regex" column fun row =>
      row column ≠ ctx.warehouse.null &&
        !ctx.statistics.search pattern (ctx.statistics.text (row column))
  else ⟨ctx.result "matches_regex" (some column) false, none⟩

/-- `v in s`, or a fuzzy match. -/
def Statistics.contains (statistics : Statistics V W N) (method : GroundingMethod) (minScore : ℚ)
    (v s : String) : Bool :=
  decide (v.toList <:+: s.toList) || method = .fuzzy && statistics.fuzzyContains v s minScore

/-- A row of `_grounded_in` whose text is not in its source. -/
def ungrounded (ctx : Context V W N) (value source : String) (method : GroundingMethod)
    (minScore : ℚ) (row : Row V) : Bool :=
  let val := ctx.relation.get ctx.warehouse.null row value
  let src := ctx.relation.get ctx.warehouse.null row source
  let text := ctx.statistics.text val
  val ≠ ctx.warehouse.null && src ≠ ctx.warehouse.null && ctx.statistics.strip text ≠ "" &&
    !ctx.statistics.contains method minScore (ctx.statistics.strip (ctx.statistics.lower text))
      (ctx.statistics.lower (ctx.statistics.text src))

/-- `_grounded_in`. -/
def groundedIn (ctx : Context V W N) (value source : String) (method : GroundingMethod)
    (minScore : ℚ) : Report V :=
  maskCheck ctx "grounded_in" value (ungrounded ctx value source method minScore)

/-! ### Checks by statistic -/

/-- `_load_vectors`: the values of the column that are not null, as vectors. -/
def loadVectors (ctx : Context V W N) (column : String) : Except CheckError (List W) :=
  if column ∈ ctx.relation.columns then
    ((ctx.relation.rows.map fun row => row column).filter fun v => v ≠ ctx.warehouse.null).mapM
      fun v => match ctx.statistics.vector v with
        | some vector => .ok vector
        | none => .error .unknownTest
  else .error .unknownTest

/-- The name of a check on vectors, and the number of vectors that it needs. -/
def VectorCheck.name : VectorCheck → String × ℕ
  | .valid .. => ("embedding_valid", 1)
  | .variance .. => ("embedding_variance", 2)
  | .duplicates .. => ("embedding_duplicates", 1)
  | .outliers .. => ("embedding_outliers", 3)

/-- `_store_failing_rows` after the verdict of a statistic: the rows whose value it blames, if there
are any. -/
def storeBlamed {X : Type} (ctx : Context V W N) (testName column : String) (read : V → Option X) :
    Verdict X → Report V
  | .pass => ⟨ctx.result testName (some column) false, none⟩
  | .fail blames =>
    let failing := ctx.relation.rows.filter fun row => (read (row column)).any blames
    finish ctx testName column true (failing ≠ []) (.rows failing)

/-- The vector of a value that is not null. -/
def Context.readVector (ctx : Context V W N) (v : V) : Option W :=
  if v = ctx.warehouse.null then none else ctx.statistics.vector v

/-- `_embedding_valid`, `_embedding_variance`, `_embedding_duplicates` and `_embedding_outliers`. -/
def vectorCheck (ctx : Context V W N) (check : VectorCheck) (column : String) :
    Except CheckError (Report V) := do
  let vectors ← loadVectors ctx column
  if vectors.length < check.name.2 then .ok ⟨ctx.result check.name.1 (some column) false, none⟩
  else .ok (storeBlamed ctx check.name.1 column ctx.readVector (ctx.statistics.vectors check vectors))

/-- `_numeric_values`: the finite numbers of a numeric column. -/
def numericValues (ctx : Context V W N) (column : String) : Except CheckError (List N) :=
  if column ∈ ctx.relation.columns ∧ ctx.relation.numeric column then
    .ok ((ctx.relation.rows.map fun row => row column).filterMap ctx.statistics.number)
  else .error .unknownTest

/-- `_column_stat`. -/
def columnStat (ctx : Context V W N) (stat : ColumnStat) (column : String) :
    Except CheckError (Report V) := do
  let values ← numericValues ctx column
  .ok ⟨ctx.result "column_stat" (some column)
    (values ≠ [] && !ctx.statistics.columnStat stat values), none⟩

/-- `_cardinality`. -/
def cardinality (ctx : Context V W N) (bounds : CardinalityBounds) (column : String) :
    Except CheckError (Report V) := do
  let c ← ctx.warehouse.resolve ctx.relation column
  let raw := ctx.relation.rows.map fun row => row c
  if raw.all fun v => v = ctx.warehouse.null || ctx.statistics.hashable v then
    .ok ⟨ctx.result "cardinality" (some column) (!ctx.statistics.cardinality bounds raw), none⟩
  else .error .unknownTest

/-- `_outlier_rate`. -/
def outlierRate (ctx : Context V W N) (rate : OutlierRate) (column : String) :
    Except CheckError (Report V) := do
  let values ← numericValues ctx column
  if values.length < 4 then .ok ⟨ctx.result "outlier_rate" (some column) false, none⟩
  else .ok (storeBlamed ctx "outlier_rate" column ctx.statistics.number
    (ctx.statistics.outliers rate values))

/-! ### Golden sets -/

/-- The options of `golden`. -/
structure GoldenOptions where
  key : String
  target : String
  columns : Option (List String)
  tolerance : String → Option ℚ
  exhaustive : Bool

/-- The columns that `_golden` compares. -/
def comparedColumns (options : GoldenOptions) (actual golden : List String) :
    Except CheckError (List String) :=
  match options.columns with
  | none => .ok (golden.filter fun c => c ≠ options.key ∧ c ∈ actual)
  | some configured =>
    if ∀ c ∈ configured, c ∈ golden ∧ c ∈ actual then .ok configured else .error .unknownTest

/-- The last row with a key, as `actual_rows` keeps it. -/
def lastWithKey (rows : List (Row V)) (key : String) (k : V) : Option (Row V) :=
  rows.reverse.find? fun row => row key = k

/-- What is wrong with one row of the golden set. -/
def goldenIssue (ctx : Context V W N) (options : GoldenOptions) (compared : List String)
    (grow : Row V) : Option (String × String) :=
  let k := grow options.key
  match lastWithKey ctx.relation.rows options.key k with
  | none => some (ctx.statistics.text k, "missing_in_model")
  | some arow =>
    match compared.filter fun c =>
      !ctx.statistics.valuesMatch (arow c) (grow c) (options.tolerance c) with
    | [] => none
    | bad => some (ctx.statistics.text k, "mismatch:" ++ ",".intercalate bad)

/-- The issues that `_golden` finds. -/
def goldenIssues (ctx : Context V W N) (options : GoldenOptions) (compared : List String)
    (golden : Relation V) : List (String × String) :=
  let keys := ctx.relation.rows.map fun row => row options.key
  let goldenKeys := golden.rows.map fun row => row options.key
  let duplicates := ((keys.filter fun k => 1 < keys.count k).map ctx.statistics.text).dedup.mergeSort
  duplicates.map (·, "duplicate_in_model") ++
    golden.rows.filterMap (goldenIssue ctx options compared) ++
      if options.exhaustive then
        (keys.dedup.filter fun k => k ∉ goldenKeys).map fun k =>
          (ctx.statistics.text k, "unexpected_in_model")
      else []

/-- The issues of `_golden`, unless the golden set cannot be compared. -/
def compareGolden (ctx : Context V W N) (options : GoldenOptions) :
    Except CheckError (List (String × String)) :=
  match ctx.warehouse.relation options.target with
  | none => .error .warehouse
  | some golden =>
    if options.key ∉ ctx.relation.columns ∨ options.key ∉ golden.columns then .error .unknownTest
    else do
      let compared ← comparedColumns options ctx.relation.columns golden.columns
      let goldenKeys := golden.rows.map fun row => row options.key
      if (ctx.relation.rows.map fun row => row options.key).all ctx.statistics.hashable ∧
          goldenKeys.all ctx.statistics.hashable ∧ goldenKeys.Nodup then
        .ok (goldenIssues ctx options compared golden)
      else .error .unknownTest

/-- `_golden`. -/
def golden (ctx : Context V W N) (options : GoldenOptions) : Except CheckError (Report V) := do
  let issues ← compareGolden ctx options
  .ok (finish ctx "golden" options.key (issues ≠ []) true (.issues issues))

/-! ### Test specs -/

/-- A parsed test spec. `unstored` stands for the tests that only report a status. -/
inductive Spec (V : Type)
  | notNull (columns : List String)
  | unique (columns : List String)
  | matchesRegex (column pattern : String)
  | acceptedValues (column : String) (values : List V)
  | acceptedRange (column : String) (min max : Option V)
  | nullRate (column : String) (max : ℚ) (max_nonneg : 0 ≤ max)
  | groundedIn (value source : String) (method : GroundingMethod) (minScore : ℚ)
  | relationships (column parentName field : String)
  | vectors (check : VectorCheck) (column : String)
  | columnStat (stat : ColumnStat) (column : String)
  | cardinality (bounds : CardinalityBounds) (column : String)
  | outlierRate (rate : OutlierRate) (column : String)
  | golden (options : GoldenOptions)
  | unstored (testName : String) (column : Option String) (fails : Except CheckError Bool)

/-- `_run_named_test`. -/
def runNamedTest (ctx : Context V W N) : Spec V → Except CheckError (List (Report V))
  | .notNull columns => notNull ctx columns
  | .unique columns => do .ok [← unique ctx columns]
  | .matchesRegex column pattern => .ok [matchesRegex ctx column pattern]
  | .acceptedValues column values => do .ok [← acceptedValues ctx column values]
  | .acceptedRange column min max => do .ok [← acceptedRange ctx column min max]
  | .nullRate column max _ => do .ok [← nullRate ctx column max]
  | .groundedIn value source method minScore => .ok [groundedIn ctx value source method minScore]
  | .relationships column parentName field => do
    .ok [← relationships ctx column parentName field]
  | .vectors check column => do .ok [← vectorCheck ctx check column]
  | .columnStat stat column => do .ok [← columnStat ctx stat column]
  | .cardinality bounds column => do .ok [← cardinality ctx bounds column]
  | .outlierRate rate column => do .ok [← outlierRate ctx rate column]
  | .golden options => do .ok [← golden ctx options]
  | .unstored testName column fails => do .ok [⟨ctx.result testName column (← fails), none⟩]

/-- `_apply_severity` for one result. -/
def applySeverity (severity : Severity) (result : TestResult) : TestResult :=
  { result with
    status := if result.status = .fail ∧ severity = .warn then .warn else result.status
    severity }

/-- `evaluate_test_spec`. -/
def evaluateTestSpec (ctx : Context V W N) (spec : Spec V) (severity : Severity) :
    Except CheckError (List (Report V)) := do
  let reports ← runNamedTest ctx spec
  .ok (reports.map fun report => { report with result := applySeverity severity report.result })

/-- The tables of failures, by the names that the warehouse compares. -/
abbrev Tables (V : Type) : Type := String → Option (Contents V)

/-- `materialize_full`. -/
def materializeFull (warehouse : Warehouse V) (tables : Tables V) (table : String × Contents V) :
    Tables V :=
  Function.update tables (warehouse.tableKey table.1)
    (if warehouse.dropsEmpty && table.2.height = 0 then none else some table.2)

/-- The name of a spec as `str(spec)` gives it to a failed result. -/
abbrev SpecText (V : Type) : Type := Spec V → String

/-- One pass of the loop over the specs of a model. -/
def runSpec (ctx : Context V W N) (specText : SpecText V) (s : List TestResult × Tables V)
    (spec : Spec V × Severity) : Except CheckError (List TestResult × Tables V) :=
  match evaluateTestSpec ctx spec.1 spec.2 with
  | .ok reports =>
    .ok (s.1 ++ reports.map Report.result,
      (reports.filterMap Report.table).foldl (materializeFull ctx.warehouse) s.2)
  | .error .unknownTest =>
    .ok (s.1 ++ [ctx.result (specText spec.1) none true], s.2)
  | .error .warehouse => .error .warehouse

/-- `run_model_tests` for a model whose relation exists. -/
def runModelTests (ctx : Context V W N) (specText : SpecText V) (specs : List (Spec V × Severity))
    (tables : Tables V) : Except CheckError (List TestResult × Tables V) :=
  specs.foldlM (runSpec ctx specText) ([], tables)

/-! ### Texts -/

/-- A warehouse of texts without other relations. -/
def textWarehouse : Warehouse (Option String) where
  null := none
  less _ _ := false
  sameName := (· == ·)
  sameName_refl _ := beq_self_eq_true _
  relation _ := none
  tableKey := id
  dropsEmpty := false

/-- Texts without statistics. -/
def textStatistics : Statistics (Option String) Unit Unit where
  text := (·.getD "None")
  search pattern text := decide (pattern.toList <:+: text.toList)
  lower := id
  strip := id
  fuzzyContains _ _ _ := false
  vector _ := none
  number _ := none
  hashable _ := true
  ratio nulls total := nulls / total
  ratio_zero := by simp
  vectors _ _ := .pass
  columnStat _ _ := true
  cardinality _ _ := true
  outliers _ _ := .pass
  valuesMatch actual expected _ := actual = expected

end Stel.Checks
