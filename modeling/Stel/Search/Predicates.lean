import Stel.Failure
import Stel.Data.Calendar
import Stel.Data.SortedSet
import Stel.Data.Sql
import Stel.Search.Settings

/-!
# The filters of a query

The validation of the filters of a query (`_resolve_predicates`, `_resolve_policy_predicates` and
`_coerce_scalar` of `search.py`, `RetrievalPredicate` of `retrieval/base.py`). A value of Python is
given by its type and by the text that `str` or `isoformat` has for it.

## Main definitions

* `PyFloat`, `Scalar`, `SearchFilter`, `RetrievalPredicate`.
* `coerceScalar`, `resolvePredicates`, `resolvePolicyPredicates`.

## Main results

* `forall₂_resolvePredicates`, `forall₂_resolvePolicyPredicates`: an accepted filter becomes one
  predicate with its field, its operator and its value in the type of the attribute.
-/

namespace Stel.Search

open Stel.Calendar

/-! ### Values -/

/-- A finite `float`, given by its `repr`: digits with a point or an exponent. -/
structure FiniteFloat where
  negative : Bool
  digits : Sql.Numeral
  wellFormed : digits.WellFormed
  inexact : digits.fraction ≠ none ∨ digits.exponent ≠ none

/-- A `float`. -/
inductive PyFloat
  | finite (f : FiniteFloat)
  | inf (negative : Bool)
  | nan

/-- `isfinite`. -/
def PyFloat.isfinite : PyFloat → Bool
  | .finite _ => true
  | _ => false

/-- `repr` of a float. -/
def PyFloat.repr : PyFloat → List Char
  | .finite f => (if f.negative then ['-'] else []) ++ f.digits.render
  | .inf negative => if negative then "-inf".toList else "inf".toList
  | .nan => "nan".toList

/-- `SearchScalar`. -/
inductive Scalar
  | str (value : String)
  | int (value : ℤ)
  | float (value : PyFloat)
  | bool (value : Bool)
  | date (value : Date)
  | datetime (value : DateTime)

/-- The type of a value. -/
inductive ScalarType
  | str
  | int
  | float
  | bool
  | date
  | datetime
  deriving DecidableEq, Repr

/-- `type(value)`. -/
def Scalar.type : Scalar → ScalarType
  | .str _ => .str
  | .int _ => .int
  | .float _ => .float
  | .bool _ => .bool
  | .date _ => .date
  | .datetime _ => .datetime

/-- The number of decimal digits of an integer. -/
def digitCount (z : ℤ) : ℕ := (Nat.toDigits 10 z.natAbs).length

/-- `sys.int_info.default_max_str_digits`: conversions between longer integers and texts raise. -/
def maxStrDigits : ℕ := 4300

/-- `str` of an integer, or nothing where it raises `ValueError`. -/
def intText (z : ℤ) : Option (List Char) :=
  if digitCount z ≤ maxStrDigits then
    some ((if z < 0 then ['-'] else []) ++ Nat.toDigits 10 z.natAbs)
  else none

/-- `str` of a value, or nothing where it raises `ValueError`. -/
def Scalar.text : Scalar → Option String
  | .str s => some s
  | .int z => (intText z).map String.ofList
  | .float f => some (String.ofList f.repr)
  | .bool b => some (if b then "True" else "False")
  | .date d => some (String.ofList d.isoformat)
  | .datetime t => some (String.ofList (t.isoformat.map fun c => if c = 'T' then ' ' else c))

/-! ### Filters and predicates -/

/-- `SearchFilterOperator`, and `RetrievalPredicateOperator` with the same values. -/
inductive FilterOperator
  | equal
  | notEqual
  | lessThan
  | lessThanOrEqual
  | greaterThan
  | greaterThanOrEqual
  | «in»
  deriving DecidableEq, Repr

/-- The value of an operator. -/
def FilterOperator.value : FilterOperator → String
  | .equal => "eq"
  | .notEqual => "ne"
  | .lessThan => "lt"
  | .lessThanOrEqual => "le"
  | .greaterThan => "gt"
  | .greaterThanOrEqual => "ge"
  | .in => "in"

/-- The value of a filter or of a predicate: a scalar or a tuple. -/
inductive FilterValue
  | scalar (value : Scalar)
  | tuple (values : List Scalar)

/-- The values. -/
def FilterValue.scalars : FilterValue → List Scalar
  | .scalar v => [v]
  | .tuple vs => vs

/-- What `SearchFilter.__post_init__` checks: a field, and more than no values exactly with `in`. -/
def IsFilter (field : String) (operator : FilterOperator) : FilterValue → Prop
  | .scalar _ => field ≠ "" ∧ operator ≠ .in
  | .tuple vs => field ≠ "" ∧ operator = .in ∧ vs ≠ []

/-- `SearchFilter`. -/
structure SearchFilter where
  field : String
  operator : FilterOperator
  value : FilterValue
  valid : IsFilter field operator value

/-- `RetrievalPredicate`. -/
structure RetrievalPredicate where
  field : String
  operator : FilterOperator
  value : FilterValue

/-- `_is_retrieval_scalar`. -/
def isRetrievalScalar : Scalar → Bool
  | .float f => f.isfinite
  | _ => true

/-- The check of the shape of a predicate's value. -/
def checkShape : FilterOperator → FilterValue → Except Failure Unit
  | .in, .tuple (first :: vs) => raiseIf (∃ v ∈ vs, v.type ≠ first.type)
    (.retrievalError "Retrieval IN values must share one type")
  | .in, _ => .error (.retrievalError "Retrieval IN predicates require a non-empty tuple")
  | _, .tuple _ => .error (.retrievalError "Retrieval scalar predicate received a tuple")
  | _, .scalar _ => .ok ()

/-- `RetrievalPredicate.__post_init__`. -/
def retrievalPredicate (field : String) (operator : FilterOperator) (value : FilterValue) :
    Except Failure RetrievalPredicate := do
  raiseIf (field = "") (.retrievalError "Retrieval predicate field must not be empty")
  checkShape operator value
  raiseIf (∃ v ∈ value.scalars, isRetrievalScalar v = false)
    (.retrievalError "Retrieval predicate contains an unsupported value")
  return ⟨field, operator, value⟩

/-! ### The type of an attribute -/

/-- What `_coerce_scalar` calls of Python: `int`, `float`, `date.fromisoformat` and
`datetime.fromisoformat` of a text, nothing where they raise `ValueError`, and `float` of an integer,
nothing where it raises `OverflowError`. -/
structure Parsers where
  int : String → Option ℤ
  float : String → Option PyFloat
  floatOfInt : ℤ → Option PyFloat
  date : String → Option Date
  datetime : String → Option DateTime

section Resolution

variable (parsers : Parsers) (c : SearchConfig)

/-- `int` of a text. -/
def Parsers.intOfText (text : String) : Option ℤ :=
  (parsers.int text).filter fun z => digitCount z ≤ maxStrDigits

/-- The error of a value of another type than the attribute. -/
def mismatch : Failure := .other "Search filter value does not match the declared field type"

/-- The value, or an error where there is none. -/
def orMismatch {α : Type} (value : Option α) : Except Failure α :=
  value.elim (.error mismatch) .ok

/-- A converted float. -/
def finiteOrMismatch (f : PyFloat) : Except Failure Scalar :=
  if f.isfinite then .ok (.float f) else .error mismatch

/-- `_coerce_scalar`. -/
def coerceScalar (dataType : AttributeType) (value : Scalar) : Except Failure Scalar :=
  match dataType, value with
  | .string, .str s | .strings, .str s => .ok (.str s)
  | .integer, .int z => .ok (.int z)
  | .integer, .str s => (orMismatch (parsers.intOfText s)).map .int
  | .float, .str s => orMismatch (parsers.float s) >>= finiteOrMismatch
  | .float, .int z =>
    match parsers.floatOfInt z with
    | some f => finiteOrMismatch f
    | none => .error (.other "int too large to convert to float")
  | .float, .float f => finiteOrMismatch f
  | .boolean, .bool b => .ok (.bool b)
  | .boolean, .str s =>
    if s.toLower = "true" ∨ s.toLower = "false" then .ok (.bool (s.toLower = "true"))
    else .error mismatch
  | .date, .datetime _ => .error mismatch
  | .date, .date d => .ok (.date d)
  | .date, v => (orMismatch (v.text.bind parsers.date)).map .date
  | .timestamp, .datetime t => .ok (.datetime t)
  | .timestamp, v => (orMismatch (v.text.bind parsers.datetime)).map .datetime
  | _, _ => .error mismatch

/-- `_coerce_filter_value`. -/
def coerceFilterValue (dataType : AttributeType) : FilterValue → Except Failure FilterValue
  | .scalar v => (coerceScalar parsers dataType v).map .scalar
  | .tuple vs => (vs.mapM (coerceScalar parsers dataType)).map .tuple

/-! ### Resolution -/

/-- The attribute of a name, of several the last. -/
def SearchConfig.attribute? (field : String) : Option AttributeConfig :=
  c.attributes.reverse.find? fun a => a.name = field

/-- The attribute may be filtered by a user. -/
def FilterRole.isUser (role : FilterRole) : Bool := role = .user || role = .userAndPolicy

/-- The attribute is constrained by the authorization context. -/
def FilterRole.isPolicy (role : FilterRole) : Bool := role = .policy || role = .userAndPolicy

/-- The operators for values without an order. -/
def FilterOperator.isUnordered (operator : FilterOperator) : Bool :=
  operator = .equal || operator = .notEqual || operator = .in

/-- One pass of `_resolve_predicates`. -/
def resolvePredicate (item : SearchFilter) : Except Failure RetrievalPredicate :=
  match c.attribute? item.field with
  | some a =>
    if a.filterRole.isUser then do
      let value ← coerceFilterValue parsers a.dataType item.value
      raiseIf (item.operator.isUnordered = false ∧ (a.dataType = .boolean ∨ a.dataType = .strings))
        (.other ("Operator '" ++ item.operator.value ++ "' is not valid for field '" ++ item.field ++
          "'"))
      retrievalPredicate item.field item.operator value
    else .error (.other ("Field '" ++ item.field ++ "' is not available for user filtering"))
  | none => .error (.other ("Field '" ++ item.field ++ "' is not available for user filtering"))

/-- `_resolve_predicates`. -/
def resolvePredicates (filters : List SearchFilter) : Except Failure (List RetrievalPredicate) :=
  filters.mapM (resolvePredicate parsers c)

/-- The names of the attributes that the authorization context constrains. -/
def SearchConfig.policyFields : List String :=
  (c.attributes.filter fun a => a.filterRole.isPolicy).map (·.name)

/-- One pass of `_resolve_policy_predicates`. -/
def resolvePolicyPredicate (item : SearchFilter) : Except Failure RetrievalPredicate :=
  match c.attribute? item.field with
  | some a =>
    if item.field ∈ c.policyFields then do
      let value ← coerceFilterValue parsers a.dataType item.value
      retrievalPredicate item.field item.operator value
    else .error (.other ("Field '" ++ item.field ++ "' is not a policy attribute of this search index"))
  | none =>
    .error (.other ("Field '" ++ item.field ++ "' is not a policy attribute of this search index"))

/-- `_resolve_policy_predicates`. -/
def resolvePolicyPredicates (policyFilters : List SearchFilter) :
    Except Failure (List RetrievalPredicate) := do
  let predicates ← policyFilters.mapM (resolvePolicyPredicate parsers c)
  let missing := sortedSet (c.policyFields.filter fun field => field ∉ policyFilters.map (·.field))
  raiseIf (missing ≠ []) (.other
    ("Governed queries must constrain every policy attribute; missing: " ++ ", ".intercalate missing))
  return predicates

/-! ### What is accepted -/

/-- The predicate has the field and the operator of the filter, and its value in the type of the
attribute. -/
structure Resolves (item : SearchFilter) (p : RetrievalPredicate) : Prop where
  field : p.field = item.field
  operator : p.operator = item.operator
  value : ∃ a, c.attribute? item.field = some a ∧
    coerceFilterValue parsers a.dataType item.value = .ok p.value
  valid : IsFilter p.field p.operator p.value
  scalars : ∀ v ∈ p.value.scalars, isRetrievalScalar v = true

variable {parsers c}

theorem retrievalPredicate_eq_ok {field : String} {operator : FilterOperator} {value : FilterValue}
    {p : RetrievalPredicate} (h : retrievalPredicate field operator value = .ok p) :
    p = ⟨field, operator, value⟩ ∧ IsFilter field operator value ∧
      ∀ v ∈ value.scalars, isRetrievalScalar v = true := by
  obtain ⟨hfield, h⟩ := check_bind_eq_ok.mp h
  obtain ⟨hshape, h⟩ := check_bind_eq_ok.mp h
  obtain ⟨hscalars, h⟩ := check_bind_eq_ok.mp h
  have hne : field ≠ "" := raiseIf_eq_ok.mp hfield
  have hall : ∀ v ∈ value.scalars, isRetrievalScalar v = true := by
    intro v hv
    by_contra hnot
    exact raiseIf_eq_ok.mp hscalars ⟨v, hv, Bool.eq_false_iff.mpr hnot⟩
  refine ⟨(Except.ok.inj h).symm, ?_, hall⟩
  cases value with
  | scalar v =>
    refine ⟨hne, ?_⟩
    rintro rfl
    cases hshape
  | tuple vs =>
    cases operator with
    | «in» =>
      refine ⟨hne, rfl, ?_⟩
      rintro rfl
      cases hshape
    | _ => cases hshape

theorem resolves_of_attribute {item : SearchFilter} {a : AttributeConfig} {value : FilterValue}
    {p : RetrievalPredicate} (ha : c.attribute? item.field = some a)
    (hvalue : coerceFilterValue parsers a.dataType item.value = .ok value)
    (h : retrievalPredicate item.field item.operator value = .ok p) : Resolves parsers c item p := by
  obtain ⟨rfl, hvalid, hscalars⟩ := retrievalPredicate_eq_ok h
  exact ⟨rfl, rfl, ⟨a, ha, hvalue⟩, hvalid, hscalars⟩

theorem resolves_of_resolvePredicate {item : SearchFilter} {p : RetrievalPredicate}
    (h : resolvePredicate parsers c item = .ok p) : Resolves parsers c item p := by
  unfold resolvePredicate at h
  split at h
  · rename_i a ha
    split at h
    · obtain ⟨value, hvalue, h⟩ := bind_eq_ok.mp h
      exact resolves_of_attribute ha hvalue (check_bind_eq_ok.mp h).2
    · cases h
  · cases h

theorem resolves_of_resolvePolicyPredicate {item : SearchFilter} {p : RetrievalPredicate}
    (h : resolvePolicyPredicate parsers c item = .ok p) : Resolves parsers c item p := by
  unfold resolvePolicyPredicate at h
  split at h
  · rename_i a ha
    split at h
    · obtain ⟨value, hvalue, h⟩ := bind_eq_ok.mp h
      exact resolves_of_attribute ha hvalue h
    · cases h
  · cases h

/-- Accepted user filters become one predicate each. -/
theorem forall₂_resolvePredicates {filters : List SearchFilter} {ps : List RetrievalPredicate}
    (h : resolvePredicates parsers c filters = .ok ps) : List.Forall₂ (Resolves parsers c) filters ps :=
  (mapM_eq_ok.mp h).imp fun _ _ => resolves_of_resolvePredicate

/-- Accepted policy filters become one predicate each, and none of the constrained attributes is
missing. -/
theorem forall₂_resolvePolicyPredicates {policyFilters : List SearchFilter}
    {ps : List RetrievalPredicate} (h : resolvePolicyPredicates parsers c policyFilters = .ok ps) :
    List.Forall₂ (Resolves parsers c) policyFilters ps ∧
      ∀ field ∈ c.policyFields, field ∈ policyFilters.map (·.field) := by
  obtain ⟨predicates, hpredicates, h⟩ := bind_eq_ok.mp h
  obtain ⟨hmissing, h⟩ := check_bind_eq_ok.mp h
  obtain rfl := Except.ok.inj h
  refine ⟨(mapM_eq_ok.mp hpredicates).imp fun _ _ => resolves_of_resolvePolicyPredicate, ?_⟩
  intro field hfield
  by_contra hnot
  have hmem : field ∈ sortedSet (c.policyFields.filter fun f => f ∉ policyFilters.map (·.field)) :=
    mem_sortedSet.mpr (List.mem_filter.mpr ⟨hfield, decide_eq_true hnot⟩)
  exact raiseIf_eq_ok.mp hmissing (List.ne_nil_of_mem hmem)

end Resolution

end Stel.Search
