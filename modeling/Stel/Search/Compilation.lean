import Stel.Search.Predicates

/-!
# The clause of a query

The clause that the predicates of a query are compiled to (`_compile_predicates` of
`retrieval/lancedb.py`), and what it says by the lexical rules of SQL.

## Main definitions

* `sqlString`, `sqlLiteral`, `compilePredicates`.
* `Denotes`, `Says`, `Compiled`: a clause says what the filters ask for.
* `SearchFilter.Expressible`: the values of a filter that have a text.

## Main results

* `sqlLiteral_spec`: the text of a value is one literal, which denotes it.
* `compiled_iff`: accepted filters are compiled to what they ask for exactly if they are expressible.
-/

namespace Stel.Search

open Stel.Calendar

/-! ### Compilation -/

/-- `_COLLECTION_RE.fullmatch`: a letter or an underscore, and up to 127 letters, digits or
underscores. -/
def isCollectionName (name : String) : Prop :=
  (name.toList.head?.map Sql.isWordStart) = some true ∧ name.toList.all Sql.isWordChar = true ∧
    name.toList.length ≤ 128

instance (name : String) : Decidable (isCollectionName name) :=
  inferInstanceAs (Decidable (_ ∧ _ ∧ _))

/-- `_sql_string`. -/
def sqlString (value : String) : Except Failure (List Char) :=
  if value = "" then .error (.retrievalError "LanceDB record IDs must be non-empty strings")
  else .ok (Sql.quote :: (Sql.doubled Sql.quote value.toList ++ [Sql.quote]))

/-- `_sql_literal`. -/
def sqlLiteral : Scalar → Except Failure (List Char)
  | .str s => sqlString s
  | .bool b => .ok (if b then "TRUE".toList else "FALSE".toList)
  | .datetime t => (sqlString (String.ofList t.isoformat)).map ("TIMESTAMP ".toList ++ ·)
  | .date d => (sqlString (String.ofList d.isoformat)).map ("DATE ".toList ++ ·)
  | .int z => (intText z).elim (.error (.other ("Exceeds the limit (4300 digits) for integer string " ++
    "conversion; use sys.set_int_max_str_digits() to increase the limit"))) .ok
  | .float f => .ok f.repr

/-- The dict `operators` of `_compile_predicates`. -/
def sqlOperator : FilterOperator → Option Sql.CompareOp
  | .equal => some .eq
  | .notEqual => some .ne
  | .lessThan => some .lt
  | .lessThanOrEqual => some .le
  | .greaterThan => some .gt
  | .greaterThanOrEqual => some .ge
  | .in => none

/-- One pass of `_compile_predicates`. -/
def compilePredicate (p : RetrievalPredicate) : Except Failure (List Char) := do
  raiseIf (¬ isCollectionName p.field) (.retrievalError "Retrieval predicate field is invalid")
  match sqlOperator p.operator, p.value with
  | none, .tuple vs =>
    let values ← vs.mapM sqlLiteral
    return p.field.toList ++ " IN (".toList ++ ", ".toList.intercalate values ++ ")".toList
  | some op, .scalar v =>
    let value ← sqlLiteral v
    return p.field.toList ++ " ".toList ++ op.text.toList ++ " ".toList ++ value
  | _, _ => .error (.other "AssertionError")

/-- `_compile_predicates`. -/
def compilePredicates (predicates : List RetrievalPredicate) : Except Failure (Option String) :=
  if predicates = [] then .ok none
  else (predicates.mapM compilePredicate).map fun clauses =>
    some (String.ofList (" AND ".toList.intercalate clauses))

/-! ### What a clause says -/

/-- The integer that a signed number denotes, which has neither a point nor an exponent. -/
def IntegerOf (negative : Bool) (n : Sql.Numeral) (z : ℤ) : Prop :=
  n.fraction = none ∧ n.exponent = none ∧
    z = if negative then -(Nat.ofDigitChars 10 n.whole 0 : ℤ) else Nat.ofDigitChars 10 n.whole 0

/-- The literal denotes the value: a string literal the string in it, a number the integer of its digits
or the float with its `repr`, and a typed string the date or the time that is read from it. -/
def Denotes : Sql.Literal → Scalar → Prop
  | .text s, .str value => s = value
  | .number negative n, .int z => IntegerOf negative n z
  | .number negative n, .float (.finite f) => negative = f.negative ∧ n = f.digits
  | .boolean b, .bool value => b = value
  | .date s, .date d => readDate s.toList = some (d, [])
  | .timestamp s, .datetime t => readDateTime s.toList = some t
  | _, _ => False

/-- The value has a text. -/
def Scalar.Writable : Scalar → Prop
  | .str s => s ≠ ""
  | .int z => digitCount z ≤ maxStrDigits
  | _ => True

theorem toDigits_wellFormed (n : ℕ) : (⟨Nat.toDigits 10 n, none, none⟩ : Sql.Numeral).WellFormed where
  whole_ne_nil := Nat.toDigits_ne_nil
  whole := fun _ hc => Nat.isDigit_of_mem_toDigits (by decide) (by decide) hc
  fraction := fun _ h => by cases h
  exponent := fun _ _ h => by cases h

theorem integerOf_toDigits (z : ℤ) :
    IntegerOf (decide (z < 0)) ⟨Nat.toDigits 10 z.natAbs, none, none⟩ z := by
  refine ⟨rfl, rfl, ?_⟩
  simp only [Nat.ofDigitChars_ten_toDigits, decide_eq_true_iff]
  split <;> omega

theorem sqlString_of_ne {s : String} (h : s ≠ "") : sqlString s = .ok (Sql.renderText s) := if_neg h

theorem sqlString_toList {cs : List Char} (h : cs ≠ []) :
    sqlString (String.ofList cs) = .ok (Sql.renderText (String.ofList cs)) := by
  refine sqlString_of_ne fun heq => h ?_
  rw [← String.toList_ofList (l := cs), heq]
  rfl

theorem isoformat_ne_nil (d : Date) (rest : List Char) : d.isoformat ++ rest ≠ [] := by
  rw [Date.isoformat, List.append_assoc, List.cons_append]
  exact List.append_ne_nil_of_right_ne_nil _ (List.cons_ne_nil _ _)

theorem render_integer (z : ℤ) (ds : List Char) :
    (Sql.Literal.number (decide (z < 0)) ⟨ds, none, none⟩).render =
      (if z < 0 then ['-'] else []) ++ ds := by
  show (if decide (z < 0) = true then ['-'] else []) ++ (ds ++ []) = _
  simp only [decide_eq_true_iff, List.append_nil]

theorem sqlLiteral_int {z : ℤ} (h : digitCount z ≤ maxStrDigits) : sqlLiteral (.int z) =
    .ok (Sql.Literal.number (decide (z < 0)) ⟨Nat.toDigits 10 z.natAbs, none, none⟩).render := by
  have htext : intText z = some ((if z < 0 then ['-'] else []) ++ Nat.toDigits 10 z.natAbs) := by
    rw [intText, if_pos h]
  rw [sqlLiteral, htext, render_integer]
  rfl

/-- **The text of a value is one literal, which denotes it.** -/
theorem sqlLiteral_spec {v : Scalar} (hfinite : isRetrievalScalar v = true) (hv : v.Writable) :
    ∃ l : Sql.Literal, sqlLiteral v = .ok l.render ∧ l.WellFormed ∧ Denotes l v := by
  cases v with
  | str s => exact ⟨.text s, sqlString_of_ne hv, trivial, rfl⟩
  | int z =>
    exact ⟨.number (decide (z < 0)) ⟨Nat.toDigits 10 z.natAbs, none, none⟩, sqlLiteral_int hv,
      toDigits_wellFormed _, integerOf_toDigits z⟩
  | float f =>
    cases f with
    | finite f => exact ⟨.number f.negative f.digits, rfl, f.wellFormed, rfl, rfl⟩
    | inf negative => cases hfinite
    | nan => cases hfinite
  | bool b => exact ⟨.boolean b, by cases b <;> rfl, trivial, rfl⟩
  | date d =>
    have hne := isoformat_ne_nil d []
    have hread := readDate_isoformat d []
    rw [List.append_nil] at hne hread
    refine ⟨.date (String.ofList d.isoformat), ?_, trivial, ?_⟩
    · rw [sqlLiteral, sqlString_toList hne]
      rfl
    · rw [Denotes, String.toList_ofList, hread]
  | datetime t =>
    refine ⟨.timestamp (String.ofList t.isoformat), ?_, trivial, ?_⟩
    · have hne : t.isoformat ≠ [] := isoformat_ne_nil _ _
      rw [sqlLiteral, sqlString_toList hne]
      rfl
    · rw [Denotes, String.toList_ofList, readDateTime_isoformat]

theorem writable_of_sqlLiteral {v : Scalar} {text : List Char} (h : sqlLiteral v = .ok text) :
    v.Writable := by
  cases v with
  | str s =>
    rintro rfl
    cases h
  | int z =>
    show digitCount z ≤ maxStrDigits
    by_contra hlong
    have htext : intText z = none := by rw [intText, if_neg hlong]
    rw [sqlLiteral, htext] at h
    cases h
  | _ => trivial

/-! ### One predicate -/

/-- The condition compares the field by the operator with the value. -/
def Compares (field : String) (operator : FilterOperator) (value : FilterValue) :
    Sql.Condition → Prop
  | .compare name op l => name = field ∧ sqlOperator operator = some op ∧
      ∃ v, value = .scalar v ∧ Denotes l v
  | .isIn name ls => name = field ∧ operator = .in ∧ ∃ vs, value = .tuple vs ∧ List.Forall₂ Denotes ls vs

theorem isWord_of_isCollectionName {name : String} (h : isCollectionName name) : Sql.IsWord name :=
  Sql.isWord_of_decide h.1 h.2.1

theorem renderLiterals_eq (ls : List Sql.Literal) :
    Sql.renderLiterals ls = ", ".toList.intercalate (ls.map Sql.Literal.render) := by
  induction ls with
  | nil => rfl
  | cons l ls ih =>
    cases ls with
    | nil => exact (List.intercalate_singleton).symm
    | cons l' ls =>
      rw [List.map_cons, List.map_cons, List.intercalate_cons_cons, ← List.map_cons, ← ih,
        List.append_assoc]
      rfl

theorem renderConjunction_eq (cs : List Sql.Condition) :
    Sql.renderConjunction cs = " AND ".toList.intercalate (cs.map Sql.Condition.render) := by
  induction cs with
  | nil => rfl
  | cons c cs ih =>
    cases cs with
    | nil => exact (List.intercalate_singleton).symm
    | cons c' cs =>
      rw [List.map_cons, List.map_cons, List.intercalate_cons_cons, ← List.map_cons, ← ih,
        List.append_assoc]
      rfl

theorem sqlLiterals_spec {vs : List Scalar} (hfinite : ∀ v ∈ vs, isRetrievalScalar v = true)
    (hvs : ∀ v ∈ vs, v.Writable) : ∃ ls : List Sql.Literal, vs.mapM sqlLiteral =
      .ok (ls.map Sql.Literal.render) ∧ (∀ l ∈ ls, l.WellFormed) ∧ List.Forall₂ Denotes ls vs := by
  induction vs with
  | nil => exact ⟨[], rfl, by simp, .nil⟩
  | cons v vs ih =>
    obtain ⟨hv, hvs⟩ := List.forall_mem_cons.mp hvs
    obtain ⟨hfinite, hrest⟩ := List.forall_mem_cons.mp hfinite
    obtain ⟨l, hl, hwell, hdenotes⟩ := sqlLiteral_spec hfinite hv
    obtain ⟨ls, hls, hwells, hall⟩ := ih hrest hvs
    refine ⟨l :: ls, ?_, List.forall_mem_cons.mpr ⟨hwell, hwells⟩, .cons hdenotes hall⟩
    exact mapM_eq_ok.mpr (.cons hl (mapM_eq_ok.mp hls))

section Predicate

variable {p : RetrievalPredicate}

/-- The text of a predicate is one comparison, which says what the predicate says. -/
theorem compilePredicate_spec (hfield : isCollectionName p.field)
    (hvalid : IsFilter p.field p.operator p.value)
    (hfinite : ∀ v ∈ p.value.scalars, isRetrievalScalar v = true)
    (hwritable : ∀ v ∈ p.value.scalars, v.Writable) : ∃ condition : Sql.Condition,
      compilePredicate p = .ok condition.render ∧ condition.WellFormed ∧
        Compares p.field p.operator p.value condition := by
  obtain ⟨field, operator, value⟩ := p
  have hchecked : raiseIf (¬ isCollectionName field)
      (.retrievalError "Retrieval predicate field is invalid") = .ok () :=
    raiseIf_eq_ok.mpr (not_not.mpr hfield)
  cases value with
  | scalar v =>
    obtain ⟨op, hop⟩ : ∃ op, sqlOperator operator = some op := by
      cases operator with
      | «in» => exact absurd rfl hvalid.2
      | _ => exact ⟨_, rfl⟩
    obtain ⟨l, hl, hwell, hdenotes⟩ :=
      sqlLiteral_spec (hfinite v (List.mem_singleton_self v)) (hwritable v (List.mem_singleton_self v))
    refine ⟨.compare field op l, ?_, ⟨isWord_of_isCollectionName hfield, hwell⟩, rfl, hop, v, rfl, hdenotes⟩
    refine check_bind_eq_ok.mpr ⟨hchecked, ?_⟩
    simp only [hop, hl]
    exact congrArg Except.ok (by simp [Sql.Condition.render])
  | tuple vs =>
    obtain ⟨-, rfl, hne⟩ := hvalid
    obtain ⟨ls, hls, hwells, hall⟩ := sqlLiterals_spec hfinite hwritable
    have hnonempty : ls ≠ [] := by
      rintro rfl
      cases hall
      exact hne rfl
    refine ⟨.isIn field ls, ?_, ⟨isWord_of_isCollectionName hfield, hnonempty, hwells⟩, rfl, rfl, vs, rfl,
      hall⟩
    refine check_bind_eq_ok.mpr ⟨hchecked, bind_eq_ok.mpr ⟨_, hls, ?_⟩⟩
    exact congrArg Except.ok (by simp [Sql.Condition.render, renderLiterals_eq])

theorem writable_of_compilePredicate {text : List Char} (h : compilePredicate p = .ok text) :
    ∀ v ∈ p.value.scalars, v.Writable := by
  obtain ⟨field, operator, value⟩ := p
  obtain ⟨-, h⟩ := check_bind_eq_ok.mp h
  cases value with
  | scalar v =>
    cases hop : sqlOperator operator with
    | none => simp [hop] at h
    | some op =>
      simp only [hop] at h
      obtain ⟨value, hvalue, -⟩ := bind_eq_ok.mp h
      exact List.forall_mem_singleton.mpr (writable_of_sqlLiteral hvalue)
  | tuple vs =>
    cases hop : sqlOperator operator with
    | some op => simp [hop] at h
    | none =>
      simp only [hop] at h
      obtain ⟨values, hvalues, -⟩ := bind_eq_ok.mp h
      intro v hv
      obtain ⟨i, hi, rfl⟩ := List.getElem_of_mem hv
      have hall := mapM_eq_ok.mp hvalues
      exact writable_of_sqlLiteral (hall.get hi (hall.length_eq ▸ hi))

end Predicate

/-! ### The filters of a query -/

/-- What a clause says; no clause says nothing. -/
def readFilter : Option String → Option (List Sql.Condition)
  | none => some []
  | some clause => Sql.readClause clause

section Filters

variable (parsers : Parsers) (c : SearchConfig)

/-- The condition is the comparison that the filter asks for, with its value in the type of the
attribute. -/
def Says (condition : Sql.Condition) (item : SearchFilter) : Prop :=
  ∃ a value, c.attribute? item.field = some a ∧
    coerceFilterValue parsers a.dataType item.value = .ok value ∧
      Compares item.field item.operator value condition

/-- There is a clause, and it says the conjunction of what the filters ask for. -/
def Compiled (items : List SearchFilter) (clause : Except Failure (Option String)) : Prop :=
  ∃ text conditions, clause = .ok text ∧ readFilter text = some conditions ∧
    List.Forall₂ (Says parsers c) conditions items

/-- A text of an attribute of texts is not empty, and an integer of an attribute of integers does not
have too many digits. -/
def ScalarExpressible (dataType : AttributeType) : Scalar → Prop
  | .str s => dataType = .string ∨ dataType = .strings → s ≠ ""
  | .int z => dataType = .integer → digitCount z ≤ maxStrDigits
  | _ => True

/-- The values of the filter have texts. -/
def SearchFilter.Expressible (item : SearchFilter) : Prop :=
  ∀ a, c.attribute? item.field = some a → ∀ v ∈ item.value.scalars, ScalarExpressible a.dataType v

variable {parsers c}

theorem map_orMismatch_eq_ok {α : Type} {x : Option α} {f : α → Scalar} {w : Scalar}
    (h : (orMismatch x).map f = .ok w) : ∃ a, x = some a ∧ w = f a := by
  cases x with
  | none => cases h
  | some a => exact ⟨a, rfl, (Except.ok.inj h).symm⟩

theorem finiteOrMismatch_eq_ok {f : PyFloat} {w : Scalar} (h : finiteOrMismatch f = .ok w) :
    w = .float f := by
  unfold finiteOrMismatch at h
  split at h
  · exact (Except.ok.inj h).symm
  · cases h

theorem scalarExpressible_of_ne {dataType : AttributeType} (v : Scalar) (hstring : dataType ≠ .string)
    (hstrings : dataType ≠ .strings) (hinteger : dataType ≠ .integer) : ScalarExpressible dataType v := by
  cases v with
  | str s => exact fun h => absurd h (not_or.mpr ⟨hstring, hstrings⟩)
  | int z => exact fun h => absurd h hinteger
  | _ => trivial

theorem coerceScalar_float {v w : Scalar} (h : coerceScalar parsers .float v = .ok w) :
    ∃ f, w = .float f := by
  cases v with
  | str s =>
    obtain ⟨f, -, h⟩ := bind_eq_ok.mp h
    exact ⟨f, finiteOrMismatch_eq_ok h⟩
  | int z =>
    unfold coerceScalar at h
    cases hfloat : parsers.floatOfInt z with
    | none => simp [hfloat] at h
    | some f =>
      simp only [hfloat] at h
      exact ⟨f, finiteOrMismatch_eq_ok h⟩
  | float f => exact ⟨f, finiteOrMismatch_eq_ok h⟩
  | _ => cases h

theorem coerceScalar_boolean {v w : Scalar} (h : coerceScalar parsers .boolean v = .ok w) :
    ∃ b, w = .bool b := by
  cases v with
  | bool b => exact ⟨b, (Except.ok.inj h).symm⟩
  | str s =>
    simp only [coerceScalar] at h
    split at h
    · exact ⟨_, (Except.ok.inj h).symm⟩
    · cases h
  | _ => cases h

theorem coerceScalar_date {v w : Scalar} (h : coerceScalar parsers .date v = .ok w) :
    ∃ d, w = .date d := by
  cases v with
  | date d => exact ⟨d, (Except.ok.inj h).symm⟩
  | datetime t => cases h
  | _ =>
    obtain ⟨d, -, hw⟩ := map_orMismatch_eq_ok h
    exact ⟨d, hw⟩

theorem coerceScalar_timestamp {v w : Scalar} (h : coerceScalar parsers .timestamp v = .ok w) :
    ∃ t, w = .datetime t := by
  cases v with
  | datetime t => exact ⟨t, (Except.ok.inj h).symm⟩
  | _ =>
    obtain ⟨t, -, hw⟩ := map_orMismatch_eq_ok h
    exact ⟨t, hw⟩

theorem writable_coerceText {dataType : AttributeType} (htext : dataType = .string ∨ dataType = .strings)
    {v w : Scalar} (h : coerceScalar parsers dataType v = .ok w) :
    w.Writable ↔ ScalarExpressible dataType v := by
  cases v with
  | str s =>
    have hw : w = .str s := by
      rcases htext with rfl | rfl
      · exact (Except.ok.inj h).symm
      · exact (Except.ok.inj h).symm
    subst hw
    exact ⟨fun hne _ => hne, fun hne => hne htext⟩
  | _ => rcases htext with rfl | rfl <;> cases h

theorem writable_coerceInteger {v w : Scalar} (h : coerceScalar parsers .integer v = .ok w) :
    w.Writable ↔ ScalarExpressible .integer v := by
  cases v with
  | int z =>
    obtain rfl := Except.ok.inj h
    exact ⟨fun hlength _ => hlength, fun hlength => hlength rfl⟩
  | str s =>
    obtain ⟨z, hz, rfl⟩ := map_orMismatch_eq_ok h
    obtain ⟨-, hlength⟩ := Option.filter_eq_some_iff.mp hz
    have hle : digitCount z ≤ maxStrDigits := of_decide_eq_true hlength
    refine iff_of_true hle ?_
    rintro (htext | htext) <;> cases htext
  | _ => cases h

/-- The value in the type of the attribute has a text exactly if the given value is expressible. -/
theorem writable_coerceScalar {dataType : AttributeType} {v w : Scalar}
    (h : coerceScalar parsers dataType v = .ok w) : w.Writable ↔ ScalarExpressible dataType v := by
  cases dataType with
  | string => exact writable_coerceText (.inl rfl) h
  | strings => exact writable_coerceText (.inr rfl) h
  | integer => exact writable_coerceInteger h
  | float =>
    obtain ⟨f, rfl⟩ := coerceScalar_float h
    exact iff_of_true trivial (scalarExpressible_of_ne v (by decide) (by decide) (by decide))
  | boolean =>
    obtain ⟨b, rfl⟩ := coerceScalar_boolean h
    exact iff_of_true trivial (scalarExpressible_of_ne v (by decide) (by decide) (by decide))
  | date =>
    obtain ⟨d, rfl⟩ := coerceScalar_date h
    exact iff_of_true trivial (scalarExpressible_of_ne v (by decide) (by decide) (by decide))
  | timestamp =>
    obtain ⟨t, rfl⟩ := coerceScalar_timestamp h
    exact iff_of_true trivial (scalarExpressible_of_ne v (by decide) (by decide) (by decide))

theorem forall_mem_iff_of_forall₂ {α β : Type} {P : α → Prop} {Q : β → Prop} {xs : List α} {ys : List β}
    (h : List.Forall₂ (fun x y => P x ↔ Q y) xs ys) : (∀ x ∈ xs, P x) ↔ ∀ y ∈ ys, Q y := by
  induction h with
  | nil => exact iff_of_true (by simp) (by simp)
  | cons hxy _ ih => rw [List.forall_mem_cons, List.forall_mem_cons, hxy, ih]

theorem writable_coerceFilterValue {dataType : AttributeType} {value value' : FilterValue}
    (h : coerceFilterValue parsers dataType value = .ok value') :
    (∀ w ∈ value'.scalars, w.Writable) ↔ ∀ v ∈ value.scalars, ScalarExpressible dataType v := by
  cases value with
  | scalar v =>
    cases hv : coerceScalar parsers dataType v with
    | error e =>
      rw [coerceFilterValue, hv] at h
      cases h
    | ok w =>
      rw [coerceFilterValue, hv] at h
      obtain rfl := Except.ok.inj h
      exact List.forall_mem_singleton.trans
        ((writable_coerceScalar hv).trans List.forall_mem_singleton.symm)
  | tuple vs =>
    cases hvs : vs.mapM (coerceScalar parsers dataType) with
    | error e =>
      rw [coerceFilterValue, hvs] at h
      cases h
    | ok ws =>
      rw [coerceFilterValue, hvs] at h
      obtain rfl := Except.ok.inj h
      exact (forall_mem_iff_of_forall₂ ((mapM_eq_ok.mp hvs).imp fun _ _ hv =>
        (writable_coerceScalar hv).symm)).symm

/-- The values of the predicate have texts exactly if those of its filter do. -/
theorem Resolves.expressible_iff {item : SearchFilter} {p : RetrievalPredicate}
    (h : Resolves parsers c item p) :
    item.Expressible c ↔ ∀ w ∈ p.value.scalars, w.Writable := by
  obtain ⟨a, ha, hvalue⟩ := h.value
  rw [writable_coerceFilterValue hvalue]
  constructor
  · intro hitem
    exact hitem a ha
  · intro hvalues a' ha'
    obtain rfl := Option.some_inj.mp (ha.symm.trans ha')
    exact hvalues

theorem Resolves.means {item : SearchFilter} {p : RetrievalPredicate} {condition : Sql.Condition}
    (h : Resolves parsers c item p) (hcompares : Compares p.field p.operator p.value condition) :
    Says parsers c condition item := by
  obtain ⟨a, ha, hvalue⟩ := h.value
  rw [h.field, h.operator] at hcompares
  exact ⟨a, p.value, ha, hvalue, hcompares⟩

/-- Every attribute has a name that the store accepts as an identifier. -/
def SearchConfig.NamesCollections (c : SearchConfig) : Prop := ∀ a ∈ c.attributes, isCollectionName a.name

theorem Resolves.isCollectionName {item : SearchFilter} {p : RetrievalPredicate}
    (hnames : c.NamesCollections) (h : Resolves parsers c item p) : isCollectionName p.field := by
  obtain ⟨a, ha, -⟩ := h.value
  have hmem := List.mem_reverse.mp (List.mem_of_find?_eq_some ha)
  have hname : a.name = item.field := by
    have hfound := List.find?_some ha
    exact of_decide_eq_true hfound
  rw [h.field, ← hname]
  exact hnames a hmem

theorem compilePredicate_mapM {items : List SearchFilter} {ps : List RetrievalPredicate}
    (hnames : c.NamesCollections) (h : List.Forall₂ (Resolves parsers c) items ps)
    (hitems : ∀ item ∈ items, item.Expressible c) : ∃ conditions : List Sql.Condition,
      ps.mapM compilePredicate = .ok (conditions.map Sql.Condition.render) ∧
        (∀ condition ∈ conditions, condition.WellFormed) ∧
          List.Forall₂ (Says parsers c) conditions items := by
  induction h with
  | nil => exact ⟨[], rfl, by simp, .nil⟩
  | cons hresolves _ ih =>
    obtain ⟨hitem, hitems⟩ := List.forall_mem_cons.mp hitems
    obtain ⟨condition, hcompile, hwell, hcompares⟩ := compilePredicate_spec
      (hresolves.isCollectionName hnames) hresolves.valid hresolves.scalars
      (hresolves.expressible_iff.mp hitem)
    obtain ⟨conditions, hrest, hwells, hall⟩ := ih hitems
    exact ⟨condition :: conditions, mapM_eq_ok.mpr (.cons hcompile (mapM_eq_ok.mp hrest)),
      List.forall_mem_cons.mpr ⟨hwell, hwells⟩, .cons (hresolves.means hcompares) hall⟩

theorem compiled_of_expressible {items : List SearchFilter} {ps : List RetrievalPredicate}
    (hnames : c.NamesCollections) (h : List.Forall₂ (Resolves parsers c) items ps)
    (hitems : ∀ item ∈ items, item.Expressible c) : Compiled parsers c items (compilePredicates ps) := by
  obtain ⟨conditions, hmapM, hwells, hall⟩ := compilePredicate_mapM hnames h hitems
  by_cases hps : ps = []
  · subst hps
    cases h
    exact ⟨none, [], rfl, rfl, .nil⟩
  · have hne : conditions ≠ [] := by
      rintro rfl
      cases hall
      cases h
      exact hps rfl
    refine ⟨some (String.ofList (Sql.renderConjunction conditions)), conditions, ?_,
      Sql.readClause_render hne hwells, hall⟩
    rw [compilePredicates, if_neg hps, hmapM, renderConjunction_eq]
    rfl

theorem expressible_of_compilePredicates {items : List SearchFilter} {ps : List RetrievalPredicate}
    (h : List.Forall₂ (Resolves parsers c) items ps) {text : Option String}
    (hcompile : compilePredicates ps = .ok text) : ∀ item ∈ items, item.Expressible c := by
  by_cases hps : ps = []
  · subst hps
    cases h
    simp
  · cases hmapM : ps.mapM compilePredicate with
    | error e =>
      rw [compilePredicates, if_neg hps, hmapM] at hcompile
      cases hcompile
    | ok texts =>
      have hall := mapM_eq_ok.mp hmapM
      intro item hitem
      obtain ⟨i, hi, rfl⟩ := List.getElem_of_mem hitem
      have hi' : i < ps.length := h.length_eq ▸ hi
      exact (h.get hi hi').expressible_iff.mpr
        (writable_of_compilePredicate (hall.get hi' (hall.length_eq ▸ hi')))

/-- **Accepted filters are compiled to exactly what they ask for, provided that they are expressible**:
no text for an attribute of texts is empty, and no integer for an attribute of integers has more than
4300 digits. Otherwise the compilation raises. -/
theorem compiled_iff {filters policyFilters : List SearchFilter} {ps qs : List RetrievalPredicate}
    (hnames : c.NamesCollections) (huser : resolvePredicates parsers c filters = .ok ps)
    (hpolicy : resolvePolicyPredicates parsers c policyFilters = .ok qs) :
    Compiled parsers c (policyFilters ++ filters) (compilePredicates (qs ++ ps)) ↔
      ∀ item ∈ policyFilters ++ filters, item.Expressible c := by
  have hresolves : List.Forall₂ (Resolves parsers c) (policyFilters ++ filters) (qs ++ ps) :=
    List.rel_append (forall₂_resolvePolicyPredicates hpolicy).1 (forall₂_resolvePredicates huser)
  constructor
  · rintro ⟨text, conditions, hcompile, -, -⟩
    exact expressible_of_compilePredicates hresolves hcompile
  · exact compiled_of_expressible hnames hresolves

/-! ### A query about an author -/

/-- A search resource with an attribute for users, a text. -/
def authorConfig : SearchConfig where
  idField := "id"
  textFields := ["text"]
  attributes := [{ name := "author", dataType := .string, filterRole := .user }]
  modes := [.text]

/-- The filter that the author is the text. -/
def authorFilter (author : String) : SearchFilter where
  field := "author"
  operator := .equal
  value := .scalar (.str author)
  valid := ⟨by decide, by decide⟩

/-- Parsers that read nothing, for values that are not parsed. -/
def noParsers : Parsers := ⟨fun _ => none, fun _ => none, fun _ => none, fun _ => none, fun _ => none⟩

theorem resolvePredicates_author (author : String) : resolvePredicates noParsers authorConfig
    [authorFilter author] = .ok [⟨"author", .equal, .scalar (.str author)⟩] := rfl

theorem resolvePolicyPredicates_nil :
    resolvePolicyPredicates noParsers authorConfig [] = .ok [] := rfl

theorem namesCollections_author : authorConfig.NamesCollections := by
  intro a ha
  obtain rfl := List.mem_singleton.mp ha
  decide

/-- A text with a quote and a comment marker is expressible. -/
theorem compiled_iff_quoted :
    Compiled noParsers authorConfig [authorFilter "O'Neil' -- OR 1"]
      (compilePredicates [⟨"author", .equal, .scalar (.str "O'Neil' -- OR 1")⟩]) ↔
    ∀ item ∈ [authorFilter "O'Neil' -- OR 1"], item.Expressible authorConfig :=
  compiled_iff namesCollections_author (resolvePredicates_author _) resolvePolicyPredicates_nil

/-- An empty text is accepted, and raises the error of an empty record ID. -/
theorem emptyAuthor_not_compiled :
    (∃ ps, resolvePredicates noParsers authorConfig [authorFilter ""] = .ok ps ∧
      compilePredicates ps =
        .error (.retrievalError "LanceDB record IDs must be non-empty strings") ∧
      ¬ Compiled noParsers authorConfig [authorFilter ""] (compilePredicates ps)) := by
  have hcompile : compilePredicates [⟨"author", .equal, .scalar (.str "")⟩] =
      .error (.retrievalError "LanceDB record IDs must be non-empty strings") := rfl
  refine ⟨_, resolvePredicates_author "", hcompile, ?_⟩
  rintro ⟨text, conditions, hok, -, -⟩
  rw [hcompile] at hok
  cases hok

end Filters

end Stel.Search
