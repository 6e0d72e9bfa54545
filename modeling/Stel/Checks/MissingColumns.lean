import Stel.Checks.Schema

/-!
# Checks of missing columns

A check that names a column which its relation does not have raises where it reads the column in SQL
or looks for it in the schema. Four of them do not always get there. `matches_regex` takes a missing
column as one without values, and `grounded_in` reads rows with `row.get`. `null_rate` passes an empty
relation before it reads the column. In the subquery of `relationships` a name that the parent does
not have is a column of the outer row.

## Main definitions

* `Warehouse.Missing`, `MissingColumn`: a column that a spec names is missing.
* `NoPass`, `Detects`: no result reports a pass, and when that is so.

## Main results

* `noPass_iff`: a check of a missing column reports no pass exactly if `Detects` holds.
-/

namespace Stel.Checks

variable {V W N : Type}

/-- No column of the relation has this name for the warehouse. -/
def Warehouse.Missing (warehouse : Warehouse V) (relation : Relation V) (name : String) : Prop :=
  ∀ column ∈ relation.columns, warehouse.sameName name column = false

instance (warehouse : Warehouse V) (relation : Relation V) (name : String) :
    Decidable (warehouse.Missing relation name) :=
  inferInstanceAs (Decidable (∀ column ∈ relation.columns, _))

/-- A column that a check names does not exist: in the relation that is tested, or in the parent for
the field of `relationships`. -/
def MissingColumn (ctx : Context V W N) : Spec V → Prop
  | .notNull columns | .unique columns => ∃ c ∈ columns, ctx.warehouse.Missing ctx.relation c
  | .matchesRegex column _ | .acceptedValues column _ | .acceptedRange column _ _
  | .nullRate column _ _ | .vectors _ column | .columnStat _ column | .cardinality _ column
  | .outlierRate _ column => ctx.warehouse.Missing ctx.relation column
  | .groundedIn value source _ _ =>
    ctx.warehouse.Missing ctx.relation value ∨ ctx.warehouse.Missing ctx.relation source
  | .relationships column parentName field => ctx.warehouse.Missing ctx.relation column ∨
    ∃ parent ∈ ctx.warehouse.relation parentName, ctx.warehouse.Missing parent field
  | .golden _ | .unstored _ _ _ => False

/-- The checks that do not pass when a column is missing. -/
def Detects (ctx : Context V W N) : Spec V → Prop
  | .matchesRegex _ _ | .groundedIn _ _ _ _ => False
  | .nullRate _ _ _ => ctx.relation.rows ≠ []
  | .relationships column parentName field => ∀ parent ∈ ctx.warehouse.relation parentName,
    ctx.warehouse.Missing ctx.relation column ∨ ctx.warehouse.Missing ctx.relation field ∨
      ∃ c f, ctx.relation.columns.find? (ctx.warehouse.sameName column) = some c ∧
        ctx.relation.columns.find? (ctx.warehouse.sameName field) = some f ∧
        ∃ row ∈ ctx.relation.rows, row c ≠ ctx.warehouse.null ∧ (parent.rows = [] ∨ row f ≠ row c)
  | _ => True

variable {ctx : Context V W N} {spec : Spec V} {severity : Severity}

/-! ### Names and results -/

theorem Warehouse.Missing.find?_eq_none {warehouse : Warehouse V} {relation : Relation V}
    {name : String} (h : warehouse.Missing relation name) :
    relation.columns.find? (warehouse.sameName name) = none :=
  List.find?_eq_none.mpr fun column hmem => by simp [h column hmem]

theorem Warehouse.Missing.notMem {warehouse : Warehouse V} {relation : Relation V} {name : String}
    (h : warehouse.Missing relation name) : name ∉ relation.columns := by
  intro hmem
  have hself := warehouse.sameName_refl name
  rw [h name hmem] at hself
  cases hself

theorem Warehouse.exists_of_not_missing {warehouse : Warehouse V} {relation : Relation V}
    {name : String} (h : ¬ warehouse.Missing relation name) :
    ∃ column, relation.columns.find? (warehouse.sameName name) = some column := by
  by_contra hnone
  refine h fun column hmem => ?_
  have hfind := Option.eq_none_iff_forall_ne_some.mpr fun c heq => hnone ⟨c, heq⟩
  simpa using List.find?_eq_none.mp hfind column hmem

theorem finish_status {testName column : String} {fails stores : Bool} {contents : Contents V} :
    (finish ctx testName column fails stores contents).result.status =
      if fails then .fail else .pass := by
  unfold finish
  dsimp only
  split <;> rfl

theorem Warehouse.Missing.resolve {warehouse : Warehouse V} {relation : Relation V} {name : String}
    (h : warehouse.Missing relation name) : warehouse.resolve relation name = .error .warehouse := by
  rw [Warehouse.resolve, h.find?_eq_none]

theorem applySeverity_status_eq_pass {result : TestResult} :
    (applySeverity severity result).status = .pass ↔ result.status = .pass := by
  unfold applySeverity
  dsimp only
  split
  · rename_i h
    simp [h.1]
  · rfl

theorem countCheck_status {testName column : String} {selects : Row V → Bool} :
    (countCheck ctx testName column selects).result.status ≠ .pass ↔
      ∃ row ∈ ctx.relation.rows, selects row = true := by
  rw [countCheck, finish_status]
  constructor
  · intro hne
    by_contra hnone
    have hnil : ctx.relation.rows.filter selects = [] :=
      List.filter_eq_nil_iff.mpr fun row hrow hselects => hnone ⟨row, hrow, hselects⟩
    simp [hnil] at hne
  · rintro ⟨row, hrow, hselects⟩
    have hne : ctx.relation.rows.filter selects ≠ [] :=
      List.ne_nil_of_mem (List.mem_filter.mpr ⟨hrow, hselects⟩)
    simp [hne]

/-- A loop over columns raises at the first one that is missing. -/
theorem mapM_missing {α : Type} {f : String → Except CheckError α} {columns : List String}
    {name : String} (hmem : name ∈ columns) (h : ∃ e, f name = .error e) :
    ∃ e, columns.mapM f = .error e := by
  cases hmap : columns.mapM f with
  | error e => exact ⟨e, rfl⟩
  | ok ys =>
    obtain ⟨e, he⟩ := h
    obtain ⟨i, hi, rfl⟩ := List.getElem_of_mem hmem
    have hall := mapM_eq_ok.mp hmap
    have hget := hall.get hi (hall.length_eq ▸ hi)
    rw [List.get_eq_getElem, he] at hget
    cases hget

theorem numericValues_missing {column : String}
    (h : ctx.warehouse.Missing ctx.relation column) :
    numericValues ctx column = .error .unknownTest := if_neg fun hand => h.notMem hand.1

/-! ### Raising and reporting -/

variable [DecidableEq V]

/-- No result of a spec reports a pass. -/
def NoPass (ctx : Context V W N) (spec : Spec V) (severity : Severity) : Prop :=
  ∀ reports, evaluateTestSpec ctx spec severity = .ok reports →
    ∀ report ∈ reports, report.result.status ≠ .pass

/-- A check that raises reports nothing. -/
theorem noPass_of_error {e : CheckError} (h : runNamedTest ctx spec = .error e) :
    NoPass ctx spec severity := by
  intro reports hreports
  rw [evaluateTestSpec, h] at hreports
  cases hreports

/-- A check with one result. -/
theorem noPass_iff_of_ok {report : Report V} (h : runNamedTest ctx spec = .ok [report]) :
    NoPass ctx spec severity ↔ report.result.status ≠ .pass := by
  have hevaluate : evaluateTestSpec ctx spec severity =
      .ok [{ report with result := applySeverity severity report.result }] := by
    rw [evaluateTestSpec, h]
    rfl
  unfold NoPass
  rw [hevaluate]
  constructor
  · intro hall hpass
    exact hall _ rfl _ (List.mem_singleton_self _) (applySeverity_status_eq_pass.mpr hpass)
  · rintro hne reports hreports report' hmem hpass
    obtain rfl := Except.ok.inj hreports
    rw [List.mem_singleton.mp hmem] at hpass
    exact hne (applySeverity_status_eq_pass.mp hpass)

/-! ### Check by check -/

theorem loadVectors_missing {column : String}
    (h : ctx.warehouse.Missing ctx.relation column) :
    loadVectors ctx column = .error .unknownTest := if_neg h.notMem

/-- A row that `row.get` finds no value for is never blamed. -/
theorem ungrounded_missing {value source : String} {method : GroundingMethod} {minScore : ℚ}
    (h : ctx.warehouse.Missing ctx.relation value ∨ ctx.warehouse.Missing ctx.relation source)
    (row : Row V) : ungrounded ctx value source method minScore row = false := by
  rcases h with h | h <;> simp [ungrounded, Relation.get, h.notMem]

/-- A key list that holds one value as often as the parent has rows. -/
theorem outside_replicated {warehouse : Warehouse V} {v key : V} {parent : List (Row V)} :
    warehouse.outside v ((parent.map fun _ => key).filter fun k => k ≠ warehouse.null) = true ↔
      v ≠ warehouse.null ∧ (parent = [] ∨ key ≠ v) := by
  by_cases hv : v = warehouse.null
  · simp [Warehouse.outside, hv]
  · cases parent with
    | nil => simp [Warehouse.outside, Warehouse.isIn, hv]
    | cons row parent =>
      by_cases hkey : key = warehouse.null
      · subst hkey
        simp [Warehouse.outside, Warehouse.isIn, hv, Ne.symm hv]
      · have heq : warehouse.sqlEq v key = some (decide (v = key)) := by
          simp [Warehouse.sqlEq, hv, hkey]
        by_cases hkv : v = key
        · subst hkv
          simp [Warehouse.outside, Warehouse.isIn, hkey, heq]
        · simp [Warehouse.outside, Warehouse.isIn, hv, hkey, heq, hkv, Ne.symm hkv]

theorem noPass_relationships {column parentName field : String}
    (h : MissingColumn ctx (.relationships column parentName field)) :
    NoPass ctx (.relationships column parentName field) severity ↔
      Detects ctx (.relationships column parentName field) := by
  cases hparent : ctx.warehouse.relation parentName with
  | none =>
    have hrun : runNamedTest ctx (.relationships column parentName field) =
        .error .warehouse := by
      simp only [runNamedTest, relationships, hparent]
      rfl
    exact ⟨fun _ parent hmem => by simp [hparent] at hmem, fun _ => noPass_of_error hrun⟩
  | some parent =>
    have hdetects : Detects ctx (.relationships column parentName field) ↔
        ctx.warehouse.Missing ctx.relation column ∨ ctx.warehouse.Missing ctx.relation field ∨
          ∃ c f, ctx.relation.columns.find? (ctx.warehouse.sameName column) = some c ∧
            ctx.relation.columns.find? (ctx.warehouse.sameName field) = some f ∧
            ∃ row ∈ ctx.relation.rows, row c ≠ ctx.warehouse.null ∧
              (parent.rows = [] ∨ row f ≠ row c) := by
      simp [Detects, hparent]
    rw [hdetects]
    by_cases hcolumn : ctx.warehouse.Missing ctx.relation column
    · have hrun : runNamedTest ctx (.relationships column parentName field) =
          .error .warehouse := by
        simp only [runNamedTest, relationships, hparent, hcolumn.resolve]
        rfl
      exact ⟨fun _ => .inl hcolumn, fun _ => noPass_of_error hrun⟩
    · obtain ⟨c, hc⟩ := Warehouse.exists_of_not_missing hcolumn
      have hfield : ctx.warehouse.Missing parent field := by
        rcases h with h | ⟨parent', hmem, h⟩
        · exact absurd h hcolumn
        · obtain rfl := Option.some.inj (hparent.symm.trans hmem)
          exact h
      by_cases houter : ctx.warehouse.Missing ctx.relation field
      · have hrun : runNamedTest ctx (.relationships column parentName field) =
            .error .warehouse := by
          simp only [runNamedTest, relationships, hparent, Warehouse.resolve, hc,
            Warehouse.subqueryColumn, hfield.find?_eq_none, houter.find?_eq_none]
          rfl
        exact ⟨fun _ => .inr (.inl houter), fun _ => noPass_of_error hrun⟩
      · obtain ⟨f, hf⟩ := Warehouse.exists_of_not_missing houter
        have hrun : runNamedTest ctx (.relationships column parentName field) =
            .ok [countCheck ctx "relationships" column fun row => ctx.warehouse.outside (row c)
              ((parent.rows.map fun _ => row f).filter fun key => key ≠ ctx.warehouse.null)] := by
          simp only [runNamedTest, relationships, hparent, Warehouse.resolve, hc,
            Warehouse.subqueryColumn, hfield.find?_eq_none, hf]
          rfl
        rw [noPass_iff_of_ok hrun, countCheck_status]
        simp only [outside_replicated, hcolumn, houter, false_or, hc, hf, Option.some.injEq,
          exists_and_left, exists_eq_left']

/-- When a column that a check names does not exist, no result reports a pass exactly if the check
is none of `matches_regex` and `grounded_in`, the relation is not empty for `null_rate`, and for a
missing parent field of `relationships` the outer row has no such column either or a row differs. -/
theorem noPass_iff (ctx : Context V W N) (spec : Spec V) (severity : Severity)
    (h : MissingColumn ctx spec) : NoPass ctx spec severity ↔ Detects ctx spec := by
  have hraises : (∃ e, runNamedTest ctx spec = .error e) → Detects ctx spec →
      (NoPass ctx spec severity ↔ Detects ctx spec) := by
    rintro ⟨e, he⟩ hdetects
    exact ⟨fun _ => hdetects, fun _ => noPass_of_error he⟩
  cases spec with
  | notNull columns =>
    obtain ⟨name, hmem, hmissing⟩ := h
    refine hraises (mapM_missing hmem ⟨.warehouse, ?_⟩) trivial
    simp only [notNullColumn, hmissing.resolve]
    rfl
  | unique columns =>
    obtain ⟨name, hmem, hmissing⟩ := h
    obtain ⟨e, he⟩ := mapM_missing hmem ⟨_, hmissing.resolve⟩
    refine hraises ⟨e, ?_⟩ trivial
    simp only [runNamedTest, unique, he]
    rfl
  | matchesRegex column pattern =>
    have hrun : runNamedTest ctx (.matchesRegex column pattern) =
        .ok [⟨ctx.result "matches_regex" (some column) false, none⟩] := by
      simp only [runNamedTest, matchesRegex, if_neg (Warehouse.Missing.notMem h)]
    rw [noPass_iff_of_ok hrun]
    simp [Detects, Context.result]
  | acceptedValues column values =>
    refine hraises ⟨.warehouse, ?_⟩ trivial
    simp only [runNamedTest, acceptedValues, Warehouse.Missing.resolve h]
    rfl
  | acceptedRange column min max =>
    refine hraises ?_ trivial
    simp only [runNamedTest, acceptedRange, Warehouse.Missing.resolve h]
    split
    · exact ⟨.unknownTest, rfl⟩
    · exact ⟨.warehouse, rfl⟩
  | nullRate column max hmax =>
    by_cases hrows : ctx.relation.rows = []
    · have hrun : runNamedTest ctx (.nullRate column max hmax) =
          .ok [⟨ctx.result "null_rate" (some column) false, none⟩] := by
        simp only [runNamedTest, nullRate, hrows, List.length_nil, if_true]
        rfl
      rw [noPass_iff_of_ok hrun]
      simp [Detects, Context.result, hrows]
    · refine hraises ⟨.warehouse, ?_⟩ hrows
      have hlength : ¬ ctx.relation.rows.length = 0 := fun h => hrows (List.length_eq_zero_iff.mp h)
      simp only [runNamedTest, nullRate, if_neg hlength, Warehouse.Missing.resolve h]
      rfl
  | groundedIn value source method minScore =>
    have hrun : runNamedTest ctx (.groundedIn value source method minScore) =
        .ok [groundedIn ctx value source method minScore] := rfl
    rw [noPass_iff_of_ok hrun, groundedIn, maskCheck, countCheck_status]
    simp [Detects, ungrounded_missing h]
  | relationships column parentName field => exact noPass_relationships h
  | vectors check column =>
    refine hraises ⟨.unknownTest, ?_⟩ trivial
    simp only [runNamedTest, vectorCheck, loadVectors_missing h]
    rfl
  | columnStat stat column =>
    refine hraises ⟨.unknownTest, ?_⟩ trivial
    simp only [runNamedTest, columnStat, numericValues_missing h]
    rfl
  | cardinality bounds column =>
    refine hraises ⟨.warehouse, ?_⟩ trivial
    simp only [runNamedTest, cardinality, Warehouse.Missing.resolve h]
    rfl
  | outlierRate rate column =>
    refine hraises ⟨.unknownTest, ?_⟩ trivial
    simp only [runNamedTest, outlierRate, numericValues_missing h]
    rfl
  | golden options => exact h.elim
  | unstored testName column fails => exact h.elim

/-! ### A misspelt column -/

/-- A relation of one row whose only column is `email`. -/
def contacts : Context (Option String) Unit Unit where
  warehouse := textWarehouse
  statistics := textStatistics
  isWord c := c.isAlphanum || c = '_'
  modelName := "contacts"
  relation := ⟨["email"], [fun _ => some "nobody"], fun _ => false⟩
  storeFailures := false

theorem emial_passes : ¬ ∀ (ctx : Context (Option String) Unit Unit) (spec : Spec (Option String))
    (severity : Severity), MissingColumn ctx spec → NoPass ctx spec severity := by
  intro hclaim
  have hmissing : MissingColumn contacts (.matchesRegex "emial" "@") := by
    intro column hmem
    obtain rfl := List.mem_singleton.mp hmem
    decide
  have hrun : evaluateTestSpec contacts (.matchesRegex "emial" "@") .error =
      .ok [⟨⟨"matches_regex", "contacts", some "emial", .pass, .error, none, none⟩, none⟩] := by
    rw [evaluateTestSpec, runNamedTest, matchesRegex, if_neg hmissing.notMem]
    rfl
  exact hclaim contacts _ .error hmissing _ hrun _ (List.mem_singleton_self _) rfl

theorem null_rate_detected : NoPass contacts (.nullRate "emial" 0 Rat.le_refl) .error ↔
    Detects contacts (.nullRate "emial" 0 Rat.le_refl) := by
  refine noPass_iff contacts _ .error ?_
  intro column hmem
  obtain rfl := List.mem_singleton.mp hmem
  decide

end Stel.Checks
