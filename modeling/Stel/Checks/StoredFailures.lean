import Stel.Checks.Schema
import Mathlib.Data.List.Count
import Mathlib.Data.List.Induction

/-!
# Stored failures

The failing rows of a check are stored in a table named after slugs of the model, the test and the
column. Two checks can get one name, and the later one replaces the table. `unique` selects its rows
by `IN`, which leaves out duplicate groups with a null.

## Main definitions

* `Finding`, `findings`: the rows that make each result of a spec fail.
* `Faithful`: each table that a result names holds the rows that made it fail.
* `NullFree`, `Apart`: what decides it.

## Main results

* `runNamedTest_noted`: what a check stores.
* `runModelTests_faithful_iff`: when a run is faithful.
-/

namespace Stel.Checks

variable {V W N : Type} [DecidableEq V] {ctx : Context V W N}

/-! ### Findings -/

/-- What made a result fail. -/
structure Finding (V : Type) where
  testName : String
  column : String
  contents : Contents V

/-- The table that a finding is stored in. -/
def Finding.table (ctx : Context V W N) (finding : Finding V) : String :=
  failuresTableName ctx.isWord ctx.modelName finding.testName finding.column

/-- A finding, unless there is nothing to store. -/
def findingOf (testName column : String) (contents : Contents V) : Option (Finding V) :=
  if contents.height = 0 then none else some ⟨testName, column, contents⟩

/-- The rows of the relation with a property. -/
def Context.rowsWith (ctx : Context V W N) (p : Row V → Bool) : Contents V :=
  .rows (ctx.relation.rows.filter p)

/-- The column that the warehouse resolves a name to. -/
def Context.column (ctx : Context V W N) (name : String) : String :=
  (ctx.relation.columns.find? (ctx.warehouse.sameName name)).getD name

/-- Another row has the same values in the columns, where two nulls are the same. -/
def Context.duplicated (ctx : Context V W N) (columns : List String) (row : Row V) : Bool :=
  1 < (ctx.relation.rows.map columns.map).count (columns.map row)

/-- What a verdict makes of the rows. -/
def Context.verdictFinding {X : Type} (ctx : Context V W N) (testName column : String)
    (read : V → Option X) : Verdict X → Option (Finding V)
  | .pass => none
  | .fail blames => findingOf testName column (ctx.rowsWith fun row => (read (row column)).any blames)

/-- What makes each result of a spec fail, where that is stored at all. -/
def findings (ctx : Context V W N) : Spec V → List (Option (Finding V))
  | .notNull columns => columns.map fun column =>
    findingOf "not_null" column (ctx.rowsWith fun row => row (ctx.column column) = ctx.warehouse.null)
  | .unique columns => [findingOf "unique" (",".intercalate columns)
    (ctx.rowsWith (ctx.duplicated (columns.map ctx.column)))]
  | .matchesRegex column pattern =>
    [if column ∈ ctx.relation.columns then
      findingOf "matches_regex" column (ctx.rowsWith fun row => row column ≠ ctx.warehouse.null &&
        !ctx.statistics.search pattern (ctx.statistics.text (row column)))
    else none]
  | .acceptedValues column values => [findingOf "accepted_values" column
    (ctx.rowsWith fun row => ctx.warehouse.outside (row (ctx.column column)) values)]
  | .acceptedRange column min max => [findingOf "accepted_range" column
    (ctx.rowsWith fun row => ctx.warehouse.outOfRange min max (row (ctx.column column)))]
  | .nullRate column max _ =>
    let nulls := ctx.rowsWith fun row => row (ctx.column column) = ctx.warehouse.null
    [if max < ctx.statistics.ratio nulls.height ctx.relation.rows.length then
      findingOf "null_rate" column nulls
    else none]
  | .groundedIn value source method minScore => [findingOf "grounded_in" value
    (ctx.rowsWith (ungrounded ctx value source method minScore))]
  | .relationships column parentName field =>
    [(ctx.warehouse.relation parentName).bind fun parent =>
      match ctx.warehouse.subqueryColumn parent ctx.relation field with
      | .ok keys => findingOf "relationships" column (ctx.rowsWith fun row =>
        ctx.warehouse.outside (row (ctx.column column))
          ((keys row).filter fun key => key ≠ ctx.warehouse.null))
      | .error _ => none]
  | .vectors check column =>
    [match loadVectors ctx column with
      | .ok vectors => if vectors.length < check.name.2 then none
        else ctx.verdictFinding check.name.1 column ctx.readVector
          (ctx.statistics.vectors check vectors)
      | .error _ => none]
  | .outlierRate rate column =>
    [match numericValues ctx column with
      | .ok values => if values.length < 4 then none
        else ctx.verdictFinding "outlier_rate" column ctx.statistics.number
          (ctx.statistics.outliers rate values)
      | .error _ => none]
  | .golden options =>
    [match compareGolden ctx options with
      | .ok issues => findingOf "golden" options.key (.issues issues)
      | .error _ => none]
  | .columnStat _ _ | .cardinality _ _ | .unstored _ _ _ => [none]

/-! ### What a check stores -/

/-- The duplicate groups of a `unique` spec have no null. -/
def NullFree (ctx : Context V W N) : Spec V → Prop
  | .unique columns => ∀ row ∈ ctx.relation.rows, ctx.duplicated (columns.map ctx.column) row →
    ∀ column ∈ columns.map ctx.column, row column ≠ ctx.warehouse.null
  | _ => True

/-- How the result and the table of a check relate to what made it fail. -/
def Noted (ctx : Context V W N) (spec : Spec V) (report : Report V) : Option (Finding V) → Prop
  | none => report.table = none ∧ report.result.failuresTable = none ∧ NullFree ctx spec
  | some finding => finding.contents.height ≠ 0 ∧ ∃ stored,
    report.table = some (finding.table ctx, stored) ∧
      report.result.failuresTable = some (finding.table ctx) ∧
      report.result.failureCount = some stored.height ∧
      (stored.height = finding.contents.height → NullFree ctx spec) ∧
      (NullFree ctx spec → stored = finding.contents)

section Check

variable {spec : Spec V} {testName column : String}

omit [DecidableEq V] in
theorem column_of_resolve {name c : String} (h : ctx.warehouse.resolve ctx.relation name = .ok c) :
    ctx.column name = c := by
  unfold Warehouse.resolve at h
  split at h
  · rename_i heq
    rw [Context.column, heq, ← Except.ok.inj h]
    rfl
  · cases h

/-- A check that stores what it found exactly if there is something. -/
theorem noted_finish (hstore : ctx.storeFailures = true) (hfree : NullFree ctx spec)
    {fails stores : Bool} {contents : Contents V}
    (h : (fails && stores) = true ↔ contents.height ≠ 0) :
    Noted ctx spec (finish ctx testName column fails stores contents)
      (findingOf testName column contents) := by
  unfold findingOf finish
  by_cases hheight : contents.height = 0
  · have hnot : (fails && stores) = false := by
      rw [← Bool.not_eq_true, h]
      simpa using hheight
    rw [if_pos hheight]
    simp [Noted, hnot, Context.result, hfree]
  · rw [if_neg hheight]
    simp only [h.mpr hheight, hstore, Bool.and_true, if_true]
    exact ⟨hheight, contents, rfl, rfl, rfl, fun _ => hfree, fun _ => rfl⟩

/-- A check that passes early. -/
theorem noted_result (hfree : NullFree ctx spec) {label : Option String} {fails : Bool} :
    Noted ctx spec ⟨ctx.result testName label fails, none⟩ none :=
  ⟨rfl, rfl, hfree⟩

theorem noted_countCheck (hstore : ctx.storeFailures = true) (hfree : NullFree ctx spec)
    {selects : Row V → Bool} : Noted ctx spec (countCheck ctx testName column selects)
      (findingOf testName column (ctx.rowsWith selects)) :=
  noted_finish hstore hfree (by simp [Contents.height])

theorem noted_storeBlamed (hstore : ctx.storeFailures = true) (hfree : NullFree ctx spec) {X : Type}
    {read : V → Option X} {verdict : Verdict X} :
    Noted ctx spec (storeBlamed ctx testName column read verdict)
      (ctx.verdictFinding testName column read verdict) := by
  cases verdict with
  | pass => exact noted_result hfree
  | fail blames => exact noted_finish hstore hfree (by simp [Contents.height])

/-- `IN` selects the rows of the duplicate groups that have no null. -/
theorem inGroups_iff {columns : List String} {row : Row V} (hrow : row ∈ ctx.relation.rows) :
    ctx.warehouse.inGroups columns (duplicateGroups ctx.relation.rows columns) row = true ↔
      ctx.duplicated columns row = true ∧ ∀ column ∈ columns, row column ≠ ctx.warehouse.null := by
  have heq : ∀ u v, ctx.warehouse.sqlEq u v = some true ↔ u ≠ ctx.warehouse.null ∧ u = v := by
    intro u v
    unfold Warehouse.sqlEq
    split
    · rename_i hnull
      simp only [reduceCtorEq, false_iff, not_and]
      rintro hu rfl
      exact hnull.elim hu hu
    · rename_i hnull
      simp [not_or.mp hnull]
  have hgroup : ∀ other : Row V, ((columns.zip (columns.map other)).all fun entry =>
      decide (ctx.warehouse.sqlEq (row entry.1) entry.2 = some true)) = true ↔
        columns.map row = columns.map other ∧ ∀ column ∈ columns, row column ≠ ctx.warehouse.null := by
    intro other
    rw [← List.map_prod_left_eq_zip, List.all_map, List.all_eq_true]
    simp only [Function.comp_apply, decide_eq_true_eq, heq, List.map_inj_left]
    exact ⟨fun h => ⟨fun c hc => (h c hc).2, fun c hc => (h c hc).1⟩,
      fun h c hc => ⟨h.2 c hc, h.1 c hc⟩⟩
  simp only [Warehouse.inGroups, List.any_eq_true, duplicateGroups, List.mem_dedup, List.mem_filter,
    List.mem_map, Context.duplicated, decide_eq_true_eq]
  constructor
  · rintro ⟨group, ⟨⟨other, hother, rfl⟩, hcount⟩, hall⟩
    obtain ⟨hkey, hnull⟩ := (hgroup other).mp hall
    exact ⟨hkey ▸ hcount, hnull⟩
  · rintro ⟨hcount, hnull⟩
    exact ⟨columns.map row, ⟨⟨row, hrow, rfl⟩, hcount⟩, (hgroup row).mpr ⟨rfl, hnull⟩⟩

theorem noted_unique (hstore : ctx.storeFailures = true) (columns : List String) (label : String) :
    Noted ctx (.unique columns)
      (finish ctx "unique" label
        (duplicateGroups ctx.relation.rows (columns.map ctx.column) ≠ []) true
        (.rows (ctx.relation.rows.filter (ctx.warehouse.inGroups (columns.map ctx.column)
          (duplicateGroups ctx.relation.rows (columns.map ctx.column))))))
      (findingOf "unique" label (ctx.rowsWith (ctx.duplicated (columns.map ctx.column)))) := by
  have hgroups : duplicateGroups ctx.relation.rows (columns.map ctx.column) ≠ [] ↔
      ∃ row ∈ ctx.relation.rows, ctx.duplicated (columns.map ctx.column) row = true := by
    simp only [duplicateGroups, ne_eq, List.dedup_eq_nil, List.filter_eq_nil_iff, List.mem_map,
      not_forall, Context.duplicated]
    constructor
    · rintro ⟨key, ⟨row, hrow, rfl⟩, hcount⟩
      exact ⟨row, hrow, not_not.mp hcount⟩
    · rintro ⟨row, hrow, hcount⟩
      exact ⟨_, ⟨row, hrow, rfl⟩, not_not.mpr hcount⟩
  have hfound : (ctx.relation.rows.filter (ctx.duplicated (columns.map ctx.column))).length ≠ 0 ↔
      ∃ row ∈ ctx.relation.rows, ctx.duplicated (columns.map ctx.column) row = true := by
    rw [← List.ne_nil_iff_length_pos.trans Nat.pos_iff_ne_zero]
    simp [List.filter_eq_nil_iff]
  have hstored : ctx.relation.rows.filter (ctx.warehouse.inGroups (columns.map ctx.column)
      (duplicateGroups ctx.relation.rows (columns.map ctx.column))) =
        (ctx.relation.rows.filter (ctx.duplicated (columns.map ctx.column))).filter fun row =>
          decide (∀ column ∈ columns.map ctx.column, row column ≠ ctx.warehouse.null) := by
    rw [List.filter_filter]
    refine List.filter_congr fun row hrow => ?_
    rw [Bool.eq_iff_iff, inGroups_iff hrow, Bool.and_eq_true, decide_eq_true_eq, and_comm]
  by_cases hany : ∃ row ∈ ctx.relation.rows, ctx.duplicated (columns.map ctx.column) row = true
  · have hfails := decide_eq_true (hgroups.mpr hany)
    rw [findingOf, if_neg (show (ctx.rowsWith _).height ≠ 0 from hfound.mpr hany)]
    simp only [finish, hfails, hstore, Bool.and_true, if_true]
    refine ⟨hfound.mpr hany, _, rfl, rfl, rfl, ?_, ?_⟩
    · intro hlength row hrow hduplicated
      have hall := List.length_filter_eq_length_iff.mp ((congrArg List.length hstored).symm.trans hlength)
      exact of_decide_eq_true (hall row (List.mem_filter.mpr ⟨hrow, hduplicated⟩))
    · intro hfree
      refine congrArg Contents.rows (hstored.trans (List.filter_eq_self.mpr fun row hmem => ?_))
      obtain ⟨hrow, hduplicated⟩ := List.mem_filter.mp hmem
      exact decide_eq_true (hfree row hrow hduplicated)
  · rw [findingOf, if_pos (show (ctx.rowsWith _).height = 0 from
      not_not.mp (hfound.not.mpr hany))]
    have hpasses := decide_eq_false (hgroups.not.mpr hany)
    simp only [finish, hpasses, Bool.false_and, Bool.false_eq_true, if_false]
    exact ⟨rfl, rfl, fun row hrow hduplicated => absurd ⟨row, hrow, hduplicated⟩ hany⟩

end Check

/-- What a check stores is what makes it fail, but for the groups of `unique` with a null. -/
theorem runNamedTest_noted (hstore : ctx.storeFailures = true) {spec : Spec V}
    {reports : List (Report V)} (h : runNamedTest ctx spec = .ok reports) :
    List.Forall₂ (Noted ctx spec) reports (findings ctx spec) := by
  have hsingle : ∀ {x : Except CheckError (Report V)} {f : Option (Finding V)},
      (x >>= fun report => .ok [report]) = .ok reports →
        (∀ report, x = .ok report → Noted ctx spec report f) →
          List.Forall₂ (Noted ctx spec) reports [f] := by
    intro x f hx hnoted
    obtain ⟨report, hreport, hx⟩ := bind_eq_ok.mp hx
    obtain rfl := Except.ok.inj hx
    exact .cons (hnoted report hreport) .nil
  cases spec with
  | notNull columns =>
    have hfree : NullFree ctx (.notNull columns) := trivial
    refine List.forall₂_map_right_iff.mpr ((mapM_eq_ok.mp h).flip.imp fun report column hcolumn => ?_)
    obtain ⟨c, hc, hcolumn⟩ := bind_eq_ok.mp hcolumn
    obtain rfl := Except.ok.inj hcolumn
    rw [column_of_resolve hc]
    exact noted_countCheck hstore hfree
  | unique columns =>
    refine hsingle h fun report hreport => ?_
    obtain ⟨cs, hcs, hreport⟩ := bind_eq_ok.mp hreport
    obtain rfl := Except.ok.inj hreport
    have hresolved : columns.map ctx.column = cs := by
      have hall := (mapM_eq_ok.mp hcs).imp fun name c hname => column_of_resolve hname
      rw [← List.forall₂_eq_eq_eq]
      exact List.forall₂_map_left_iff.mpr hall
    subst hresolved
    exact noted_unique hstore columns _
  | matchesRegex column pattern =>
    have hfree : NullFree ctx (.matchesRegex column pattern) := trivial
    obtain rfl := Except.ok.inj h
    refine .cons ?_ .nil
    unfold matchesRegex
    split
    · exact noted_countCheck hstore hfree
    · exact noted_result hfree
  | acceptedValues column values =>
    have hfree : NullFree ctx (.acceptedValues column values) := trivial
    refine hsingle h fun report hreport => ?_
    obtain ⟨c, hc, hreport⟩ := bind_eq_ok.mp hreport
    obtain rfl := Except.ok.inj hreport
    rw [column_of_resolve hc]
    exact noted_countCheck hstore hfree
  | acceptedRange column min max =>
    have hfree : NullFree ctx (.acceptedRange column min max) := trivial
    refine hsingle h fun report hreport => ?_
    unfold acceptedRange at hreport
    split at hreport
    · cases hreport
    · obtain ⟨c, hc, hreport⟩ := bind_eq_ok.mp hreport
      obtain rfl := Except.ok.inj hreport
      rw [column_of_resolve hc]
      exact noted_countCheck hstore hfree
  | nullRate column max hmax =>
    have hfree : NullFree ctx (.nullRate column max hmax) := trivial
    refine hsingle h fun report hreport => ?_
    unfold nullRate at hreport
    split at hreport
    · rename_i hempty
      obtain rfl := Except.ok.inj hreport
      have hrows : ctx.relation.rows = [] := List.length_eq_zero_iff.mp hempty
      have hfinding : findingOf "null_rate" column (ctx.rowsWith fun row =>
          row (ctx.column column) = ctx.warehouse.null) = none := by
        simp [findingOf, Context.rowsWith, Contents.height, hrows]
      rw [hfinding, ite_self]
      exact noted_result hfree
    · obtain ⟨c, hc, hreport⟩ := bind_eq_ok.mp hreport
      obtain rfl := Except.ok.inj hreport
      rw [column_of_resolve hc]
      by_cases hfails : max < ctx.statistics.ratio
          (ctx.rowsWith fun row => row c = ctx.warehouse.null).height ctx.relation.rows.length
      · rw [if_pos hfails]
        refine noted_finish hstore hfree ?_
        have hne : (ctx.rowsWith fun row => row c = ctx.warehouse.null).height ≠ 0 := by
          intro hzero
          rw [hzero, ctx.statistics.ratio_zero] at hfails
          exact absurd hmax (not_le_of_gt hfails)
        exact ⟨fun _ => hne, fun _ => by rw [Bool.and_true]; exact decide_eq_true hfails⟩
      · rw [if_neg hfails]
        have hnot : ¬ max < ctx.statistics.ratio (ctx.relation.rows.filter fun row =>
            row c = ctx.warehouse.null).length ctx.relation.rows.length := hfails
        simp only [finish, hnot, decide_false, Bool.false_and, Bool.false_eq_true, if_false]
        exact noted_result hfree
  | groundedIn value source method minScore =>
    have hfree : NullFree ctx (.groundedIn value source method minScore) := trivial
    obtain rfl := Except.ok.inj h
    exact .cons (noted_countCheck hstore hfree) .nil
  | relationships column parentName field =>
    have hfree : NullFree ctx (.relationships column parentName field) := trivial
    refine hsingle h fun report hreport => ?_
    unfold relationships at hreport
    cases hparent : ctx.warehouse.relation parentName with
    | none =>
      rw [hparent] at hreport
      cases hreport
    | some parent =>
      rw [hparent] at hreport
      obtain ⟨c, hc, hreport⟩ := bind_eq_ok.mp hreport
      obtain ⟨keys, hkeys, hreport⟩ := bind_eq_ok.mp hreport
      obtain rfl := Except.ok.inj hreport
      rw [Option.bind_some, hkeys, column_of_resolve hc]
      exact noted_countCheck hstore hfree
  | vectors check column =>
    have hfree : NullFree ctx (.vectors check column) := trivial
    refine hsingle h fun report hreport => ?_
    obtain ⟨vectors, hvectors, hreport⟩ := bind_eq_ok.mp hreport
    rw [hvectors]
    dsimp only
    split at hreport
    · rename_i hfew
      obtain rfl := Except.ok.inj hreport
      rw [if_pos hfew]
      exact noted_result hfree
    · rename_i hfew
      obtain rfl := Except.ok.inj hreport
      rw [if_neg hfew]
      exact noted_storeBlamed hstore hfree
  | columnStat stat column =>
    have hfree : NullFree ctx (.columnStat stat column) := trivial
    refine hsingle h fun report hreport => ?_
    obtain ⟨values, -, hreport⟩ := bind_eq_ok.mp hreport
    obtain rfl := Except.ok.inj hreport
    exact noted_result hfree
  | cardinality bounds column =>
    have hfree : NullFree ctx (.cardinality bounds column) := trivial
    refine hsingle h fun report hreport => ?_
    obtain ⟨c, -, hreport⟩ := bind_eq_ok.mp hreport
    dsimp only at hreport
    split at hreport
    · obtain rfl := Except.ok.inj hreport
      exact noted_result hfree
    · cases hreport
  | outlierRate rate column =>
    have hfree : NullFree ctx (.outlierRate rate column) := trivial
    refine hsingle h fun report hreport => ?_
    obtain ⟨values, hvalues, hreport⟩ := bind_eq_ok.mp hreport
    rw [hvalues]
    dsimp only
    split at hreport
    · rename_i hfew
      obtain rfl := Except.ok.inj hreport
      rw [if_pos hfew]
      exact noted_result hfree
    · rename_i hfew
      obtain rfl := Except.ok.inj hreport
      rw [if_neg hfew]
      exact noted_storeBlamed hstore hfree
  | golden options =>
    have hfree : NullFree ctx (.golden options) := trivial
    refine hsingle h fun report hreport => ?_
    obtain ⟨issues, hissues, hreport⟩ := bind_eq_ok.mp hreport
    obtain rfl := Except.ok.inj hreport
    rw [hissues]
    exact noted_finish hstore hfree (by simp [Contents.height])
  | unstored testName column fails =>
    have hfree : NullFree ctx (.unstored testName column fails) := trivial
    obtain ⟨fails, -, h⟩ := bind_eq_ok.mp h
    obtain rfl := Except.ok.inj h
    exact .cons (noted_result hfree) .nil

/-! ### Specs that cannot be tested -/

omit [DecidableEq V] in
theorem resolve_error {name : String} {e : CheckError}
    (h : ctx.warehouse.resolve ctx.relation name = .error e) : e = .warehouse := by
  unfold Warehouse.resolve at h
  split at h
  · cases h
  · exact (Except.error.inj h).symm

theorem findings_of_unknownTest {spec : Spec V}
    (h : runNamedTest ctx spec = .error .unknownTest) :
    findings ctx spec = [none] ∧ NullFree ctx spec := by
  have hsingle : ∀ {x : Except CheckError (Report V)},
      (x >>= fun report => .ok [report]) = .error .unknownTest → x = .error .unknownTest := by
    intro x hx
    rcases bind_eq_error.mp hx with hx | ⟨_, _, hx⟩
    · exact hx
    · cases hx
  have hresolve : ∀ {name : String} {f : String → Except CheckError (Report V)},
      (ctx.warehouse.resolve ctx.relation name >>= f) = .error .unknownTest →
        ∃ c, f c = .error .unknownTest := by
    intro name f hf
    rcases bind_eq_error.mp hf with hf | ⟨c, -, hf⟩
    · cases resolve_error hf
    · exact ⟨c, hf⟩
  cases spec with
  | notNull columns =>
    obtain ⟨column, -, hcolumn⟩ := mapM_error h
    obtain ⟨c, hc⟩ := hresolve hcolumn
    cases hc
  | unique columns =>
    rcases bind_eq_error.mp (hsingle h) with hcs | ⟨_, _, h⟩
    · obtain ⟨name, -, hname⟩ := mapM_error hcs
      cases resolve_error hname
    · cases h
  | matchesRegex column pattern => cases h
  | acceptedValues column values =>
    obtain ⟨c, hc⟩ := hresolve (hsingle h)
    cases hc
  | acceptedRange column min max =>
    have h := hsingle h
    unfold acceptedRange at h
    split at h
    · rename_i hbounds
      obtain ⟨rfl, rfl⟩ : min = none ∧ max = none := by simpa using hbounds
      simp [findings, findingOf, Context.rowsWith, Contents.height, Warehouse.outOfRange, NullFree]
    · obtain ⟨c, hc⟩ := hresolve h
      cases hc
  | nullRate column max hmax =>
    have h := hsingle h
    unfold nullRate at h
    split at h
    · cases h
    · obtain ⟨c, hc⟩ := hresolve h
      cases hc
  | groundedIn value source method minScore => cases h
  | relationships column parentName field =>
    have h := hsingle h
    unfold relationships at h
    split at h
    · cases h
    · obtain ⟨c, hc⟩ := hresolve h
      rcases bind_eq_error.mp hc with hkeys | ⟨_, _, hc⟩
      · unfold Warehouse.subqueryColumn at hkeys
        split at hkeys
        · cases hkeys
        · rcases bind_eq_error.mp hkeys with hkeys | ⟨_, _, hkeys⟩
          · cases resolve_error hkeys
          · cases hkeys
      · cases hc
  | vectors check column =>
    rcases bind_eq_error.mp (hsingle h) with hload | ⟨_, _, h⟩
    · simp [findings, hload, NullFree]
    · split at h <;> cases h
  | columnStat stat column => exact ⟨rfl, trivial⟩
  | cardinality bounds column => exact ⟨rfl, trivial⟩
  | outlierRate rate column =>
    rcases bind_eq_error.mp (hsingle h) with hload | ⟨_, _, h⟩
    · simp [findings, hload, NullFree]
    · split at h <;> cases h
  | golden options =>
    rcases bind_eq_error.mp (hsingle h) with hcompare | ⟨_, _, h⟩
    · simp [findings, hcompare, NullFree]
    · cases h
  | unstored testName column fails => exact ⟨rfl, trivial⟩

/-! ### Runs -/

/-- The results of a run with the tables that were materialized for them. -/
structure Traced (ctx : Context V W N) (specs : List (Spec V × Severity)) (tables : Tables V)
    (s : List TestResult × Tables V) (reports : List (Report V)) : Prop where
  results : s.1 = reports.map Report.result
  tables : s.2 = (reports.filterMap Report.table).foldl (materializeFull ctx.warehouse) tables
  noted : List.Forall₂ (fun report entry => Noted ctx entry.1 report entry.2) reports
    (specs.flatMap fun spec => (findings ctx spec.1).map (spec.1, ·))

theorem noted_withSeverity {spec : Spec V} {report : Report V} {finding : Option (Finding V)}
    (severity : Severity) (h : Noted ctx spec report finding) :
    Noted ctx spec { report with result := applySeverity severity report.result } finding := by
  cases finding with
  | none => exact h
  | some finding => exact h

theorem runSpec_traced (hstore : ctx.storeFailures = true) {specText : SpecText V}
    {spec : Spec V × Severity} {s t : List TestResult × Tables V}
    (h : runSpec ctx specText s spec = .ok t) :
    ∃ reports : List (Report V), t.1 = s.1 ++ reports.map Report.result ∧
      t.2 = (reports.filterMap Report.table).foldl (materializeFull ctx.warehouse) s.2 ∧
      List.Forall₂ (Noted ctx spec.1) reports (findings ctx spec.1) := by
  unfold runSpec at h
  split at h
  · rename_i reports hreports
    obtain ⟨raw, hraw, hreports⟩ := bind_eq_ok.mp hreports
    obtain rfl := Except.ok.inj hreports
    obtain rfl := Except.ok.inj h
    exact ⟨_, rfl, rfl, List.forall₂_map_left_iff.mpr
      ((runNamedTest_noted hstore hraw).imp fun _ _ => noted_withSeverity spec.2)⟩
  · rename_i hunknown
    obtain rfl := Except.ok.inj h
    have hraw : runNamedTest ctx spec.1 = .error .unknownTest := by
      rcases bind_eq_error.mp hunknown with hraw | ⟨_, _, hmap⟩
      · exact hraw
      · cases hmap
    obtain ⟨hfindings, hfree⟩ := findings_of_unknownTest hraw
    rw [hfindings]
    exact ⟨[⟨ctx.result (specText spec.1) none true, none⟩], rfl, rfl, .cons (noted_result hfree) .nil⟩
  · cases h

theorem runModelTests_traced (hstore : ctx.storeFailures = true) {specText : SpecText V}
    {specs : List (Spec V × Severity)} {tables : Tables V} {s : List TestResult × Tables V}
    (h : runModelTests ctx specText specs tables = .ok s) :
    ∃ reports, Traced ctx specs tables s reports := by
  have htraced := foldlM_induction h
    (fun k s => ∃ reports, Traced ctx (specs.take k) tables s reports)
    ⟨[], rfl, rfl, .nil⟩ ?_
  · rwa [List.take_length] at htraced
  · rintro k spec u v hspec - ⟨reports, hreports⟩ hstep
    obtain ⟨new, hresults, htables, hnoted⟩ := runSpec_traced hstore hstep
    refine ⟨reports ++ new, ?_, ?_, ?_⟩
    · rw [hresults, hreports.results, List.map_append]
    · rw [htables, hreports.tables, List.filterMap_append, List.foldl_append]
    · rw [List.take_add_one, hspec, Option.toList_some, List.flatMap_append]
      refine List.rel_append hreports.noted ?_
      simpa using hnoted

omit [DecidableEq V] in
/-- Tables after writes that agree on a name. -/
theorem foldl_materializeFull {warehouse : Warehouse V} {writes : List (String × Contents V)}
    {tables : Tables V} {key : String} {contents : Contents V} (hheight : contents.height ≠ 0)
    (hagree : ∀ write ∈ writes, warehouse.tableKey write.1 = key → write.2 = contents)
    (hsome : ∃ write ∈ writes, warehouse.tableKey write.1 = key) :
    writes.foldl (materializeFull warehouse) tables key = some contents := by
  induction writes using List.reverseRecOn with
  | nil => simp at hsome
  | append_singleton writes write ih =>
    rw [List.foldl_append, List.foldl_cons, List.foldl_nil, materializeFull]
    by_cases hkey : warehouse.tableKey write.1 = key
    · have hcontents := hagree write (by simp) hkey
      rw [hkey, Function.update_self, hcontents]
      simp [hheight]
    · rw [Function.update_of_ne (Ne.symm hkey)]
      refine ih (fun other hother => hagree other (List.mem_append_left _ hother)) ?_
      obtain ⟨other, hother, hotherKey⟩ := hsome
      rcases List.mem_append.mp hother with hother | hother
      · exact ⟨other, hother, hotherKey⟩
      · rw [List.mem_singleton.mp hother] at hotherKey
        exact absurd hotherKey hkey

/-- What makes each result of a run fail. -/
def allFindings (ctx : Context V W N) (specs : List (Spec V × Severity)) :
    List (Option (Finding V)) :=
  specs.flatMap fun spec => findings ctx spec.1

theorem allFindings_eq (specs : List (Spec V × Severity)) : allFindings ctx specs =
    (specs.flatMap fun spec => (findings ctx spec.1).map (spec.1, ·)).map Prod.snd := by
  simp [allFindings, List.map_flatMap, Function.comp_def]

/-- Each table that a result names holds the rows that made this result fail, and the result has
their number. -/
def Faithful (ctx : Context V W N) (specs : List (Spec V × Severity)) (results : List TestResult)
    (tables : Tables V) : Prop :=
  ∀ (i : ℕ) (result : TestResult) (name : String), results[i]? = some result →
    result.failuresTable = some name →
    ∃ finding : Finding V, (allFindings ctx specs)[i]? = some (some finding) ∧
      tables (ctx.warehouse.tableKey name) = some finding.contents ∧
      result.failureCount = some finding.contents.height

/-- Findings that are stored under one name are the same rows. -/
def Apart (ctx : Context V W N) (specs : List (Spec V × Severity)) : Prop :=
  ∀ f g, some f ∈ allFindings ctx specs → some g ∈ allFindings ctx specs →
    ctx.warehouse.tableKey (f.table ctx) = ctx.warehouse.tableKey (g.table ctx) →
      f.contents = g.contents

section Run

variable {specs : List (Spec V × Severity)} {tables : Tables V} {s : List TestResult × Tables V}
  {reports : List (Report V)}

/-- A finding with the report that notes it. -/
theorem Traced.of_finding (h : Traced ctx specs tables s reports) {spec : Spec V × Severity}
    (hspec : spec ∈ specs) {finding : Option (Finding V)} (hmem : finding ∈ findings ctx spec.1) :
    ∃ (i : ℕ) (report : Report V), reports[i]? = some report ∧ s.1[i]? = some report.result ∧
      (allFindings ctx specs)[i]? = some finding ∧ Noted ctx spec.1 report finding := by
  have hentry : (spec.1, finding) ∈ specs.flatMap fun spec => (findings ctx spec.1).map (spec.1, ·) :=
    List.mem_flatMap.mpr ⟨spec, hspec, List.mem_map_of_mem hmem⟩
  obtain ⟨i, hi, hget⟩ := List.getElem_of_mem hentry
  have hi' : i < reports.length := h.noted.length_eq ▸ hi
  have hnoted := h.noted.get hi' hi
  rw [List.get_eq_getElem, List.get_eq_getElem, hget] at hnoted
  refine ⟨i, reports[i], List.getElem?_eq_getElem hi', ?_, ?_, hnoted⟩
  · rw [h.results, List.getElem?_map, List.getElem?_eq_getElem hi']
    rfl
  · rw [allFindings_eq, List.getElem?_map, List.getElem?_eq_getElem hi, hget]
    rfl

/-- A report with the finding that it notes. -/
theorem Traced.of_report (h : Traced ctx specs tables s reports) {i : ℕ} {report : Report V}
    (hreport : reports[i]? = some report) : ∃ spec ∈ specs, ∃ finding,
      (allFindings ctx specs)[i]? = some finding ∧ Noted ctx spec.1 report finding := by
  obtain ⟨hi, rfl⟩ := List.getElem?_eq_some_iff.mp hreport
  have hi' := h.noted.length_eq ▸ hi
  have hnoted := h.noted.get hi hi'
  have hentry := List.getElem_mem hi'
  obtain ⟨spec, hspec, hmem⟩ := List.mem_flatMap.mp hentry
  obtain ⟨finding, -, heq⟩ := List.mem_map.mp hmem
  rw [List.get_eq_getElem, List.get_eq_getElem, ← heq] at hnoted
  refine ⟨spec, hspec, finding, ?_, hnoted⟩
  rw [allFindings_eq, List.getElem?_map, List.getElem?_eq_getElem hi', ← heq]
  rfl

theorem Traced.nullFree (h : Traced ctx specs tables s reports)
    (hfaithful : Faithful ctx specs s.1 s.2) {spec : Spec V × Severity} (hspec : spec ∈ specs) :
    NullFree ctx spec.1 := by
  cases hcase : spec.1 with
  | unique columns =>
    obtain ⟨i, report, -, hresult, hfinding, hnoted⟩ := h.of_finding hspec
      (show findingOf "unique" (",".intercalate columns)
        (ctx.rowsWith (ctx.duplicated (columns.map ctx.column))) ∈ findings ctx spec.1 by
          rw [hcase]
          exact List.mem_singleton_self _)
    rw [hcase] at hnoted
    revert hfinding hnoted
    cases findingOf "unique" (",".intercalate columns)
        (ctx.rowsWith (ctx.duplicated (columns.map ctx.column))) with
    | none => exact fun _ hnoted => hnoted.2.2
    | some finding =>
      rintro hfinding ⟨-, stored, -, htable, hcount, hfree, -⟩
      obtain ⟨other, hother, -, hheight⟩ := hfaithful i _ _ hresult htable
      obtain rfl := Option.some.inj (Option.some.inj (hfinding.symm.trans hother))
      exact hfree (Option.some.inj (hcount.symm.trans hheight))
  | _ => trivial

theorem Traced.faithful_iff (h : Traced ctx specs tables s reports) :
    Faithful ctx specs s.1 s.2 ↔ (∀ spec ∈ specs, NullFree ctx spec.1) ∧ Apart ctx specs := by
  constructor
  · intro hfaithful
    refine ⟨fun spec hspec => h.nullFree hfaithful hspec, ?_⟩
    have hcontents : ∀ f, some f ∈ allFindings ctx specs →
        s.2 (ctx.warehouse.tableKey (f.table ctx)) = some f.contents := by
      intro f hf
      obtain ⟨spec, hspec, hmem⟩ := List.mem_flatMap.mp hf
      obtain ⟨i, report, -, hresult, hfinding, -, stored, -, htable, -⟩ := h.of_finding hspec hmem
      obtain ⟨other, hother, hlookup, -⟩ := hfaithful i _ _ hresult htable
      obtain rfl := Option.some.inj (Option.some.inj (hfinding.symm.trans hother))
      exact hlookup
    intro f g hf hg hkey
    have hlookup := hcontents f hf
    rw [hkey, hcontents g hg] at hlookup
    exact (Option.some.inj hlookup).symm
  · rintro ⟨hfree, hapart⟩ i result name hresult hname
    rw [h.results, List.getElem?_map] at hresult
    obtain ⟨report, hreport, rfl⟩ := Option.map_eq_some_iff.mp hresult
    obtain ⟨spec, hspec, finding, hfinding, hnoted⟩ := h.of_report hreport
    cases finding with
    | none =>
      rw [hnoted.2.1] at hname
      cases hname
    | some f =>
      obtain ⟨hheight, stored, htable, hfailures, hcount, -, hstored⟩ := hnoted
      obtain rfl := hstored (hfree spec hspec)
      obtain rfl := Option.some.inj (hname.symm.trans hfailures)
      refine ⟨f, hfinding, ?_, hcount⟩
      rw [h.tables]
      refine foldl_materializeFull hheight ?_ ?_
      · intro write hwrite hkey
        obtain ⟨other, hother, hotherTable⟩ := List.mem_filterMap.mp hwrite
        obtain ⟨j, hj⟩ := List.mem_iff_getElem?.mp hother
        obtain ⟨spec', hspec', finding', hfinding', hnoted'⟩ := h.of_report hj
        cases finding' with
        | none =>
          rw [hnoted'.1] at hotherTable
          cases hotherTable
        | some g =>
          obtain ⟨-, stored', htable', -, -, -, hstored'⟩ := hnoted'
          obtain rfl := hstored' (hfree spec' hspec')
          obtain rfl := Option.some.inj (htable'.symm.trans hotherTable)
          exact hapart g f (List.mem_of_getElem? hfinding') (List.mem_of_getElem? hfinding) hkey
      · exact ⟨_, List.mem_filterMap.mpr ⟨report, List.mem_of_getElem? hreport, htable⟩, rfl⟩

end Run

/-- A relation with the two values `ann` and `bob`, and a run that stores failures. -/
def owners : Context (Option String) Unit Unit where
  warehouse := textWarehouse
  statistics := textStatistics
  isWord c := c.isAlphanum || c = '_'
  modelName := "tickets"
  relation := ⟨["owner"], [fun _ => some "ann", fun _ => some "bob"], fun _ => false⟩
  storeFailures := true

/-- An error for other owners than `ann`, and a warning for other owners than `bob`. -/
def ownerSpecs : List (Spec (Option String) × Severity) :=
  [(.acceptedValues "owner" [some "ann"], .error), (.acceptedValues "owner" [some "bob"], .warn)]

end Stel.Checks
