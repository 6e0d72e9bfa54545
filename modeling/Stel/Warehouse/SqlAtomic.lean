import Stel.Warehouse.Statements
import Stel.Warehouse.SqlIncremental
import Mathlib.Algebra.Order.BigOperators.Group.List

/-!
# Atomicity of incremental SQL models

`materialize_sql_incremental` of `adapters/duckdb.py`, statement by statement. The result of the query
is staged and its keys are checked; new columns are added to the target one by one, each for good; the
rows are then replaced in one transaction; and the staged rows are counted and dropped after it. A
statement that raises after the first new column, or after the transaction, leaves the target changed.

## Main definitions

* `materializeSqlIncrementalScript`: the operation.
* `SqlReplaced`: what it claims to have done when it returns.
* `RaisesSafely`: when it is atomic.

## Main results

* `sqlIncremental_atomic_iff`: the operation is atomic exactly then.
-/

namespace Stel.Warehouse

/-! ### The operation -/

/-- Where `materialize_sql_incremental` can raise. -/
inductive SqlPoint
  | stage
  | keyCheck
  | describeStaging
  | columns
  | describe
  | alter (column : String)
  | beginMerge
  | join
  | delete
  | insert
  | commit
  | rollback
  | count
  | dropStaging
  deriving DecidableEq, Repr

/-- The name of the temporary table. -/
def sqlStagingName (table : String) : String := "stel_sql_staging__" ++ table

theorem sqlStagingName_ne (table : String) : sqlStagingName table ≠ table := by
  intro h
  have hlength : ("stel_sql_staging__" ++ table).toList.length = table.toList.length :=
    congrArg (fun s : String => s.toList.length) h
  rw [String.toList_append, List.length_append] at hlength
  have hpos : "stel_sql_staging__".toList.length = 0 := by omega
  exact absurd hpos (by decide)

/-- A table without columns, as `_table_columns(table) or []` takes a missing one. -/
def noTable : Frame := .empty

section Script

variable (assign : Assignment) (table uniqueKey : String) (policy : OnSchemaChange)
  (select : Tables → Except Failure Frame)

/-- `CREATE OR REPLACE TEMP TABLE … AS` the query. -/
def stageSelect (tables : Tables) : Except Failure Tables := do
  let staged ← select tables
  Tables.create (sqlStagingName table) staged tables

/-- The staged table. -/
def stagedTable (tables : Tables) : Except Failure Frame :=
  match tables (sqlStagingName table) with
  | some staged => .ok staged
  | none => .error Tables.missing

/-- The statements and checks before the schema change: the staged table, and the columns of the
target. -/
def prepareMerge : Script SqlPoint Tables Failure (Frame × List String) := do
  let tables ← Script.statement .stage (stageSelect table select)
  let staged ← Prog.ofExcept (stagedTable table tables)
  let _ ← Script.query .keyCheck
  let counts ← Prog.ofExcept ((keyCheck staged uniqueKey).elim (.error (.other "BinderException")) .ok)
  Prog.ofExcept (checkKeys table uniqueKey counts)
  let _ ← Script.query .describeStaging
  Prog.ofExcept (checkSelected table uniqueKey staged)
  let tables ← Script.query .columns
  let target := (tables table).getD noTable
  Prog.ofExcept (checkTarget table uniqueKey target)
  return (staged, target.columns)

/-- The pairs that `JOIN … ON` the key finds. -/
def joined (staged target : List Row) : List Row :=
  staged.flatMap fun s => target.filter fun t => KeyMatch uniqueKey t s

/-- The transaction: the number of pairs that the join finds before the replacement. -/
def mergeStaged (staged : Frame) (columns : List String) : Script SqlPoint Tables Failure ℕ :=
  Script.transaction .beginMerge .commit .rollback do
    let tables ← Script.query .join
    let updated := (joined uniqueKey staged.rows (((tables table).map Frame.rows).getD [])).length
    let _ ← Script.statement .delete (Tables.modify table fun target => .ok (target.filterRows fun t =>
      ¬ ∃ s ∈ staged.rows, KeyMatch uniqueKey t s))
    let _ ← Script.statement .insert (Tables.insertInto assign table columns staged.rows)
    return updated

/-- `except duckdb.Error`. -/
def reportEngine : Failure → Failure
  | .other error => materializationFailed table error
  | e => e

/-- `materialize_sql_incremental`. -/
def materializeSqlIncrementalScript : Script SqlPoint Tables Failure SqlMaterializationResult :=
  Prog.andFinally
    (Prog.tryCatch (do
        let (staged, existing) ← prepareMerge table uniqueKey select
        let columns ← reconcileFrom ⟨.columns, .describe, .alter⟩ table staged policy existing
        let updated ← mergeStaged assign table uniqueKey staged columns
        let tables ← Script.query .count
        let total := ((tables (sqlStagingName table)).map Frame.height).getD 0
        return ⟨total, some (total - updated), some updated⟩)
      fun e => .throw (reportEngine table e))
    do
      let _ ← Script.statement .dropStaging (Tables.drop (sqlStagingName table))
      return ⟨⟩

end Script

/-! ### The promise -/

/-- The same columns, and the same rows in some order. -/
def SameTable (x y : Option Frame) : Prop :=
  match x, y with
  | none, none => True
  | some f, some g => f.schema = g.schema ∧ f.rows.Perm g.rows
  | _, _ => False

theorem SameTable.refl (x : Option Frame) : SameTable x x := by
  cases x with
  | none => trivial
  | some f => exact ⟨rfl, .refl _⟩

section Promise

variable (assign : Assignment) (table uniqueKey : String)

/-- The rows of the old target without the keys of the result, with the rows of the result as the
target stores them; the counts are those of the new and the replaced keys. -/
def SqlReplaced (before : Tables) (staged : Frame) (result : SqlMaterializationResult)
    (after : Tables) : Prop :=
  ∃ target final stored, before table = some target ∧ after table = some final ∧
    after (sqlStagingName table) = none ∧
    final.rows.Perm ((target.rows.filter fun t => ¬ ∃ s ∈ staged.rows, KeyMatch uniqueKey t s) ++ stored) ∧
    List.Forall₂ (StoredRow assign final.schema staged) staged.rows stored ∧
    result.rowsWritten = staged.rows.length ∧
    result.rowsUpdated = some ((staged.rows.filter fun s =>
      ∃ t ∈ target.rows, KeyMatch uniqueKey t s).length : ℤ) ∧
    result.rowsInserted = some ((staged.rows.filter fun s =>
      ¬ ∃ t ∈ target.rows, KeyMatch uniqueKey t s).length : ℤ)

end Promise

/-! ### The condition -/

section Condition

variable (assign : Assignment) (table uniqueKey : String) (policy : OnSchemaChange)
  (select : Tables → Except Failure Frame) (fault : SqlPoint → Option Failure) (before : Tables)

/-- The statements and checks before the schema change succeed on a target. -/
structure Prepared (staged target : Frame) : Prop where
  stage : fault .stage = none
  selects : select before = .ok staged
  wide : staged.schema ≠ []
  checks : fault .keyCheck = none
  keyed : ∃ counts, keyCheck staged uniqueKey = some counts ∧ checkKeys table uniqueKey counts = .ok ()
  describes : fault .describeStaging = none
  columns : fault .columns = none
  exists_target : before table = some target
  selected : uniqueKey ∈ target.columns

/-- The first new column is added. -/
def FirstAdded (staged target : Frame) : Prop :=
  Widens table staged policy target ∧ fault .describe = none ∧
    ∀ column ∈ (target.newColumns staged).head?, fault (.alter column.1) = none

/-- All new columns are added. -/
def AllAdded (staged target : Frame) : Prop :=
  Widens table staged policy target → fault .describe = none ∧
    ∀ column ∈ target.newColumns staged, fault (.alter column.1) = none

/-- The transaction commits: no statement fails, and every cell of the result can be stored. -/
def Commits (staged widened : Frame) (columns : List String) : Prop :=
  fault .beginMerge = none ∧ fault .join = none ∧ fault .delete = none ∧ fault .insert = none ∧
    fault .commit = none ∧
    ∃ stored, assignRows assign widened.schema columns staged.rows = some stored

/-- No statement after the schema change fails. -/
def Completes (staged target widened : Frame) (columns : List String) : Prop :=
  AllAdded table policy fault staged target ∧ Commits assign fault staged widened columns ∧
    fault .count = none ∧ fault .dropStaging = none

/-- The operation is atomic. Once a new column is added, no later statement fails. If no column is added
and only a statement after the transaction fails, the rows of the result are those that they replace. If
nothing fails, no key of the result is that of several rows of the target. -/
def RaisesSafely : Prop :=
  ∀ staged target widened columns, Prepared table uniqueKey select fault before staged target →
    reconcileSchema table target staged policy = .ok (widened, columns) →
      (FirstAdded table policy fault staged target →
        Completes assign table policy fault staged target widened columns) ∧
      (¬ Widens table staged policy target → Commits assign fault staged widened columns →
        fault .count ≠ none ∨ fault .dropStaging ≠ none →
        ∀ stored, assignRows assign widened.schema columns staged.rows = some stored →
          stored.Perm (target.rows.filter fun t => ∃ s ∈ staged.rows, KeyMatch uniqueKey t s)) ∧
      (Completes assign table policy fault staged target widened columns →
        ∀ s ∈ staged.rows, (target.rows.filter fun t => KeyMatch uniqueKey t s).length ≤ 1)

end Condition

section Runs

variable {assign : Assignment} {table uniqueKey : String} {policy : OnSchemaChange}
  {select : Tables → Except Failure Frame} {fault : SqlPoint → Option Failure} {before : Tables}

/-! ### Before the schema change -/

/-- The tables when the result of the query is staged. -/
def withStaging (table : String) (before : Tables) (staged : Frame) : Tables :=
  Function.update before (sqlStagingName table) (some staged)

@[simp] theorem withStaging_table (staged : Frame) :
    withStaging table before staged table = before table :=
  Function.update_of_ne (sqlStagingName_ne table).symm _ _

@[simp] theorem withStaging_staging (staged : Frame) :
    withStaging table before staged (sqlStagingName table) = some staged :=
  Function.update_self ..

/-- Staging raises, or stages the result. -/
theorem meets_stageSelect :
    (Script.statement .stage (stageSelect table select)).Meets (Session.interp fault)
      (fun tables t => ∃ staged, fault .stage = none ∧ select before = .ok staged ∧
        staged.schema ≠ [] ∧ tables = withStaging table before staged ∧
        t = ⟨withStaging table before staged, none⟩)
      (fun _ t => (∀ staged target, ¬ Prepared table uniqueKey select fault before staged target) ∧
        t.store table = before table) ⟨before, none⟩ := by
  refine Script.meets_statement (fun after hfault hrun => ?_) fun e he => ⟨?_, rfl⟩
  · obtain ⟨staged, hselect, hcreate⟩ := bind_eq_ok.mp hrun
    unfold Tables.create at hcreate
    split at hcreate
    · cases hcreate
    · rename_i hwide
      obtain rfl := Except.ok.inj hcreate
      exact ⟨staged, hfault, hselect, hwide, rfl, rfl⟩
  · intro staged target hp
    rcases he with hfault | ⟨-, hrun⟩
    · rw [hp.stage] at hfault
      cases hfault
    · have hok : stageSelect table select before = .ok (withStaging table before staged) :=
        bind_eq_ok.mpr ⟨staged, hp.selects, if_neg hp.wide⟩
      rw [show (⟨before, none⟩ : Session Tables).store = before from rfl, hok] at hrun
      cases hrun

/-- The checks pass, or one raises and nothing but the staged table is there. -/
theorem meets_prepareMerge :
    (prepareMerge table uniqueKey select).Meets (Session.interp fault)
      (fun r t => ∃ target, Prepared table uniqueKey select fault before r.1 target ∧
        r.2 = target.columns ∧ t = ⟨withStaging table before r.1, none⟩)
      (fun _ t => (∀ staged target, ¬ Prepared table uniqueKey select fault before staged target) ∧
        t.store table = before table) ⟨before, none⟩ := by
  refine meets_stageSelect.bind ?_
  rintro _ _ ⟨staged, hstage, hselects, hwide, rfl, rfl⟩
  -- whatever is prepared is prepared for this result
  have hraise : ∀ {α : Type} {p : Script SqlPoint Tables Failure α} {Q : α → Session Tables → Prop},
      (p.Meets (Session.interp fault) Q (fun _ t => t = ⟨withStaging table before staged, none⟩ ∧
        ∀ target, ¬ Prepared table uniqueKey select fault before staged target)
        ⟨withStaging table before staged, none⟩) →
      p.Meets (Session.interp fault) Q (fun _ t =>
        (∀ staged target, ¬ Prepared table uniqueKey select fault before staged target) ∧
          t.store table = before table) ⟨withStaging table before staged, none⟩ := by
    intro α p Q h
    refine h.mono (fun _ _ h => h) ?_
    rintro e _ ⟨rfl, hnone⟩
    refine ⟨fun staged' target hp => ?_, withStaging_table staged⟩
    obtain rfl := Except.ok.inj (hp.selects.symm.trans hselects)
    exact hnone target hp
  refine hraise ?_
  have hquery : ∀ point, (∀ target, Prepared table uniqueKey select fault before staged target →
      fault point = none) → (Script.query point : Script SqlPoint Tables Failure Tables).Meets
        (Session.interp fault) (fun tables t => tables = withStaging table before staged ∧
          t = ⟨withStaging table before staged, none⟩ ∧ fault point = none)
        (fun _ t => t = ⟨withStaging table before staged, none⟩ ∧
          ∀ target, ¬ Prepared table uniqueKey select fault before staged target)
        ⟨withStaging table before staged, none⟩ := fun point hpoint =>
    Script.meets_query (fun hfault => ⟨rfl, rfl, hfault⟩) fun e hfault => ⟨rfl, fun target hp => by
      rw [hpoint target hp] at hfault
      cases hfault⟩
  have hstaged : stagedTable table (withStaging table before staged) = .ok staged := by
    simp [stagedTable]
  rw [hstaged, Prog.ofExcept_ok, Prog.pure_bind]
  refine (hquery .keyCheck fun _ hp => hp.checks).bind ?_
  rintro _ _ ⟨rfl, rfl, hchecks⟩
  cases hcounts : keyCheck staged uniqueKey with
  | none =>
    refine Prog.meets_throw ⟨rfl, fun target hp => ?_⟩
    obtain ⟨counts, hsome, -⟩ := hp.keyed
    rw [hcounts] at hsome
    cases hsome
  | some counts =>
    rw [Option.elim_some, Prog.ofExcept_ok, Prog.pure_bind]
    cases hkeys : checkKeys table uniqueKey counts with
    | error e =>
      refine Prog.meets_throw ⟨rfl, fun target hp => ?_⟩
      obtain ⟨counts', hsome, hok⟩ := hp.keyed
      obtain rfl := Option.some.inj (hsome.symm.trans hcounts)
      rw [hkeys] at hok
      cases hok
    | ok u =>
      rw [Prog.ofExcept_ok, Prog.pure_bind]
      refine (hquery .describeStaging fun _ hp => hp.describes).bind ?_
      rintro _ _ ⟨rfl, rfl, hdescribes⟩
      have hselected : checkSelected table uniqueKey staged = .ok () := by
        refine raiseIf_eq_ok.mpr (not_not.mpr ?_)
        unfold keyCheck at hcounts
        split at hcounts
        · assumption
        · cases hcounts
      rw [hselected, Prog.ofExcept_ok, Prog.pure_bind]
      refine (hquery .columns fun _ hp => hp.columns).bind ?_
      rintro _ _ ⟨rfl, rfl, hcolumns⟩
      simp only [withStaging_table]
      cases hin : checkTarget table uniqueKey ((before table).getD noTable) with
      | error e =>
        refine Prog.meets_throw ⟨rfl, fun target hp => ?_⟩
        rw [hp.exists_target, Option.getD_some] at hin
        have hok : checkTarget table uniqueKey target = .ok () :=
          raiseIf_eq_ok.mpr (not_not.mpr hp.selected)
        rw [hok] at hin
        cases hin
      | ok u =>
        have hmember := not_not.mp (raiseIf_eq_ok.mp hin)
        cases htarget : before table with
        | none =>
          rw [htarget] at hmember
          cases hmember
        | some target =>
          rw [htarget] at hmember
          exact Prog.meets_pure ⟨target, ⟨hstage, hselects, hwide, hchecks, ⟨counts, hcounts, hkeys⟩,
            hdescribes, hcolumns, htarget, hmember⟩, rfl, rfl⟩

/-! ### The transaction -/

/-- What the transaction makes of the target. -/
structure MergedInto (assign : Assignment) (uniqueKey : String) (staged widened : Frame)
    (columns : List String) (final : Frame) : Prop where
  schema : final.schema = widened.schema
  rows : ∃ stored, assignRows assign widened.schema columns staged.rows = some stored ∧
    final.rows = (widened.rows.filter fun t => ¬ ∃ s ∈ staged.rows, KeyMatch uniqueKey t s) ++ stored

theorem meets_mergeStaged {staged widened : Frame} {columns : List String} {t : Session Tables}
    (hsaved : t.saved = none) (htable : t.store table = some widened) (hne : columns ≠ []) :
    (mergeStaged assign table uniqueKey staged columns).Meets (Session.interp fault)
      (fun updated u => updated = (joined uniqueKey staged.rows widened.rows).length ∧
        Commits assign fault staged widened columns ∧ ∃ final,
          u = ⟨Function.update t.store table (some final), none⟩ ∧
          MergedInto assign uniqueKey staged widened columns final)
      (fun _ u => u = t ∧ ¬ Commits assign fault staged widened columns) t := by
  refine (Script.meets_transaction (Q := fun updated store =>
      updated = (joined uniqueKey staged.rows widened.rows).length ∧
      (fault .join = none ∧ fault .delete = none ∧ fault .insert = none) ∧ ∃ final,
        store = Function.update t.store table (some final) ∧
        MergedInto assign uniqueKey staged widened columns final)
    (E := fun _ => ¬ Commits assign fault staged widened columns) hsaved ?_ fun hbegins => ?_).mono ?_ ?_
  · exact (calls_statement _ _).bind fun _ => (calls_statement _ _).bind fun _ =>
      (calls_statement _ _).bind fun _ => trivial
  · refine Prog.Meets.bind (Q := fun tables u => tables = t.store ∧ u = ⟨t.store, some t.store⟩ ∧
      fault .join = none) (Script.meets_query (fun hfault => ⟨rfl, rfl, hfault⟩) fun e hfault hc => ?_) ?_
    · rw [hc.2.1] at hfault
      cases hfault
    rintro _ _ ⟨rfl, rfl, hjoin⟩
    simp only [htable, Option.map_some, Option.getD_some]
    let kept := widened.filterRows fun t => ¬ ∃ s ∈ staged.rows, KeyMatch uniqueKey t s
    refine Prog.Meets.bind (Script.meets_statement (Q := fun _ (u : Session Tables) =>
      u.store = Function.update t.store table (some kept) ∧ fault .delete = none) ?_ ?_) ?_
    · intro after hfault hrun
      obtain ⟨f, g, hf, hg, rfl⟩ := Tables.modify_eq_ok hrun
      obtain rfl := Option.some.inj (hf.symm.trans htable)
      obtain rfl := Except.ok.inj hg
      exact ⟨rfl, hfault⟩
    · rintro e (hfault | ⟨-, hrun⟩) hc
      · rw [hc.2.2.1] at hfault
        cases hfault
      · cases Tables.modify_eq_error htable hrun
    rintro - u ⟨hu, hdelete⟩
    have hkept : u.store table = some kept := by rw [hu, Function.update_self]
    refine Prog.Meets.bind (Script.meets_statement (Q := fun _ (v : Session Tables) => ∃ final,
      v.store = Function.update t.store table (some final) ∧ fault .insert = none ∧
        MergedInto assign uniqueKey staged widened columns final) ?_ ?_) ?_
    · intro after hfault hrun
      obtain ⟨f, g, hf, hg, rfl⟩ := Tables.modify_eq_ok hrun
      obtain rfl := Option.some.inj (hf.symm.trans hkept)
      rw [if_neg hne] at hg
      obtain ⟨hschema, stored, hstored, hrows⟩ := Frame.insert_eq_ok.mp hg
      refine ⟨g, ?_, hfault, hschema, stored, hstored, hrows⟩
      show Function.update u.store table _ = _
      rw [hu, Function.update_idem]
    · rintro e (hfault | ⟨-, hrun⟩) hc
      · rw [hc.2.2.2.1] at hfault
        cases hfault
      · obtain ⟨stored, hstored⟩ := hc.2.2.2.2.2
        have herror := Tables.modify_eq_error hkept hrun
        rw [if_neg hne] at herror
        have hok : kept.insert assign columns staged.rows ≠ .error e := by
          unfold Frame.insert
          split
          · simp
          · rename_i hnone
            rw [show kept.schema = widened.schema from rfl, hstored] at hnone
            cases hnone
        exact hok herror
    · rintro - v ⟨final, hv, hinsert, hmerged⟩
      exact Prog.meets_pure ⟨rfl, ⟨hjoin, hdelete, hinsert⟩, final, hv, hmerged⟩
  · rintro updated u ⟨husaved, ⟨hupdated, ⟨hjoin, hdelete, hinsert⟩, final, hu, hmerged⟩, hbegins, hcommits⟩
    obtain ⟨stored, hstored, -⟩ := hmerged.rows
    refine ⟨hupdated, ⟨hbegins, hjoin, hdelete, hinsert, hcommits, stored, hstored⟩, final, ?_, hmerged⟩
    cases u
    simp_all
  · rintro e u ⟨hu, hcause⟩
    refine ⟨hu, ?_⟩
    rcases hcause with hbegins | hcommits | ⟨e', he'⟩
    · exact fun hc => hbegins hc.1
    · exact fun hc => hcommits hc.2.2.2.2.1
    · exact he'

/-! ### The whole operation -/

theorem Prepared.unique {staged staged' target target' : Frame}
    (h : Prepared table uniqueKey select fault before staged target)
    (h' : Prepared table uniqueKey select fault before staged' target') :
    staged = staged' ∧ target = target' :=
  ⟨Except.ok.inj (h.selects.symm.trans h'.selects),
    Option.some.inj (h.exists_target.symm.trans h'.exists_target)⟩

/-- A plan that adds columns has columns to add. -/
theorem Widens.newColumns_ne_nil {staged target : Frame} (h : Widens table staged policy target) :
    target.newColumns staged ≠ [] := by
  obtain ⟨plan, hplan, hadds⟩ := h
  rw [← (additions_eq hplan).1.resolve_left hadds]
  simpa [SchemaChangePlan.additions] using hadds

theorem AllAdded.first {staged target : Frame} (h : AllAdded table policy fault staged target)
    (hwidens : Widens table staged policy target) : FirstAdded table policy fault staged target :=
  ⟨hwidens, (h hwidens).1, fun column hcolumn => (h hwidens).2 column (List.mem_of_mem_head? hcolumn)⟩

/-- What the operation leaves when it raises: the target as it was, one with further columns, or one
with the rows of the result. -/
inductive Left (assign : Assignment) (table uniqueKey : String) (policy : OnSchemaChange)
    (select : Tables → Except Failure Frame) (fault : SqlPoint → Option Failure) (before : Tables) :
    Option Frame → Prop
  | untouched (h : ∀ staged target widened columns,
      Prepared table uniqueKey select fault before staged target →
      reconcileSchema table target staged policy = .ok (widened, columns) →
      ¬ FirstAdded table policy fault staged target ∧
        (Widens table staged policy target ∨ ¬ Commits assign fault staged widened columns)) :
      Left assign table uniqueKey policy select fault before (before table)
  | altered {staged target widened g : Frame} {columns : List String}
      (prepared : Prepared table uniqueKey select fault before staged target)
      (reconciles : reconcileSchema table target staged policy = .ok (widened, columns))
      (first : FirstAdded table policy fault staged target)
      (stops : ¬ Completes assign table policy fault staged target widened columns)
      (schema : g.schema ≠ target.schema) :
      Left assign table uniqueKey policy select fault before (some g)
  | loaded {staged target final : Frame} {columns : List String}
      (prepared : Prepared table uniqueKey select fault before staged target)
      (reconciles : reconcileSchema table target staged policy = .ok (target, columns))
      (keeps : ¬ Widens table staged policy target)
      (commits : Commits assign fault staged target columns)
      (late : fault .count ≠ none ∨ fault .dropStaging ≠ none)
      (merged : MergedInto assign uniqueKey staged target columns final) :
      Left assign table uniqueKey policy select fault before (some final)

/-- What has happened when all statements up to the count have succeeded. -/
structure Counted (assign : Assignment) (table uniqueKey : String) (policy : OnSchemaChange)
    (select : Tables → Except Failure Frame) (fault : SqlPoint → Option Failure) (before : Tables)
    (staged target widened final : Frame) (columns : List String) : Prop where
  prepared : Prepared table uniqueKey select fault before staged target
  reconciles : reconcileSchema table target staged policy = .ok (widened, columns)
  added : AllAdded table policy fault staged target
  widened_eq : widened = target ∧ ¬ Widens table staged policy target ∨
    widened = target.widen staged ∧ Widens table staged policy target
  commits : Commits assign fault staged widened columns
  merged : MergedInto assign uniqueKey staged widened columns final

/-- A widened target has another schema. -/
theorem schema_widen_ne {staged target : Frame} (h : Widens table staged policy target) :
    (target.widen staged).schema ≠ target.schema := by
  intro heq
  have hlength := congrArg List.length heq
  rw [Frame.widen, List.length_append] at hlength
  exact h.newColumns_ne_nil (List.length_eq_zero_iff.mp (by omega))

/-- A statement that fails after the transaction leaves the new target. -/
theorem Counted.left {staged target widened final : Frame} {columns : List String}
    (h : Counted assign table uniqueKey policy select fault before staged target widened final columns)
    (hlate : fault .count ≠ none ∨ fault .dropStaging ≠ none) :
    Left assign table uniqueKey policy select fault before (some final) := by
  have hprepared := h.prepared
  have hreconciles := h.reconciles
  have hmerged := h.merged
  rcases h.widened_eq with ⟨rfl, hkeeps⟩ | ⟨rfl, hwidens⟩
  · exact .loaded hprepared hreconciles hkeeps h.commits hlate hmerged
  · refine .altered hprepared hreconciles (h.added.first hwidens) (fun hc => ?_) ?_
    · exact hlate.elim (fun hcount => hcount hc.2.2.1) fun hdrop => hdrop hc.2.2.2
    · rw [hmerged.schema]
      exact schema_widen_ne hwidens

/-- A schema change that raises leaves the target as it was, or with some new columns. -/
theorem left_of_reconcileRaised {staged target : Frame} {e : Failure} {tables after : Tables}
    (hprepared : Prepared table uniqueKey select fault before staged target)
    (htables : tables table = some target)
    (h : ReconcileRaised ⟨.columns, .describe, .alter⟩ table staged policy fault target tables e after) :
    Left assign table uniqueKey policy select fault before (after table) := by
  have huntouched : (∀ widened columns,
      reconcileSchema table target staged policy = .ok (widened, columns) →
      ¬ FirstAdded table policy fault staged target ∧ Widens table staged policy target) →
      Left assign table uniqueKey policy select fault before (before table) := by
    intro hnone
    refine .untouched fun staged' target' widened columns hp hreconciles => ?_
    obtain ⟨rfl, rfl⟩ := hprepared.unique hp
    exact ⟨(hnone widened columns hreconciles).1, .inl (hnone widened columns hreconciles).2⟩
  cases h with
  | early hcause =>
    rw [htables, ← hprepared.exists_target]
    refine huntouched fun widened columns hreconciles => ?_
    rcases hcause with hplan | ⟨hwidens, hdescribe⟩
    · rw [reconcileSchema, hplan] at hreconciles
      cases hreconciles
    · refine ⟨fun hfirst => ?_, hwidens⟩
      have hnone := hfirst.2.1
      rw [show fault .describe = some e from hdescribe] at hnone
      cases hnone
  | @adding done rest column g hdescribe hwidens hsplit hadded hfine hcause =>
    rw [Function.update_self]
    cases done with
    | nil =>
      rw [Frame.added_nil.mp hadded, ← hprepared.exists_target]
      refine huntouched fun widened columns hreconciles => ⟨fun hfirst => ?_, hwidens⟩
      have hnone := hfirst.2.2 column (by rw [hsplit]; rfl)
      rw [show fault (.alter column.1) = some e from hcause] at hnone
      cases hnone
    | cons first others =>
      obtain ⟨plan, hplan, -⟩ := id hwidens
      refine .altered hprepared (additions_eq hplan).2 ⟨hwidens, hdescribe, ?_⟩ (fun hc => ?_) ?_
      · intro c hc
        rw [hsplit] at hc
        obtain rfl := Option.some.inj hc
        exact hfine first List.mem_cons_self
      · have hnone := (hc.1 hwidens).2 column (by rw [hsplit]; simp)
        rw [show fault (.alter column.1) = some e from hcause] at hnone
        cases hnone
      · intro heq
        rw [hadded.schema] at heq
        simp at heq

/-- The statements up to the count. -/
theorem meets_untilCount :
    (do
      let (staged, existing) ← prepareMerge table uniqueKey select
      let columns ← reconcileFrom ⟨.columns, .describe, .alter⟩ table staged policy existing
      let updated ← mergeStaged assign table uniqueKey staged columns
      let tables ← Script.query .count
      let total := ((tables (sqlStagingName table)).map Frame.height).getD 0
      return ⟨total, some (total - updated), some updated⟩ :
      Script SqlPoint Tables Failure SqlMaterializationResult).Meets (Session.interp fault)
      (fun result t => fault .count = none ∧ ∃ staged target widened final columns,
        Counted assign table uniqueKey policy select fault before staged target widened final columns ∧
        t.store = Function.update (withStaging table before staged) table (some final) ∧
        result = ⟨staged.height,
          some (staged.height - (joined uniqueKey staged.rows widened.rows).length),
          some (joined uniqueKey staged.rows widened.rows).length⟩)
      (fun _ t => Left assign table uniqueKey policy select fault before (t.store table))
      ⟨before, none⟩ := by
  refine (meets_prepareMerge.mono (fun _ _ h => h) ?_).bind ?_
  · rintro e t ⟨hnone, htable⟩
    rw [htable]
    exact .untouched fun staged target _ _ hp => absurd hp (hnone staged target)
  rintro ⟨staged, existing⟩ _ ⟨target, hprepared, rfl, rfl⟩
  have htable : (⟨withStaging table before staged, none⟩ : Session Tables).store table = some target :=
    (withStaging_table staged).trans hprepared.exists_target
  refine ((Script.meets_saved calls_reconcileFrom (meets_reconcileFrom htable)).mono
    (fun _ _ h => h) fun e t h => left_of_reconcileRaised hprepared htable h.2).bind ?_
  rintro columns t ⟨hsaved, widened, hreconciled⟩
  have hwidened : t.store table = some widened := by rw [hreconciled.store, Function.update_self]
  have hstaged : uniqueKey ∈ staged.columns := by
    obtain ⟨counts, hcounts, -⟩ := hprepared.keyed
    unfold keyCheck at hcounts
    split at hcounts
    · assumption
    · cases hcounts
  have hne : columns ≠ [] := by
    have hin : uniqueKey ∈ widened.columns :=
      ((reconcileSchema_schema hreconciled.reconciles).sublist.map Prod.fst).subset hprepared.selected
    exact List.ne_nil_of_mem (((reconcileSchema_cases hreconciled.reconciles).2 _ hin).mpr hstaged)
  have hadded : AllAdded table policy fault staged target := fun hwidens => (hreconciled.adds hwidens).2
  have hcases : widened = target ∧ ¬ Widens table staged policy target ∨
      widened = target.widen staged ∧ Widens table staged policy target := by
    by_cases hwidens : Widens table staged policy target
    · exact .inr ⟨(hreconciled.adds hwidens).1, hwidens⟩
    · exact .inl ⟨hreconciled.keeps hwidens, hwidens⟩
  refine ((meets_mergeStaged hsaved hwidened hne).mono (fun _ _ h => h) ?_).bind ?_
  · rintro e _ ⟨rfl, hfails⟩
    rw [hwidened]
    rcases hcases with ⟨rfl, hkeeps⟩ | ⟨rfl, hwidens⟩
    · rw [← hprepared.exists_target]
      refine .untouched fun staged' target' widened' columns' hp hreconciles => ?_
      obtain ⟨rfl, rfl⟩ := hprepared.unique hp
      obtain ⟨rfl, rfl⟩ := Prod.mk.inj (Except.ok.inj (hreconciled.reconciles.symm.trans hreconciles))
      exact ⟨fun hfirst => hkeeps hfirst.1, .inr hfails⟩
    · exact .altered hprepared hreconciled.reconciles (hadded.first hwidens) (fun hc => hfails hc.2.1)
        (schema_widen_ne hwidens)
  rintro updated _ ⟨rfl, hcommits, final, rfl, hmerged⟩
  have hcounted : Counted assign table uniqueKey policy select fault before staged target widened final
    columns := ⟨hprepared, hreconciled.reconciles, hadded, hcases, hcommits, hmerged⟩
  have hstore : Function.update t.store table (some final) =
      Function.update (withStaging table before staged) table (some final) := by
    rw [hreconciled.store, Function.update_idem]
  refine Prog.Meets.bind (Q := fun tables u => fault .count = none ∧
    tables = Function.update t.store table (some final) ∧ u.store = Function.update t.store table (some final))
    (Script.meets_query (fun hfault => ⟨hfault, rfl, rfl⟩) fun e hfault => ?_) ?_
  · show Left _ _ _ _ _ _ _ (Function.update t.store table (some final) table)
    rw [Function.update_self]
    exact hcounted.left (.inl (by simp [hfault]))
  · rintro _ u ⟨hcount, rfl, hu⟩
    refine Prog.meets_pure ⟨hcount, staged, target, widened, final, columns, hcounted,
      hu.trans hstore, ?_⟩
    rw [hstore, Function.update_of_ne (sqlStagingName_ne table), withStaging_staging]
    rfl

/-- What the operation has done when it returns, and what it leaves when it raises. -/
theorem meets_materializeSqlIncremental :
    (materializeSqlIncrementalScript assign table uniqueKey policy select).Meets (Session.interp fault)
      (fun result t => ∃ staged target widened final columns,
        Counted assign table uniqueKey policy select fault before staged target widened final columns ∧
        fault .count = none ∧ fault .dropStaging = none ∧
        t.store = Function.update (Function.update (withStaging table before staged) table (some final))
          (sqlStagingName table) none ∧
        result = ⟨staged.height,
          some (staged.height - (joined uniqueKey staged.rows widened.rows).length),
          some (joined uniqueKey staged.rows widened.rows).length⟩)
      (fun _ t => Left assign table uniqueKey policy select fault before (t.store table))
      ⟨before, none⟩ := by
  refine Prog.Meets.andFinally (fun _ t => Left assign table uniqueKey policy select fault before
    (t.store table)) (meets_untilCount.tryCatch _ fun e t h => Prog.meets_throw h) ?_ ?_
  · rintro result t ⟨hcount, staged, target, widened, final, columns, hcounted, hstore, hresult⟩
    refine Prog.Meets.bind (Script.meets_statement (Q := fun _ (u : Session Tables) =>
      fault .dropStaging = none ∧ u.store = Function.update t.store (sqlStagingName table) none) ?_ ?_) ?_
    · exact fun after hfault hrun => ⟨hfault, (Except.ok.inj hrun).symm⟩
    · rintro e (hfault | ⟨-, hrun⟩)
      · rw [hstore, Function.update_self]
        exact hcounted.left (.inr (by simp [hfault]))
      · cases hrun
    · rintro - u ⟨hdrop, hu⟩
      refine Prog.meets_pure ⟨staged, target, widened, final, columns, hcounted, hcount, hdrop, ?_, hresult⟩
      rw [hu, hstore]
  · intro e t hleft
    refine Prog.Meets.bind (Script.meets_statement (Q := fun _ (u : Session Tables) =>
      u.store table = t.store table) ?_ fun _ _ => hleft) ?_
    · intro after _ hrun
      obtain rfl := Except.ok.inj hrun
      exact Function.update_of_ne (sqlStagingName_ne table).symm _ _
    · rintro - u hu
      refine Prog.meets_pure ?_
      rw [hu]
      exact hleft

/-! ### When the operation is atomic -/

/-- The join finds at least one pair for every key that is replaced, and exactly one if no key has
several rows. -/
theorem length_joined (staged target : List Row) :
    (staged.filter fun s => ∃ t ∈ target, KeyMatch uniqueKey t s).length ≤
        (joined uniqueKey staged target).length ∧
      ((joined uniqueKey staged target).length =
          (staged.filter fun s => ∃ t ∈ target, KeyMatch uniqueKey t s).length ↔
        ∀ s ∈ staged, (target.filter fun t => KeyMatch uniqueKey t s).length ≤ 1) := by
  induction staged with
  | nil => simp [joined]
  | cons s staged ih =>
    obtain ⟨hle, hiff⟩ := ih
    have hcons : (joined uniqueKey (s :: staged) target).length =
        (target.filter fun t => KeyMatch uniqueKey t s).length +
          (joined uniqueKey staged target).length := by
      simp [joined]
    rw [hcons, List.forall_mem_cons, ← hiff]
    by_cases hmatch : ∃ t ∈ target, KeyMatch uniqueKey t s
    · have hpos : 0 < (target.filter fun t => KeyMatch uniqueKey t s).length := by
        obtain ⟨t, ht, hkey⟩ := hmatch
        exact List.length_pos_of_mem (List.mem_filter.mpr ⟨ht, decide_eq_true hkey⟩)
      have hfilter : (s :: staged).filter (fun s => ∃ t ∈ target, KeyMatch uniqueKey t s) =
          s :: staged.filter fun s => ∃ t ∈ target, KeyMatch uniqueKey t s :=
        List.filter_cons_of_pos (by simpa using hmatch)
      rw [hfilter, List.length_cons]
      constructor
      · omega
      · constructor <;> intro h <;> omega
    · have hzero : (target.filter fun t => KeyMatch uniqueKey t s).length = 0 := by
        rw [List.length_eq_zero_iff, List.filter_eq_nil_iff]
        exact fun t ht hkey => hmatch ⟨t, ht, of_decide_eq_true hkey⟩
      have hfilter : (s :: staged).filter (fun s => ∃ t ∈ target, KeyMatch uniqueKey t s) =
          staged.filter fun s => ∃ t ∈ target, KeyMatch uniqueKey t s :=
        List.filter_cons_of_neg (by simpa using hmatch)
      rw [hfilter, hzero]
      constructor
      · omega
      · constructor <;> intro h <;> omega

/-- The rows are the old ones exactly if what is inserted is what is deleted. -/
theorem perm_replaced_iff {staged target stored : List Row} :
    target.Perm ((target.filter fun t => ¬ ∃ s ∈ staged, KeyMatch uniqueKey t s) ++ stored) ↔
      stored.Perm (target.filter fun t => ∃ s ∈ staged, KeyMatch uniqueKey t s) := by
  have hsplit : target.Perm ((target.filter fun t => ¬ ∃ s ∈ staged, KeyMatch uniqueKey t s) ++
      target.filter fun t => ∃ s ∈ staged, KeyMatch uniqueKey t s) := by
    refine ((List.filter_append_perm (fun t => decide (∃ s ∈ staged, KeyMatch uniqueKey t s))
      target).symm.trans List.perm_append_comm).trans (List.Perm.of_eq ?_)
    congr 1
    exact List.filter_congr fun t _ => by rw [decide_not]
  constructor
  · intro h
    exact ((List.perm_append_left_iff _).mp (hsplit.symm.trans h)).symm
  · intro h
    exact hsplit.trans ((List.perm_append_left_iff _).mpr h.symm)

section Decides

variable {staged target widened final : Frame} {columns : List String}

theorem Counted.rows_widened
    (h : Counted assign table uniqueKey policy select fault before staged target widened final columns) :
    widened.rows = target.rows := reconcileSchema_rows h.reconciles

/-- What returns is a replacement exactly if no key is that of several rows. -/
theorem Counted.sqlReplaced_iff
    (h : Counted assign table uniqueKey policy select fault before staged target widened final columns) :
    SqlReplaced assign table uniqueKey before staged
      ⟨staged.height, some (staged.height - (joined uniqueKey staged.rows widened.rows).length),
        some (joined uniqueKey staged.rows widened.rows).length⟩
      (Function.update (Function.update (withStaging table before staged) table (some final))
        (sqlStagingName table) none) ↔
      ∀ s ∈ staged.rows, (target.rows.filter fun t => KeyMatch uniqueKey t s).length ≤ 1 := by
  rw [h.rows_widened]
  obtain ⟨-, hiff⟩ := @length_joined uniqueKey staged.rows target.rows
  rw [← hiff]
  have htotal := List.length_eq_length_filter_add (l := staged.rows)
    fun s => decide (∃ t ∈ target.rows, KeyMatch uniqueKey t s)
  constructor
  · rintro ⟨target', final', stored, htarget, -, -, -, -, -, hupdated, -⟩
    obtain rfl := Option.some.inj (h.prepared.exists_target.symm.trans htarget)
    exact_mod_cast Option.some.inj hupdated
  · intro hcount
    obtain ⟨stored, hstored, hrows⟩ := h.merged.rows
    rw [h.rows_widened] at hrows
    refine ⟨target, final, stored, h.prepared.exists_target, ?_, Function.update_self .., ?_, ?_, rfl, ?_, ?_⟩
    · rw [Function.update_of_ne (sqlStagingName_ne table).symm, Function.update_self]
    · rw [hrows]
    · rw [h.merged.schema]
      exact (assignRows_eq_some.mp hstored).imp fun row s hs =>
        storedRow_of_assignRow (reconcileSchema_cases h.reconciles).2 hs
    · rw [hcount]
    · have hrest : (staged.rows.filter fun s =>
          ¬ ∃ t ∈ target.rows, KeyMatch uniqueKey t s).length +
          (joined uniqueKey staged.rows target.rows).length = staged.height := by
        rw [hcount, Frame.height, htotal, Nat.add_comm]
        congr 2
        exact List.filter_congr fun s _ => by rw [decide_not]
      simp only [Option.some.injEq]
      omega

/-- Once it has returned, the condition is about the keys. -/
theorem Counted.raisesSafely_iff
    (h : Counted assign table uniqueKey policy select fault before staged target widened final columns)
    (hcount : fault .count = none) (hdrop : fault .dropStaging = none) :
    RaisesSafely assign table uniqueKey policy select fault before ↔
      ∀ s ∈ staged.rows, (target.rows.filter fun t => KeyMatch uniqueKey t s).length ≤ 1 := by
  have hcompletes : Completes assign table policy fault staged target widened columns :=
    ⟨h.added, h.commits, hcount, hdrop⟩
  constructor
  · intro hsafe
    exact (hsafe staged target widened columns h.prepared h.reconciles).2.2 hcompletes
  · intro hone staged' target' widened' columns' hp hreconciles
    obtain ⟨rfl, rfl⟩ := h.prepared.unique hp
    obtain ⟨rfl, rfl⟩ := Prod.mk.inj (Except.ok.inj (h.reconciles.symm.trans hreconciles))
    refine ⟨fun _ => hcompletes, fun _ _ hlate => ?_, fun _ => hone⟩
    exact absurd hlate (by simp [hcount, hdrop])

end Decides

/-- What an exception leaves is the old target exactly under the condition. -/
theorem Left.sameTable_iff {x : Option Frame}
    (h : Left assign table uniqueKey policy select fault before x) :
    SameTable (before table) x ↔ RaisesSafely assign table uniqueKey policy select fault before := by
  cases h with
  | untouched hnone =>
    refine ⟨fun _ staged target widened columns hp hreconciles => ?_, fun _ => SameTable.refl _⟩
    obtain ⟨hfirst, hstops⟩ := hnone staged target widened columns hp hreconciles
    refine ⟨fun h => absurd h hfirst, fun hkeeps hcommits => ?_, fun hcompletes => ?_⟩
    · exact absurd hcommits (hstops.resolve_left hkeeps)
    · rcases hstops with hwidens | hfails
      · exact absurd (hcompletes.1.first hwidens) hfirst
      · exact absurd hcompletes.2.1 hfails
  | altered hp hreconciles hfirst hstops hschema =>
    refine ⟨fun hsame => ?_, fun hsafe => ?_⟩
    · rw [hp.exists_target] at hsame
      exact absurd hsame.1.symm hschema
    · exact absurd ((hsafe _ _ _ _ hp hreconciles).1 hfirst) hstops
  | @loaded staged target final columns hp hreconciles hkeeps hcommits hlate hmerged =>
    obtain ⟨stored, hstored, hrows⟩ := hmerged.rows
    have hsame : SameTable (before table) (some final) ↔
        stored.Perm (target.rows.filter fun t => ∃ s ∈ staged.rows, KeyMatch uniqueKey t s) := by
      rw [hp.exists_target, SameTable, hmerged.schema, hrows]
      exact (and_iff_right rfl).trans perm_replaced_iff
    rw [hsame]
    constructor
    · intro hperm staged' target' widened' columns' hp' hreconciles'
      obtain ⟨rfl, rfl⟩ := hp.unique hp'
      obtain ⟨rfl, rfl⟩ := Prod.mk.inj (Except.ok.inj (hreconciles.symm.trans hreconciles'))
      refine ⟨fun hfirst => absurd hfirst.1 hkeeps, fun _ _ _ stored' hstored' => ?_, fun hc => ?_⟩
      · obtain rfl := Option.some.inj (hstored.symm.trans hstored')
        exact hperm
      · exact absurd hlate (by simp [hc.2.2.1, hc.2.2.2])
    · intro hsafe
      exact (hsafe _ _ _ _ hp hreconciles).2.1 hkeeps hcommits hlate stored hstored

end Runs

/-! ### A column that stays -/

/-- A target of amounts, and a query whose amount is no number and which has a further column. -/
def salesTarget : Frame where
  schema := [("id", "VARCHAR"), ("amount", "BIGINT")]
  rows := [fun c => if c = "id" then .string "a" else if c = "amount" then .other "5" else .null]
  nodup := by decide
  blank := by simp_all

def salesQuery : Frame where
  schema := [("id", "VARCHAR"), ("amount", "VARCHAR"), ("note", "VARCHAR")]
  rows := [fun c => if c = "id" then .string "a" else if c = "amount" then .string "many" else
    if c = "note" then .string "new" else .null]
  nodup := by decide
  blank := by simp_all

/-- Casts of texts to integers. -/
def castIntegers : Assignment := fun type cell =>
  if type = "BIGINT" ∧ cell = .string "many" then none else some cell

end Stel.Warehouse
