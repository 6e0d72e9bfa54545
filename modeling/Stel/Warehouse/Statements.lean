import Stel.Program.Transaction
import Stel.Data.Keyed
import Stel.Warehouse.Frame
import Mathlib.Logic.Function.Basic

/-!
# Statements on the tables of a warehouse

The statements that the DuckDB adapter (`adapters/duckdb.py`) runs on its tables, each at a point where
it can raise, and `_reconcile_schema`, which adds columns to a table one statement at a time.

## Main definitions

* `Tables`, with `Tables.create`, `Tables.alter`, `Tables.insertInto`, `Tables.drop`, `Tables.rename`.
* `reconcile`: `_reconcile_schema`, statement by statement.

## Main results

* `meets_reconcile`: what is added when it returns, and when it raises.
-/

namespace Stel.Warehouse

/-- The tables by name. -/
abbrev Tables : Type := String → Option Frame

/-! ### Columns -/

/-- The second frame is the first one with further columns. -/
structure Frame.Added (f : Frame) (columns : List (String × String)) (g : Frame) : Prop where
  schema : g.schema = f.schema ++ columns
  rows : g.rows = f.rows

theorem Frame.ext_iff' {f g : Frame} : f = g ↔ f.schema = g.schema ∧ f.rows = g.rows := by
  constructor
  · rintro rfl
    exact ⟨rfl, rfl⟩
  · obtain ⟨schema, rows, _, _⟩ := f
    obtain ⟨schema', rows', _, _⟩ := g
    rintro ⟨hschema, hrows⟩
    obtain rfl : schema = schema' := hschema
    obtain rfl : rows = rows' := hrows
    rfl

theorem Frame.Added.refl (f : Frame) : f.Added [] f := ⟨(List.append_nil _).symm, rfl⟩

theorem Frame.added_nil {f g : Frame} : f.Added [] g ↔ g = f := by
  constructor
  · rintro ⟨hschema, hrows⟩
    exact Frame.ext_iff'.mpr ⟨by simpa using hschema, hrows⟩
  · rintro rfl
    exact Frame.Added.refl _

/-- `ADD COLUMN`. -/
def Frame.addColumn (f : Frame) (column : String × String) : Except Failure Frame :=
  if h : column.1 ∈ f.columns then .error (.other "Catalog Error")
  else .ok
    { schema := f.schema ++ [column]
      rows := f.rows
      nodup := by
        rw [List.map_append]
        exact f.nodup.append (List.nodup_singleton _) (by simpa [Frame.columns] using h)
      blank := fun row hrow c hc => f.blank row hrow c fun hmem => hc (by
        rw [List.map_append]
        exact List.mem_append_left _ hmem) }

theorem Frame.addColumn_eq_ok {f g : Frame} {column : String × String}
    (h : f.addColumn column = .ok g) : f.Added [column] g := by
  unfold Frame.addColumn at h
  split at h
  · cases h
  · obtain rfl := Except.ok.inj h
    exact ⟨rfl, rfl⟩

theorem Frame.exists_addColumn {f : Frame} {column : String × String}
    (h : column.1 ∉ f.columns) : ∃ g, f.addColumn column = .ok g := by
  unfold Frame.addColumn
  rw [dif_neg h]
  exact ⟨_, rfl⟩

theorem Frame.Added.trans {f g k : Frame} {columns more : List (String × String)}
    (h : f.Added columns g) (h' : g.Added more k) : f.Added (columns ++ more) k :=
  ⟨by rw [h'.schema, h.schema, List.append_assoc], h'.rows.trans h.rows⟩

/-- The row that a table stores for a row of a frame: `NULL` in the columns that the frame does not
have, and in the others what the assignment cast to the type of the column stores. -/
def StoredRow (assign : Assignment) (schema : List (String × String)) (df : Frame)
    (row stored : Row) : Prop :=
  ∀ c, (c ∉ df.columns → stored c = .null) ∧
    ∀ type, c ∈ df.columns → schema.lookup c = some type → assign type (row c) = some (stored c)

theorem storedRow_of_assignRow {assign : Assignment} {df widened : Frame} {columns : List String}
    {row stored : Row} (hload : ∀ c ∈ widened.columns, c ∈ columns ↔ c ∈ df.columns)
    (h : assignRow assign widened.schema columns row = some stored) :
    StoredRow assign widened.schema df row stored := by
  refine fun c => ⟨fun hc => ?_, fun type hc htype => ?_⟩
  · by_cases hin : c ∈ widened.columns
    · exact assignRow_omitted h fun hmem => hc ((hload c hin).mp hmem)
    · exact assignRow_blank h hin
  · have hin : c ∈ widened.columns := by
      by_contra hnot
      rw [lookup_eq_none_of_notMem hnot] at htype
      cases htype
    exact assignRow_apply h htype ((hload c hin).mpr hc)

/-! ### Statements -/

namespace Tables

variable (assign : Assignment)

/-- The error about a table that does not exist. -/
def missing : Failure := .other "Catalog Error"

/-- `CREATE OR REPLACE TABLE … AS SELECT *`, which needs a column. -/
def create (name : String) (df : Frame) (tables : Tables) : Except Failure Tables :=
  if df.schema = [] then .error (.other "Binder Error")
  else .ok (Function.update tables name (some df))

/-- A statement that changes one table. -/
def modify (name : String) (change : Frame → Except Failure Frame) (tables : Tables) :
    Except Failure Tables :=
  match tables name with
  | none => .error missing
  | some f => do
    let g ← change f
    return Function.update tables name (some g)

/-- `ALTER TABLE … ADD COLUMN`. -/
def alter (name : String) (column : String × String) : Tables → Except Failure Tables :=
  modify name (·.addColumn column)

/-- `INSERT INTO … BY NAME SELECT`, which needs a column. -/
def insertInto (name : String) (columns : List String) (rows : List Row) :
    Tables → Except Failure Tables :=
  modify name fun f =>
    if columns = [] then .error (.other "Parser Error") else f.insert assign columns rows

/-- `DROP TABLE IF EXISTS`. -/
def drop (name : String) (tables : Tables) : Except Failure Tables :=
  .ok (Function.update tables name none)

/-- `ALTER TABLE … RENAME TO`. -/
def rename (name newName : String) (tables : Tables) : Except Failure Tables :=
  match tables name, tables newName with
  | some f, none => .ok (Function.update (Function.update tables name none) newName (some f))
  | _, _ => .error missing

/-- `_table_columns(table) or []`. -/
def columns (tables : Tables) (name : String) : List String :=
  ((tables name).map Frame.columns).getD []

variable {assign}

theorem modify_eq_ok {name : String} {change : Frame → Except Failure Frame} {tables after : Tables}
    (h : modify name change tables = .ok after) : ∃ f g, tables name = some f ∧
      change f = .ok g ∧ after = Function.update tables name (some g) := by
  unfold modify at h
  split at h
  · cases h
  · rename_i f hf
    obtain ⟨g, hg, h⟩ := bind_eq_ok.mp h
    exact ⟨f, g, hf, hg, (Except.ok.inj h).symm⟩

theorem modify_eq_error {name : String} {change : Frame → Except Failure Frame} {tables : Tables}
    {e : Failure} {f : Frame} (hf : tables name = some f)
    (h : modify name change tables = .error e) : change f = .error e := by
  unfold modify at h
  simp only [hf] at h
  cases hg : change f with
  | ok g =>
    rw [hg] at h
    cases h
  | error e' =>
    rw [hg] at h
    exact congrArg _ (Except.error.inj h)

end Tables

/-! ### Reconciliation -/

/-- The points of `_reconcile_schema`. -/
structure ReconcilePoints (P : Type) where
  columns : P
  describe : P
  alter : String → P

section Reconcile

variable {P : Type} (points : ReconcilePoints P) (name : String) (df : Frame)
  (policy : OnSchemaChange)

/-- The columns that a plan adds, with the types of the source. -/
def SchemaChangePlan.additions (plan : SchemaChangePlan) (df : Frame) : List (String × String) :=
  plan.columnsToAdd.map fun c => (c, (df.schema.lookup c).getD "")

/-- The statements that add columns. -/
def addColumns (columns : List (String × String)) : Script P Tables Failure PUnit :=
  Prog.forEach (fun column => do
    let _ ← Script.statement (points.alter column.1) (Tables.alter name column)
    return ⟨⟩) columns

/-- `_reconcile_schema`, when the columns of the table have been read: the columns to insert. -/
def reconcileFrom (existing : List String) : Script P Tables Failure (List String) := do
  let plan ← Prog.ofExcept (planSchemaChange existing df.columns policy name)
  if plan.columnsToAdd = [] then return plan.columnsToLoad
  else do
    let _ ← Script.query points.describe
    addColumns points name (plan.additions df)
    return plan.columnsToLoad

/-- `_reconcile_schema`. -/
def reconcile : Script P Tables Failure (List String) := do
  let tables ← Script.query points.columns
  reconcileFrom points name df policy (tables.columns name)

variable {points name df policy} {fault : P → Option Failure} {s : Session Tables} {f : Frame}

/-- A plan adds the columns of the source that the target does not have, or none. -/
theorem additions_eq {plan : SchemaChangePlan}
    (h : planSchemaChange f.columns df.columns policy name = .ok plan) :
    (plan.columnsToAdd = [] ∨ plan.additions df = f.newColumns df) ∧
      reconcileSchema name f df policy =
        .ok (if plan.columnsToAdd = [] then f else f.widen df, plan.columnsToLoad) := by
  constructor
  · have hnew : ((df.columns.filter (· ∉ f.columns)).map fun c =>
        (c, (df.schema.lookup c).getD "")) = f.newColumns df := by
      show ((df.schema.map Prod.fst).filter (· ∉ f.columns)).map _ = f.newColumns df
      rw [List.filter_map, List.map_map]
      refine (List.map_congr_left fun column hcolumn => ?_).trans (List.map_id _)
      have hlookup := (mem_iff_lookup df.nodup).mp (List.mem_of_mem_filter hcolumn)
      simp [hlookup]
    simp only [planSchemaChange] at h
    split at h
    · obtain rfl := Except.ok.inj h
      exact .inl rfl
    · cases policy with
      | fail => cases h
      | ignore =>
        obtain rfl := Except.ok.inj h
        exact .inl rfl
      | appendNewColumns =>
        obtain rfl := Except.ok.inj h
        exact .inr hnew
  · rw [reconcileSchema, h]
    rfl

/-- The columns are added in order, up to the first fault. -/
theorem meets_addColumns {columns : List (String × String)} (hf : s.store name = some f)
    (hnodup : (f.columns ++ columns.map Prod.fst).Nodup) :
    (addColumns points name columns).Meets (Session.interp fault)
      (fun _ t => ∃ g, f.Added columns g ∧ t.store = Function.update s.store name (some g) ∧
        ∀ column ∈ columns, fault (points.alter column.1) = none)
      (fun e t => ∃ done column rest g, columns = done ++ column :: rest ∧ f.Added done g ∧
        t.store = Function.update s.store name (some g) ∧
        (∀ other ∈ done, fault (points.alter other.1) = none) ∧
        fault (points.alter column.1) = some e) s := by
  let J := fun (rest : List (String × String)) (t : Session Tables) => ∃ done g,
    columns = done ++ rest ∧ f.Added done g ∧ t.store = Function.update s.store name (some g) ∧
      ∀ other ∈ done, fault (points.alter other.1) = none
  have hstart : J columns s :=
    ⟨[], f, rfl, Frame.Added.refl f, (Function.update_eq_self_iff.mpr hf.symm).symm, by simp⟩
  refine (Prog.Meets.forEach J hstart ?_).mono ?_ fun e t h => h
  · rintro column rest t ⟨done, g, hsplit, hadded, hstore, hfine⟩
    have hg : t.store name = some g := by rw [hstore, Function.update_self]
    have hout : column.1 ∉ g.columns := by
      have hcolumns : g.columns = f.columns ++ done.map Prod.fst := by
        rw [Frame.columns, hadded.schema, List.map_append]
        rfl
      rw [hsplit, List.map_append, ← List.append_assoc, ← hcolumns] at hnodup
      exact fun hmem => List.disjoint_of_nodup_append hnodup hmem (by simp)
    refine Prog.Meets.bind (Script.meets_statement (Q := fun _ t => J rest t) ?_ ?_)
      fun _ t ht => Prog.meets_pure ht
    · intro after hfault hrun
      obtain ⟨g', k, hg', hk, rfl⟩ := Tables.modify_eq_ok hrun
      obtain rfl := Option.some.inj (hg'.symm.trans hg)
      refine ⟨done ++ [column], k, by simpa using hsplit, hadded.trans (Frame.addColumn_eq_ok hk), ?_, ?_⟩
      · rw [hstore, Function.update_idem]
      · intro other hother
        rcases List.mem_append.mp hother with hdone | hlast
        · exact hfine other hdone
        · rw [List.mem_singleton.mp hlast]
          exact hfault
    · rintro e (hfault | ⟨-, hrun⟩)
      · exact ⟨done, column, rest, g, hsplit, hadded, hstore, hfine, hfault⟩
      · obtain ⟨k, hk⟩ := Frame.exists_addColumn hout
        have herror := Tables.modify_eq_error hg hrun
        rw [hk] at herror
        cases herror
  · rintro - t ⟨done, g, hsplit, hadded, hstore, hfine⟩
    rw [List.append_nil] at hsplit
    subst hsplit
    exact ⟨g, hadded, hstore, hfine⟩

/-- The plan adds columns. -/
def Widens (name : String) (df : Frame) (policy : OnSchemaChange) (f : Frame) : Prop :=
  ∃ plan, planSchemaChange f.columns df.columns policy name = .ok plan ∧ plan.columnsToAdd ≠ []

/-- What `_reconcile_schema` leaves when a statement raises: nothing is added, or some of the columns. -/
inductive ReconcileRaised (points : ReconcilePoints P) (name : String) (df : Frame)
    (policy : OnSchemaChange) (fault : P → Option Failure) (f : Frame) (before : Tables) (e : Failure) :
    Tables → Prop
  | early (cause : planSchemaChange f.columns df.columns policy name = .error e ∨
      Widens name df policy f ∧ fault points.describe = some e) :
      ReconcileRaised points name df policy fault f before e before
  | adding {done rest : List (String × String)} {column : String × String} {g : Frame}
      (describe : fault points.describe = none) (widens : Widens name df policy f)
      (split : f.newColumns df = done ++ column :: rest) (added : f.Added done g)
      (fine : ∀ other ∈ done, fault (points.alter other.1) = none)
      (cause : fault (points.alter column.1) = some e) :
      ReconcileRaised points name df policy fault f before e (Function.update before name (some g))

/-- What it leaves when it returns. -/
structure Reconciled (points : ReconcilePoints P) (name : String) (df : Frame)
    (policy : OnSchemaChange) (fault : P → Option Failure) (f : Frame) (before : Tables)
    (columns : List String) (widened : Frame) (after : Tables) : Prop where
  reconciles : reconcileSchema name f df policy = .ok (widened, columns)
  store : after = Function.update before name (some widened)
  adds : Widens name df policy f → widened = f.widen df ∧ fault points.describe = none ∧
    ∀ column ∈ f.newColumns df, fault (points.alter column.1) = none
  keeps : ¬ Widens name df policy f → widened = f

theorem meets_reconcileFrom (hf : s.store name = some f) :
    (reconcileFrom points name df policy f.columns).Meets (Session.interp fault)
      (fun columns t => ∃ widened,
        Reconciled points name df policy fault f s.store columns widened t.store)
      (fun e t => ReconcileRaised points name df policy fault f s.store e t.store) s := by
  unfold reconcileFrom
  cases hplan : planSchemaChange f.columns df.columns policy name with
  | error e => exact Prog.meets_throw (.early (.inl hplan))
  | ok plan =>
    obtain ⟨hadditions, hreconcile⟩ := additions_eq hplan
    rw [Prog.ofExcept_ok, Prog.pure_bind]
    split
    · rename_i hnone
      rw [if_pos hnone] at hreconcile
      refine Prog.meets_pure ⟨f, hreconcile, (Function.update_eq_self_iff.mpr hf.symm).symm, ?_,
        fun _ => rfl⟩
      rintro ⟨plan', hplan', hsome⟩
      obtain rfl := Except.ok.inj (hplan'.symm.trans hplan)
      exact absurd hnone hsome
    · rename_i hsome
      have hwidens : Widens name df policy f := ⟨plan, hplan, hsome⟩
      rw [if_neg hsome] at hreconcile
      rw [hadditions.resolve_left hsome]
      refine Prog.Meets.bind (Q := fun _ t => t = s ∧ fault points.describe = none)
        (Script.meets_query (fun hfault => ⟨rfl, hfault⟩)
          fun e hfault => .early (.inr ⟨hwidens, hfault⟩)) ?_
      rintro - t ⟨ht, hdescribe⟩
      obtain rfl := ht.symm
      have hnodup : (f.columns ++ (f.newColumns df).map Prod.fst).Nodup := by
        have := (f.widen df).nodup
        rwa [Frame.widen, List.map_append] at this
      refine Prog.Meets.bind ((meets_addColumns hf hnodup).mono (fun _ t h => h) ?_) ?_
      · rintro e t ⟨done, column, rest, g, hsplit, hadded, hstore, hfine, hfault⟩
        rw [hstore]
        exact .adding hdescribe hwidens hsplit hadded hfine hfault
      · rintro - t ⟨g, hadded, hstore, hfine⟩
        have hg : g = f.widen df := Frame.ext_iff'.mpr ⟨hadded.schema, hadded.rows⟩
        subst hg
        exact Prog.meets_pure ⟨_, hreconcile, hstore, fun _ => ⟨rfl, hdescribe, hfine⟩,
          fun hnot => absurd hwidens hnot⟩

theorem meets_reconcile (hf : s.store name = some f) :
    (reconcile points name df policy).Meets (Session.interp fault)
      (fun columns t => ∃ widened,
        Reconciled points name df policy fault f s.store columns widened t.store)
      (fun e t => t.store = s.store ∨
        ReconcileRaised points name df policy fault f s.store e t.store) s := by
  refine Prog.Meets.bind (Q := fun tables t => tables = s.store ∧ t = s)
    (Script.meets_query (fun _ => ⟨rfl, rfl⟩) fun _ _ => .inl rfl) ?_
  rintro _ t ⟨rfl, ht⟩
  obtain rfl := ht.symm
  have hcolumns : Tables.columns s.store name = f.columns := by simp [Tables.columns, hf]
  rw [hcolumns]
  exact (meets_reconcileFrom hf).mono (fun _ _ h => h) fun _ _ h => .inr h

theorem calls_statement (point : P) (run : Tables → Except Failure Tables) :
    (Script.statement point run).Calls Statement.IsEffect :=
  ⟨trivial, fun _ => trivial, fun _ => trivial⟩

theorem calls_addColumns (columns : List (String × String)) :
    (addColumns points name columns).Calls Statement.IsEffect := by
  induction columns with
  | nil => trivial
  | cons column rest ih =>
    have hone : (do
        let _ ← Script.statement (points.alter column.1) (Tables.alter name column)
        return ⟨⟩ : Script P Tables Failure PUnit).Calls Statement.IsEffect :=
      (calls_statement _ _).bind fun _ => trivial
    exact hone.bind fun _ => ih

/-- Reconciling neither begins nor ends a transaction. -/
theorem calls_reconcileFrom {existing : List String} :
    (reconcileFrom points name df policy existing).Calls Statement.IsEffect := by
  refine Prog.calls_ofExcept_bind fun plan _ => ?_
  split
  · trivial
  · exact (calls_statement _ _).bind fun _ => (calls_addColumns _).bind fun _ => trivial

theorem calls_reconcile : (reconcile points name df policy).Calls Statement.IsEffect :=
  (calls_statement _ _).bind fun _ => calls_reconcileFrom

end Reconcile

end Stel.Warehouse
