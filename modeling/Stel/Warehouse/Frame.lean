import Stel.Failure
import Mathlib.Data.List.Nodup

/-!
# Frames and warehouse tables

A frame of the executors and a table of the warehouse (`adapters/base.py`, `adapters/duckdb.py`)
both have typed columns in order and rows. A row gives the cell of every column name; it is `NULL`
in the columns that its frame does not have, so that adding a column to a table does not change its
rows. Column names are compared exactly.

## Main definitions

* `Cell`, `Row`, `Frame`.
* `planSchemaChange`, `Frame.widen`: how a load reconciles with its target.
* `Frame.insert`: `INSERT … BY NAME`, with the warehouse's assignment casts as a parameter.

## Main results

* `Frame.insert_eq_ok`: the rows after an insertion.
-/

namespace Stel.Warehouse

/-- A cell: `NULL`, a string, a list or a mapping by its JSON text, or a value of another type by
its text. -/
inductive Cell
  | null
  | string (s : String)
  | nested (json : String)
  | other (text : String)
  deriving DecidableEq, Repr

/-- The text of a cell that is not `NULL`. -/
def Cell.text : Cell → Option String
  | .null => none
  | .string s => some s
  | .nested j => some j
  | .other t => some t

/-- `scalarize`. -/
def Cell.scalarize : Cell → Cell
  | .nested j => .string j
  | c => c

/-- Equality in a SQL predicate, which `NULL` never satisfies. -/
def Cell.Equals (a b : Cell) : Prop :=
  ∃ t ∈ a.text, b.text = some t

instance (a b : Cell) : Decidable (a.Equals b) :=
  inferInstanceAs (Decidable (∃ t ∈ a.text, _))

theorem Cell.equals_string {a : Cell} {s : String} : a.Equals (.string s) ↔ a.text = some s := by
  simp [Cell.Equals, Cell.text]

/-- The cells of a row by column name. -/
abbrev Row : Type := String → Cell

/-- A frame or a table: its columns with their types, and its rows. -/
structure Frame where
  schema : List (String × String)
  rows : List Row
  nodup : (schema.map Prod.fst).Nodup
  /-- A row has no cell outside the columns. -/
  blank : ∀ row ∈ rows, ∀ c ∉ schema.map Prod.fst, row c = .null

namespace Frame

/-- The column names. -/
def columns (f : Frame) : List String := f.schema.map Prod.fst

/-- The number of rows. -/
def height (f : Frame) : ℕ := f.rows.length

/-- The frame without columns. -/
def empty : Frame where
  schema := []
  rows := []
  nodup := List.nodup_nil
  blank := by simp

/-- `SELECT * … LIMIT 0`. -/
def emptied (f : Frame) : Frame where
  schema := f.schema
  rows := []
  nodup := f.nodup
  blank := by simp

/-- The frame without some of its rows. -/
def filterRows (f : Frame) (keep : Row → Bool) : Frame where
  schema := f.schema
  rows := f.rows.filter keep
  nodup := f.nodup
  blank row hrow := f.blank row (List.mem_of_mem_filter hrow)

/-- The columns of `source` that the frame does not have. -/
def newColumns (f source : Frame) : List (String × String) :=
  source.schema.filter (·.1 ∉ f.columns)

/-- The frame with the columns of `source` that it does not have. -/
def widen (f source : Frame) : Frame where
  schema := f.schema ++ f.newColumns source
  rows := f.rows
  nodup := by
    rw [List.map_append]
    refine List.nodup_append'.mpr ⟨f.nodup, ?_, ?_⟩
    · exact source.nodup.sublist (List.filter_sublist.map _)
    · intro c hc hnew
      obtain ⟨column, hcolumn, rfl⟩ := List.mem_map.mp hnew
      have hout := (List.mem_filter.mp hcolumn).2
      exact (of_decide_eq_true hout) hc
  blank row hrow c hc := f.blank row hrow c fun hmem => hc (by
    rw [List.map_append]
    exact List.mem_append_left _ hmem)

@[simp] theorem rows_emptied (f : Frame) : f.emptied.rows = [] := rfl

@[simp] theorem schema_emptied (f : Frame) : f.emptied.schema = f.schema := rfl

@[simp] theorem rows_filterRows (f : Frame) (keep : Row → Bool) :
    (f.filterRows keep).rows = f.rows.filter keep := rfl

@[simp] theorem schema_filterRows (f : Frame) (keep : Row → Bool) :
    (f.filterRows keep).schema = f.schema := rfl

@[simp] theorem rows_widen (f source : Frame) : (f.widen source).rows = f.rows := rfl

end Frame

/-! ### Insertion by name -/

/-- The assignment casts of the warehouse: the cell that a column of the type stores, or `none` for
a conversion error. -/
abbrev Assignment : Type := String → Cell → Option Cell

/-- The row that `INSERT … BY NAME` stores, when `columns` are the columns inserted. -/
def assignRow (assign : Assignment) (schema : List (String × String)) (columns : List String)
    (row : Row) : Option Row :=
  if ∀ c ∈ schema, c.1 ∈ columns → (assign c.2 (row c.1)).isSome then
    some fun name =>
      match schema.lookup name with
      | some type => if name ∈ columns then (assign type (row name)).getD .null else .null
      | none => .null
  else none

/-- The rows that `INSERT … BY NAME` stores. -/
def assignRows (assign : Assignment) (schema : List (String × String)) (columns : List String)
    (rows : List Row) : Option (List Row) :=
  rows.mapM (assignRow assign schema columns)

section Assign

variable {assign : Assignment} {schema : List (String × String)} {columns : List String}

theorem lookup_eq_none_of_notMem {β : Type} {entries : List (String × β)} {c : String}
    (hc : c ∉ entries.map Prod.fst) : entries.lookup c = none := by
  rw [List.lookup_eq_none_iff]
  intro p hp
  have hne : c ≠ p.1 := fun he => hc (he ▸ List.mem_map_of_mem hp)
  simpa using hne

theorem exists_lookup_of_mem {β : Type} {entries : List (String × β)} {c : String}
    (hc : c ∈ entries.map Prod.fst) : ∃ b, entries.lookup c = some b := by
  rw [← Option.ne_none_iff_exists', ne_eq, List.lookup_eq_none_iff]
  intro hnone
  obtain ⟨entry, hentry, rfl⟩ := List.mem_map.mp hc
  simpa using hnone entry hentry

theorem lookup_map_pair {β : Type} {f : String → β} {names : List String} {c : String}
    (hc : c ∈ names) : (names.map fun n => (n, f n)).lookup c = some (f c) := by
  induction names with
  | nil => cases hc
  | cons n names ih =>
    rw [List.map_cons, List.lookup_cons]
    by_cases hn : c = n
    · simp [hn]
    · have hb : (c == n) = false := by simpa using hn
      rw [hb]
      exact ih ((List.mem_cons.mp hc).resolve_left hn)

theorem assignRow_blank {row stored : Row} (h : assignRow assign schema columns row = some stored)
    {c : String} (hc : c ∉ schema.map Prod.fst) : stored c = .null := by
  unfold assignRow at h
  split at h
  · obtain rfl := Option.some.inj h
    simp only [lookup_eq_none_of_notMem hc]
  · cases h

/-- A column that is not inserted is null. -/
theorem assignRow_omitted {row stored : Row} (h : assignRow assign schema columns row = some stored)
    {c : String} (hc : c ∉ columns) : stored c = .null := by
  unfold assignRow at h
  split at h
  · obtain rfl := Option.some.inj h
    simp only [if_neg hc]
    split <;> rfl
  · cases h

/-- The cell that an inserted column stores. -/
theorem assignRow_apply {row stored : Row} (h : assignRow assign schema columns row = some stored)
    {c type : String} (htype : schema.lookup c = some type) (hc : c ∈ columns) :
    assign type (row c) = some (stored c) := by
  unfold assignRow at h
  split at h
  · rename_i hall
    obtain rfl := Option.some.inj h
    have hmem : (c, type) ∈ schema := by
      obtain ⟨k, v, hkv, -⟩ := List.lookup_eq_some_iff.mp htype
      simp [hkv]
    obtain ⟨cell, hcell⟩ := Option.isSome_iff_exists.mp (hall (c, type) hmem hc)
    simp only [htype, if_pos hc, hcell, Option.getD_some]
  · cases h

/-- Only the inserted columns of the target matter. -/
theorem assignRow_congr {columns' : List String}
    (h : ∀ c ∈ schema.map Prod.fst, c ∈ columns ↔ c ∈ columns') (row : Row) :
    assignRow assign schema columns row = assignRow assign schema columns' row := by
  have hcond : (∀ c ∈ schema, c.1 ∈ columns → (assign c.2 (row c.1)).isSome) ↔
      ∀ c ∈ schema, c.1 ∈ columns' → (assign c.2 (row c.1)).isSome := by
    refine forall₂_congr fun c hc => ?_
    rw [h c.1 (List.mem_map_of_mem hc)]
  unfold assignRow
  by_cases hall : ∀ c ∈ schema, c.1 ∈ columns → (assign c.2 (row c.1)).isSome
  · rw [if_pos hall, if_pos (hcond.mp hall)]
    congr 1
    funext name
    cases hlookup : schema.lookup name with
    | none => rfl
    | some type =>
      obtain ⟨k, v, hkv, -⟩ := List.lookup_eq_some_iff.mp hlookup
      have hmem : name ∈ schema.map Prod.fst := by simp [hkv]
      simp only [h name hmem]
  · rw [if_neg hall, if_neg (mt hcond.mpr hall)]

theorem mapM_eq_some {α β : Type} {f : α → Option β} {xs : List α} {ys : List β} :
    xs.mapM f = some ys ↔ List.Forall₂ (fun x y => f x = some y) xs ys := by
  induction xs generalizing ys with
  | nil => simp [eq_comm]
  | cons x xs ih =>
    simp only [List.mapM_cons, List.forall₂_cons_left_iff, Option.bind_eq_bind,
      Option.bind_eq_some_iff, Option.pure_def, Option.some.injEq]
    constructor
    · rintro ⟨y, hy, rest, hrest, rfl⟩
      exact ⟨y, rest, hy, ih.mp hrest, rfl⟩
    · rintro ⟨y, rest, hy, hrest, rfl⟩
      exact ⟨y, hy, rest, ih.mpr hrest, rfl⟩

/-- The stored rows are the inserted ones, one for one. -/
theorem assignRows_eq_some {rows stored : List Row} :
    assignRows assign schema columns rows = some stored ↔
      List.Forall₂ (fun row s => assignRow assign schema columns row = some s) rows stored :=
  mapM_eq_some

theorem exists_of_mem_assignRows {rows stored : List Row}
    (h : assignRows assign schema columns rows = some stored) {s : Row} (hs : s ∈ stored) :
    ∃ row ∈ rows, assignRow assign schema columns row = some s :=
  exists_of_mem_right (assignRows_eq_some.mp h) hs

end Assign

/-- `INSERT INTO … BY NAME SELECT columns`. -/
def Frame.insert (f : Frame) (assign : Assignment) (columns : List String) (rows : List Row) :
    Except Failure Frame :=
  match h : assignRows assign f.schema columns rows with
  | some stored => .ok
    { schema := f.schema
      rows := f.rows ++ stored
      nodup := f.nodup
      blank := by
        intro row hrow c hc
        rcases List.mem_append.mp hrow with hrow | hrow
        · exact f.blank row hrow c hc
        · obtain ⟨source, -, hsource⟩ := exists_of_mem_assignRows h hrow
          exact assignRow_blank hsource hc }
  | none => .error (.other "Conversion Error")

theorem Frame.insert_eq_ok {f g : Frame} {assign : Assignment} {columns : List String}
    {rows : List Row} : f.insert assign columns rows = .ok g ↔
      g.schema = f.schema ∧ ∃ stored, assignRows assign f.schema columns rows = some stored ∧
        g.rows = f.rows ++ stored := by
  unfold Frame.insert
  split
  · rename_i stored hstored
    constructor
    · intro h
      obtain rfl := Except.ok.inj h
      exact ⟨rfl, stored, hstored, rfl⟩
    · rintro ⟨hschema, stored', hstored', hrows⟩
      obtain rfl : stored = stored' := Option.some.inj (hstored.symm.trans hstored')
      obtain ⟨schema, rows, nodup, blank⟩ := g
      obtain rfl : schema = f.schema := hschema
      obtain rfl : rows = f.rows ++ stored := hrows
      rfl
  · rename_i hnone
    simp [hnone]

/-! ### Schema changes -/

/-- `on_schema_change`. -/
inductive OnSchemaChange
  | fail
  | ignore
  | appendNewColumns
  deriving DecidableEq, Repr

/-- `SchemaChangePlan`. -/
structure SchemaChangePlan where
  columnsToLoad : List String
  allowFieldAddition : Bool
  columnsToAdd : List String
  deriving DecidableEq, Repr

/-- A list of names as Python prints it. -/
def printNames (names : List String) : String :=
  "[" ++ ", ".intercalate (names.map fun n => "'" ++ n ++ "'") ++ "]"

/-- The message of a refused schema change. -/
def schemaChangeMessage (table : String) (new removed : List String) : String :=
  let drift := (if new = [] then [] else ["new columns " ++ printNames new]) ++
    if removed = [] then [] else ["removed columns " ++ printNames removed]
  "Schema change on incremental table '" ++ table ++ "': " ++ "; ".intercalate drift ++
    (". Run with --full-refresh to rebuild it, or set " ++
     "`on_schema_change: append_new_columns` (or `ignore`) on the model.")

/-- `plan_schema_change`. -/
def planSchemaChange (existingCols stagingCols : List String) (onSchemaChange : OnSchemaChange)
    (table : String) : Except Failure SchemaChangePlan :=
  let new := stagingCols.filter (· ∉ existingCols)
  let removed := existingCols.filter (· ∉ stagingCols)
  if new = [] ∧ removed = [] then .ok ⟨stagingCols, false, []⟩
  else match onSchemaChange with
    | .fail => .error (.adapterError (schemaChangeMessage table new removed))
    | .appendNewColumns => .ok ⟨stagingCols, new ≠ [], new⟩
    | .ignore => .ok ⟨stagingCols.filter (· ∈ existingCols), false, []⟩

/-- `_reconcile_schema`: the widened target, and the columns to insert. -/
def reconcileSchema (table : String) (target source : Frame) (onSchemaChange : OnSchemaChange) :
    Except Failure (Frame × List String) := do
  let plan ← planSchemaChange target.columns source.columns onSchemaChange table
  return (if plan.columnsToAdd = [] then target else target.widen source, plan.columnsToLoad)

section Reconcile

variable {table : String} {target source widened : Frame} {policy : OnSchemaChange}
  {columns : List String}

theorem columns_widen (f source : Frame) :
    (f.widen source).columns = f.columns ++ source.columns.filter (· ∉ f.columns) := by
  simp only [Frame.columns, Frame.widen, Frame.newColumns, List.map_append, List.filter_map]
  rfl

/-- What reconciling does: nothing if the source has no column that the target lacks, or if the
policy ignores these; otherwise it adds them. The columns of the source that the target then has
are loaded. -/
theorem reconcileSchema_cases
    (h : reconcileSchema table target source policy = .ok (widened, columns)) :
    (widened = target ∧ (source.columns ⊆ target.columns ∨ policy = .ignore) ∨
        widened = target.widen source ∧ policy = .appendNewColumns) ∧
      ∀ c ∈ widened.columns, c ∈ columns ↔ c ∈ source.columns := by
  have hsubset : source.columns.filter (· ∉ target.columns) = [] →
      source.columns ⊆ target.columns := fun hnil c hc => by
    simpa using (List.filter_eq_nil_iff.mp hnil) c hc
  obtain ⟨plan, hplan, hresult⟩ := bind_eq_ok.mp h
  obtain ⟨rfl, rfl⟩ := Prod.mk.inj (Except.ok.inj hresult)
  simp only [planSchemaChange] at hplan
  split at hplan
  · rename_i hsame
    obtain rfl := Except.ok.inj hplan
    exact ⟨.inl ⟨rfl, .inl (hsubset hsame.1)⟩, fun _ _ => Iff.rfl⟩
  cases policy with
  | fail => cases hplan
  | ignore =>
    obtain rfl := Except.ok.inj hplan
    refine ⟨.inl ⟨rfl, .inr rfl⟩, fun c hc => ?_⟩
    have htarget : c ∈ target.columns := hc
    simp [htarget]
  | appendNewColumns =>
    obtain rfl := Except.ok.inj hplan
    refine ⟨?_, fun _ _ => Iff.rfl⟩
    by_cases hnew : source.columns.filter (· ∉ target.columns) = []
    · exact .inl ⟨if_pos hnew, .inl (hsubset hnew)⟩
    · exact .inr ⟨if_neg hnew, rfl⟩

/-- Reconciling leaves the rows of the target alone. -/
theorem reconcileSchema_rows
    (h : reconcileSchema table target source policy = .ok (widened, columns)) :
    widened.rows = target.rows := by
  rcases (reconcileSchema_cases h).1 with ⟨rfl, -⟩ | ⟨rfl, -⟩ <;> rfl

/-- Reconciling keeps the columns of the target. -/
theorem reconcileSchema_schema
    (h : reconcileSchema table target source policy = .ok (widened, columns)) :
    target.schema <+: widened.schema := by
  rcases (reconcileSchema_cases h).1 with ⟨rfl, -⟩ | ⟨rfl, -⟩
  · exact List.prefix_rfl
  · exact List.prefix_append _ _

/-- Unless the policy ignores them, the target has every column of the source afterwards. -/
theorem reconcileSchema_subset (hpolicy : policy ≠ .ignore)
    (h : reconcileSchema table target source policy = .ok (widened, columns)) :
    source.columns ⊆ widened.columns := by
  rcases (reconcileSchema_cases h).1 with ⟨rfl, hsub⟩ | ⟨rfl, -⟩
  · exact hsub.resolve_right hpolicy
  · intro c hc
    rw [columns_widen, List.mem_append]
    by_cases htarget : c ∈ target.columns
    · exact .inl htarget
    · exact .inr (List.mem_filter.mpr ⟨hc, by simpa using htarget⟩)

/-- Reconciling with a source that has no further columns changes nothing. -/
theorem reconcileSchema_eq_self (hsub : policy ≠ .ignore → source.columns ⊆ target.columns)
    (h : reconcileSchema table target source policy = .ok (widened, columns)) :
    widened.schema = target.schema := by
  rcases (reconcileSchema_cases h).1 with ⟨rfl, -⟩ | ⟨rfl, rfl⟩
  · rfl
  · have hnew : target.newColumns source = [] := by
      refine List.filter_eq_nil_iff.mpr fun column hcolumn => ?_
      have hmem : column.1 ∈ target.columns :=
        hsub (by decide) (List.mem_map_of_mem (f := Prod.fst) hcolumn)
      simpa using hmem
    simp [Frame.widen, hnew]

end Reconcile

end Stel.Warehouse
