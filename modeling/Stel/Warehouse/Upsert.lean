import Stel.Warehouse.Statements
import Stel.Warehouse.Target

/-!
# Incremental loads as upserts

`materialize_incremental` of `adapters/duckdb.py`, statement by statement: the incoming frame is put
into the target by its key, and with change detection only where a row has changed. Every statement
can raise. An empty frame is no load at all: nothing is created and no column is added.

## Main definitions

* `materializeIncrementalScript`: the operation.
* `KeyedTable`: a table with distinct keys that are not `NULL`.
* `Upserted`: what a load makes of a table.

## Main results

* `meets_materializeIncremental`: the statements have the effect of `materializeIncremental`, or none.
* `incremental_upserts`: the target when the operation returns, and when it raises.
-/

namespace Stel.Warehouse

/-! ### The operation -/

/-- Where `materialize_incremental` can raise. -/
inductive LoadPoint
  | tableColumns
  | register
  | beginLoad
  | create
  | columns
  | describe
  | alter (column : String)
  | delete
  | insert
  | commit
  | rollback
  deriving DecidableEq, Repr

section Script

variable (assign : Assignment) (table : String) (df : Frame) (keyCol : String)
  (policy : OnSchemaChange) (updateWhenChanged : List String)

/-- The checks of an existing target. -/
def checkExisting (existing : Option Frame) : Except Failure Unit :=
  match existing with
  | none => .ok ()
  | some target =>
    if keyCol ∉ target.columns then
      .error (.adapterError ("Incremental target '" ++ table ++ "' is missing key column '" ++
        keyCol ++ "'"))
    else validateUpdateWhenChanged updateWhenChanged df.columns target.columns table

/-- `CREATE TABLE IF NOT EXISTS … AS SELECT * … LIMIT 0`. -/
def createMissing (tables : Tables) : Except Failure Tables :=
  match tables table with
  | some _ => .ok tables
  | none => Tables.create table df.emptied tables

/-- `DELETE … USING stel_staging`: the rows whose key is incoming, or of these the changed ones. -/
def deleteIncoming (detect : List String) : Tables → Except Failure Tables :=
  Tables.modify table fun target => .ok (target.filterRows fun t =>
    ¬ ∃ s ∈ df.rows, (t keyCol).Equals (s keyCol) ∧ (detect = [] ∨ Changed detect t s))

/-- `INSERT … BY NAME`: all incoming rows, or those without an unchanged row in the target. -/
def insertIncoming (detect columns : List String) (tables : Tables) : Except Failure Tables :=
  Tables.insertInto assign table columns (df.rows.filter fun s => detect = [] ∨
    ¬ ∃ t ∈ ((tables table).map Frame.rows).getD [],
      (t keyCol).Equals (s keyCol) ∧ ¬ Changed detect t s) tables

/-- `materialize_incremental`: the number of incoming rows. -/
def materializeIncrementalScript : Script LoadPoint Tables Failure ℕ :=
  if df.height = 0 then return 0
  else do
    Prog.ofExcept (validateIncrementalKeys df keyCol)
    let tables ← Script.query .tableColumns
    let existing := tables table
    Prog.ofExcept (checkExisting table df keyCol updateWhenChanged existing)
    let _ ← Script.query .register
    Script.transaction .beginLoad .commit .rollback do
      let _ ← Script.statement .create (createMissing table df)
      let columns ← reconcile ⟨.columns, .describe, .alter⟩ table df policy
      -- change detection only helps against an existing target
      let detect := if existing.isSome then updateWhenChanged else []
      let _ ← Script.statement .delete (deleteIncoming table df keyCol detect)
      let _ ← Script.statement .insert (insertIncoming assign table df keyCol detect columns)
      return ⟨⟩
    return df.height

end Script

section Runs

variable {assign : Assignment} {table : String} {df : Frame} {keyCol : String}
  {policy : OnSchemaChange} {updateWhenChanged : List String} {before : Tables}
  {fault : LoadPoint → Option Failure}

/-! ### The statements together -/

/-- The steps of `materializeIncremental`, one after another. -/
theorem materializeIncremental_intro {existing : Option Frame} {widened target : Frame}
    {columns : List String} (hrows : df.height ≠ 0)
    (hkeys : validateIncrementalKeys df keyCol = .ok ())
    (hexisting : checkExisting table df keyCol updateWhenChanged existing = .ok ())
    (hreconcile : reconcileSchema table (existing.getD df.emptied) df policy = .ok (widened, columns))
    (hinsert : let detect := if existing.isSome then updateWhenChanged else []
      let kept := widened.filterRows fun t => ¬ ∃ s ∈ df.rows, (t keyCol).Equals (s keyCol) ∧
        (detect = [] ∨ Changed detect t s)
      kept.insert assign columns (df.rows.filter fun s => detect = [] ∨
        ¬ ∃ t ∈ kept.rows, (t keyCol).Equals (s keyCol) ∧ ¬ Changed detect t s) = .ok target) :
    materializeIncremental assign table df keyCol policy updateWhenChanged existing =
      .ok (some target) := by
  unfold materializeIncremental
  rw [if_neg hrows]
  refine bind_eq_ok.mpr ⟨(), hkeys, ?_⟩
  cases existing with
  | none =>
    exact bind_eq_ok.mpr ⟨(), rfl, bind_eq_ok.mpr ⟨(widened, columns), hreconcile,
      bind_eq_ok.mpr ⟨target, hinsert, rfl⟩⟩⟩
  | some before =>
    simp only [checkExisting] at hexisting
    simp only
    split at hexisting
    · cases hexisting
    · rename_i hin
      rw [if_neg hin]
      exact bind_eq_ok.mpr ⟨(), hexisting, bind_eq_ok.mpr ⟨(widened, columns), hreconcile,
        bind_eq_ok.mpr ⟨target, hinsert, rfl⟩⟩⟩

/-- The body of the transaction does what `materializeIncremental` does with the table. -/
theorem meets_load (hkeys : validateIncrementalKeys df keyCol = .ok ()) (hrows : df.height ≠ 0)
    (hexisting : checkExisting table df keyCol updateWhenChanged (before table) = .ok ()) :
    (do
      let _ ← Script.statement .create (createMissing table df)
      let columns ← reconcile ⟨.columns, .describe, .alter⟩ table df policy
      let detect := if (before table).isSome then updateWhenChanged else []
      let _ ← Script.statement .delete (deleteIncoming table df keyCol detect)
      let _ ← Script.statement .insert (insertIncoming assign table df keyCol detect columns)
      return ⟨⟩ : Script LoadPoint Tables Failure PUnit).Meets (Session.interp fault)
      (fun _ t => ∃ result, materializeIncremental assign table df keyCol policy updateWhenChanged
        (before table) = .ok result ∧ t.store = Function.update before table result)
      (fun _ _ => True) ⟨before, some before⟩ := by
  refine Prog.Meets.bind (Script.meets_statement (Q := fun _ (t : Session Tables) =>
    t.store = Function.update before table (some ((before table).getD df.emptied))) ?_
    fun _ _ => trivial) ?_
  · intro after _ hrun
    show after = _
    unfold createMissing at hrun
    cases hold : before table with
    | some target =>
      simp only [hold] at hrun
      rw [← Except.ok.inj hrun, Option.getD_some, ← hold, Function.update_eq_self]
    | none =>
      simp only [hold] at hrun
      unfold Tables.create at hrun
      split at hrun
      · cases hrun
      · exact (Except.ok.inj hrun).symm
  · rintro - t ht
    have hf : t.store table = some ((before table).getD df.emptied) := by
      rw [ht, Function.update_self]
    refine ((meets_reconcile hf).mono (fun _ _ h => h) fun _ _ _ => trivial).bind ?_
    rintro columns u ⟨widened, hreconciled⟩
    have hu : u.store = Function.update before table (some widened) := by
      rw [hreconciled.store, ht, Function.update_idem]
    simp only
    generalize hdetect : (if (before table).isSome then updateWhenChanged else []) = detect
    refine Prog.Meets.bind (Script.meets_statement (Q := fun _ (t : Session Tables) =>
      t.store = Function.update before table (some (widened.filterRows fun t =>
        ¬ ∃ s ∈ df.rows, (t keyCol).Equals (s keyCol) ∧ (detect = [] ∨ Changed detect t s)))) ?_
      fun _ _ => trivial) ?_
    · intro after _ hrun
      obtain ⟨f, g, hf, hg, rfl⟩ := Tables.modify_eq_ok hrun
      rw [hu, Function.update_self] at hf
      obtain rfl := Option.some.inj hf
      rw [← Except.ok.inj hg]
      show Function.update u.store table _ = _
      rw [hu, Function.update_idem]
    · rintro - v hv
      refine Prog.Meets.bind (Script.meets_statement (Q := fun _ (t : Session Tables) =>
        ∃ result, materializeIncremental assign table df keyCol policy updateWhenChanged
          (before table) = .ok result ∧ t.store = Function.update before table result) ?_
        fun _ _ => trivial) fun _ _ h => Prog.meets_pure h
      intro after _ hrun
      obtain ⟨f, g, hf, hg, rfl⟩ := Tables.modify_eq_ok hrun
      have hrowsNow : ((v.store table).map Frame.rows).getD [] = f.rows := by rw [hf]; rfl
      rw [hrowsNow] at hg
      rw [hv, Function.update_self] at hf
      obtain rfl := Option.some.inj hf
      refine ⟨some g, ?_, ?_⟩
      · split at hg
        · cases hg
        · refine materializeIncremental_intro hrows hkeys hexisting hreconciled.reconciles ?_
          rw [hdetect]
          exact hg
      · show Function.update v.store table _ = _
        rw [hv, Function.update_idem]

/-- The operation has the effect of `materializeIncremental`, or none. -/
theorem meets_materializeIncremental :
    (materializeIncrementalScript assign table df keyCol policy updateWhenChanged).Meets
      (Session.interp fault)
      (fun count (t : Session Tables) => count = df.height ∧ t.saved = none ∧ ∃ result,
        materializeIncremental assign table df keyCol policy updateWhenChanged (before table) =
          .ok result ∧ t.store = Function.update before table result)
      (fun _ t => t = ⟨before, none⟩) ⟨before, none⟩ := by
  unfold materializeIncrementalScript
  by_cases hrows : df.height = 0
  · rw [if_pos hrows]
    refine Prog.meets_pure ⟨hrows.symm, rfl, before table, ?_, (Function.update_eq_self _ _).symm⟩
    unfold materializeIncremental
    rw [if_pos hrows]
  · rw [if_neg hrows]
    cases hkeys : validateIncrementalKeys df keyCol with
    | error e => exact Prog.meets_throw rfl
    | ok u =>
      refine Prog.Meets.bind (Q := fun tables t => tables = before ∧ t = ⟨before, none⟩)
        (Script.meets_query (fun _ => ⟨rfl, rfl⟩) fun _ _ => rfl) ?_
      rintro tables t ⟨htables, rfl⟩
      obtain rfl := htables.symm
      simp only
      cases hexisting : checkExisting table df keyCol updateWhenChanged (before table) with
      | error e =>
        exact Prog.meets_throw rfl
      | ok u =>
        rw [Prog.ofExcept_ok, Prog.pure_bind]
        refine Prog.Meets.bind (Q := fun _ t => t = ⟨before, none⟩)
          (Script.meets_query (fun _ => rfl) fun _ _ => rfl) ?_
        rintro - _ rfl
        refine Prog.Meets.bind ((Script.meets_transaction (Q := fun _ store => ∃ result,
          materializeIncremental assign table df keyCol policy updateWhenChanged (before table) =
            .ok result ∧ store = Function.update before table result) (E := fun _ => True) rfl ?_ fun _ =>
          meets_load hkeys hrows hexisting).mono (fun _ _ h => h) fun _ _ h => h.1) ?_
        · exact (calls_statement _ _).bind fun _ => calls_reconcile.bind fun _ =>
            (calls_statement _ _).bind fun _ => (calls_statement _ _).bind fun _ => trivial
        · rintro - t ⟨hsaved, hload, -, -⟩
          exact Prog.meets_pure ⟨rfl, hsaved, hload⟩

/-! ### What a load makes of a table -/

/-- The keys of a table are distinct, and none is `NULL`. -/
structure KeyedTable (keyCol : String) (rows : List Row) : Prop where
  keyed : ∀ row ∈ rows, (row keyCol).text ≠ none
  distinct : (rows.map fun row => (row keyCol).text).Nodup

/-- The cells of a column of one type: those with one text are the same. -/
def OneType (f : Frame) (c : String) : Prop :=
  ∀ row ∈ f.rows, ∀ row' ∈ f.rows, (row c).text = (row' c).text → row c = row' c

/-- The key column stores the incoming keys as they are. -/
def StoresKeys (assign : Assignment) (keyCol : String) (df target : Frame) : Prop :=
  ∀ row ∈ df.rows, ∀ type cell, target.schema.lookup keyCol = some type →
    assign type (row keyCol) = some cell → cell.text = (row keyCol).text

/-- The row of a key, if there is one. -/
theorem KeyedTable.rowsAt_eq {rows : List Row} (h : KeyedTable keyCol rows) {row : Row} {key : String}
    (hrow : row ∈ rows) (hkey : (row keyCol).text = some key) : rowsAt keyCol rows key = [row] := by
  obtain ⟨l, r, rfl⟩ := List.append_of_mem hrow
  have hdistinct := h.distinct
  rw [List.map_append, List.map_cons, List.nodup_append, List.nodup_cons] at hdistinct
  obtain ⟨-, ⟨hright, -⟩, hleft⟩ := hdistinct
  rw [rowsAt_append]
  have hl : rowsAt keyCol l key = [] := rowsAt_eq_nil fun other hother htext =>
    hleft _ (List.mem_map_of_mem hother) _ List.mem_cons_self (htext.trans hkey.symm)
  have hr : rowsAt keyCol r key = [] := rowsAt_eq_nil fun other hother htext =>
    hright (hkey.trans htext.symm ▸ List.mem_map_of_mem hother)
  have hone : rowsAt keyCol (row :: r) key = row :: rowsAt keyCol r key := by
    simp [rowsAt, hkey]
  rw [hl, hone, hr]
  rfl

/-- A table has distinct keys if no key has two rows. -/
theorem keyedTable_iff {rows : List Row} : KeyedTable keyCol rows ↔
    (∀ row ∈ rows, (row keyCol).text ≠ none) ∧ ∀ key, (rowsAt keyCol rows key).length ≤ 1 := by
  constructor
  · intro h
    refine ⟨h.keyed, fun key => ?_⟩
    by_cases hnone : rowsAt keyCol rows key = []
    · rw [hnone]
      exact Nat.zero_le _
    · obtain ⟨row, hrow⟩ := List.exists_mem_of_ne_nil _ hnone
      obtain ⟨hmem, hkey⟩ := mem_rowsAt.mp hrow
      rw [h.rowsAt_eq hmem hkey, List.length_singleton]
  · rintro ⟨hkeyed, hone⟩
    refine ⟨hkeyed, ?_⟩
    rw [List.nodup_iff_count_le_one]
    intro text
    cases text with
    | none =>
      rw [List.count_eq_zero_of_not_mem]
      · exact Nat.zero_le 1
      · intro hmem
        obtain ⟨row, hrow, hnone⟩ := List.mem_map.mp hmem
        exact hkeyed row hrow hnone
    | some key =>
      refine le_trans (le_of_eq ?_) (hone key)
      rw [List.count, List.countP_map, List.countP_eq_length_filter, rowsAt]
      congr 1
      refine List.filter_congr fun row _ => ?_
      rw [Bool.eq_iff_iff]
      simp

/-- What an incremental load makes of a table: of every key it keeps the row that is not incoming or
has not changed, and has the incoming row otherwise. -/
structure Upserted (assign : Assignment) (table keyCol : String) (df : Frame)
    (policy : OnSchemaChange) (updateWhenChanged : List String) (existing : Option Frame)
    (target : Frame) : Prop where
  columns : ∃ plan, planSchemaChange (existing.getD df.emptied).columns df.columns policy table =
    .ok plan ∧ target.columns = (existing.getD df.emptied).columns ++ plan.columnsToAdd ∧
      ∀ c ∈ target.columns, c ∈ plan.columnsToLoad ↔ c ∈ df.columns
  keyed : KeyedTable keyCol target.rows
  others : ∀ key, (∀ s ∈ df.rows, (s keyCol).text ≠ some key) →
    rowsAt keyCol target.rows key = rowsAt keyCol (rowsOf existing) key
  unchanged : updateWhenChanged ≠ [] → ∀ s ∈ df.rows, ∀ t ∈ rowsOf existing,
    ∀ key, (s keyCol).text = some key → (t keyCol).text = some key →
      ¬ Changed updateWhenChanged t s → rowsAt keyCol target.rows key = [t]
  replaced : ∀ s ∈ df.rows, ∀ key, (s keyCol).text = some key →
    (updateWhenChanged = [] ∨ ∀ t ∈ rowsOf existing, (t keyCol).text = some key →
      Changed updateWhenChanged t s) →
    ∃ stored, rowsAt keyCol target.rows key = [stored] ∧
      StoredRow assign target.schema df s stored

/-! ### The rows of one key -/

section Rows

variable {detect : List String} {incoming old : List Row} {s t : Row} {key : String}

/-- The rows that `DELETE` leaves. -/
def keptRows (keyCol : String) (detect : List String) (incoming old : List Row) : List Row :=
  old.filter fun t => ¬ ∃ s ∈ incoming, (t keyCol).Equals (s keyCol) ∧
    (detect = [] ∨ Changed detect t s)

/-- The rows that `INSERT` stores. -/
def insertedRows (keyCol : String) (detect : List String) (incoming kept : List Row) : List Row :=
  incoming.filter fun s => detect = [] ∨
    ¬ ∃ t ∈ kept, (t keyCol).Equals (s keyCol) ∧ ¬ Changed detect t s

/-- The rows that a key matches. -/
theorem equals_iff (hkey : (s keyCol).text = some key) :
    (t keyCol).Equals (s keyCol) ↔ (t keyCol).text = some key := by
  simp [Cell.Equals, hkey]

theorem KeyedTable.eq_of_text {rows : List Row} (h : KeyedTable keyCol rows) {row row' : Row}
    (hrow : row ∈ rows) (hrow' : row' ∈ rows) (hkey : (row keyCol).text = some key)
    (hkey' : (row' keyCol).text = some key) : row = row' := by
  have hmem := mem_rowsAt.mpr ⟨hrow', hkey'⟩
  rw [h.rowsAt_eq hrow hkey] at hmem
  exact (List.mem_singleton.mp hmem).symm

theorem rowsAt_kept_others (h : ∀ s ∈ incoming, (s keyCol).text ≠ some key) :
    rowsAt keyCol (keptRows keyCol detect incoming old) key = rowsAt keyCol old key := by
  refine rowsAt_filter_eq fun t ht => decide_eq_true ?_
  rintro ⟨s, hs, ⟨text, htext, hequal⟩, -⟩
  rw [(mem_rowsAt.mp ht).2] at htext
  obtain rfl := Option.some.inj htext
  exact h s hs hequal

theorem rowsAt_kept_unchanged (hincoming : KeyedTable keyCol incoming) (hold : KeyedTable keyCol old)
    (hdetect : detect ≠ []) (hs : s ∈ incoming) (hkey : (s keyCol).text = some key) (ht : t ∈ old)
    (htext : (t keyCol).text = some key) (hsame : ¬ Changed detect t s) :
    rowsAt keyCol (keptRows keyCol detect incoming old) key = [t] := by
  rw [← hold.rowsAt_eq ht htext]
  refine rowsAt_filter_eq fun row hrow => decide_eq_true ?_
  rintro ⟨s', hs', hequal, hchange⟩
  obtain ⟨hrow, hrowKey⟩ := mem_rowsAt.mp hrow
  obtain rfl := hold.eq_of_text ht hrow htext hrowKey
  obtain ⟨text, htext', hequal⟩ := hequal
  rw [htext] at htext'
  obtain rfl := Option.some.inj htext'
  obtain rfl := hincoming.eq_of_text hs hs' hkey hequal
  exact hchange.elim hdetect hsame

theorem rowsAt_kept_replaced (hs : s ∈ incoming) (hkey : (s keyCol).text = some key)
    (h : detect = [] ∨ ∀ t ∈ old, (t keyCol).text = some key → Changed detect t s) :
    rowsAt keyCol (keptRows keyCol detect incoming old) key = [] := by
  refine rowsAt_filter_eq_nil fun t ht => decide_eq_false (not_not.mpr ⟨s, hs, ?_, ?_⟩)
  · exact (equals_iff hkey).mpr (mem_rowsAt.mp ht).2
  · exact h.imp_right fun h => h t (mem_rowsAt.mp ht).1 (mem_rowsAt.mp ht).2

theorem rowsAt_inserted_others {kept : List Row} (h : ∀ s ∈ incoming, (s keyCol).text ≠ some key) :
    rowsAt keyCol (insertedRows keyCol detect incoming kept) key = [] :=
  rowsAt_eq_nil fun row hrow => h row (List.mem_of_mem_filter hrow)

theorem rowsAt_inserted_unchanged {kept : List Row} (hincoming : KeyedTable keyCol incoming)
    (hdetect : detect ≠ []) (hs : s ∈ incoming) (hkey : (s keyCol).text = some key) (ht : t ∈ kept)
    (htext : (t keyCol).text = some key) (hsame : ¬ Changed detect t s) :
    rowsAt keyCol (insertedRows keyCol detect incoming kept) key = [] := by
  refine rowsAt_filter_eq_nil fun row hrow => decide_eq_false ?_
  obtain ⟨hrow, hrowKey⟩ := mem_rowsAt.mp hrow
  obtain rfl := hincoming.eq_of_text hs hrow hkey hrowKey
  exact fun h => h.elim hdetect fun hnone => hnone ⟨t, ht, (equals_iff hkey).mpr htext, hsame⟩

theorem rowsAt_inserted_replaced {kept : List Row} (hincoming : KeyedTable keyCol incoming)
    (hs : s ∈ incoming) (hkey : (s keyCol).text = some key) (hkept : rowsAt keyCol kept key = []) :
    rowsAt keyCol (insertedRows keyCol detect incoming kept) key = [s] := by
  rw [← hincoming.rowsAt_eq hs hkey]
  refine rowsAt_filter_eq fun row hrow => decide_eq_true (.inr ?_)
  rintro ⟨t, ht, hequal, -⟩
  have hmem := mem_rowsAt.mpr ⟨ht, (equals_iff (mem_rowsAt.mp hrow).2).mp hequal⟩
  rw [hkept] at hmem
  cases hmem

end Rows

section Pure

variable {existing result : Option Frame}

/-- An incremental load of rows is an upsert. -/
theorem upserted_of_materializeIncremental {target : Frame} (hrows : df.rows ≠ [])
    (hkeyed : KeyedTable keyCol (rowsOf existing)) (htype : OneType df keyCol)
    (hkeys : StoresKeys assign keyCol df (existing.getD df.emptied))
    (h : materializeIncremental assign table df keyCol policy updateWhenChanged existing =
      .ok (some target)) :
    Upserted assign table keyCol df policy (if existing.isSome then updateWhenChanged else []) existing
      target := by
  obtain ⟨hvalid, hkeyCol, widened, columns, target', hreconcile, hinsert, heq⟩ :=
    materializeIncremental_inv hrows h
  obtain rfl := Option.some.inj heq
  obtain ⟨hin, hnull, hnodup⟩ := validateIncrementalKeys_eq_ok hvalid
  generalize (if existing.isSome then updateWhenChanged else []) = detect at hinsert ⊢
  obtain ⟨hschema, stored, hstored, htarget⟩ := Frame.insert_eq_ok.mp hinsert
  replace hschema : target.schema = widened.schema := hschema
  have hload := (reconcileSchema_cases hreconcile).2
  have hwidened : widened.rows = rowsOf existing := by
    rw [reconcileSchema_rows hreconcile]
    cases existing <;> rfl
  rw [Frame.rows_filterRows, hwidened] at htarget hstored
  change target.rows = keptRows keyCol detect df.rows (rowsOf existing) ++ stored at htarget
  change assignRows assign widened.schema columns (insertedRows keyCol detect df.rows
    (keptRows keyCol detect df.rows (rowsOf existing))) = some stored at hstored
  have hincoming : KeyedTable keyCol df.rows := by
    refine ⟨fun row hrow hnone => hnull row hrow ?_, ?_⟩
    · cases hcell : row keyCol <;> simp_all [Cell.text]
    · refine (List.nodup_map_iff_inj_on ?_).mpr ?_
      · exact hnodup.of_map _
      · exact fun row hrow row' hrow' htext =>
          List.inj_on_of_nodup_map hnodup hrow hrow' (htype row hrow row' hrow' htext)
  -- a stored row has the key of the row it is stored for
  have hrelated : List.Forall₂ (fun row s => (row keyCol).text = (s keyCol).text ∧
      StoredRow assign target.schema df row s)
      (insertedRows keyCol detect df.rows (keptRows keyCol detect df.rows (rowsOf existing))) stored := by
    have hmember : ∀ row ∈ insertedRows keyCol detect df.rows
        (keptRows keyCol detect df.rows (rowsOf existing)), row ∈ df.rows :=
      fun row hrow => List.mem_of_mem_filter hrow
    refine ((List.forall₂_and_left _ _).mpr ⟨hmember, assignRows_eq_some.mp hstored⟩).imp
      fun row s h => ⟨?_, hschema ▸ storedRow_of_assignRow hload h.2⟩
    have hrow := h.1
    have hs := h.2
    obtain ⟨type, hlookup⟩ := exists_lookup_of_mem hkeyCol
    obtain ⟨more, hmore⟩ := reconcileSchema_schema hreconcile
    have hwide : widened.schema.lookup keyCol = some type := by
      rw [← hmore, List.lookup_append, hlookup, Option.some_or]
    have hcolumn : keyCol ∈ columns := (hload keyCol (by
      rw [Frame.columns, ← hmore, List.map_append]
      exact List.mem_append_left _ hkeyCol)).mpr hin
    exact (hkeys row hrow type _ hlookup (assignRow_apply hs hwide hcolumn)).symm
  have hstoredAt : ∀ key, List.Forall₂ (fun row s => (row keyCol).text = (s keyCol).text ∧
      StoredRow assign target.schema df row s)
      (rowsAt keyCol (insertedRows keyCol detect df.rows
        (keptRows keyCol detect df.rows (rowsOf existing))) key) (rowsAt keyCol stored key) := fun key =>
    List.rel_filter (fun row s h => by simp [h.1]) hrelated
  have hsplit : ∀ key, rowsAt keyCol target.rows key =
      rowsAt keyCol (keptRows keyCol detect df.rows (rowsOf existing)) key ++
        rowsAt keyCol stored key := fun key => by rw [htarget, rowsAt_append]
  have hothers : ∀ key, (∀ s ∈ df.rows, (s keyCol).text ≠ some key) →
      rowsAt keyCol target.rows key = rowsAt keyCol (rowsOf existing) key := by
    intro key hnone
    have hstored := hstoredAt key
    rw [rowsAt_inserted_others hnone, List.forall₂_nil_left_iff] at hstored
    rw [hsplit, rowsAt_kept_others hnone, hstored, List.append_nil]
  have hunchanged : detect ≠ [] → ∀ s ∈ df.rows, ∀ t ∈ rowsOf existing, ∀ key,
      (s keyCol).text = some key → (t keyCol).text = some key → ¬ Changed detect t s →
        rowsAt keyCol target.rows key = [t] := by
    intro hdetect s hs t ht key hkey htext hsame
    have hkept := rowsAt_kept_unchanged hincoming hkeyed hdetect hs hkey ht htext hsame
    have hmem : t ∈ keptRows keyCol detect df.rows (rowsOf existing) :=
      (mem_rowsAt.mp (hkept ▸ List.mem_singleton_self t)).1
    have hstored := hstoredAt key
    rw [rowsAt_inserted_unchanged hincoming hdetect hs hkey hmem htext hsame,
      List.forall₂_nil_left_iff] at hstored
    rw [hsplit, hkept, hstored, List.append_nil]
  have hreplaced : ∀ s ∈ df.rows, ∀ key, (s keyCol).text = some key → (detect = [] ∨
      ∀ t ∈ rowsOf existing, (t keyCol).text = some key → Changed detect t s) →
      ∃ stored, rowsAt keyCol target.rows key = [stored] ∧
        StoredRow assign target.schema df s stored := by
    intro s hs key hkey hchange
    have hkept := rowsAt_kept_replaced hs hkey hchange
    have hstored := hstoredAt key
    rw [rowsAt_inserted_replaced hincoming hs hkey hkept, List.forall₂_cons_left_iff] at hstored
    obtain ⟨row, rest, hrow, hrest, hstored⟩ := hstored
    rw [List.forall₂_nil_left_iff] at hrest
    refine ⟨row, ?_, hrow.2⟩
    rw [hsplit, hkept, hstored, hrest, List.nil_append]
  refine ⟨?_, keyedTable_iff.mpr ⟨?_, ?_⟩, hothers, hunchanged, hreplaced⟩
  · obtain ⟨plan, hplan, hresult⟩ := bind_eq_ok.mp hreconcile
    obtain ⟨hwide, rfl⟩ := Prod.mk.inj (Except.ok.inj hresult)
    have hcolumns : target.columns = widened.columns := congrArg (List.map Prod.fst) hschema
    refine ⟨plan, hplan, ?_, fun c hc => hload c (hcolumns ▸ hc)⟩
    rw [Frame.columns, hschema, ← hwide]
    split
    · rename_i hnone
      rw [hnone, List.append_nil]
      rfl
    · rename_i hsome
      have hadditions := (additions_eq hplan).1.resolve_left hsome
      have hadded := congrArg (List.map Prod.fst) hadditions
      rw [SchemaChangePlan.additions, List.map_map] at hadded
      show ((existing.getD df.emptied).schema ++ _).map Prod.fst = _
      rw [List.map_append, ← hadded]
      simp [Function.comp_def, Frame.columns]
  · intro row hrow
    rw [htarget] at hrow
    rcases List.mem_append.mp hrow with hrow | hrow
    · exact hkeyed.keyed row (List.mem_of_mem_filter hrow)
    · obtain ⟨s, hs, htext, -⟩ := exists_of_mem_right hrelated hrow
      rw [← htext]
      exact hincoming.keyed s (List.mem_of_mem_filter hs)
  · intro key
    by_cases hkey : ∃ s ∈ df.rows, (s keyCol).text = some key
    · obtain ⟨s, hs, hkey⟩ := hkey
      by_cases hchange : detect = [] ∨ ∀ t ∈ rowsOf existing, (t keyCol).text = some key →
          Changed detect t s
      · obtain ⟨row, hrow, -⟩ := hreplaced s hs key hkey hchange
        rw [hrow, List.length_singleton]
      · rw [not_or] at hchange
        obtain ⟨hdetect, hsome⟩ := hchange
        push Not at hsome
        obtain ⟨t, ht, htext, hsame⟩ := hsome
        rw [hunchanged hdetect s hs t ht key hkey htext hsame, List.length_singleton]
    · push Not at hkey
      rw [hothers key hkey]
      exact (keyedTable_iff.mp hkeyed).2 key

end Pure

end Runs

/-! ### Loads that are no upserts -/

/-- A frame of texts. -/
def textFrame (names : List String) (type : String) (cells : List (List String))
    (hnodup : names.Nodup) : Frame where
  schema := names.map fun name => (name, type)
  rows := cells.map fun row name => (((names.zip row).lookup name).map Cell.string).getD .null
  nodup := by simpa [Function.comp_def] using hnodup
  blank := by
    intro row hrow name hname
    obtain ⟨cells, -, rfl⟩ := List.mem_map.mp hrow
    have hout : name ∉ (names.zip cells).map Prod.fst := fun hmem => by
      obtain ⟨pair, hpair, rfl⟩ := List.mem_map.mp hmem
      exact hname (by simpa [Function.comp_def] using (List.of_mem_zip hpair).1)
    simp only [lookup_eq_none_of_notMem hout]
    rfl

/-- Casts of texts: an integer column stores the number that a text denotes. -/
def castTexts : Assignment := fun type cell =>
  if type = "BIGINT" then some (if cell = .string "01" then .other "1" else
    (cell.text.map Cell.other).getD .null)
  else some cell

/-- A load into a table, with its result and the table after it. -/
def loadInto (target df : Frame) : Session Tables × Except Failure ℕ :=
  (materializeIncrementalScript castTexts "notes" df "id" .appendNewColumns []).exec
    (Session.interp fun _ => none)
    ⟨Function.update (fun _ => none) "notes" (some target), none⟩

end Stel.Warehouse
