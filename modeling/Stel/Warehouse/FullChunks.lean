import Stel.Warehouse.Statements
import Stel.Warehouse.Target

/-!
# Full replacement in chunks

`materialize_full_chunks` of `adapters/duckdb.py`: the frames of an iterable are loaded into a staging
table one after another, and the staging table then takes the place of the target in one transaction.
Every statement can raise, and so can the iterable between two frames.

## Main definitions

* `materializeFullChunksScript`: the operation, statement by statement.
* `UnionOf`: the table that holds the rows of all frames.

## Main results

* `fullChunks_atomic`: what the target holds when the operation returns, and when it raises.
-/

namespace Stel.Warehouse

/-! ### The operation -/

/-- Where `materialize_full_chunks` can raise: the iterable, before the frame of an index or at its
end, the statements about a frame, and the statements that swap the tables. -/
inductive ChunkPoint
  | next (index : ℕ)
  | register (index : ℕ)
  | create
  | columns (index : ℕ)
  | describe (index : ℕ)
  | alter (index : ℕ) (column : String)
  | insert (index : ℕ)
  | unregister (index : ℕ)
  | dropEmpty
  | beginSwap
  | drop
  | rename
  | commit
  | rollback
  | cleanup
  deriving DecidableEq, Repr

/-- `staging_table_name`, for the hexadecimal digits of a new UUID. -/
def stagingTableName (label unique : String) : String := "stel_staging__" ++ label ++ "__" ++ unique

theorem stagingTableName_ne (label unique : String) : stagingTableName label unique ≠ label := by
  intro h
  have hlength := congrArg (fun s : String => s.toList.length) h
  simp only [stagingTableName, String.toList_append, List.length_append] at hlength
  have hpos : 0 < "stel_staging__".toList.length := by decide
  omega

section Script

variable (assign : Assignment) (table unique : String)

/-- The statements about one frame, between its registration and the end of it. -/
def stageChunk (index : ℕ) (first : Bool) (df : Frame) :
    Script ChunkPoint Tables Failure PUnit :=
  let staging := stagingTableName table unique
  if first then do
    let _ ← Script.statement .create (Tables.create staging df)
    return ⟨⟩
  else do
    let columns ← reconcile ⟨.columns index, .describe index, .alter index⟩ staging df .appendNewColumns
    let _ ← Script.statement (.insert index) (Tables.insertInto assign staging columns df.rows)
    return ⟨⟩

/-- The loop over the frames, which returns `first` and `total`. -/
def stageAll (index : ℕ) (first : Bool) (total : ℕ) :
    List Frame → Script ChunkPoint Tables Failure (Bool × ℕ)
  | [] => do
    let _ ← Script.query (.next index)
    return (first, total)
  | df :: chunks => do
    let _ ← Script.query (.next index)
    let _ ← Script.query (.register index)
    (stageChunk assign table unique index first df).andFinally do
      let _ ← Script.query (.unregister index)
      return ⟨⟩
    stageAll (index + 1) false (total + df.height) chunks

/-- The swap of the tables. -/
def swapTables : Script ChunkPoint Tables Failure PUnit :=
  Script.transaction .beginSwap .commit .rollback do
    let _ ← Script.statement .drop (Tables.drop table)
    let _ ← Script.statement .rename (Tables.rename (stagingTableName table unique) table)
    return ⟨⟩

/-- `materialize_full_chunks`: the number of rows. -/
def materializeFullChunksScript (chunks : List Frame) : Script ChunkPoint Tables Failure ℕ :=
  Prog.tryCatch (do
      let (first, total) ← stageAll assign table unique 0 true 0 chunks
      if first then do
        let _ ← Script.statement .dropEmpty (Tables.drop table)
        return 0
      else do
        swapTables table unique
        return total)
    fun e => do
      -- an exception of the cleanup is noted on the first one
      Prog.tryCatch (do
          let _ ← Script.statement .cleanup (Tables.drop (stagingTableName table unique))
          return ⟨⟩)
        fun _ => return ⟨⟩
      .throw e

end Script

/-! ### The union of the frames -/

/-- The rows of frames, each with its frame. -/
def rowsWithFrame (chunks : List Frame) : List (Frame × Row) :=
  chunks.flatMap fun df => df.rows.map fun row => (df, row)

/-- The table holds the rows of all frames, over the union of their columns. A column has the type of
the first frame that has it; the rows of the first frame are as they are. -/
structure UnionOf (assign : Assignment) (chunks : List Frame) (result : Frame) : Prop where
  columns : ∀ c, c ∈ result.columns ↔ ∃ df ∈ chunks, c ∈ df.columns
  types : ∀ c, result.schema.lookup c = chunks.findSome? fun df => df.schema.lookup c
  rows : ∃ first rest stored, chunks = first :: rest ∧ result.rows = first.rows ++ stored ∧
    List.Forall₂ (fun p s => StoredRow assign result.schema p.1 p.2 s) (rowsWithFrame rest) stored

/-- The union of the frames has as many rows as they have together. -/
theorem UnionOf.length_rows {assign : Assignment} {chunks : List Frame} {result : Frame}
    (h : UnionOf assign chunks result) : result.rows.length = (chunks.map Frame.height).sum := by
  obtain ⟨first, rest, stored, rfl, hrows, hstored⟩ := h.rows
  have hrest : (rowsWithFrame rest).length = (rest.map Frame.height).sum := by
    rw [rowsWithFrame, List.length_flatMap]
    simp only [List.length_map]
    rfl
  rw [hrows, List.length_append, ← hstored.length_eq, hrest]
  rfl

/-- The table that is created from the first frame. -/
theorem UnionOf.single (assign : Assignment) (df : Frame) : UnionOf assign [df] df where
  columns c := by simp
  types c := by simp
  rows := ⟨df, [], [], rfl, (List.append_nil _).symm, .nil⟩

/-- A column of the target keeps its type, and another one has that of the source. -/
theorem lookup_reconciled {name : String} {staging df widened : Frame} {columns : List String}
    (h : reconcileSchema name staging df .appendNewColumns = .ok (widened, columns)) (c : String) :
    widened.schema.lookup c = (staging.schema.lookup c).or (df.schema.lookup c) := by
  have hout : ∀ f : Frame, c ∉ f.columns → f.schema.lookup c = none := fun f hc =>
    lookup_eq_none_of_notMem hc
  rcases (reconcileSchema_cases h).1 with ⟨hsame, hsub⟩ | ⟨rfl, -⟩
  · rw [hsame]
    by_cases hc : c ∈ staging.columns
    · obtain ⟨type, htype⟩ := exists_lookup_of_mem hc
      rw [htype, Option.some_or]
    · rw [hout staging hc, hout df fun hmem => hc (hsub.resolve_right (by simp) hmem), Option.none_or]
  · show (staging.schema ++ staging.newColumns df).lookup c = _
    rw [List.lookup_append]
    by_cases hc : c ∈ staging.columns
    · obtain ⟨type, htype⟩ := exists_lookup_of_mem hc
      rw [htype, Option.some_or, Option.some_or]
    · rw [hout staging hc, Option.none_or, Option.none_or]
      have hnodup : ((staging.newColumns df).map Prod.fst).Nodup :=
        df.nodup.sublist (List.filter_sublist.map _)
      ext type
      rw [← mem_iff_lookup hnodup, ← mem_iff_lookup df.nodup, Frame.newColumns, List.mem_filter]
      simp [hc]

/-- One more frame. -/
theorem UnionOf.snoc {assign : Assignment} {name : String} {chunks : List Frame}
    {staging df widened result : Frame} {columns : List String} (h : UnionOf assign chunks staging)
    (hreconcile : reconcileSchema name staging df .appendNewColumns = .ok (widened, columns))
    (hinsert : widened.insert assign columns df.rows = .ok result) :
    UnionOf assign (chunks ++ [df]) result := by
  obtain ⟨hschema, added, hadded, hrows⟩ := Frame.insert_eq_ok.mp hinsert
  have hlookup : ∀ c, result.schema.lookup c =
      (staging.schema.lookup c).or (df.schema.lookup c) := fun c => by
    rw [hschema, lookup_reconciled hreconcile]
  have hload := (reconcileSchema_cases hreconcile).2
  have hcolumns : ∀ c, c ∈ result.columns ↔ c ∈ staging.columns ∨ c ∈ df.columns := by
    intro c
    have hprefix := reconcileSchema_schema hreconcile
    have hsub := reconcileSchema_subset (by decide) hreconcile
    rw [Frame.columns, hschema]
    constructor
    · intro hc
      obtain ⟨type, htype⟩ := exists_lookup_of_mem hc
      rw [lookup_reconciled hreconcile] at htype
      by_contra hnot
      rw [not_or] at hnot
      rw [lookup_eq_none_of_notMem hnot.1, lookup_eq_none_of_notMem hnot.2] at htype
      cases htype
    · rintro (hc | hc)
      · exact (( hprefix.sublist).map Prod.fst).subset hc
      · exact hsub hc
  constructor
  · intro c
    rw [hcolumns, h.columns]
    simp [or_comm]
  · intro c
    rw [hlookup, h.types, List.findSome?_append]
    simp
  · obtain ⟨first, rest, stored, rfl, hstaging, hstored⟩ := h.rows
    refine ⟨first, rest ++ [df], stored ++ added, rfl, ?_, ?_⟩
    · rw [hrows, reconcileSchema_rows hreconcile, hstaging, List.append_assoc]
    · have hsplit : rowsWithFrame (rest ++ [df]) =
          rowsWithFrame rest ++ df.rows.map fun row => (df, row) := by
        simp [rowsWithFrame]
      rw [hsplit]
      refine List.rel_append ?_ ?_
      · have hframes : ∀ p ∈ rowsWithFrame rest, p.1 ∈ rest := fun p hp => by
          obtain ⟨f, hf, hp⟩ := List.mem_flatMap.mp hp
          obtain ⟨row, -, rfl⟩ := List.mem_map.mp hp
          exact hf
        refine ((List.forall₂_and_left _ _).mpr ⟨hframes, hstored⟩).imp fun p s ⟨hp, hs⟩ c => ⟨(hs c).1, ?_⟩
        intro type hc htype
        -- a column of an earlier frame keeps its type
        have hin : c ∈ staging.columns := (h.columns c).mpr ⟨p.1, List.mem_cons_of_mem _ hp, hc⟩
        obtain ⟨type', htype'⟩ := exists_lookup_of_mem hin
        rw [hlookup, htype', Option.some_or] at htype
        exact (hs c).2 type hc (htype'.trans htype)
      · rw [List.forall₂_map_left_iff, hschema]
        exact (assignRows_eq_some.mp hadded).imp fun row s hs => storedRow_of_assignRow hload hs

/-! ### The loop -/

section Runs

variable {assign : Assignment} {table unique : String} {fault : ChunkPoint → Option Failure}
  {before : Tables}

/-- Nothing but the staging table has changed. -/
def StagingTouched (staging : String) (before : Tables) (t : Session Tables) : Prop :=
  t.saved = none ∧ ∃ x, t.store = Function.update before staging x

/-- The staging table holds the frames so far; without any it has not been created. -/
def Loaded (assign : Assignment) (staging : String) (before : Tables) (done : List Frame)
    (t : Session Tables) : Prop :=
  t.saved = none ∧ if done = [] then t.store = before
    else ∃ f, t.store = Function.update before staging (some f) ∧ UnionOf assign done f

theorem Loaded.touched {staging : String} {done : List Frame} {t : Session Tables}
    (h : Loaded assign staging before done t) : StagingTouched staging before t := by
  obtain ⟨hsaved, h⟩ := h
  refine ⟨hsaved, ?_⟩
  split at h
  · exact ⟨before staging, by rw [h, Function.update_eq_self]⟩
  · obtain ⟨f, hstore, -⟩ := h
    exact ⟨some f, hstore⟩

theorem meets_stageChunk {index : ℕ} {done : List Frame} {df : Frame} {t : Session Tables}
    (h : Loaded assign (stagingTableName table unique) before done t) :
    (stageChunk assign table unique index done.isEmpty df).Meets (Session.interp fault)
      (fun _ t => Loaded assign (stagingTableName table unique) before (done ++ [df]) t)
      (fun _ t => StagingTouched (stagingTableName table unique) before t) t := by
  unfold stageChunk
  cases done with
  | nil =>
    obtain ⟨hsaved, hstore⟩ := h
    refine Prog.Meets.bind (Script.meets_statement (Q := fun _ t =>
      Loaded assign (stagingTableName table unique) before [df] t) ?_ ?_) fun _ t ht => Prog.meets_pure ht
    · intro after hfault hrun
      unfold Tables.create at hrun
      split at hrun
      · cases hrun
      · obtain rfl := Except.ok.inj hrun
        refine ⟨hsaved, df, ?_, UnionOf.single assign df⟩
        rw [show t.store = before from hstore]
    · exact fun e _ => Loaded.touched ⟨hsaved, hstore⟩
  | cons first rest =>
    have htouched := h.touched
    obtain ⟨hsaved, f, hstore, hunion⟩ := h
    have hf : t.store (stagingTableName table unique) = some f := by rw [hstore, Function.update_self]
    refine Prog.Meets.bind ((Script.meets_saved calls_reconcile (meets_reconcile hf)).mono
      (fun _ _ h => h) ?_) ?_
    · rintro e u ⟨hsaved', hraised⟩
      refine ⟨hsaved'.trans hsaved, ?_⟩
      generalize u.store = after at hraised ⊢
      rcases hraised with rfl | hraised
      · exact htouched.2
      · cases hraised with
        | early => exact htouched.2
        | @adding _ _ _ g => exact ⟨some g, by rw [hstore, Function.update_idem]⟩
    · rintro columns u ⟨hsaved', widened, hreconciled⟩
      have hu : u.store (stagingTableName table unique) = some widened := by
        rw [hreconciled.store, Function.update_self]
      refine Prog.Meets.bind (Script.meets_statement (Q := fun _ t =>
        Loaded assign (stagingTableName table unique) before (first :: rest ++ [df]) t) ?_ ?_)
        fun _ t ht => Prog.meets_pure ht
      · intro after hfault hrun
        obtain ⟨w, g, hw, hinsert, rfl⟩ := Tables.modify_eq_ok hrun
        obtain rfl := Option.some.inj (hw.symm.trans hu)
        refine ⟨hsaved'.trans hsaved, g, ?_, ?_⟩
        · rw [hreconciled.store, hstore, Function.update_idem, Function.update_idem]
        · split at hinsert
          · cases hinsert
          · exact hunion.snoc hreconciled.reconciles hinsert
      · intro e _
        exact ⟨hsaved'.trans hsaved, some widened, by
          rw [hreconciled.store, hstore, Function.update_idem]⟩

/-- The loop loads all frames, or raises with nothing but the staging table changed. -/
theorem meets_stageAll {chunks done : List Frame} {index total : ℕ} {t : Session Tables}
    (h : Loaded assign (stagingTableName table unique) before done t) :
    (stageAll assign table unique index done.isEmpty total chunks).Meets (Session.interp fault)
      (fun r t => Loaded assign (stagingTableName table unique) before (done ++ chunks) t ∧
        r = ((done ++ chunks).isEmpty, total + (chunks.map Frame.height).sum))
      (fun _ t => StagingTouched (stagingTableName table unique) before t) t := by
  induction chunks generalizing done index total t with
  | nil =>
    refine Prog.Meets.bind (Q := fun _ u => u = t) (Script.meets_query (fun _ => rfl)
      fun _ _ => h.touched) ?_
    rintro - _ rfl
    refine Prog.meets_pure ⟨?_, ?_⟩
    · rwa [List.append_nil]
    · simp
  | cons df chunks ih =>
    have hquery : ∀ point, (Script.query point : Script ChunkPoint Tables Failure Tables).Meets
        (Session.interp fault) (fun _ u => u = t)
        (fun _ u => StagingTouched (stagingTableName table unique) before u) t := fun point =>
      Script.meets_query (fun _ => rfl) fun _ _ => h.touched
    refine (hquery _).bind ?_
    rintro - _ rfl
    refine (hquery _).bind ?_
    rintro - _ rfl
    have hunregister : ∀ (Q : Session Tables → Prop) (u : Session Tables), Q u →
        StagingTouched (stagingTableName table unique) before u →
        (do let _ ← Script.query (.unregister index); return ⟨⟩ :
          Script ChunkPoint Tables Failure PUnit).Meets (Session.interp fault) (fun _ t => Q t)
          (fun _ t => StagingTouched (stagingTableName table unique) before t) u := by
      intro Q u hQ htouched
      refine Prog.Meets.bind (Script.meets_query (Q := fun _ t => Q t) (fun _ => hQ)
        fun _ _ => htouched) ?_
      exact fun _ t ht => Prog.meets_pure ht
    refine Prog.Meets.bind (Prog.Meets.andFinally _ (meets_stageChunk h)
      (fun _ u hu => hunregister _ u hu hu.touched) fun _ u hu => hunregister _ u hu hu) ?_
    rintro - u hu
    have hempty : false = (done ++ [df]).isEmpty := by simp
    rw [hempty]
    refine (ih hu).mono ?_ fun _ _ h => h
    rintro r v ⟨hv, hr⟩
    rw [List.append_assoc, List.singleton_append] at hv hr
    refine ⟨hv, ?_⟩
    rw [hr, List.map_cons, List.sum_cons, Nat.add_assoc]

/-! ### The swap -/

/-- The staging table takes the place of the target, or nothing changes. -/
theorem meets_swapTables {f : Frame} {t : Session Tables} (hsaved : t.saved = none)
    (hstore : t.store = Function.update before (stagingTableName table unique) (some f)) :
    (swapTables table unique).Meets (Session.interp fault)
      (fun _ u => u.saved = none ∧ u.store = Function.update
        (Function.update before (stagingTableName table unique) none) table (some f))
      (fun _ u => u = t) t := by
  have hne := stagingTableName_ne table unique
  refine (Script.meets_transaction (Q := fun _ store => store = Function.update
      (Function.update before (stagingTableName table unique) none) table (some f))
      (E := fun _ => True) hsaved ?_ fun _ => ?_).mono (fun _ u h => ⟨h.1, h.2.1⟩) fun _ u h => h.1
  · exact (calls_statement _ _).bind fun _ => (calls_statement _ _).bind fun _ => trivial
  · refine Prog.Meets.bind (Script.meets_statement (Q := fun _ u => u.store = Function.update
      t.store table none) ?_ fun _ _ => trivial) ?_
    · intro after _ hrun
      exact (Except.ok.inj hrun).symm
    · rintro - u hu
      refine Prog.Meets.bind (Script.meets_statement (Q := fun _ u => u.store = Function.update
        (Function.update before (stagingTableName table unique) none) table (some f)) ?_
        fun _ _ => trivial) fun _ u hu => Prog.meets_pure hu
      intro after _ hrun
      have hstaged : u.store (stagingTableName table unique) = some f := by
        rw [hu, Function.update_of_ne hne, hstore, Function.update_self]
      have hgone : u.store table = none := by rw [hu, Function.update_self]
      unfold Tables.rename at hrun
      simp only [hstaged, hgone] at hrun
      obtain rfl := Except.ok.inj hrun
      show Function.update (Function.update u.store _ none) table (some f) = _
      rw [hu, hstore]
      funext name
      by_cases htable : name = table
      · simp [htable]
      · by_cases hname : name = stagingTableName table unique
        · simp [hname, hne]
        · simp [htable, hname]

/-! ### The whole operation -/

/-- The rest of the operation after the loop. -/
theorem meets_finish {chunks : List Frame} {t : Session Tables}
    (h : Loaded assign (stagingTableName table unique) before chunks t) (total : ℕ) :
    (if chunks.isEmpty then do
        let _ ← Script.statement .dropEmpty (Tables.drop table)
        return 0
      else do
        swapTables table unique
        return total : Script ChunkPoint Tables Failure ℕ).Meets (Session.interp fault)
      (fun count (u : Session Tables) => u.saved = none ∧
        (∀ name, name ≠ table → name ≠ stagingTableName table unique → u.store name = before name) ∧
        (chunks = [] → count = 0 ∧ u.store table = none) ∧
        (chunks ≠ [] → count = total ∧ u.store (stagingTableName table unique) = none ∧
          ∃ result, u.store table = some result ∧ UnionOf assign chunks result))
      (fun _ u => StagingTouched (stagingTableName table unique) before u) t := by
  have htouched := h.touched
  obtain ⟨hsaved, h⟩ := h
  cases chunks with
  | nil =>
    refine Prog.Meets.bind (Script.meets_statement (Q := fun _ u => u.saved = none ∧
      u.store = Function.update before table none) ?_ fun _ _ => htouched) ?_
    · intro after _ hrun
      refine ⟨hsaved, ?_⟩
      rw [← show t.store = before from h]
      exact (Except.ok.inj hrun).symm
    · rintro - u ⟨hsaved, hstore⟩
      refine Prog.meets_pure ⟨hsaved, fun name hname _ => ?_, fun _ => ⟨rfl, ?_⟩, by simp⟩
      · rw [hstore, Function.update_of_ne hname]
      · rw [hstore, Function.update_self]
  | cons first rest =>
    obtain ⟨f, hstore, hunion⟩ := h
    refine Prog.Meets.bind ((meets_swapTables hsaved hstore).mono (fun _ _ h => h) ?_) ?_
    · rintro e _ rfl
      exact htouched
    · rintro - u ⟨hsaved, hstore⟩
      refine Prog.meets_pure ⟨hsaved, fun name hname hstaging => ?_, by simp, fun _ => ⟨rfl, ?_, f, ?_, hunion⟩⟩
      · rw [hstore, Function.update_of_ne hname, Function.update_of_ne hstaging]
      · rw [hstore, Function.update_of_ne (stagingTableName_ne table unique), Function.update_self]
      · rw [hstore, Function.update_self]

end Runs

/-! ### Columns of another type -/

/-- Casts of numbers: a fraction is rounded in a column of integers. -/
def castNumbers : Assignment := fun type cell =>
  if type = "BIGINT" ∧ cell = .other "1.5" then some (.other "2") else some cell

/-- A frame with one number. -/
def numberFrame (type number : String) : Frame where
  schema := [("amount", type)]
  rows := [fun c => if c = "amount" then .other number else .null]
  nodup := by simp
  blank := by simp_all

/-- The first frame makes the column one of integers, and the second one has a fraction. -/
def amountChunks : List Frame := [numberFrame "BIGINT" "1", numberFrame "DOUBLE" "1.5"]

def amountRun : Session Tables × Except Failure ℕ :=
  (materializeFullChunksScript castNumbers "amounts" "0" amountChunks).exec
    (Session.interp fun _ => none) ⟨fun _ => none, none⟩

end Stel.Warehouse
