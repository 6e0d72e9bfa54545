import Stel.Execution.ExtractionFull
import Stel.Warehouse.InsertOverwrite
import Stel.Warehouse.Upsert

/-!
# Incremental extraction runs on BigQuery

The incremental path of `run_extraction_model` (`execution/extraction.py`): the documents whose state
has changed are extracted, flush by flush, and published by the strategy of the target; the rows of
documents that are gone are deleted by their ids. Runs that complete are modelled: every document that
is extracted gives a result.

A target row that lies in a partition of the batch is replaced whoever it belongs to, and one that
lies elsewhere stays, also if its document is in the batch.

## Main definitions

* `extractIncremental`, `history`: one run, and runs one after another on a new target.
* `OneFlush`, `Together`: the contracts of `insert_overwrite`.
* `Cleared`: the stored rows of the changed documents are in partitions of the batch.
* `OneRowPerDocument`: what a run leaves.

## Main results

* `published_step`: what one run of `insert_overwrite` does, and that `merge` does the same.
* `oneRowPerDocument_iff`: every run leaves one row for each document exactly if every run is cleared.
-/

namespace Stel.Execution.Extraction

open Stel.Warehouse

/-! ### Frames with types -/

/-- The frame of a flush; the lineage columns have type `pl.String`. -/
def UntypedFrame.typed (f : UntypedFrame) (dtype : String → String) : Frame where
  schema := f.columns.map fun c => (c, if c ∈ lineageFields then "String" else dtype c)
  rows := f.rows
  nodup := by
    rw [List.map_map]
    exact (List.map_id f.columns).symm ▸ f.nodup
  blank row hrow c hc := f.blank row hrow c fun hmem => hc (List.mem_map.mpr
    ⟨_, List.mem_map_of_mem hmem, rfl⟩)

/-- `pl.concat` of two frames with one schema. -/
def concatFrames (f g : Frame) : Frame where
  schema := f.schema
  rows := f.rows ++ g.rows.map fun row c => if c ∈ f.columns then row c else .null
  nodup := f.nodup
  blank row hrow c hc := by
    rcases List.mem_append.mp hrow with hrow | hrow
    · exact f.blank row hrow c hc
    · obtain ⟨row, -, rfl⟩ := List.mem_map.mp hrow
      exact if_neg hc

/-! ### The run -/

/-- What the runs of a model have in common: its configuration and, by what they do, polars and the
warehouse. `dtype` are the types of the columns of a frame that are no lineage columns. -/
structure Job where
  env : FrameEnv
  model : ModelConfig
  dtype : UntypedFrame → String → String
  policy : OnSchemaChange
  batching : Batching
  flushEvery : ℕ
  publishEvery : ℕ
  assign : Assignment
  trunc : String → String → String → String
  accepts : String → Bool
  targetIsIceberg : Bool
  declaredIceberg : Bool

/-- A run: the documents that are discovered, each with the result of its extraction, should the run
extract it. -/
structure SourceRun where
  docs : List (DocumentRef × ExtractionResult)
  stamp : RunStamp
  nodup : (docs.map fun e => e.1.documentId).Nodup

/-- The ids of the documents. -/
def SourceRun.ids (run : SourceRun) : List String := run.docs.map fun e => e.1.documentId

/-- The record of a document. -/
def stateRecord (stamp : RunStamp) (doc : DocumentRef) : StateRecord :=
  ⟨doc.documentId, doc.contentHash, stamp.codeVersion⟩

/-- `docs_to_process`. -/
def docsToProcess (state : StateTable) (run : SourceRun) : List (DocumentRef × ExtractionResult) :=
  run.docs.filter fun e => state.lookup e.1.documentId ≠ some (stateRecord run.stamp e.1).value

/-- `removed`. -/
def removedIds (state : StateTable) (run : SourceRun) : List String :=
  state.keys.filter fun d => d ∉ run.ids

/-- An `AdapterError` as a `RunError`. -/
def toRunError : Failure → Failure
  | .adapterError m => .runError m
  | e => e

/-- What `_publish` and the loop around it change: the target, the buffered frames and records, and
whether the next publication is the first. -/
structure Publication where
  target : Target
  frames : List Frame := []
  records : List StateRecord := []
  first : Bool := true

section Run

variable (job : Job) (strategy : IncrementalStrategy)

/-- The `on_schema_change` of a publication. -/
def Job.publicationPolicy (emptyTarget first : Bool) : OnSchemaChange :=
  if first ∧ emptyTarget then .appendNewColumns else if first then job.policy else .appendNewColumns

/-- `adapter.materialize_incremental`, as `_publish` calls it. -/
def Job.materialize (policy : OnSchemaChange) (df : Frame) (table : Option Frame) :
    Except Failure (Option Frame) :=
  (bigqueryIncremental job.assign job.trunc "document_id" job.accepts job.model.name job.targetIsIceberg
    job.declaredIceberg strategy df policy table).mapError toRunError

/-- `_publish`. -/
def publish (emptyTarget : Bool) (p : Publication) : Except Failure Publication :=
  match p.frames with
  | [] => .ok p
  | frame :: frames => do
    let table ← job.materialize strategy (job.publicationPolicy emptyTarget p.first)
      (frames.foldl concatFrames frame) p.target.table
    validateStateRecords p.records
    return ⟨⟨table, p.target.state.upsert p.records⟩, [], [], false⟩

/-- One pass of the loop over the flushes. -/
def publishFlush (emptyTarget : Bool) (stamp : RunStamp) (p : Publication)
    (flush : List (DocumentRef × ExtractionResult)) : Except Failure Publication := do
  let staged ← stageFlush job.env job.model stamp (flush.map withResult)
  match staged.1 with
  | none => return p
  | some frame =>
    let df := frame.typed (job.dtype frame)
    -- buffered frames share one schema
    let p ← if p.frames.any fun g => g.schema ≠ df.schema then publish job strategy emptyTarget p else .ok p
    let p := { p with
      frames := p.frames ++ [df]
      records := p.records ++ flush.map fun e => stateRecord stamp e.1 }
    if job.publishEvery ≤ p.frames.length then publish job strategy emptyTarget p else return p

/-- `delete_rows_and_state` for the documents that are gone. -/
def removeDocuments (s : Target) (run : SourceRun) : Except Failure Target :=
  let removed := removedIds s.state run
  if removed = [] then .ok s
  else do
    validateStateKeys removed
    let table ← deleteRows "document_id" (removed.map .string) s.table
    return ⟨table, s.state.delete removed⟩

/-- `empty_incremental_target`. -/
def emptyIncrementalTarget (s : Target) : Bool :=
  s.state.keys.isEmpty && s.table.any fun f => f.height = 0

/-- The incremental path of `run_extraction_model`. -/
def extractIncremental (s : Target) (run : SourceRun) : Except Failure Target := do
  let emptyTarget := emptyIncrementalTarget s
  let t ← removeDocuments s run
  let p ← (flushes job.batching job.flushEvery (docsToProcess s.state run)).foldlM
    (publishFlush job strategy emptyTarget run.stamp) ⟨t, [], [], true⟩
  let p ← publish job strategy emptyTarget p
  if run.docs = [] ∧ s.table = none then
    let frame ← emptyExtractionFrame job.env job.model
    let table ← (materializeFull (frame.typed (job.dtype frame))).mapError toRunError
    return { p.target with table }
  else return p.target

/-- Runs one after another, on a target that does not exist at first. -/
def history (runs : List SourceRun) : Except Failure Target :=
  runs.foldlM (extractIncremental job strategy) {}

end Run

/-! ### The contracts -/

section Contracts

variable (job : Job) (pb : PartitionBy) (s : Target) (run : SourceRun)

/-- The rows of the batch: those of all changed documents. -/
def batchRows : List Row :=
  match stageFlush job.env job.model run.stamp ((docsToProcess s.state run).map withResult) with
  | .ok (some frame, _) => frame.rows
  | _ => []

/-- The changed documents fit in one flush. -/
def OneFlush : Prop :=
  (flushes job.batching job.flushEvery (docsToProcess s.state run)).length ≤ 1

/-- Documents that share a partition re-extract together: a partition of the batch holds no row of an
unchanged document. -/
def Together : Prop :=
  ∀ e ∈ run.docs, e ∉ docsToProcess s.state run →
    ∀ row ∈ rowsAt "document_id" (rowsOf s.table) e.1.documentId,
      ¬ InPartitions job.trunc pb (batchRows job s run) row

/-- The stored row of a changed document is in a partition of the batch. -/
def Cleared : Prop :=
  ∀ e ∈ docsToProcess s.state run, ∀ row ∈ rowsAt "document_id" (rowsOf s.table) e.1.documentId,
    InPartitions job.trunc pb (batchRows job s run) row

instance : Decidable (OneFlush job s run) := inferInstanceAs (Decidable (_ ≤ 1))

instance : Decidable (Cleared job pb s run) :=
  inferInstanceAs (Decidable (∀ e ∈ docsToProcess s.state run, ∀ row ∈ rowsAt _ _ _, InPartitions _ _ _ _))

end Contracts

/-- A row that the extraction of a document in a run gives, as it is or as a table stores it. -/
def Written (job : Job) (run : SourceRun) (e : DocumentRef × ExtractionResult) (row : Row) : Prop :=
  ∃ found emitted, RowFound job.env job.model found (extractionRecord run.stamp e.1 e.2) emitted ∧
    (row = emitted ∨ ∃ schema columns, assignRow job.assign schema columns emitted = some row)

/-- One of the runs extracts the document with the value `v`, and the row is what it writes. -/
def WrittenAs (job : Job) (runs : List SourceRun) (d : String) (v : StateValue) (row : Row) : Prop :=
  ∃ run ∈ runs, ∃ e ∈ run.docs, stateRecord run.stamp e.1 = ⟨d, v.inputFingerprint, v.codeVersion⟩ ∧
    Written job run e row

/-- After the last of the runs the target has one row for each of its documents, written for the
content and the code version that the document has, and no others; they are those that the strategy
`merge` would leave. -/
structure OneRowPerDocument (job : Job) (runs : List SourceRun) (run : SourceRun) (t : Target) :
    Prop where
  rows : ∀ e ∈ run.docs, ∃ row, rowsAt "document_id" (rowsOf t.table) e.1.documentId = [row] ∧
    WrittenAs job runs e.1.documentId (stateRecord run.stamp e.1).value row
  others : ∀ row ∈ rowsOf t.table, ∃ e ∈ run.docs, (row "document_id").text = some e.1.documentId
  merge : ∃ m, history job .merge runs = .ok m ∧ (rowsOf t.table).Perm (rowsOf m.table)

section Histories

variable (job : Job) (pb : PartitionBy) (runs : List SourceRun)

/-- Every run of the history respects the contracts. -/
def RespectsContracts : Prop :=
  ∀ before run s, before ++ [run] <+: runs → history job (.insertOverwrite pb) before = .ok s →
    OneFlush job s run ∧ Together job pb s run

/-- Every run of the history is cleared. -/
def AllCleared : Prop :=
  ∀ before run s, before ++ [run] <+: runs → history job (.insertOverwrite pb) before = .ok s →
    Cleared job pb s run

/-- Every run of the history leaves one row for each document. -/
def AlwaysOneRow : Prop :=
  ∀ before run t, before ++ [run] <+: runs →
    history job (.insertOverwrite pb) (before ++ [run]) = .ok t →
      OneRowPerDocument job (before ++ [run]) run t

end Histories

/-! ### One publication -/

section Step

variable {job : Job} {strategy : IncrementalStrategy} {pb : PartitionBy} {s t m r : Target}
  {run : SourceRun} {runs : List SourceRun}

theorem flushes_of_length_le {α : Type} {batching : Batching} {n : ℕ} {xs : List α}
    (h : (flushes batching n xs).length ≤ 1) :
    xs = [] ∧ flushes batching n xs = [] ∨ xs ≠ [] ∧ flushes batching n xs = [xs] := by
  have hflatten := flatten_flushes batching n xs
  match hflushes : flushes batching n xs with
  | [] =>
    rw [hflushes] at hflatten
    exact .inl ⟨hflatten.symm, rfl⟩
  | [flush] =>
    have hne : flush ≠ [] := ne_nil_of_mem_flushes (hflushes ▸ List.mem_cons_self)
    rw [hflushes, List.flatten_cons, List.flatten_nil, List.append_nil] at hflatten
    exact .inr ⟨hflatten ▸ hne, by rw [hflatten]⟩
  | _ :: _ :: _ =>
    rw [hflushes] at h
    simp at h

/-- The publication of a batch. -/
def Publishes (job : Job) (strategy : IncrementalStrategy) (policy : OnSchemaChange) (run : SourceRun)
    (batch : List (DocumentRef × ExtractionResult)) (t r : Target) : Prop :=
  ∃ frame table, stageFlush job.env job.model run.stamp (batch.map withResult) = .ok (some frame, []) ∧
    job.materialize strategy policy (frame.typed (job.dtype frame)) t.table = .ok table ∧
    validateStateRecords (batch.map fun e => stateRecord run.stamp e.1) = .ok () ∧
    r = ⟨table, t.state.upsert (batch.map fun e => stateRecord run.stamp e.1)⟩

theorem publish_eq_ok {emptyTarget first : Bool} {frame : Frame} {records : List StateRecord}
    {p : Publication} : publish job strategy emptyTarget ⟨t, [frame], records, first⟩ = .ok p ↔
      ∃ table, job.materialize strategy (job.publicationPolicy emptyTarget first) frame t.table = .ok table ∧
        validateStateRecords records = .ok () ∧ p = ⟨⟨table, t.state.upsert records⟩, [], [], false⟩ := by
  rw [publish]
  simp only [bind_eq_ok]
  constructor
  · rintro ⟨table, htable, ⟨⟩, hrecords, h⟩
    exact ⟨table, htable, hrecords, (Except.ok.inj h).symm⟩
  · rintro ⟨table, htable, hrecords, rfl⟩
    exact ⟨table, htable, ⟨⟩, hrecords, rfl⟩

/-- What the loop over a single flush does. -/
theorem publishFlush_publish {emptyTarget : Bool} {flush : List (DocumentRef × ExtractionResult)}
    (hne : flush ≠ []) : (∃ p q, publishFlush job strategy emptyTarget run.stamp ⟨t, [], [], true⟩ flush = .ok p ∧
      publish job strategy emptyTarget p = .ok q ∧ q.target = r) ↔
      Publishes job strategy (job.publicationPolicy emptyTarget true) run flush t r := by
  unfold publishFlush Publishes
  simp only [bind_eq_ok]
  constructor
  · rintro ⟨p, q, ⟨staged, hstaged, hp⟩, hq, rfl⟩
    obtain ⟨frame, rfl, -⟩ := stageFlush_eq_ok hne hstaged
    obtain ⟨p', hp', hp⟩ := bind_eq_ok.mp hp
    obtain rfl := Except.ok.inj hp'
    refine ⟨frame, ?_⟩
    dsimp only [List.nil_append] at hp
    split at hp
    · obtain ⟨table, htable, hrecords, rfl⟩ := publish_eq_ok.mp hp
      obtain rfl := Except.ok.inj hq
      exact ⟨table, hstaged, htable, hrecords, rfl⟩
    · obtain rfl := Except.ok.inj hp
      obtain ⟨table, htable, hrecords, rfl⟩ := publish_eq_ok.mp hq
      exact ⟨table, hstaged, htable, hrecords, rfl⟩
  · rintro ⟨frame, table, hstaged, htable, hrecords, rfl⟩
    have hpublish := (@publish_eq_ok job strategy t emptyTarget true _ _ _).mpr
      ⟨table, htable, hrecords, rfl⟩
    by_cases hevery : job.publishEvery ≤ 1
    · refine ⟨_, _, ⟨_, hstaged, bind_eq_ok.mpr ⟨_, rfl, Eq.trans ?_ hpublish⟩⟩, rfl, rfl⟩
      exact if_pos hevery
    · exact ⟨_, _, ⟨_, hstaged, bind_eq_ok.mpr ⟨_, rfl, if_neg hevery⟩⟩, hpublish, rfl⟩

/-- What a run with at most one flush does. -/
theorem extractIncremental_eq_ok (hone : OneFlush job s run) :
    extractIncremental job strategy s run = .ok r ↔ ∃ t, removeDocuments s run = .ok t ∧
      if docsToProcess s.state run = [] then
        if run.docs = [] ∧ s.table = none then
          ∃ frame table, emptyExtractionFrame job.env job.model = .ok frame ∧
            materializeFull (frame.typed (job.dtype frame)) = .ok table ∧ r = { t with table }
        else r = t
      else Publishes job strategy (job.publicationPolicy (emptyIncrementalTarget s) true) run
        (docsToProcess s.state run) t r := by
  unfold extractIncremental
  rw [bind_eq_ok]
  refine exists_congr fun t => and_congr_right fun _ => ?_
  rcases flushes_of_length_le hone with ⟨hnil, hflushes⟩ | ⟨hne, hflushes⟩
  · rw [hflushes, if_pos hnil, List.foldlM_nil, pure_bind]
    show (if run.docs = [] ∧ s.table = none then _ else _) = _ ↔ _
    split
    · simp only [bind_eq_ok, mapError_eq_ok]
      constructor
      · rintro ⟨frame, hframe, table, htable, h⟩
        exact ⟨frame, table, hframe, htable, (Except.ok.inj h).symm⟩
      · rintro ⟨frame, table, hframe, htable, rfl⟩
        exact ⟨frame, hframe, table, htable, rfl⟩
    · exact ⟨fun h => (Except.ok.inj h).symm, fun h => congrArg Except.ok h.symm⟩
  · have hdocs : ¬ (run.docs = [] ∧ s.table = none) := fun h => hne (by rw [docsToProcess, h.1]; rfl)
    rw [hflushes, if_neg hne, List.foldlM_cons, ← publishFlush_publish hne]
    simp only [List.foldlM_nil, bind_pure, if_neg hdocs, bind_eq_ok]
    constructor
    · rintro ⟨p, hp, q, hq, h⟩
      exact ⟨p, q, hp, hq, Except.ok.inj h⟩
    · rintro ⟨p, q, hp, hq, rfl⟩
      exact ⟨p, hp, q, hq, rfl⟩

/-! ### The rows of a batch -/

/-- What a run leaves of each document, in the state. -/
def Recorded (run : SourceRun) (s : Target) : Prop :=
  ∀ d v, s.state.lookup d = some v ↔
    ∃ e ∈ run.docs, e.1.documentId = d ∧ (stateRecord run.stamp e.1).value = v

/-- Rows of distinct records, one for each. -/
theorem rowsAt_of_forall₂ {α : Type} {keyCol : String} {key : α → String} {P : α → Row → Prop}
    {xs : List α} {rows : List Row}
    (h : List.Forall₂ (fun x row => (row keyCol).text = some (key x) ∧ P x row) xs rows)
    (hnodup : (xs.map key).Nodup) {x : α} (hx : x ∈ xs) :
    ∃ row, rowsAt keyCol rows (key x) = [row] ∧ P x row := by
  have htexts : (rows.map fun row => (row keyCol).text) = (xs.map key).map some := by
    clear hnodup hx
    induction h with
    | nil => rfl
    | cons hrow _ ih => simp only [List.map_cons, hrow.1, ih]
  have hkeyed : KeyedTable keyCol rows := by
    refine ⟨fun row hrow hnone => ?_, htexts ▸ hnodup.map (Option.some_injective _)⟩
    obtain ⟨x, -, htext, -⟩ := exists_of_mem_right h hrow
    rw [hnone] at htext
    cases htext
  obtain ⟨row, hrow, htext, hP⟩ := exists_of_mem_left h hx
  exact ⟨row, hkeyed.rowsAt_eq hrow htext, hP⟩

theorem declared_documentId : Declared job.env job.model "document_id" := .inl (by decide)

theorem typedName_documentId : typedName job.env job.model "document_id" = none := by
  have hnone : (job.model.fields.find? fun field => field.name = "document_id" ∧ field.dataType.isSome ∧
      job.env.casefold field.name ∉ lineageFields) = none := by
    refine List.find?_eq_none.mpr fun field _ hfield => ?_
    obtain ⟨hname, -, hout⟩ := of_decide_eq_true hfield
    rw [hname, job.env.casefold_lineage "document_id" (by decide)] at hout
    exact hout (by decide)
  rw [typedName, hnone]
  rfl

/-- The rows of a flush have the ids of its documents. -/
theorem rows_of_flush {flush : List (DocumentRef × ExtractionResult)} {frame : UntypedFrame}
    {stamp : RunStamp} (h : FlushFrame job.env job.model stamp flush frame) :
    List.Forall₂ (fun e row => row "document_id" = .string e.1.documentId ∧
      ∃ found, RowFound job.env job.model found (extractionRecord stamp e.1 e.2) row) flush frame.rows := by
  have hfound : ∀ e ∈ flush, "document_id" ∈ foundColumns (recordsOf stamp flush) := by
    intro e he
    obtain ⟨first, rest, rfl⟩ := List.exists_cons_of_ne_nil (List.ne_nil_of_mem he)
    exact mem_foundColumns_recordsOf.mpr ⟨first, List.mem_cons_self, List.mem_cons_self⟩
  have hrows := (List.forall₂_and_left _ _).mpr ⟨hfound, h.rows⟩
  refine hrows.imp fun e row ⟨hid, hrow⟩ => ⟨?_, _, hrow⟩
  have hcell := (hrow "document_id").1 (.inr declared_documentId)
  rw [if_pos hid, contractCell, typedName_documentId] at hcell
  exact (Option.some.inj hcell).symm

theorem lookup_typed {frame : UntypedFrame} {dtype : String → String}
    (h : "document_id" ∈ frame.columns) :
    (frame.typed dtype).schema.lookup "document_id" = some "String" := by
  show (frame.columns.map fun c => (c, if c ∈ lineageFields then "String" else dtype c)).lookup _ = _
  rw [lookup_map_pair h, if_pos (by decide)]

/-! ### The table after a publication -/

section Tables

variable {df : Frame} {policy : OnSchemaChange} {existing existing' table : Option Frame}

/-- A table with an id column of type `String`. -/
def IdColumn (table : Option Frame) : Prop :=
  ∀ f, table = some f → f.schema.lookup "document_id" = some "String"

variable (hstring : ∀ d, job.assign "String" (.string d) = some (.string d)) (hne : df.height ≠ 0)
  (hids : ∀ s ∈ df.rows, ∃ d, s "document_id" = .string d) (hkey : IdColumn existing)

include hstring hids hkey in
theorem storedRow_documentId {target : Frame} {plan : SchemaChangePlan} (htarget : existing = some target)
    (hdf : "document_id" ∈ df.columns)
    (hplan : planSchemaChange target.columns df.columns policy job.model.name = .ok plan) {s : Row}
    (hs : s ∈ df.rows) : storedRow job.assign (widenedTarget plan df target).schema plan.columnsToLoad s
      "document_id" = s "document_id" := by
  have hlookup := hkey target htarget
  have hmem : "document_id" ∈ target.columns := by
    obtain ⟨k, v, hkv, -⟩ := List.lookup_eq_some_iff.mp hlookup
    simp [Frame.columns, hkv]
  obtain ⟨d, hd⟩ := hids s hs
  rw [storedRow, lookup_widenedTarget hlookup]
  show (if "document_id" ∈ plan.columnsToLoad then
    (job.assign "String" (s "document_id")).getD .null else .null) = s "document_id"
  rw [if_pos ((mem_columnsToLoad hmem hplan).mpr hdf), hd, hstring]
  rfl

include hstring hne hids hkey in
/-- The rows in the partitions of the batch go, and its rows come. -/
theorem materialize_overwrites
    (hdf : df.schema.lookup "document_id" = some "String")
    (h : job.materialize (.insertOverwrite pb) policy df existing = .ok table) :
    ∃ store : Row → Row, IdColumn table ∧
      rowsOf table = ((rowsOf existing).filter fun t => ¬ InPartitions job.trunc pb df.rows t) ++
        df.rows.map store ∧
      ∀ s ∈ df.rows, store s "document_id" = s "document_id" ∧
        (store s = s ∨ ∃ schema columns, assignRow job.assign schema columns s = some (store s)) := by
  have h := mapError_eq_ok.mp h
  cases hexisting : existing with
  | none =>
    rw [hexisting, bigqueryIncremental, if_neg hne] at h
    obtain ⟨_, -, h⟩ := bind_eq_ok.mp h
    obtain rfl := Except.ok.inj h
    refine ⟨id, ?_, by simp, fun s _ => ⟨rfl, .inl rfl⟩⟩
    rintro f hf
    obtain rfl := Option.some.inj hf
    exact hdf
  | some target =>
    rw [hexisting] at h
    obtain ⟨hkeys, -, -, plan, hplan, -, -, f, hf, rfl⟩ := (bigqueryIncremental_some_eq_ok hne).mp h
    obtain ⟨hstorable, hschema, hrows⟩ := insertOverwrite_eq_ok hf
    refine ⟨storedRow job.assign (widenedTarget plan df target).schema plan.columnsToLoad, ?_, ?_,
      fun s hs => ⟨?_, .inr ⟨_, _, assignRow_of_storable (hstorable s hs)⟩⟩⟩
    · rintro g hg
      obtain rfl := Option.some.inj hg
      rw [hschema]
      exact lookup_widenedTarget (hkey target hexisting)
    · rw [rowsOf_some, hrows, widenedTarget_rows]
      rfl
    · exact storedRow_documentId hstring hids hkey hexisting (validateIncrementalKeys_eq_ok hkeys).1
        hplan hs

include hstring hne hids hkey in
/-- `merge` leaves the same rows. -/
theorem materialize_merge (hkeyed : KeyedTable "document_id" (rowsOf existing))
    (hpartitions : ∀ t ∈ rowsOf existing, InPartitions job.trunc pb df.rows t ↔
      ∃ s ∈ df.rows, KeyMatch "document_id" t s)
    (hschema : existing'.map Frame.schema = existing.map Frame.schema)
    (hrows : (rowsOf existing).Perm (rowsOf existing'))
    (h : job.materialize (.insertOverwrite pb) policy df existing = .ok table) :
    ∃ table', job.materialize .merge policy df existing' = .ok table' ∧
      table'.map Frame.schema = table.map Frame.schema ∧ (rowsOf table).Perm (rowsOf table') := by
  have h := mapError_eq_ok.mp h
  cases hexisting : existing with
  | none =>
    rw [hexisting] at h hschema
    obtain rfl : existing' = none := Option.map_eq_none_iff.mp hschema
    refine ⟨table, mapError_eq_ok.mpr ?_, rfl, .refl _⟩
    rw [bigqueryIncremental, if_neg hne] at h ⊢
    exact h
  | some f =>
    subst hexisting
    obtain ⟨g, rfl, hsame⟩ := Option.map_eq_some_iff.mp hschema
    obtain ⟨hkeys, hformat, hcolumn, plan, hplan, -, haccepts, f', hf', rfl⟩ :=
      (bigqueryIncremental_some_eq_ok hne).mp h
    have hcolumns : g.columns = f.columns := congrArg (List.map Prod.fst) hsame
    have hdistinct : df.rows.Pairwise fun s s' => ¬ (s "document_id").Equals ( s' "document_id") := by
      refine (List.pairwise_map.mp (validateIncrementalKeys_eq_ok hkeys).2.2).imp_of_mem ?_
      rintro s s' hs hs' hne ⟨key, hkey, hkey'⟩
      obtain ⟨d, hd⟩ := hids s hs
      obtain ⟨d', hd'⟩ := hids s' hs'
      rw [hd, hd'] at hne
      rw [hd] at hkey
      rw [hd'] at hkey'
      exact hne (congrArg Cell.string (Option.some.inj (Eq.trans hkey hkey'.symm)))
    have hunique : UniqueKeys "document_id" (widenedTarget plan df f) := by
      rw [UniqueKeys, widenedTarget_rows]
      refine (List.pairwise_map.mp hkeyed.distinct).imp ?_
      rintro t t' hne ⟨key, hkey, hkey'⟩
      exact hne (Eq.trans hkey hkey'.symm)
    obtain ⟨g', hg', hgschema, hgrows⟩ := publishStaged_perm (g := widenedTarget plan df g) hunique
      hdistinct (fun s hs => congrArg Cell.text (storedRow_documentId hstring hids hkey rfl
        (validateIncrementalKeys_eq_ok hkeys).1 hplan hs))
      (by rwa [widenedTarget_rows]) (schema_widenedTarget hsame)
      (by rwa [widenedTarget_rows, widenedTarget_rows]) hf'
    refine ⟨some g', mapError_eq_ok.mpr ((bigqueryIncremental_some_eq_ok hne).mpr
      ⟨hkeys, hformat, hcolumns ▸ hcolumn, plan, hcolumns ▸ hplan, rfl, haccepts, g', hg', rfl⟩), ?_, hgrows⟩
    rw [Option.map_some, Option.map_some, hgschema]

end Tables

/-! ### What the target holds -/

/-- The target has one row for each recorded document, written as it is recorded, and no others. -/
structure Holds (job : Job) (runs : List SourceRun) (s : Target) : Prop where
  rows : ∀ d v, s.state.lookup d = some v →
    ∃ row, rowsAt "document_id" (rowsOf s.table) d = [row] ∧ WrittenAs job runs d v row
  others : ∀ row ∈ rowsOf s.table, ∃ d v, (row "document_id").text = some d ∧ s.state.lookup d = some v
  idColumn : IdColumn s.table

/-- The targets have the same state and, up to the order, the same rows. -/
structure Agree (s m : Target) : Prop where
  state : m.state = s.state
  schema : m.table.map Frame.schema = s.table.map Frame.schema
  rows : (rowsOf s.table).Perm (rowsOf m.table)

theorem published_new : Holds job [] {} where
  rows d v h := by
    rw [show ({} : Target).state.lookup d = none from AList.lookup_empty d] at h
    cases h
  others row h := by cases h
  idColumn f h := by cases h

theorem Holds.keyed (hp : Holds job runs s) : KeyedTable "document_id" (rowsOf s.table) := by
  refine keyedTable_iff.mpr ⟨fun row hrow hnone => ?_, fun d => ?_⟩
  · obtain ⟨d, v, htext, -⟩ := hp.others row hrow
    rw [hnone] at htext
    cases htext
  · by_cases hnil : rowsAt "document_id" (rowsOf s.table) d = []
    · rw [hnil]
      exact Nat.zero_le _
    · obtain ⟨row, hrow⟩ := List.exists_mem_of_ne_nil _ hnil
      obtain ⟨hmem, htext⟩ := mem_rowsAt.mp hrow
      obtain ⟨d', v, htext', hv⟩ := hp.others row hmem
      obtain rfl := Option.some.inj (htext.symm.trans htext')
      obtain ⟨row', hrow', -⟩ := hp.rows d v hv
      rw [hrow', List.length_singleton]

theorem WrittenAs.mono {d : String} {v : StateValue} {row : Row} (h : WrittenAs job runs d v row)
    (run : SourceRun) : WrittenAs job (runs ++ [run]) d v row := by
  obtain ⟨earlier, hearlier, hrest⟩ := h
  exact ⟨earlier, List.mem_append_left _ hearlier, hrest⟩

/-! ### Removed documents -/

theorem removeDocuments_eq_ok (h : removeDocuments s run = .ok t) :
    deleteRows "document_id" ((removedIds s.state run).map .string) s.table = .ok t.table ∧
      t.state = s.state.delete (removedIds s.state run) := by
  unfold removeDocuments at h
  by_cases hremoved : removedIds s.state run = []
  · rw [if_pos hremoved] at h
    obtain rfl := Except.ok.inj h
    rw [hremoved]
    refine ⟨?_, rfl⟩
    cases htable : s.table <;> rfl
  · rw [if_neg hremoved] at h
    obtain ⟨_, -, h⟩ := bind_eq_ok.mp h
    obtain ⟨table, htable, h⟩ := bind_eq_ok.mp h
    obtain rfl := Except.ok.inj h
    exact ⟨htable, rfl⟩

theorem exists_deleteRows {f g : Frame} {keys : List Cell} {table : Option Frame}
    (hschema : g.schema = f.schema) (h : deleteRows "document_id" keys (some f) = .ok table) :
    ∃ table', deleteRows "document_id" keys (some g) = .ok table' := by
  by_cases hkeys : keys = []
  · exact ⟨some g, if_pos hkeys⟩
  · have hcolumn : "document_id" ∈ f.columns := by
      by_contra hout
      have herror := (if_neg hkeys).trans (if_pos hout) |>.symm.trans h
      cases herror
    have hcolumn' : "document_id" ∈ g.columns := by rwa [Frame.columns, hschema]
    exact ⟨_, (if_neg hkeys).trans (if_neg (not_not.mpr hcolumn'))⟩

theorem removeDocuments_agree (h : removeDocuments s run = .ok t) (hagree : Agree s m) :
    ∃ t', removeDocuments m run = .ok t' ∧ Agree t t' := by
  unfold removeDocuments at h ⊢
  rw [hagree.state]
  by_cases hremoved : removedIds s.state run = []
  · rw [if_pos hremoved] at h ⊢
    obtain rfl := Except.ok.inj h
    exact ⟨m, rfl, hagree⟩
  · rw [if_neg hremoved] at h ⊢
    obtain ⟨_, hvalid, h⟩ := bind_eq_ok.mp h
    obtain ⟨table, htable, h⟩ := bind_eq_ok.mp h
    obtain rfl := Except.ok.inj h
    obtain ⟨hschema, hrows⟩ := deleteRows_eq_ok htable
    obtain ⟨table', htable'⟩ : ∃ table', deleteRows "document_id"
        ((removedIds s.state run).map .string) m.table = .ok table' := by
      have hsame := hagree.schema
      cases hm : m.table with
      | none => exact ⟨none, rfl⟩
      | some g =>
        rw [hm, eq_comm] at hsame
        obtain ⟨f, hf, hschema⟩ := Option.map_eq_some_iff.mp hsame
        rw [hf] at htable
        exact exists_deleteRows hschema.symm htable
    obtain ⟨hschema', hrows'⟩ := deleteRows_eq_ok htable'
    refine ⟨_, bind_eq_ok.mpr ⟨_, hvalid, bind_eq_ok.mpr ⟨table', htable', rfl⟩⟩, rfl, ?_, ?_⟩
    · rw [hschema', hschema, hagree.schema]
    · rw [hrows, hrows']
      exact hagree.rows.filter _

theorem lookup_removed (h : removeDocuments s run = .ok t) (d : String) :
    t.state.lookup d = if d ∈ run.ids then s.state.lookup d else none := by
  rw [(removeDocuments_eq_ok h).2, StateTable.lookup_delete]
  by_cases hd : d ∈ run.ids
  · have hkept : d ∉ removedIds s.state run := fun hmem =>
      of_decide_eq_true (List.mem_filter.mp hmem).2 hd
    rw [if_neg hkept, if_pos hd]
  · rw [if_neg hd]
    split
    · rfl
    · rename_i hkept
      by_contra hsome
      refine hkept (List.mem_filter.mpr ⟨?_, decide_eq_true hd⟩)
      exact Keyed.mem_iff_isSome.mpr (Option.isSome_iff_ne_none.mpr hsome)

theorem rowsAt_removed (h : removeDocuments s run = .ok t) {d : String} (hd : d ∈ run.ids) :
    rowsAt "document_id" (rowsOf t.table) d = rowsAt "document_id" (rowsOf s.table) d := by
  have hkept : d ∉ removedIds s.state run := fun hmem => of_decide_eq_true (List.mem_filter.mp hmem).2 hd
  rw [rowsAt_deleteRows (removeDocuments_eq_ok h).1, if_neg hkept]

/-- The removed documents have no rows any more. -/
theorem Holds.remove (hp : Holds job runs s) (h : removeDocuments s run = .ok t) :
    Holds job runs t := by
  obtain ⟨hdelete, hstate⟩ := removeDocuments_eq_ok h
  obtain ⟨hschema, hrows⟩ := deleteRows_eq_ok hdelete
  refine ⟨fun d v hv => ?_, fun row hrow => ?_, fun f hf => ?_⟩
  · have hlookup := lookup_removed h d
    rw [hv] at hlookup
    split at hlookup
    · rename_i hd
      rw [rowsAt_removed h hd]
      exact hp.rows d v hlookup.symm
    · cases hlookup
  · rw [hrows] at hrow
    obtain ⟨hrow, hkept⟩ := List.mem_filter.mp hrow
    obtain ⟨d, v, htext, hv⟩ := hp.others row hrow
    refine ⟨d, v, htext, ?_⟩
    have hkept : d ∉ removedIds s.state run := fun hmem => of_decide_eq_true hkept
      ⟨.string d, List.mem_map_of_mem hmem, Cell.equals_string.mpr htext⟩
    rw [hstate, StateTable.lookup_delete, if_neg hkept, hv]
  · rw [hf, Option.map_some, eq_comm] at hschema
    obtain ⟨g, hg, hsame⟩ := Option.map_eq_some_iff.mp hschema
    rw [← hsame]
    exact hp.idColumn g hg

/-! ### One run -/

section Batch

variable {policy : OnSchemaChange} {batch : List (DocumentRef × ExtractionResult)}
  (hstring : ∀ d, job.assign "String" (.string d) = some (.string d)) (hne : batch ≠ [])

theorem mem_docsToProcess {state : StateTable} {e : DocumentRef × ExtractionResult} :
    e ∈ docsToProcess state run ↔
      e ∈ run.docs ∧ state.lookup e.1.documentId ≠ some (stateRecord run.stamp e.1).value := by
  rw [docsToProcess, List.mem_filter, decide_eq_true_iff]

theorem eq_of_documentId {e e' : DocumentRef × ExtractionResult} (he : e ∈ run.docs) (he' : e' ∈ run.docs)
    (hid : e.1.documentId = e'.1.documentId) : e = e' :=
  List.inj_on_of_nodup_map run.nodup he he' hid

theorem mem_ids {e : DocumentRef × ExtractionResult} (he : e ∈ run.docs) : e.1.documentId ∈ run.ids :=
  List.mem_map_of_mem (f := fun e : DocumentRef × ExtractionResult => e.1.documentId) he

/-- The state after a publication. -/
theorem Publishes.lookup (h : Publishes job strategy policy run batch t r) :
    (∀ e ∈ batch, r.state.lookup e.1.documentId = some (stateRecord run.stamp e.1).value) ∧
      ∀ d ∉ batch.map fun e => e.1.documentId, r.state.lookup d = t.state.lookup d := by
  obtain ⟨frame, table, -, -, hrecords, rfl⟩ := h
  have hnodup : ((batch.map fun e => stateRecord run.stamp e.1).map (·.recordKey)).Nodup := by
    unfold validateStateRecords at hrecords
    split at hrecords
    · assumption
    · cases hrecords
  refine ⟨fun e he => ?_, fun d hd => ?_⟩
  · exact StateTable.lookup_upsert hnodup (List.mem_map_of_mem (f := fun e => stateRecord run.stamp e.1) he)
  · refine StateTable.lookup_upsert_of_notMem ?_
    rwa [List.map_map]

include hstring hne in
/-- The rows after a publication. -/
theorem Publishes.rows (hid : IdColumn t.table)
    (h : Publishes job (.insertOverwrite pb) policy run batch t r) :
    ∃ frame stored, stageFlush job.env job.model run.stamp (batch.map withResult) = .ok (some frame, []) ∧
      IdColumn r.table ∧ rowsOf r.table = ((rowsOf t.table).filter fun row =>
        ¬ InPartitions job.trunc pb frame.rows row) ++ stored ∧
      List.Forall₂ (fun e row => row "document_id" = .string e.1.documentId) batch frame.rows ∧
      List.Forall₂ (fun e row => (row "document_id").text = some e.1.documentId ∧ Written job run e row)
        batch stored := by
  obtain ⟨frame, table, hstaged, hmaterialize, hrecords, rfl⟩ := h
  obtain ⟨frame', heq, hframe, -⟩ := stageFlush_eq_ok hne hstaged
  obtain rfl : frame = frame' := Option.some.inj (Prod.mk.inj heq).1
  have hbatch := rows_of_flush hframe
  have hheight : (frame.typed (job.dtype frame)).height ≠ 0 := fun hzero =>
    hne (List.length_eq_zero_iff.mp (hbatch.length_eq.trans hzero))
  have hids : ∀ row ∈ (frame.typed (job.dtype frame)).rows, ∃ d, row "document_id" = .string d := by
    intro row hrow
    obtain ⟨e, -, hrow, -⟩ := exists_of_mem_right hbatch hrow
    exact ⟨_, hrow⟩
  obtain ⟨store, hidColumn, hrows, hstore⟩ := materialize_overwrites hstring hheight hids hid
    (lookup_typed ((hframe.columns _).mpr (.inl declared_documentId))) hmaterialize
  refine ⟨frame, frame.rows.map store, hstaged, hidColumn, hrows, hbatch.imp fun e row h => h.1, ?_⟩
  rw [List.forall₂_map_right_iff]
  have hall : List.Forall₂ (fun row e => row ∈ frame.rows ∧ row "document_id" = .string e.1.documentId ∧
      ∃ found, RowFound job.env job.model found (extractionRecord run.stamp e.1 e.2) row)
      frame.rows batch := (List.forall₂_and_left _ _).mpr ⟨fun _ h => h, hbatch.flip⟩
  refine hall.flip.imp fun e row ⟨hrow, hid, found, hfound⟩ => ?_
  obtain ⟨hkept, hwritten⟩ := hstore row hrow
  exact ⟨by rw [hkept, hid]; rfl, found, row, hfound, hwritten⟩

variable {rows : List Row}
  (hrows : ∀ frame, stageFlush job.env job.model run.stamp (batch.map withResult) = .ok (some frame, []) →
    frame.rows = rows)
  (hcleared : ∀ e ∈ batch, ∀ row ∈ rowsAt "document_id" (rowsOf t.table) e.1.documentId,
    InPartitions job.trunc pb rows row)
  (htogether : ∀ d ∉ batch.map fun e => e.1.documentId, ∀ row ∈ rowsAt "document_id" (rowsOf t.table) d,
    ¬ InPartitions job.trunc pb rows row)

include hstring hne hrows hcleared htogether in
/-- After a publication that clears the old rows of its documents, and no others, the target holds what
is recorded. -/
theorem Holds.publish (hp : Holds job runs t) (hnodup : (batch.map fun e => e.1.documentId).Nodup)
    (hsub : ∀ e ∈ batch, e ∈ run.docs) (h : Publishes job (.insertOverwrite pb) policy run batch t r) :
    Holds job (runs ++ [run]) r := by
  obtain ⟨frame, stored, hstaged, hid, hresult, -, hstored⟩ := h.rows hstring hne hp.idColumn
  obtain rfl := hrows frame hstaged
  obtain ⟨hchanged, hkept⟩ := h.lookup
  have hlater : ∀ d ∉ batch.map fun e => e.1.documentId, rowsAt "document_id" stored d = [] := by
    refine fun d hd => rowsAt_eq_nil fun row hrow htext => hd ?_
    obtain ⟨e, he, hid, -⟩ := exists_of_mem_right hstored hrow
    exact List.mem_map.mpr ⟨e, he, Option.some.inj (hid.symm.trans htext)⟩
  refine ⟨fun d v hv => ?_, fun row hrow => ?_, hid⟩
  · rw [hresult, rowsAt_append]
    by_cases hd : d ∈ batch.map fun e => e.1.documentId
    · obtain ⟨e, he, rfl⟩ := List.mem_map.mp hd
      obtain rfl := Option.some.inj ((hchanged e he).symm.trans hv)
      obtain ⟨row, hrow, hwritten⟩ := rowsAt_of_forall₂ hstored hnodup he
      rw [rowsAt_filter_eq_nil fun row hrow => decide_eq_false (not_not.mpr (hcleared e he row hrow)), hrow]
      exact ⟨row, rfl, run, List.mem_append_right _ List.mem_cons_self, e, hsub e he, rfl, hwritten⟩
    · rw [hkept d hd] at hv
      obtain ⟨row, hrow, hwritten⟩ := hp.rows d v hv
      rw [hlater d hd, List.append_nil,
        rowsAt_filter_eq fun row hrow => decide_eq_true (htogether d hd row hrow), hrow]
      exact ⟨row, rfl, hwritten.mono run⟩
  · rw [hresult] at hrow
    rcases List.mem_append.mp hrow with hrow | hrow
    · obtain ⟨hrow, hout⟩ := List.mem_filter.mp hrow
      obtain ⟨d, v, htext, hv⟩ := hp.others row hrow
      have hd : d ∉ batch.map fun e => e.1.documentId := by
        intro hd
        obtain ⟨e, he, rfl⟩ := List.mem_map.mp hd
        exact of_decide_eq_true hout (hcleared e he row (mem_rowsAt.mpr ⟨hrow, htext⟩))
      exact ⟨d, v, htext, (hkept d hd).trans hv⟩
    · obtain ⟨e, he, htext, -⟩ := exists_of_mem_right hstored hrow
      exact ⟨_, _, htext, hchanged e he⟩

include hstring hne hrows hcleared htogether in
/-- `merge` publishes the same. -/
theorem Publishes.merge (hp : Holds job runs t)
    (h : Publishes job (.insertOverwrite pb) policy run batch t r) (hagree : Agree t m) :
    ∃ r', Publishes job .merge policy run batch m r' ∧ Agree r r' := by
  obtain ⟨frame, stored, hstaged, -, -, hbatch, -⟩ := h.rows hstring hne hp.idColumn
  obtain rfl := hrows frame hstaged
  obtain ⟨frame', table, hstaged', hmaterialize, hrecords, rfl⟩ := h
  obtain rfl : frame = frame' := by
    rw [hstaged] at hstaged'
    exact Option.some.inj (Prod.mk.inj (Except.ok.inj hstaged')).1
  have hheight : (frame.typed (job.dtype frame)).height ≠ 0 := fun hzero =>
    hne (List.length_eq_zero_iff.mp (hbatch.length_eq.trans hzero))
  have hids : ∀ row ∈ (frame.typed (job.dtype frame)).rows, ∃ d, row "document_id" = .string d := by
    intro row hrow
    obtain ⟨e, -, hrow⟩ := exists_of_mem_right hbatch hrow
    exact ⟨_, hrow⟩
  have hpartitions : ∀ row ∈ rowsOf t.table, InPartitions job.trunc pb frame.rows row ↔
      ∃ s ∈ frame.rows, KeyMatch "document_id" row s := by
    intro row hrow
    obtain ⟨d, v, htext, -⟩ := hp.others row hrow
    by_cases hd : d ∈ batch.map fun e => e.1.documentId
    · obtain ⟨e, he, rfl⟩ := List.mem_map.mp hd
      obtain ⟨s, hs, hid⟩ := exists_of_mem_left hbatch he
      exact iff_of_true (hcleared e he row (mem_rowsAt.mpr ⟨hrow, htext⟩))
        ⟨s, hs, _, htext, by rw [hid]; rfl⟩
    · refine iff_of_false (htogether d hd row (mem_rowsAt.mpr ⟨hrow, htext⟩)) ?_
      rintro ⟨s, hs, key, hkey, hkey'⟩
      obtain ⟨e, he, hid⟩ := exists_of_mem_right hbatch hs
      rw [hid] at hkey'
      obtain rfl := Option.some.inj (htext.symm.trans hkey)
      exact hd (List.mem_map.mpr ⟨e, he, Option.some.inj hkey'⟩)
  obtain ⟨table', hmaterialize', hschema, hperm⟩ := materialize_merge hstring hheight hids hp.idColumn
    hp.keyed hpartitions hagree.schema hagree.rows hmaterialize
  exact ⟨_, ⟨frame, table', hstaged, hmaterialize', hrecords, rfl⟩, by rw [hagree.state], hschema, hperm⟩

end Batch

theorem batchRows_eq {frame : UntypedFrame} (h : stageFlush job.env job.model run.stamp
    ((docsToProcess s.state run).map withResult) = .ok (some frame, [])) :
    frame.rows = batchRows job s run := by
  rw [batchRows, h]

theorem Agree.emptyTarget (h : Agree s m) : emptyIncrementalTarget m = emptyIncrementalTarget s := by
  have hschema := h.schema
  have hrows := h.rows.length_eq
  unfold emptyIncrementalTarget
  rw [h.state]
  cases hs : s.table with
  | none =>
    rw [hs] at hschema
    rw [Option.map_eq_none_iff.mp hschema]
  | some f =>
    rw [hs] at hschema hrows
    obtain ⟨g, hg, -⟩ := Option.map_eq_some_iff.mp hschema
    rw [hg] at hrows ⊢
    have hrows : f.height = g.height := hrows
    rw [Option.any_some, Option.any_some, hrows]

theorem Agree.table_eq_none (h : Agree s m) : m.table = none ↔ s.table = none := by
  rw [← Option.map_eq_none_iff (f := Frame.schema), h.schema, Option.map_eq_none_iff]

/-- What the state records after a run. -/
theorem recorded_of_lookup (ht : removeDocuments s run = .ok t)
    (hchanged : ∀ e ∈ docsToProcess s.state run,
      r.state.lookup e.1.documentId = some (stateRecord run.stamp e.1).value)
    (hkept : ∀ d ∉ (docsToProcess s.state run).map fun e => e.1.documentId,
      r.state.lookup d = t.state.lookup d) : Recorded run r := by
  have hlookup : ∀ e ∈ run.docs, r.state.lookup e.1.documentId =
      some (stateRecord run.stamp e.1).value := by
    intro e he
    by_cases hprocess : e ∈ docsToProcess s.state run
    · exact hchanged e hprocess
    · have hout : e.1.documentId ∉ (docsToProcess s.state run).map fun e => e.1.documentId := by
        intro hmem
        obtain ⟨e', he', hid⟩ := List.mem_map.mp hmem
        exact hprocess (eq_of_documentId (mem_docsToProcess.mp he').1 he hid ▸ he')
      have hstate : s.state.lookup e.1.documentId = some (stateRecord run.stamp e.1).value := by
        by_contra hne
        exact hprocess (mem_docsToProcess.mpr ⟨he, hne⟩)
      rw [hkept _ hout, lookup_removed ht, if_pos (mem_ids he), hstate]
  intro d v
  constructor
  · intro hv
    by_cases hd : d ∈ run.ids
    · obtain ⟨e, he, rfl⟩ := List.mem_map.mp hd
      exact ⟨e, he, rfl, Option.some.inj ((hlookup e he).symm.trans hv)⟩
    · have hout : d ∉ (docsToProcess s.state run).map fun e => e.1.documentId := fun hmem => by
        obtain ⟨e, he, rfl⟩ := List.mem_map.mp hmem
        exact hd (mem_ids (mem_docsToProcess.mp he).1)
      rw [hkept d hout, lookup_removed ht, if_neg hd] at hv
      cases hv
  · rintro ⟨e, he, rfl, rfl⟩
    exact hlookup e he

theorem Agree.oneFlush (h : Agree s m) (hone : OneFlush job s run) : OneFlush job m run := by
  rwa [OneFlush, h.state]

theorem Holds.mono (h : Holds job runs s) (run : SourceRun) : Holds job (runs ++ [run]) s where
  rows d v hv := (h.rows d v hv).imp fun _ hrow => ⟨hrow.1, hrow.2.mono run⟩
  others := h.others
  idColumn := h.idColumn

/-- A run without changed documents only deletes rows, or creates the table. -/
theorem holds_step_unchanged (hp : Holds job runs s) (hone : OneFlush job s run)
    (hnil : docsToProcess s.state run = [])
    (hok : extractIncremental job (.insertOverwrite pb) s run = .ok r) :
    Holds job (runs ++ [run]) r ∧ Recorded run r ∧
      ∀ m, Agree s m → ∃ m', extractIncremental job .merge m run = .ok m' ∧ Agree r m' := by
  obtain ⟨t, ht, h⟩ := (extractIncremental_eq_ok hone).mp hok
  rw [if_pos hnil] at h
  have hrecorded : ∀ {u : Target}, u.state = t.state → Recorded run u := fun hu =>
    recorded_of_lookup ht (by simp [hnil]) fun d _ => by rw [hu]
  split at h
  · rename_i hdocs
    obtain ⟨frame, table, hframe, htable, rfl⟩ := h
    obtain ⟨-, rfl⟩ := materializeFull_eq_ok htable
    have hempty : frame.rows = [] ∧ "document_id" ∈ frame.columns := by
      unfold emptyExtractionFrame at hframe
      split at hframe
      · cases hframe
      · rename_i schema hschema
        obtain rfl := Except.ok.inj hframe
        exact ⟨rfl, ((extractionSchema_eq_ok hschema).2 _).mpr declared_documentId⟩
    have hnone : ∀ d v, t.state.lookup d ≠ some v := by
      intro d v hv
      obtain ⟨e, he, -⟩ := (hrecorded rfl d v).mp hv
      rw [hdocs.1] at he
      cases he
    refine ⟨⟨fun d v hv => absurd hv (hnone d v), fun row hrow => ?_, fun f hf => ?_⟩, hrecorded rfl,
      fun m hagree => ?_⟩
    · have hrow : row ∈ frame.rows := hrow
      rw [hempty.1] at hrow
      cases hrow
    · obtain rfl := Option.some.inj hf
      exact lookup_typed hempty.2
    · obtain ⟨t', ht', hagree'⟩ := removeDocuments_agree ht hagree
      refine ⟨{ t' with table := some (frame.typed (job.dtype frame)) },
        (extractIncremental_eq_ok (hagree.oneFlush hone)).mpr ⟨t', ht', ?_⟩, hagree'.state, rfl, .refl _⟩
      rw [hagree.state, if_pos hnil, if_pos ⟨hdocs.1, hagree.table_eq_none.mpr hdocs.2⟩]
      exact ⟨frame, _, hframe, htable, rfl⟩
  · rename_i hdocs
    subst h
    refine ⟨(hp.remove ht).mono run, hrecorded rfl, fun m hagree => ?_⟩
    obtain ⟨t', ht', hagree'⟩ := removeDocuments_agree ht hagree
    refine ⟨t', (extractIncremental_eq_ok (hagree.oneFlush hone)).mpr ⟨t', ht', ?_⟩, hagree'⟩
    rw [hagree.state, if_pos hnil, if_neg fun hm => hdocs ⟨hm.1, hagree.table_eq_none.mp hm.2⟩]

section Main

variable (hstring : ∀ d, job.assign "String" (.string d) = some (.string d))

include hstring in
/-- A run that is cleared leaves one row for each document, and `merge` leaves the same. -/
theorem holds_step (hp : Holds job runs s) (hone : OneFlush job s run) (htogether : Together job pb s run)
    (hcleared : Cleared job pb s run) (hok : extractIncremental job (.insertOverwrite pb) s run = .ok r) :
    Holds job (runs ++ [run]) r ∧ Recorded run r ∧
      ∀ m, Agree s m → ∃ m', extractIncremental job .merge m run = .ok m' ∧ Agree r m' := by
  by_cases hnil : docsToProcess s.state run = []
  · exact holds_step_unchanged hp hone hnil hok
  obtain ⟨t, ht, h⟩ := (extractIncremental_eq_ok hone).mp hok
  have hpt := hp.remove ht
  rw [if_neg hnil] at h
  -- the rows of the discovered documents are those that were there before the deletion
  have hcleared' : ∀ e ∈ docsToProcess s.state run,
      ∀ row ∈ rowsAt "document_id" (rowsOf t.table) e.1.documentId,
        InPartitions job.trunc pb (batchRows job s run) row := by
    intro e he row hrow
    rw [rowsAt_removed ht (mem_ids (mem_docsToProcess.mp he).1)] at hrow
    exact hcleared e he row hrow
  have htogether' : ∀ d ∉ (docsToProcess s.state run).map fun e => e.1.documentId,
      ∀ row ∈ rowsAt "document_id" (rowsOf t.table) d,
        ¬ InPartitions job.trunc pb (batchRows job s run) row := by
    intro d hd row hrow
    obtain ⟨d', v, htext, hv⟩ := hpt.others row (mem_rowsAt.mp hrow).1
    obtain rfl := Option.some.inj ((mem_rowsAt.mp hrow).2.symm.trans htext)
    rw [lookup_removed ht] at hv
    split at hv
    · rename_i hids
      obtain ⟨e, he, rfl⟩ := List.mem_map.mp hids
      rw [rowsAt_removed ht hids] at hrow
      exact htogether e he (fun hmem => hd (List.mem_map_of_mem hmem)) row hrow
    · cases hv
  have hnodup : ((docsToProcess s.state run).map fun e => e.1.documentId).Nodup :=
    run.nodup.sublist (List.filter_sublist.map _)
  obtain ⟨hchanged, hkept⟩ := h.lookup
  refine ⟨hpt.publish hstring hnil (fun _ => batchRows_eq) hcleared' htogether' hnodup
    (fun e he => (mem_docsToProcess.mp he).1) h, recorded_of_lookup ht hchanged hkept, fun m hagree => ?_⟩
  obtain ⟨t', ht', hagree'⟩ := removeDocuments_agree ht hagree
  obtain ⟨r', hr', hagree''⟩ := h.merge hstring hnil (fun _ => batchRows_eq) hcleared' htogether' hpt hagree'
  refine ⟨r', (extractIncremental_eq_ok (hagree.oneFlush hone)).mpr ⟨t', ht', ?_⟩, hagree''⟩
  rw [hagree.state, if_neg hnil, hagree.emptyTarget]
  exact hr'

include hstring in
/-- A run that is not cleared leaves a second row for a document. -/
theorem two_rows (hid : IdColumn s.table) (hone : OneFlush job s run)
    (hok : extractIncremental job (.insertOverwrite pb) s run = .ok r) {e : DocumentRef × ExtractionResult}
    (he : e ∈ docsToProcess s.state run) {row : Row}
    (hrow : row ∈ rowsAt "document_id" (rowsOf s.table) e.1.documentId)
    (hout : ¬ InPartitions job.trunc pb (batchRows job s run) row) :
    1 < (rowsAt "document_id" (rowsOf r.table) e.1.documentId).length := by
  obtain ⟨t, ht, h⟩ := (extractIncremental_eq_ok hone).mp hok
  have hne : docsToProcess s.state run ≠ [] := List.ne_nil_of_mem he
  rw [if_neg hne] at h
  have hidt : IdColumn t.table := by
    intro f hf
    obtain ⟨hschema, -⟩ := deleteRows_eq_ok (removeDocuments_eq_ok ht).1
    rw [hf, Option.map_some, eq_comm] at hschema
    obtain ⟨g, hg, hsame⟩ := Option.map_eq_some_iff.mp hschema
    rw [← hsame]
    exact hid g hg
  obtain ⟨frame, stored, hstaged, -, hresult, -, hstored⟩ := h.rows hstring hne hidt
  rw [← batchRows_eq hstaged] at hout
  rw [← rowsAt_removed ht (mem_ids (mem_docsToProcess.mp he).1)] at hrow
  obtain ⟨hmem, htext⟩ := mem_rowsAt.mp hrow
  have hold : row ∈ rowsAt "document_id"
      ((rowsOf t.table).filter fun row => ¬ InPartitions job.trunc pb frame.rows row) e.1.documentId :=
    mem_rowsAt.mpr ⟨List.mem_filter.mpr ⟨hmem, decide_eq_true hout⟩, htext⟩
  obtain ⟨row', hrow', htext', -⟩ := exists_of_mem_left hstored he
  have hnew : row' ∈ rowsAt "document_id" stored e.1.documentId := mem_rowsAt.mpr ⟨hrow', htext'⟩
  rw [hresult, rowsAt_append, List.length_append]
  have := List.length_pos_of_mem hold
  have := List.length_pos_of_mem hnew
  omega

/-! ### Runs one after another -/

theorem history_append {before : List SourceRun} : history job strategy (before ++ [run]) = .ok r ↔
    ∃ s, history job strategy before = .ok s ∧ extractIncremental job strategy s run = .ok r := by
  rw [history, List.foldlM_append, bind_eq_ok]
  refine exists_congr fun s => and_congr_right fun _ => ?_
  rw [List.foldlM_cons, bind_eq_ok]
  constructor
  · rintro ⟨r', hr', h⟩
    exact Except.ok.inj h ▸ hr'
  · exact fun h => ⟨r, h, rfl⟩

theorem history_prefix {before : List SourceRun} (h : (history job strategy runs).isOk)
    (hbefore : before <+: runs) : ∃ s, history job strategy before = .ok s := by
  obtain ⟨rest, rfl⟩ := hbefore
  obtain ⟨r, hr⟩ := exists_eq_ok_of_isOk h
  rw [history, List.foldlM_append] at hr
  obtain ⟨s, hs, -⟩ := bind_eq_ok.mp hr
  exact ⟨s, hs⟩

include hstring in
/-- What runs leave that are all cleared. -/
theorem holds_history (before : List SourceRun)
    (hcontracts : RespectsContracts job pb before) (hcleared : AllCleared job pb before)
    (h : history job (.insertOverwrite pb) before = .ok s) :
    Holds job before s ∧ ∃ m, history job .merge before = .ok m ∧ Agree s m := by
  induction before using List.reverseRecOn generalizing s with
  | nil =>
    obtain rfl := Except.ok.inj h
    exact ⟨published_new, {}, rfl, rfl, rfl, .refl _⟩
  | append_singleton before run ih =>
    obtain ⟨u, hu, hstep⟩ := history_append.mp h
    have hwithin : ∀ {earlier}, earlier <+: before → earlier <+: before ++ [run] := fun h =>
      h.trans (List.prefix_append _ _)
    obtain ⟨hholds, m, hm, hagree⟩ := ih (fun earlier run' s h => hcontracts earlier run' s (hwithin h))
      (fun earlier run' s h => hcleared earlier run' s (hwithin h)) hu
    obtain ⟨hone, htogether⟩ := hcontracts before run u List.prefix_rfl hu
    obtain ⟨hholds', -, hmerge⟩ := holds_step hstring hholds hone htogether
      (hcleared before run u List.prefix_rfl hu) hstep
    obtain ⟨m', hm', hagree'⟩ := hmerge m hagree
    exact ⟨hholds', m', history_append.mpr ⟨m, hm, hm'⟩, hagree'⟩

/-- **One row for each document.** In a history of completed runs that respects the contracts, every run
leaves one row for each of its documents, with its current values, those that `merge` would leave,
exactly if in every run the stored row of each changed document is in a partition of the batch. A row
without a partition value is in none. -/
theorem oneRowPerDocument_iff (job : Job) (pb : PartitionBy) (runs : List SourceRun)
    (hstring : ∀ d, job.assign "String" (.string d) = some (.string d))
    (hcompleted : (history job (.insertOverwrite pb) runs).isOk)
    (hcontracts : RespectsContracts job pb runs) :
    AlwaysOneRow job pb runs ↔ AllCleared job pb runs := by
  have hwithin : ∀ {before : List SourceRun}, before <+: runs → RespectsContracts job pb before :=
    fun hbefore earlier run s h => hcontracts earlier run s (h.trans hbefore)
  constructor
  · intro hone
    have hall : ∀ before, before <+: runs → AllCleared job pb before := by
      intro before
      induction before using List.reverseRecOn with
      | nil =>
        intro _ earlier run s h
        exact absurd (List.prefix_nil.mp h) (by simp)
      | append_singleton before last ih =>
        intro hbefore earlier run s h hs
        have hbefore' := (List.prefix_append before [last]).trans hbefore
        rcases List.prefix_concat_iff.mp h with heq | h
        · obtain ⟨rfl, rfl⟩ := List.append_singleton_inj.mp heq
          obtain ⟨r, hr⟩ := history_prefix hcompleted hbefore
          obtain ⟨s', hs', hstep⟩ := history_append.mp hr
          obtain rfl := Except.ok.inj (hs.symm.trans hs')
          obtain ⟨hholds, -⟩ := holds_history hstring earlier (hwithin hbefore') (ih hbefore') hs
          intro e he row hrow
          by_contra hout
          have htwo := two_rows hstring hholds.idColumn (hcontracts earlier run s hbefore hs).1 hstep he hrow
            hout
          obtain ⟨row', hrow', -⟩ := (hone earlier run r hbefore hr).rows e (mem_docsToProcess.mp he).1
          rw [hrow', List.length_singleton] at htwo
          exact lt_irrefl _ htwo
        · exact ih hbefore' earlier run s h hs
    exact fun before run s h => hall (before ++ [run]) h before run s List.prefix_rfl
  · intro hcleared before run t hbefore ht
    have hbefore' := (List.prefix_append before [run]).trans hbefore
    obtain ⟨s, hs, hstep⟩ := history_append.mp ht
    obtain ⟨hholds, m, hm, hagree⟩ := holds_history hstring before (hwithin hbefore')
      (fun earlier run' s' h => hcleared earlier run' s' (h.trans hbefore')) hs
    obtain ⟨hone, htogether⟩ := hcontracts before run s hbefore hs
    obtain ⟨hholds', hrecorded, hmerge⟩ := holds_step hstring hholds hone htogether
      (hcleared before run s hbefore hs) hstep
    obtain ⟨m', hm', hagree'⟩ := hmerge m hagree
    refine ⟨fun e he => hholds'.rows _ _ ((hrecorded _ _).mpr ⟨e, he, rfl, rfl⟩), fun row hrow => ?_,
      m', history_append.mpr ⟨m, hm, hm'⟩, hagree'.rows⟩
    obtain ⟨d, v, htext, hv⟩ := hholds'.others row hrow
    obtain ⟨e, he, rfl, -⟩ := (hrecorded d v).mp hv
    exact ⟨e, he, htext⟩

end Main

/-! ### Two runs -/

theorem prefix_two {α : Type} {before : List α} {x a b : α} (h : before ++ [x] <+: [a, b]) :
    before = [] ∧ x = a ∨ before = [a] ∧ x = b := by
  rcases before with _ | ⟨y, _ | ⟨z, before⟩⟩
  · exact .inl ⟨rfl, (List.cons_prefix_cons.mp h).1⟩
  · simp only [List.cons_append, List.nil_append, List.cons_prefix_cons, List.prefix_nil, and_true] at h
    exact .inr ⟨congrArg (fun y => [y]) h.1, h.2⟩
  · simp [List.cons_prefix_cons] at h

/-- Two runs that extract all their documents, in one flush each, respect the contracts. -/
theorem contracts_two {first second : SourceRun} (hfirst : OneFlush job {} first)
    (hsecond : ((history job (.insertOverwrite pb) [first]).toOption.all fun s : Target =>
      decide (OneFlush job s second ∧
        ∀ e ∈ second.docs, s.state.lookup e.1.documentId ≠ some (stateRecord second.stamp e.1).value)) =
      true) : RespectsContracts job pb [first, second] := by
  intro before run s h hs
  rcases prefix_two h with ⟨rfl, rfl⟩ | ⟨rfl, rfl⟩
  · obtain rfl := Except.ok.inj hs
    refine ⟨hfirst, fun e he hout => absurd (mem_docsToProcess.mpr ⟨he, ?_⟩) hout⟩
    exact fun hstate => Option.some_ne_none _ (hstate.symm.trans (AList.lookup_empty _))
  · rw [hs] at hsecond
    obtain ⟨hone, hchanged⟩ := of_decide_eq_true hsecond
    exact ⟨hone, fun e he hout => absurd (mem_docsToProcess.mpr ⟨he, hchanged e he⟩) hout⟩

end Step

/-- A model of filings, partitioned by day. -/
def filings : Job where
  env := plainEnv
  model := ⟨"filings", []⟩
  dtype := fun _ _ => "Date"
  policy := .fail
  batching := .perDocument
  flushEvery := 5000
  publishEvery := 1
  assign := fun _ cell => some cell
  trunc := fun _ _ value => value
  accepts := fun _ => true
  targetIsIceberg := false
  declaredIceberg := false

/-- The partitioning of the filings. -/
def byFilingDate : PartitionBy where
  field := "filed_on"

/-- A run over one filing with some content and date. -/
def filingRun (content : String) (date : Cell) : SourceRun where
  docs := [(⟨"a", "a.html", "file:a.html", content, none⟩, ⟨[("filed_on", date)]⟩)]
  stamp := ⟨"v", "html", "1", "now"⟩
  nodup := List.nodup_singleton _

/-- A filing that is edited and keeps its date has one row after each run. -/
theorem oneRowPerDocument_edited : AlwaysOneRow filings byFilingDate
    [filingRun "1" (.other "2026-01-01"), filingRun "2" (.other "2026-01-01")] := by
  have hcompleted : (history filings (.insertOverwrite byFilingDate)
      [filingRun "1" (.other "2026-01-01"), filingRun "2" (.other "2026-01-01")]).isOk := by
    decide +kernel
  have hcleared : ((history filings (.insertOverwrite byFilingDate)
      [filingRun "1" (.other "2026-01-01")]).toOption.all fun s : Target =>
        decide (Cleared filings byFilingDate s (filingRun "2" (.other "2026-01-01")))) = true := by
    decide +kernel
  refine (oneRowPerDocument_iff filings byFilingDate _ (fun _ => rfl) hcompleted
    (contracts_two (by decide +kernel) (by decide +kernel))).mpr ?_
  intro before run s h hs
  rcases prefix_two h with ⟨rfl, rfl⟩ | ⟨rfl, rfl⟩
  · obtain rfl := Except.ok.inj hs
    intro e _ row hrow
    cases hrow
  · rw [hs] at hcleared
    exact of_decide_eq_true hcleared

/-- A filing that moves to another date, and one that never has a date, have two rows after their second
run. -/
theorem oneRowPerDocument_fails :
    ((history filings (.insertOverwrite byFilingDate)
        [filingRun "1" (.other "2026-01-01"), filingRun "2" (.other "2026-01-02")]).isOk ∧
      RespectsContracts filings byFilingDate
        [filingRun "1" (.other "2026-01-01"), filingRun "2" (.other "2026-01-02")] ∧
      ¬ AlwaysOneRow filings byFilingDate
        [filingRun "1" (.other "2026-01-01"), filingRun "2" (.other "2026-01-02")]) ∧
    (history filings (.insertOverwrite byFilingDate) [filingRun "1" .null, filingRun "2" .null]).isOk ∧
      RespectsContracts filings byFilingDate [filingRun "1" .null, filingRun "2" .null] ∧
      ¬ AlwaysOneRow filings byFilingDate [filingRun "1" .null, filingRun "2" .null] := by
  have htwo : ∀ first second, (history filings (.insertOverwrite byFilingDate) [first, second]).isOk →
      (history filings (.insertOverwrite byFilingDate) [first, second]).toOption.all (fun t : Target =>
        decide ((rowsAt "document_id" (rowsOf t.table) "a").length = 2 ∧
          ∃ e ∈ second.docs, e.1.documentId = "a")) = true →
      ¬ AlwaysOneRow filings byFilingDate [first, second] := by
    intro first second hcompleted htwo hall
    obtain ⟨t, ht⟩ := exists_eq_ok_of_isOk hcompleted
    rw [ht] at htwo
    obtain ⟨hlength, e, he, hid⟩ := of_decide_eq_true htwo
    obtain ⟨row, hrow, -⟩ := (hall [first] second t List.prefix_rfl ht).rows e he
    rw [hid] at hrow
    rw [hrow] at hlength
    cases hlength
  have hmoved : (history filings (.insertOverwrite byFilingDate)
      [filingRun "1" (.other "2026-01-01"), filingRun "2" (.other "2026-01-02")]).isOk := by
    decide +kernel
  have hundated : (history filings (.insertOverwrite byFilingDate)
      [filingRun "1" .null, filingRun "2" .null]).isOk := by
    decide +kernel
  exact ⟨⟨hmoved, contracts_two (by decide +kernel) (by decide +kernel),
    htwo _ _ hmoved (by decide +kernel)⟩, hundated, contracts_two (by decide +kernel) (by decide +kernel),
    htwo _ _ hundated (by decide +kernel)⟩

end Stel.Execution.Extraction
