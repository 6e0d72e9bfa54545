import Stel.Execution.Documents
import Mathlib.Data.List.Dedup
import Mathlib.Data.List.Sort

/-!
# The rows of a full extraction run

`execution/extraction.py`: the results of a full run are cut into flushes, the records of a flush
become a frame, the frame is completed and projected by the declared fields, and the frames of all
flushes are unioned to the table that is published.

A frame is built from records with the columns found in the first `inferSchemaLength` of them, and
keys that first occur later are ignored. Every field has one scalar type, so that the frames of a
run have no conflicting types, and frames are modelled without the types of their columns.

## Main definitions

* `UntypedFrame`, `frameOf`, `UntypedFrame.union`: frames, from records, and of several flushes.
* `extractionSchema`, `applyContract`, `rowForExtraction`: the functions of the module.
* `extractFull`: the table that a full run publishes.

## Main results

* `flatten_flushes`: every document is in one flush.
* `extractionSchema_eq_ok`: the columns of the schema of a model.
-/

namespace Stel.Execution.Extraction

open Stel.Warehouse

/-! ### Slices -/

section Slices

variable {α : Type}

/-- `[xs[i : i + n] for i in range(0, len(xs), n)]`, for a positive `n`. -/
def slices (n : ℕ) : List α → List (List α)
  | [] => []
  | x :: xs => (x :: xs.take (n - 1)) :: slices n (xs.drop (n - 1))
termination_by xs => xs.length
decreasing_by simp only [List.length_drop, List.length_cons]; omega

theorem flatten_slices (n : ℕ) (xs : List α) : (slices n xs).flatten = xs := by
  induction xs using slices.induct n with
  | case1 => rw [slices, List.flatten_nil]
  | case2 x xs ih =>
    rw [slices, List.flatten_cons, ih, List.cons_append, List.take_append_drop]

theorem ne_nil_of_mem_slices {n : ℕ} {xs flush : List α} (h : flush ∈ slices n xs) : flush ≠ [] := by
  induction xs using slices.induct n with
  | case1 =>
    rw [slices] at h
    cases h
  | case2 x xs ih =>
    rw [slices] at h
    rcases List.mem_cons.mp h with rfl | h
    · exact List.cons_ne_nil _ _
    · exact ih h

theorem length_le_of_mem_slices {n : ℕ} (hn : 0 < n) {xs flush : List α}
    (h : flush ∈ slices n xs) : flush.length ≤ n := by
  induction xs using slices.induct n with
  | case1 =>
    rw [slices] at h
    cases h
  | case2 x xs ih =>
    rw [slices] at h
    rcases List.mem_cons.mp h with rfl | h
    · rw [List.length_cons, List.length_take]
      omega
    · exact ih h

theorem slices_map {β : Type} (f : α → β) (n : ℕ) (xs : List α) :
    slices n (xs.map f) = (slices n xs).map (List.map f) := by
  induction xs using slices.induct n with
  | case1 => rw [List.map_nil, slices, slices, List.map_nil]
  | case2 x xs ih =>
    rw [List.map_cons, slices, slices, List.map_cons, List.map_cons, List.map_take, ← ih,
      List.map_drop]

/-- A list that is not longer than the slices is one slice. -/
theorem slices_of_length_le {n : ℕ} {xs : List α} (hne : xs ≠ []) (hlen : xs.length ≤ n) :
    slices n xs = [xs] := by
  cases xs with
  | nil => exact absurd rfl hne
  | cons x xs =>
    rw [List.length_cons] at hlen
    rw [slices, List.take_of_length_le (by omega), List.drop_eq_nil_of_le (by omega), slices]

end Slices

/-! ### Frames -/

/-- A frame or a table without the types of its columns. -/
structure UntypedFrame where
  columns : List String
  rows : List Row
  nodup : columns.Nodup
  /-- A row has no cell outside the columns. -/
  blank : ∀ row ∈ rows, ∀ name ∉ columns, row name = .null

/-- A record: a dict, the first entry of a name being its value. -/
abbrev Record : Type := List (String × Cell)

/-- The keys of a record. -/
def Record.keys (record : Record) : List String := record.map Prod.fst

/-- The value of a record at a name. -/
def Record.cell (record : Record) (name : String) : Cell := (record.lookup name).getD .null

theorem Record.cell_of_notMem {record : Record} {name : String} (h : name ∉ record.keys) :
    record.cell name = .null := by
  have hlookup : record.lookup name = none := by
    rw [List.lookup_eq_none_iff]
    intro entry hentry
    rw [bne_iff_ne]
    rintro rfl
    exact h (List.mem_map_of_mem hentry)
  rw [Record.cell, hlookup, Option.getD_none]

/-- The number of records from which the columns of a frame are found. -/
def inferSchemaLength : ℕ := 100

/-- The columns of a frame from records. -/
def foundColumns (records : List Record) : List String :=
  ((records.take inferSchemaLength).flatMap Record.keys).dedup

theorem mem_foundColumns {records : List Record} {name : String} :
    name ∈ foundColumns records ↔ ∃ record ∈ records.take inferSchemaLength, name ∈ record.keys := by
  rw [foundColumns, List.mem_dedup, List.mem_flatMap]

/-- `pl.DataFrame(records)`. -/
def frameOf (records : List Record) : UntypedFrame where
  columns := foundColumns records
  rows := records.map fun record name =>
    if name ∈ foundColumns records then record.cell name else .null
  nodup := List.nodup_dedup _
  blank row hrow name hname := by
    obtain ⟨record, -, rfl⟩ := List.mem_map.mp hrow
    exact if_neg hname

namespace UntypedFrame

/-- The frame with the rows of another one below its own: columns that it lacks are added, and the
rows of each are `NULL` in the columns that only the other one has. -/
def union (f g : UntypedFrame) : UntypedFrame where
  columns := f.columns ++ g.columns.filter (· ∉ f.columns)
  rows := f.rows ++ g.rows
  nodup := by
    refine List.nodup_append'.mpr ⟨f.nodup, g.nodup.filter _, fun name hf hg => ?_⟩
    exact of_decide_eq_true (List.mem_filter.mp hg).2 hf
  blank row hrow name hname := by
    rw [List.mem_append, List.mem_filter, not_or] at hname
    rcases List.mem_append.mp hrow with hrow | hrow
    · exact f.blank row hrow name hname.1
    · exact g.blank row hrow name fun hg => hname.2 ⟨hg, decide_eq_true hname.1⟩

theorem mem_columns_union {f g : UntypedFrame} {name : String} :
    name ∈ (f.union g).columns ↔ name ∈ f.columns ∨ name ∈ g.columns := by
  show name ∈ f.columns ++ g.columns.filter (· ∉ f.columns) ↔ _
  rw [List.mem_append, List.mem_filter, decide_eq_true_iff]
  tauto

/-- `materialize_full_chunks`: the union of the chunks. -/
def unionAll (first : UntypedFrame) (chunks : List UntypedFrame) : UntypedFrame :=
  chunks.foldl union first

theorem mem_columns_unionAll {first : UntypedFrame} {chunks : List UntypedFrame} {name : String} :
    name ∈ (unionAll first chunks).columns ↔ ∃ f ∈ first :: chunks, name ∈ f.columns := by
  induction chunks generalizing first with
  | nil => simp [unionAll]
  | cons f chunks ih =>
    show name ∈ (unionAll (first.union f) chunks).columns ↔ _
    rw [ih]
    simp only [List.mem_cons, exists_eq_or_imp, mem_columns_union, or_assoc]

theorem rows_unionAll (first : UntypedFrame) (chunks : List UntypedFrame) :
    (unionAll first chunks).rows = (first :: chunks).flatMap rows := by
  induction chunks generalizing first with
  | nil => simp [unionAll]
  | cons f chunks ih =>
    show (unionAll (first.union f) chunks).rows = _
    rw [ih, List.flatMap_cons, List.flatMap_cons, List.flatMap_cons]
    show (first.rows ++ f.rows) ++ _ = _
    rw [List.append_assoc]

end UntypedFrame

/-! ### The contract -/

/-- The column types of an extracted table. -/
inductive PolarsType
  | string
  | int64
  | float64
  | boolean
  | date
  | datetime
  deriving DecidableEq, Repr

/-- The values of `data_type` of a declared field. -/
inductive FieldType
  | string
  | integer
  | float
  | boolean
  | date
  | timestamp
  | json
  | enum
  deriving DecidableEq, Repr

/-- `EXTRACTION_FIELD_DTYPES`. -/
def extractionFieldDtype : FieldType → PolarsType
  | .string => .string
  | .integer => .int64
  | .float => .float64
  | .boolean => .boolean
  | .date => .date
  | .timestamp => .datetime
  | .json => .string
  | .enum => .string

/-- `str(data_type)`. -/
def FieldType.text : FieldType → String
  | .string => "string"
  | .integer => "integer"
  | .float => "float"
  | .boolean => "boolean"
  | .date => "date"
  | .timestamp => "timestamp"
  | .json => "json"
  | .enum => "enum"

/-- A declared field. -/
structure FieldConfig where
  name : String
  dataType : Option FieldType := none

/-- What the rows of a run use of the model. -/
structure ModelConfig where
  name : String
  fields : List FieldConfig := []

/-- `_EXTRACTION_LINEAGE_SCHEMA`, all of type `pl.String`; its names are `INTERNAL_LINEAGE_FIELDS`. -/
def lineageFields : List String :=
  ["document_id", "source_path", "source_uri", "source_metadata", "content_hash", "code_version",
    "backend_name", "backend_version", "extracted_at"]

/-- What the functions use of the standard library and of polars: `str.casefold`, and the strict
conversions `str.to_date`, `str.to_datetime` and `cast` of one value, without a value where they
raise. A strict conversion makes `NULL` of `NULL` alone. -/
structure FrameEnv where
  casefold : String → String
  toDate : String → Option Cell
  toDatetime : String → Option Cell
  cast : PolarsType → Cell → Option Cell
  casefold_lineage : ∀ name ∈ lineageFields, casefold name = name
  toDate_ne_null : ∀ s, toDate s ≠ some .null
  toDatetime_ne_null : ∀ s, toDatetime s ≠ some .null
  cast_eq_null : ∀ type cell, cast type cell = some .null ↔ cell = .null

variable (env : FrameEnv) (model : ModelConfig)

/-- One pass of the loop of `_extraction_schema`; `names` is the schema by folded name. -/
def addField (schema : List (String × PolarsType)) (field : FieldConfig) :
    Except Failure (List (String × PolarsType)) :=
  let folded := env.casefold field.name
  match schema.find? fun column => env.casefold column.1 = folded with
  | some existing =>
    if existing.1 ∈ lineageFields then
      if field.dataType ∉ [none, some .string, some .json] then
        .error (.runError ("Extraction model '" ++ model.name ++ "' declares lineage field '" ++
          field.name ++ "' as " ++ (field.dataType.elim "None" FieldType.text) ++
          "; lineage fields use string storage"))
      else .ok schema
    else
      .error (.runError ("Extraction model '" ++ model.name ++ "' declares duplicate field '" ++
        field.name ++ "'"))
  | none => .ok (schema ++ [(field.name, (field.dataType.map extractionFieldDtype).getD .string)])

/-- `_extraction_schema`. -/
def extractionSchema : Except Failure (List (String × PolarsType)) :=
  model.fields.foldlM (addField env model) (lineageFields.map fun name => (name, .string))

/-- `typed_names.get(name)`. -/
def typedName (name : String) : Option FieldType :=
  (model.fields.find? fun field => field.name = name ∧ field.dataType.isSome ∧
    env.casefold field.name ∉ lineageFields).bind (·.dataType)

/-- The conversion of a value to a declared type. -/
def convert (type : FieldType) (cell : Cell) : Option Cell :=
  match type, cell with
  | .date, .string s => env.toDate s
  | .timestamp, .string s => env.toDatetime s
  | type, cell => env.cast (extractionFieldDtype type) cell

/-- What the contract makes of a value. -/
def contractCell (name : String) (cell : Cell) : Option Cell :=
  match typedName env model name with
  | none => some cell
  | some type => convert env type cell

@[simp] theorem contractCell_eq_null {name : String} {cell : Cell} :
    contractCell env model name cell = some .null ↔ cell = .null := by
  unfold contractCell convert
  split
  · exact Option.some_inj
  split
  · exact iff_of_false (env.toDate_ne_null _) (by simp)
  · exact iff_of_false (env.toDatetime_ne_null _) (by simp)
  · exact env.cast_eq_null _ _

/-- The table declares the column: it is a lineage column or a declared field that is none. -/
def Declared (name : String) : Prop :=
  name ∈ lineageFields ∨ ∃ field ∈ model.fields, field.name = name ∧
    env.casefold field.name ∉ lineageFields

/-- The schema has the lineage columns, and no other column is one up to case. -/
structure SchemaKept (schema : List (String × PolarsType)) : Prop where
  lineage : ∀ name ∈ lineageFields, name ∈ schema.map Prod.fst
  folded : ∀ name ∈ schema.map Prod.fst, env.casefold name ∈ lineageFields → name ∈ lineageFields
  nodup : (schema.map Prod.fst).Nodup

variable {env model}

theorem addField_eq_ok {schema schema' : List (String × PolarsType)} {field : FieldConfig}
    (hkept : SchemaKept env schema) (h : addField env model schema field = .ok schema') :
    SchemaKept env schema' ∧ ∀ name, name ∈ schema'.map Prod.fst ↔
      name ∈ schema.map Prod.fst ∨
        (field.name = name ∧ env.casefold field.name ∉ lineageFields) := by
  simp only [addField] at h
  split at h
  · rename_i existing hfind
    have hfold : env.casefold existing.1 = env.casefold field.name := by
      simpa using List.find?_some hfind
    split at h
    · rename_i hlineage
      split at h
      · cases h
      · obtain rfl := Except.ok.inj h
        have hin : env.casefold field.name ∈ lineageFields := by
          rw [← hfold, env.casefold_lineage _ hlineage]
          exact hlineage
        exact ⟨hkept, fun name => ⟨.inl, fun h => h.resolve_right fun h => h.2 hin⟩⟩
    · cases h
  · rename_i hfind
    obtain rfl := Except.ok.inj h
    have hnew : ∀ name ∈ schema.map Prod.fst, env.casefold name ≠ env.casefold field.name := by
      intro name hname
      obtain ⟨column, hcolumn, rfl⟩ := List.mem_map.mp hname
      exact of_decide_eq_false (by simpa using List.find?_eq_none.mp hfind column hcolumn)
    have hout : env.casefold field.name ∉ lineageFields := by
      intro hin
      exact hnew _ (hkept.lineage _ hin) (env.casefold_lineage _ hin)
    refine ⟨⟨?_, ?_, ?_⟩, ?_⟩
    · intro name hname
      rw [List.map_append]
      exact List.mem_append_left _ (hkept.lineage name hname)
    · intro name hname hin
      rw [List.map_append, List.mem_append] at hname
      rcases hname with hname | hname
      · exact hkept.folded name hname hin
      · obtain rfl := List.mem_singleton.mp hname
        exact absurd hin hout
    · rw [List.map_append]
      refine List.nodup_append'.mpr ⟨hkept.nodup, List.nodup_singleton _, fun name hname hfield => ?_⟩
      obtain rfl := List.mem_singleton.mp hfield
      exact hnew _ hname rfl
    · intro name
      rw [List.map_append, List.mem_append]
      refine or_congr_right ⟨fun hname => ?_, fun hname => ?_⟩
      · obtain rfl := List.mem_singleton.mp hname
        exact ⟨rfl, hout⟩
      · rw [← hname.1]
        exact List.mem_singleton_self _

theorem foldlM_addField_eq_ok {fields : List FieldConfig}
    {schema schema' : List (String × PolarsType)} (hkept : SchemaKept env schema)
    (h : fields.foldlM (addField env model) schema = .ok schema') :
    SchemaKept env schema' ∧ ∀ name, name ∈ schema'.map Prod.fst ↔
      name ∈ schema.map Prod.fst ∨ ∃ field ∈ fields, field.name = name ∧
        env.casefold field.name ∉ lineageFields := by
  induction fields generalizing schema with
  | nil =>
    obtain rfl := Except.ok.inj h
    exact ⟨hkept, fun name => by simp⟩
  | cons field fields ih =>
    rw [List.foldlM_cons] at h
    obtain ⟨next, hnext, h⟩ := bind_eq_ok.mp h
    obtain ⟨hkept, hstep⟩ := addField_eq_ok hkept hnext
    obtain ⟨hkept, hrest⟩ := ih hkept h
    refine ⟨hkept, fun name => ?_⟩
    rw [hrest, hstep, or_assoc]
    simp only [List.mem_cons, exists_eq_or_imp]

/-- The columns of the schema of a model. -/
theorem extractionSchema_eq_ok {schema : List (String × PolarsType)}
    (h : extractionSchema env model = .ok schema) :
    (schema.map Prod.fst).Nodup ∧
      ∀ name, name ∈ schema.map Prod.fst ↔ Declared env model name := by
  have hnames : (lineageFields.map fun name => (name, PolarsType.string)).map Prod.fst =
      lineageFields := by
    rw [List.map_map]
    exact List.map_id _
  have hkept : SchemaKept env (lineageFields.map fun name => (name, PolarsType.string)) := by
    refine ⟨?_, ?_, ?_⟩
    · rw [hnames]
      exact fun _ => id
    · rw [hnames]
      exact fun name hname _ => hname
    · rw [hnames]
      decide
  obtain ⟨hkept, hmem⟩ := foldlM_addField_eq_ok hkept h
  rw [hnames] at hmem
  exact ⟨hkept.nodup, hmem⟩

variable (env model)

/-- The cells of the row that the contract makes of a row, for the names of the schema. -/
def contractRow (names columns : List String) (row : Row) : Row := fun name =>
  if name ∈ names then
    if name ∈ columns then (contractCell env model name (row name)).getD .null else .null
  else if model.fields = [] then row name
  else .null

/-- The columns that the contract makes of the columns of a frame. -/
def contractColumns (names columns : List String) : List String :=
  if model.fields = [] then columns ++ names.filter (· ∉ columns) else names

/-- `_apply_extraction_contract`. -/
def applyContract (frame : UntypedFrame) : Except Failure UntypedFrame :=
  match hschema : extractionSchema env model with
  | .error failure => .error failure
  | .ok schema =>
    let names := schema.map Prod.fst
    if ∀ row ∈ frame.rows, ∀ name ∈ names, name ∈ frame.columns →
        (contractCell env model name (row name)).isSome then
      .ok {
        columns := contractColumns model names frame.columns
        rows := frame.rows.map (contractRow env model names frame.columns)
        nodup := by
          have hnames := (extractionSchema_eq_ok hschema).1
          unfold contractColumns
          split
          · refine List.nodup_append'.mpr ⟨frame.nodup, hnames.filter _, fun name hf hn => ?_⟩
            exact of_decide_eq_true (List.mem_filter.mp hn).2 hf
          · exact hnames
        blank := by
          intro _ hmem name hname
          obtain ⟨row, hrow, rfl⟩ := List.mem_map.mp hmem
          unfold contractColumns at hname
          unfold contractRow
          split at hname
          · rename_i hfields
            rw [List.mem_append, List.mem_filter, not_or] at hname
            have hout : name ∉ names := fun hn => hname.2 ⟨hn, decide_eq_true hname.1⟩
            rw [if_neg hout, if_pos hfields]
            exact frame.blank row hrow name hname.1
          · rename_i hfields
            rw [if_neg hname, if_neg hfields] }
    else
      .error (.runError ("Extraction model '" ++ model.name ++ "' produced a value that does not " ++
        "match its declared field data_type"))

/-- `_empty_extraction_frame`. -/
def emptyExtractionFrame : Except Failure UntypedFrame :=
  match hschema : extractionSchema env model with
  | .error failure => .error failure
  | .ok schema =>
    .ok {
      columns := schema.map Prod.fst
      rows := []
      nodup := (extractionSchema_eq_ok hschema).1
      blank := by simp }

/-! ### Rows -/

/-- What a row takes from a document: `source_metadata` is a JSON text. -/
structure DocumentRef where
  documentId : String
  relativePath : String
  sourceUri : String
  contentHash : String
  sourceMetadata : Option String := none

/-- What a row takes from a result, after `post_extract`. -/
structure ExtractionResult where
  fields : Record

/-- What all rows of a run have in common. -/
structure RunStamp where
  codeVersion : String
  backendName : String
  backendVersion : String
  extractedAt : String

variable (run : RunStamp)

/-- The row of `_row_for_extraction`. -/
def extractionRecord (doc : DocumentRef) (result : ExtractionResult) : Record :=
  [("document_id", .string doc.documentId), ("source_path", .string doc.relativePath),
    ("source_uri", .string doc.sourceUri), ("content_hash", .string doc.contentHash),
    ("code_version", .string run.codeVersion), ("backend_name", .string run.backendName),
    ("backend_version", .string run.backendVersion), ("extracted_at", .string run.extractedAt)] ++
  doc.sourceMetadata.elim [] (fun metadata => [("source_metadata", .string metadata)]) ++
  result.fields.map fun entry => (entry.1, entry.2.scalarize)

/-- `_row_for_extraction`. -/
def rowForExtraction (doc : DocumentRef) (result : ExtractionResult) : Except Failure Record :=
  let conflicts := (result.fields.keys.filter fun key =>
    env.casefold key ∈ lineageFields).insertionSort (· ≤ ·)
  if conflicts ≠ [] then
    .error (.runError ("Extracted fields collide with reserved stel lineage columns: " ++
      ", ".intercalate conflicts))
  else .ok (extractionRecord run doc result)

/-! ### The run -/

/-- The outcome of one document: its result, or the text of its error. -/
abbrev Extracted : Type := DocumentRef × Except String ExtractionResult

/-- The outcomes with a result. -/
def succeeded (extracted : List Extracted) : List (DocumentRef × ExtractionResult) :=
  extracted.filterMap fun e => e.2.toOption.map fun result => (e.1, result)

/-- The entries of `errors` for some outcomes. -/
def errorsOf (extracted : List Extracted) : List String :=
  extracted.filterMap fun e => match e.2 with
    | .error text => some (e.1.relativePath ++ ": " ++ text)
    | .ok _ => none

/-- One pass of the loop of `_frames`: the frame that a flush yields, if any, and its errors. -/
def stageFlush (extracted : List Extracted) :
    Except Failure (Option UntypedFrame × List String) := do
  let records ← (succeeded extracted).mapM fun e => rowForExtraction env run e.1 e.2
  if records = [] then
    return (none, errorsOf extracted)
  else
    let frame ← applyContract env model (frameOf records)
    return (some frame, errorsOf extracted)

/-- How the documents are extracted: one by one, or in windows of native batches, with
`on_partial_batch` being `fail` or not. -/
inductive Batching
  | perDocument
  | windows (batchSize : ℤ) (failPartial : Bool)

/-- The windows of `_iter_extracted`. -/
def Batching.windowsOf {α : Type} : Batching → List α → List (List α)
  | .perDocument, extracted => [extracted]
  | .windows batchSize _, extracted => slices (max batchSize 1).toNat extracted

/-- The flushes of `_iter_extracted`. -/
def flushes {α : Type} (batching : Batching) (flushEvery : ℕ) (extracted : List α) : List (List α) :=
  (batching.windowsOf extracted).flatMap (slices flushEvery)

section Flushes

variable {α β : Type} {batching : Batching} {flushEvery : ℕ} {extracted : List α}

variable (batching flushEvery extracted) in
theorem flatten_flushes : (flushes batching flushEvery extracted).flatten = extracted := by
  have hwindows : (batching.windowsOf extracted).flatten = extracted := by
    cases batching with
    | perDocument => exact List.append_nil _
    | windows batchSize failPartial => exact flatten_slices _ _
  calc (flushes batching flushEvery extracted).flatten
      = (batching.windowsOf extracted).flatMap fun w => (slices flushEvery w).flatten := by
        rw [flushes, List.flatMap_def, List.flatMap_def, List.flatten_flatten, List.map_map]
        rfl
    _ = (batching.windowsOf extracted).flatten := by
        rw [← List.flatMap_id]
        exact List.flatMap_congr fun w _ => flatten_slices _ _
    _ = extracted := hwindows

theorem ne_nil_of_mem_flushes {flush : List α} (h : flush ∈ flushes batching flushEvery extracted) :
    flush ≠ [] := by
  obtain ⟨w, -, h⟩ := List.mem_flatMap.mp h
  exact ne_nil_of_mem_slices h

theorem mem_of_mem_flushes {flush : List α} (h : flush ∈ flushes batching flushEvery extracted)
    {e : α} (he : e ∈ flush) : e ∈ extracted := by
  rw [← flatten_flushes batching flushEvery extracted]
  exact List.mem_flatten_of_mem h he

theorem windowsOf_map (f : α → β) :
    batching.windowsOf (extracted.map f) = (batching.windowsOf extracted).map (List.map f) := by
  cases batching with
  | perDocument => rfl
  | windows batchSize failPartial => exact slices_map f _ _

end Flushes

/-- The check of a window with failed documents. -/
def checkWindow (batching : Batching) (window : List Extracted) : Except Failure Unit :=
  match batching with
  | .windows _ true =>
    if errorsOf window ≠ [] then
      .error (.runError ("Batch for model '" ++ model.name ++ "' returned " ++
        toString (errorsOf window).length ++ " failed document(s); on_partial_batch=fail " ++
        "publishes nothing further from this run. Set on_partial_batch: publish_successful to " ++
        "record per-document failures and keep successes instead."))
    else .ok ()
  | _ => .ok ()

/-- What `_frames` makes of a window. -/
def stageWindow (batching : Batching) (flushEvery : ℕ) (window : List Extracted) :
    Except Failure (List (Option UntypedFrame × List String)) := do
  checkWindow model batching window
  (slices flushEvery window).mapM (stageFlush env model run)

/-- The table that a full run publishes: none if a document failed. -/
def extractFull (batching : Batching) (flushEvery : ℕ) (extracted : List Extracted) :
    Except Failure (Option UntypedFrame) := do
  let staged ← (batching.windowsOf extracted).mapM (stageWindow env model run batching flushEvery)
  if staged.flatten.flatMap Prod.snd ≠ [] then
    return none
  else match staged.flatten.filterMap Prod.fst with
    | [] => do
      let frame ← emptyExtractionFrame env model
      return some frame
    | first :: chunks => return some (UntypedFrame.unionAll first chunks)

end Stel.Execution.Extraction
