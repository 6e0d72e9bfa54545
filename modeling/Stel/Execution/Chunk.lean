import Stel.Execution.Documents
import Stel.Chunking

/-!
# Chunk models

`run_chunk_model` of `execution/chunk.py`: the documents of one upstream relation are split into
chunk rows; an incremental run chunks the changed and new documents only.

## Main definitions

* `ChunkModel`, `ChunkRuntime`: a chunk model, and what its runs use of other packages.
* `chunkInputHash`, `chunkRow`, `documentRows`, `chunkDocuments`.
* `runChunkModel`: the run.
-/

namespace Stel.Execution

open Stel.Warehouse Stel.Chunking

/-- A chunk model without its chunk configuration. -/
structure ChunkModel where
  name : String
  upstream : String
  incremental : Bool := true
  onSchemaChange : OnSchemaChange := .fail
  deriving DecidableEq, Repr

/-- A configuration without headings. -/
def plainConfig : ChunkConfig where
  overlap_lt := by decide
  metadata_nodup := List.nodup_nil
  text_notMem := by simp
  headings_recursive := by simp
  column_ne_text := by simp
  column_notMem := by simp

theorem nodup_documentColumns :
    ([("document_id", "String"), ("text", "String")].map Prod.fst).Nodup := by decide

/-- What a chunk run uses of other packages, and the fingerprints. -/
structure ChunkRuntime extends TextRuntime where
  /-- The digest of `make_chunk_id`. -/
  digest : String → String
  /-- `canonical_fingerprint` of the document id, the text and the carried values. -/
  inputFingerprint : String → String → List (String × Cell) → String
  /-- `compute_code_version` of a chunk configuration on an upstream. -/
  codeVersion : ChunkConfig → String → String
  /-- The type that a frame built from rows gives a column. -/
  inferType : List Cell → String

/-- The fields of `ModelRunResult` that the run sets. -/
structure ChunkResult where
  documentsProcessed : ℕ
  documentsSkipped : ℕ
  documentsDeleted : ℕ
  rowsWritten : ℕ
  deriving DecidableEq, Repr

section Run

variable (rt : ChunkRuntime) (model : ChunkModel) (config : ChunkConfig)

/-! ### Checks of the upstream -/

/-- The checks of the upstream columns. -/
def validateChunkInput (frame : Frame) : Except Failure Unit :=
  let prefixed := "Chunk model '" ++ model.name ++ "': "
  let available := printNames (frame.columns.insertionSort (· ≤ ·))
  let missing := config.inTextMetadata.filter (· ∉ frame.columns)
  if config.textField ∉ frame.columns then
    .error (.runError (prefixed ++ "upstream '" ++ model.upstream ++ "' has no column '" ++
      config.textField ++ "'. Available: " ++ available))
  else if "document_id" ∉ frame.columns then
    .error (.runError (prefixed ++ "upstream '" ++ model.upstream ++
      "' has no `document_id`; chunk models read extraction outputs."))
  else match config.sectionColumn.filter (· ∈ frame.columns) with
    | some column => .error (.runError (prefixed ++ "`chunk.headings.column` is '" ++ column ++
        "', which upstream '" ++ model.upstream ++ "' already has. The " ++
        "attribution would overwrite it; name the heading column something else."))
    | none =>
      if missing ≠ [] then
        .error (.runError (prefixed ++ "`chunk.in_text_metadata` names " ++ printNames missing ++
          ", which upstream '" ++ model.upstream ++ "' does not have. Available: " ++ available))
      else .ok ()

/-- `chunk_document_ids`. -/
def chunkDocumentIds (frame : Frame) : Except Failure (List String) :=
  let prefixed := "Chunk model '" ++ model.name ++ "': upstream `document_id` contains "
  let cells := frame.rows.map (· "document_id")
  let nullCount := (cells.filter (· = .null)).length
  let ids := cells.filterMap Cell.text
  let emptyCount := (ids.filter (· = "")).length
  let duplicateCount := ids.length - ids.dedup.length
  if nullCount ≠ 0 then
    .error (.runError (prefixed ++ toString nullCount ++ " NULL value(s)"))
  else if emptyCount ≠ 0 then
    .error (.runError (prefixed ++ toString emptyCount ++ " empty value(s)"))
  else if duplicateCount ≠ 0 then
    .error (.runError (prefixed ++ toString duplicateCount ++ " duplicate value(s)"))
  else .ok ids

/-! ### Chunk rows -/

/-- The columns that are carried into the chunk rows. -/
def carryColumns (columns : List String) : List String :=
  columns.filter fun c => c ≠ config.textField ∧ c ∉ chunkGeneratedFields

/-- The columns of a chunk row. -/
def emittedColumns (columns : List String) : List String :=
  carryColumns config columns ++ chunkGeneratedFields ++ config.sectionColumn.toList

/-- The text of a document. -/
def documentText (record : Row) : String := (record config.textField).text.getD ""

/-- The carried values of a document. -/
def carriedValues (columns : List String) (record : Row) : List (String × Cell) :=
  (carryColumns config columns).map fun c => (c, record c)

/-- `chunk_input_hash`. -/
def chunkInputHash (columns : List String) (record : Row) : String :=
  rt.inputFingerprint ((record "document_id").text.getD "") (documentText config record)
    (carriedValues config columns record)

/-- `chunk_row`. -/
def chunkRow (carried : List (String × Cell)) (documentId : String) (pieceIndex chunkCount : ℕ)
    (text codeVersion chunkedAt : String) (sectionName : Option String) : Except Failure Row := do
  let chunkId ← makeChunkId rt.digest documentId pieceIndex text
  return dictRow (
    config.sectionColumn.toList.map (fun c => (c, sectionName.elim .null .string)) ++
    [("chunk_id", .string chunkId), ("document_id", .string documentId),
      ("chunk_index", .other (toString pieceIndex)), ("chunk_count", .other (toString chunkCount)),
      ("text", .string text), ("chunk_strategy", .string config.strategy.value),
      ("code_version", .string codeVersion), ("chunked_at", .string chunkedAt)] ++
    carried.map fun entry => (entry.1, entry.2.scalarize))

/-- The rows of one document. -/
def documentRows (columns : List String) (chunkedAt documentId : String) (record : Row) :
    Except Failure (List Row) :=
  let block := renderMetadataBlock record config.inTextMetadata
  let reserved := if block = "" then 0 else measure rt.toTextRuntime block config
  match splitText rt.toTextRuntime (documentText config record) config reserved with
  | .error message => .error (.runError ("Chunk model '" ++ model.name ++ "': " ++ message))
  | .ok pieces => pieces.mapM fun piece =>
      chunkRow rt config (carriedValues config columns record) documentId piece.index pieces.length
        (block ++ piece.text) (rt.codeVersion config model.upstream) chunkedAt piece.sectionName

/-- The locals of the loop over the documents. -/
structure ChunkLoop where
  rows : List Row := []
  records : List StateRecord := []
  processed : ℕ := 0
  skipped : ℕ := 0
  changedIds : List String := []

/-- The state value of a document. -/
def chunkState (columns : List String) (record : Row) : StateValue :=
  ⟨chunkInputHash rt config columns record, rt.codeVersion config model.upstream⟩

/-- The loop over the documents. -/
def chunkDocuments (columns : List String) (chunkedAt : String)
    (previous : String → Option StateValue) : List (String × Row) → Except Failure ChunkLoop
  | [] => .ok {}
  | (documentId, record) :: documents => do
    let value := chunkState rt model config columns record
    if previous documentId = some value then do
      let rest ← chunkDocuments columns chunkedAt previous documents
      return { rest with skipped := rest.skipped + 1 }
    else do
      let rows ← documentRows rt model config columns chunkedAt documentId record
      let rest ← chunkDocuments columns chunkedAt previous documents
      return { rest with
        rows := rows ++ rest.rows
        records := ⟨documentId, value.inputFingerprint, value.codeVersion⟩ :: rest.records
        processed := rest.processed + 1
        changedIds :=
          if (previous documentId).isSome then documentId :: rest.changedIds else rest.changedIds }

/-- The rows that a full refresh emits. -/
def fullChunkRows (chunkedAt : String) (frame : Frame) : Except Failure (List Row) := do
  let ids ← chunkDocumentIds model frame
  let loop ← chunkDocuments rt model config frame.columns chunkedAt (fun _ => none)
    (ids.zip frame.rows)
  return loop.rows

/-- The frame of the chunk rows. -/
def chunkFrame (columns : List String) (rows : List Row) : Except Failure Frame :=
  let names := emittedColumns config columns
  if rows = [] then .ok .empty
  else if h : names.Nodup then .ok
    { schema := names.map fun c =>
        (c, if config.sectionColumn = some c then "String" else rt.inferType (rows.map (· c)))
      rows := rows.map fun row c => if c ∈ names then row c else .null
      nodup := by simpa [Function.comp_def] using h
      blank := by
        intro row hrow c hc
        obtain ⟨source, -, rfl⟩ := List.mem_map.mp hrow
        exact if_neg (by simpa [Function.comp_def] using hc) }
  else .error (.other "DuplicateError")

/-! ### The run -/

/-- `run_chunk_model`, on the upstream frame that it reads. -/
def runChunkModel (fullRefresh : Bool) (chunkedAt : String) (frame : Frame) :
    TargetProg ChunkResult := do
  .ofExcept (validateChunkInput model config frame)
  let ids ← Prog.ofExcept (chunkDocumentIds model frame)
  let isIncremental := model.incremental && !fullRefresh
  let prior ← if isIncremental then Prog.perform TargetOp.fetchState else .pure ∅
  let loop ← Prog.ofExcept (chunkDocuments rt model config frame.columns chunkedAt
    (fun id => prior.lookup id) (ids.zip frame.rows))
  let removed := prior.keys.filter (· ∉ ids)
  deleteRemoved "document_id" removed
  let chunks ← Prog.ofExcept (chunkFrame rt config frame.columns loop.rows)
  if isIncremental then do
    let rowsWritten ← asRunError (Prog.perform (TargetOp.replaceChildren "document_id"
      loop.changedIds "chunk_id" chunks loop.records model.onSchemaChange))
    return ⟨loop.processed, loop.skipped, removed.length, rowsWritten⟩
  else do
    let rowsWritten ← Prog.perform (TargetOp.materializeFull chunks)
    Prog.perform (TargetOp.replaceState loop.records)
    return ⟨loop.processed, loop.skipped, removed.length, rowsWritten⟩

end Run

/-! ### The documents -/

/-- The documents of a frame have distinct ids, each its record's. -/
theorem documents_zip {model : ChunkModel} {frame : Frame} {ids : List String}
    (h : chunkDocumentIds model frame = .ok ids) :
    (ids.zip frame.rows).map Prod.fst = ids ∧ ((ids.zip frame.rows).map Prod.fst).Nodup ∧
      ∀ d record, (d, record) ∈ ids.zip frame.rows → (record "document_id").text = some d :=
  requireIds_zip h

/-- The ids are those of the documents. -/
theorem mem_documents {model : ChunkModel} {frame : Frame} {ids : List String}
    (h : chunkDocumentIds model frame = .ok ids) {d : String} :
    d ∈ ids ↔ ∃ record, (d, record) ∈ ids.zip frame.rows :=
  mem_requireIds h

/-! ### The rows of a document -/

section Rows

variable {rt : ChunkRuntime} {model : ChunkModel} {config : ChunkConfig} {columns : List String}

/-- Two chunk rows that differ in the time of the run only. -/
def SameButTime (a b : Row) : Prop := ∀ c ≠ "chunked_at", a c = b c

theorem SameButTime.trans {a b c : Row} (hab : SameButTime a b) (hbc : SameButTime b c) :
    SameButTime a c :=
  fun name hname => (hab name hname).trans (hbc name hname)

theorem SameButTime.symm {a b : Row} (hab : SameButTime a b) : SameButTime b a :=
  fun name hname => (hab name hname).symm

theorem lookup_sectionColumn (sectionName : Option String) {c : String}
    (hc : c ∈ chunkGeneratedFields) :
    (config.sectionColumn.toList.map fun c => (c, sectionName.elim Cell.null .string)).lookup c =
      none := by
  refine lookup_eq_none_of_notMem fun hmem => ?_
  rw [List.map_map, List.mem_map] at hmem
  obtain ⟨column, hcolumn, rfl⟩ := hmem
  obtain ⟨headings, hheadings, rfl⟩ := Option.map_eq_some_iff.mp (Option.mem_toList.mp hcolumn)
  exact config.column_notMem headings hheadings hc

/-- The cells of a chunk row that identify it, and its columns. -/
theorem chunkRow_eq_ok {carried : List (String × Cell)} {documentId text codeVersion : String}
    {chunkedAt : String} {pieceIndex chunkCount : ℕ} {sectionName : Option String} {row : Row}
    (h : chunkRow rt config carried documentId pieceIndex chunkCount text codeVersion chunkedAt
      sectionName = .ok row) :
    (∃ id, makeChunkId rt.digest documentId pieceIndex text = .ok id ∧
      row "chunk_id" = .string id) ∧ row "document_id" = .string documentId ∧
      ∀ c, c ∉ config.sectionColumn.toList → c ∉ chunkGeneratedFields → c ∉ carried.map Prod.fst →
        row c = .null := by
  obtain ⟨id, hid, hrow⟩ := bind_eq_ok.mp h
  obtain rfl := Except.ok.inj hrow
  refine ⟨⟨id, hid, ?_⟩, ?_, fun c hsection hgenerated hcarried => ?_⟩
  · rw [dictRow, List.append_assoc, List.lookup_append,
      lookup_sectionColumn sectionName (by decide)]
    rfl
  · rw [dictRow, List.append_assoc, List.lookup_append,
      lookup_sectionColumn sectionName (by decide)]
    rfl
  · rw [dictRow, lookup_eq_none_of_notMem]
    · rfl
    · simp only [List.map_append, List.map_map, List.mem_append, not_or]
      refine ⟨⟨?_, hgenerated⟩, ?_⟩
      · simpa [Function.comp_def] using hsection
      · simpa [Function.comp_def] using hcarried

/-- The time of the run occurs in `chunked_at` only. -/
theorem chunkRow_chunkedAt {carried : List (String × Cell)} {documentId text codeVersion : String}
    {chunkedAt : String} {pieceIndex chunkCount : ℕ} {sectionName : Option String} {row : Row}
    (h : chunkRow rt config carried documentId pieceIndex chunkCount text codeVersion chunkedAt
      sectionName = .ok row) (chunkedAt' : String) :
    ∃ row', chunkRow rt config carried documentId pieceIndex chunkCount text codeVersion chunkedAt'
      sectionName = .ok row' ∧ SameButTime row row' := by
  obtain ⟨id, hid, hrow⟩ := bind_eq_ok.mp h
  obtain rfl := Except.ok.inj hrow
  refine ⟨_, bind_eq_ok.mpr ⟨id, hid, rfl⟩, fun c hc => ?_⟩
  have hb : (c == "chunked_at") = false := by simpa using hc
  simp only [dictRow, List.append_assoc, List.lookup_append, List.lookup_cons, hb,
    List.lookup_nil]

theorem mem_emittedColumns {c : String} : c ∈ emittedColumns config columns ↔
    c ∈ carryColumns config columns ∨ c ∈ chunkGeneratedFields ∨ c ∈ config.sectionColumn.toList := by
  simp only [emittedColumns, List.mem_append, or_assoc]

variable {chunkedAt documentId : String} {record : Row} {rows : List Row}

/-- The rows of a document carry its id and an identifier made from it, in the emitted columns. -/
theorem documentRows_eq_ok
    (h : documentRows rt model config columns chunkedAt documentId record = .ok rows) {row : Row}
    (hrow : row ∈ rows) :
    row "document_id" = .string documentId ∧
      (∃ i text id, makeChunkId rt.digest documentId i text = .ok id ∧
        row "chunk_id" = .string id) ∧
      ∀ c ∉ emittedColumns config columns, row c = .null := by
  simp only [documentRows] at h
  split at h
  · cases h
  obtain ⟨piece, -, hpiece⟩ := exists_of_mem_right (mapM_eq_ok.mp h) hrow
  obtain ⟨⟨id, hid, hchunk⟩, hdocument, hblank⟩ := chunkRow_eq_ok hpiece
  refine ⟨hdocument, ⟨_, _, id, hid, hchunk⟩, fun c hc => ?_⟩
  rw [mem_emittedColumns, not_or, not_or] at hc
  refine hblank c hc.2.2 hc.2.1 ?_
  simpa [carriedValues, Function.comp_def] using hc.1

theorem documentRows_chunkedAt
    (h : documentRows rt model config columns chunkedAt documentId record = .ok rows)
    (chunkedAt' : String) :
    ∃ rows', documentRows rt model config columns chunkedAt' documentId record = .ok rows' ∧
      List.Forall₂ SameButTime rows rows' := by
  simp only [documentRows] at h ⊢
  split at h
  · cases h
  rename_i pieces hpieces
  have hrel := mapM_eq_ok.mp h
  clear h
  suffices hgen : ∃ rows', List.Forall₂ (fun piece row => chunkRow rt config
      (carriedValues config columns record) documentId piece.index pieces.length
      (renderMetadataBlock record config.inTextMetadata ++ piece.text)
      (rt.codeVersion config model.upstream) chunkedAt' piece.sectionName = .ok row) pieces rows' ∧
      List.Forall₂ SameButTime rows rows' by
    obtain ⟨rows', hrows', hsame⟩ := hgen
    exact ⟨rows', mapM_eq_ok.mpr hrows', hsame⟩
  clear hpieces
  generalize pieces.length = chunkCount at hrel ⊢
  induction hrel with
  | nil => exact ⟨[], .nil, .nil⟩
  | cons hpiece _ ih =>
    obtain ⟨row', hrow', hsame⟩ := chunkRow_chunkedAt hpiece chunkedAt'
    obtain ⟨rows', hrows', hrest⟩ := ih
    exact ⟨row' :: rows', .cons hrow' hrows', .cons hsame hrest⟩

/-- The metadata block depends on the texts of its fields only. -/
theorem renderMetadataBlock_congr {record' : Row} {fields : List String}
    (h : ∀ field ∈ fields, (record field).text = (record' field).text) :
    renderMetadataBlock record fields = renderMetadataBlock record' fields := by
  unfold renderMetadataBlock
  have hlines : (fields.filterMap fun field =>
      (record field).text.map fun value => field ++ ": " ++ value) =
        fields.filterMap fun field => (record' field).text.map fun value =>
          field ++ ": " ++ value := by
    refine List.filterMap_congr fun field hfield => ?_
    rw [h field hfield]
  rw [hlines]

end Rows

/-! ### The loop over the documents -/

section Loop

variable {rt : ChunkRuntime} {model : ChunkModel} {config : ChunkConfig} {columns : List String}
  {chunkedAt : String} {previous : String → Option StateValue}

/-- What the loop collects: the rows and the record of every document whose state is not current,
and the documents among these that had a state. -/
structure ChunkLoop.Covers (rt : ChunkRuntime) (model : ChunkModel) (config : ChunkConfig)
    (columns : List String) (chunkedAt : String) (previous : String → Option StateValue)
    (documents : List (String × Row)) (loop : ChunkLoop) : Prop where
  /-- Documents that the loop does not chunk. -/
  kept : ∀ d, (∀ record, (d, record) ∈ documents →
    previous d = some (chunkState rt model config columns record)) →
      rowsAt "document_id" loop.rows d = [] ∧ d ∉ loop.changedIds ∧
        d ∉ loop.records.map (·.recordKey)
  /-- Documents that the loop chunks. -/
  chunked : ∀ d record, (d, record) ∈ documents →
    previous d ≠ some (chunkState rt model config columns record) →
      documentRows rt model config columns chunkedAt d record =
          .ok (rowsAt "document_id" loop.rows d) ∧
        ⟨d, (chunkState rt model config columns record).inputFingerprint,
          (chunkState rt model config columns record).codeVersion⟩ ∈ loop.records ∧
        (previous d ≠ none → d ∈ loop.changedIds)
  /-- Every row belongs to a document that the loop chunks. -/
  rows : ∀ row ∈ loop.rows, ∃ d record, (d, record) ∈ documents ∧
    previous d ≠ some (chunkState rt model config columns record) ∧
      row ∈ rowsAt "document_id" loop.rows d

theorem chunkDocuments_covers {documents : List (String × Row)} {loop : ChunkLoop}
    (hnodup : (documents.map Prod.fst).Nodup)
    (h : chunkDocuments rt model config columns chunkedAt previous documents = .ok loop) :
    loop.Covers rt model config columns chunkedAt previous documents := by
  induction documents generalizing loop with
  | nil =>
    obtain rfl := Except.ok.inj h
    exact ⟨by simp, by simp, by simp⟩
  | cons document documents ih =>
    obtain ⟨d, record⟩ := document
    obtain ⟨hnew, hnodup⟩ := List.nodup_cons.mp hnodup
    have hother : ∀ record', (d, record') ∉ documents := fun record' hmem =>
      hnew (List.mem_map.mpr ⟨(d, record'), hmem, rfl⟩)
    simp only [chunkDocuments] at h
    split at h
    · rename_i hskip
      obtain ⟨rest, hrest, hloop⟩ := bind_eq_ok.mp h
      obtain rfl := Except.ok.inj hloop
      obtain ⟨hkept, hchunked, hrows⟩ := ih hnodup hrest
      refine ⟨fun e he => hkept e fun r hr => he r (List.mem_cons_of_mem _ hr), ?_, ?_⟩
      · intro e r hmem hne
        rcases List.mem_cons.mp hmem with heq | hmem
        · obtain ⟨rfl, rfl⟩ := Prod.mk.inj heq
          exact absurd hskip hne
        · exact hchunked e r hmem hne
      · intro row hrow
        obtain ⟨e, r, hmem, hne, hat⟩ := hrows row hrow
        exact ⟨e, r, List.mem_cons_of_mem _ hmem, hne, hat⟩
    · rename_i hchange
      obtain ⟨rows, hdoc, h⟩ := bind_eq_ok.mp h
      obtain ⟨rest, hrest, hloop⟩ := bind_eq_ok.mp h
      obtain rfl := Except.ok.inj hloop
      obtain ⟨hkept, hchunked, hrows⟩ := ih hnodup hrest
      have hown : ∀ row ∈ rows, (row "document_id").text = some d := fun row hrow => by
        rw [(documentRows_eq_ok hdoc hrow).1]
        rfl
      obtain ⟨hrestRows, hrestChanged, hrestRecords⟩ := hkept d fun r hr => absurd hr (hother r)
      have hat : ∀ e ≠ d, rowsAt "document_id" (rows ++ rest.rows) e =
          rowsAt "document_id" rest.rows e := by
        intro e he
        rw [rowsAt_append, rowsAt_eq_nil fun row hrow heq => ?_, List.nil_append]
        exact he (Option.some.inj (heq.symm.trans (hown row hrow)))
      have hself : rowsAt "document_id" (rows ++ rest.rows) d = rows := by
        rw [rowsAt_append, rowsAt_eq_self hown, hrestRows, List.append_nil]
      have hchanged : ∀ e ≠ d, (e ∈ if (previous d).isSome then d :: rest.changedIds
          else rest.changedIds) ↔ e ∈ rest.changedIds := by
        intro e he
        split <;> simp [he]
      refine ⟨fun e he => ?_, fun e r hmem hne => ?_, fun row hrow => ?_⟩
      · have hed : e ≠ d := by
          rintro rfl
          exact hchange (he record List.mem_cons_self)
        obtain ⟨h₁, h₂, h₃⟩ := hkept e fun r hr => he r (List.mem_cons_of_mem _ hr)
        refine ⟨(hat e hed).trans h₁, mt (hchanged e hed).mp h₂, ?_⟩
        simpa [hed] using h₃
      · rcases List.mem_cons.mp hmem with heq | hin
        · obtain ⟨rfl, rfl⟩ := Prod.mk.inj heq
          refine ⟨by rw [hself]; exact hdoc, List.mem_cons_self, fun hsome => ?_⟩
          rw [if_pos (Option.isSome_iff_ne_none.mpr hsome)]
          exact List.mem_cons_self
        · have hed : e ≠ d := by
            rintro rfl
            exact hother r hin
          obtain ⟨h₁, h₂, h₃⟩ := hchunked e r hin hne
          refine ⟨by rw [hat e hed]; exact h₁, List.mem_cons_of_mem _ h₂, fun hsome => ?_⟩
          exact (hchanged e hed).mpr (h₃ hsome)
      · rcases List.mem_append.mp hrow with hrow | hrow
        · refine ⟨d, record, List.mem_cons_self, hchange, ?_⟩
          show row ∈ rowsAt "document_id" (rows ++ rest.rows) d
          rwa [hself]
        · obtain ⟨e, r, hmem, hne, hmemAt⟩ := hrows row hrow
          have hed : e ≠ d := by
            rintro rfl
            exact hother r hmem
          exact ⟨e, r, List.mem_cons_of_mem _ hmem, hne, (hat e hed).symm ▸ hmemAt⟩

/-- The emitted columns are distinct if the frame is accepted. -/
theorem chunkFrame_eq_ok {rows : List Row} {chunks : Frame}
    (hblank : ∀ row ∈ rows, ∀ c ∉ emittedColumns config columns, row c = .null)
    (h : chunkFrame rt config columns rows = .ok chunks) :
    chunks.rows = rows ∧ (rows = [] → chunks.schema = []) ∧
      (rows ≠ [] → chunks.schema = (emittedColumns config columns).map fun c =>
        (c, if config.sectionColumn = some c then "String" else rt.inferType (rows.map (· c)))) := by
  simp only [chunkFrame] at h
  split at h
  · rename_i hempty
    obtain rfl := Except.ok.inj h
    exact ⟨hempty.symm, fun _ => rfl, fun hne => absurd hempty hne⟩
  rename_i hne
  split at h
  · obtain rfl := Except.ok.inj h
    refine ⟨?_, fun hempty => absurd hempty hne, fun _ => rfl⟩
    refine (List.map_congr_left fun row hrow => ?_).trans (List.map_id rows)
    funext c
    split
    · rfl
    · rename_i hc
      exact (hblank row hrow c hc).symm
  · cases h

namespace ChunkLoop.Covers

variable {documents : List (String × Row)} {loop : ChunkLoop} {chunks : Frame}
  (h : loop.Covers rt model config columns chunkedAt previous documents)
include h

/-- Every emitted row belongs to a document that the run chunks. -/
theorem exists_chunked {row : Row} (hrow : row ∈ loop.rows) :
    ∃ d record, ((d, record) ∈ documents ∧
        previous d ≠ some (chunkState rt model config columns record)) ∧
      row ∈ rowsAt "document_id" loop.rows d ∧ row "document_id" = .string d ∧
      (∃ i text id, makeChunkId rt.digest d i text = .ok id ∧ row "chunk_id" = .string id) ∧
      ∀ c ∉ emittedColumns config columns, row c = .null := by
  obtain ⟨d, record, hmem, hne, hat⟩ := h.rows row hrow
  obtain ⟨hid, hchunk, hblank⟩ := documentRows_eq_ok (h.chunked d record hmem hne).1 hat
  exact ⟨d, record, ⟨hmem, hne⟩, hat, hid, hchunk, hblank⟩

theorem chunkFrame_ok (hframe : chunkFrame rt config columns loop.rows = .ok chunks) :
    chunks.rows = loop.rows ∧ (loop.rows = [] → chunks.schema = []) ∧
      (loop.rows ≠ [] → chunks.schema = (emittedColumns config columns).map fun c =>
        (c, if config.sectionColumn = some c then "String"
          else rt.inferType (loop.rows.map (· c)))) := by
  refine chunkFrame_eq_ok (fun row hrow => ?_) hframe
  obtain ⟨-, -, -, -, -, -, hblank⟩ := h.exists_chunked hrow
  exact hblank

theorem chunks_columns (hframe : chunkFrame rt config columns loop.rows = .ok chunks)
    (hne : loop.rows ≠ []) : chunks.columns = emittedColumns config columns := by
  rw [Frame.columns, (h.chunkFrame_ok hframe).2.2 hne, List.map_map]
  exact List.map_id _

end ChunkLoop.Covers

/-- The loop raises only if a document does. -/
theorem chunkDocuments_isOk {documents : List (String × Row)}
    (h : ∀ d record, (d, record) ∈ documents →
      ∃ rows, documentRows rt model config columns chunkedAt d record = .ok rows) :
    ∃ loop, chunkDocuments rt model config columns chunkedAt previous documents = .ok loop := by
  induction documents with
  | nil => exact ⟨_, rfl⟩
  | cons document documents ih =>
    obtain ⟨rest, hrest⟩ := ih fun d record hmem => h d record (List.mem_cons_of_mem _ hmem)
    obtain ⟨rows, hrows⟩ := h document.1 document.2 List.mem_cons_self
    simp only [chunkDocuments]
    split
    · exact ⟨_, bind_eq_ok.mpr ⟨rest, hrest, rfl⟩⟩
    · exact ⟨_, bind_eq_ok.mpr ⟨rows, hrows, bind_eq_ok.mpr ⟨rest, hrest, rfl⟩⟩⟩

/-- The loop depends on the states of its documents only. -/
theorem chunkDocuments_congr {previous' : String → Option StateValue}
    {documents : List (String × Row)}
    (h : ∀ d ∈ documents.map Prod.fst, previous d = previous' d) :
    chunkDocuments rt model config columns chunkedAt previous documents =
      chunkDocuments rt model config columns chunkedAt previous' documents := by
  induction documents with
  | nil => rfl
  | cons document documents ih =>
    obtain ⟨hd, hrest⟩ := List.forall_mem_cons.mp h
    simp only [chunkDocuments]
    rw [hd, ih hrest]

end Loop

/-! ### What a run does to the target -/

section Exec

variable {rt : ChunkRuntime} {model : ChunkModel} {config : ChunkConfig} {assign : Assignment}
  {table : String} {chunkedAt : String} {frame : Frame} {s t : Target}
  {out : Except Failure ChunkResult}

/-- What an incremental run does: it fails, perhaps after it deleted removed documents, or it
deletes these and replaces the rows of the changed ones. -/
theorem incremental_chunk_cases (hincremental : model.incremental = true)
    (h : (runChunkModel rt model config false chunkedAt frame).exec (TargetOp.exec assign table) s =
      (t, out)) :
    ((∃ e, out = .error e) ∧ ∃ removed : List String,
        deleteRows "document_id" (removed.map .string) s.table = .ok t.table ∧
          t.state = s.state.delete removed) ∨
      (∃ result, out = .ok result) ∧ ∃ ids loop chunks deleted,
        validateChunkInput model config frame = .ok () ∧
        chunkDocumentIds model frame = .ok ids ∧
        chunkDocuments rt model config frame.columns chunkedAt (fun id => s.state.lookup id)
          (ids.zip frame.rows) = .ok loop ∧
        deleteRows "document_id" ((s.state.keys.filter (· ∉ ids)).map .string) s.table =
          .ok deleted ∧
        chunkFrame rt config frame.columns loop.rows = .ok chunks ∧
        (loop.records.map (·.recordKey)).Nodup ∧
        replaceChildren assign table "document_id" loop.changedIds "chunk_id" chunks
          model.onSchemaChange deleted = .ok t.table ∧
        t.state = (s.state.delete (s.state.keys.filter (· ∉ ids))).upsert loop.records := by
  have hfail : ∀ e : Failure, (s, Except.error e) = (t, out) → (∃ e, out = .error e) ∧
      ∃ removed : List String, deleteRows "document_id" (removed.map .string) s.table =
        .ok t.table ∧ t.state = s.state.delete removed := by
    intro e he
    obtain ⟨rfl, rfl⟩ := Prod.mk.inj he
    refine ⟨⟨e, rfl⟩, [], ?_, rfl⟩
    cases s.table <;> rfl
  rw [runChunkModel, Prog.exec_ofExcept_bind] at h
  split at h
  swap
  · exact .inl (hfail _ h)
  rename_i hvalid
  rw [Prog.exec_ofExcept_bind] at h
  split at h
  swap
  · exact .inl (hfail _ h)
  rename_i ids hids
  simp only [hincremental, Bool.not_false, Bool.and_self, if_true] at h
  have hfetch : (Prog.perform TargetOp.fetchState : TargetProg StateTable).exec
      (TargetOp.exec assign table) s = (s, .ok s.state) := rfl
  rw [Prog.exec_bind_ok _ hfetch, Prog.exec_ofExcept_bind] at h
  split at h
  swap
  · exact .inl (hfail _ h)
  rename_i loop hloop
  rcases hdel : (deleteRemoved "document_id" (s.state.keys.filter (· ∉ ids))).exec
    (TargetOp.exec assign table) s with ⟨u, out'⟩
  rcases exec_deleteRemoved hdel with ⟨⟨e, rfl⟩, rfl⟩ | ⟨rfl, hdeleted, hstate⟩
  · rw [Prog.exec_bind_error _ hdel] at h
    exact .inl (hfail e h)
  rw [Prog.exec_bind_ok _ hdel, Prog.exec_ofExcept_bind] at h
  split at h
  swap
  · obtain ⟨rfl, rfl⟩ := Prod.mk.inj h
    exact .inl ⟨⟨_, rfl⟩, _, hdeleted, hstate⟩
  rename_i chunks hchunks
  rcases hrep : (asRunError (Prog.perform (TargetOp.replaceChildren "document_id" loop.changedIds
    "chunk_id" chunks loop.records model.onSchemaChange))).exec (TargetOp.exec assign table) u with
    ⟨v, out'⟩
  rcases exec_asRunError hrep with ⟨⟨e, rfl⟩, rfl⟩ | ⟨r, rfl, hop⟩
  · rw [Prog.exec_bind_error _ hrep] at h
    obtain ⟨rfl, rfl⟩ := Prod.mk.inj h
    exact .inl ⟨⟨e, rfl⟩, _, hdeleted, hstate⟩
  · rw [Prog.exec_bind_ok _ hrep] at h
    obtain ⟨rfl, rfl⟩ := Prod.mk.inj h
    obtain ⟨hnodup, hreplace, hupsert⟩ := exec_replaceChildren hop
    exact .inr ⟨⟨_, rfl⟩, ids, loop, chunks, u.table, hvalid, hids, hloop, hdeleted, hchunks,
      hnodup, hreplace, by rw [hupsert, hstate]⟩

/-- A full refresh replaces the target by the rows of all its documents. -/
theorem full_chunk_rows {result : ChunkResult}
    (h : (runChunkModel rt model config true chunkedAt frame).exec (TargetOp.exec assign table) s =
      (t, .ok result)) : fullChunkRows rt model config chunkedAt frame = .ok (rowsOf t.table) := by
  rw [runChunkModel, Prog.exec_ofExcept_bind] at h
  split at h
  swap
  · cases h
  rw [Prog.exec_ofExcept_bind] at h
  split at h
  swap
  · cases h
  rename_i ids hids
  simp only [Bool.not_true, Bool.and_false, Bool.false_eq_true, if_false, Prog.pure_bind] at h
  rw [Prog.exec_ofExcept_bind] at h
  split at h
  swap
  · cases h
  rename_i loop hloop
  have hnone : (deleteRemoved "document_id" ((∅ : StateTable).keys.filter (· ∉ ids))).exec
      (TargetOp.exec assign table) s = (s, .ok ()) := rfl
  rw [Prog.exec_bind_ok _ hnone, Prog.exec_ofExcept_bind] at h
  split at h
  swap
  · cases h
  rename_i chunks hchunks
  obtain ⟨u, r, hfull, h⟩ := (Prog.exec_bind_eq_ok _).mp h
  rw [Prog.exec_perform] at hfull
  obtain ⟨target, htarget, hu⟩ := bind_eq_ok.mp (Target.commit_ok hfull)
  obtain ⟨rfl, -⟩ := Prod.mk.inj (Except.ok.inj hu)
  obtain ⟨v, r', hreplace, h⟩ := (Prog.exec_bind_eq_ok _).mp h
  rw [Prog.exec_perform] at hreplace
  obtain ⟨-, -, hv⟩ := bind_eq_ok.mp (Target.commit_ok hreplace)
  obtain ⟨rfl, -⟩ := Prod.mk.inj (Except.ok.inj hv)
  obtain ⟨rfl, -⟩ := Prod.mk.inj h
  obtain ⟨-, rfl⟩ := materializeFull_eq_ok htarget
  have hcovers := chunkDocuments_covers (documents_zip hids).2.1 hloop
  rw [rowsOf_some, (hcovers.chunkFrame_ok hchunks).1]
  exact bind_eq_ok.mpr ⟨ids, hids, bind_eq_ok.mpr ⟨loop, hloop, rfl⟩⟩

end Exec

end Stel.Execution
