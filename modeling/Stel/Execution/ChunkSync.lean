import Stel.Execution.Chunk
import Stel.Warehouse.Encoding

/-!
# Incremental chunking

An incremental run of a chunk model leaves the rows that a full refresh on the same upstream emits,
as the target's columns store them.

## Main definitions

* `ChunkRuntime.Reliable`: what is assumed of the digests, of frames and of the warehouse.
* `StoredAs`: a target row against the emitted one.
* `ChunkHeld`: the invariant of the incremental runs.
* `ChunkHistory`: sequences of incremental runs.

## Main results

* `ChunkHeld.run`: every run keeps the invariant.
* `incremental_chunks_match`: the target after an incremental run against a full refresh.
-/

namespace Stel.Execution

open Stel.Warehouse Stel.Chunking

/-- What is assumed of the other packages: digests do not collide, a frame gives a column of strings
the string type, and the warehouse stores strings in such a column unchanged. -/
structure ChunkRuntime.Reliable (rt : ChunkRuntime) (assign : Assignment) : Prop where
  digest_inj : Function.Injective rt.digest
  inputFingerprint_inj : ∀ {d d' t t' : String} {c c' : List (String × Cell)},
    rt.inputFingerprint d t c = rt.inputFingerprint d' t' c' → d = d' ∧ t = t' ∧ c = c'
  codeVersion_inj : ∀ {config config' : ChunkConfig} {upstream : String},
    rt.codeVersion config upstream = rt.codeVersion config' upstream → config = config'
  inferType_string : ∀ cells ≠ [], (∀ c ∈ cells, ∃ s, c = .string s) →
    rt.inferType cells = "String"
  assign_string : ∀ s, assign "String" (.string s) = some (.string s)

/-- The metadata block names generated columns of the upstream at most for the document id. -/
def MetadataHashed (config : ChunkConfig) : Prop :=
  ∀ field ∈ config.inTextMetadata, field ∈ chunkGeneratedFields → field = "document_id"

/-- The target row that a schema stores for an emitted row, whatever the time of its run. -/
def StoredAs (assign : Assignment) (schema : List (String × String)) (emitted : List String)
    (full stored : Row) : Prop :=
  ∃ row, SameButTime full row ∧ assignRow assign schema emitted row = some stored

section Held

variable (rt : ChunkRuntime) (model : ChunkModel) (assign : Assignment) (columns : List String)

/-- The target holds, for one document and its state, rows that were emitted under the state. -/
structure DocumentHeld (table : Option Frame) (d : String) (v : StateValue) (config : ChunkConfig)
    (record : Row) (chunkedAt : String) (rows : List Row) : Prop where
  metadata : MetadataHashed config
  id : (record "document_id").text = some d
  state : v = chunkState rt model config columns record
  emitted : documentRows rt model config columns chunkedAt d record = .ok rows
  stored : List.Forall₂ (StoredAs assign (schemaOf table) (emittedColumns config columns)) rows
    (rowsAt "document_id" (rowsOf table) d)
  wide : rows ≠ [] → model.onSchemaChange ≠ .ignore →
    emittedColumns config columns ⊆ (schemaOf table).map Prod.fst

/-- The key columns of a target are strings. -/
def KeysTyped (table : Option Frame) : Prop :=
  ∀ target, table = some target →
    target.schema.lookup "document_id" = some "String" ∧
      target.schema.lookup "chunk_id" = some "String"

/-- The invariant of the incremental runs. -/
structure ChunkHeld (s : Target) : Prop where
  documents : ∀ d v, s.state.lookup d = some v → ∃ config record chunkedAt rows,
    DocumentHeld rt model assign columns s.table d v config record chunkedAt rows
  absent : ∀ d, s.state.lookup d = none → rowsAt "document_id" (rowsOf s.table) d = []
  owned : ∀ row ∈ rowsOf s.table, ∃ d, (row "document_id").text = some d
  chunkIds : ((rowsOf s.table).map (· "chunk_id")).Nodup
  typed : KeysTyped s.table

end Held

section Invariant

variable {rt : ChunkRuntime} {model : ChunkModel} {assign : Assignment} {columns : List String}
  {s t : Target}

/-- A string cell in a column of strings is stored unchanged. -/
theorem StoredAs.string (hrt : rt.Reliable assign) {schema : List (String × String)}
    {emitted : List String} {full stored : Row} (h : StoredAs assign schema emitted full stored)
    {c x : String} (htype : schema.lookup c = some "String") (hc : c ∈ emitted)
    (htime : c ≠ "chunked_at") (hx : full c = .string x) : stored c = .string x := by
  obtain ⟨row, hsame, hassign⟩ := h
  have hcell := assignRow_apply hassign htype hc
  rw [← hsame c htime, hx, hrt.assign_string] at hcell
  exact (Option.some.inj hcell).symm

theorem generated_mem_emitted {config : ChunkConfig} {c : String} (hc : c ∈ chunkGeneratedFields) :
    c ∈ emittedColumns config columns :=
  mem_emittedColumns.mpr (.inr (.inl hc))

theorem ChunkHeld.empty : ChunkHeld rt model assign columns {} where
  documents := by simp
  absent _ _ := rfl
  owned := by simp
  chunkIds := List.nodup_nil
  typed := by simp [KeysTyped]

/-- A deletion of documents with their state keeps the invariant. -/
theorem ChunkHeld.delete {removed : List String} (hs : ChunkHeld rt model assign columns s)
    (htable : deleteRows "document_id" (removed.map .string) s.table = .ok t.table)
    (hstate : t.state = s.state.delete removed) : ChunkHeld rt model assign columns t := by
  obtain ⟨hschema, hrows⟩ := deleteRows_eq_ok htable
  have hsame : schemaOf t.table = schemaOf s.table := by rw [schemaOf, hschema, schemaOf]
  refine ⟨fun d v hd => ?_, fun d hd => ?_, fun row hrow => ?_, ?_, fun target htarget => ?_⟩
  · rw [hstate, StateTable.lookup_delete] at hd
    split at hd
    · cases hd
    rename_i hkeep
    obtain ⟨config, record, chunkedAt, rows, hheld⟩ := hs.documents d v hd
    refine ⟨config, record, chunkedAt, rows, hheld.metadata, hheld.id, hheld.state, hheld.emitted,
      ?_, ?_⟩
    · rw [hsame, rowsAt_deleteRows htable, if_neg hkeep]
      exact hheld.stored
    · rw [hsame]
      exact hheld.wide
  · rw [rowsAt_deleteRows htable]
    rw [hstate, StateTable.lookup_delete] at hd
    split at hd
    · rename_i hin
      exact if_pos hin
    · rename_i hout
      rw [if_neg hout]
      exact hs.absent d hd
  · rw [hrows] at hrow
    exact hs.owned row (List.mem_of_mem_filter hrow)
  · rw [hrows]
    exact hs.chunkIds.sublist (List.filter_sublist.map _)
  · rw [htarget] at hschema
    obtain ⟨before, hbefore, hsame⟩ := Option.map_eq_some_iff.mp hschema.symm
    rw [← hsame]
    exact hs.typed before hbefore

/-- A stored row carries an identifier made from its document. -/
theorem DocumentHeld.chunkId (hrt : rt.Reliable assign) {d : String} {v : StateValue}
    {config : ChunkConfig} {record : Row} {chunkedAt : String} {rows : List Row}
    (hheld : DocumentHeld rt model assign columns s.table d v config record chunkedAt rows)
    (htyped : KeysTyped s.table) {row : Row} (hrow : row ∈ rowsAt "document_id" (rowsOf s.table) d) :
    ∃ i text id, makeChunkId rt.digest d i text = .ok id ∧ row "chunk_id" = .string id := by
  obtain ⟨full, hfull, hstored⟩ := exists_of_mem_right hheld.stored hrow
  obtain ⟨-, ⟨i, text, id, hid, hcell⟩, -⟩ := documentRows_eq_ok hheld.emitted hfull
  obtain ⟨target, htarget⟩ : ∃ target, s.table = some target := by
    cases htable : s.table with
    | none =>
      rw [htable] at hrow
      cases hrow
    | some target => exact ⟨target, rfl⟩
  have htype := (htyped target htarget).2
  rw [htarget, schemaOf_some] at hstored
  exact ⟨i, text, id, hid, hstored.string hrt htype (generated_mem_emitted (by decide))
    (by decide) hcell⟩

end Invariant

/-- The key columns of a frame of chunk rows are strings. -/
theorem ChunkLoop.Covers.chunks_typed {rt : ChunkRuntime} {model : ChunkModel} {assign : Assignment}
    {columns : List String} {config : ChunkConfig} {chunkedAt : String}
    {previous : String → Option StateValue} {documents : List (String × Row)} {loop : ChunkLoop}
    {chunks : Frame} (hrt : rt.Reliable assign)
    (h : loop.Covers rt model config columns chunkedAt previous documents)
    (hframe : chunkFrame rt config columns loop.rows = .ok chunks) (hne : loop.rows ≠ []) :
    chunks.schema.lookup "document_id" = some "String" ∧
      chunks.schema.lookup "chunk_id" = some "String" := by
  have hlookup : ∀ c ∈ chunkGeneratedFields, (∀ row ∈ loop.rows, ∃ x, row c = .string x) →
      chunks.schema.lookup c = some "String" := by
    intro c hc hstring
    rw [(h.chunkFrame_ok hframe).2.2 hne, lookup_map_pair (generated_mem_emitted hc)]
    have hnonempty : loop.rows.map (· c) ≠ [] := by simpa using hne
    rw [hrt.inferType_string _ hnonempty (by simpa using hstring), ite_self]
  refine ⟨hlookup _ (by decide) fun row hrow => ?_, hlookup _ (by decide) fun row hrow => ?_⟩
  · obtain ⟨d, -, -, -, hid, -⟩ := h.exists_chunked hrow
    exact ⟨d, hid⟩
  · obtain ⟨-, -, -, -, -, ⟨-, -, id, -, hcell⟩, -⟩ := h.exists_chunked hrow
    exact ⟨id, hcell⟩

/-- A frame of chunk rows without columns has no rows. -/
theorem ChunkLoop.Covers.rows_eq_nil {rt : ChunkRuntime} {model : ChunkModel}
    {columns : List String} {config : ChunkConfig} {chunkedAt : String}
    {previous : String → Option StateValue} {documents : List (String × Row)} {loop : ChunkLoop}
    {chunks : Frame} (h : loop.Covers rt model config columns chunkedAt previous documents)
    (hframe : chunkFrame rt config columns loop.rows = .ok chunks) (hnil : chunks.schema = []) :
    chunks.rows = [] := by
  by_contra hne
  have hcolumns := h.chunks_columns hframe ((h.chunkFrame_ok hframe).1 ▸ hne)
  have hgenerated : "chunk_id" ∈ emittedColumns config columns := generated_mem_emitted (by decide)
  rw [← hcolumns, Frame.columns, hnil] at hgenerated
  cases hgenerated

/-- The key columns of a target that holds strings stay so if those of the new rows do. -/
theorem KeysTyped.replaced {assign : Assignment} {keys : List String} {newRows : Frame}
    {policy : OnSchemaChange} {existing result : Option Frame} {stored : List Row}
    (h : KeysTyped existing)
    (hreplaced : Replaced assign "document_id" keys "chunk_id" newRows policy existing result stored)
    (hnew : newRows.rows ≠ [] → newRows.schema.lookup "document_id" = some "String" ∧
      newRows.schema.lookup "chunk_id" = some "String") : KeysTyped result := fun target htarget =>
  ⟨hreplaced.lookup (fun before hbefore => (h before hbefore).1) (fun hne => (hnew hne).1) target
    htarget, hreplaced.lookup (fun before hbefore => (h before hbefore).2)
      (fun hne => (hnew hne).2) target htarget⟩

/-! ### The publication of an incremental run -/

section Publish

variable {rt : ChunkRuntime} {model : ChunkModel} {assign : Assignment} {columns : List String}
  {config : ChunkConfig} {chunkedAt : String} {documents : List (String × Row)} {loop : ChunkLoop}
  {chunks : Frame} {u t : Target} {stored : List Row}

/-- The publication of an incremental run, after it deleted the removed documents. -/
structure ChunkPublished (rt : ChunkRuntime) (model : ChunkModel) (assign : Assignment)
    (columns : List String) (config : ChunkConfig) (chunkedAt : String)
    (documents : List (String × Row)) (loop : ChunkLoop) (chunks : Frame) (u t : Target)
    (stored : List Row) : Prop where
  reliable : rt.Reliable assign
  metadata : MetadataHashed config
  held : ChunkHeld rt model assign columns u
  current : ∀ d, u.state.lookup d ≠ none → ∃ record, (d, record) ∈ documents
  nodup : (documents.map Prod.fst).Nodup
  ids : ∀ d record, (d, record) ∈ documents → (record "document_id").text = some d
  covers : loop.Covers rt model config columns chunkedAt (fun d => u.state.lookup d) documents
  frame : chunkFrame rt config columns loop.rows = .ok chunks
  records : (loop.records.map (·.recordKey)).Nodup
  replaced : Replaced assign "document_id" loop.changedIds "chunk_id" chunks model.onSchemaChange
    u.table t.table stored
  state : t.state = u.state.upsert loop.records

namespace ChunkPublished

/-- A document that the run chunks. -/
def Chunked (rt : ChunkRuntime) (model : ChunkModel) (columns : List String) (config : ChunkConfig)
    (documents : List (String × Row)) (u : Target) (d : String) (record : Row) : Prop :=
  (d, record) ∈ documents ∧ u.state.lookup d ≠ some (chunkState rt model config columns record)

variable (p : ChunkPublished rt model assign columns config chunkedAt documents loop chunks u t
  stored)
include p

theorem emitted {d : String} {record : Row}
    (h : Chunked rt model columns config documents u d record) :
    documentRows rt model config columns chunkedAt d record =
      .ok (rowsAt "document_id" loop.rows d) :=
  (p.covers.chunked d record h.1 h.2).1

/-- Every emitted row belongs to a document that the run chunks. -/
theorem exists_chunked {row : Row} (hrow : row ∈ loop.rows) :
    ∃ d record, Chunked rt model columns config documents u d record ∧
      row ∈ rowsAt "document_id" loop.rows d ∧ row "document_id" = .string d ∧
      (∃ i text id, makeChunkId rt.digest d i text = .ok id ∧ row "chunk_id" = .string id) ∧
      ∀ c ∉ emittedColumns config columns, row c = .null :=
  p.covers.exists_chunked hrow

theorem chunks_rows : chunks.rows = loop.rows := (p.covers.chunkFrame_ok p.frame).1

theorem chunks_columns (hne : loop.rows ≠ []) :
    chunks.columns = emittedColumns config columns := p.covers.chunks_columns p.frame hne

/-- The key columns of a target that the run creates are strings. -/
theorem typed : KeysTyped t.table :=
  p.held.typed.replaced p.replaced fun hne =>
    p.covers.chunks_typed p.reliable p.frame (p.chunks_rows ▸ hne)

/-- The rows of documents that the run does not chunk clash with no emitted row. -/
theorem no_clash {d : String} (hkept : ∀ record, ¬ Chunked rt model columns config documents u d record)
    {row : Row} (hrow : row ∈ rowsAt "document_id" (rowsOf u.table) d) :
    ¬ ∃ e ∈ chunks.rows, (row "chunk_id").Equals (e "chunk_id") := by
  rintro ⟨e, he, x, hx, hex⟩
  rw [p.chunks_rows] at he
  cases hstate : u.state.lookup d with
  | none =>
    rw [p.held.absent d hstate] at hrow
    cases hrow
  | some v =>
    obtain ⟨config', record, at', rows, hheld⟩ := p.held.documents d v hstate
    obtain ⟨i, text, id, hid, hcell⟩ := hheld.chunkId p.reliable p.held.typed hrow
    obtain ⟨d', record', hchunked, -, -, ⟨i', text', id', hid', hcell'⟩, -⟩ := p.exists_chunked he
    rw [hcell] at hx
    rw [hcell'] at hex
    obtain rfl : id = x := Option.some.inj hx
    obtain rfl : id' = id := Option.some.inj hex
    obtain ⟨rfl, -⟩ := makeChunkId_inj p.reliable.digest_inj hid hid'
    exact hkept record' hchunked

/-- A stored row has the key cells of the emitted one. -/
theorem stored_keys :
    List.Forall₂ (fun row st =>
      assignRow assign (schemaOf t.table) (emittedColumns config columns) row = some st ∧
        st "document_id" = row "document_id" ∧ st "chunk_id" = row "chunk_id") loop.rows stored := by
  by_cases hempty : loop.rows = []
  · have hstored := p.replaced.stored
    rw [p.chunks_rows, hempty] at hstored
    rw [hempty, List.forall₂_nil_left_iff.mp hstored]
    exact .nil
  have hrel := p.replaced.stored
  rw [p.chunks_rows, p.chunks_columns hempty] at hrel
  obtain ⟨target, htarget⟩ := p.replaced.exists_result (p.chunks_rows ▸ hempty)
  obtain ⟨hdocument, hchunk⟩ := p.typed target htarget
  refine forall₂_imp_of_mem hrel fun row hmem st hassign => ?_
  obtain ⟨d, -, -, -, hid, ⟨-, -, id, -, hcell⟩, -⟩ := p.exists_chunked hmem
  have hkey : ∀ c ∈ chunkGeneratedFields, c ≠ "chunked_at" → (∃ x, row c = .string x) →
      target.schema.lookup c = some "String" → st c = row c := by
    rintro c hc htime ⟨x, hx⟩ htype
    have hst : StoredAs assign (schemaOf t.table) (emittedColumns config columns) row st :=
      ⟨row, fun _ _ => rfl, hassign⟩
    rw [htarget, schemaOf_some] at hst
    rw [hx, hst.string p.reliable htype (generated_mem_emitted hc) htime hx]
  exact ⟨hassign, hkey _ (by decide) (by decide) ⟨d, hid⟩ hdocument,
    hkey _ (by decide) (by decide) ⟨id, hcell⟩ hchunk⟩

theorem rowsAt_stored (d : String) :
    List.Forall₂ (StoredAs assign (schemaOf t.table) (emittedColumns config columns))
      (rowsAt "document_id" loop.rows d) (rowsAt "document_id" stored d) := by
  refine (List.rel_filter ?_ p.stored_keys).imp fun row st h => ⟨row, fun _ _ => rfl, h.1⟩
  rintro row st ⟨-, hid, -⟩
  simp only [decide_eq_true_iff, hid]

/-- The rows of a document that the run does not chunk stay. -/
theorem rowsAt_kept {d : String}
    (hkept : ∀ record, ¬ Chunked rt model columns config documents u d record) :
    rowsAt "document_id" (rowsOf t.table) d = rowsAt "document_id" (rowsOf u.table) d := by
  have hcurrent : ∀ record, (d, record) ∈ documents →
      u.state.lookup d = some (chunkState rt model config columns record) := fun record hmem => by
    by_contra hne
    exact hkept record ⟨hmem, hne⟩
  obtain ⟨hnone, hunchanged, -⟩ := p.covers.kept d hcurrent
  have hstored : rowsAt "document_id" stored d = [] := by
    have hrel := p.rowsAt_stored d
    rw [hnone] at hrel
    exact List.forall₂_nil_left_iff.mp hrel
  rw [p.replaced.rows, rowsAt_append, hstored, List.append_nil, rowsAt_filter_eq, rowsAt_filter_eq]
  · intro row hrow
    refine decide_eq_true ?_
    rintro ⟨cell, hcell, heq⟩
    obtain ⟨key, hkey, rfl⟩ := List.mem_map.mp hcell
    have htext := Cell.equals_string.mp heq
    rw [(mem_rowsAt.mp hrow).2] at htext
    obtain rfl := Option.some.inj htext
    exact hunchanged hkey
  · intro row hrow
    obtain ⟨hmem, htext⟩ := mem_rowsAt.mp hrow
    exact decide_eq_true (p.no_clash hkept (mem_rowsAt.mpr ⟨List.mem_of_mem_filter hmem, htext⟩))

/-- The rows of a document that the run chunks are the stored ones. -/
theorem rowsAt_chunked {d : String} {record : Row}
    (h : Chunked rt model columns config documents u d record) :
    rowsAt "document_id" (rowsOf t.table) d = rowsAt "document_id" stored d := by
  rw [p.replaced.rows, rowsAt_append]
  suffices hold : rowsAt "document_id" ((rowsOf u.table).filter fun row =>
      decide (¬ ∃ k ∈ loop.changedIds.map Cell.string, (row "document_id").Equals k)) d = [] by
    rw [rowsAt_filter_eq_nil, List.nil_append]
    intro row hrow
    rw [hold] at hrow
    cases hrow
  by_cases hstate : u.state.lookup d = none
  · refine rowsAt_filter_eq_nil fun row hrow => ?_
    rw [p.held.absent d hstate] at hrow
    cases hrow
  · have hchanged := (p.covers.chunked d record h.1 h.2).2.2 hstate
    refine rowsAt_filter_eq_nil fun row hrow => decide_eq_false (not_not.mpr ?_)
    exact ⟨.string d, List.mem_map_of_mem hchanged, Cell.equals_string.mpr (mem_rowsAt.mp hrow).2⟩

theorem lookup_chunked {d : String} {record : Row}
    (h : Chunked rt model columns config documents u d record) :
    t.state.lookup d = some (chunkState rt model config columns record) := by
  rw [p.state]
  exact StateTable.lookup_upsert p.records (p.covers.chunked d record h.1 h.2).2.1

theorem lookup_kept {d : String}
    (hkept : ∀ record, ¬ Chunked rt model columns config documents u d record) :
    t.state.lookup d = u.state.lookup d := by
  rw [p.state]
  refine StateTable.lookup_upsert_of_notMem (p.covers.kept d fun record hmem => ?_).2.2
  by_contra hne
  exact hkept record ⟨hmem, hne⟩

theorem not_chunked {d : String} {record : Row} (hmem : (d, record) ∈ documents)
    (hskip : u.state.lookup d = some (chunkState rt model config columns record)) (record' : Row) :
    ¬ Chunked rt model columns config documents u d record' := by
  rintro ⟨hmem', hne⟩
  obtain ⟨-, rfl⟩ := Prod.mk.inj (List.inj_on_of_nodup_map p.nodup hmem' hmem rfl)
  exact hne hskip

/-- The documents of the frame are current afterwards, and no others. -/
theorem lookup_document {d : String} {record : Row} (hmem : (d, record) ∈ documents) :
    t.state.lookup d = some (chunkState rt model config columns record) := by
  by_cases hskip : u.state.lookup d = some (chunkState rt model config columns record)
  · rw [p.lookup_kept (p.not_chunked hmem hskip), hskip]
  · exact p.lookup_chunked ⟨hmem, hskip⟩

theorem lookup_other {d : String} (hout : ∀ record, (d, record) ∉ documents) :
    t.state.lookup d = none := by
  rw [p.lookup_kept fun record h => hout record h.1]
  by_contra hne
  obtain ⟨record, hmem⟩ := p.current d hne
  exact hout record hmem

/-- A document whose rows stay is stored under the current configuration. -/
theorem held_kept {d : String} {v : StateValue} (hv : u.state.lookup d = some v)
    (hkept : ∀ record, ¬ Chunked rt model columns config documents u d record) :
    ∃ config' record chunkedAt' rows,
      DocumentHeld rt model assign columns t.table d v config' record chunkedAt' rows := by
  obtain ⟨config', record', chunkedAt', rows, hheld⟩ := p.held.documents d v hv
  obtain ⟨record, hmem⟩ := p.current d (by rw [hv]; simp)
  have hcurrent : v = chunkState rt model config columns record := by
    by_contra hne
    exact hkept record ⟨hmem, fun he => hne (Option.some.inj (hv.symm.trans he))⟩
  obtain rfl : config' = config :=
    p.reliable.codeVersion_inj (StateValue.mk.inj (hheld.state.symm.trans hcurrent)).2
  have hrows := p.rowsAt_kept hkept
  suffices hstays : List.Forall₂ (StoredAs assign (schemaOf t.table) (emittedColumns config' columns))
      rows (rowsAt "document_id" (rowsOf t.table) d) ∧ (rows ≠ [] → model.onSchemaChange ≠ .ignore →
        emittedColumns config' columns ⊆ (schemaOf t.table).map Prod.fst) from
    ⟨config', record', chunkedAt', rows, hheld.metadata, hheld.id, hheld.state, hheld.emitted,
      hstays.1, hstays.2⟩
  by_cases hempty : rows = []
  · have hnone : rowsAt "document_id" (rowsOf u.table) d = [] :=
      List.forall₂_nil_left_iff.mp (hempty ▸ hheld.stored)
    refine ⟨?_, fun hne => absurd hempty hne⟩
    rw [hrows, hnone, hempty]
    exact .nil
  · have hsame : schemaOf t.table = schemaOf u.table := by
      refine p.replaced.same (fun hnone => hempty ?_) fun hne hpolicy => ?_
      · have hstored := hheld.stored
        rw [hnone] at hstored
        exact List.forall₂_nil_right_iff.mp hstored
      · rw [p.chunks_columns (p.chunks_rows ▸ hne)]
        exact hheld.wide hempty hpolicy
    refine ⟨?_, fun hne hpolicy => ?_⟩
    · rw [hrows, hsame]
      exact hheld.stored
    · rw [hsame]
      exact hheld.wide hne hpolicy

/-- The publication keeps the invariant. -/
theorem held_after : ChunkHeld rt model assign columns t := by
  refine ⟨fun d v hd => ?_, fun d hd => ?_, fun row hrow => ?_, ?_, p.typed⟩
  · by_cases hchunked : ∃ record, Chunked rt model columns config documents u d record
    · obtain ⟨record, hchunked⟩ := hchunked
      rw [p.lookup_chunked hchunked] at hd
      refine ⟨config, record, chunkedAt, _, p.metadata, p.ids d record hchunked.1,
        (Option.some.inj hd).symm, p.emitted hchunked, ?_, fun hne hpolicy => ?_⟩
      · rw [p.rowsAt_chunked hchunked]
        exact p.rowsAt_stored d
      · have hnonempty : loop.rows ≠ [] := fun he => hne (by rw [he, rowsAt_nil])
        rw [← p.chunks_columns hnonempty]
        exact p.replaced.wide (p.chunks_rows ▸ hnonempty) hpolicy
    · have hkept := fun record h => hchunked ⟨record, h⟩
      rw [p.lookup_kept hkept] at hd
      exact p.held_kept hd hkept
  · have hkept : ∀ record, ¬ Chunked rt model columns config documents u d record := by
      intro record h
      rw [p.lookup_chunked h] at hd
      cases hd
    rw [p.rowsAt_kept hkept]
    exact p.held.absent d (p.lookup_kept hkept ▸ hd)
  · rw [p.replaced.rows] at hrow
    rcases List.mem_append.mp hrow with hrow | hrow
    · exact p.held.owned row (List.mem_of_mem_filter (List.mem_of_mem_filter hrow))
    · obtain ⟨source, hsource, -, hid, -⟩ := exists_of_mem_right p.stored_keys hrow
      obtain ⟨d, -, -, -, hd, -⟩ := p.exists_chunked hsource
      exact ⟨d, by rw [hid, hd]; rfl⟩
  · rw [p.replaced.rows, List.map_append]
    have hkeys : stored.map (· "chunk_id") = loop.rows.map (· "chunk_id") := by
      have hrel : List.Forall₂ (· = ·) (loop.rows.map (· "chunk_id"))
          (stored.map (· "chunk_id")) := by
        rw [List.forall₂_map_left_iff, List.forall₂_map_right_iff]
        exact p.stored_keys.imp fun _ _ h => h.2.2.symm
      rw [List.forall₂_eq_eq_eq] at hrel
      exact hrel.symm
    refine List.nodup_append'.mpr ⟨?_, ?_, ?_⟩
    · exact p.held.chunkIds.sublist
        ((List.filter_sublist.trans List.filter_sublist).map _)
    · rw [hkeys, ← p.chunks_rows]
      exact p.replaced.keys
    · rw [hkeys]
      intro x hx hx'
      obtain ⟨row, hrow, rfl⟩ := List.mem_map.mp hx
      obtain ⟨e, he, heq⟩ := List.mem_map.mp hx'
      obtain ⟨-, -, -, -, -, ⟨-, -, id, -, hcell⟩, -⟩ := p.exists_chunked he
      have hclash := of_decide_eq_true (List.mem_filter.mp hrow).2
      refine hclash ⟨e, p.chunks_rows ▸ he, id, ?_, by rw [hcell]; rfl⟩
      rw [← heq, hcell]
      rfl

/-- If the target has the emitted columns, it has them afterwards. -/
theorem columns_after
    (hu : ∀ target, u.table = some target → target.columns = emittedColumns config columns) :
    ∀ target, t.table = some target → target.columns = emittedColumns config columns := by
  intro target htarget
  suffices hschema : (schemaOf t.table).map Prod.fst = emittedColumns config columns by
    rw [htarget] at hschema
    exact hschema
  cases hbefore : u.table with
  | none =>
    by_cases hempty : loop.rows = []
    · rw [p.replaced.missing hbefore (p.chunks_rows.trans hempty)] at htarget
      cases htarget
    · rw [p.replaced.fresh hbefore (by rwa [p.chunks_rows])]
      exact p.chunks_columns hempty
  | some before =>
    have hcolumns := hu before hbefore
    rw [p.replaced.same (by simp [hbefore]) fun hne _ => ?_, hbefore]
    · exact hcolumns
    · rw [p.chunks_columns (p.chunks_rows ▸ hne), hbefore, schemaOf_some, ← hcolumns]
      exact List.Subset.refl _

end ChunkPublished

end Publish

/-! ### Sequences of incremental runs -/

section History

variable {rt : ChunkRuntime} {model : ChunkModel} {assign : Assignment} {table : String}
  {columns : List String} {config : ChunkConfig} {chunkedAt : String} {frame : Frame} {s t : Target}

/-- A run that returns deletes the removed documents and publishes the rest. -/
theorem exists_published (hrt : rt.Reliable assign) (hincremental : model.incremental = true)
    (hs : ChunkHeld rt model assign frame.columns s) (hmetadata : MetadataHashed config)
    {result : ChunkResult}
    (hrun : (runChunkModel rt model config false chunkedAt frame).exec (TargetOp.exec assign table)
      s = (t, .ok result)) :
    validateChunkInput model config frame = .ok () ∧ ∃ ids loop chunks u stored,
      chunkDocumentIds model frame = .ok ids ∧
        u.table.map Frame.schema = s.table.map Frame.schema ∧
        ChunkPublished rt model assign frame.columns config chunkedAt (ids.zip frame.rows) loop
          chunks u t stored := by
  rcases incremental_chunk_cases hincremental hrun with ⟨⟨e, he⟩, -⟩ | ⟨-, ids, loop, chunks,
    deleted, hvalid, hids, hloop, hdeleted, hchunks, hnodup, hreplace, hstate⟩
  · cases he
  refine ⟨hvalid, ids, loop, chunks, ⟨deleted, s.state.delete (s.state.keys.filter (· ∉ ids))⟩, ?_⟩
  have hdocuments := documents_zip hids
  have hlookup : ∀ d, (s.state.delete (s.state.keys.filter (· ∉ ids))).lookup d =
      if d ∈ ids then s.state.lookup d else none := by
    intro d
    rw [StateTable.lookup_delete]
    by_cases hd : d ∈ ids
    · simp [hd]
    · rw [if_neg hd]
      by_cases hkey : d ∈ s.state.keys
      · rw [if_pos (List.mem_filter.mpr ⟨hkey, by simpa using hd⟩)]
      · rw [ite_eq_left_iff]
        intro
        exact AList.lookup_eq_none.mpr hkey
  have hschema := (deleteRows_eq_ok hdeleted).1
  have hloop' : chunkDocuments rt model config frame.columns chunkedAt
      (fun d => (s.state.delete (s.state.keys.filter (· ∉ ids))).lookup d) (ids.zip frame.rows) =
        .ok loop := by
    rw [← hloop]
    refine chunkDocuments_congr fun d hd => ?_
    rw [hdocuments.1] at hd
    rw [hlookup, if_pos hd]
  have hcovers := chunkDocuments_covers hdocuments.2.1 hloop'
  have hwidth := fun hnil => hcovers.rows_eq_nil hchunks hnil
  obtain ⟨stored, hreplaced⟩ := replaceChildren_eq_ok hwidth hreplace
  refine ⟨stored, hids, hschema, hrt, hmetadata, hs.delete hdeleted rfl,
    fun d hd => ?_, hdocuments.2.1, hdocuments.2.2, hcovers, hchunks, hnodup, hreplaced, hstate⟩
  rw [hlookup] at hd
  by_contra hout
  rw [if_neg (mt (mem_documents hids).mp hout)] at hd
  exact hd rfl

/-- A sequence of incremental runs over upstream frames with the same columns, under the given
configurations, the last one first. -/
inductive ChunkHistory (rt : ChunkRuntime) (model : ChunkModel) (assign : Assignment)
    (table : String) (columns : List String) : List ChunkConfig → Target → Prop
  | empty : ChunkHistory rt model assign table columns [] {}
  | run (config : ChunkConfig) (chunkedAt : String) (frame : Frame) {configs s t out}
      (h : ChunkHistory rt model assign table columns configs s) (hcolumns : frame.columns = columns)
      (hmetadata : MetadataHashed config)
      (hrun : (runChunkModel rt model config false chunkedAt frame).exec
        (TargetOp.exec assign table) s = (t, out)) :
      ChunkHistory rt model assign table columns (config :: configs) t

/-- Every run keeps the invariant. -/
theorem ChunkHeld.run (hrt : rt.Reliable assign) (hincremental : model.incremental = true)
    (hs : ChunkHeld rt model assign frame.columns s) (hmetadata : MetadataHashed config)
    {out : Except Failure ChunkResult}
    (hrun : (runChunkModel rt model config false chunkedAt frame).exec (TargetOp.exec assign table)
      s = (t, out)) : ChunkHeld rt model assign frame.columns t := by
  cases out with
  | ok result =>
    obtain ⟨-, ids, loop, chunks, u, stored, -, -, p⟩ :=
      exists_published hrt hincremental hs hmetadata hrun
    exact p.held_after
  | error e =>
    rcases incremental_chunk_cases hincremental hrun with ⟨-, removed, hdeleted, hstate⟩ | ⟨⟨r, hr⟩, -⟩
    · exact hs.delete hdeleted hstate
    · cases hr

theorem ChunkHistory.held (hrt : rt.Reliable assign) (hincremental : model.incremental = true)
    {configs : List ChunkConfig} (h : ChunkHistory rt model assign table columns configs s) :
    ChunkHeld rt model assign columns s := by
  induction h with
  | empty => exact .empty
  | run config chunkedAt frame _ hcolumns hmetadata hrun ih =>
    subst hcolumns
    exact ih.run hrt hincremental hmetadata hrun

theorem ChunkHistory.columns_eq (hrt : rt.Reliable assign) (hincremental : model.incremental = true)
    {configs : List ChunkConfig} (h : ChunkHistory rt model assign table columns configs s)
    {emitted : List String} (hsame : ∀ c ∈ configs, emittedColumns c columns = emitted) :
    ∀ target, s.table = some target → target.columns = emitted := by
  induction h with
  | empty => simp
  | run config chunkedAt frame h hcolumns hmetadata hrun ih =>
    rename_i configs s t out
    subst hcolumns
    obtain ⟨rfl, hsame⟩ := List.forall_mem_cons.mp hsame
    have hafter : ∀ {after : Option Frame}, after.map Frame.schema = s.table.map Frame.schema →
        ∀ target, after = some target → target.columns = emittedColumns config frame.columns := by
      rintro _ hschema target rfl
      obtain ⟨before, hbefore, heq⟩ := Option.map_eq_some_iff.mp hschema.symm
      rw [Frame.columns, ← heq]
      exact ih hsame before hbefore
    cases out with
    | ok result =>
      obtain ⟨-, ids, loop, chunks, u, stored, -, hu, p⟩ :=
        exists_published hrt hincremental (h.held hrt hincremental) hmetadata hrun
      exact p.columns_after (hafter hu)
    | error e =>
      rcases incremental_chunk_cases hincremental hrun with ⟨-, removed, hdeleted, -⟩ | ⟨⟨r, hr⟩, -⟩
      · exact hafter (deleteRows_eq_ok hdeleted).1
      · cases hr

/-- The rows of a document depend on what its fingerprint covers only. -/
theorem documentRows_of_carried {columns' : List String} {record record' : Row}
    {d : String} (hmetadata : MetadataHashed config)
    (hcolumns : ∀ field ∈ config.inTextMetadata, field ∈ columns)
    (hid : (record "document_id").text = ( record' "document_id").text)
    (htext : documentText config record = documentText config record')
    (hcarried : carriedValues config columns record = carriedValues config columns' record') :
    documentRows rt model config columns chunkedAt d record =
      documentRows rt model config columns' chunkedAt d record' := by
  have hblock : renderMetadataBlock record config.inTextMetadata =
      renderMetadataBlock record' config.inTextMetadata := by
    refine renderMetadataBlock_congr fun field hfield => ?_
    by_cases hgenerated : field ∈ chunkGeneratedFields
    · rw [hmetadata field hfield hgenerated, hid]
    · have hne : field ≠ config.textField := fun he => config.text_notMem (he ▸ hfield)
      have hcarry : field ∈ carryColumns config columns :=
        List.mem_filter.mpr ⟨hcolumns field hfield, by simpa using ⟨hne, hgenerated⟩⟩
      have hmem : (field, record field) ∈ carriedValues config columns' record' := by
        rw [← hcarried]
        exact List.mem_map_of_mem (f := fun c => (c, record c)) hcarry
      obtain ⟨c, -, hc⟩ := List.mem_map.mp hmem
      obtain ⟨rfl, hcell⟩ := Prod.mk.inj hc
      rw [hcell]
  simp only [documentRows, htext, hcarried, hblock]

/-- The document of a current state is stored as the upstream has it. -/
theorem DocumentHeld.current (hrt : rt.Reliable assign) {d : String} {record record' : Row}
    {config' : ChunkConfig} {rows : List Row} {existing : Option Frame}
    (hheld : DocumentHeld rt model assign columns existing d
      (chunkState rt model config columns record) config' record' chunkedAt rows)
    (hd : (record "document_id").text = some d)
    (hcolumns : ∀ field ∈ config.inTextMetadata, field ∈ columns) :
    config' = config ∧ documentRows rt model config columns chunkedAt d record = .ok rows := by
  obtain ⟨hhash, hcode⟩ := StateValue.mk.inj hheld.state
  obtain rfl := hrt.codeVersion_inj hcode
  obtain ⟨-, htext, hcarried⟩ := hrt.inputFingerprint_inj hhash
  refine ⟨rfl, ?_⟩
  rw [documentRows_of_carried hheld.metadata hcolumns (hd.trans hheld.id.symm) htext hcarried]
  exact hheld.emitted

/-- The target rows of each document are, in order, the given rows of the document, as the target
stores them and whatever the time of the run. -/
def SameChunks (assign : Assignment) (emitted : List String) (full : List Row)
    (existing : Option Frame) : Prop :=
  ∀ d, List.Forall₂ (StoredAs assign (schemaOf existing) emitted) (rowsAt "document_id" full d)
    (rowsAt "document_id" (rowsOf existing) d)

theorem StoredAs.of_sameButTime {schema : List (String × String)} {emitted : List String}
    {full full' stored : Row} (h : StoredAs assign schema emitted full stored)
    (hsame : SameButTime full full') : StoredAs assign schema emitted full' stored := by
  obtain ⟨row, hrow, hassign⟩ := h
  exact ⟨row, hsame.symm.trans hrow, hassign⟩

/-- The rows of every document of the frame after a run that returns. -/
theorem ChunkPublished.document_rows {documents : List (String × Row)} {loop : ChunkLoop} {chunks : Frame}
    {u : Target} {stored : List Row}
    (p : ChunkPublished rt model assign columns config chunkedAt documents loop chunks u t stored)
    (hcolumns : ∀ field ∈ config.inTextMetadata, field ∈ columns) {d : String} {record : Row}
    (hmem : (d, record) ∈ documents) (chunkedAt' : String) :
    ∃ rows, documentRows rt model config columns chunkedAt' d record = .ok rows ∧
      List.Forall₂ (StoredAs assign (schemaOf t.table) (emittedColumns config columns)) rows
        (rowsAt "document_id" (rowsOf t.table) d) := by
  obtain ⟨config', record', time, rows, hheld⟩ :=
    p.held_after.documents d _ (p.lookup_document hmem)
  obtain ⟨rfl, hrows⟩ := hheld.current p.reliable (p.ids d record hmem) hcolumns
  obtain ⟨rows', hrows', hsame⟩ := documentRows_chunkedAt hrows chunkedAt'
  refine ⟨rows', hrows', ?_⟩
  have hstored := hheld.stored
  generalize rowsAt "document_id" (rowsOf t.table) d = held at hstored ⊢
  clear hheld hrows hrows'
  induction hsame generalizing held with
  | nil => exact hstored
  | cons hrow _ ih =>
    obtain ⟨st, rest, hst, hrest, rfl⟩ := List.forall₂_cons_left_iff.mp hstored
    exact .cons (hst.of_sameButTime hrow) (ih _ hrest)

/-- What the columns checks promise about the metadata. -/
theorem validateChunkInput_eq_ok {u : Unit} (h : validateChunkInput model config frame = .ok u) :
    ∀ field ∈ config.inTextMetadata, field ∈ frame.columns := by
  simp only [validateChunkInput] at h
  split at h
  · cases h
  split at h
  · cases h
  split at h
  · cases h
  split at h
  · cases h
  rename_i hmissing
  intro field hfield
  by_contra hout
  exact hmissing (List.ne_nil_of_mem (List.mem_filter.mpr ⟨hfield, by simpa using hout⟩))

/-- **Incremental chunking equals full chunking.** After any sequence of incremental runs on
upstream frames with the same columns, a run that returns leaves, document by document and in order,
the rows that a full refresh on its upstream emits, as the target's columns store them and up to
`chunked_at`. Every target row belongs to a document of the upstream, the chunk ids are distinct,
and the target has the emitted columns if all the configurations emit the same ones. -/
theorem incremental_chunks_match (hrt : rt.Reliable assign) (hincremental : model.incremental = true)
    {configs : List ChunkConfig}
    (hs : ChunkHistory rt model assign table frame.columns configs s)
    (hmetadata : MetadataHashed config) {result : ChunkResult}
    (hrun : (runChunkModel rt model config false chunkedAt frame).exec (TargetOp.exec assign table)
      s = (t, .ok result)) :
    (∀ chunkedAt', ∃ full, fullChunkRows rt model config chunkedAt' frame = .ok full ∧
      SameChunks assign (emittedColumns config frame.columns) full t.table ∧
      ∀ s' u result', (runChunkModel rt model config true chunkedAt' frame).exec
        (TargetOp.exec assign table) s' = (u, .ok result') → rowsOf u.table = full) ∧
    (∀ row ∈ rowsOf t.table, ∃ record ∈ frame.rows, ∃ d,
      (record "document_id").text = some d ∧ (row "document_id").text = some d) ∧
    ((rowsOf t.table).map (· "chunk_id")).Nodup ∧
    ((∀ c ∈ configs, emittedColumns c frame.columns = emittedColumns config frame.columns) →
      ∀ target, t.table = some target → target.columns = emittedColumns config frame.columns) := by
  obtain ⟨hvalid, ids, loop, chunks, u, stored, hids, -, p⟩ :=
    exists_published hrt hincremental (hs.held hrt hincremental) hmetadata hrun
  have hcurrent : ∀ d record, (d, record) ∈ ids.zip frame.rows → ∀ chunkedAt', ∃ rows,
      documentRows rt model config frame.columns chunkedAt' d record = .ok rows ∧
        List.Forall₂ (StoredAs assign (schemaOf t.table) (emittedColumns config frame.columns)) rows
          (rowsAt "document_id" (rowsOf t.table) d) := fun d record hmem =>
    p.document_rows (validateChunkInput_eq_ok hvalid) hmem
  refine ⟨fun chunkedAt' => ?_, fun row hrow => ?_, p.held_after.chunkIds, fun hsame => ?_⟩
  · obtain ⟨all, hall⟩ := chunkDocuments_isOk fun d record hmem =>
      (hcurrent d record hmem chunkedAt').imp fun _ h => h.1
    have hcovers := chunkDocuments_covers p.nodup hall
    have hfull : fullChunkRows rt model config chunkedAt' frame = .ok all.rows :=
      bind_eq_ok.mpr ⟨ids, hids, bind_eq_ok.mpr ⟨all, hall, rfl⟩⟩
    refine ⟨all.rows, hfull, fun d => ?_, fun s' v result' hrefresh => ?_⟩
    · by_cases hd : ∃ record, (d, record) ∈ ids.zip frame.rows
      · obtain ⟨record, hmem⟩ := hd
        obtain ⟨rows, hrows, hstored⟩ := hcurrent d record hmem chunkedAt'
        have hemitted := (hcovers.chunked d record hmem (by simp)).1
        rw [hrows] at hemitted
        rwa [← Except.ok.inj hemitted]
      · have hnone := (hcovers.kept d fun record hmem => absurd ⟨record, hmem⟩ hd).1
        rw [hnone, p.held_after.absent d (p.lookup_other fun record hmem => hd ⟨record, hmem⟩)]
        exact .nil
    · exact Except.ok.inj ((full_chunk_rows hrefresh).symm.trans hfull)
  · obtain ⟨d, hd⟩ := p.held_after.owned row hrow
    by_contra hnone
    have hout : ∀ record, (d, record) ∉ ids.zip frame.rows := fun record hmem =>
      hnone ⟨record, (List.of_mem_zip hmem).2, d, p.ids d record hmem, hd⟩
    have habsent := p.held_after.absent d (p.lookup_other hout)
    have hin := mem_rowsAt.mpr ⟨hrow, hd⟩
    rw [habsent] at hin
    cases hin
  · exact (hs.run config chunkedAt frame rfl hmetadata hrun).columns_eq hrt hincremental
      (List.forall_mem_cons.mpr ⟨rfl, hsame⟩)

end History

/-! ### Two runs on one document -/

/-- The fields of a chunk configuration. -/
def configParts (config : ChunkConfig) :
    String × String × ℕ × ℕ × String × List String × List (String × String) :=
  (config.strategy.value, config.textField, config.chunkSize, config.chunkOverlap, config.encoding,
    config.inTextMetadata, config.headings.toList.map fun h => (h.pattern, h.column))

theorem configParts_injective : Function.Injective configParts := by
  rintro ⟨strategy, text, size, overlap, encoding, metadata, headings, _, _, _, _, _, _⟩
    ⟨strategy', text', size', overlap', encoding', metadata', headings', _, _, _, _, _, _⟩ h
  simp only [configParts, Prod.mk.injEq] at h
  obtain ⟨hstrategy, rfl, rfl, rfl, rfl, rfl, hheadings⟩ := h
  obtain rfl : strategy = strategy' := by
    cases strategy <;> cases strategy' <;> first | rfl | exact absurd hstrategy (by decide)
  obtain rfl : headings = headings' := by
    rcases headings with _ | ⟨pattern, column⟩ <;> rcases headings' with _ | ⟨pattern', column'⟩ <;>
      simp at hheadings ⊢
    exact hheadings
  rfl

/-- The encoding of a chunk configuration. -/
def encodeConfig (config : ChunkConfig) : List Char :=
  let parts := configParts config
  encodeText parts.1 ++ (encodeText parts.2.1 ++ (encodeNat parts.2.2.1 ++
    (encodeNat parts.2.2.2.1 ++ (encodeText parts.2.2.2.2.1 ++
      (encodeList encodeText parts.2.2.2.2.2.1 ++
        encodeList (fun h : String × String => encodeText h.1 ++ encodeText h.2)
          parts.2.2.2.2.2.2)))))

theorem prefixFree_config : PrefixFree encodeConfig :=
  (prefixFree_text.pair (prefixFree_text.pair (prefixFree_nat.pair (prefixFree_nat.pair
    (prefixFree_text.pair (prefixFree_text.list.pair
      (prefixFree_text.pair prefixFree_text).list)))))).comp configParts_injective

/-- A runtime that finds literal patterns, takes characters for tokens and does not shorten what it
digests. -/
def sampleRuntime : ChunkRuntime where
  finditer pattern text := ((List.range text.length).filter
    fun i => pattern.toList <+: text.drop i).map fun i => (i, some pattern.toList)
  encode _ text := text.map Char.toNat
  decode _ tokens := tokens.map Char.ofNat
  digest s := s
  inputFingerprint d t carried :=
    String.ofList (encodeText d ++ (encodeText t ++ encodeCells carried))
  codeVersion config upstream := String.ofList (encodeConfig config ++ encodeText upstream)
  inferType cells := if ∀ c ∈ cells, ∃ s ∈ c.text, c = .string s then "String" else "Int64"

/-- The warehouse that stores every cell unchanged. -/
def sampleAssign : Assignment := fun _ cell => some cell

theorem sampleRuntime_reliable : sampleRuntime.Reliable sampleAssign where
  digest_inj _ _ h := h
  inputFingerprint_inj := by
    intro d d' t t' c c' h
    have hlist := String.ofList_injective h
    obtain ⟨rfl, hrest⟩ := prefixFree_text hlist
    obtain ⟨rfl, hcells⟩ := prefixFree_text hrest
    exact ⟨rfl, rfl, prefixFree_cells.injective hcells⟩
  codeVersion_inj := by
    intro config config' upstream h
    exact (prefixFree_config (String.ofList_injective h)).1
  inferType_string := by
    intro cells _ h
    refine if_pos fun c hc => ?_
    obtain ⟨s, rfl⟩ := h c hc
    exact ⟨s, rfl, rfl⟩
  assign_string _ := rfl

/-- The identifier of the sample document. -/
def sampleId : String := "00000000000000000000000000000000"

/-- An extraction output with one document. -/
def oneText (text : String) : Frame where
  schema := [("document_id", "String"), ("text", "String")]
  rows := [fun c => if c = "document_id" then .string sampleId
    else if c = "text" then .string text else .null]
  nodup := nodup_documentColumns
  blank := by
    intro row hrow c hc
    obtain rfl := List.mem_singleton.mp hrow
    simp only [List.map_cons, List.map_nil, List.mem_cons, List.not_mem_nil, or_false,
      not_or] at hc
    simp [hc.1, hc.2]

/-- The configuration that also finds headings. -/
def sectionConfig : ChunkConfig where
  headings := some ⟨"Intro", "section"⟩
  overlap_lt := plainConfig.overlap_lt
  metadata_nodup := List.nodup_nil
  text_notMem := plainConfig.text_notMem
  headings_recursive := by simp
  column_ne_text := by simp [plainConfig]
  column_notMem := by simp [chunkGeneratedFields]

/-- The sample model, which ignores schema changes. -/
def sampleChunks : ChunkModel where
  name := "chunks"
  upstream := "docs"
  onSchemaChange := .ignore

/-- A run of the sample model. -/
def runChunks (config : ChunkConfig) (fullRefresh : Bool) (chunkedAt text : String) (s : Target) :
    Target × Except Failure ChunkResult :=
  (runChunkModel sampleRuntime sampleChunks config fullRefresh chunkedAt (oneText text)).exec
    (TargetOp.exec sampleAssign "chunks") s

/-- The target after a first run without headings. -/
def plainChunks : Target := (runChunks plainConfig false "t0" "Intro one" {}).1

theorem history_plainChunks : ChunkHistory sampleRuntime sampleChunks sampleAssign "chunks"
    ["document_id", "text"] [plainConfig] plainChunks :=
  .run plainConfig "t0" (oneText "Intro one") .empty rfl (by simp [MetadataHashed, plainConfig]) rfl

/-- The run on an edited text leaves the rows of a full refresh. -/
theorem incremental_chunks_match_edited :
    ∃ full, fullChunkRows sampleRuntime sampleChunks plainConfig "t2" (oneText "Intro two") =
        .ok full ∧
      SameChunks sampleAssign (emittedColumns plainConfig ["document_id", "text"]) full
        (runChunks plainConfig false "t1" "Intro two" plainChunks).1.table := by
  have hok : (runChunks plainConfig false "t1" "Intro two" plainChunks).2 = .ok ⟨1, 0, 0, 1⟩ := by
    decide
  have h := incremental_chunks_match sampleRuntime_reliable rfl history_plainChunks
    (by simp [MetadataHashed, plainConfig]) (Prod.ext rfl hok)
  obtain ⟨full, hfull, hsame, -⟩ := h.1 "t2"
  exact ⟨full, hfull, hsame⟩

/-- **A new heading column is dropped.** The configuration starts to find headings, the schema
change is ignored, and the target lacks the column that a full refresh has. -/
theorem heading_column_dropped : ∃ t u result result',
    ChunkHistory sampleRuntime sampleChunks sampleAssign "chunks" ["document_id", "text"]
        [plainConfig] plainChunks ∧
      (runChunkModel sampleRuntime sampleChunks sectionConfig false "t1" (oneText "Intro one")).exec
        (TargetOp.exec sampleAssign "chunks") plainChunks = (t, .ok result) ∧
      (runChunkModel sampleRuntime sampleChunks sectionConfig true "t1" (oneText "Intro one")).exec
        (TargetOp.exec sampleAssign "chunks") {} = (u, .ok result') ∧
      t.table.map Frame.columns ≠ u.table.map Frame.columns := by
  have hok : (runChunks sectionConfig false "t1" "Intro one" plainChunks).2 = .ok ⟨1, 0, 0, 1⟩ := by
    decide
  have hok' : (runChunks sectionConfig true "t1" "Intro one" {}).2 = .ok ⟨1, 0, 0, 1⟩ := by
    decide
  refine ⟨_, _, _, _, history_plainChunks, Prod.ext rfl hok, Prod.ext rfl hok', ?_⟩
  have hcolumns : (runChunks sectionConfig false "t1" "Intro one" plainChunks).1.table.map
      Frame.columns ≠ (runChunks sectionConfig true "t1" "Intro one" {}).1.table.map
        Frame.columns := by
    decide
  exact hcolumns

end Stel.Execution
