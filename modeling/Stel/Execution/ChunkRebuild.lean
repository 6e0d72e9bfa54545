import Stel.Execution.ChunkSync
import Stel.Warehouse.Written

/-!
# Chunk models with rebuilds and interruptions

The runs of a chunk model, incremental ones and full refreshes, any of which may die between two
operations of the warehouse. A ghost table says under which state value the chunks of each document
were last written.

## Main definitions

* `chunkEmission`: the rows that a document emits under a state value.
* `ChunkSynced`: the target holds, document by document, what was written.

## Main results

* `safe_chunk_run`: a run keeps the target described, and ends with every document current.
-/

namespace Stel.Execution

open Stel.Warehouse Stel.Chunking

section Emission

variable (rt : ChunkRuntime) (model : ChunkModel) (assign : Assignment)

/-- The rows of a document under a state value. -/
def chunkEmission : Emission where
  keyCol := "document_id"
  childCol := "chunk_id"
  Emits d v rows := ∃ columns config record chunkedAt, MetadataHashed config ∧
    (record "document_id").text = some d ∧ v = chunkState rt model config columns record ∧
      documentRows rt model config columns chunkedAt d record = .ok rows
  Stores := StoredAsWritten assign model.onSchemaChange

/-- The target holds, document by document, the rows that were written under the values of the ghost
table. -/
structure ChunkSynced (table : Option Frame) (written : StateTable) : Prop where
  describes : (chunkEmission rt model assign).Describes written table
  typed : KeysTyped table

/-- The state record of a document. -/
def chunkRecord (config : ChunkConfig) (columns : List String) (document : String × Row) :
    StateRecord :=
  let value := chunkState rt model config columns document.2
  ⟨document.1, value.inputFingerprint, value.codeVersion⟩

/-- The state records of all the documents of a frame. -/
def chunkRecords (config : ChunkConfig) (frame : Frame) : List StateRecord :=
  match chunkDocumentIds model frame with
  | .ok ids => (ids.zip frame.rows).map (chunkRecord rt model config frame.columns)
  | .error _ => []

/-- The current state value of a document, if the frame has it. -/
def chunkCurrent (config : ChunkConfig) (frame : Frame) (d : String) : Option StateValue :=
  (StateTable.replace (chunkRecords rt model config frame)).lookup d

end Emission

section Documents

variable {rt : ChunkRuntime} {model : ChunkModel} {assign : Assignment} {config : ChunkConfig}
  {frame : Frame} {ids : List String}

theorem chunkSynced_empty : ChunkSynced rt model assign none ∅ :=
  ⟨Emission.describes_empty, by simp [KeysTyped]⟩

theorem ChunkSynced.delete {existing result : Option Frame} {written : StateTable}
    {removed : List String} (h : ChunkSynced rt model assign existing written)
    (hdel : deleteRows "document_id" (removed.map .string) existing = .ok result) :
    ChunkSynced rt model assign result (written.delete removed) := by
  refine ⟨h.describes.delete_keys hdel, ?_⟩
  rintro target rfl
  obtain ⟨before, hbefore, hsame⟩ := Option.map_eq_some_iff.mp (deleteRows_eq_ok hdel).1.symm
  exact hsame ▸ h.typed before hbefore

/-- A state value that is current determines the rows of its document but for the time. -/
theorem documentRows_of_emits (hrt : rt.Reliable assign) {d : String} {record : Row}
    {columns : List String} {rows : List Row}
    (hcolumns : ∀ field ∈ config.inTextMetadata, field ∈ columns)
    (hid : (record "document_id").text = some d)
    (h : (chunkEmission rt model assign).Emits d (chunkState rt model config columns record) rows) :
    ∃ chunkedAt, documentRows rt model config columns chunkedAt d record = .ok rows := by
  obtain ⟨columns', config', record', chunkedAt, hmetadata, hid', hvalue, hrows⟩ := h
  obtain ⟨hhash, hcode⟩ := StateValue.mk.inj hvalue
  obtain rfl := hrt.codeVersion_inj hcode
  obtain ⟨-, htext, hcarried⟩ := hrt.inputFingerprint_inj hhash
  refine ⟨chunkedAt, ?_⟩
  rw [documentRows_of_carried hmetadata hcolumns (hid.trans hid'.symm) htext hcarried]
  exact hrows

theorem keys_chunkRecords (documents : List (String × Row)) (columns : List String) :
    (documents.map (chunkRecord rt model config columns)).map (·.recordKey) =
      documents.map Prod.fst := by
  rw [List.map_map]
  rfl

theorem chunkRecords_eq (hids : chunkDocumentIds model frame = .ok ids) :
    chunkRecords rt model config frame =
      (ids.zip frame.rows).map (chunkRecord rt model config frame.columns) := by
  simp only [chunkRecords, hids]

theorem chunkCurrent_of_mem (hids : chunkDocumentIds model frame = .ok ids) {d : String}
    {record : Row} (hmem : (d, record) ∈ ids.zip frame.rows) :
    chunkCurrent rt model config frame d =
      some (chunkState rt model config frame.columns record) := by
  rw [chunkCurrent, chunkRecords_eq hids]
  refine StateTable.lookup_upsert (r := chunkRecord rt model config frame.columns (d, record)) ?_
    (List.mem_map_of_mem hmem)
  rw [keys_chunkRecords]
  exact (documents_zip hids).2.1

theorem chunkCurrent_of_notMem (hids : chunkDocumentIds model frame = .ok ids) {d : String}
    (hd : d ∉ ids) : chunkCurrent rt model config frame d = none := by
  rw [chunkCurrent, chunkRecords_eq hids]
  refine (StateTable.lookup_upsert_of_notMem ?_).trans rfl
  rwa [keys_chunkRecords, (documents_zip hids).1]

theorem chunkCurrent_eq_none (hids : chunkDocumentIds model frame = .ok ids) {d : String} :
    chunkCurrent rt model config frame d = none ↔ d ∉ ids := by
  refine ⟨fun hnone hin => ?_, chunkCurrent_of_notMem hids⟩
  obtain ⟨record, hmem⟩ := (mem_documents hids).mp hin
  rw [chunkCurrent_of_mem hids hmem] at hnone
  cases hnone

/-- The records of a run that skips nothing. -/
theorem records_of_rebuild {columns : List String} {chunkedAt : String}
    {documents : List (String × Row)} {loop : ChunkLoop}
    (h : chunkDocuments rt model config columns chunkedAt (fun _ => none) documents = .ok loop) :
    loop.records = documents.map (chunkRecord rt model config columns) := by
  induction documents generalizing loop with
  | nil =>
    obtain rfl := Except.ok.inj h
    rfl
  | cons document documents ih =>
    simp only [chunkDocuments, reduceCtorEq, if_false] at h
    obtain ⟨rows, -, h⟩ := bind_eq_ok.mp h
    obtain ⟨rest, hrest, h⟩ := bind_eq_ok.mp h
    obtain rfl := Except.ok.inj h
    rw [List.map_cons, ← ih hrest]
    rfl

end Documents

/-! ### Publications -/

section Publish

variable {rt : ChunkRuntime} {model : ChunkModel} {assign : Assignment} {config : ChunkConfig}
  {chunkedAt : String} {frame : Frame} {ids : List String} {loop : ChunkLoop} {chunks : Frame}
  {previous : String → Option StateValue} {s : Target} {written : StateTable}

/-- What a run knows when it publishes: the checked frame, and what its loop collected. -/
structure ChunksMade (rt : ChunkRuntime) (model : ChunkModel) (assign : Assignment)
    (config : ChunkConfig) (chunkedAt : String) (frame : Frame) (ids : List String)
    (previous : String → Option StateValue) (loop : ChunkLoop) (chunks : Frame) : Prop where
  reliable : rt.Reliable assign
  metadata : MetadataHashed config
  columns : ∀ field ∈ config.inTextMetadata, field ∈ frame.columns
  accepted : chunkDocumentIds model frame = .ok ids
  covers : loop.Covers rt model config frame.columns chunkedAt previous (ids.zip frame.rows)
  made : chunkFrame rt config frame.columns loop.rows = .ok chunks

namespace ChunksMade

section Made

variable (m : ChunksMade rt model assign config chunkedAt frame ids previous loop chunks)
include m

theorem rows_eq : chunks.rows = loop.rows := (m.covers.chunkFrame_ok m.made).1

/-- A document that the loop chunks emits its rows. -/
theorem emits {d : String} {record : Row} (hmem : (d, record) ∈ ids.zip frame.rows)
    (hchange : previous d ≠ some (chunkState rt model config frame.columns record)) :
    (chunkEmission rt model assign).Emits d (chunkState rt model config frame.columns record)
      (rowsAt "document_id" chunks.rows d) := by
  rw [m.rows_eq]
  exact ⟨frame.columns, config, record, chunkedAt, m.metadata,
    (documents_zip m.accepted).2.2 d record hmem, rfl, (m.covers.chunked d record hmem hchange).1⟩

theorem typed (hwide : chunks.rows ≠ []) :
    chunks.schema.lookup "document_id" = some "String" ∧
      chunks.schema.lookup "chunk_id" = some "String" :=
  m.covers.chunks_typed m.reliable m.made (m.rows_eq ▸ hwide)

/-- A record of the loop is that of a document that it chunks. -/
theorem exists_document (hnodup : (loop.records.map (·.recordKey)).Nodup) {r : StateRecord}
    (hr : r ∈ loop.records) : ∃ record, (r.recordKey, record) ∈ ids.zip frame.rows ∧
      previous r.recordKey ≠ some (chunkState rt model config frame.columns record) ∧
        r = chunkRecord rt model config frame.columns (r.recordKey, record) := by
  obtain ⟨record, hmem, hchange⟩ : ∃ record, (r.recordKey, record) ∈ ids.zip frame.rows ∧
      previous r.recordKey ≠ some (chunkState rt model config frame.columns record) := by
    by_contra hnone
    refine (m.covers.kept r.recordKey fun record hmem => ?_).2.2 (List.mem_map_of_mem hr)
    by_contra hne
    exact hnone ⟨record, hmem, hne⟩
  refine ⟨record, hmem, hchange, ?_⟩
  exact List.inj_on_of_nodup_map hnodup hr (m.covers.chunked _ record hmem hchange).2.1 rfl

/-- The texts of the keys of a stored row. -/
theorem keeps {target : Frame} {row st : Row}
    (hdocument : target.schema.lookup "document_id" = some "String")
    (hchunk : target.schema.lookup "chunk_id" = some "String")
    (hwide : model.onSchemaChange ≠ .ignore → chunks.columns ⊆ target.schema.map Prod.fst)
    (hrow : row ∈ chunks.rows)
    (h : assignRow assign target.schema chunks.columns row = some st) :
    (chunkEmission rt model assign).Keeps target.schema row st := by
  have hne : loop.rows ≠ [] := List.ne_nil_of_mem (m.rows_eq ▸ hrow)
  obtain ⟨d, -, -, -, hid, ⟨-, -, id, -, hcell⟩, -⟩ := m.covers.exists_chunked (m.rows_eq ▸ hrow)
  have hkey : ∀ c ∈ chunkGeneratedFields, (∃ x, row c = .string x) →
      target.schema.lookup c = some "String" → st c = row c := by
    rintro c hc ⟨x, hx⟩ htype
    have hcolumn : c ∈ chunks.columns := by
      rw [m.covers.chunks_columns m.made hne]
      exact generated_mem_emitted hc
    have hassign := assignRow_apply h htype hcolumn
    rw [hx, m.reliable.assign_string] at hassign
    rw [hx, (Option.some.inj hassign).symm]
  exact ⟨.of_assignRow hrow h hwide,
    congrArg Cell.text (hkey "document_id" (by decide) ⟨d, hid⟩ hdocument),
    congrArg Cell.text (hkey "chunk_id" (by decide) ⟨id, hcell⟩ hchunk)⟩

/-- The target after a rebuild. -/
theorem synced_full (hrecords : loop.records = chunkRecords rt model config frame)
    (hwide : chunks.schema ≠ []) :
    ChunkSynced rt model assign (some chunks) (.replace (chunkRecords rt model config frame)) := by
  have hnodup : ((chunkRecords rt model config frame).map (·.recordKey)).Nodup := by
    rw [chunkRecords_eq m.accepted, keys_chunkRecords]
    exact (documents_zip m.accepted).2.1
  refine ⟨Emission.describes_full hnodup (fun r hr => ?_) (fun row hrow => ?_)
    fun row hrow => .self hrow, ?_⟩
  · rw [← hrecords] at hnodup hr
    obtain ⟨record, hmem, hchange, hvalue⟩ := m.exists_document hnodup hr
    have hemits := m.emits hmem hchange
    rw [hvalue]
    exact hemits
  · obtain ⟨d, record, ⟨hmem, -⟩, -, hid, -⟩ := m.covers.exists_chunked (m.rows_eq ▸ hrow)
    refine ⟨d, ?_, congrArg Cell.text hid⟩
    rw [chunkRecords_eq m.accepted, keys_chunkRecords]
    exact List.mem_map_of_mem (f := Prod.fst) hmem
  · rintro target ⟨⟩
    refine m.typed fun hnil => hwide ?_
    exact (m.covers.chunkFrame_ok m.made).2.1 (m.rows_eq ▸ hnil)

end Made

end ChunksMade

/-! ### The publication of an incremental run -/

/-- The publication of an incremental run, after it deleted the removed documents. -/
structure Replacing (rt : ChunkRuntime) (model : ChunkModel) (assign : Assignment)
    (config : ChunkConfig) (chunkedAt : String) (frame : Frame) (ids : List String)
    (loop : ChunkLoop) (chunks : Frame) (s : Target) (written : StateTable)
    (deleted : Option Frame) : Prop where
  made : ChunksMade rt model assign config chunkedAt frame ids (fun d => s.state.lookup d) loop
    chunks
  synced : ChunkSynced rt model assign s.table written
  step : ∀ d, InStep written s.state (chunkCurrent rt model config frame) d
  deletion : deleteRows "document_id" ((s.state.keys.filter (· ∉ ids)).map .string) s.table =
    .ok deleted
  nodup : (loop.records.map (·.recordKey)).Nodup

namespace Replacing

variable {deleted result : Option Frame}
  (p : Replacing rt model assign config chunkedAt frame ids loop chunks s written deleted)
include p

/-- What the run chunks, changes and removes. -/
theorem classified : Classified s.state (chunkCurrent rt model config frame) loop.records
    loop.changedIds (s.state.keys.filter (· ∉ ids)) := by
  have hids := p.made.accepted
  refine ⟨p.nodup, fun r hr => ?_, fun d => ⟨fun hd => ?_, fun hd => ?_⟩, fun d hd => ?_,
    fun d hd hprior => ?_, mem_removed fun _ => chunkCurrent_eq_none hids⟩
  · obtain ⟨record, hmem, -, hvalue⟩ := p.made.exists_document p.nodup hr
    rw [chunkCurrent_of_mem hids hmem, hvalue]
    rfl
  · obtain ⟨r, hr, rfl⟩ := List.mem_map.mp hd
    obtain ⟨record, hmem, hchange, -⟩ := p.made.exists_document p.nodup hr
    rw [chunkCurrent_of_mem hids hmem]
    exact ⟨by simp, hchange⟩
  · obtain ⟨hcurrent, hne⟩ := hd
    obtain ⟨record, hmem⟩ : ∃ record, (d, record) ∈ ids.zip frame.rows := by
      rw [← mem_documents hids]
      by_contra hout
      exact hcurrent (chunkCurrent_of_notMem hids hout)
    rw [chunkCurrent_of_mem hids hmem] at hne
    exact List.mem_map_of_mem (p.made.covers.chunked d record hmem hne).2.1
  · by_contra hout
    refine (p.made.covers.kept d fun record hmem => ?_).2.1 hd
    by_contra hne
    exact hout (List.mem_map_of_mem (p.made.covers.chunked d record hmem hne).2.1)
  · obtain ⟨r, hr, rfl⟩ := List.mem_map.mp hd
    obtain ⟨record, hmem, hchange, -⟩ := p.made.exists_document p.nodup hr
    exact (p.made.covers.chunked _ record hmem hchange).2.2 hprior

/-- The rows of a document that the run does not chunk clash with no emitted row. -/
theorem no_clash {d : String} (hd : d ∉ loop.records.map (·.recordKey)) {row : Row}
    (hrow : row ∈ rowsAt "document_id" (rowsOf deleted) d) :
    ¬ ∃ e ∈ chunks.rows, (row "chunk_id").Equals (e "chunk_id") := by
  rintro ⟨e, he, x, hx, hex⟩
  have hdescribes := (p.synced.delete p.deletion).describes
  obtain ⟨v, hv⟩ : ∃ v, (written.delete (s.state.keys.filter (· ∉ ids))).lookup d = some v := by
    rw [← Option.ne_none_iff_exists']
    intro hnone
    have habsent : rowsAt "document_id" (rowsOf deleted) d = [] := hdescribes.absent d hnone
    rw [habsent] at hrow
    cases hrow
  obtain ⟨rows, ⟨_, _, _, _, -, -, -, hemitted⟩, hrel⟩ := hdescribes.held d v hv
  obtain ⟨source, hsource, hkeep⟩ := Emission.exists_of_rel_right hrel (Multiset.mem_coe.mpr hrow)
  obtain ⟨-, ⟨i, text, id, hid, hcell⟩, -⟩ :=
    documentRows_eq_ok hemitted (Multiset.mem_coe.mp hsource)
  obtain ⟨d', record, ⟨hmem, hchange⟩, -, -, ⟨i', text', id', hid', hcell'⟩, -⟩ :=
    p.made.covers.exists_chunked (p.made.rows_eq ▸ he)
  have hchild : (row "chunk_id").text = (source "chunk_id").text := hkeep.child
  rw [hx, hcell] at hchild
  rw [hcell'] at hex
  obtain rfl : x = id := Option.some.inj hchild
  obtain rfl : id' = x := Option.some.inj hex
  obtain ⟨rfl, -⟩ := makeChunkId_inj p.made.reliable.digest_inj hid hid'
  exact hd (List.mem_map_of_mem (p.made.covers.chunked d record hmem hchange).2.1)

/-- The rows of a document that the run chunks are deleted: the run names it, it has none, or they
have the identifiers of those that the run writes. -/
theorem rows_gone (hcolumns : ∀ field ∈ config.inTextMetadata, field ∈ frame.columns)
    {r : StateRecord} (hr : r ∈ loop.records) : r.recordKey ∈ loop.changedIds ∨
      ∀ row ∈ rowsAt "document_id" (rowsOf deleted) r.recordKey, ∃ e ∈ chunks.rows,
        (row "chunk_id").Equals (e "chunk_id") := by
  have hc := p.classified
  by_cases hstate : s.state.lookup r.recordKey = none
  swap
  · exact .inl (hc.changed _ (List.mem_map_of_mem hr) hstate)
  have hkept : r.recordKey ∉ s.state.keys.filter (· ∉ ids) := fun hin =>
    ((hc.removed _).mp hin).1 hstate
  refine .inr fun row hrow => ?_
  rw [rowsAt_deleteRows p.deletion, if_neg hkept] at hrow
  rcases (p.step r.recordKey).of_new hstate with hnone | hsame
  · have habsent : rowsAt "document_id" (rowsOf s.table) r.recordKey = [] :=
      p.synced.describes.absent _ hnone
    rw [habsent] at hrow
    cases hrow
  · obtain ⟨record, hmem, hchange, -⟩ := p.made.exists_document p.nodup hr
    rw [chunkCurrent_of_mem p.made.accepted hmem] at hsame
    obtain ⟨rows, hemits, hrel⟩ := p.synced.describes.held _ _ hsame
    obtain ⟨source, hsource, hkeep⟩ := Emission.exists_of_rel_right hrel (Multiset.mem_coe.mpr hrow)
    obtain ⟨time, hrows⟩ := documentRows_of_emits p.made.reliable hcolumns
      ((documents_zip p.made.accepted).2.2 _ record hmem) hemits
    obtain ⟨rows', hrows', htimes⟩ :=
      documentRows_chunkedAt (p.made.covers.chunked _ record hmem hchange).1 time
    obtain rfl := Except.ok.inj (hrows.symm.trans hrows')
    obtain ⟨e, he, htime⟩ := exists_of_mem_right htimes (Multiset.mem_coe.mp hsource)
    obtain ⟨-, ⟨-, -, id, -, hcell⟩, -⟩ := documentRows_eq_ok hrows (Multiset.mem_coe.mp hsource)
    have hchild : (row "chunk_id").text = (source "chunk_id").text := hkeep.child
    refine ⟨e, p.made.rows_eq ▸ (mem_rowsAt.mp he).1, id, ?_, ?_⟩
    · rw [hchild, hcell]
      rfl
    · rw [htime "chunk_id" (by decide), hcell]
      rfl

/-- The target after the replacement. -/
theorem synced_replace {table : String}
    (hcolumns : ∀ field ∈ config.inTextMetadata, field ∈ frame.columns)
    (hreplace : replaceChildren assign table "document_id" loop.changedIds "chunk_id" chunks
      model.onSchemaChange deleted = .ok result) :
    ChunkSynced rt model assign result
      ((written.delete (s.state.keys.filter (· ∉ ids))).upsert loop.records) := by
  have hdeleted := p.synced.delete p.deletion
  obtain ⟨stored, hreplaced⟩ := replaceChildren_eq_ok
    (fun hnil => p.made.covers.rows_eq_nil p.made.made hnil) hreplace
  have htyped := hdeleted.typed.replaced hreplaced p.made.typed
  have hkeeps : List.Forall₂ ((chunkEmission rt model assign).Keeps (schemaOf result)) chunks.rows
      stored := by
    refine hreplaced.forall₂_stored fun hne target htarget row hrow st hst => ?_
    subst htarget
    obtain ⟨hdocument, hchunk⟩ := htyped target rfl
    exact p.made.keeps hdocument hchunk (hreplaced.wide hne) hrow hst
  refine ⟨hdeleted.describes.replace hreplaced p.nodup (fun r hr => ?_) (fun row hrow => ?_) hkeeps
    (fun hne _ _ hst => StoredAsWritten.replaced hreplaced hne hst)
    (fun d hd => ⟨fun hin => ?_, fun row hrow => p.no_clash hd hrow⟩)
    (fun r hr => p.rows_gone hcolumns hr), htyped⟩
  · obtain ⟨record, hmem, hchange, hvalue⟩ := p.made.exists_document p.nodup hr
    have hemits := p.made.emits hmem hchange
    rw [hvalue]
    exact hemits
  · obtain ⟨d, record, ⟨hmem, hchange⟩, -, hid, -⟩ :=
      p.made.covers.exists_chunked (p.made.rows_eq ▸ hrow)
    exact ⟨d, List.mem_map_of_mem (p.made.covers.chunked d record hmem hchange).2.1,
      congrArg Cell.text hid⟩
  · exact hd (p.classified.subset d hin)

end Replacing

end Publish

/-! ### Runs -/

section Run

variable {rt : ChunkRuntime} {model : ChunkModel} {assign : Assignment} {config : ChunkConfig}
  {chunkedAt : String} {frame : Frame} {table : String} {s : Target × StateTable}

/-- The documents are accepted, and the state and the ghost table have their current values. -/
structure ChunkCurrent (rt : ChunkRuntime) (model : ChunkModel) (config : ChunkConfig)
    (frame : Frame) (s : Target × StateTable) : Prop where
  accepted : ∃ ids, chunkDocumentIds model frame = .ok ids
  columns : ∀ field ∈ config.inTextMetadata, field ∈ frame.columns
  written : ∀ d, s.2.lookup d = chunkCurrent rt model config frame d
  state : ∀ d, s.1.state.lookup d = chunkCurrent rt model config frame d

/-- A run keeps the target described at every point, and when it returns the target and the state
are current. -/
theorem safe_chunk_run (hrt : rt.Reliable assign) (hincremental : model.incremental = true)
    (hmetadata : MetadataHashed config) (fullRefresh : Bool)
    (hsync : ChunkSynced rt model assign s.1.table s.2)
    (hstep : fullRefresh = false →
      ∀ d, InStep s.2 s.1.state (chunkCurrent rt model config frame) d) :
    (runChunkModel rt model config fullRefresh chunkedAt frame).Safe
      (ghostExec assign table (chunkRecords rt model config frame))
      (fun x => ChunkSynced rt model assign x.1.table x.2)
      (fun _ x => ChunkCurrent rt model config frame x) s := by
  rw [runChunkModel]
  refine Prog.safe_ofExcept_bind hsync fun _ hvalid => ?_
  have hcolumns := validateChunkInput_eq_ok hvalid
  refine Prog.safe_ofExcept_bind hsync fun ids hids => ?_
  cases fullRefresh with
  | true =>
    simp only [hincremental, Bool.not_true, Bool.and_false, Bool.false_eq_true, if_false,
      Prog.pure_bind]
    refine Prog.safe_ofExcept_bind hsync fun loop hloop => ?_
    have hnone : deleteRemoved "document_id" ((∅ : StateTable).keys.filter (· ∉ ids)) = .pure () :=
      rfl
    rw [hnone, Prog.pure_bind]
    refine Prog.safe_ofExcept_bind hsync fun chunks hchunks => ?_
    have hrecords : loop.records = chunkRecords rt model config frame :=
      (records_of_rebuild hloop).trans (chunkRecords_eq hids).symm
    have m : ChunksMade rt model assign config chunkedAt frame ids (fun _ => none) loop chunks :=
      ⟨hrt, hmetadata, hcolumns, hids, chunkDocuments_covers (documents_zip hids).2.1 hloop, hchunks⟩
    simp only [Prog.perform_bind]
    refine safe_rebuild (C := fun x => ChunkSynced rt model assign x.1.table x.2) hrecords hsync
      (fun hwide => m.synced_full hrecords hwide) fun hwide n => ?_
    exact ⟨m.synced_full hrecords hwide, ⟨ids, hids⟩, hcolumns, fun _ => rfl, fun _ => rfl⟩
  | false =>
    simp only [hincremental, Bool.not_false, Bool.and_self, if_true]
    rw [Prog.perform_bind]
    refine safe_read rfl rfl hsync ?_
    refine Prog.safe_ofExcept_bind hsync fun loop hloop => ?_
    refine (safe_deleteRemoved hsync fun result h => hsync.delete h).bind ?_
    rintro _ x hC ⟨deleted, hdeleted, hx⟩
    refine Prog.safe_ofExcept_bind hC fun chunks hchunks => ?_
    subst hx
    refine (safe_asRunError (safe_perform (Q := fun _ x => ChunkCurrent rt model config frame x) hC
      fun u r hop => ?_)).bind fun _ _ hC hQ => ⟨hC, hQ⟩
    obtain ⟨hnodup, hreplace, hstate⟩ := exec_replaceChildren hop
    have p : Replacing rt model assign config chunkedAt frame ids loop chunks s.1 s.2 deleted :=
      ⟨⟨hrt, hmetadata, hcolumns, hids, chunkDocuments_covers (documents_zip hids).2.1 hloop, hchunks⟩,
        hsync, hstep rfl, hdeleted, hnodup⟩
    refine ⟨p.synced_replace hcolumns hreplace, ⟨ids, hids⟩, hcolumns,
      lookup_upsert_delete p.classified fun d => (hstep rfl d).settled, ?_⟩
    rw [hstate]
    exact lookup_upsert_delete p.classified settled_self

/-- The target rows of every document of the frame are those that it produces now, up to the time
of the run, and every target row belongs to a document of the frame. -/
def NoOrphanChunks (rt : ChunkRuntime) (model : ChunkModel) (assign : Assignment)
    (config : ChunkConfig) (frame : Frame) (existing : Option Frame) : Prop :=
  (∀ record ∈ frame.rows, ∀ d, (record "document_id").text = some d → ∀ chunkedAt, ∃ rows,
    documentRows rt model config frame.columns chunkedAt d record = .ok rows ∧
      Multiset.Rel (fun full st => ∃ row, SameButTime full row ∧
        StoredAsWritten assign model.onSchemaChange (schemaOf existing) row st) rows
          (rowsAt "document_id" (rowsOf existing) d)) ∧
    ∀ row ∈ rowsOf existing, ∃ record ∈ frame.rows, ∃ d,
      (record "document_id").text = some d ∧ (row "document_id").text = some d

/-- A current target has the rows of its documents. -/
theorem ChunkCurrent.noOrphanChunks (hrt : rt.Reliable assign)
    (hsync : ChunkSynced rt model assign s.1.table s.2)
    (hcurrent : ChunkCurrent rt model config frame s) :
    NoOrphanChunks rt model assign config frame s.1.table := by
  obtain ⟨ids, hids⟩ := hcurrent.accepted
  have hown := (documents_zip hids).2.2
  refine ⟨fun record hrecord d hd chunkedAt' => ?_, fun row hrow => ?_⟩
  · obtain ⟨d', hmem⟩ := exists_id_of_mem hids hrecord
    obtain rfl : d' = d := Option.some.inj ((hown d' record hmem).symm.trans hd)
    have hlookup := (hcurrent.written d').trans (chunkCurrent_of_mem hids hmem)
    obtain ⟨rows, hemits, hrel⟩ := hsync.describes.held _ _ hlookup
    obtain ⟨time, hrows⟩ := documentRows_of_emits hrt hcurrent.columns hd hemits
    obtain ⟨full, hfull, -⟩ := documentRows_chunkedAt hrows chunkedAt'
    obtain ⟨rows', hrows', htimes⟩ := documentRows_chunkedAt hfull time
    obtain rfl := Except.ok.inj (hrows.symm.trans hrows')
    refine ⟨full, hfull, (Emission.rel_of_forall₂_rel htimes hrel).mono ?_⟩
    rintro e - st - ⟨row, htime, hkeep⟩
    exact ⟨row, htime, hkeep.stores⟩
  · obtain ⟨d, hd⟩ : ∃ d, (row "document_id").text = some d :=
      hsync.describes.owned row hrow
    have hin : d ∈ ids := by
      by_contra hout
      have hlookup := (hcurrent.written d).trans (chunkCurrent_of_notMem hids hout)
      have habsent : rowsAt "document_id" (rowsOf s.1.table) d = [] :=
        hsync.describes.absent d hlookup
      have hmem := mem_rowsAt.mpr ⟨hrow, hd⟩
      rw [habsent] at hmem
      cases hmem
    obtain ⟨record, hmem⟩ := (mem_documents hids).mp hin
    exact ⟨record, (List.of_mem_zip hmem).2, d, hown d record hmem, hd⟩

end Run

end Stel.Execution
