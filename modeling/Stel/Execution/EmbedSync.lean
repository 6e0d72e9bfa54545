import Stel.Execution.Embed
import Stel.Execution.ExtractionIncremental
import Stel.Warehouse.Written

/-!
# Incremental embedding models

The target of an incremental embedding model against the ghost table of the values under which its rows
were last written. A vector that a run takes from the target is the one that the provider returns for the
text, whatever happened to the runs before.

## Main definitions

* `EmbedEnv.Reliable`: what is assumed of the digests, the provider, the frames and the warehouse.
* `embedEmission`: the row that a record emits under a state value.
* `EmbedSynced`: the target holds the rows that were written under the values of the ghost table.
* `EmbedMade`: what a run knows when it publishes.

## Main results

* `reusedVector_eq`: a reused vector is that of the provider.
* `EmbedMade.synced_full`, `EmbedMade.synced_replaced`, `EmbedSynced.delete`: the target after an operation
  of a publication.
* `embed_classified`: what a run processes and removes.
-/

namespace Stel.Execution

open Stel.Warehouse Extraction

/-- The ids of a model: their type, and what is assumed of their cells. -/
structure IdColumn where
  type : String
  IsId : Cell → Prop

/-- What is assumed of the other packages: digests do not collide, the provider returns a fixed vector for
each text, a frame built from rows has the types of its cells, and the warehouse keeps strings, the items of
a vector and the texts of ids. -/
structure EmbedEnv.Reliable (env : EmbedEnv) (model : EmbedModel) (assign : Assignment) (ids : IdColumn)
    (vectorOf : EmbeddingIdentity → String → List ℚ) : Prop where
  inputFingerprint_inj : ∀ {xs ys : List (String × Cell)},
    env.inputFingerprint xs = env.inputFingerprint ys → xs.Perm ys
  textHash_inj : Function.Injective env.textHash
  configHash_inj : Function.Injective env.configHash
  codeVersion_inj : Function.Injective (env.codeVersion model)
  embedTexts_ok : ∀ {identity : EmbeddingIdentity} {inputs : List (String × String)}
    {vectors : List (List ℚ)}, env.embedTexts identity inputs = .ok vectors →
      vectors = inputs.map fun input => vectorOf identity input.2
  items_vectorCell : ∀ identity text, env.items (env.vectorCell (vectorOf identity text)) =
    some ((vectorOf identity text).map fun q => .float (some q))
  inferType_string : ∀ {cells : List Cell}, cells ≠ [] → (∀ c ∈ cells, ∃ s, c = .string s) →
    env.inferType cells = "String"
  inferType_vector : ∀ {cells : List Cell}, cells ≠ [] → (∀ c ∈ cells, ∃ v, c = env.vectorCell v) →
    env.inferType cells = env.vectorType
  inferType_id : ∀ {cells : List Cell}, cells ≠ [] → (∀ c ∈ cells, ids.IsId c) →
    env.inferType cells = ids.type
  assign_string : ∀ s, assign "String" (.string s) = some (.string s)
  assign_vector : ∀ {v : List ℚ} {stored : Cell},
    assign env.vectorType (env.vectorCell v) = some stored → env.items stored = env.items (env.vectorCell v)
  assign_id : ∀ {cell stored : Cell}, ids.IsId cell → assign ids.type cell = some stored →
    stored.text = cell.text
  scalarize_id : ∀ {cell : Cell}, ids.IsId cell → cell.scalarize = cell

/-- The ids of an upstream are those of the model. -/
def TypedEmbedIds (model : EmbedModel) (ids : IdColumn) (source : Frame) : Prop :=
  ∀ type, source.schema.lookup model.idField = some type →
    type = ids.type ∧ ∀ row ∈ source.rows, ids.IsId (row model.idField)

section Emission

variable (env : EmbedEnv) (model : EmbedModel) (assign : Assignment) (ids : IdColumn)
  (vectorOf : EmbeddingIdentity → String → List ℚ)

/-- The row of a record with the vector of its text. -/
def embeddedRow (identity : EmbeddingIdentity) (columns : List String) (d : String) (record : Row)
    (embeddedAt : String) : Row :=
  embeddingRow env model identity (embedWorkOf env model columns (d, record))
    (vectorOf identity (embedText model record)) embeddedAt

/-- What a record emits under an identity. -/
structure EmbedEmits (identity : EmbeddingIdentity) (columns : List String) (record : Row) (embeddedAt : String)
    (d : String) (v : StateValue) (rows : List Row) : Prop where
  id : (record model.idField).text = some d
  isId : ids.IsId (record model.idField)
  nodup : columns.Nodup
  blank : ∀ c ∉ columns, record c = .null
  value : v = embedState env model identity columns record
  rows : rows = [embeddedRow env model vectorOf identity columns d record embeddedAt]

/-- The rows of a record under a state value. -/
def embedEmission : Emission where
  keyCol := model.idField
  childCol := model.idField
  Emits d v rows := ∃ identity columns record embeddedAt,
    EmbedEmits env model ids vectorOf identity columns record embeddedAt d v rows
  Stores := StoredAsWritten assign model.onSchemaChange

/-- The columns of a target that a run reads, with their types. -/
def readColumns : List (String × String) :=
  [(model.idField, ids.type), (model.vectorField, env.vectorType), ("embedding_input_hash", "String"),
    ("embedding_config_hash", "String")]

/-- The target holds, record by record, the row that was written under the value of the ghost table, and
the columns that a run reads have their types. -/
structure EmbedSynced (table : Option Frame) (written : StateTable) : Prop where
  describes : (embedEmission env model assign ids vectorOf).Describes written table
  typed : ∀ p ∈ readColumns env model ids, ∀ target, table = some target →
    target.schema.lookup p.1 = some p.2

/-- The state records of a run on a prior state. -/
def embedRecords (identity : EmbeddingIdentity) (source : Frame) (prior : StateTable) :
    List StateRecord :=
  match embedRecordIds model source with
  | .ok recordIds => (embedWork env model identity source recordIds prior).map
      (embedRecord env model identity)
  | .error _ => []

/-- The current state value of a record, if the upstream has it. -/
def embedCurrent (identity : EmbeddingIdentity) (source : Frame) (d : String) : Option StateValue :=
  (StateTable.replace (embedRecords env model identity source ∅)).lookup d

end Emission

/-! ### The work of a run -/

section Work

variable {env : EmbedEnv} {model : EmbedModel} {identity : EmbeddingIdentity} {source : Frame}
  {recordIds : List String} {prior : StateTable}

theorem mem_embedWork {item : EmbedWork} : item ∈ embedWork env model identity source recordIds prior ↔
    ∃ d record, (d, record) ∈ recordIds.zip source.rows ∧
      prior.lookup d ≠ some (embedState env model identity source.columns record) ∧
      item = embedWorkOf env model source.columns (d, record) := by
  simp only [embedWork, List.mem_map, List.mem_filter, decide_eq_true_iff, Prod.exists]
  constructor
  · rintro ⟨d, record, ⟨hmem, hne⟩, rfl⟩
    exact ⟨d, record, hmem, hne, rfl⟩
  · rintro ⟨d, record, hmem, hne, rfl⟩
    exact ⟨d, record, ⟨hmem, hne⟩, rfl⟩

theorem keys_embedRecord (work : List EmbedWork) :
    (work.map (embedRecord env model identity)).map (·.recordKey) = work.map (·.recordId) := by
  rw [List.map_map]
  rfl

theorem nodup_embedWork (hids : embedRecordIds model source = .ok recordIds) :
    ((embedWork env model identity source recordIds prior).map (·.recordId)).Nodup := by
  rw [embedWork, List.map_map]
  have hfst : ((·.recordId) ∘ embedWorkOf env model source.columns : String × Row → String) = Prod.fst :=
    rfl
  rw [hfst]
  exact (requireIds_zip hids).2.1.sublist (List.filter_sublist.map _)

theorem embedRecords_eq (hids : embedRecordIds model source = .ok recordIds) :
    embedRecords env model identity source prior =
      (embedWork env model identity source recordIds prior).map (embedRecord env model identity) := by
  simp only [embedRecords, hids]

/-- An item is the work for the record with its id. -/
theorem exists_of_mem_embedWork (hids : embedRecordIds model source = .ok recordIds) {item : EmbedWork}
    (hitem : item ∈ embedWork env model identity source recordIds prior) :
    ∃ record ∈ source.rows, (record model.idField).text = some item.recordId ∧
      item = embedWorkOf env model source.columns (item.recordId, record) := by
  obtain ⟨d, record, hmem, -, rfl⟩ := mem_embedWork.mp hitem
  exact ⟨record, (List.of_mem_zip hmem).2, (requireIds_zip hids).2.2 d record hmem, rfl⟩

theorem embedCurrent_of_mem (hids : embedRecordIds model source = .ok recordIds) {d : String}
    {record : Row} (hmem : (d, record) ∈ recordIds.zip source.rows) :
    embedCurrent env model identity source d =
      some (embedState env model identity source.columns record) := by
  rw [embedCurrent, embedRecords_eq hids]
  have hwork : embedWorkOf env model source.columns (d, record) ∈
      embedWork env model identity source recordIds ∅ := mem_embedWork.mpr ⟨d, record, hmem, by simp, rfl⟩
  refine StateTable.lookup_upsert
    (r := embedRecord env model identity (embedWorkOf env model source.columns (d, record))) ?_
      (List.mem_map_of_mem hwork)
  rw [keys_embedRecord]
  exact nodup_embedWork hids

theorem embedCurrent_eq_none (hids : embedRecordIds model source = .ok recordIds) {d : String} :
    embedCurrent env model identity source d = none ↔ d ∉ recordIds := by
  constructor
  · intro hnone hin
    obtain ⟨record, hmem⟩ := (mem_requireIds hids).mp hin
    rw [embedCurrent_of_mem hids hmem] at hnone
    cases hnone
  · intro hd
    rw [embedCurrent, embedRecords_eq hids]
    refine (StateTable.lookup_upsert_of_notMem ?_).trans rfl
    rw [keys_embedRecord, List.mem_map]
    rintro ⟨item, hitem, rfl⟩
    obtain ⟨d, record, hmem, -, rfl⟩ := mem_embedWork.mp hitem
    exact hd ((mem_requireIds hids).mpr ⟨record, hmem⟩)

/-- What a run processes and removes. -/
theorem embed_classified (hids : embedRecordIds model source = .ok recordIds) :
    Classified prior (embedCurrent env model identity source)
      ((embedWork env model identity source recordIds prior).map (embedRecord env model identity))
      ((embedWork env model identity source recordIds prior).map (·.recordId))
      ((prior.keys.filter (· ∉ recordIds)).insertionSort (· ≤ ·)) := by
  have hkeys := @keys_embedRecord env model identity
    (embedWork env model identity source recordIds prior)
  refine ⟨?_, fun r hr => ?_, fun d => ⟨fun hd => ?_, fun hd => ?_⟩, fun d hd => ?_,
    fun d hd _ => ?_, fun d => ?_⟩
  · rw [hkeys]
    exact nodup_embedWork hids
  · obtain ⟨item, hitem, rfl⟩ := List.mem_map.mp hr
    obtain ⟨d, record, hmem, -, rfl⟩ := mem_embedWork.mp hitem
    exact embedCurrent_of_mem hids hmem
  · rw [hkeys] at hd
    obtain ⟨item, hitem, rfl⟩ := List.mem_map.mp hd
    obtain ⟨d, record, hmem, hne, rfl⟩ := mem_embedWork.mp hitem
    rw [show (embedWorkOf env model source.columns (d, record)).recordId = d from rfl,
      embedCurrent_of_mem hids hmem]
    exact ⟨by simp, hne⟩
  · obtain ⟨hcurrent, hne⟩ := hd
    obtain ⟨record, hmem⟩ : ∃ record, (d, record) ∈ recordIds.zip source.rows := by
      rw [← mem_requireIds hids]
      by_contra hout
      exact hcurrent ((embedCurrent_eq_none hids).mpr hout)
    rw [embedCurrent_of_mem hids hmem] at hne
    rw [hkeys]
    exact List.mem_map.mpr ⟨_, mem_embedWork.mpr ⟨d, record, hmem, hne, rfl⟩, rfl⟩
  · rwa [hkeys]
  · rwa [hkeys] at hd
  · rw [List.mem_insertionSort]
    exact mem_removed (fun _ => embedCurrent_eq_none hids) d

end Work

/-! ### Vectors of the target -/

section Reuse

variable {env : EmbedEnv} {model : EmbedModel} {assign : Assignment} {ids : IdColumn}
  {vectorOf : EmbeddingIdentity → String → List ℚ} {table : Option Frame} {written : StateTable}

/-- A row that is found by an id is one of its rows. -/
theorem existingEmbeddingRow_eq_some {d : String} {row : Row}
    (h : existingEmbeddingRow model table d = some row) : row ∈ rowsAt model.idField (rowsOf table) d := by
  unfold existingEmbeddingRow at h
  split at h
  · split_ifs at h
    exact mem_rowsAt.mpr ⟨List.mem_reverse.mp (List.mem_of_find?_eq_some h), by
      simpa using List.find?_some h⟩
  · cases h

/-- Every row of the target is the row that some record emitted. -/
theorem EmbedSynced.exists_emitted (h : EmbedSynced env model assign ids vectorOf table written) {row : Row}
    (hrow : row ∈ rowsOf table) : ∃ identity columns record embeddedAt d v,
      EmbedEmits env model ids vectorOf identity columns record embeddedAt d v
        [embeddedRow env model vectorOf identity columns d record embeddedAt] ∧
      rowsAt model.idField (rowsOf table) d = [row] ∧
      StoredAsWritten assign model.onSchemaChange (schemaOf table)
        (embeddedRow env model vectorOf identity columns d record embeddedAt) row := by
  obtain ⟨d, hd⟩ : ∃ d, (row model.idField).text = some d := h.describes.owned row hrow
  have hmem : row ∈ rowsAt model.idField (rowsOf table) d := mem_rowsAt.mpr ⟨hrow, hd⟩
  obtain ⟨v, hv⟩ : ∃ v, written.lookup d = some v := by
    rw [← Option.ne_none_iff_exists']
    intro hnone
    exact List.ne_nil_of_mem hmem (h.describes.absent d hnone)
  obtain ⟨rows, ⟨identity, columns, record, embeddedAt, hemits⟩, hrel⟩ := h.describes.held d v hv
  obtain rfl := hemits.rows
  rw [← Multiset.cons_coe, Multiset.rel_cons_left] at hrel
  obtain ⟨stored, rest, hkeep, hrest, hone⟩ := hrel
  obtain rfl := Multiset.rel_zero_left.mp hrest
  have hsingle : rowsAt model.idField (rowsOf table) d = [stored] := Multiset.coe_eq_singleton.mp hone
  obtain rfl : row = stored := List.mem_singleton.mp (hsingle ▸ hmem)
  exact ⟨identity, columns, record, embeddedAt, d, v, hemits, hsingle, hkeep.stores⟩

/-- The cell of a stored row in a column of strings. -/
theorem string_of_stored (hrt : env.Reliable model assign ids vectorOf) {schema : List (String × String)}
    {emitted row : Row} {c s : String}
    (hstored : StoredAsWritten assign model.onSchemaChange schema emitted row)
    (htype : schema.lookup c = some "String") (hcell : emitted c = .string s) : row c = .string s := by
  rcases hstored.cells c "String" htype with hsame | hassign
  · rw [hsame, hcell]
  · rw [hcell, hrt.assign_string] at hassign
    exact (Option.some.inj hassign).symm

/-- The items of the vector of a stored row. -/
theorem items_of_stored (hrt : env.Reliable model assign ids vectorOf) {schema : List (String × String)}
    {emitted row : Row} {identity : EmbeddingIdentity} {text : String}
    (hstored : StoredAsWritten assign model.onSchemaChange schema emitted row)
    (htype : schema.lookup model.vectorField = some env.vectorType)
    (hcell : emitted model.vectorField = env.vectorCell (vectorOf identity text)) :
    env.items (row model.vectorField) =
      some ((vectorOf identity text).map fun q => .float (some q)) := by
  rw [← hrt.items_vectorCell]
  rcases hstored.cells _ _ htype with hsame | hassign
  · rw [hsame, hcell]
  · rw [hcell] at hassign
    exact hrt.assign_vector hassign

/-- The floats of a stored vector. -/
theorem mapM_toFloat (vector : List ℚ) :
    (vector.map fun q => VectorItem.float (some q)).mapM (VectorItem.toFloat env) = some vector := by
  induction vector with
  | nil => rfl
  | cons q vector ih =>
    rw [List.map_cons, List.mapM_cons, ih]
    rfl

/-- **A reused vector is that of the provider** for the text of the item and the current identity. -/
theorem reusedVector_eq (hrt : env.Reliable model assign ids vectorOf)
    (hsync : EmbedSynced env model assign ids vectorOf table written) {identity : EmbeddingIdentity}
    {item : EmbedWork} (hhash : item.textHash = env.textHash item.text) {vector : List ℚ}
    {keptAt : Option String}
    (h : reusedVector env model identity table item = some (vector, keptAt)) :
    vector = vectorOf identity item.text := by
  unfold reusedVector at h
  split at h
  · cases h
  rename_i row hfound
  split_ifs at h with hsame
  obtain ⟨htext, hconfig⟩ := hsame
  obtain ⟨coerced, hcoerce, hpair⟩ := Option.map_eq_some_iff.mp h
  obtain ⟨rfl, -⟩ := Prod.mk.inj hpair
  have hrow : row ∈ rowsOf table := (mem_rowsAt.mp (existingEmbeddingRow_eq_some hfound)).1
  obtain ⟨target, rfl⟩ : ∃ target, table = some target := by
    rw [← Option.ne_none_iff_exists']
    rintro rfl
    cases hrow
  obtain ⟨identity', columns, record, embeddedAt, d, v, -, -, hstored⟩ := hsync.exists_emitted hrow
  have htyped (c type : String) (hc : (c, type) ∈ readColumns env model ids) :
      target.schema.lookup c = some type := hsync.typed (c, type) hc target rfl
  -- the hashes of the row determine the text and the identity that its vector was made for
  have hinput := string_of_stored hrt hstored (htyped "embedding_input_hash" "String"
    (by simp [readColumns])) embeddingRow_inputHash
  have hidentity := string_of_stored hrt hstored (htyped "embedding_config_hash" "String"
    (by simp [readColumns])) embeddingRow_configHash
  rw [htext, hhash] at hinput
  rw [hconfig] at hidentity
  have hsameText : item.text = embedText model record := hrt.textHash_inj (Cell.string.inj hinput)
  have hsameIdentity : identity = identity' :=
    hrt.configHash_inj (Cell.string.inj hidentity)
  have hitems := items_of_stored hrt hstored (htyped model.vectorField env.vectorType
    (by simp [readColumns])) embeddingRow_vectorField
  rw [coerceEmbeddingVector, hitems] at hcoerce
  dsimp only at hcoerce
  split_ifs at hcoerce
  rw [mapM_toFloat] at hcoerce
  rw [hsameText, hsameIdentity]
  exact (Option.some.inj hcoerce).symm

/-- The vectors that the provider calls of a run return. -/
theorem embedBatches_eq_ok (hrt : env.Reliable model assign ids vectorOf) {identity : EmbeddingIdentity}
    {pending : List EmbedWork} {embedded : List (String × List ℚ)}
    (h : embedBatches env model identity pending = .ok embedded) :
    embedded = pending.map fun item => (item.recordId, vectorOf identity item.text) := by
  obtain ⟨chunks, hchunks, rfl⟩ : ∃ chunks,
      (Extraction.slices model.batchSize pending).mapM (embedBatch env identity) = .ok chunks ∧
        chunks.flatten = embedded := by
    unfold embedBatches at h
    cases hmap : (Extraction.slices model.batchSize pending).mapM (embedBatch env identity) with
    | error text =>
      rw [hmap] at h
      cases h
    | ok chunks =>
      rw [hmap] at h
      exact ⟨chunks, rfl, Except.ok.inj h⟩
  have hbatch {batch : List EmbedWork} {chunk : List (String × List ℚ)}
      (hchunk : embedBatch env identity batch = .ok chunk) :
      chunk = batch.map fun item => (item.recordId, vectorOf identity item.text) := by
    unfold embedBatch at hchunk
    split at hchunk
    · cases hchunk
    rename_i vectors hvectors
    split_ifs at hchunk
    obtain rfl := Except.ok.inj hchunk
    rw [hrt.embedTexts_ok hvectors, List.map_map, List.zip_map']
    rfl
  have hall : chunks = (Extraction.slices model.batchSize pending).map fun batch =>
      batch.map fun item => (item.recordId, vectorOf identity item.text) := by
    have hrel := mapM_eq_ok.mp hchunks
    clear hchunks h
    generalize Extraction.slices model.batchSize pending = batches at hrel ⊢
    induction hrel with
    | nil => rfl
    | cons hchunk _ ih => rw [List.map_cons, hbatch hchunk, ih]
  rw [hall, ← List.map_flatten, Extraction.flatten_slices]

end Reuse

/-! ### The rows of a run -/

section Made

variable {env : EmbedEnv} {model : EmbedModel} {assign : Assignment} {ids : IdColumn}
  {vectorOf : EmbeddingIdentity → String → List ℚ} {identity : EmbeddingIdentity} {source : Frame}
  {work : List EmbedWork} {output : Frame}

/-- A row of an item with the vector of its text. -/
def IsEmbeddingRow (env : EmbedEnv) (model : EmbedModel)
    (vectorOf : EmbeddingIdentity → String → List ℚ) (identity : EmbeddingIdentity) (item : EmbedWork) (row : Row) :
    Prop :=
  ∃ embeddedAt, row = embeddingRow env model identity item
    (vectorOf identity item.text) embeddedAt

/-- What a run knows when it publishes: its checked upstream, its work and its output. -/
structure EmbedMade (env : EmbedEnv) (model : EmbedModel) (assign : Assignment) (ids : IdColumn)
    (vectorOf : EmbeddingIdentity → String → List ℚ) (identity : EmbeddingIdentity) (source : Frame)
    (work : List EmbedWork) (output : Frame) : Prop where
  reliable : env.Reliable model assign ids vectorOf
  typed : TypedEmbedIds model ids source
  valid : validateEmbedInput env model source = .ok ()
  nodup : (work.map (·.recordId)).Nodup
  exists_record : ∀ item ∈ work, ∃ record ∈ source.rows,
    (record model.idField).text = some item.recordId ∧
      item = embedWorkOf env model source.columns (item.recordId, record)
  made : ∃ rows, embedFrame env model source rows = .ok output ∧
    List.Forall₂ (IsEmbeddingRow env model vectorOf identity) work rows

/-- The rows of a run, with vectors of the target or of the provider. -/
theorem forall₂_itemRow (hrt : env.Reliable model assign ids vectorOf) {existing : Option Frame}
    {written : StateTable}
    (hsync : existing ≠ none → EmbedSynced env model assign ids vectorOf existing written)
    (hnodup : (work.map (·.recordId)).Nodup) (hhash : ∀ item ∈ work, item.textHash = env.textHash item.text)
    {now : String} {embedded : List (String × List ℚ)} {rows : List Row}
    (hembedded : embedBatches env model identity
      (pendingWork env model identity existing work) = .ok embedded)
    (hrows : work.mapM (itemRow env model identity now existing embedded) = .ok rows) :
    List.Forall₂ (IsEmbeddingRow env model vectorOf identity) work rows := by
  have hcalled := embedBatches_eq_ok hrt hembedded
  refine forall₂_imp_of_mem (mapM_eq_ok.mp hrows) fun item hitem row hrow => ?_
  unfold itemRow at hrow
  split at hrow
  · cases hrow
  rename_i vector keptAt hvector
  obtain rfl := Except.ok.inj hrow
  suffices hsame : vector = vectorOf identity item.text by
    rw [hsame]
    exact ⟨_, rfl⟩
  rcases itemVector_eq_some hvector with hreused | hlookup
  · have hexisting : existing ≠ none := by
      rintro rfl
      cases hreused
    exact reusedVector_eq hrt (hsync hexisting) (hhash item hitem) hreused
  · obtain ⟨found, hfound, hpair⟩ : ∃ found ∈ work,
        (found.recordId, vectorOf identity found.text) = (item.recordId, vector) := by
      obtain ⟨before, after, hsplit, -⟩ := List.lookup_eq_some_iff.mp hlookup
      have hmem : (item.recordId, vector) ∈ embedded := by simp [hsplit]
      obtain ⟨found, hfound, hpair⟩ := List.mem_map.mp (hcalled ▸ hmem)
      exact ⟨found, List.mem_of_mem_filter hfound, hpair⟩
    obtain ⟨hid, hvector⟩ := Prod.mk.inj hpair
    rw [← hvector, List.inj_on_of_nodup_map hnodup hfound hitem hid]

namespace EmbedMade

variable (m : EmbedMade env model assign ids vectorOf identity source work output)
include m

/-- An output row is null outside the columns of the output. -/
theorem blank {row : Row} (hrow : ∃ item ∈ work, IsEmbeddingRow env model vectorOf identity item row) {c : String}
    (hc : c ∉ embedColumns model source.columns) : row c = .null := by
  obtain ⟨item, hitem, embeddedAt, rfl⟩ := hrow
  obtain ⟨record, hmem, -, heq⟩ := m.exists_record item hitem
  simp only [embedColumns, List.mem_append, List.mem_cons, not_or] at hc
  rw [embeddingRow_of_notMem hc.2.2 hc.2.1, heq]
  simp only [embedWorkOf, source.blank record hmem c hc.1, Cell.scalarize]

/-- The id of an item of the work. -/
theorem item_id {item : EmbedWork} (hitem : item ∈ work) :
    (item.record model.idField).text = some item.recordId ∧ ids.IsId (item.record model.idField) := by
  obtain ⟨record, hmem, hid, heq⟩ := m.exists_record item hitem
  obtain ⟨type, htype⟩ := exists_lookup_of_mem (validateEmbedInput_eq_ok m.valid).1
  have hrecord : item.record = record := congrArg EmbedWork.record heq
  rw [hrecord]
  exact ⟨hid, (m.typed type htype).2 record hmem⟩

/-- The output has one row for each item, with the id of its record. -/
theorem rows_output : output.columns = embedColumns model source.columns ∧
    List.Forall₂ (fun item row => (row model.idField).text = some item.recordId ∧
      ids.IsId (row model.idField) ∧ IsEmbeddingRow env model vectorOf identity item row) work output.rows := by
  obtain ⟨rows, houtput, hrows⟩ := m.made
  obtain ⟨heq, hcolumns, -, -⟩ := embedFrame_eq_ok houtput fun row hrow _ =>
    m.blank (exists_of_mem_right hrows hrow)
  refine ⟨hcolumns, ?_⟩
  rw [heq]
  refine forall₂_imp_of_mem hrows fun item hitem _ ⟨embeddedAt, hrow⟩ => ?_
  subst hrow
  rw [embeddingRow_idField, m.reliable.scalarize_id (m.item_id hitem).2]
  exact ⟨(m.item_id hitem).1, (m.item_id hitem).2, embeddedAt, rfl⟩

/-- The columns that a run reads have their types in the output. -/
theorem lookup_output : ∀ p ∈ readColumns env model ids, output.schema.lookup p.1 = some p.2 := by
  obtain ⟨hid, hsource⟩ := validateEmbedInput_eq_ok m.valid
  obtain ⟨type, htype⟩ := exists_lookup_of_mem hid
  obtain ⟨rows, houtput, hrows⟩ := m.made
  obtain ⟨heq, -, hempty, hinferred⟩ := embedFrame_eq_ok houtput fun row hrow _ =>
    m.blank (exists_of_mem_right hrows hrow)
  have hvector : model.vectorField ∉ embedMetadataFields := model.fields_reserved _ (by simp)
  have hnew (c : String) (hc : c ∈ embedMetadataFields ∨ c = model.vectorField) :
      source.schema.lookup c = none := by
    refine lookup_eq_none_of_notMem fun hin => ?_
    obtain ⟨hmetadata, hne⟩ := hsource c hin
    exact hc.elim hmetadata hne
  by_cases hnil : rows = []
  · -- the frame of no rows declares its types
    rw [hempty hnil, emptyEmbeddingSchema]
    have hskip (c type : String) (hc : c ∈ embedMetadataFields) :
        ((model.vectorField, type) :: embedMetadataFields.map fun c =>
          (c, if c = "embedding_dimensions" then "Int64" else "String")).lookup c =
            some (if c = "embedding_dimensions" then "Int64" else "String") := by
      have hne : (c == model.vectorField) = false := beq_false_of_ne fun he => hvector (he ▸ hc)
      rw [List.lookup_cons, hne]
      exact lookup_map_pair hc
    intro p hp
    simp only [readColumns, List.mem_cons, List.not_mem_nil, or_false] at hp
    rw [List.lookup_append]
    obtain rfl | rfl | rfl | rfl := hp
    · rw [htype, (m.typed type htype).1]
      rfl
    · rw [hnew _ (.inr rfl), Option.none_or]
      simp
    · rw [hnew _ (.inl (by decide)), Option.none_or]
      exact hskip "embedding_input_hash" _ (by decide)
    · rw [hnew _ (.inl (by decide)), Option.none_or]
      exact hskip "embedding_config_hash" _ (by decide)
  · -- the frame of rows infers them from the cells
    have hcell (c : String) {P : Cell → Prop} (h : ∀ item ∈ work, ∀ vector embeddedAt,
          P (embeddingRow env model identity item vector embeddedAt c)) :
        ∀ cell ∈ rows.map (· c), P cell := by
      intro cell hmem
      obtain ⟨row, hrow, rfl⟩ := List.mem_map.mp hmem
      obtain ⟨item, hitem, embeddedAt, rfl⟩ := exists_of_mem_right hrows hrow
      exact h item hitem _ _
    have hne (c : String) : rows.map (· c) ≠ [] := fun h => hnil (List.map_eq_nil_iff.mp h)
    have hcolumn (c : String) (hc : c ∈ model.vectorField :: embedMetadataFields) :
        c ∈ embedColumns model source.columns := List.mem_append_right _ hc
    intro p hp
    simp only [readColumns, List.mem_cons, List.not_mem_nil, or_false] at hp
    obtain rfl | rfl | rfl | rfl := hp
    · rw [hinferred hnil _ (List.mem_append_left _ hid)]
      refine congrArg some (m.reliable.inferType_id (hne _) (hcell _ fun item hitem vector at' => ?_))
      rw [embeddingRow_idField, m.reliable.scalarize_id (m.item_id hitem).2]
      exact (m.item_id hitem).2
    · rw [hinferred hnil _ (hcolumn _ List.mem_cons_self)]
      exact congrArg some (m.reliable.inferType_vector (hne _)
        (hcell _ fun item _ vector _ => ⟨vector, embeddingRow_vectorField⟩))
    · rw [hinferred hnil _ (hcolumn _ (List.mem_cons_of_mem _ (by decide)))]
      exact congrArg some (m.reliable.inferType_string (hne _)
        (hcell _ fun item _ _ _ => ⟨item.textHash, embeddingRow_inputHash⟩))
    · rw [hinferred hnil _ (hcolumn _ (List.mem_cons_of_mem _ (by decide)))]
      exact congrArg some (m.reliable.inferType_string (hne _)
        (hcell _ fun _ _ _ _ => ⟨env.configHash identity, embeddingRow_configHash⟩))

theorem nodup_keys : ((work.map (embedRecord env model identity)).map (·.recordKey)).Nodup := by
  rw [keys_embedRecord]
  exact m.nodup

/-- Every item of the work emits its row of the output. -/
theorem emits : ∀ r ∈ work.map (embedRecord env model identity),
    (embedEmission env model assign ids vectorOf).Emits r.recordKey r.value
      (rowsAt model.idField output.rows r.recordKey) := by
  intro r hr
  obtain ⟨item, hitem, rfl⟩ := List.mem_map.mp hr
  obtain ⟨row, hone, hisId, embeddedAt, rfl⟩ :=
    Extraction.rowsAt_of_forall₂ m.rows_output.2 m.nodup hitem
  obtain ⟨htext, hisId⟩ := m.item_id hitem
  obtain ⟨record, hmem, hid, heq⟩ := m.exists_record item hitem
  rw [congrArg EmbedWork.record heq] at htext hisId
  refine ⟨identity, source.columns, record, embeddedAt, htext, hisId, source.nodup,
    source.blank record hmem, ?_, ?_⟩
  · rw [heq]
    rfl
  · rw [heq] at hone ⊢
    exact hone

/-- Every row of the output belongs to an item of the work. -/
theorem owned : ∀ row ∈ output.rows,
    ∃ d ∈ (work.map (embedRecord env model identity)).map (·.recordKey),
      (row model.idField).text = some d := by
  intro row hrow
  obtain ⟨item, hitem, hid, -⟩ := exists_of_mem_right m.rows_output.2 hrow
  rw [keys_embedRecord]
  exact ⟨item.recordId, List.mem_map_of_mem hitem, hid⟩

/-- Every item of the work has a row. -/
theorem exists_row {item : EmbedWork} (hitem : item ∈ work) :
    ∃ row ∈ output.rows, (row model.idField).text = some item.recordId := by
  obtain ⟨row, hrow, hid, -⟩ := exists_of_mem_left m.rows_output.2 hitem
  exact ⟨row, hrow, hid⟩

/-- A row that the target inserts keeps the text of its id. -/
theorem keeps {target : Frame} {row st : Row}
    (hid : target.schema.lookup model.idField = some ids.type)
    (hwide : model.onSchemaChange ≠ .ignore → output.columns ⊆ target.schema.map Prod.fst)
    (hrow : row ∈ output.rows)
    (h : assignRow assign target.schema output.columns row = some st) :
    (embedEmission env model assign ids vectorOf).Keeps target.schema row st := by
  obtain ⟨item, -, -, hisId, -⟩ := exists_of_mem_right m.rows_output.2 hrow
  have hcolumn : model.idField ∈ output.columns := by
    rw [m.rows_output.1]
    exact List.mem_append_left _ (validateEmbedInput_eq_ok m.valid).1
  have htext : (st model.idField).text = (row model.idField).text :=
    m.reliable.assign_id hisId (assignRow_apply h hid hcolumn)
  exact ⟨.of_assignRow hrow h hwide, htext, htext⟩

/-- The target after a rebuild. -/
theorem synced_full : EmbedSynced env model assign ids vectorOf (some output)
    (.replace (work.map (embedRecord env model identity))) := by
  refine ⟨Emission.describes_full m.nodup_keys m.emits m.owned fun row hrow => .self hrow, ?_⟩
  rintro p hp target ⟨⟩
  exact m.lookup_output p hp

section Replace

variable {existing result : Option Frame} {written : StateTable} {stored : List Row}
  (hsync : EmbedSynced env model assign ids vectorOf existing written)
  (hreplaced : Replaced assign model.idField [] model.idField output model.onSchemaChange existing result
    stored)
include hsync hreplaced

/-- The columns that a run reads keep their types. -/
theorem typed_replaced : ∀ p ∈ readColumns env model ids, ∀ target, result = some target →
    target.schema.lookup p.1 = some p.2 :=
  fun p hp => hreplaced.lookup (hsync.typed p hp) fun _ => m.lookup_output p hp

/-- The rows that the target inserts. -/
theorem keeps_replaced : List.Forall₂ ((embedEmission env model assign ids vectorOf).Keeps
    (schemaOf result)) output.rows stored := by
  refine hreplaced.forall₂_stored fun hne target htarget row hrow st hst => ?_
  subst htarget
  have hid := m.typed_replaced hsync hreplaced (model.idField, ids.type) List.mem_cons_self target rfl
  exact m.keeps hid (hreplaced.wide hne) hrow hst

/-- A record that the run does not process gets no rows. -/
theorem rows_of_removed {d : String}
    (hd : d ∉ (work.map (embedRecord env model identity)).map (·.recordKey))
    (hrows : rowsAt model.idField (rowsOf result) d ≠ []) :
    rowsAt model.idField (rowsOf existing) d ≠ [] := by
  obtain ⟨row, hrow⟩ := List.exists_mem_of_ne_nil _ hrows
  obtain ⟨hmem, htext⟩ := mem_rowsAt.mp hrow
  rw [hreplaced.rows] at hmem
  rcases List.mem_append.mp hmem with hold | hnew
  · exact List.ne_nil_of_mem (mem_rowsAt.mpr
      ⟨List.mem_of_mem_filter (List.mem_of_mem_filter hold), htext⟩)
  · obtain ⟨emitted, hemitted, hkeep⟩ := exists_of_mem_right (m.keeps_replaced hsync hreplaced) hnew
    obtain ⟨d', hd', hid⟩ := m.owned emitted hemitted
    have hkey : (row model.idField).text = (emitted model.idField).text := hkeep.key
    rw [hkey, hid] at htext
    exact absurd (Option.some.inj htext ▸ hd') hd

/-- The target after the rows of the work replaced those with their ids. -/
theorem synced_replaced : EmbedSynced env model assign ids vectorOf result
    (written.upsert (work.map (embedRecord env model identity))) := by
  refine ⟨hsync.describes.replace hreplaced m.nodup_keys m.emits m.owned
    (m.keeps_replaced hsync hreplaced)
    (fun hne _ _ hst => StoredAsWritten.replaced hreplaced hne hst)
    (fun d hd => ⟨List.not_mem_nil, fun row hrow => ?_⟩) (fun r hr => .inr fun row hrow => ?_),
    m.typed_replaced hsync hreplaced⟩
  · rintro ⟨e, he, x, hx, hex⟩
    obtain ⟨d', hd', htext⟩ := m.owned e he
    have hrowText : (row model.idField).text = some d := (mem_rowsAt.mp hrow).2
    have hsame : some d = some d' := hrowText.symm.trans (hx.trans (hex.symm.trans htext))
    exact hd (Option.some.inj hsame ▸ hd')
  · obtain ⟨item, hitem, rfl⟩ := List.mem_map.mp hr
    obtain ⟨e, he, htext⟩ := m.exists_row hitem
    exact ⟨e, he, item.recordId, (mem_rowsAt.mp hrow).2, htext⟩

end Replace

end EmbedMade

/-- A record with rows in the target is found there. -/
theorem existingEmbeddingRow_ne_none {existing : Option Frame} {written : StateTable} {d : String}
    (h : EmbedSynced env model assign ids vectorOf existing written)
    (hrows : rowsAt model.idField (rowsOf existing) d ≠ []) :
    existingEmbeddingRow model existing d ≠ none := by
  obtain ⟨row, hrow⟩ := List.exists_mem_of_ne_nil _ hrows
  obtain ⟨hmem, htext⟩ := mem_rowsAt.mp hrow
  cases existing with
  | none => cases hmem
  | some target =>
    have hcolumn : model.idField ∈ target.columns := by
      by_contra hout
      have hnone := lookup_eq_none_of_notMem hout
      rw [h.typed (model.idField, ids.type) List.mem_cons_self target rfl] at hnone
      cases hnone
    rw [existingEmbeddingRow, if_pos hcolumn]
    intro hnone
    have hall := List.find?_eq_none.mp hnone row (List.mem_reverse.mpr hmem)
    simp [htext] at hall

/-- A deletion of removed records, by the ids that the target had before. -/
theorem EmbedSynced.delete {before existing result : Option Frame} {written : StateTable}
    {removed : List String} (h : EmbedSynced env model assign ids vectorOf existing written)
    (hfound : ∀ d ∈ removed, rowsAt model.idField (rowsOf existing) d ≠ [] →
      existingEmbeddingRow model before d ≠ none)
    (hdel : deleteRows model.idField (removed.filterMap fun recordId =>
      (existingEmbeddingRow model before recordId).map (· model.idField)) existing = .ok result) :
    EmbedSynced env model assign ids vectorOf result (written.delete removed) := by
  have hsame := (deleteRows_eq_ok hdel).1
  refine ⟨h.describes.delete hdel (fun c hc d hd => ?_) (fun d hd hne => ?_), fun p hp target ht => ?_⟩
  · obtain ⟨d', hd', hc⟩ := List.mem_filterMap.mp hc
    obtain ⟨row, hrow, rfl⟩ := Option.map_eq_some_iff.mp hc
    rw [(mem_rowsAt.mp (existingEmbeddingRow_eq_some hrow)).2] at hd
    exact Option.some.inj hd ▸ hd'
  · obtain ⟨row, hrow⟩ := Option.ne_none_iff_exists'.mp (hfound d hd hne)
    exact ⟨row model.idField, List.mem_filterMap.mpr ⟨d, hd, by rw [hrow]; rfl⟩,
      (mem_rowsAt.mp (existingEmbeddingRow_eq_some hrow)).2⟩
  · subst ht
    obtain ⟨old, hold, heq⟩ := Option.map_eq_some_iff.mp hsame.symm
    exact heq ▸ h.typed p hp old hold

end Made

end Stel.Execution
