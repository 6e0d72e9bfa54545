import Stel.Execution.Llm
import Stel.Warehouse.Written

/-!
# Incremental generation models

The target of an incremental generation model against the ghost table of the values under which its
rows were last written, and what one publication does to both.

## Main definitions

* `LlmEnv.Reliable`: what is assumed of the digests, the frames and the warehouse.
* `llmEmission`: the rows that a record emits under a state value.
* `LlmSynced`: the target holds the rows that were written under the values of the ghost table.
* `LlmMade`: what a run knows when it publishes.

## Main results

* `LlmMade.synced_full`, `LlmMade.synced_replaced`, `LlmSynced.delete`: the target after an operation
  of a publication.
* `llm_classified`: what a run processes and removes.
-/

namespace Stel.Execution

open Stel.Warehouse

/-- What is assumed of the other packages, for ids of the given type: digests do not collide, a cast
to strings and the warehouse keep strings, the warehouse keeps the text of an id, and ids are told
apart by their texts. -/
structure LlmEnv.Reliable (env : LlmEnv) (model : LlmModel) (assign : Assignment) (idType : String) :
    Prop where
  inputFingerprint_inj : Function.Injective env.inputFingerprint
  codeVersion_inj : Function.Injective (env.codeVersion model)
  cast_string : ∀ s, env.cast "String" (.string s) = some (.string s)
  assign_string : ∀ s, assign "String" (.string s) = some (.string s)
  assign_id : ∀ {cell stored : Cell}, env.cast idType cell = some cell →
    assign idType cell = some stored → stored.text = cell.text
  id_inj : ∀ {a b : Cell}, env.cast idType a = some a → env.cast idType b = some b →
    a.text = b.text → a = b

/-- The ids of an upstream are of the given type. -/
def TypedIds (env : LlmEnv) (model : LlmModel) (idType : String) (source : Frame) : Prop :=
  ∀ type, source.schema.lookup model.idField = some type →
    type = idType ∧ ∀ row ∈ source.rows, env.cast idType (row model.idField) = some (row model.idField)

section Emission

variable (env : LlmEnv) (model : LlmModel) (rt : LlmMapRuntime) (assign : Assignment)
  (idType : String)

/-- The rows that a record emits in a run, as the frame of the run has them. -/
def llmFrameRows (generatedAt : String) (item : LlmWork) (fields : List (List (String × Cell))) :
    Option (List Row) :=
  assignRows env.cast (llmOutputSchema model idType) ((llmOutputSchema model idType).map Prod.fst)
    (llmOutputRows env model rt generatedAt item fields)

/-- What a record emits under a runtime. -/
structure LlmEmits (generatedAt : String) (item : LlmWork) (rows : List Row) : Prop where
  id : item.idValue.text = some item.recordId
  typed : env.cast idType item.idValue = some item.idValue
  fingerprint : item.inputFingerprint = env.inputFingerprint item.content
  made : ∃ fields, executeMapItem env model rt item.content = .ok fields ∧
    llmFrameRows env model rt idType generatedAt item fields = some rows

/-- The rows of a record under a state value. -/
def llmEmission : Emission where
  keyCol := model.idField
  childCol := llmKeyCol model
  Emits d v rows := ∃ rt generatedAt item, item.recordId = d ∧
    v = ⟨item.inputFingerprint, env.codeVersion model rt⟩ ∧
    LlmEmits env model rt idType generatedAt item rows
  Stores := StoredAsWritten assign model.onSchemaChange

/-- The target holds, record by record, the rows that were written under the values of the ghost
table, and its key columns have their types. -/
structure LlmSynced (table : Option Frame) (written : StateTable) : Prop where
  describes : (llmEmission env model assign idType).Describes written table
  idTyped : ∀ target, table = some target → target.schema.lookup model.idField = some idType
  rowIdTyped : model.many = true → ∀ target, table = some target →
    target.schema.lookup model.rowIdField = some "String"

/-- The state records of a run on a prior state. -/
def llmRecords (source : Frame) (prior : StateTable) : List StateRecord :=
  match llmRecordIds model source with
  | .ok ids => (llmWork env model rt prior (ids.zip source.rows)).map (llmRecord env model rt)
  | .error _ => []

/-- The current state value of a record, if the upstream has it. -/
def llmCurrent (source : Frame) (d : String) : Option StateValue :=
  (StateTable.replace (llmRecords env model rt source ∅)).lookup d

end Emission

/-! ### The work of a run -/

section Work

variable {env : LlmEnv} {model : LlmModel} {rt : LlmMapRuntime} {source : Frame} {ids : List String}
  {prior : StateTable}

theorem mem_llmWork {item : LlmWork} : item ∈ llmWork env model rt prior (ids.zip source.rows) ↔
    ∃ d record, (d, record) ∈ ids.zip source.rows ∧
      prior.lookup d ≠ some (llmState env model rt record) ∧ item = llmWorkOf env model (d, record) := by
  simp only [llmWork, List.mem_map, List.mem_filter, decide_eq_true_iff, Prod.exists]
  constructor
  · rintro ⟨d, record, ⟨hmem, hne⟩, rfl⟩
    exact ⟨d, record, hmem, hne, rfl⟩
  · rintro ⟨d, record, hmem, hne, rfl⟩
    exact ⟨d, record, ⟨hmem, hne⟩, rfl⟩

theorem keys_llmRecord (work : List LlmWork) :
    (work.map (llmRecord env model rt)).map (·.recordKey) = work.map (·.recordId) := by
  rw [List.map_map]
  rfl

theorem nodup_llmWork (hids : llmRecordIds model source = .ok ids) :
    ((llmWork env model rt prior (ids.zip source.rows)).map (·.recordId)).Nodup := by
  rw [llmWork, List.map_map]
  have hfst : ((·.recordId) ∘ llmWorkOf env model : String × Row → String) = Prod.fst := rfl
  rw [hfst]
  exact (requireIds_zip hids).2.1.sublist (List.filter_sublist.map _)

theorem llmRecords_eq (hids : llmRecordIds model source = .ok ids) :
    llmRecords env model rt source prior =
      (llmWork env model rt prior (ids.zip source.rows)).map (llmRecord env model rt) := by
  simp only [llmRecords, hids]

theorem llmCurrent_of_mem (hids : llmRecordIds model source = .ok ids) {d : String} {record : Row}
    (hmem : (d, record) ∈ ids.zip source.rows) :
    llmCurrent env model rt source d = some (llmState env model rt record) := by
  rw [llmCurrent, llmRecords_eq hids]
  have hwork : llmWorkOf env model (d, record) ∈ llmWork env model rt ∅ (ids.zip source.rows) :=
    mem_llmWork.mpr ⟨d, record, hmem, by simp, rfl⟩
  refine StateTable.lookup_upsert (r := llmRecord env model rt (llmWorkOf env model (d, record))) ?_
    (List.mem_map_of_mem hwork)
  rw [keys_llmRecord]
  exact nodup_llmWork hids

theorem llmCurrent_of_notMem (hids : llmRecordIds model source = .ok ids) {d : String}
    (hd : d ∉ ids) : llmCurrent env model rt source d = none := by
  rw [llmCurrent, llmRecords_eq hids]
  refine (StateTable.lookup_upsert_of_notMem ?_).trans rfl
  rw [keys_llmRecord, List.mem_map]
  rintro ⟨item, hitem, rfl⟩
  obtain ⟨d, record, hmem, -, rfl⟩ := mem_llmWork.mp hitem
  exact hd ((mem_requireIds hids).mpr ⟨record, hmem⟩)

theorem llmCurrent_eq_none (hids : llmRecordIds model source = .ok ids) {d : String} :
    llmCurrent env model rt source d = none ↔ d ∉ ids := by
  refine ⟨fun hnone hin => ?_, llmCurrent_of_notMem hids⟩
  obtain ⟨record, hmem⟩ := (mem_requireIds hids).mp hin
  rw [llmCurrent_of_mem hids hmem] at hnone
  cases hnone

/-- What a run processes and removes. -/
theorem llm_classified (hids : llmRecordIds model source = .ok ids) :
    Classified prior (llmCurrent env model rt source)
      ((llmWork env model rt prior (ids.zip source.rows)).map (llmRecord env model rt))
      ((llmWork env model rt prior (ids.zip source.rows)).map (·.recordId))
      ((prior.keys.filter (· ∉ ids)).insertionSort (· ≤ ·)) := by
  have hkeys := @keys_llmRecord env model rt
    (llmWork env model rt prior (ids.zip source.rows))
  refine ⟨?_, fun r hr => ?_, fun d => ⟨fun hd => ?_, fun hd => ?_⟩, fun d hd => ?_,
    fun d hd _ => ?_, fun d => ?_⟩
  · rw [hkeys]
    exact nodup_llmWork hids
  · obtain ⟨item, hitem, rfl⟩ := List.mem_map.mp hr
    obtain ⟨d, record, hmem, -, rfl⟩ := mem_llmWork.mp hitem
    exact llmCurrent_of_mem hids hmem
  · rw [hkeys] at hd
    obtain ⟨item, hitem, rfl⟩ := List.mem_map.mp hd
    obtain ⟨d, record, hmem, hne, rfl⟩ := mem_llmWork.mp hitem
    rw [show (llmWorkOf env model (d, record)).recordId = d from rfl, llmCurrent_of_mem hids hmem]
    exact ⟨by simp, hne⟩
  · obtain ⟨hcurrent, hne⟩ := hd
    obtain ⟨record, hmem⟩ : ∃ record, (d, record) ∈ ids.zip source.rows := by
      rw [← mem_requireIds hids]
      by_contra hout
      exact hcurrent (llmCurrent_of_notMem hids hout)
    rw [llmCurrent_of_mem hids hmem] at hne
    rw [hkeys]
    exact List.mem_map.mpr ⟨_, mem_llmWork.mpr ⟨d, record, hmem, hne, rfl⟩, rfl⟩
  · rwa [hkeys]
  · rwa [hkeys] at hd
  · rw [List.mem_insertionSort]
    exact mem_removed (fun _ => llmCurrent_eq_none hids) d

end Work

/-! ### The rows of a run -/

section Made

variable {env : LlmEnv} {model : LlmModel} {rt : LlmMapRuntime} {assign : Assignment}
  {idType generatedAt : String} {source : Frame} {ids : List String} {prior : StateTable}
  {output : Frame}

/-- What a run knows when it publishes: its checked upstream and its output. -/
structure LlmMade (env : LlmEnv) (model : LlmModel) (rt : LlmMapRuntime) (assign : Assignment)
    (idType generatedAt : String) (source : Frame) (ids : List String) (prior : StateTable)
    (output : Frame) : Prop where
  reliable : env.Reliable model assign idType
  distinct : model.rowIdField ≠ model.ordinalField
  typed : TypedIds env model idType source
  valid : validateLlmInput model source = .ok ()
  accepted : llmRecordIds model source = .ok ids
  schema : output.schema = llmOutputSchema model idType
  made : ∃ generated,
    List.Forall₂ (fun item fields => executeMapItem env model rt item.content = .ok fields)
      (llmWork env model rt prior (ids.zip source.rows)) generated ∧
    assignRows env.cast (llmOutputSchema model idType) ((llmOutputSchema model idType).map Prod.fst)
      (((llmWork env model rt prior (ids.zip source.rows)).zip generated).flatMap fun item =>
        llmOutputRows env model rt generatedAt item.1 item.2) = some output.rows

theorem lookup_idField : (llmOutputSchema model idType).lookup model.idField = some idType := by
  simp [llmOutputSchema]

theorem lookup_rowIdField (hmany : model.many = true)
    (hdistinct : model.rowIdField ≠ model.ordinalField)
    (hid : model.idField ∉ generatedColumns model) :
    (llmOutputSchema model idType).lookup model.rowIdField = some "String" := by
  have hne : model.rowIdField ≠ model.idField := by
    rintro he
    refine hid ?_
    rw [generatedColumns, if_pos hmany, ← he]
    simp
  have hb : (model.rowIdField == model.idField) = false := by simpa using hne
  simp [llmOutputSchema, hmany, hdistinct, List.lookup_cons, hb]

/-- The key cells of a row in the frame of a run. -/
theorem cells_of_frameRow (hrt : env.Reliable model assign idType)
    (hdistinct : model.rowIdField ≠ model.ordinalField)
    (hid : model.idField ∉ generatedColumns model) {item : LlmWork} {ordinal : ℕ}
    {fields : List (String × Cell)} {row : Row}
    (htyped : env.cast idType item.idValue = some item.idValue)
    (h : assignRow env.cast (llmOutputSchema model idType)
      ((llmOutputSchema model idType).map Prod.fst)
      (llmOutputRow env model rt generatedAt item ordinal fields) = some row) :
    row model.idField = item.idValue ∧
      (model.many = true → row model.rowIdField = .string (llmRowId item.recordId ordinal)) := by
  refine ⟨?_, fun hmany => ?_⟩
  · have hcell := assignRow_apply h lookup_idField (by simp [llmOutputSchema])
    rw [llmOutputRow_idField hid, htyped] at hcell
    exact (Option.some.inj hcell).symm
  · have hcell := assignRow_apply h (lookup_rowIdField hmany hdistinct hid)
      (by simp [llmOutputSchema, hmany, hdistinct])
    rw [llmOutputRow_rowIdField hmany hdistinct, hrt.cast_string] at hcell
    exact (Option.some.inj hcell).symm

/-- The rows that a record emits carry its id, and identifiers made from it. -/
theorem LlmEmits.cells (hrt : env.Reliable model assign idType)
    (hdistinct : model.rowIdField ≠ model.ordinalField)
    (hid : model.idField ∉ generatedColumns model) {item : LlmWork} {rows : List Row} {row : Row}
    (h : LlmEmits env model rt idType generatedAt item rows) (hrow : row ∈ rows) :
    row model.idField = item.idValue ∧
      (model.many = true → ∃ i, row model.rowIdField = .string (llmRowId item.recordId i)) := by
  obtain ⟨fields, -, hrows⟩ := h.made
  obtain ⟨source, hsource, hassign⟩ := exists_of_mem_assignRows hrows hrow
  obtain ⟨p, -, rfl⟩ := List.mem_map.mp hsource
  obtain ⟨hcell, hrowId⟩ := cells_of_frameRow hrt hdistinct hid h.typed hassign
  exact ⟨hcell, fun hmany => ⟨p.2, hrowId hmany⟩⟩

namespace LlmMade

variable (m : LlmMade env model rt assign idType generatedAt source ids prior output)
include m

theorem id_notMem : model.idField ∉ generatedColumns model := (validateLlmInput_eq_ok m.valid).2

/-- The id of an item of the work. -/
theorem item_typed {item : LlmWork} (hitem : item ∈ llmWork env model rt prior (ids.zip source.rows)) :
    item.idValue.text = some item.recordId ∧ env.cast idType item.idValue = some item.idValue := by
  obtain ⟨d, record, hmem, -, rfl⟩ := mem_llmWork.mp hitem
  obtain ⟨type, htype⟩ := exists_lookup_of_mem (validateLlmInput_eq_ok m.valid).1
  exact ⟨(requireIds_zip m.accepted).2.2 d record hmem,
    (m.typed type htype).2 record (List.of_mem_zip hmem).2⟩

/-- The rows of the output are emitted by the items of the work, each of which emits those that
carry its id. -/
theorem emits {item : LlmWork} (hitem : item ∈ llmWork env model rt prior (ids.zip source.rows)) :
    LlmEmits env model rt idType generatedAt item
      (rowsAt model.idField output.rows item.recordId) := by
  obtain ⟨generated, hgenerated, hrows⟩ := m.made
  obtain ⟨htext, htyped⟩ := m.item_typed hitem
  set work := llmWork env model rt prior (ids.zip source.rows) with hwork
  obtain ⟨i, hi, rfl⟩ := List.getElem_of_mem hitem
  have hi' : i < generated.length := hgenerated.length_eq ▸ hi
  have hentry : (work[i], generated[i]) ∈ work.zip generated :=
    List.mem_iff_getElem.mpr ⟨i, by simp [hi, hi'], by simp⟩
  refine ⟨htext, htyped, ?_, generated[i], hgenerated.get hi hi', ?_⟩
  · obtain ⟨d, record, -, -, he⟩ := mem_llmWork.mp hitem
    rw [he]
    rfl
  -- the output is the concatenation of the rows of the items, each labelled by its id
  have hlabel : ∀ e ∈ (work.zip generated).map fun p => (p.1.recordId, p),
      ∀ row ∈ llmOutputRows env model rt generatedAt e.2.1 e.2.2,
        (row model.idField).text = some e.1 := by
    intro e he row hrow
    obtain ⟨p, hp, rfl⟩ := List.mem_map.mp he
    obtain ⟨f, -, rfl⟩ := List.mem_map.mp hrow
    rw [llmOutputRow_idField m.id_notMem]
    exact (m.item_typed (List.of_mem_zip hp).1).1
  have hnodup : (((work.zip generated).map fun p => (p.1.recordId, p)).map Prod.fst).Nodup := by
    rw [List.map_map, show (Prod.fst ∘ fun p : LlmWork × List (List (String × Cell)) =>
      (p.1.recordId, p)) = (·.recordId) ∘ Prod.fst from rfl, ← List.map_map,
      List.map_fst_zip hgenerated.length_eq.le]
    exact nodup_llmWork m.accepted
  have hat := rowsAt_flatMap hnodup hlabel (List.mem_map_of_mem hentry)
  rw [List.flatMap_map] at hat
  have hrel := assignRows_eq_some.mp hrows
  rw [llmFrameRows, assignRows_eq_some, ← hat]
  refine List.rel_filter ?_ ((List.forall₂_and_left (p := (· ∈ (work.zip generated).flatMap _)) _ _).mpr
    ⟨fun _ h => h, hrel⟩) |>.imp fun _ _ h => h.2
  rintro row st ⟨hmem, hassign⟩
  obtain ⟨p, hp, hrow⟩ := List.mem_flatMap.mp hmem
  obtain ⟨f, -, rfl⟩ := List.mem_map.mp hrow
  obtain ⟨hcell, -⟩ := cells_of_frameRow m.reliable m.distinct m.id_notMem
    (m.item_typed (List.of_mem_zip hp).1).2 hassign
  simp only [decide_eq_true_iff, llmOutputRow_idField m.id_notMem, hcell]

/-- Every row of the output belongs to an item of the work. -/
theorem owned {row : Row} (hrow : row ∈ output.rows) :
    ∃ item ∈ llmWork env model rt prior (ids.zip source.rows), row model.idField = item.idValue ∧
      (model.many = true → ∃ i, row model.rowIdField = .string (llmRowId item.recordId i)) := by
  obtain ⟨generated, -, hrows⟩ := m.made
  obtain ⟨source, hsource, hassign⟩ := exists_of_mem_assignRows hrows hrow
  obtain ⟨p, hp, hmem⟩ := List.mem_flatMap.mp hsource
  obtain ⟨f, -, rfl⟩ := List.mem_map.mp hmem
  have hitem := (List.of_mem_zip hp).1
  obtain ⟨hcell, hrowId⟩ :=
    cells_of_frameRow m.reliable m.distinct m.id_notMem (m.item_typed hitem).2 hassign
  exact ⟨p.1, hitem, hcell, fun hmany => ⟨f.2, hrowId hmany⟩⟩

theorem owned_text {row : Row} (hrow : row ∈ output.rows) :
    ∃ item ∈ llmWork env model rt prior (ids.zip source.rows),
      (row model.idField).text = some item.recordId := by
  obtain ⟨item, hitem, hcell, -⟩ := m.owned hrow
  exact ⟨item, hitem, hcell ▸ (m.item_typed hitem).1⟩

/-- With one row for each record, every item of the work has a row. -/
theorem exists_row (hone : model.many = false) {item : LlmWork}
    (hitem : item ∈ llmWork env model rt prior (ids.zip source.rows)) :
    ∃ row ∈ output.rows, (row model.idField).text = some item.recordId := by
  obtain ⟨fields, hfields, hrows⟩ := (m.emits hitem).made
  obtain ⟨object, rfl⟩ := executeMapItem_one hone hfields
  have hlength := (assignRows_eq_some.mp hrows).length_eq
  have hpos : 0 < (rowsAt model.idField output.rows item.recordId).length := by
    rw [← hlength]
    exact Nat.zero_lt_one
  obtain ⟨row, hrow⟩ := List.exists_mem_of_length_pos hpos
  exact ⟨row, mem_rowsAt.mp hrow⟩

/-- A row that the target inserts keeps the texts of the keys. -/
theorem keeps {target : Frame} {row st : Row}
    (hidType : target.schema.lookup model.idField = some idType)
    (hrowIdType : model.many = true → target.schema.lookup model.rowIdField = some "String")
    (hwide : model.onSchemaChange ≠ .ignore → output.columns ⊆ target.schema.map Prod.fst)
    (hrow : row ∈ output.rows)
    (h : assignRow assign target.schema output.columns row = some st) :
    (llmEmission env model assign idType).Keeps target.schema row st := by
  obtain ⟨item, hitem, hcell, hrowId⟩ := m.owned hrow
  have hcolumns : output.columns = (llmOutputSchema model idType).map Prod.fst :=
    congrArg (List.map Prod.fst) m.schema
  have hid : (st model.idField).text = (row model.idField).text := by
    have hassign := assignRow_apply h hidType (by simp [hcolumns, llmOutputSchema])
    rw [hcell] at hassign ⊢
    exact m.reliable.assign_id (m.item_typed hitem).2 hassign
  refine ⟨.of_assignRow hrow h hwide, hid, ?_⟩
  show (st (llmKeyCol model)).text = (row (llmKeyCol model)).text
  unfold llmKeyCol
  split
  · rename_i hmany
    obtain ⟨i, hstring⟩ := hrowId hmany
    have hassign := assignRow_apply h (hrowIdType hmany) 
      (by simp [hcolumns, llmOutputSchema, hmany, m.distinct])
    rw [hstring, m.reliable.assign_string] at hassign
    rw [hstring, (Option.some.inj hassign).symm]
  · exact hid

/-- The target after a rebuild. -/
theorem synced_full : LlmSynced env model assign idType (some output)
    (.replace ((llmWork env model rt prior (ids.zip source.rows)).map (llmRecord env model rt))) := by
  refine ⟨Emission.describes_full ?_ (fun r hr => ?_) (fun row hrow => ?_) fun row hrow => .self hrow,
    ?_, ?_⟩
  · rw [keys_llmRecord]
    exact nodup_llmWork m.accepted
  · obtain ⟨item, hitem, rfl⟩ := List.mem_map.mp hr
    exact ⟨rt, generatedAt, item, rfl, rfl, m.emits hitem⟩
  · obtain ⟨item, hitem, htext⟩ := m.owned_text hrow
    rw [keys_llmRecord]
    exact ⟨item.recordId, List.mem_map_of_mem hitem, htext⟩
  · rintro target ⟨⟩
    rw [m.schema]
    exact lookup_idField
  · rintro hmany target ⟨⟩
    rw [m.schema]
    exact lookup_rowIdField hmany m.distinct m.id_notMem

section Replace

variable {existing result : Option Frame} {written : StateTable} {keys : List String}
  {stored : List Row} (hsync : LlmSynced env model assign idType existing written)
  (hreplaced : Replaced assign model.idField keys (llmKeyCol model) output model.onSchemaChange
    existing result stored)
include hsync

/-- The rows of a record that the run does not process have other identifiers. -/
theorem no_clash {d : String}
    (hd : d ∉ (llmWork env model rt prior (ids.zip source.rows)).map (·.recordId)) {row : Row}
    (hrow : row ∈ rowsAt model.idField (rowsOf existing) d) :
    ¬ ∃ e ∈ output.rows, (row (llmKeyCol model)).Equals (e (llmKeyCol model)) := by
  rintro ⟨e, he, x, hx, hex⟩
  obtain ⟨item, hitem, hcell, hrowId⟩ := m.owned he
  suffices hsame : d = item.recordId from hd (hsame ▸ List.mem_map_of_mem hitem)
  unfold llmKeyCol at hx hex
  split at hx
  · rename_i hmany
    obtain ⟨i, hstring⟩ := hrowId hmany
    rw [if_pos hmany, hstring] at hex
    obtain ⟨v, hv⟩ : ∃ v, written.lookup d = some v := by
      rw [← Option.ne_none_iff_exists']
      intro hnone
      exact List.ne_nil_of_mem hrow (hsync.describes.absent d hnone)
    obtain ⟨rows, ⟨rt', at', item', rfl, -, hemits⟩, hrel⟩ := hsync.describes.held d v hv
    obtain ⟨emitted, hemitted, hkeep⟩ :=
      Emission.exists_of_rel_right hrel (Multiset.mem_coe.mpr hrow)
    obtain ⟨i', hstring'⟩ := (hemits.cells m.reliable m.distinct m.id_notMem
      (Multiset.mem_coe.mp hemitted)).2 hmany
    have hchild : (row (llmKeyCol model)).text = (emitted (llmKeyCol model)).text := hkeep.child
    rw [llmKeyCol, if_pos hmany, hstring', hx] at hchild
    obtain rfl : x = llmRowId item'.recordId i' := Option.some.inj hchild
    exact llmRowId_inj (Option.some.inj hex).symm
  · rename_i hone
    rw [if_neg hone, hcell, (m.item_typed hitem).1] at hex
    have htext := (mem_rowsAt.mp hrow).2
    rw [hx] at htext
    exact (Option.some.inj htext).symm.trans (Option.some.inj hex).symm

include hreplaced

/-- The key columns of the target keep their types. -/
theorem typed_replaced : (∀ target, result = some target →
      target.schema.lookup model.idField = some idType) ∧
    (model.many = true → ∀ target, result = some target →
      target.schema.lookup model.rowIdField = some "String") := by
  refine ⟨hreplaced.lookup hsync.idTyped fun _ => ?_, fun hmany =>
    hreplaced.lookup (hsync.rowIdTyped hmany) fun _ => ?_⟩
  · rw [m.schema]
    exact lookup_idField
  · rw [m.schema]
    exact lookup_rowIdField hmany m.distinct m.id_notMem

/-- The rows that the target inserts. -/
theorem keeps_replaced : List.Forall₂ ((llmEmission env model assign idType).Keeps
    (schemaOf result)) output.rows stored := by
  obtain ⟨hidTyped, hrowIdTyped⟩ := m.typed_replaced hsync hreplaced
  refine hreplaced.forall₂_stored fun hne target htarget row hrow st hst => ?_
  subst htarget
  exact m.keeps (hidTyped target rfl) (fun hmany => hrowIdTyped hmany target rfl) (hreplaced.wide hne) hrow
    hst

/-- A record that the run does not process gets no rows. -/
theorem rows_of_removed {d : String}
    (hd : d ∉ (llmWork env model rt prior (ids.zip source.rows)).map (·.recordId))
    (hrows : rowsAt model.idField (rowsOf result) d ≠ []) :
    rowsAt model.idField (rowsOf existing) d ≠ [] := by
  obtain ⟨row, hrow⟩ := List.exists_mem_of_ne_nil _ hrows
  obtain ⟨hmem, htext⟩ := mem_rowsAt.mp hrow
  rw [hreplaced.rows] at hmem
  rcases List.mem_append.mp hmem with hold | hnew
  · exact List.ne_nil_of_mem (mem_rowsAt.mpr
      ⟨List.mem_of_mem_filter (List.mem_of_mem_filter hold), htext⟩)
  · obtain ⟨emitted, hemitted, hkeep⟩ :=
      exists_of_mem_right (m.keeps_replaced hsync hreplaced) hnew
    obtain ⟨item, hitem, hid⟩ := m.owned_text hemitted
    have hkey : (row model.idField).text = (emitted model.idField).text := hkeep.key
    rw [hkey, hid] at htext
    exact absurd (Option.some.inj htext ▸ List.mem_map_of_mem hitem) hd

/-- The target after a replacement of the rows of the work: all the rows of its records with many
rows for each record, those with the ids of the output otherwise. -/
theorem synced_replaced
    (hkeys : keys = (llmWork env model rt prior (ids.zip source.rows)).map (·.recordId) ∨
      keys = [] ∧ model.many = false) :
    LlmSynced env model assign idType result (written.upsert
      ((llmWork env model rt prior (ids.zip source.rows)).map (llmRecord env model rt))) := by
  obtain ⟨hidTyped, hrowIdTyped⟩ := m.typed_replaced hsync hreplaced
  refine ⟨hsync.describes.replace hreplaced ?_ (fun r hr => ?_) (fun row hrow => ?_)
    (m.keeps_replaced hsync hreplaced)
    (fun hne _ _ hst => StoredAsWritten.replaced hreplaced hne hst)
    (fun d hd => ⟨fun hin => ?_, fun row hrow => ?_⟩) (fun r hr => ?_), hidTyped, hrowIdTyped⟩
  · rw [keys_llmRecord]
    exact nodup_llmWork m.accepted
  · obtain ⟨item, hitem, rfl⟩ := List.mem_map.mp hr
    exact ⟨rt, generatedAt, item, rfl, rfl, m.emits hitem⟩
  · obtain ⟨item, hitem, htext⟩ := m.owned_text hrow
    rw [keys_llmRecord]
    exact ⟨item.recordId, List.mem_map_of_mem hitem, htext⟩
  · rw [keys_llmRecord] at hd
    rcases hkeys with rfl | ⟨rfl, -⟩
    · exact hd hin
    · cases hin
  · rw [keys_llmRecord] at hd
    exact m.no_clash hsync hd hrow
  · obtain ⟨item, hitem, rfl⟩ := List.mem_map.mp hr
    rcases hkeys with rfl | ⟨rfl, hone⟩
    · exact .inl (List.mem_map_of_mem hitem)
    refine .inr fun row hrow => ?_
    obtain ⟨e, he, htext⟩ := m.exists_row hone hitem
    have hkey : llmKeyCol model = model.idField := if_neg (by simp [hone])
    have hrowText : (row (llmKeyCol model)).text = some item.recordId := by
      rw [hkey]
      exact (mem_rowsAt.mp hrow).2
    have heText : (e (llmKeyCol model)).text = some item.recordId := by
      rw [hkey]
      exact htext
    exact ⟨e, he, item.recordId, hrowText, heText⟩

end Replace

end LlmMade

/-- A deletion of removed ids, by the id values that the target had before. -/
theorem LlmSynced.delete {before existing result : Option Frame} {written : StateTable}
    {removed : List String} (h : LlmSynced env model assign idType existing written)
    (hcells : ∀ d ∈ removed, rowsAt model.idField (rowsOf existing) d ≠ [] →
      existingIdValue model before d ≠ none)
    (hdel : deleteRows model.idField (removed.filterMap (existingIdValue model before)) existing =
      .ok result) :
    LlmSynced env model assign idType result (written.delete removed) := by
  have hsame := (deleteRows_eq_ok hdel).1
  have hbefore : ∀ target, result = some target →
      ∃ old, existing = some old ∧ old.schema = target.schema := by
    rintro target rfl
    obtain ⟨old, hold, he⟩ := Option.map_eq_some_iff.mp hsame.symm
    exact ⟨old, hold, he⟩
  have hvalue : ∀ d c, existingIdValue model before d = some c → c.text = some d := by
    intro d c hc
    unfold existingIdValue at hc
    split at hc
    · split at hc
      · have hfound := List.find?_some hc
        simpa using hfound
      · cases hc
    · cases hc
  refine ⟨h.describes.delete hdel (fun c hc d hd => ?_) (fun d hd hne => ?_), fun target ht => ?_,
    fun hmany target ht => ?_⟩
  · obtain ⟨d', hd', hc⟩ := List.mem_filterMap.mp hc
    rw [hvalue d' c hc] at hd
    exact Option.some.inj hd ▸ hd'
  · obtain ⟨c, hc⟩ := Option.ne_none_iff_exists'.mp (hcells d hd hne)
    exact ⟨c, List.mem_filterMap.mpr ⟨d, hd, hc⟩, hvalue d c hc⟩
  · obtain ⟨old, hold, he⟩ := hbefore target ht
    exact he ▸ h.idTyped old hold
  · obtain ⟨old, hold, he⟩ := hbefore target ht
    exact he ▸ h.rowIdTyped hmany old hold

/-- A record with rows in the target has an id value there. -/
theorem existingIdValue_ne_none {existing : Option Frame} {written : StateTable} {d : String}
    (h : LlmSynced env model assign idType existing written)
    (hrows : rowsAt model.idField (rowsOf existing) d ≠ []) :
    existingIdValue model existing d ≠ none := by
  obtain ⟨row, hrow⟩ := List.exists_mem_of_ne_nil _ hrows
  obtain ⟨hmem, htext⟩ := mem_rowsAt.mp hrow
  cases existing with
  | none => cases hmem
  | some target =>
    have hcolumn : model.idField ∈ target.columns := by
      by_contra hout
      have hnone := lookup_eq_none_of_notMem hout
      rw [h.idTyped target rfl] at hnone
      cases hnone
    rw [existingIdValue, if_pos hcolumn]
    intro hnone
    have hall := List.find?_eq_none.mp hnone (row model.idField)
      (List.mem_map_of_mem (f := (· model.idField)) hmem)
    simp [htext] at hall

end Made

end Stel.Execution
