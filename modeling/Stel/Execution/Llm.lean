import Stel.Execution.Documents
import Stel.Data.Text

/-!
# Generation models

The executor of native `llm:` models (`execution/llm.py`, `llm_map.py`): one provider call for each
row of the upstream whose state is not current, and one output row or many for each call.

## Main definitions

* `LlmModel`, `LlmMapRuntime`, `LlmEnv`: a model, what its profile resolves to, and what the
  executor uses of other packages.
* `executeMapItem`, `llmOutputRows`, `llmOutputFrame`.
* `runLlmModel`: `run_llm_model`, on the upstream frame that it reads.

## Main results

* `generate_eq_ok`: what a generation that is not stopped returns.
* `llmOutputRow_idField`, `llmOutputRow_rowIdField`: the keys of an output row.
* `llmRowId_inj`: the identifier of an output row determines its record.
-/

namespace Stel.Execution

open Stel.Warehouse

/-- `_LLM_METADATA_COLUMNS`. -/
def llmMetadataColumns : List String :=
  ["llm_provider", "llm_model", "llm_provider_implementation", "llm_input_hash", "llm_config_hash",
    "prompt_name", "prompt_version", "generated_at"]

/-- A model with an `llm:` block. The validators compare the reserved names without regard to case;
here exact names matter. -/
structure LlmModel where
  name : String
  upstream : String
  inputField : String
  idField : String := "id"
  /-- `output_cardinality` is `many`. -/
  many : Bool := false
  rowIdField : String := "llm_row_id"
  ordinalField : String := "ordinal"
  /-- The declared fields with their data types. -/
  fields : List (String × Option String)
  /-- `materialization` is `incremental`. -/
  incremental : Bool := true
  onSchemaChange : OnSchemaChange := .fail
  updateWhenChanged : List String := []
  /-- `_validate_llm_fields`. -/
  fields_nodup : (fields.map Prod.fst).Nodup
  fields_reserved : ∀ f ∈ fields.map Prod.fst,
    f ∉ llmMetadataColumns ∧ f ∉ [idField, rowIdField, ordinalField]
  /-- `_validate_reserved_fields`. -/
  names_reserved : ∀ c ∈ [inputField, idField, rowIdField, ordinalField], c ∉ llmMetadataColumns

/-- `LLMMapRuntime`, the part that determines the requests. -/
structure LlmMapRuntime where
  provider : String
  model : String
  implementation : String
  systemPrompt : String
  temperature : String := "0.0"
  maxTokens : ℕ := 2048
  baseUrl : Option String := none
  providerOptions : List (String × String) := []
  promptName : Option String := none
  promptVersion : Option String := none
  deriving DecidableEq, Repr

/-- What a provider returns: the entries of an object, and those of its `items`, if it is a list;
an item that is not a mapping is `none`. -/
structure ProviderOutput where
  object : List (String × Cell) := []
  items : Option (List (Option (List (String × Cell)))) := none

/-- What the executor uses of other packages. -/
structure LlmEnv where
  /-- `canonical_fingerprint` of a content. -/
  inputFingerprint : String → String
  /-- The `config_hash` of a resolved runtime. -/
  configHash : LlmModel → LlmMapRuntime → String
  /-- `compute_model_code_version`. -/
  codeVersion : LlmModel → LlmMapRuntime → String
  /-- `extract_fields_with_usage`, or the text of its exception. -/
  extractFields : LlmModel → LlmMapRuntime → String → Except String ProviderOutput
  /-- The cast of a cell to the type of a column. -/
  cast : String → Cell → Option Cell
  /-- The text of the exception of a cast that is refused. -/
  castError : List Row → String

/-- A row of the upstream that the run processes. -/
structure LlmWork where
  recordId : String
  idValue : Cell
  inputFingerprint : String
  content : String
  deriving DecidableEq

section Run

variable (env : LlmEnv) (model : LlmModel) (rt : LlmMapRuntime)

/-! ### Checks of the upstream -/

/-- The generated columns. -/
def generatedColumns : List String :=
  llmMetadataColumns ++ model.fields.map Prod.fst ++
    if model.many then [model.rowIdField, model.ordinalField] else []

/-- The checks of the upstream columns. -/
def validateLlmInput (source : Frame) : Except Failure Unit :=
  let prefixed := "llm model '" ++ model.name ++ "': upstream '" ++ model.upstream ++ "' "
  let missing := ([model.idField, model.inputField].dedup.filter (· ∉ source.columns)).insertionSort
    (· ≤ ·)
  let collisions := (source.columns.filter (· ∈ generatedColumns model)).insertionSort (· ≤ ·)
  if missing ≠ [] then
    .error (.runError (prefixed ++ "is missing required column(s): " ++ ", ".intercalate missing ++
      ". Available: " ++ printNames (source.columns.insertionSort (· ≤ ·))))
  else if collisions ≠ [] then
    .error (.runError (prefixed ++ "already contains generated column(s): " ++
      ", ".intercalate collisions))
  else .ok ()

/-- `_llm_record_ids`. -/
def llmRecordIds (source : Frame) : Except Failure (List String) :=
  requireIds ("llm model '" ++ model.name ++ "': upstream `" ++ model.idField ++ "` contains ")
    model.idField source

/-- `_existing_llm_id_values`: the first id value of the target with the text. -/
def existingIdValue (existing : Option Frame) (recordId : String) : Option Cell :=
  match existing with
  | some target =>
    if model.idField ∈ target.columns then
      (target.rows.map (· model.idField)).find? fun cell => cell.text = some recordId
    else none
  | none => none

/-! ### Generation -/

/-- `_project_object`. -/
def projectObject (object : List (String × Cell)) : List (String × Cell) :=
  model.fields.map fun f => (f.1, (object.lookup f.1).getD .null)

/-- `execute_map_item`. -/
def executeMapItem (content : String) : Except String (List (List (String × Cell))) := do
  let output ← env.extractFields model rt content
  if model.many then
    match output.items with
    | none => .error "provider returned a malformed list for output_cardinality: many"
    | some items => items.mapM fun item =>
        match item with
        | none => .error "provider returned a malformed list for output_cardinality: many"
        | some object => .ok (projectObject model object)
  else return [projectObject model output.object]

/-- Where the budget of a run is exhausted: at the charge for its documents, at the check before the
call at a position, and at the charge after it, each with its message. Concurrent calls exhaust it
in no fixed order. -/
structure LlmBudget where
  documents : ℕ → Option String := fun _ => none
  headroom : ℕ → Option String := fun _ => none
  charge : ℕ → Option String := fun _ => none

/-- What stops a generation. -/
inductive LlmStop
  | budgetExceeded (message : String)
  | failed (text : String)
  deriving DecidableEq, Repr

/-- One provider call under the budget. -/
def generateItem (budget : LlmBudget) (item : LlmWork) (position : ℕ) :
    Except LlmStop (List (List (String × Cell))) :=
  match budget.headroom position with
  | some message => .error (.budgetExceeded message)
  | none =>
    match executeMapItem env model rt item.content with
    | .error text => .error (.failed text)
    | .ok rows =>
      match budget.charge position with
      | some message => .error (.budgetExceeded message)
      | none => .ok rows

/-- The provider calls of a run. The results are read in the order of the inputs, so that the first
failure in this order is raised. -/
def generate (budget : LlmBudget) (work : List LlmWork) :
    Except LlmStop (List (List (List (String × Cell)))) :=
  if work = [] then .ok []
  else match budget.documents work.length with
    | some message => .error (.budgetExceeded message)
    | none => work.zipIdx.mapM fun item => generateItem env model rt budget item.1 item.2

/-! ### Output rows -/

/-- The identifier of an output row. -/
def llmRowId (recordId : String) (ordinal : ℕ) : String := recordId ++ "__" ++ toString ordinal

/-- An output row: the declared fields, the keys and the metadata, of which later entries prevail. -/
def llmOutputRow (generatedAt : String) (item : LlmWork) (ordinal : ℕ)
    (fields : List (String × Cell)) : Row :=
  dictRow (
    [("llm_provider", .string rt.provider), ("llm_model", .string rt.model),
      ("llm_provider_implementation", .string rt.implementation),
      ("llm_input_hash", .string item.inputFingerprint),
      ("llm_config_hash", .string (env.configHash model rt)),
      ("prompt_name", optionalCell rt.promptName),
      ("prompt_version", optionalCell rt.promptVersion),
      ("generated_at", .string generatedAt)] ++
    (if model.many then [(model.ordinalField, .other (toString ordinal)),
      (model.rowIdField, .string (llmRowId item.recordId ordinal))] else []) ++
    [(model.idField, item.idValue)] ++ fields.map fun f => (f.1, f.2.scalarize))

/-- `_llm_output_rows`. -/
def llmOutputRows (generatedAt : String) (item : LlmWork) (rows : List (List (String × Cell))) :
    List Row :=
  rows.zipIdx.map fun row => llmOutputRow env model rt generatedAt item row.2 row.1

/-- `EXTRACTION_FIELD_DTYPES`, with a string column for a field that declares no type. -/
def fieldType : Option String → String
  | some "integer" => "Int64"
  | some "float" => "Float64"
  | some "boolean" => "Boolean"
  | some "date" => "Date"
  | some "timestamp" => "Datetime"
  | _ => "String"

/-- `_llm_output_schema`, with the type of the id column of the upstream. It is a dictionary, so that
one name for the identifier and the ordinal is one column. -/
def llmOutputSchema (idType : String) : List (String × String) :=
  (model.idField, idType) ::
    ((if model.many then
        (if model.rowIdField = model.ordinalField then [] else [(model.rowIdField, "String")]) ++
          [(model.ordinalField, "Int64")]
      else []) ++
      (model.fields.map fun f => (f.1, fieldType f.2)) ++
      llmMetadataColumns.map fun c => (c, "String"))

/-- `_llm_output_frame`. -/
def llmOutputFrame (schema : List (String × String)) (rows : List Row) : Except Failure Frame :=
  if h : (schema.map Prod.fst).Nodup then
    match Frame.insert ⟨schema, [], h, by simp⟩ env.cast (schema.map Prod.fst) rows with
    | .ok frame => .ok frame
    | .error _ => .error (.runError ("llm model '" ++ model.name ++
        "' produced a value that does not match its declared field data_type: " ++
          env.castError rows))
  else .error (.other "DuplicateError")

/-! ### The run -/

/-- The content of an upstream row. -/
def llmContent (record : Row) : String := (record model.inputField).text.getD ""

/-- The state value of an upstream row. -/
def llmState (record : Row) : StateValue :=
  ⟨env.inputFingerprint (llmContent model record), env.codeVersion model rt⟩

/-- The work for an upstream row. -/
def llmWorkOf (document : String × Row) : LlmWork where
  recordId := document.1
  idValue := document.2 model.idField
  inputFingerprint := env.inputFingerprint (llmContent model document.2)
  content := llmContent model document.2

/-- The rows of the upstream whose state is not current. -/
def llmWork (prior : StateTable) (documents : List (String × Row)) : List LlmWork :=
  (documents.filter fun d => prior.lookup d.1 ≠ some (llmState env model rt d.2)).map
    (llmWorkOf env model)

/-- The state record of a processed row. -/
def llmRecord (item : LlmWork) : StateRecord :=
  ⟨item.recordId, item.inputFingerprint, env.codeVersion model rt⟩

/-- The result of a run. -/
structure LlmResult where
  status : Option String := none
  errors : List String := []
  documentsProcessed : ℕ
  documentsSkipped : ℕ
  documentsDeleted : ℕ
  rowsWritten : ℕ := 0
  rowsGenerated : ℕ := 0
  deriving DecidableEq, Repr

/-- The column that identifies an output row. -/
def llmKeyCol : String := if model.many then model.rowIdField else model.idField

/-- The deletion of removed rows and their state. -/
def deleteRemovedIds (removed : List String) (removedIdValues : List Cell) : TargetProg Unit :=
  if removed = [] then .pure ()
  else do
    let _ ← Prog.perform (TargetOp.deleteRowsAndState model.idField removedIdValues removed)
    return ()

/-- The insertion of the output rows of a run with one row for each record. -/
def writeOutput (output : Frame) : TargetProg ℕ :=
  if output.rows = [] then .pure 0
  else Prog.perform (TargetOp.materializeIncremental output (llmKeyCol model) model.onSchemaChange
    model.updateWhenChanged)

/-- The advance of the state by the records of a run. -/
def advanceState (records : List StateRecord) : TargetProg Unit :=
  if records = [] then .pure () else Prog.perform (TargetOp.upsertState records)

/-- The publication of a run. -/
def publishLlm (useFull : Bool) (work : List LlmWork) (output : Frame) (records : List StateRecord)
    (removed : List String) (removedIdValues : List Cell) : TargetProg ℕ :=
  if useFull then do
    let rowsWritten ← Prog.perform (TargetOp.materializeFull output)
    Prog.perform (TargetOp.replaceState records)
    return rowsWritten
  else if model.many then do
    let rowsWritten ← Prog.perform (TargetOp.replaceChildren model.idField (work.map (·.recordId))
      (llmKeyCol model) output records model.onSchemaChange)
    deleteRemovedIds model removed removedIdValues
    return rowsWritten
  else do
    let rowsWritten ← writeOutput model output
    deleteRemovedIds model removed removedIdValues
    advanceState records
    return rowsWritten

/-- `run_llm_model` after it read the state: the calls and the publication. -/
def finishLlm (budget : LlmBudget) (generatedAt : String) (source : Frame) (ids : List String)
    (useFull : Bool) (prior : StateTable) (existing : Option Frame) : TargetProg LlmResult :=
  let documents := ids.zip source.rows
  let removed := (prior.keys.filter (· ∉ ids)).insertionSort (· ≤ ·)
  let removedIdValues := removed.filterMap (existingIdValue model existing)
  let work := llmWork env model rt prior documents
  let skipped := documents.length - work.length
  match generate env model rt budget work with
  | .error (.budgetExceeded message) =>
    return { status := "budget_exceeded", errors := ["BudgetExceededError: " ++ message],
             documentsProcessed := work.length, documentsSkipped := skipped,
             documentsDeleted := removed.length }
  | .error (.failed text) =>
    .throw (.runError ("llm model '" ++ model.name ++ "' provider execution failed: " ++ text))
  | .ok generated => do
    let rows := (work.zip generated).flatMap fun item =>
      llmOutputRows env model rt generatedAt item.1 item.2
    let output ← Prog.ofExcept (llmOutputFrame env model
      (llmOutputSchema model ((source.schema.lookup model.idField).getD "")) rows)
    let rowsWritten ← asRunError (publishLlm model useFull work output
      (work.map (llmRecord env model rt)) removed removedIdValues)
    return { documentsProcessed := work.length, documentsSkipped := skipped,
             documentsDeleted := removed.length, rowsWritten := rowsWritten,
             rowsGenerated := rows.length }

/-- `run_llm_model`, on the upstream frame that it reads and with the runtime that it resolves, or
the text of an `LLMMapError`. -/
def runLlmModel (resolved : Except String LlmMapRuntime) (budget : LlmBudget) (fullRefresh : Bool)
    (generatedAt : String) (source : Frame) : TargetProg LlmResult := do
  .ofExcept (validateLlmInput model source)
  let rt ← Prog.ofExcept (resolved.mapError fun text =>
    .runError ("llm model '" ++ model.name ++ "': " ++ text))
  let ids ← Prog.ofExcept (llmRecordIds model source)
  let present ← Prog.perform TargetOp.relationExists
  if model.incremental && !fullRefresh && present then do
    let prior ← Prog.perform TargetOp.fetchState
    let existing ← Prog.perform TargetOp.readTable
    finishLlm env model rt budget generatedAt source ids false prior existing
  else finishLlm env model rt budget generatedAt source ids true ∅ none

end Run

section Lemmas

variable {env : LlmEnv} {model : LlmModel} {rt : LlmMapRuntime} {source : Frame}

/-- An accepted upstream has the id column, which is not a generated one. -/
theorem validateLlmInput_eq_ok (h : validateLlmInput model source = .ok ()) :
    model.idField ∈ source.columns ∧ model.idField ∉ generatedColumns model := by
  simp only [validateLlmInput] at h
  split at h
  · cases h
  rename_i hmissing
  split at h
  · cases h
  rename_i hcollisions
  have hcolumn : model.idField ∈ source.columns := by
    by_contra hout
    refine hmissing (List.ne_nil_of_mem (a := model.idField) ?_)
    rw [List.mem_insertionSort, List.mem_filter, List.mem_dedup]
    exact ⟨List.mem_cons_self, decide_eq_true hout⟩
  refine ⟨hcolumn, fun hin => hcollisions (List.ne_nil_of_mem (a := model.idField) ?_)⟩
  rw [List.mem_insertionSort, List.mem_filter]
  exact ⟨hcolumn, decide_eq_true hin⟩

/-- What a generation that is not stopped returns. -/
theorem generate_eq_ok {budget : LlmBudget} {work : List LlmWork}
    {generated : List (List (List (String × Cell)))}
    (h : generate env model rt budget work = .ok generated) :
    List.Forall₂ (fun item fields => executeMapItem env model rt item.content = .ok fields) work
      generated := by
  unfold generate at h
  split at h
  · rename_i hnone
    obtain rfl := Except.ok.inj h
    rw [hnone]
    exact .nil
  split at h
  · cases h
  have hitem : ∀ (item : LlmWork) (position : ℕ) (fields : List (List (String × Cell))),
      generateItem env model rt budget item position = .ok fields →
        executeMapItem env model rt item.content = .ok fields := by
    intro item position fields hok
    unfold generateItem at hok
    split at hok
    · cases hok
    split at hok
    · cases hok
    rename_i fields' hmap
    split at hok
    · cases hok
    · obtain rfl := Except.ok.inj hok
      exact hmap
  have hrel := (mapM_eq_ok.mp h).imp fun item fields hok => hitem item.1 item.2 fields hok
  have hfst : List.Forall₂ (fun item fields => executeMapItem env model rt item.content = .ok fields)
      (work.zipIdx.map Prod.fst) generated := List.forall₂_map_left_iff.mpr hrel
  rwa [List.zipIdx_map_fst] at hfst

/-- With `output_cardinality: one` a call makes one row. -/
theorem executeMapItem_one {content : String} {fields : List (List (String × Cell))}
    (hone : model.many = false) (h : executeMapItem env model rt content = .ok fields) :
    ∃ object, fields = [object] := by
  obtain ⟨output, -, h⟩ := bind_eq_ok.mp h
  simp only [hone, Bool.false_eq_true, if_false] at h
  exact ⟨_, (Except.ok.inj h).symm⟩

/-- The identifier of an output row determines its record. -/
theorem llmRowId_inj {d d' : String} {i i' : ℕ} (h : llmRowId d i = llmRowId d' i') : d = d' := by
  have hlist := congrArg (fun s : String => s.toList.reverse) h
  simp only [llmRowId, String.toList_append, Nat.toString_eq_repr, Nat.toList_repr,
    List.reverse_append] at hlist
  have hunder : ∀ n : ℕ, '_' ∉ (Nat.toDigits 10 n).reverse := fun n hn =>
    notMem_toDigits (by decide) n (List.mem_reverse.mp hn)
  have hrest := (append_cons_inj (hunder i) (hunder i') hlist).2
  exact String.toList_inj.mp (List.reverse_injective (List.cons.inj hrest).2)

/-! ### The cells of an output row -/

section Row

variable {generatedAt : String} {item : LlmWork} {ordinal : ℕ} {fields : List (String × Cell)}

/-- A cell that is not of the metadata. -/
theorem llmOutputRow_of_notMem {c : String} (hc : c ∉ llmMetadataColumns) :
    llmOutputRow env model rt generatedAt item ordinal fields c =
      dictRow ((if model.many then [(model.ordinalField, .other (toString ordinal)),
        (model.rowIdField, .string (llmRowId item.recordId ordinal))] else []) ++
          [(model.idField, item.idValue)] ++ fields.map fun f => (f.1, f.2.scalarize)) c := by
  rw [llmOutputRow, dictRow, dictRow, List.append_assoc, List.append_assoc, List.lookup_append,
    lookup_eq_none_of_notMem hc, Option.none_or, ← List.append_assoc]

/-- The id of the record, if it is not a generated column. -/
theorem llmOutputRow_idField (hid : model.idField ∉ generatedColumns model) :
    llmOutputRow env model rt generatedAt item ordinal fields model.idField = item.idValue := by
  rw [generatedColumns, List.mem_append, List.mem_append, not_or, not_or] at hid
  rw [llmOutputRow_of_notMem hid.1.1, dictRow, List.append_assoc, List.lookup_append,
    lookup_eq_none_of_notMem]
  · simp
  · intro hmem
    refine hid.2 ?_
    split at hmem
    · rename_i hmany
      rw [if_pos hmany]
      simpa [or_comm] using hmem
    · cases hmem

/-- The identifier of the row. -/
theorem llmOutputRow_rowIdField (hmany : model.many = true)
    (hne : model.rowIdField ≠ model.ordinalField) :
    llmOutputRow env model rt generatedAt item ordinal fields model.rowIdField =
      .string (llmRowId item.recordId ordinal) := by
  have hreserved := model.names_reserved model.rowIdField (by simp)
  rw [llmOutputRow_of_notMem hreserved, dictRow, if_pos hmany]
  have hb : (model.rowIdField == model.ordinalField) = false := by simpa using hne
  simp [List.lookup_cons, hb]

end Row

/-- The rows of an output frame are the casts of the given ones. -/
theorem llmOutputFrame_eq_ok {schema : List (String × String)} {rows : List Row} {output : Frame}
    (h : llmOutputFrame env model schema rows = .ok output) :
    output.schema = schema ∧
      assignRows env.cast schema (schema.map Prod.fst) rows = some output.rows := by
  unfold llmOutputFrame at h
  split at h
  swap
  · cases h
  split at h
  swap
  · cases h
  rename_i frame hinsert
  obtain rfl := Except.ok.inj h
  obtain ⟨hschema, stored, hstored, hrows⟩ := Frame.insert_eq_ok.mp hinsert
  rw [List.nil_append] at hrows
  exact ⟨hschema, hrows ▸ hstored⟩

end Lemmas

end Stel.Execution
