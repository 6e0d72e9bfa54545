import Stel.Execution.Documents
import Stel.Execution.ExtractionRows
import Mathlib.Data.Rat.Init

/-!
# Embedding models

The executor of `embed:` models (`execution/embed.py`): one target row for each row of the upstream, with
the vector of its text, which is taken from the target if that has it under the same text and the same
configuration, and is requested from the provider otherwise.

## Main definitions

* `EmbedModel`, `EmbedRuntime`, `EmbeddingIdentity`, `EmbedEnv`.
* `coerceEmbeddingVector`, `reusedVector`: the vector that the target has for an item.
* `embedBatches`: the provider calls of a run.
* `embeddingRow`, `embedFrame`: the output.
* `runEmbedModel`: `run_embed_model`, on the upstream frame that it reads.

## Main results

* `validateEmbedInput_eq_ok`: what an accepted upstream has.
* `itemVector_eq_some`: the vector of an item is one of the target, or one of the provider.
-/

namespace Stel.Execution

open Stel.Warehouse Extraction

/-- `EMBED_METADATA_FIELDS`, in the order of a row. -/
def embedMetadataFields : List String :=
  ["embedding_provider", "embedding_model", "embedding_dimensions",
    "embedding_provider_implementation", "embedding_input_hash", "embedding_config_hash", "embedded_at"]

/-- A model with an `embed:` block. -/
structure EmbedModel where
  name : String
  upstream : String
  provider : String
  model : String
  textField : String := "text"
  idField : String := "chunk_id"
  vectorField : String := "embedding"
  dimensions : ℕ
  batchSize : ℕ := 128
  /-- `materialization` is `incremental`. -/
  incremental : Bool := true
  onSchemaChange : OnSchemaChange := .fail
  updateWhenChanged : List String := []
  dimensions_pos : 0 < dimensions
  batchSize_pos : 0 < batchSize
  /-- `_validate_fields`. -/
  fields_nodup : [idField, textField, vectorField].Nodup
  fields_reserved : ∀ c ∈ [idField, textField, vectorField], c ∉ embedMetadataFields

/-- What the installed provider and the options of the profile add to the configuration. -/
structure EmbedRuntime where
  implementation : String
  optionsIdentity : Option String := none
  deriving DecidableEq, Repr

/-- `EmbeddingIdentity`. -/
structure EmbeddingIdentity where
  provider : String
  model : String
  dimensions : ℕ
  implementation : String
  providerOptionsIdentity : Option String
  deriving DecidableEq, Repr

/-- `EmbeddingIdentity.from_config`. -/
def EmbeddingIdentity.fromConfig (model : EmbedModel) (rt : EmbedRuntime) : EmbeddingIdentity where
  provider := model.provider
  model := model.model
  dimensions := model.dimensions
  implementation := rt.implementation
  providerOptionsIdentity := rt.optionsIdentity

/-- An item of a list that a target stores: a float is `none` if it is not finite. -/
inductive VectorItem
  | bool (b : Bool)
  | int (n : ℤ)
  | float (q : Option ℚ)
  | other
  deriving DecidableEq, Repr

/-- What the executor uses of other packages. -/
structure EmbedEnv where
  casefold : String → String
  /-- `canonical_fingerprint` of a row of the upstream. -/
  inputFingerprint : List (String × Cell) → String
  /-- `canonical_fingerprint` of a text. -/
  textHash : String → String
  /-- `_embedding_config_hash`. -/
  configHash : EmbeddingIdentity → String
  /-- `compute_model_code_version`. -/
  codeVersion : EmbedModel → EmbeddingIdentity → String
  /-- `embed_texts` of ids with their texts, or the text of its exception. -/
  embedTexts : EmbeddingIdentity → List (String × String) → Except String (List (List ℚ))
  /-- The cell of a list of floats. -/
  vectorCell : List ℚ → Cell
  /-- The items of a cell that is a list. -/
  items : Cell → Option (List VectorItem)
  /-- The float of an integer. -/
  floatOfInt : ℤ → ℚ
  /-- The type that a frame built from rows gives a column. -/
  inferType : List Cell → String
  /-- `pl.List(pl.Float64)`. -/
  vectorType : String

/-- `_EmbedWork`, without the vector. -/
structure EmbedWork where
  recordId : String
  record : Row
  inputFingerprint : String
  textHash : String
  text : String

section Run

variable (env : EmbedEnv) (model : EmbedModel) (identity : EmbeddingIdentity)

/-! ### Checks of the upstream -/

/-- The checks of the upstream columns. -/
def validateEmbedInput (source : Frame) : Except Failure Unit :=
  let prefixed := "Embed model '" ++ model.name ++ "': upstream '" ++ model.upstream ++ "' "
  let missing := ([model.idField, model.textField].dedup.filter (· ∉ source.columns)).insertionSort
    (· ≤ ·)
  let generated := (embedMetadataFields ++ [model.vectorField]).map env.casefold
  let collisions := (source.columns.filter (env.casefold · ∈ generated)).insertionSort (· ≤ ·)
  if missing ≠ [] then
    .error (.runError (prefixed ++ "is missing required column(s): " ++ ", ".intercalate missing ++
      ". Available: " ++ printNames (source.columns.insertionSort (· ≤ ·))))
  else if collisions ≠ [] then
    .error (.runError (prefixed ++ "already contains generated embedding column(s): " ++
      ", ".intercalate collisions))
  else .ok ()

/-- `_embed_record_ids`. -/
def embedRecordIds (source : Frame) : Except Failure (List String) :=
  requireIds ("Embed model '" ++ model.name ++ "': upstream `" ++ model.idField ++ "` contains ")
    model.idField source

/-! ### Vectors of the target -/

/-- `_existing_embedding_rows`: the last row of the target with the id. -/
def existingEmbeddingRow (existing : Option Frame) (recordId : String) : Option Row :=
  match existing with
  | some target =>
    if model.idField ∈ target.columns then
      target.rows.reverse.find? fun row => (row model.idField).text = some recordId
    else none
  | none => none

/-- The float of an item that is a finite number. -/
def VectorItem.toFloat : VectorItem → Option ℚ
  | .int n => some (env.floatOfInt n)
  | .float q => q
  | .bool _ | .other => none

/-- `_coerce_embedding_vector`. -/
def coerceEmbeddingVector (cell : Cell) : Option (List ℚ) :=
  match env.items cell with
  | none => none
  | some items =>
    if items.length ≠ model.dimensions then none
    else items.mapM (VectorItem.toFloat env)

/-- The vector that the target has for an item, with the text of its `embedded_at`. -/
def reusedVector (existing : Option Frame) (item : EmbedWork) : Option (List ℚ × Option String) :=
  match existingEmbeddingRow model existing item.recordId with
  | none => none
  | some row =>
    if row "embedding_input_hash" = .string item.textHash ∧
        row "embedding_config_hash" = .string (env.configHash identity) then
      (coerceEmbeddingVector env model (row model.vectorField)).map (·, (row "embedded_at").text)
    else none

/-! ### The work -/

/-- The text of an upstream row. -/
def embedText (record : Row) : String := (record model.textField).text.getD ""

/-- The state value of an upstream row. -/
def embedState (columns : List String) (record : Row) : StateValue :=
  ⟨env.inputFingerprint (columns.map fun c => (c, record c)), env.codeVersion model identity⟩

/-- The work for an upstream row. -/
def embedWorkOf (columns : List String) (document : String × Row) : EmbedWork where
  recordId := document.1
  record := document.2
  inputFingerprint := env.inputFingerprint (columns.map fun c => (c, document.2 c))
  textHash := env.textHash (embedText model document.2)
  text := embedText model document.2

/-- The rows of the upstream whose state is not current. -/
def embedWork (source : Frame) (ids : List String) (prior : StateTable) : List EmbedWork :=
  ((ids.zip source.rows).filter fun d =>
    prior.lookup d.1 ≠ some (embedState env model identity source.columns d.2)).map
      (embedWorkOf env model source.columns)

/-- The state record of a processed row. -/
def embedRecord (item : EmbedWork) : StateRecord :=
  ⟨item.recordId, item.inputFingerprint, env.codeVersion model identity⟩

/-! ### Provider calls -/

/-- The items without a vector in the target. -/
def pendingWork (existing : Option Frame) (work : List EmbedWork) : List EmbedWork :=
  work.filter fun item => (reusedVector env model identity existing item).isNone

/-- One provider call: the vectors of a batch by the ids of its items. -/
def embedBatch (batch : List EmbedWork) : Except String (List (String × List ℚ)) :=
  match env.embedTexts identity (batch.map fun item => (item.recordId, item.text)) with
  | .error text => .error text
  | .ok vectors =>
    if vectors.length < batch.length then
      .error "ValueError: zip() argument 2 is shorter than argument 1"
    else if batch.length < vectors.length then
      .error "ValueError: zip() argument 2 is longer than argument 1"
    else .ok ((batch.map EmbedWork.recordId).zip vectors)

/-- The provider calls of a run, in batches of the configured size. -/
def embedBatches (pending : List EmbedWork) : Except Failure (List (String × List ℚ)) :=
  (((slices model.batchSize pending).mapM (embedBatch env identity)).map List.flatten).mapError
    fun text => .runError ("Embed model '" ++ model.name ++ "' provider execution failed: " ++ text)

/-- The vector of an item, with the text of the `embedded_at` that it keeps. -/
def itemVector (existing : Option Frame) (embedded : List (String × List ℚ)) (item : EmbedWork) :
    Option (List ℚ × Option String) :=
  match reusedVector env model identity existing item with
  | some vector => some vector
  | none => (embedded.lookup item.recordId).map (·, none)

/-! ### Output rows -/

/-- `_embedding_row`. -/
def embeddingRow (item : EmbedWork) (vector : List ℚ) (embeddedAt : String) : Row := fun c =>
  match [("embedding_provider", Cell.string identity.provider),
      ("embedding_model", .string identity.model),
      ("embedding_dimensions", .other (toString identity.dimensions)),
      ("embedding_provider_implementation", .string identity.implementation),
      ("embedding_input_hash", .string item.textHash),
      ("embedding_config_hash", .string (env.configHash identity)),
      ("embedded_at", .string embeddedAt)].lookup c with
  | some cell => cell
  | none => if c = model.vectorField then env.vectorCell vector else (item.record c).scalarize

/-- The output row of an item; one without a vector fails the assertion of `_embedding_row`. -/
def itemRow (now : String) (existing : Option Frame) (embedded : List (String × List ℚ))
    (item : EmbedWork) : Except Failure Row :=
  match itemVector env model identity existing embedded item with
  | none => .error (.other "AssertionError")
  | some (vector, embeddedAt) =>
    .ok (embeddingRow env model identity item vector
      (if embeddedAt.getD "" = "" then now else embeddedAt.getD ""))

/-- The columns of the output. -/
def embedColumns (columns : List String) : List String :=
  columns ++ model.vectorField :: embedMetadataFields

/-- The schema of `_empty_embedding_frame`. -/
def emptyEmbeddingSchema (source : Frame) : List (String × String) :=
  source.schema ++ (model.vectorField, env.vectorType) ::
    embedMetadataFields.map fun c => (c, if c = "embedding_dimensions" then "Int64" else "String")

/-- The output frame of a run. -/
def embedFrame (source : Frame) (rows : List Row) : Except Failure Frame :=
  if h : (embedColumns model source.columns).Nodup then
    if rows = [] then .ok
      { schema := emptyEmbeddingSchema env model source
        rows := []
        nodup := by
          simpa [emptyEmbeddingSchema, embedColumns, Frame.columns, Function.comp_def] using h
        blank := by simp }
    else .ok
      { schema := (embedColumns model source.columns).map fun c => (c, env.inferType (rows.map (· c)))
        rows := rows.map fun row c => if c ∈ embedColumns model source.columns then row c else .null
        nodup := by simpa [Function.comp_def] using h
        blank := by
          intro row hrow c hc
          obtain ⟨source, -, rfl⟩ := List.mem_map.mp hrow
          exact if_neg (by simpa [Function.comp_def] using hc) }
  else .error (.other "DuplicateError")

/-! ### The run -/

/-- The result of a run. -/
structure EmbedResult where
  documentsProcessed : ℕ
  documentsSkipped : ℕ
  documentsDeleted : ℕ
  rowsWritten : ℕ
  cacheHits : ℕ
  rowsEmbedded : ℕ
  deriving DecidableEq, Repr

/-- The insertion of the output rows of an incremental run. -/
def writeEmbeddings (output : Frame) : TargetProg ℕ :=
  if output.rows = [] then .pure 0
  else Prog.perform (TargetOp.materializeIncremental output model.idField model.onSchemaChange
    model.updateWhenChanged)

/-- The deletion of removed rows and their state. -/
def deleteRemovedEmbeddings (removed : List String) (removedTargetKeys : List Cell) :
    TargetProg Unit :=
  if removed = [] then .pure ()
  else do
    let _ ← Prog.perform (TargetOp.deleteRowsAndState model.idField removedTargetKeys removed)
    return ()

/-- The advance of the state by the records of an incremental run. -/
def recordEmbeddings (records : List StateRecord) : TargetProg Unit :=
  if records = [] then .pure () else Prog.perform (TargetOp.upsertState records)

/-- The publication of a run. -/
def publishEmbed (useFull : Bool) (output : Frame) (records : List StateRecord) (removed : List String)
    (removedTargetKeys : List Cell) : TargetProg ℕ :=
  if useFull then do
    let rowsWritten ← Prog.perform (TargetOp.materializeFull output)
    Prog.perform (TargetOp.replaceState records)
    return rowsWritten
  else do
    let rowsWritten ← writeEmbeddings model output
    deleteRemovedEmbeddings model removed removedTargetKeys
    recordEmbeddings records
    return rowsWritten

/-- `run_embed_model` after it read the state and the target. -/
def finishEmbed (now : String) (source : Frame) (ids : List String) (useFull : Bool)
    (prior : StateTable) (existing : Option Frame) : TargetProg EmbedResult := do
  let removed := (prior.keys.filter (· ∉ ids)).insertionSort (· ≤ ·)
  let removedTargetKeys := removed.filterMap fun recordId =>
    (existingEmbeddingRow model existing recordId).map (· model.idField)
  let work := embedWork env model identity source ids prior
  let pending := pendingWork env model identity existing work
  let embedded ← Prog.ofExcept (embedBatches env model identity pending)
  let rows ← Prog.ofExcept (work.mapM (itemRow env model identity now existing embedded))
  let output ← Prog.ofExcept (embedFrame env model source rows)
  let rowsWritten ← asRunError (publishEmbed model useFull output
    (work.map (embedRecord env model identity)) removed removedTargetKeys)
  return {
    documentsProcessed := work.length
    documentsSkipped := (ids.zip source.rows).length - work.length
    documentsDeleted := removed.length
    rowsWritten := rowsWritten
    cacheHits := work.length - pending.length
    rowsEmbedded := pending.length }

/-- `run_embed_model`, on the upstream frame that it reads and with what its profile and the provider
resolve to, or the exception. -/
def runEmbedModel (resolved : Except Failure EmbedRuntime) (fullRefresh : Bool) (now : String)
    (source : Frame) : TargetProg EmbedResult := do
  .ofExcept (validateEmbedInput env model source)
  let ids ← Prog.ofExcept (embedRecordIds model source)
  let rt ← Prog.ofExcept resolved
  let identity := EmbeddingIdentity.fromConfig model rt
  let present ← Prog.perform TargetOp.relationExists
  if model.incremental && !fullRefresh && present then do
    let prior ← Prog.perform TargetOp.fetchState
    let existing ← Prog.perform TargetOp.readTable
    finishEmbed env model identity now source ids false prior existing
  else finishEmbed env model identity now source ids true ∅ none

end Run

section Lemmas

variable {env : EmbedEnv} {model : EmbedModel} {identity : EmbeddingIdentity} {source : Frame}

/-- An accepted upstream has the id column, and none of the generated ones. -/
theorem validateEmbedInput_eq_ok (h : validateEmbedInput env model source = .ok ()) :
    model.idField ∈ source.columns ∧
      ∀ c ∈ source.columns, c ∉ embedMetadataFields ∧ c ≠ model.vectorField := by
  simp only [validateEmbedInput] at h
  split at h
  · cases h
  rename_i hmissing
  split at h
  · cases h
  rename_i hcollisions
  refine ⟨?_, fun c hc => ?_⟩
  · by_contra hout
    refine hmissing (List.ne_nil_of_mem (a := model.idField) ?_)
    rw [List.mem_insertionSort, List.mem_filter, List.mem_dedup]
    exact ⟨List.mem_cons_self, decide_eq_true hout⟩
  · rw [← not_or]
    intro hgenerated
    refine hcollisions (List.ne_nil_of_mem (a := c) ?_)
    rw [List.mem_insertionSort, List.mem_filter]
    refine ⟨hc, decide_eq_true (List.mem_map_of_mem ?_)⟩
    rw [List.mem_append, List.mem_singleton]
    exact hgenerated

/-! ### The cells of an output row -/

variable {item : EmbedWork} {vector : List ℚ} {embeddedAt c : String}

theorem embeddingRow_of_notMem (hc : c ∉ embedMetadataFields) (hvector : c ≠ model.vectorField) :
    embeddingRow env model identity item vector embeddedAt c = (item.record c).scalarize := by
  rw [embeddingRow, lookup_eq_none_of_notMem hc]
  exact if_neg hvector

theorem embeddingRow_vectorField :
    embeddingRow env model identity item vector embeddedAt model.vectorField =
      env.vectorCell vector := by
  have hreserved : model.vectorField ∉ embedMetadataFields :=
    model.fields_reserved _ (by simp)
  rw [embeddingRow, lookup_eq_none_of_notMem hreserved]
  exact if_pos rfl

theorem embeddingRow_idField : embeddingRow env model identity item vector embeddedAt model.idField =
    (item.record model.idField).scalarize := by
  have hne : model.idField ≠ model.vectorField := by
    have hnodup := model.fields_nodup
    simp only [List.nodup_cons, List.mem_cons, List.not_mem_nil, not_or] at hnodup
    exact hnodup.1.2.1
  exact embeddingRow_of_notMem (model.fields_reserved _ List.mem_cons_self) hne

theorem embeddingRow_inputHash :
    embeddingRow env model identity item vector embeddedAt "embedding_input_hash" =
      .string item.textHash := rfl

theorem embeddingRow_configHash :
    embeddingRow env model identity item vector embeddedAt "embedding_config_hash" =
      .string (env.configHash identity) := rfl

/-! ### The output frame -/

theorem lookup_map_pair {β : Type} {f : String → β} {names : List String} (hc : c ∈ names) :
    (names.map fun name => (name, f name)).lookup c = some (f c) := by
  induction names with
  | nil => cases hc
  | cons name names ih =>
    by_cases hname : c = name
    · subst hname
      simp
    · rw [List.map_cons, List.lookup_cons, beq_false_of_ne hname]
      exact ih ((List.mem_cons.mp hc).resolve_left hname)

/-- The output frame has the rows of the run. -/
theorem embedFrame_eq_ok {rows : List Row} {output : Frame}
    (h : embedFrame env model source rows = .ok output)
    (hblank : ∀ row ∈ rows, ∀ c ∉ embedColumns model source.columns, row c = .null) :
    output.rows = rows ∧ output.columns = embedColumns model source.columns ∧
      (rows = [] → output.schema = emptyEmbeddingSchema env model source) ∧
      (rows ≠ [] → ∀ c ∈ embedColumns model source.columns,
        output.schema.lookup c = some (env.inferType (rows.map (· c)))) := by
  unfold embedFrame at h
  split_ifs at h with hnodup hrows
  · obtain rfl := Except.ok.inj h
    refine ⟨hrows.symm, ?_, fun _ => rfl, fun hne => absurd hrows hne⟩
    simp [Frame.columns, emptyEmbeddingSchema, embedColumns, Function.comp_def]
  · obtain rfl := Except.ok.inj h
    refine ⟨?_, by simp [Frame.columns, Function.comp_def], fun hnil => absurd hnil hrows,
      fun _ c hc => ?_⟩
    · refine (List.map_congr_left fun row hrow => funext fun c => ?_).trans (List.map_id _)
      split_ifs with hc
      · rfl
      · exact (hblank row hrow c hc).symm
    · exact lookup_map_pair hc

/-- The vector of an item that the target does not have. -/
theorem itemVector_eq_some {existing : Option Frame} {embedded : List (String × List ℚ)}
    {at' : Option String}
    (h : itemVector env model identity existing embedded item = some (vector, at')) :
    reusedVector env model identity existing item = some (vector, at') ∨
      embedded.lookup item.recordId = some vector := by
  unfold itemVector at h
  split at h
  · rename_i reused hreused
    exact .inl (hreused.trans h)
  · obtain ⟨found, hfound, hpair⟩ := Option.map_eq_some_iff.mp h
    obtain ⟨rfl, -⟩ := Prod.mk.inj hpair
    exact .inr hfound

end Lemmas

end Stel.Execution
