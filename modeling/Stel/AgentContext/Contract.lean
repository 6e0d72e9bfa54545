import Stel.Hashing
import Stel.Data.JsonValue
import Mathlib.Algebra.Order.Field.Rat
import Mathlib.Data.Prod.Lex

/-!
# The agent-context contract

`agent_context.py`: the three relations of `agent_context/v1`, the identifiers of their rows, and the
checks of a frame and of the three frames together.

## Main definitions

* `Value`, `Row`, `Frame`: what the columns of a frame hold.
* `ContractRelation`, `documentRegistry`, `documentChunks`, `contextEntityLinks`.
* `makeDocumentId`, `makeChunkId`, …: the identifiers.
* `validateAgentContextFrame`, `validateAgentContextRelations`: the checks.
* `intervalContains`, `activeAsOf`: the rows that hold at an instant.

## Main results

* `validateRows_eq_ok`: an accepted frame has accepted rows with different primary keys.
-/

namespace Stel.AgentContext

open Stel.Hashing

/-! ### Values -/

/-- A `datetime`: the microseconds on its own clock, and its offset from UTC if it is aware. -/
structure DateTime where
  clock : ℤ
  offset : Option ℤ
  deriving DecidableEq, Repr

/-- A value of a row. A float is finite; a list holds its strings, and `none` for any other item. -/
inductive Value
  | null
  | bool (b : Bool)
  | int (n : ℤ)
  | float (q : ℚ)
  | string (s : String)
  | timestamp (d : DateTime)
  | list (items : List (Option String))
  deriving DecidableEq

/-- A row by the names of its columns. -/
abbrev Row : Type := String → Value

/-- The row with some columns; the other ones are null. -/
def rowOf (columns : List (String × Value)) : Row := fun name => (columns.lookup name).getD .null

/-- A frame. -/
structure Frame where
  columns : List String
  rows : List Row

/-- What the contract uses of the standard library: `json.loads`, without a value if it raises, and
`hashlib.blake2b` by the size of the digest. -/
structure ContractEnv where
  loads : String → Option JsonValue
  blake2b : ℤ → List UInt8 → List UInt8

/-! ### The relations -/

/-- `AgentContextGrain`. -/
inductive Grain
  | documentRegistry
  | documentChunks
  | contextEntityLinks
  deriving DecidableEq, Repr

/-- `AgentContextGrain.value`. -/
def Grain.value : Grain → String
  | .documentRegistry => "document_registry"
  | .documentChunks => "document_chunks"
  | .contextEntityLinks => "context_entity_links"

/-- The `data_type` of a field. -/
inductive DataType
  | string
  | json
  | integer
  | float
  | boolean
  | timestamp
  | stringArray
  deriving DecidableEq, Repr

/-- The name of a `data_type`. -/
def DataType.name : DataType → String
  | .string => "string"
  | .json => "json"
  | .integer => "integer"
  | .float => "float"
  | .boolean => "boolean"
  | .timestamp => "timestamp"
  | .stringArray => "array[string]"

/-- `ContractField`. -/
structure ContractField where
  name : String
  dataType : DataType
  nullable : Bool := false
  deriving DecidableEq, Repr

/-- `ContractRelation`; every primary key is one field. -/
structure ContractRelation where
  grain : Grain
  primaryKey : String
  fields : List ContractField

/-- `_TEMPORAL_FIELDS`. -/
def temporalFields : List ContractField :=
  [⟨"validity_known", .boolean, false⟩, ⟨"valid_from", .timestamp, true⟩,
    ⟨"valid_to", .timestamp, true⟩, ⟨"recorded_from", .timestamp, false⟩,
    ⟨"recorded_to", .timestamp, true⟩]

/-- `_POLICY_FIELDS`. -/
def policyFields : List ContractField :=
  [⟨"tenant_id", .string, true⟩, ⟨"is_public", .boolean, false⟩,
    ⟨"access_groups", .stringArray, false⟩, ⟨"classification", .string, true⟩,
    ⟨"policy_ref", .string, true⟩, ⟨"policy_version", .string, true⟩,
    ⟨"authorization_resolved", .boolean, false⟩]

/-- `_FRESHNESS_FIELDS`. -/
def freshnessFields : List ContractField :=
  [⟨"source_updated_at", .timestamp, true⟩, ⟨"source_observed_at", .timestamp, true⟩,
    ⟨"ingested_at", .timestamp, false⟩, ⟨"materialized_at", .timestamp, false⟩,
    ⟨"freshness_checked_at", .timestamp, true⟩, ⟨"refresh_due_at", .timestamp, true⟩,
    ⟨"stale_after", .timestamp, true⟩]

/-- `_DOCUMENT_CARRY_FIELDS`. -/
def documentCarryFields : List String :=
  (temporalFields ++ policyFields ++ freshnessFields).map ContractField.name

/-- `_PROVENANCE_FIELDS`. -/
def provenanceFields : List ContractField :=
  [⟨"upstream_unique_id", .string, false⟩, ⟨"invocation_id", .string, false⟩,
    ⟨"parser_identity", .string, true⟩, ⟨"transform_identity", .string, true⟩,
    ⟨"prompt_fingerprint", .string, true⟩, ⟨"schema_fingerprint", .string, true⟩,
    ⟨"provider_identity", .string, true⟩, ⟨"model_identity", .string, true⟩,
    ⟨"provenance_fingerprint", .string, false⟩]

/-- `_DOCUMENT_REGISTRY`. -/
def documentRegistry : ContractRelation where
  grain := .documentRegistry
  primaryKey := "document_version_id"
  fields :=
    [⟨"document_id", .string, false⟩, ⟨"document_version_id", .string, false⟩,
      ⟨"source_system", .string, false⟩, ⟨"source_key", .string, false⟩,
      ⟨"source_uri", .string, true⟩, ⟨"source_version", .string, false⟩,
      ⟨"source_content_hash", .string, false⟩] ++
    temporalFields ++ policyFields ++ freshnessFields ++ provenanceFields

/-- `_DOCUMENT_CHUNKS`. -/
def documentChunks : ContractRelation where
  grain := .documentChunks
  primaryKey := "context_id"
  fields :=
    [⟨"context_id", .string, false⟩, ⟨"chunk_id", .string, false⟩,
      ⟨"document_id", .string, false⟩, ⟨"document_version_id", .string, false⟩,
      ⟨"chunk_index", .integer, false⟩, ⟨"text", .string, false⟩,
      ⟨"chunk_content_hash", .string, false⟩, ⟨"source_uri", .string, true⟩,
      ⟨"citation_page_number", .integer, true⟩, ⟨"citation_section_path", .stringArray, true⟩,
      ⟨"citation_char_start", .integer, true⟩, ⟨"citation_char_end", .integer, true⟩,
      ⟨"citation_speaker", .string, true⟩, ⟨"citation_start_seconds", .float, true⟩,
      ⟨"citation_end_seconds", .float, true⟩, ⟨"citation_locator", .json, true⟩] ++
    temporalFields ++ policyFields ++ freshnessFields ++
    [⟨"chunker_identity", .string, false⟩] ++ provenanceFields

/-- `_CONTEXT_ENTITY_LINKS`. -/
def contextEntityLinks : ContractRelation where
  grain := .contextEntityLinks
  primaryKey := "context_entity_link_id"
  fields :=
    [⟨"context_entity_link_id", .string, false⟩, ⟨"context_id", .string, false⟩,
      ⟨"entity_namespace", .string, false⟩, ⟨"entity_name", .string, false⟩,
      ⟨"entity_id", .string, false⟩, ⟨"entity_key", .json, false⟩,
      ⟨"dbt_unique_id", .string, true⟩, ⟨"relationship_type", .string, false⟩,
      ⟨"link_method", .string, false⟩, ⟨"confidence", .float, true⟩,
      ⟨"recorded_from", .timestamp, false⟩, ⟨"recorded_to", .timestamp, true⟩,
      ⟨"link_provenance_fingerprint", .string, false⟩]

/-- `contract_relation`. -/
def contractRelation : Grain → ContractRelation
  | .documentRegistry => documentRegistry
  | .documentChunks => documentChunks
  | .contextEntityLinks => contextEntityLinks

/-! ### Conversions -/

/-- `_utc`, in microseconds. -/
def utc (value : Value) (name : String) : Except Failure ℤ :=
  match value with
  | .timestamp ⟨clock, some offset⟩ => .ok (clock - offset)
  | _ => .error (.other (name ++ " must be a timezone-aware datetime"))

/-- `_optional_utc`. -/
def optionalUtc (value : Value) (name : String) : Except Failure (Option ℤ) :=
  if value = .null then .ok none else (utc value name).map some

/-- `_non_empty`. -/
def nonEmpty (value : Value) (name : String) : Except Failure String :=
  match value with
  | .string s => if s ≠ "" then .ok s
      else .error (.other (name ++ " must be a non-empty string"))
  | _ => .error (.other (name ++ " must be a non-empty string"))

/-- `_ID_PATTERN`. -/
def isStableId (s : String) : Bool :=
  s.toList.length = 32 && s.toList.all fun c => ('0' ≤ c ∧ c ≤ '9') ∨ ('a' ≤ c ∧ c ≤ 'f')

/-- `_stable_id`. -/
def stableId (value : Value) (name : String) : Except Failure String := do
  let normalized ← nonEmpty value name
  if isStableId normalized then .ok normalized
  else .error (.other (name ++ " must be a 32-character lowercase hex identifier"))

/-- The string items of a JSON array, and `none` for any other item. -/
def jsonItems (items : List JsonValue) : List (Option String) :=
  items.map fun item => match item with
    | .string s => some s
    | _ => none

/-- The check of the items of `_string_array`. -/
def stringItems (items : List (Option String)) : Except Failure (List String) :=
  items.mapM fun item => match item with
    | some s => if s ≠ "" then .ok s
        else .error (.other "array[string] must contain non-empty strings")
    | none => .error (.other "array[string] must contain non-empty strings")

/-- `_optional_non_empty`. -/
def optionalNonEmpty (value : Value) : Bool :=
  match value with
  | .string s => s ≠ ""
  | _ => false

/-- The number of a value that the field checks accepted as one. -/
def number (value : Value) : ℚ :=
  match value with
  | .int n => n
  | .float q => q
  | _ => 0

/-- `_invalid`. -/
def invalid {α : Type} (grain : Grain) (position : ℕ) (message : String) : Except Failure α :=
  .error (.other ("agent_context/v1 " ++ grain.value ++ " row " ++ toString position ++ ": " ++
    message))

section Env

variable (env : ContractEnv)

/-- `_string_array`. -/
def stringArray (value : Value) (allowNone : Bool) : Except Failure (List String) :=
  match value with
  | .null => if allowNone then .ok []
      else .error (.other "array[string] must contain non-empty strings")
  | .list items => stringItems items
  | .string s =>
    match env.loads s with
    | none => .error (.other "array[string] must be a JSON array or sequence")
    | some (.array items) => stringItems (jsonItems items)
    | some _ => .error (.other "array[string] must contain non-empty strings")
  | _ => .error (.other "array[string] must contain non-empty strings")

/-- `_canonical_json_text`. -/
def canonicalJsonText (value : Value) (name : String) : Except Failure String := do
  let text ← nonEmpty value name
  match env.loads text with
  | none => .error (.other (name ++ " must be canonical JSON"))
  | some decoded =>
    if decoded.hasNan then .error (.other "Out of range float values are not JSON compliant")
    else if text = decoded.dumps then .ok text
    else .error (.other (name ++ " must be canonical JSON"))

/-! ### Identifiers -/

/-- `canonical_fingerprint` of a dictionary of strings. -/
def stringFingerprint (entries : List (String × String)) (domain : String) :
    Except Failure String :=
  canonicalFingerprint env.blake2b (.mapping (entries.map fun e => (.str e.1, .str e.2))) domain 1 16

/-- `make_document_id`. -/
def makeDocumentId (sourceSystem sourceKey : Value) : Except Failure String := do
  let system ← nonEmpty sourceSystem "source_system"
  let key ← nonEmpty sourceKey "source_key"
  stringFingerprint env [("source_system", system), ("source_key", key)]
    "dbt-ml-agent-context-document"

/-- `make_document_version_id`. -/
def makeDocumentVersionId (documentId sourceVersion sourceContentHash : Value) :
    Except Failure String := do
  let document ← stableId documentId "document_id"
  let version ← nonEmpty sourceVersion "source_version"
  let contentHash ← nonEmpty sourceContentHash "source_content_hash"
  stringFingerprint env [("document_id", document), ("source_version", version),
    ("source_content_hash", contentHash)] "dbt-ml-agent-context-document-version"

/-- `make_chunk_id`. -/
def makeChunkId (documentId chunkIndex text : Value) : Except Failure String := do
  let document ← stableId documentId "document_id"
  match chunkIndex with
  | .int index =>
    if index < 0 then .error (.other "chunk_index must be a non-negative integer")
    else match text with
      | .string s =>
        if s = "" then .error (.other "text must be a non-empty string")
        else .ok (hex (env.blake2b 16 (utf8 (document ++ "|" ++ toString index ++ "|") ++ utf8 s)))
      | _ => .error (.other "text must be a non-empty string")
  | _ => .error (.other "chunk_index must be a non-negative integer")

/-- `make_context_id`. -/
def makeContextId (documentVersionId chunkId : Value) : Except Failure String := do
  let version ← stableId documentVersionId "document_version_id"
  let chunk ← stableId chunkId "chunk_id"
  stringFingerprint env [("document_version_id", version), ("chunk_id", chunk)]
    "dbt-ml-agent-context-record"

/-- `make_entity_id`. -/
def makeEntityId (entityNamespace entityName entityKey : Value) : Except Failure String := do
  let key ← canonicalJsonText env entityKey "entity_key"
  let scope ← nonEmpty entityNamespace "entity_namespace"
  let name ← nonEmpty entityName "entity_name"
  stringFingerprint env [("entity_namespace", scope), ("entity_name", name), ("entity_key", key)]
    "dbt-ml-agent-context-entity"

/-- `make_context_entity_link_id`. -/
def makeContextEntityLinkId (contextId entityId relationshipType : Value) :
    Except Failure String := do
  let context ← stableId contextId "context_id"
  let entity ← stableId entityId "entity_id"
  let relationship ← nonEmpty relationshipType "relationship_type"
  stringFingerprint env [("context_id", context), ("entity_id", entity),
    ("relationship_type", relationship)] "dbt-ml-agent-context-entity-link"

/-- `content_hash`. -/
def contentHash (text : Value) : Except Failure String :=
  match text with
  | .string s => .ok (hex (env.blake2b 16 (utf8 s)))
  | _ => .error (.other "content must be a string")

/-- A value of a policy field, as it is fingerprinted. No other values pass the field checks. -/
def policyValue (value : Value) : PyValue :=
  match value with
  | .bool b => .bool b
  | .string s => .str s
  | _ => .none

/-- `policy_fingerprint`. -/
def policyFingerprint (row : Row) : Except Failure String := do
  let groups ← stringArray env (row "access_groups") true
  let values := policyFields.map fun field => (PyValue.str field.name,
    if field.name = "access_groups" then PyValue.sequence .list (groups.map .str)
    else policyValue (row field.name))
  canonicalFingerprint env.blake2b (.mapping values) "dbt-ml-agent-context-policy" 1 16

/-! ### Checks of a row -/

/-- The check of `_validate_field_value`. -/
def hasDataType (dataType : DataType) (value : Value) : Bool :=
  match dataType with
  | .string => optionalNonEmpty value
  | .json => match value with
    | .string s => s ≠ "" && (env.loads s).isSome
    | _ => false
  | .integer => match value with
    | .int _ => true
    | _ => false
  | .float => match value with
    | .int _ | .float _ => true
    | _ => false
  | .boolean => match value with
    | .bool _ => true
    | _ => false
  | .timestamp => (utc value "").isOk
  | .stringArray => (stringArray env value false).isOk

/-- The checks of one field of a row. -/
def validateField (grain : Grain) (position : ℕ) (row : Row) (field : ContractField) :
    Except Failure Unit :=
  if row field.name = .null then
    if field.nullable then .ok ()
    else .error (.other (grain.value ++ " row " ++ toString position ++ " has null " ++ field.name))
  else if hasDataType env field.dataType (row field.name) then .ok ()
  else invalid grain position (field.name ++ " must have type " ++ field.dataType.name)

/-- `_validate_stable_id`. -/
def validateStableId (grain : Grain) (position : ℕ) (row : Row) (name : String) :
    Except Failure Unit :=
  match stableId (row name) name with
  | .ok _ => .ok ()
  | .error e => invalid grain position e.message

/-- `_expect_id`. -/
def expectId (grain : Grain) (position : ℕ) (row : Row) (name expected : String) :
    Except Failure Unit :=
  if row name = .string expected then .ok ()
  else invalid grain position (name ++ " does not match its v1 algorithm")

/-- `_validate_interval`. -/
def validateInterval (start stop : Value) (label : String) (position : ℕ) (grain : Grain) :
    Except Failure Unit := do
  let normalizedStart ← utc start (label ++ "_from")
  match ← optionalUtc stop (label ++ "_to") with
  | some normalizedEnd =>
    if normalizedEnd ≤ normalizedStart then
      invalid grain position (label ++ "_to must be later than " ++ label ++ "_from")
    else .ok ()
  | none => .ok ()

/-- The check of the validity in `_validate_temporal`. -/
def validateValidity (row : Row) (position : ℕ) (grain : Grain) : Except Failure Unit :=
  if row "validity_known" = .bool true then
    if row "valid_from" = .null then invalid grain position "known validity requires valid_from"
    else validateInterval (row "valid_from") (row "valid_to") "valid" position grain
  else if row "valid_from" ≠ .null ∨ row "valid_to" ≠ .null then
    invalid grain position "unknown validity requires null valid_from and valid_to"
  else .ok ()

/-- `_validate_temporal`. -/
def validateTemporal (row : Row) (position : ℕ) (grain : Grain) : Except Failure Unit := do
  validateValidity row position grain
  validateInterval (row "recorded_from") (row "recorded_to") "recorded" position grain

/-- `is_publishable_context`. -/
def isPublishableContext (row : Row) : Except Failure Bool :=
  if row "authorization_resolved" ≠ .bool true then .ok false
  else if row "is_public" = .bool true then .ok true
  else do
    let groups ← stringArray env (row "access_groups") true
    return optionalNonEmpty (row "tenant_id") || !groups.isEmpty ||
      optionalNonEmpty (row "classification") || optionalNonEmpty (row "policy_ref")

/-- `_validate_policy`. -/
def validatePolicy (row : Row) (position : ℕ) (grain : Grain) : Except Failure Unit := do
  let groups ← stringArray env (row "access_groups") false
  if ¬ groups.Nodup then invalid grain position "access_groups must not contain duplicates"
  else if groups.insertionSort (· ≤ ·) ≠ groups then
    invalid grain position "access_groups must be canonically sorted"
  else if row "is_public" ≠ .bool true ∧ row "authorization_resolved" = .bool true then do
    let publishable ← isPublishableContext env row
    if publishable then .ok ()
    else
      invalid grain position "non-public resolved policy requires at least one policy attribute"
  else .ok ()

/-- `_validate_freshness`. -/
def validateFreshness (row : Row) (position : ℕ) (grain : Grain) : Except Failure Unit := do
  let ingested ← utc (row "ingested_at") "ingested_at"
  let materialized ← utc (row "materialized_at") "materialized_at"
  if materialized < ingested then
    invalid grain position "materialized_at cannot precede ingested_at"
  else match ← optionalUtc (row "freshness_checked_at") "freshness_checked_at" with
    | some checked =>
      if checked < ingested then
        invalid grain position "freshness_checked_at cannot precede ingested_at"
      else .ok ()
    | none => .ok ()

/-- A value of `citation_locator`. -/
inductive LocatorValue
  | plain (value : Value)
  | json (value : JsonValue)

/-- `_json_value`, without a value if it is `None`. -/
def jsonValue (value : Value) : Except Failure (Option LocatorValue) :=
  match value with
  | .string s =>
    match env.loads s with
    | none => .error (.other "Expecting value")
    | some .null => .ok none
    | some j => .ok (some (.json j))
  | .null => .ok none
  | v => .ok (some (.plain v))

/-- `citation_locator`. -/
def citationLocator (row : Row) : Except Failure (List (String × LocatorValue)) := do
  let plain (key column : String) : List (String × LocatorValue) :=
    if row column = .null then [] else [(key, .plain (row column))]
  let sectionPath ← jsonValue env (row "citation_section_path")
  let extra ← jsonValue env (row "citation_locator")
  return plain "source_uri" "source_uri" ++ plain "chunk_index" "chunk_index" ++
    plain "page_number" "citation_page_number" ++
    (sectionPath.toList.map fun v => ("section_path", v)) ++
    plain "char_start" "citation_char_start" ++ plain "char_end" "citation_char_end" ++
    plain "speaker" "citation_speaker" ++ plain "start_seconds" "citation_start_seconds" ++
    plain "end_seconds" "citation_end_seconds" ++ extra.toList.map fun v => ("extra", v)

/-- `_validate_citation`. -/
def validateCitation (row : Row) (position : ℕ) (grain : Grain) : Except Failure Unit :=
  let page := row "citation_page_number"
  let charStart := row "citation_char_start"
  let charEnd := row "citation_char_end"
  let startSeconds := row "citation_start_seconds"
  let endSeconds := row "citation_end_seconds"
  if page ≠ .null ∧ number page < 1 then
    invalid grain position "citation_page_number must be at least 1"
  else if ¬ (charStart = .null ↔ charEnd = .null) then
    invalid grain position "citation character offsets must be paired"
  else if charStart ≠ .null ∧ (number charStart < 0 ∨ number charEnd ≤ number charStart) then
    invalid grain position "citation character offsets are invalid"
  else if ¬ (startSeconds = .null ↔ endSeconds = .null) then
    invalid grain position "citation time offsets must be paired"
  else if startSeconds ≠ .null ∧
      (number startSeconds < 0 ∨ number endSeconds ≤ number startSeconds) then
    invalid grain position "citation time offsets are invalid"
  else do
    let locator ← citationLocator env row
    if locator.isEmpty then invalid grain position "citation locator must not be empty" else .ok ()

/-- `_validate_canonical_json`. -/
def validateCanonicalJson (row : Row) (name : String) (position : ℕ) (grain : Grain) :
    Except Failure Unit :=
  match canonicalJsonText env (row name) name with
  | .ok _ => .ok ()
  | .error e => invalid grain position e.message

/-- `_validate_row_semantics`. -/
def validateRowSemantics (row : Row) (grain : Grain) (position : ℕ) : Except Failure Unit :=
  match grain with
  | .documentRegistry => do
    validateTemporal row position grain
    validatePolicy env row position grain
    validateFreshness row position grain
    validateStableId grain position row "source_content_hash"
    validateStableId grain position row "provenance_fingerprint"
    let expectedDocumentId ← makeDocumentId env (row "source_system") (row "source_key")
    let expectedVersionId ← makeDocumentVersionId env (.string expectedDocumentId)
      (row "source_version") (row "source_content_hash")
    expectId grain position row "document_id" expectedDocumentId
    expectId grain position row "document_version_id" expectedVersionId
  | .documentChunks => do
    validateTemporal row position grain
    validatePolicy env row position grain
    validateFreshness row position grain
    validateStableId grain position row "document_id"
    validateStableId grain position row "document_version_id"
    validateStableId grain position row "chunk_content_hash"
    validateStableId grain position row "provenance_fingerprint"
    let expectedChunkId ← makeChunkId env (row "document_id") (row "chunk_index") (row "text")
    let expectedContextId ← makeContextId env (row "document_version_id") (.string expectedChunkId)
    expectId grain position row "chunk_id" expectedChunkId
    expectId grain position row "context_id" expectedContextId
    let expectedHash ← contentHash env (row "text")
    if row "chunk_content_hash" ≠ .string expectedHash then
      invalid grain position "chunk_content_hash does not match text"
    else validateCitation env row position grain
  | .contextEntityLinks => do
    validateCanonicalJson env row "entity_key" position grain
    validateStableId grain position row "link_provenance_fingerprint"
    let expectedEntityId ← makeEntityId env (row "entity_namespace") (row "entity_name")
      (row "entity_key")
    let expectedLinkId ← makeContextEntityLinkId env (row "context_id") (.string expectedEntityId)
      (row "relationship_type")
    expectId grain position row "entity_id" expectedEntityId
    expectId grain position row "context_entity_link_id" expectedLinkId
    validateInterval (row "recorded_from") (row "recorded_to") "recorded" position grain
    let confidence := row "confidence"
    if confidence ≠ .null ∧ ¬ (0 ≤ number confidence ∧ number confidence ≤ 1) then
      invalid grain position "confidence must be between 0 and 1"
    else .ok ()

/-! ### Checks of a frame -/

/-- The check of the primary key of a row against those of the rows before it. -/
def validateUnseen (relation : ContractRelation) (seen : List Value) (row : Row) :
    Except Failure Unit :=
  if row relation.primaryKey ∈ seen then
    let key := match row relation.primaryKey with
      | .string s => "('" ++ s ++ "',)"
      | _ => "(None,)"
    .error (.other (relation.grain.value ++ " contains duplicate primary key " ++ key))
  else .ok ()

/-- The checks of the rows from a position on, with the primary keys before it. -/
def validateRows (relation : ContractRelation) : List Value → ℕ → List Row → Except Failure Unit
  | _, _, [] => .ok ()
  | seen, position, row :: rows => do
    relation.fields.forM (validateField env relation.grain position row)
    validateUnseen relation seen row
    validateRowSemantics env row relation.grain position
    validateRows relation (row relation.primaryKey :: seen) (position + 1) rows

/-- The check of the start of a version against the end of the previous one. -/
def validateStart (previous : Option (Option ℤ)) (start : ℤ) (position : ℕ) :
    Except Failure Unit :=
  let overlaps := match previous with
    | none => false
    | some none => true
    | some (some previousEnd) => decide (start < previousEnd)
  if overlaps then
    invalid .documentRegistry position "recorded intervals must not overlap for one document_id"
  else .ok ()

/-- The sweep of `_validate_document_version_intervals` over the sorted versions of a document, with
the end of the previous one. -/
def sweepVersions : Option (Option ℤ) → List (ℕ × Row) → Except Failure Unit
  | _, [] => .ok ()
  | previous, (position, row) :: versions => do
    let start ← utc (row "recorded_from") "recorded_from"
    validateStart previous start position
    let stop ← optionalUtc (row "recorded_to") "recorded_to"
    sweepVersions (some stop) versions

/-- `versions.sort(key=lambda item: _utc(item[1]["recorded_from"], "recorded_from"))`. -/
def sortVersions (versions : List (ℕ × Row)) : Except Failure (List (ℕ × Row)) := do
  let keyed ← versions.mapM fun item =>
    (utc (item.2 "recorded_from") "recorded_from").map fun start => (start, item)
  return (keyed.insertionSort fun a b => a.1 ≤ b.1).map Prod.snd

/-- `_validate_document_version_intervals`. -/
def validateDocumentVersionIntervals (rows : List Row) : Except Failure Unit :=
  let positions := rows.zipIdx.map fun item => (item.2, item.1)
  (rows.map (· "document_id")).eraseDups.forM fun document => do
    let versions ← sortVersions (positions.filter fun item => item.2 "document_id" = document)
    sweepVersions none versions

/-- The check of the columns of a frame. -/
def validateColumns (relation : ContractRelation) (columns : List String) : Except Failure Unit :=
  let missing := (relation.fields.map ContractField.name).filter (· ∉ columns)
  if missing ≠ [] then
    .error (.other ("agent_context/v1 " ++ relation.grain.value ++ " is missing columns: " ++
      ", ".intercalate missing))
  else .ok ()

/-- `validate_agent_context_frame`. -/
def validateAgentContextFrame (frame : Frame) (grain : Grain) : Except Failure Unit := do
  let relation := contractRelation grain
  validateColumns relation frame.columns
  validateRows env relation [] 0 frame.rows
  if relation.grain = .documentRegistry then validateDocumentVersionIntervals frame.rows else .ok ()

/-- The last row with a value in a column, as in `{row[column]: row for row in rows}`. -/
def lastWith (rows : List Row) (column : String) (value : Value) : Option Row :=
  rows.reverse.find? fun row => row column = value

/-- The check of a chunk against the registry. -/
def validateChunkParent (documents : List Row) (row : Row) : Except Failure Unit :=
  match lastWith documents "document_version_id" (row "document_version_id") with
  | none => .error (.other "document_chunks contains an unresolved document version")
  | some document =>
    if document "document_id" ≠ row "document_id" then
      .error (.other "document_chunks contains an unresolved document version")
    else do
      let expected ← policyFingerprint env document
      let actual ← policyFingerprint env row
      if expected ≠ actual then
        .error (.other "document_chunks policy fields must match document_registry")
      else .ok ()

/-- `validate_agent_context_relations`. -/
def validateAgentContextRelations (registry chunks links : Frame) : Except Failure Unit := do
  validateAgentContextFrame env registry .documentRegistry
  validateAgentContextFrame env chunks .documentChunks
  validateAgentContextFrame env links .contextEntityLinks
  chunks.rows.forM (validateChunkParent env registry.rows)
  links.rows.forM fun row =>
    if row "context_id" ∈ chunks.rows.map (· "context_id") then .ok ()
    else .error (.other "context_entity_links contains an unresolved context_id")

/-! ### Accepted frames -/

variable {env}

theorem validateUnseen_eq_ok {relation : ContractRelation} {seen : List Value} {row : Row} :
    validateUnseen relation seen row = .ok () ↔ row relation.primaryKey ∉ seen := by
  unfold validateUnseen
  split <;> simp_all

/-- The rows pass exactly if each of them passes the checks of its fields and of its meaning, and
no two of them, nor an earlier row, have the same primary key. -/
theorem validateRows_eq_ok {relation : ContractRelation} {seen : List Value} {position : ℕ}
    {rows : List Row} :
    validateRows env relation seen position rows = .ok () ↔
      (∀ item ∈ rows.zipIdx position,
        (∀ field ∈ relation.fields,
          validateField env relation.grain item.2 item.1 field = .ok ()) ∧
        validateRowSemantics env item.1 relation.grain item.2 = .ok ()) ∧
      (rows.map (· relation.primaryKey)).Nodup ∧
      ∀ row ∈ rows, row relation.primaryKey ∉ seen := by
  induction rows generalizing seen position with
  | nil => simp [validateRows]
  | cons row rows ih =>
    have hnew : row relation.primaryKey ∉ rows.map (· relation.primaryKey) ↔
        ∀ other ∈ rows, other relation.primaryKey ≠ row relation.primaryKey := by
      simp
    simp only [validateRows, check_bind_eq_ok, forM_eq_ok, validateUnseen_eq_ok, ih,
      List.zipIdx_cons, List.map_cons, List.nodup_cons, hnew, List.forall_mem_cons]
    constructor
    · rintro ⟨hfields, hunseen, hsemantics, hrest, hnodup, hseen⟩
      exact ⟨⟨⟨hfields, hsemantics⟩, hrest⟩,
        ⟨fun other hother => List.ne_of_not_mem_cons (hseen other hother), hnodup⟩,
        hunseen, fun other hother => List.not_mem_of_not_mem_cons (hseen other hother)⟩
    · rintro ⟨⟨⟨hfields, hsemantics⟩, hrest⟩, ⟨hne, hnodup⟩, hunseen, hseen⟩
      exact ⟨hfields, hunseen, hsemantics, hrest, hnodup, fun other hother =>
        List.not_mem_cons_of_ne_of_not_mem (hne other hother) (hseen other hother)⟩

end Env

/-! ### Rows at an instant -/

/-- `interval_contains`. -/
def intervalContains (instant start stop : Value) : Except Failure Bool := do
  let instant ← utc instant "instant"
  let start ← utc start "start"
  let stop ← optionalUtc stop "end"
  return decide (start ≤ instant) && match stop with
    | none => true
    | some stop => decide (instant < stop)

/-- The test of the validity of a row in `active_as_of`. -/
def isValid (validAt : Value) (includeUnknownValidity : Bool) (row : Row) : Except Failure Bool :=
  if row "validity_known" = .bool true then do
    let _ ← utc (row "valid_from") "valid_from"
    let _ ← optionalUtc (row "valid_to") "valid_to"
    intervalContains validAt (row "valid_from") (row "valid_to")
  else .ok includeUnknownValidity

/-- The test of `active_as_of` for one row. -/
def isActive (validAt recordedAt : Value) (includeUnknownValidity : Bool) (row : Row) :
    Except Failure Bool := do
  let valid ← isValid validAt includeUnknownValidity row
  let _ ← utc (row "recorded_from") "recorded_from"
  let _ ← optionalUtc (row "recorded_to") "recorded_to"
  let recorded ← intervalContains recordedAt (row "recorded_from") (row "recorded_to")
  return valid && recorded

/-- `str(value)` of an identifier. -/
def idText (value : Value) : String :=
  match value with
  | .string s => s
  | _ => ""

/-- The sort key of `active_as_of`. -/
def activeKey (row : Row) : String ×ₗ String ×ₗ String :=
  toLex (idText (row "document_id"), toLex (idText (row "document_version_id"),
    idText (row "context_id")))

/-- `active_as_of`. -/
def activeAsOf (rows : List Row) (validAt recordedAt : Value) (includeUnknownValidity : Bool) :
    Except Failure (List Row) := do
  let selected ← rows.filterM (isActive validAt recordedAt includeUnknownValidity)
  return selected.insertionSort fun a b => activeKey a ≤ activeKey b

end Stel.AgentContext
