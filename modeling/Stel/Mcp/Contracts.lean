import Stel.AgentContext.Contract

/-!
# The contracts of the context server

`mcp_server/contracts.py`, with the filters, requests and results of `search.py` that the server
passes on, and the exceptions that it distinguishes.

## Main definitions

* `SearchScalar`, `SearchFilter`, `SearchRequest`, `SearchResult`: the portable search.
* `ContextException`, `ToolError`: what an operation raises, and what a caller gets of it.
* `ListContextModelsRequest`, `SearchContextResponse`, …: requests and responses.
-/

namespace Stel.Mcp

open AgentContext

/-! ### The portable search -/

/-- `SearchScalar`; a `date` is the number of its day. -/
inductive SearchScalar
  | string (s : String)
  | int (n : ℤ)
  | float (q : ℚ)
  | bool (b : Bool)
  | date (day : ℤ)
  | datetime (d : DateTime)
  deriving DecidableEq

/-- The value of a claim or of a filter. -/
inductive FilterValue
  | scalar (value : SearchScalar)
  | tuple (values : List SearchScalar)
  deriving DecidableEq

/-- `SearchFilterOperator`, and `FilterOperator`, which has the same members. -/
inductive FilterOperator
  | equal
  | notEqual
  | lessThan
  | lessThanOrEqual
  | greaterThan
  | greaterThanOrEqual
  | isIn
  deriving DecidableEq, Repr

/-- `SearchFilter`. -/
structure SearchFilter where
  field : String
  operator : FilterOperator
  value : FilterValue
  deriving DecidableEq

/-- `SearchMode`. -/
inductive SearchMode
  | vector
  | text
  | hybrid
  deriving DecidableEq, Repr

/-- `SearchMode.value`. -/
def SearchMode.value : SearchMode → String
  | .vector => "vector"
  | .text => "text"
  | .hybrid => "hybrid"

/-- `SearchRequest`, as the server makes it. -/
structure SearchRequest where
  model : String
  query : String
  mode : SearchMode
  limit : ℕ
  filters : List SearchFilter
  deriving DecidableEq

/-- The fields of `SearchResult` that the server reads. -/
structure SearchResult where
  recordId : String
  chunkId : Option String
  rank : ℕ
  score : ℚ
  deriving DecidableEq

/-! ### Errors -/

/-- `MCPErrorCode`. -/
inductive MCPErrorCode
  | missingPrincipal
  | notFoundOrDenied
  | artifactUnavailable
  | capabilityUnavailable
  | invalidRequest
  | responseLimit
  | timeout
  | busy
  | internal
  deriving DecidableEq, Repr

/-- `ToolError`. -/
structure ToolError where
  code : MCPErrorCode
  message : String
  retryable : Bool
  deriving DecidableEq, Repr

/-- The exceptions that the server distinguishes, and any other one. -/
inductive ContextException
  | contextServiceError (code : MCPErrorCode) (message : String) (retryable : Bool)
  | contextRepositoryLimitError
  | contextRepositoryError
  | searchError (message : String)
  | authorizationError (message : String)
  | timeoutError
  | other
  deriving DecidableEq, Repr

/-- An exception of the code that the server calls. -/
def raiseOther {ε α : Type} : Except ε α → Except ContextException α
  | .ok a => .ok a
  | .error _ => .error .other

/-- The value of a validation that can fail. -/
def validated {α : Type} : Option α → Except ContextException α
  | some a => .ok a
  | none => .error .other

/-! ### Requests -/

/-- `BusinessFilter`. -/
structure BusinessFilter where
  field : String
  operator : FilterOperator
  value : FilterValue
  deriving DecidableEq

/-- `ListContextModelsRequest`. -/
structure ListContextModelsRequest where
  limit : ℕ
  cursor : Option String
  limit_mem : 1 ≤ limit ∧ limit ≤ 100

/-- `SearchContextRequest`. -/
structure SearchContextRequest where
  model : String
  query : String
  mode : SearchMode
  limit : ℕ
  filters : List BusinessFilter
  model_ne : model ≠ ""
  query_ne : query ≠ ""
  limit_mem : 1 ≤ limit ∧ limit ≤ 100
  deriving DecidableEq

/-- `GetDocumentRequest`. -/
structure GetDocumentRequest where
  model : String
  documentId : String
  documentVersionId : String
  limit : ℕ
  cursor : Option String
  model_ne : model ≠ ""
  isStableId : isStableId documentId ∧ isStableId documentVersionId
  limit_mem : 1 ≤ limit ∧ limit ≤ 100

/-- `LineageReferenceType`. -/
inductive LineageReferenceType
  | document
  | documentVersion
  | context
  | chunk
  | searchResult
  deriving DecidableEq, Repr

/-- `GetContextLineageRequest`. -/
structure GetContextLineageRequest where
  model : String
  referenceType : LineageReferenceType
  referenceId : String
  model_ne : model ≠ ""
  isStableId : isStableId referenceId

/-! ### Responses -/

/-- `ContextField`. -/
structure ContextField where
  name : String
  dataType : String
  nullable : Bool
  description : String
  deriving DecidableEq

/-- `FilterCapability`. -/
structure FilterCapability where
  field : String
  dataType : String
  operators : List FilterOperator
  deriving DecidableEq

/-- `RetrievalCapability`. -/
structure RetrievalCapability where
  modes : List String
  consistency : String
  filterFields : List FilterCapability
  deriving DecidableEq

/-- The access of a context resource. -/
inductive Access
  | «public»
  | governed
  deriving DecidableEq, Repr

/-- `ContextModelSummary`; its contract, grain and freshness are constants. -/
structure ContextModelSummary where
  name : String
  description : Option String
  access : Access
  schemaFields : List ContextField
  retrieval : RetrievalCapability
  lastSuccessfulMaterialization : Option DateTime
  entityTypes : List String
  deriving DecidableEq

/-- `ContextEntity`. -/
structure ContextEntity where
  scope : String
  name : String
  entityId : String
  entityKey : JsonValue
  dbtUniqueId : Option String
  relationshipType : String
  confidence : Option ℚ

/-- `ContextInterval`. -/
structure ContextInterval where
  validityKnown : Bool
  validFrom : Option DateTime
  validTo : Option DateTime
  recordedFrom : DateTime
  recordedTo : Option DateTime

/-- `FreshnessStatus`. -/
inductive FreshnessStatus
  | fresh
  | pipelineStale
  | sourceStale
  | unknown
  deriving DecidableEq, Repr

/-- `FreshnessDescriptor`. -/
structure FreshnessDescriptor where
  status : FreshnessStatus
  sourceUpdatedAt : Option DateTime
  sourceObservedAt : Option DateTime
  freshnessCheckedAt : Option DateTime
  refreshDueAt : Option DateTime
  staleAfter : Option DateTime

/-- `CitationDescriptor`. -/
structure CitationDescriptor where
  sourceUri : Option String
  chunkIndex : Option ℤ
  pageNumber : Option ℤ
  sectionPath : Option (List String)
  charStart : Option ℤ
  charEnd : Option ℤ
  speaker : Option String
  startSeconds : Option ℚ
  endSeconds : Option ℚ
  extra : JsonValue

/-- `CompactLineage`. -/
structure CompactLineage where
  resources : List String
  upstreamUniqueId : String
  invocationId : String
  parserIdentity : Option String
  transformIdentity : Option String
  providerIdentity : Option String
  modelIdentity : Option String
  promptFingerprint : Option String
  schemaFingerprint : Option String
  provenanceFingerprint : String
  searchIndexUniqueId : String
  storeType : String

/-- `SearchContextResult`. -/
structure SearchContextResult where
  rank : ℕ
  score : ℚ
  documentId : String
  documentVersionId : String
  contextId : String
  chunkId : String
  snippet : String
  snippetTruncated : Bool
  sourceVersion : String
  entities : List ContextEntity
  interval : ContextInterval
  freshness : FreshnessDescriptor
  citation : CitationDescriptor
  lineage : CompactLineage

/-- `DocumentSource`. -/
structure DocumentSource where
  sourceSystem : String
  sourceKey : String
  sourceUri : Option String
  sourceVersion : String
  sourceContentHash : String

/-- `DocumentChunk`. -/
structure DocumentChunk where
  contextId : String
  chunkId : String
  chunkIndex : ℤ
  text : String
  textTruncated : Bool
  citation : CitationDescriptor
  entities : List ContextEntity

/-- `ContextLineageRecord`. -/
structure ContextLineageRecord where
  documentId : String
  documentVersionId : String
  contextId : String
  chunkId : String
  source : DocumentSource
  citation : CitationDescriptor
  entities : List ContextEntity
  lineage : CompactLineage

/-- `ListContextModelsResponse`. -/
structure ListContextModelsResponse where
  models : List ContextModelSummary := []
  nextCursor : Option String := none
  error : Option ToolError := none

/-- `SearchContextResponse`. -/
structure SearchContextResponse where
  results : List SearchContextResult := []
  error : Option ToolError := none

/-- `GetDocumentResponse`. -/
structure GetDocumentResponse where
  documentId : Option String := none
  documentVersionId : Option String := none
  source : Option DocumentSource := none
  interval : Option ContextInterval := none
  freshness : Option FreshnessDescriptor := none
  lineage : Option CompactLineage := none
  chunks : List DocumentChunk := []
  nextCursor : Option String := none
  error : Option ToolError := none

/-- `GetContextLineageResponse`. -/
structure GetContextLineageResponse where
  record : Option ContextLineageRecord := none
  error : Option ToolError := none

end Stel.Mcp
