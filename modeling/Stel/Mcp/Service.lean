import Stel.Data.Utf8
import Stel.Mcp.Authorization
import Stel.Mcp.Repository
import Stel.Text.Linking
import Mathlib.Data.Rat.Floor

/-!
# The context service

`mcp_server/service.py`: the four operations of the context server, as programs over its reads, and
the responses that they turn into.

## Main definitions

* `ContextResource`, `ArtifactCatalog`, `ContextServerSettings`, `ContextService`.
* `RowDict`: the rows of a read by one of their columns.
* `chunksForHits`, `registryByVersions`, `entityLinks`, `entityTypes`: the reads of the operations.
* `listContextModels`, `searchContext`, `getDocument`, `getContextLineage`: the operations.
* `respond`: what a caller gets of an operation.
-/

namespace Stel.Mcp

open AgentContext Hashing

/-! ### Resources and settings -/

/-- `ContextResource`. -/
structure ContextResource where
  name : String
  uniqueId : String
  description : Option String
  access : Access
  contextRelation : String
  registryRelation : String
  entityRelations : List String
  schemaFields : List ContextField
  businessFilters : List FilterCapability
  policyAttributes : List PolicyAttribute
  modes : List String
  consistency : String
  idField : String
  storeType : String
  lineageResources : List String
  lastSuccessfulMaterialization : Option DateTime

/-- `ContextResource.summary`. -/
def ContextResource.summary (resource : ContextResource) (entityTypes : List String) :
    ContextModelSummary where
  name := resource.name
  description := resource.description
  access := resource.access
  schemaFields := resource.schemaFields
  retrieval := ⟨resource.modes, resource.consistency, resource.businessFilters⟩
  lastSuccessfulMaterialization := resource.lastSuccessfulMaterialization
  entityTypes := sortedSet entityTypes

/-- `ArtifactCatalog`: resources by their names. -/
structure ArtifactCatalog where
  resources : List ContextResource
  nodup : (resources.map ContextResource.name).Nodup

/-- `ArtifactCatalog.all`. -/
def ArtifactCatalog.all (catalog : ArtifactCatalog) : List ContextResource :=
  catalog.resources.insertionSort fun a b => a.name ≤ b.name

/-- `ArtifactCatalog.get`. -/
def ArtifactCatalog.get (catalog : ArtifactCatalog) (name : String) : Option ContextResource :=
  catalog.resources.find? fun resource => resource.name = name

/-- `ContextServerSettings`; the time limit is not among them, as any moment may be its end. -/
structure ContextServerSettings where
  maxResults : ℕ := 20
  maxDocumentChunks : ℕ := 50
  maxEntitiesPerContext : ℕ := 50
  maxSnippetBytes : ℕ := 2000
  maxChunkBytes : ℕ := 16000
  maxResponseBytes : ℕ := 256000
  maxScanRows : ℕ := 10000
  maxConcurrency : ℕ := 4
  maxRequestsPerMinute : ℕ := 120
  maxResults_mem : 1 ≤ maxResults ∧ maxResults ≤ 100 := by decide
  maxDocumentChunks_mem : 1 ≤ maxDocumentChunks ∧ maxDocumentChunks ≤ 100 := by decide
  maxEntitiesPerContext_mem : 1 ≤ maxEntitiesPerContext ∧ maxEntitiesPerContext ≤ 1000 := by decide
  maxSnippetBytes_mem : 64 ≤ maxSnippetBytes ∧ maxSnippetBytes ≤ 100000 := by decide
  maxChunkBytes_mem : 64 ≤ maxChunkBytes ∧ maxChunkBytes ≤ 1000000 := by decide
  maxResponseBytes_mem : 1024 ≤ maxResponseBytes ∧ maxResponseBytes ≤ 10000000 := by decide
  maxScanRows_mem : 1 ≤ maxScanRows ∧ maxScanRows ≤ 1000000 := by decide
  maxConcurrency_mem : 1 ≤ maxConcurrency ∧ maxConcurrency ≤ 64 := by decide
  maxRequestsPerMinute_mem : 1 ≤ maxRequestsPerMinute ∧ maxRequestsPerMinute ≤ 100000 := by decide

/-- What the service uses of the standard library and of the validation of its responses: `str` of
a float, a `datetime` or a list, `int` and `float` of a string, the URL-safe base64 of a text and
the text of a base64, `str.casefold`, the validations of a field of type `datetime | None`, of a
JSON field and of a citation, and the current time in microseconds. -/
structure ServiceEnv extends ContractEnv where
  str : Value → String
  parseInt : String → Option ℤ
  parseFloat : String → Option ℚ
  base64Encode : String → String
  base64Decode : String → Option String
  casefold : String → String
  optionalDatetime : Value → Option (Option DateTime)
  jsonField : Value → Option JsonValue
  citationDescriptor : List (String × LocatorValue) → Option CitationDescriptor
  now : ℤ

/-- `ContextService`, with the principal that its resolver returns. -/
structure ContextService where
  catalog : ArtifactCatalog
  principal : Option Principal
  settings : ContextServerSettings
  env : ServiceEnv
  capturesText : Bool

/-! ### Conversions of Python -/

/-- `str(value)`. -/
def pyStr (env : ServiceEnv) : Value → String
  | .null => "None"
  | .bool true => "True"
  | .bool false => "False"
  | .int n => toString n
  | .string s => s
  | value => env.str value

/-- `int(value)`, which drops the fraction of a float. -/
def pyInt (env : ServiceEnv) : Value → Except ContextException ℤ
  | .bool b => .ok (if b then 1 else 0)
  | .int n => .ok n
  | .float q => .ok (if 0 ≤ q then ⌊q⌋ else ⌈q⌉)
  | .string s => validated (env.parseInt s)
  | _ => .error .other

/-- `float(value)`. -/
def pyFloat (env : ServiceEnv) : Value → Except ContextException ℚ
  | .bool b => .ok (if b then 1 else 0)
  | .int n => .ok n
  | .float q => .ok q
  | .string s => validated (env.parseFloat s)
  | _ => .error .other

/-- The string of a value that is one. -/
def stringOf : Value → Option String
  | .string s => some s
  | _ => none

/-! ### Rows by a column -/

/-- A dict of rows by the strings of one of their columns. -/
structure RowDict where
  keys : List String
  get : String → Option Row

/-- `{str(row[column]): row for row in rows if isinstance(row.get(column), str)}`. -/
def RowDict.ofRows (column : String) (rows : List Row) : RowDict where
  keys := sortedSet (rows.filterMap fun row => stringOf (row column))
  get := fun key => lastWith rows column (.string key)

/-- `dict.values()`. -/
def RowDict.values (dict : RowDict) : List Row := dict.keys.filterMap dict.get

/-! ### Fields of a response -/

/-- `_not_found_or_denied`. -/
def notFoundOrDenied : ContextException :=
  .contextServiceError .notFoundOrDenied "The requested governed context is unavailable" false

/-- The exception for a row that breaks the contract. -/
def invalidContractRow : ContextException :=
  .contextServiceError .internal "A governed context relation contains an invalid contract row"
    false

/-- `_required_string`. -/
def requiredString (row : Row) (field : String) : Except ContextException String :=
  match row field with
  | .string s => if s = "" then .error invalidContractRow else .ok s
  | _ => .error invalidContractRow

/-- `_optional_string`. -/
def optionalString (value : Value) : Option String :=
  match value with
  | .string s => if s = "" then none else some s
  | _ => none

/-- `_source`. -/
def source (row : Row) : Except ContextException DocumentSource := do
  let sourceSystem ← requiredString row "source_system"
  let sourceKey ← requiredString row "source_key"
  let sourceVersion ← requiredString row "source_version"
  let sourceContentHash ← requiredString row "source_content_hash"
  return ⟨sourceSystem, sourceKey, stringOf (row "source_uri"), sourceVersion, sourceContentHash⟩

/-- `_truncate_text`. -/
def truncateText (value : String) (limit : ℕ) : String × Bool :=
  let encoded := utf8 value
  if encoded.length ≤ limit then (value, false)
  else (String.ofList (Utf8.decodeIgnore (encoded.take limit)), true)

section Env

variable (env : ServiceEnv)

/-- `_interval`. -/
def interval (row : Row) : Except ContextException ContextInterval :=
  match row "recorded_from" with
  | .timestamp recordedFrom => do
    let validFrom ← validated (env.optionalDatetime (row "valid_from"))
    let validTo ← validated (env.optionalDatetime (row "valid_to"))
    let recordedTo ← validated (env.optionalDatetime (row "recorded_to"))
    return ⟨row "validity_known" = .bool true, validFrom, validTo, recordedFrom, recordedTo⟩
  | _ => .error invalidContractRow

/-- `freshness_status`. -/
def freshnessStatus (row : Row) : Except Failure FreshnessStatus := do
  let refreshDue ← optionalUtc (row "refresh_due_at") "refresh_due_at"
  let checked ← optionalUtc (row "freshness_checked_at") "freshness_checked_at"
  if refreshDue.any (· ≤ env.now) then .ok .pipelineStale
  else do
    let staleAfter ← optionalUtc (row "stale_after") "stale_after"
    if staleAfter.any (· ≤ env.now) then .ok .sourceStale
    else if checked = none then .ok .unknown
    else .ok .fresh

/-- `_freshness`. -/
def freshness (row : Row) : Except ContextException FreshnessDescriptor := do
  let status ← raiseOther (freshnessStatus env row)
  let sourceUpdatedAt ← validated (env.optionalDatetime (row "source_updated_at"))
  let sourceObservedAt ← validated (env.optionalDatetime (row "source_observed_at"))
  let freshnessCheckedAt ← validated (env.optionalDatetime (row "freshness_checked_at"))
  let refreshDueAt ← validated (env.optionalDatetime (row "refresh_due_at"))
  let staleAfter ← validated (env.optionalDatetime (row "stale_after"))
  return ⟨status, sourceUpdatedAt, sourceObservedAt, freshnessCheckedAt, refreshDueAt, staleAfter⟩

/-- `_citation`. -/
def citation (row : Row) : Except ContextException CitationDescriptor := do
  let locator ← raiseOther (citationLocator env.toContractEnv row)
  validated (env.citationDescriptor locator)

/-- `_lineage`. -/
def lineage (resource : ContextResource) (row : Row) : Except ContextException CompactLineage := do
  let upstreamUniqueId ← requiredString row "upstream_unique_id"
  let invocationId ← requiredString row "invocation_id"
  let provenanceFingerprint ← requiredString row "provenance_fingerprint"
  return {
    resources := resource.lineageResources
    upstreamUniqueId, invocationId
    parserIdentity := optionalString (row "parser_identity")
    transformIdentity := optionalString (row "transform_identity")
    providerIdentity := optionalString (row "provider_identity")
    modelIdentity := optionalString (row "model_identity")
    promptFingerprint := optionalString (row "prompt_fingerprint")
    schemaFingerprint := optionalString (row "schema_fingerprint")
    provenanceFingerprint
    searchIndexUniqueId := resource.uniqueId
    storeType := resource.storeType }

/-- The `entity_key` of `_entity`: the JSON value of a string, if it is the text of one. -/
def entityKey (value : Value) : Except ContextException JsonValue :=
  match value with
  | .string s => .ok ((env.loads s).getD (.string s))
  | value => validated (env.jsonField value)

/-- The `confidence` of `_entity`. -/
def confidence (value : Value) : Except ContextException (Option ℚ) :=
  if value = .null then .ok none else (pyFloat env value).map some

/-- `_entity`. -/
def entity (row : Row) : Except ContextException ContextEntity := do
  let scope ← requiredString row "entity_namespace"
  let name ← requiredString row "entity_name"
  let entityId ← requiredString row "entity_id"
  let relationshipType ← requiredString row "relationship_type"
  let confidence ← confidence env (row "confidence")
  let entityKey ← entityKey env (row "entity_key")
  return ⟨scope, name, entityId, entityKey, optionalString (row "dbt_unique_id"), relationshipType,
    confidence⟩

/-- `_chunk_sort_key`. -/
def chunkSortKey (row : Row) : Except ContextException (ℤ ×ₗ String) :=
  (pyInt env (row "chunk_index")).map fun index => toLex (index, pyStr env (row "context_id"))

/-- `_lineage_sort_key`. -/
def lineageSortKey (row : Row) : Except ContextException (String ×ₗ String ×ₗ ℤ ×ₗ String) :=
  (pyInt env (row "chunk_index")).map fun index =>
    toLex (pyStr env (row "recorded_from"), toLex (pyStr env (row "document_version_id"),
      toLex (index, pyStr env (row "context_id"))))

/-! ### Cursors -/

/-- `_encode_cursor`. -/
def encodeCursor (payload : List (String × JsonValue)) : String :=
  let text := env.base64Encode (JsonValue.object payload).dumpsAscii
  String.ofList (text.toList.reverse.dropWhile (· = '=')).reverse

/-- The exception for a cursor that is not one. -/
def invalidCursor : ContextException :=
  .contextServiceError .invalidRequest "The pagination cursor is invalid" false

/-- `_decode_cursor`. -/
def decodeCursor (value : String) : Except ContextException (List (String × JsonValue)) :=
  let padded := value ++ String.ofList (List.replicate ((4 - value.length % 4) % 4) '=')
  match (env.base64Decode padded).bind env.loads with
  | some (.object members) => .ok members
  | _ => .error invalidCursor

/-- The string of a JSON member that is one. -/
def jsonString (value : Option JsonValue) : Option String :=
  match value with
  | some (.string s) => some s
  | _ => none

/-- `_decode_list_cursor`. -/
def decodeListCursor (value : Option String) : Except ContextException (Option String) :=
  match value with
  | none => .ok none
  | some value => do
    let payload ← decodeCursor env value
    match jsonString (payload.lookup "kind"), jsonString (payload.lookup "after") with
    | some "models", some after => .ok (some after)
    | _, _ => .error invalidCursor

/-- The `after` of a document cursor; a JSON boolean is an `int`. -/
def documentAfter (value : Option JsonValue) : Except ContextException (ℤ ×ₗ String) :=
  match value with
  | some (.array [.int index, .string contextId]) => .ok (toLex (index, contextId))
  | some (.array [.bool index, .string contextId]) =>
    .ok (toLex (if index then 1 else 0, contextId))
  | _ => .error invalidCursor

/-- `_decode_document_cursor`. -/
def decodeDocumentCursor (request : GetDocumentRequest) :
    Except ContextException (Option (ℤ ×ₗ String)) :=
  match request.cursor with
  | none => .ok none
  | some value => do
    let payload ← decodeCursor env value
    if jsonString (payload.lookup "kind") = some "document" ∧
        jsonString (payload.lookup "model") = some request.model ∧
        jsonString (payload.lookup "document_id") = some request.documentId ∧
        jsonString (payload.lookup "document_version_id") = some request.documentVersionId then
      (documentAfter (payload.lookup "after")).map some
    else .error invalidCursor

end Env

/-! ### Authorization -/

/-- The exception without a principal. -/
def missingPrincipal : ContextException :=
  .contextServiceError .missingPrincipal "No authenticated caller principal is available" false

/-- `_AuthorizedResource`. -/
structure AuthorizedResource where
  principal : Principal
  resource : ContextResource
  policyFilters : List SearchFilter

/-- `except AuthorizationError: raise _not_found_or_denied()`. -/
def denyUnauthorized {α : Type} (x : Except ContextException α) : Except ContextException α :=
  match x with
  | .error (.authorizationError _) => .error notFoundOrDenied
  | x => x

/-- `ContextService._can_read_pair`. -/
def canReadPair (resource : ContextResource) (principal : Principal) (registry chunk : Row) :
    Bool :=
  canRead principal registry resource.policyAttributes &&
    canRead principal chunk resource.policyAttributes

namespace ContextService

variable (service : ContextService)

/-- `ContextService._principal`. -/
def currentPrincipal : Except ContextException Principal :=
  match service.principal with
  | some principal => .ok principal
  | none => .error missingPrincipal

/-- `ContextService._authorize_resource`. -/
def authorizeResource (name : String) : Except ContextException AuthorizedResource := do
  let principal ← service.currentPrincipal
  match service.catalog.get name with
  | none => .error notFoundOrDenied
  | some resource => do
    let filters ← denyUnauthorized
      (searchPolicyFilters principal resource.access resource.policyAttributes)
    return ⟨principal, resource, filters⟩

/-! ### Reads -/

/-- `ContextService._hit_key`. -/
def hitKey (resource : ContextResource) (hit : SearchResult) : String :=
  if resource.idField = "context_id" then hit.recordId
  else match hit.chunkId with
    | some chunkId => if chunkId = "" then hit.recordId else chunkId
    | none => hit.recordId

/-- `ContextService._chunks_for_hits`. -/
def chunksForHits (resource : ContextResource) (hits : List SearchResult) : Action RowDict :=
  if resource.idField ∉ ["context_id", "chunk_id"] then
    Prog.throw (.contextServiceError .capabilityUnavailable
      "The search index must use context_id or chunk_id for MCP retrieval" false)
  else
    let values := sortedSet (hits.map (hitKey resource))
    if values = [] then Prog.pure (RowDict.ofRows resource.idField [])
    else do
      let rows ← readRows {
        relation := resource.contextRelation
        predicates := [.isIn resource.idField values]
        maxRows := service.settings.maxScanRows }
      return RowDict.ofRows resource.idField rows

/-- `ContextService._registry_by_versions`, of a sorted set. -/
def registryByVersions (resource : ContextResource) (versions : List String) : Action RowDict :=
  if versions = [] then Prog.pure (RowDict.ofRows "document_version_id" [])
  else do
    let rows ← readRows {
      relation := resource.registryRelation
      predicates := [.isIn "document_version_id" versions]
      maxRows := service.settings.maxScanRows }
    return RowDict.ofRows "document_version_id" rows

/-- The entities by context of `_entity_links` after one more row. -/
def addEntity (contextIds : List String) (grouped : String → List ContextEntity) (row : Row) :
    Except ContextException (String → List ContextEntity) :=
  match row "context_id" with
  | .string contextId =>
    if contextId ∉ contextIds then .ok grouped
    else if service.settings.maxEntitiesPerContext ≤ (grouped contextId).length then .ok grouped
    else (entity service.env row).map fun item =>
      Function.update grouped contextId (grouped contextId ++ [item])
  | _ => .ok grouped

/-- One relation of `_entity_links`. -/
def addEntities (contextIds : List String) (grouped : String → List ContextEntity)
    (relation : String) : Action (String → List ContextEntity) := do
  let rows ← readRows {
    relation := relation
    predicates := [.isIn "context_id" contextIds, .isNull "recorded_to"]
    maxRows := service.settings.maxScanRows }
  Prog.ofExcept (rows.foldlM (service.addEntity contextIds) grouped)

/-- `ContextService._entity_links`, of a sorted set. -/
def entityLinks (resource : ContextResource) (contextIds : List String) :
    Action (String → List ContextEntity) :=
  if contextIds = [] then Prog.pure fun _ => []
  else do
    let grouped ← Prog.foldM (service.addEntities contextIds) (fun _ => [])
      resource.entityRelations
    return fun contextId =>
      (grouped contextId).insertionSort fun a b => a.entityId ≤ b.entityId

/-- The links of `_entity_types` with those of one more relation. -/
def addLinks (links : List Row) (relation : String) : Action (List Row) := do
  let rows ← readRows {
    relation := relation
    predicates := [.isNull "recorded_to"]
    maxRows := service.settings.maxScanRows
    columns := some ["context_id", "entity_name"] }
  if service.settings.maxScanRows < (links ++ rows).length then
    Prog.throw .contextRepositoryLimitError
  else Prog.pure (links ++ rows)

/-- The names of the links whose context is among the chunks that a principal reads. -/
def entityNames (resource : ContextResource) (principal : Principal) (links chunks : List Row) :
    List String :=
  let readable := (chunks.filter fun row =>
    canRead principal row resource.policyAttributes).filterMap fun row => stringOf (row "context_id")
  sortedSet ((links.filter fun row =>
    (stringOf (row "context_id")).any fun contextId => decide (contextId ∈ readable)).filterMap
      fun row => stringOf (row "entity_name"))

/-- `ContextService._entity_types`. -/
def entityTypes (resource : ContextResource) (principal : Principal) : Action (List String) := do
  let links ← Prog.foldM service.addLinks [] resource.entityRelations
  let contextIds := sortedSet (links.filterMap fun row => stringOf (row "context_id"))
  if contextIds = [] then Prog.pure []
  else do
    let chunks ← readRows {
      relation := resource.contextRelation
      predicates := [.isIn "context_id" contextIds]
      maxRows := service.settings.maxScanRows }
    return entityNames resource principal links chunks

/-! ### `list_context_models` -/

/-- The resources whose search a principal is authorized for; only an `AuthorizationError` passes
over a resource. -/
def availableResources (principal : Principal) :
    List ContextResource → Except ContextException (List ContextResource)
  | [] => .ok []
  | resource :: resources =>
    match searchPolicyFilters principal resource.access resource.policyAttributes with
    | .ok _ => (availableResources principal resources).map (resource :: ·)
    | .error (.authorizationError _) => availableResources principal resources
    | .error e => .error e

/-- The resources of a page of `_list_context_models`, and its next cursor. -/
def modelsPage (principal : Principal) (request : ListContextModelsRequest) :
    Except ContextException (List ContextResource × Option String) := do
  let available ← availableResources principal service.catalog.all
  let after ← decodeListCursor service.env request.cursor
  let available := available.filter fun resource => after.all (· < resource.name)
  let page := available.take (min request.limit service.settings.maxResults)
  let nextCursor := if page.length < available.length then
      page.getLast?.map fun last => encodeCursor service.env
        [("kind", .string "models"), ("after", .string last.name)]
    else none
  return (page, nextCursor)

/-- The summaries of the resources of a page. -/
def summaries (principal : Principal) (page : List ContextResource) :
    Action (List ContextModelSummary) :=
  Prog.foldM (fun models resource => do
    let types ← service.entityTypes resource principal
    return models ++ [resource.summary types]) [] page

/-- `ContextService._list_context_models`. -/
def listContextModels (request : ListContextModelsRequest) : Action ListContextModelsResponse := do
  let principal ← Prog.ofExcept service.currentPrincipal
  let (page, nextCursor) ← Prog.ofExcept (service.modelsPage principal request)
  let models ← service.summaries principal page
  return { models, nextCursor }

/-! ### `search_context` -/

/-- `ContextService._business_filter`. -/
def businessFilter (resource : ContextResource) (value : BusinessFilter) :
    Except ContextException SearchFilter :=
  match resource.businessFilters.find? fun item => item.field = value.field with
  | some capability =>
    if value.operator ∈ capability.operators then
      makeSearchFilter value.field value.operator value.value
    else .error (.contextServiceError .capabilityUnavailable
      "The context model does not support the requested business filter" false)
  | none => .error (.contextServiceError .capabilityUnavailable
      "The context model does not support the requested business filter" false)

/-- The checks of `_search_context` before the search, and its request. -/
def searchRequest (resource : ContextResource) (request : SearchContextRequest) :
    Except ContextException SearchRequest :=
  if service.settings.maxResults < request.limit then
    .error (.contextServiceError .invalidRequest
      ("limit must not exceed " ++ toString service.settings.maxResults) false)
  else if request.mode.value ∉ resource.modes then
    .error (.contextServiceError .capabilityUnavailable
      "The context model does not support the requested retrieval mode" false)
  else do
    let filters ← request.filters.mapM (businessFilter resource)
    if 32768 < (utf8 request.query).length then .error .other
    else .ok ⟨resource.name, request.query, request.mode, request.limit, filters⟩

/-- A hit with its chunk and registry rows. -/
structure ReadableHit where
  hit : SearchResult
  row : Row
  registry : Row

/-- The rows of a hit, if there are any and the principal reads them. -/
def readableHit (resource : ContextResource) (principal : Principal) (chunks registries : RowDict)
    (hit : SearchResult) : Option ReadableHit := do
  let row ← chunks.get (hitKey resource hit)
  let registry ← registries.get (pyStr service.env (row "document_version_id"))
  if canReadPair resource principal registry row then some ⟨hit, row, registry⟩ else none

/-- `ContextService._search_result`. -/
def searchResult (resource : ContextResource) (links : String → List ContextEntity)
    (item : ReadableHit) : Except ContextException SearchContextResult := do
  let text ← requiredString item.row "text"
  let (snippet, snippetTruncated) := truncateText text service.settings.maxSnippetBytes
  let contextId ← requiredString item.row "context_id"
  let documentId ← requiredString item.row "document_id"
  let documentVersionId ← requiredString item.row "document_version_id"
  let chunkId ← requiredString item.row "chunk_id"
  let sourceVersion ← requiredString item.registry "source_version"
  let interval ← interval service.env item.row
  let freshness ← freshness service.env item.row
  let citation ← citation service.env item.row
  let lineage ← lineage resource item.row
  return {
    rank := item.hit.rank
    score := item.hit.score
    documentId, documentVersionId, contextId, chunkId, snippet, snippetTruncated, sourceVersion
    entities := links contextId
    interval, freshness, citation, lineage }

/-- The results of the hits of a search. -/
def resultsOfHits (resource : ContextResource) (principal : Principal) (limit : ℕ)
    (hits : List SearchResult) : Action (List SearchContextResult) := do
  let chunks ← service.chunksForHits resource hits
  let registries ← service.registryByVersions resource (sortedSet (chunks.values.filterMap fun row =>
    stringOf (row "document_version_id")))
  let readable := hits.filterMap (service.readableHit resource principal chunks registries)
  let links ← service.entityLinks resource (sortedSet (readable.map fun item =>
    pyStr service.env (item.row "context_id")))
  Prog.ofExcept ((readable.take limit).mapM (service.searchResult resource links))

/-- A row of the query log. -/
structure QueryLogRow where
  loggedAt : String
  principalId : String
  tenantId : Option String
  modelName : String
  mode : SearchMode
  queryFingerprint : String
  queryText : Option String
  requestedLimit : ℕ
  resultCount : ℕ
  zeroResults : Bool
  returnedChunkIds : List String
  topScore : Option ℚ
  elapsedMs : ℚ
  deriving DecidableEq

/-- `query_fingerprint`. -/
def queryFingerprint (env : ServiceEnv) (query : String) : Except Failure String :=
  let normalized := env.casefold (" ".intercalate (Text.splitWords query))
  canonicalFingerprint env.blake2b (.mapping [(.str "query", .str normalized)]) "mcp-query" 1 16

/-- `ContextService._query_log_row`. -/
def queryLogRow (request : SearchContextRequest) (principal : Principal) (resourceName : String)
    (results : List SearchContextResult) (loggedAt : String) (elapsedMs : ℚ) :
    Except ContextException QueryLogRow := do
  let fingerprint ← raiseOther (queryFingerprint service.env request.query)
  return {
    loggedAt := loggedAt
    principalId := principal.subjectId
    tenantId := principal.tenantId
    modelName := resourceName
    mode := request.mode
    queryFingerprint := fingerprint
    queryText := if service.capturesText then some request.query else none
    requestedLimit := request.limit
    resultCount := results.length
    zeroResults := results.isEmpty
    returnedChunkIds := results.map SearchContextResult.chunkId
    topScore := results.head?.map SearchContextResult.score
    elapsedMs := elapsedMs }

/-- `ContextService._search_context`, with the row that it appends to the pending ones; the two
times of that row are given. -/
def searchContext (request : SearchContextRequest) (loggedAt : String) (elapsedMs : ℚ) :
    Action (SearchContextResponse × QueryLogRow) := do
  let authorized ← Prog.ofExcept (service.authorizeResource request.model)
  let search ← Prog.ofExcept (service.searchRequest authorized.resource request)
  let hits ← execute search authorized.policyFilters
  let results ← service.resultsOfHits authorized.resource authorized.principal request.limit hits
  let row ← Prog.ofExcept (service.queryLogRow request authorized.principal authorized.resource.name
    results loggedAt elapsedMs)
  return ({ results := results }, row)

/-! ### `get_document` -/

/-- `ContextService._document_chunk`. -/
def documentChunk (links : String → List ContextEntity) (row : Row) :
    Except ContextException DocumentChunk := do
  let text ← requiredString row "text"
  let (text, textTruncated) := truncateText text service.settings.maxChunkBytes
  let contextId ← requiredString row "context_id"
  let chunkId ← requiredString row "chunk_id"
  let chunkIndex ← pyInt service.env (row "chunk_index")
  let citation ← citation service.env row
  return ⟨contextId, chunkId, chunkIndex, text, textTruncated, citation, links contextId⟩

/-- `sorted` with a key that can raise, in ascending or descending order. -/
def sortByKey {κ : Type} [LinearOrder κ] (key : Row → Except ContextException κ)
    (descending : Bool) (rows : List Row) : Except ContextException (List (κ × Row)) := do
  let keyed ← rows.mapM fun row => (key row).map fun k => (k, row)
  return keyed.insertionSort fun a b => if descending then b.1 ≤ a.1 else a.1 ≤ b.1

/-- The next cursor of `_get_document`. -/
def documentCursor (resource : ContextResource) (request : GetDocumentRequest)
    (last : (ℤ ×ₗ String) × Row) : String :=
  encodeCursor service.env [("kind", .string "document"), ("model", .string resource.name),
    ("document_id", .string request.documentId),
    ("document_version_id", .string request.documentVersionId),
    ("after", .array [.int (ofLex last.1).1, .string (ofLex last.1).2])]

/-- The response of `_get_document` for the rows of a version and its registry row. -/
def documentResponse (resource : ContextResource) (request : GetDocumentRequest) (registry : Row)
    (rows : List Row) : Action GetDocumentResponse := do
  let allOrdered ← Prog.ofExcept (sortByKey (chunkSortKey service.env) false rows)
  let after ← Prog.ofExcept (decodeDocumentCursor service.env request)
  let ordered := allOrdered.filter fun item => after.all (· < item.1)
  let page := ordered.take request.limit
  let links ← service.entityLinks resource (sortedSet (page.map fun item =>
    pyStr service.env (item.2 "context_id")))
  let nextCursor := if page.length < ordered.length then
      page.getLast?.map (service.documentCursor resource request)
    else none
  Prog.ofExcept do
    let source ← source registry
    let interval ← interval service.env registry
    let freshness ← freshness service.env registry
    let lineage ← lineage resource ((allOrdered.head?.map Prod.snd).getD fun _ => .null)
    let chunks ← (page.map Prod.snd).mapM (service.documentChunk links)
    return {
      documentId := request.documentId
      documentVersionId := request.documentVersionId
      source := source
      interval := interval
      freshness := freshness
      lineage := lineage
      chunks, nextCursor }

/-- The predicates of the reads of `_get_document`. -/
def documentPredicates (request : GetDocumentRequest) : List ReadPredicate :=
  [.eq "document_id" request.documentId, .eq "document_version_id" request.documentVersionId]

/-- `ContextService._get_document`. -/
def getDocument (request : GetDocumentRequest) : Action GetDocumentResponse := do
  let authorized ← Prog.ofExcept (service.authorizeResource request.model)
  if service.settings.maxDocumentChunks < request.limit then
    Prog.throw (.contextServiceError .invalidRequest
      ("limit must not exceed " ++ toString service.settings.maxDocumentChunks) false)
  else do
    let resource := authorized.resource
    let registryRows ← readRows {
      relation := resource.registryRelation
      predicates := documentPredicates request
      maxRows := 2 }
    match registryRows with
    | [registry] =>
      if canRead authorized.principal registry resource.policyAttributes then do
        let rows ← readRows {
          relation := resource.contextRelation
          predicates := documentPredicates request
          maxRows := service.settings.maxScanRows }
        if rows = [] ∨ ∃ row ∈ rows,
            canRead authorized.principal row resource.policyAttributes = false then
          Prog.throw notFoundOrDenied
        else service.documentResponse resource request registry rows
      else Prog.throw notFoundOrDenied
    | _ => Prog.throw notFoundOrDenied

/-! ### `get_context_lineage` -/

/-- The column of a reference. -/
def referenceField (resource : ContextResource) : LineageReferenceType → String
  | .document => "document_id"
  | .documentVersion => "document_version_id"
  | .context => "context_id"
  | .chunk => "chunk_id"
  | .searchResult => resource.idField

/-- The record of `_get_context_lineage` for a row and its registry row. -/
def lineageRecord (resource : ContextResource) (registry row : Row) (versionId : String) :
    Action GetContextLineageResponse := do
  let contextId ← Prog.ofExcept (requiredString row "context_id")
  let links ← service.entityLinks resource [contextId]
  Prog.ofExcept do
    let documentId ← requiredString row "document_id"
    let chunkId ← requiredString row "chunk_id"
    let source ← source registry
    let citation ← citation service.env row
    let lineage ← lineage resource row
    return { record := some ⟨documentId, versionId, contextId, chunkId, source, citation,
      links contextId, lineage⟩ }

/-- The loop of `_get_context_lineage`: the first row that is read with its registry row. -/
def firstReadable (resource : ContextResource) (principal : Principal) :
    List Row → Action GetContextLineageResponse
  | [] => Prog.throw notFoundOrDenied
  | row :: rows =>
    match row "document_version_id" with
    | .string versionId => do
      let registries ← service.registryByVersions resource [versionId]
      match registries.get versionId with
      | some registry =>
        if canReadPair resource principal registry row then
          service.lineageRecord resource registry row versionId
        else firstReadable resource principal rows
      | none => firstReadable resource principal rows
    | _ => firstReadable resource principal rows

/-- `ContextService._get_context_lineage`. -/
def getContextLineage (request : GetContextLineageRequest) : Action GetContextLineageResponse := do
  let authorized ← Prog.ofExcept (service.authorizeResource request.model)
  let resource := authorized.resource
  let field := referenceField resource request.referenceType
  if field ∉ ["document_id", "document_version_id", "context_id", "chunk_id"] then
    Prog.throw (.contextServiceError .capabilityUnavailable
      "The search result ID cannot be resolved to an agent-context record" false)
  else do
    let rows ← readRows {
      relation := resource.contextRelation
      predicates := [.eq field request.referenceId]
      maxRows := service.settings.maxScanRows }
    let ordered ← Prog.ofExcept (sortByKey (lineageSortKey service.env) true rows)
    service.firstReadable resource authorized.principal (ordered.map Prod.snd)

/-! ### Responses -/

/-- The error that an exception is reported as. -/
def toolError : ContextException → ToolError
  | .contextServiceError code message retryable => ⟨code, message, retryable⟩
  | .contextRepositoryLimitError =>
    ⟨.responseLimit, "The governed context read exceeded its configured scan limit", false⟩
  | .contextRepositoryError =>
    ⟨.capabilityUnavailable, "The governed context relation could not be read", true⟩
  | .searchError message => ⟨.capabilityUnavailable, message, true⟩
  | .timeoutError => ⟨.timeout, "The context operation exceeded its time limit", true⟩
  | .authorizationError _ | .other => ⟨.internal, "The context operation failed", true⟩

/-- `ContextService._respond`, for a response that has a number of bytes and the outcome of the
limiter. -/
def respond {ρ : Type} (size : ρ → ℕ) (errorResponse : ToolError → ρ)
    (outcome : Except ContextException ρ) : ρ :=
  match outcome with
  | .ok response =>
    if service.settings.maxResponseBytes < size response then
      errorResponse (toolError (.contextServiceError .responseLimit
        "The context response exceeded its configured size limit" false))
    else response
  | .error e => errorResponse (toolError e)

end ContextService

end Stel.Mcp
