import Stel.Hashing
import Stel.Retrieval.Evolution
import Stel.Search.Publication
import Mathlib.Data.Finset.Sort

/-!
# The configuration of a search resource

`SearchConfig` of `config/model.py`, the descriptor and the fingerprint of its collection
(`retrieval/registry.py`, `retrieval/evolution.py`), and the columns that it declares.

## Main definitions

* `SearchConfig`, `SearchConfig.modelDump`, `SearchConfig.effective`.
* `jsonSafe`, `parsed`: a dumped value as it is stored, and as it is read back.
* `semanticSearchConfig`, `collectionDescriptor`, `configFingerprint`.
* `SearchConfig.projectedFields`, `declaredSchema`: the declared columns.
-/

namespace Stel.Search

open Stel.Hashing Stel.Retrieval

/-! ### The configuration -/

/-- `search.access`. -/
inductive Access
  | «public»
  | governed
  deriving DecidableEq, Repr

/-- `search.vector.metric`. -/
inductive DistanceMetric
  | cosine
  | euclidean
  | dot
  deriving DecidableEq, Repr

/-- `search.vector.search`. -/
inductive VectorSearch
  | exact
  | approximate
  deriving DecidableEq, Repr

/-- `data_type` of an attribute. -/
inductive AttributeType
  | string
  | integer
  | float
  | boolean
  | date
  | timestamp
  | strings
  deriving DecidableEq, Repr

/-- `filter_role` of an attribute. -/
inductive FilterRole
  | none
  | user
  | «policy»
  | userAndPolicy
  deriving DecidableEq, Repr

/-- A mode of `search.query.modes`. -/
inductive QueryMode
  | vector
  | text
  | hybrid
  | filter
  deriving DecidableEq, Repr

/-- `search.on_index_change`. -/
inductive IndexChangePolicy
  | fail
  | rebuild
  | online
  deriving DecidableEq, Repr

/-- The value of `search.access`. -/
def Access.value : Access → String
  | .public => "public"
  | .governed => "governed"

/-- The value of `search.vector.metric`. -/
def DistanceMetric.value : DistanceMetric → String
  | .cosine => "cosine"
  | .euclidean => "euclidean"
  | .dot => "dot"

/-- The value of `search.vector.search`. -/
def VectorSearch.value : VectorSearch → String
  | .exact => "exact"
  | .approximate => "approximate"

/-- The value of `data_type`. -/
def AttributeType.value : AttributeType → String
  | .string => "string"
  | .integer => "integer"
  | .float => "float"
  | .boolean => "boolean"
  | .date => "date"
  | .timestamp => "timestamp"
  | .strings => "array[string]"

/-- The value of `filter_role`. -/
def FilterRole.value : FilterRole → String
  | .none => "none"
  | .user => "user"
  | .policy => "policy"
  | .userAndPolicy => "user_and_policy"

/-- The value of a mode. -/
def QueryMode.value : QueryMode → String
  | .vector => "vector"
  | .text => "text"
  | .hybrid => "hybrid"
  | .filter => "filter"

/-- The value of `search.on_index_change`. -/
def IndexChangePolicy.value : IndexChangePolicy → String
  | .fail => "fail"
  | .rebuild => "rebuild"
  | .online => "online"

/-- `SearchEmbeddingIdentityConfig`. -/
structure EmbeddingIdentityConfig where
  provider : String
  model : String
  providerContractVersion : ℕ
  providerImplementation : String
  semanticConfigFingerprint : String
  dimensions : ℕ
  deriving DecidableEq, Repr

/-- `SearchVectorConfig`; `inherit` is an embedding without an identity. -/
structure VectorConfig where
  field : String
  dimensions : ℕ
  metric : DistanceMetric := .cosine
  search : VectorSearch := .exact
  embedding : Option EmbeddingIdentityConfig
  deriving DecidableEq, Repr

/-- `SearchAttributeConfig`. -/
structure AttributeConfig where
  name : String
  dataType : AttributeType
  nullable : Bool := false
  filterRole : FilterRole := .none
  sortable : Bool := false
  returned : Bool := false
  deriving DecidableEq, Repr

/-- `SearchConfig`. The modes of the query are listed in some order, and the options of the index are
the entries of a dict. -/
structure SearchConfig where
  access : Access := .public
  store : Option String := none
  collection : Option String := none
  idField : String
  documentIdField : Option String := some "document_id"
  chunkIdField : Option String := none
  textFields : List String
  returnTextFields : List String := []
  vector : Option VectorConfig := none
  fullText : Option (List String) := none
  attributes : List AttributeConfig := []
  displayFields : List String := []
  modes : List QueryMode
  onIndexChange : IndexChangePolicy := .fail
  batchSize : ℕ := 1000
  indexOptions : List (PyValue × PyValue) := []

/-! ### The dump -/

/-- A dict with these names. -/
def pyDict (entries : List (String × PyValue)) : PyValue :=
  .mapping (entries.map fun entry => (.str entry.1, entry.2))

/-- A tuple of texts. -/
def pyTexts (texts : List String) : PyValue := .sequence .tuple (texts.map .str)

/-- A text or `None`. -/
def pyOptional (text : Option String) : PyValue := text.elim .none .str

/-- The dump of an embedding identity. -/
def EmbeddingIdentityConfig.dump (e : EmbeddingIdentityConfig) : PyValue :=
  pyDict [("provider", .str e.provider), ("model", .str e.model),
    ("provider_contract_version", .int e.providerContractVersion),
    ("provider_implementation", .str e.providerImplementation),
    ("semantic_config_fingerprint", .str e.semanticConfigFingerprint),
    ("dimensions", .int e.dimensions)]

/-- The dump of a vector configuration, with the value of `embedding`. -/
def VectorConfig.dump (v : VectorConfig) (embedding : PyValue) : PyValue :=
  pyDict [("field", .str v.field), ("dimensions", .int v.dimensions), ("metric", .str v.metric.value),
    ("search", .str v.search.value), ("embedding", embedding)]

/-- The dump of an attribute. -/
def AttributeConfig.dump (a : AttributeConfig) : PyValue :=
  pyDict [("name", .str a.name), ("data_type", .str a.dataType.value), ("nullable", .bool a.nullable),
    ("filter_role", .str a.filterRole.value), ("sortable", .bool a.sortable),
    ("returned", .bool a.returned)]

/-- The entries of the dump, with the value of `vector`. -/
def SearchConfig.entries (c : SearchConfig) (vector : PyValue) : List (String × PyValue) :=
  [("access", .str c.access.value), ("store", pyOptional c.store),
    ("collection", pyOptional c.collection), ("id_field", .str c.idField),
    ("document_id_field", pyOptional c.documentIdField),
    ("chunk_id_field", pyOptional c.chunkIdField), ("text_fields", pyTexts c.textFields),
    ("return_text_fields", pyTexts c.returnTextFields), ("vector", vector),
    ("full_text", c.fullText.elim .none fun fields => pyDict [("fields", pyTexts fields)]),
    ("attributes", .sequence .tuple (c.attributes.map AttributeConfig.dump)),
    ("display_fields", pyTexts c.displayFields),
    ("query", pyDict [("modes", .set .frozenset (c.modes.map fun mode => .str mode.value)),
      ("consistency", .str "strong")]),
    ("on_index_change", .str c.onIndexChange.value), ("batch_size", .int c.batchSize),
    ("index_options", .mapping c.indexOptions)]

/-- The value of `embedding`. -/
def VectorConfig.embeddingDump (v : VectorConfig) : PyValue :=
  v.embedding.elim (.str "inherit") EmbeddingIdentityConfig.dump

/-- `search.model_dump(mode="python")`. -/
def SearchConfig.modelDump (c : SearchConfig) : List (String × PyValue) :=
  c.entries (c.vector.elim .none fun v => v.dump v.embeddingDump)

/-- `EmbeddingIdentity`. -/
structure EmbeddingIdentity where
  provider : String
  model : String
  dimensions : ℕ
  implementation : String
  configHash : String
  providerOptionsIdentity : Option String := none
  deriving DecidableEq, Repr

/-- `EmbeddingIdentity.to_dict`. -/
def EmbeddingIdentity.toDict (e : EmbeddingIdentity) : PyValue :=
  pyDict ([("provider", .str e.provider), ("model", .str e.model), ("dimensions", .int e.dimensions),
    ("implementation", .str e.implementation), ("config_hash", .str e.configHash)] ++
    e.providerOptionsIdentity.elim [] fun identity =>
      [("provider_options_identity", .str identity)])

/-- `effective_search_config`, with the embedding identity that the vector inherits, if any. -/
def SearchConfig.effective (c : SearchConfig) (identity : Option EmbeddingIdentity) :
    List (String × PyValue) :=
  c.entries (c.vector.elim .none fun v => v.dump (identity.elim v.embeddingDump (·.toDict)))

/-! ### The descriptor -/

/-- `str(key)` of the key of a dict. -/
def keyText : PyValue → String
  | .str s => s
  | .int i => toString i
  | .bool b => if b then "True" else "False"
  | _ => "None"

/-- The text by which the items of a set are sorted. -/
def itemText : PyValue → String
  | .str s => s
  | _ => ""

mutual

/-- `json_safe`. A dict is listed in its own order, which does not matter. -/
def jsonSafe : PyValue → PyValue
  | .mapping entries => .mapping (jsonSafeEntries entries)
  | .set _ items =>
    .sequence .list ((jsonSafeItems items).insertionSort fun a b => itemText a ≤ itemText b)
  | .sequence _ items => .sequence .list (jsonSafeItems items)
  | value => value

/-- `[json_safe(item) for item in value]`. -/
def jsonSafeItems : List PyValue → List PyValue
  | [] => []
  | item :: items => jsonSafe item :: jsonSafeItems items

/-- `{str(key): json_safe(item) for key, item in value.items()}`. -/
def jsonSafeEntries : List (PyValue × PyValue) → List (PyValue × PyValue)
  | [] => []
  | (key, item) :: entries => (.str (keyText key), jsonSafe item) :: jsonSafeEntries entries

end

section Parsed

variable (reprFloat : UInt64 → String)

mutual

/-- `json.loads(json.dumps(value))`. A configuration has no value that `json.dumps` refuses. -/
def parsed : PyValue → JsonValue
  | .bool b => .bool b
  | .int i => .int i
  | .float bits => .float (reprFloat bits)
  | .str s => .string s
  | .sequence _ items => .array (parsedItems items)
  | .mapping entries => .object (parsedEntries entries)
  | _ => .null

/-- The items of an array. -/
def parsedItems : List PyValue → List JsonValue
  | [] => []
  | item :: items => parsed item :: parsedItems items

/-- The members of an object. -/
def parsedEntries : List (PyValue × PyValue) → JsonObject
  | [] => []
  | (key, item) :: entries => (keyText key, parsed item) :: parsedEntries entries

end

end Parsed

/-- `semantic_search_config`. -/
def semanticSearchConfig (payload : List (String × PyValue)) : List (String × PyValue) :=
  (payload.filter fun entry => entry.1 ∉ nonSemanticFields ∧ entry.1 ∉ routingFields).map fun entry =>
    (entry.1, jsonSafe entry.2)

/-- The store that a collection belongs to: its type, and `implementation_identity`. -/
structure StoreIdentity where
  storeType : String
  implementation : String
  deriving DecidableEq, Repr

/-- `collection_descriptor`. -/
def collectionDescriptor (store : StoreIdentity) (payload : List (String × PyValue)) : PyValue :=
  pyDict [("contract_version", .int 2), ("store_type", .str store.storeType),
    ("store_implementation", .str store.implementation),
    ("search", pyDict (semanticSearchConfig payload))]

/-- `collection_config_fingerprint`. -/
def configFingerprint (blake2b : ℤ → List UInt8 → List UInt8) (store : StoreIdentity)
    (payload : List (String × PyValue)) : Except Failure String :=
  canonicalFingerprint blake2b (collectionDescriptor store payload)
    "dbt-ml-search-collection-config" 1 16

/-! ### The declared columns -/

/-- `projected_fields`. -/
def SearchConfig.projectedFields (c : SearchConfig) : List String :=
  (c.idField :: (c.documentIdField.toList ++ (c.chunkIdField.toList ++ (c.textFields ++
    ((c.vector.map (·.field)).toList ++ (c.attributes.map (·.name) ++ c.displayFields)))))).eraseDups

/-- The type of a column: the vector is a list of floats of the declared length, and any other column
has its upstream type. -/
def SearchConfig.columnType (c : SearchConfig) (upstream : List (String × String)) (name : String) :
    String :=
  match c.vector with
  | some v =>
    if name = v.field then "fixed_size_list<item: float>[" ++ toString v.dimensions ++ "]"
    else (upstream.lookup name).getD ""
  | none => (upstream.lookup name).getD ""

/-- The columns of the collection of `_search_collection_spec`, of which the checks on the upstream
types are left out. -/
def declaredSchema (modelName : String) (upstream : List (String × String)) (c : SearchConfig) :
    Except Failure (List (String × String)) :=
  let missing := c.projectedFields.filter (· ∉ upstream.map Prod.fst)
  if missing ≠ [] then
    .error (.runError ("Search resource '" ++ modelName ++
      "' upstream schema is missing declared fields: " ++ ", ".intercalate missing))
  else .ok (c.projectedFields.map fun name => (name, c.columnType upstream name))

end Stel.Search
