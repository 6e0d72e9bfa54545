import Stel.Search.OnlineEvolution

/-!
# Settings that only pace a publication

`retrieval/evolution.py` names the fields of a search configuration that define no index. The same
configuration is serialised three times: as the descriptor of its collection, as the fingerprint of
that descriptor, and in the code version of the resource (`compute_code_version`, `versioning.py`).

## Main definitions

* `Tuning`, `SearchConfig.tuned`: the fields that define no index.
* `Deployment`, `Deployment.codeVersion`, `Deployment.resource`: the resource of a configuration.

## Main results

* `effective_tuned`, `classifyDescriptorChanges_tuned`: the descriptor does not depend on them.
* `codeVersion_tuned_iff`: the code version does.
-/

namespace Stel.Search

open Stel.Hashing Stel.Retrieval Stel.Warehouse JsonValue

/-! ### The settings -/

/-- `NON_SEMANTIC_FIELDS`, with their values. -/
structure Tuning where
  onIndexChange : IndexChangePolicy := .fail
  batchSize : ℕ := 1000
  indexOptions : List (PyValue × PyValue) := []

/-- The settings are equal, the options as dicts. -/
structure Tuning.Same (t t' : Tuning) : Prop where
  onIndexChange : t.onIndexChange = t'.onIndexChange
  batchSize : t.batchSize = t'.batchSize
  indexOptions : PyValue.Same (.mapping t.indexOptions) (.mapping t'.indexOptions)

/-- The configuration with these settings. -/
def SearchConfig.tuned (c : SearchConfig) (t : Tuning) : SearchConfig :=
  { c with onIndexChange := t.onIndexChange, batchSize := t.batchSize, indexOptions := t.indexOptions }

/-! ### The resource of a configuration -/

/-- What the resource of a configuration is made of besides: the declarations of its model, the
target, and the readings of a row `R` as values `V`. -/
structure Deployment (R V : Type) where
  scope : StateScope
  store : StoreIdentity
  identity : Option EmbeddingIdentity
  /-- The names of `depends_on`. -/
  dependsOn : List String
  /-- The name and the type of every declared field. -/
  fields : List (String × Option String)
  physicalName : String
  upstreamColumns : List (String × String)
  nonce : String
  maxIdBytes : Option ℕ
  blake2b : ℤ → List UInt8 → List UInt8
  reprFloat : UInt64 → String
  env : DescriptorEnv
  /-- `json.loads`. -/
  loads : String → JsonObject
  /-- `descriptor_json`. -/
  descriptorJson : PyValue → String
  /-- `legacy_collection_config_fingerprint`. -/
  legacyFingerprint : List (String × PyValue) → String
  cell : String → R → Cell
  /-- The checks on a row, by the id fields, the text fields and the vector. -/
  normalize : Option String → Option String → List String → Option VectorConfig → R → Except Failure V
  /-- `canonical_fingerprint({"config": …, "row": values})`. -/
  rowFingerprint : String → V → String

namespace Deployment

variable {R V : Type} (d : Deployment R V)

/-- The payload of `compute_code_version`, for a resource whose other sections are not configured. -/
def codePayload (c : SearchConfig) : PyValue :=
  pyDict [("extraction", .none), ("transform", .none), ("ml", .none), ("chunk", .none),
    ("eval", .none), ("embed", .none), ("llm", .none), ("search", pyDict c.modelDump),
    ("agent_context", .none),
    ("depends_on", if d.dependsOn = [] then .none else .sequence .list (d.dependsOn.map .str)),
    ("fields", if d.fields = [] then .none else .sequence .list (d.fields.map fun field =>
      pyDict [("name", .str field.1), ("data_type", pyOptional field.2)]))]

/-- `compute_code_version`. -/
def codeVersion (c : SearchConfig) : String :=
  hex (d.blake2b 16 (canonicalBytes (d.codePayload c)))

/-- `collection_config_fingerprint`. -/
def fingerprint (c : SearchConfig) : Except Failure String :=
  configFingerprint d.blake2b d.store (c.effective d.identity)

/-- The descriptor of the configuration, as it is read back. -/
def descriptor (c : SearchConfig) : Descriptor :=
  c.descriptor d.reprFloat d.store d.identity

/-- `_search_collection_spec`. -/
def collectionSpec (c : SearchConfig) (configFingerprint : String) : CollectionSpec where
  physicalName := d.physicalName
  configFingerprint := configFingerprint
  descriptor := d.descriptorJson (collectionDescriptor d.store (c.effective d.identity))
  legacyConfigFingerprint := d.legacyFingerprint (c.effective d.identity)
  arrowSchema := c.projectedFields.map fun name => (name, c.columnType d.upstreamColumns name)

/-- `policy == "online"`. -/
def onIndexChange : IndexChangePolicy → OnIndexChange
  | .online => .online
  | .fail | .rebuild => .fail

/-- The resource of a configuration with this fingerprint; `batch_size` is declared with `ge=1` and
`le=100_000`. -/
def resource (c : SearchConfig) (configFingerprint : String)
    (h : 0 < c.batchSize ∧ c.batchSize ≤ maxStateSubsetKeys) : SearchModel R V where
  scope := d.scope
  codeVersion := d.codeVersion c
  spec := d.collectionSpec c configFingerprint
  recordId := d.cell c.idField
  normalize := d.normalize c.documentIdField c.chunkIdField c.textFields c.vector
  fingerprint := d.rowFingerprint configFingerprint
  governed := c.access = .governed
  batchSize := c.batchSize
  maxIdBytes := d.maxIdBytes
  onIndexChange := onIndexChange c.onIndexChange
  descriptorChanges := describedChanges d.env d.loads
  nonce := d.nonce
  batchSize_pos := h.1
  batchSize_le := h.2

end Deployment

/-! ### The descriptor -/

variable {R V : Type} {d : Deployment R V} {c : SearchConfig} {t t' : Tuning}

/-- The settings are dropped from the descriptor. -/
theorem semanticSearchConfig_tuned (identity : Option EmbeddingIdentity) :
    semanticSearchConfig ((c.tuned t).effective identity) =
      semanticSearchConfig (c.effective identity) := rfl

theorem collectionDescriptor_tuned (store : StoreIdentity) (identity : Option EmbeddingIdentity) :
    collectionDescriptor store ((c.tuned t).effective identity) =
      collectionDescriptor store (c.effective identity) := by
  rw [collectionDescriptor, collectionDescriptor, semanticSearchConfig_tuned]

theorem fingerprint_tuned : d.fingerprint (c.tuned t) = d.fingerprint c := by
  rw [Deployment.fingerprint, Deployment.fingerprint, configFingerprint, configFingerprint,
    collectionDescriptor_tuned]

theorem descriptor_tuned : (d.descriptor (c.tuned t)).members = (d.descriptor c).members := by
  show descriptorMembers d.reprFloat d.store _ = descriptorMembers d.reprFloat d.store _
  rw [descriptorMembers, descriptorMembers, semanticSearchConfig_tuned]

section SelfEqual

variable {floats : Floats}

theorem pyEq_int_self (n : ℤ) : pyEq floats (.int n) (.int n) = true := by
  have hnumber : number floats (.int n) = some (.finite n) := rfl
  exact (pyEq_of_number hnumber).mpr hnumber

theorem pyEq_bool_self (b : Bool) : pyEq floats (.bool b) (.bool b) = true := by
  have hnumber : number floats (.bool b) = some (.finite (if b then 1 else 0)) := rfl
  exact (pyEq_of_number hnumber).mpr hnumber

theorem pyEq_texts_self (texts : List String) :
    pyEq floats (.array (texts.map .string)) (.array (texts.map .string)) = true := by
  refine pyEq_array_self fun x hx => ?_
  obtain ⟨text, -, rfl⟩ := List.mem_map.mp hx
  exact pyEq_string.mpr rfl

theorem pyEq_optional_self (text : Option String) :
    pyEq floats (jsonOptional text) (jsonOptional text) = true := by
  cases text with
  | none => exact pyEq_null.mpr rfl
  | some text => exact pyEq_string.mpr rfl

theorem pyEq_embedding_self (reprFloat : UInt64 → String) (v : VectorConfig)
    (identity : Option EmbeddingIdentity) :
    let embedding := parsed reprFloat (jsonSafe (identity.elim v.embeddingDump (·.toDict)))
    pyEq floats embedding embedding = true := by
  intro embedding
  cases identity with
  | some e =>
    obtain ⟨provider, model, dimensions, implementation, configHash, options⟩ := e
    cases options with
    | none =>
      have hnames : List.Nodup ["provider", "model", "dimensions", "implementation", "config_hash"] := by decide
      refine pyEq_object_self hnames fun m hm => ?_
      rcases hm with _ | ⟨_, _ | ⟨_, _ | ⟨_, _ | ⟨_, _ | ⟨_, hm⟩⟩⟩⟩⟩
      · exact pyEq_string.mpr rfl
      · exact pyEq_string.mpr rfl
      · exact pyEq_int_self _
      · exact pyEq_string.mpr rfl
      · exact pyEq_string.mpr rfl
      · cases hm
    | some text =>
      have hnames : List.Nodup ["provider", "model", "dimensions", "implementation", "config_hash",
        "provider_options_identity"] := by decide
      refine pyEq_object_self hnames fun m hm => ?_
      rcases hm with _ | ⟨_, _ | ⟨_, _ | ⟨_, _ | ⟨_, _ | ⟨_, _ | ⟨_, hm⟩⟩⟩⟩⟩⟩
      · exact pyEq_string.mpr rfl
      · exact pyEq_string.mpr rfl
      · exact pyEq_int_self _
      · exact pyEq_string.mpr rfl
      · exact pyEq_string.mpr rfl
      · exact pyEq_string.mpr rfl
      · cases hm
  | none =>
    obtain ⟨field, dimensions, metric, search, declared⟩ := v
    cases declared with
    | none => exact pyEq_string.mpr rfl
    | some e =>
      have hnames : List.Nodup ["provider", "model", "provider_contract_version", "provider_implementation",
        "semantic_config_fingerprint", "dimensions"] := by decide
      refine pyEq_object_self hnames fun m hm => ?_
      rcases hm with _ | ⟨_, _ | ⟨_, _ | ⟨_, _ | ⟨_, _ | ⟨_, _ | ⟨_, hm⟩⟩⟩⟩⟩⟩
      · exact pyEq_string.mpr rfl
      · exact pyEq_string.mpr rfl
      · exact pyEq_int_self _
      · exact pyEq_string.mpr rfl
      · exact pyEq_string.mpr rfl
      · exact pyEq_int_self _
      · cases hm

theorem pyEq_members_self (a : AttributeConfig) :
    pyEq floats (.object a.members) (.object a.members) = true := by
  have hnames : List.Nodup ["name", "data_type", "nullable", "filter_role", "sortable", "returned"] := by
    decide
  refine pyEq_object_self hnames fun m hm => ?_
  rcases hm with _ | ⟨_, _ | ⟨_, _ | ⟨_, _ | ⟨_, _ | ⟨_, _ | ⟨_, hm⟩⟩⟩⟩⟩⟩
  · exact pyEq_string.mpr rfl
  · exact pyEq_string.mpr rfl
  · exact pyEq_bool_self _
  · exact pyEq_string.mpr rfl
  · exact pyEq_bool_self _
  · exact pyEq_bool_self _
  · cases hm

theorem pyEq_vector_self (reprFloat : UInt64 → String) (identity : Option EmbeddingIdentity) :
    pyEq floats (c.vectorJson reprFloat identity) (c.vectorJson reprFloat identity) = true := by
  unfold SearchConfig.vectorJson
  cases c.vector with
  | none => exact pyEq_null.mpr rfl
  | some v =>
    have hnames : List.Nodup ["field", "dimensions", "metric", "search", "embedding"] := by decide
    refine pyEq_object_self hnames fun m hm => ?_
    rcases hm with _ | ⟨_, _ | ⟨_, _ | ⟨_, _ | ⟨_, _ | ⟨_, hm⟩⟩⟩⟩⟩
    · exact pyEq_string.mpr rfl
    · exact pyEq_int_self _
    · exact pyEq_string.mpr rfl
    · exact pyEq_string.mpr rfl
    · exact pyEq_embedding_self reprFloat v identity
    · cases hm

/-- Every search field of a descriptor equals itself. -/
theorem pyEq_searchMembers_self (reprFloat : UInt64 → String) (identity : Option EmbeddingIdentity) :
    ∀ m ∈ c.searchMembers reprFloat identity, pyEq floats m.2 m.2 = true := by
  have hfullText : pyEq floats (c.fullText.elim .null fun fields =>
      .object [("fields", .array (fields.map .string))]) (c.fullText.elim .null fun fields =>
      .object [("fields", .array (fields.map .string))]) = true := by
    cases c.fullText with
    | none => exact pyEq_null.mpr rfl
    | some fields =>
      have hname : List.Nodup ["fields"] := by decide
      refine pyEq_object_self hname fun m hm => ?_
      obtain rfl := List.mem_singleton.mp hm
      exact pyEq_texts_self fields
  have hattributes : pyEq floats (.array (c.attributes.map fun a => .object a.members))
      (.array (c.attributes.map fun a => .object a.members)) = true := by
    refine pyEq_array_self fun x hx => ?_
    obtain ⟨a, -, rfl⟩ := List.mem_map.mp hx
    exact pyEq_members_self a
  have hquery : ∀ modes : List String, pyEq floats
      (.object [("modes", .array (modes.map .string)), ("consistency", .string "strong")])
      (.object [("modes", .array (modes.map .string)), ("consistency", .string "strong")]) = true := by
    intro modes
    have hnames : List.Nodup ["modes", "consistency"] := by decide
    refine pyEq_object_self hnames fun m hm => ?_
    rcases hm with _ | ⟨_, _ | ⟨_, hm⟩⟩
    · exact pyEq_texts_self modes
    · exact pyEq_string.mpr rfl
    · cases hm
  unfold SearchConfig.searchMembers
  simp only [List.forall_mem_cons, List.not_mem_nil, false_imp_iff, implies_true, and_true]
  exact ⟨pyEq_string.mpr rfl, pyEq_string.mpr rfl, pyEq_optional_self _, pyEq_optional_self _,
    pyEq_texts_self _, pyEq_texts_self _, pyEq_vector_self _ _, hfullText, hattributes,
    pyEq_texts_self _, hquery _⟩

end SelfEqual

theorem pyEq_get_self {floats : Floats} {fields : JsonObject}
    (h : ∀ m ∈ fields, pyEq floats m.2 m.2 = true) (field : String) :
    pyEq floats (fields.get field) (fields.get field) = true := by
  rw [JsonObject.get]
  cases hlookup : fields.lookup field with
  | none => exact pyEq_null.mpr rfl
  | some x => exact h _ (mem_of_lookup hlookup)

/-- The classification reports nothing. -/
theorem classifyDescriptorChanges_tuned :
    classifyDescriptorChanges d.env (d.descriptor (c.tuned t)).members
      (d.descriptor (c.tuned t')).members = .ok [] := by
  rw [descriptor_tuned, descriptor_tuned]
  have hsearch : (d.descriptor c).search = c.searchMembers d.reprFloat d.identity :=
    search_descriptor
  have hfields : changedFields d.env (d.descriptor c).search (d.descriptor c).search = [] := by
    refine List.eq_nil_iff_forall_not_mem.mpr fun field hfield =>
      Descriptor.mem_changedFields.mp hfield ?_
    rw [hsearch]
    exact pyEq_get_self (pyEq_searchMembers_self _ _) field
  have hcontract : contractChanges d.env (d.descriptor c).members (d.descriptor c).members = [] := by
    refine List.map_eq_nil_iff.mpr (List.filter_eq_nil_iff.mpr fun field hfield => ?_)
    have hself : pyEq d.env.floats ((d.descriptor c).members.get field)
        ((d.descriptor c).members.get field) = true := by
      simp only [contractFields, List.mem_cons, List.not_mem_nil, or_false] at hfield
      rcases hfield with rfl | rfl | rfl
      · exact pyEq_int_self _
      · exact pyEq_string.mpr rfl
      · exact pyEq_string.mpr rfl
    simp only [hself, not_true_eq_false, decide_false, Bool.false_eq_true, not_false_eq_true]
  have hchanges : classifyChanges d.env (d.descriptor c).search (d.descriptor c).search = .ok [] := by
    unfold classifyChanges
    rw [hfields]
    rfl
  unfold classifyDescriptorChanges
  rw [Descriptor.searchOf_eq]
  simp only [bind, Except.bind, hchanges, hcontract, List.nil_append, pure, Except.pure]

/-! ### The code version -/

theorem modelDump_tuned (t : Tuning) : (c.tuned t).modelDump =
    (c.modelDump.take 13) ++ [("on_index_change", .str t.onIndexChange.value),
      ("batch_size", .int t.batchSize), ("index_options", .mapping t.indexOptions)] := rfl

theorem IndexChangePolicy.value_injective : Function.Injective IndexChangePolicy.value := by
  intro a b h
  cases a <;> cases b <;> first | rfl | exact absurd h (by decide)

/-- Dicts with the same canonical form have, at every name, values with the same one. -/
theorem canonicalValue_pyDict_item {es fs : List (String × PyValue)} (name : String) {v w : PyValue}
    (h : canonicalValue (pyDict es) = canonicalValue (pyDict fs)) (hnodup : (fs.map Prod.fst).Nodup)
    (hv : (name, v) ∈ es) (hw : (name, w) ∈ fs) : canonicalValue v = canonicalValue w := by
  refine canonicalValue_item_eq (.str name) h ?_
    (List.mem_map_of_mem (f := fun e : String × PyValue => (PyValue.str e.1, e.2)) hv)
    (List.mem_map_of_mem (f := fun e : String × PyValue => (PyValue.str e.1, e.2)) hw)
  have hinj : Function.Injective fun name => canonicalValue (.str name) := by
    intro a b hab
    simpa [canonicalValue] using hab
  have hkeys := hnodup.map hinj
  rw [List.map_map] at hkeys ⊢
  exact hkeys

/-- Dicts whose values have the same canonical forms have the same one. -/
theorem canonicalValue_pyDict_congr {es fs : List (String × PyValue)}
    (h : List.Forall₂ (fun e f => e.1 = f.1 ∧ canonicalValue e.2 = canonicalValue f.2) es fs) :
    canonicalValue (pyDict es) = canonicalValue (pyDict fs) := by
  have hentries : canonicalEntries (es.map fun e => (.str e.1, e.2)) =
      canonicalEntries (fs.map fun e => (.str e.1, e.2)) := by
    induction h with
    | nil => rfl
    | @cons e f es fs hef _ ih =>
      obtain ⟨hname, hvalue⟩ := hef
      rw [List.map_cons, List.map_cons, canonicalEntries, canonicalEntries, hname, hvalue, ih]
  rw [pyDict, pyDict, canonicalValue, canonicalValue, hentries]

/-- The dumps of two tunings have the same canonical form exactly if the settings are equal. -/
theorem canonicalValue_modelDump_tuned_iff : canonicalValue (pyDict (c.tuned t).modelDump) =
    canonicalValue (pyDict (c.tuned t').modelDump) ↔ t.Same t' := by
  constructor
  · intro h
    have hnodup : ((c.tuned t').modelDump.map Prod.fst).Nodup := by
      show List.Nodup ["access", "store", "collection", "id_field", "document_id_field",
        "chunk_id_field", "text_fields", "return_text_fields", "vector", "full_text", "attributes",
        "display_fields", "query", "on_index_change", "batch_size", "index_options"]
      decide
    have hitem : ∀ name {v w}, (name, v) ∈ (c.tuned t).modelDump → (name, w) ∈ (c.tuned t').modelDump →
        canonicalValue v = canonicalValue w := fun name {_ _} => canonicalValue_pyDict_item name h hnodup
    have hpolicy : canonicalValue (.str t.onIndexChange.value) =
        canonicalValue (.str t'.onIndexChange.value) :=
      hitem "on_index_change" (by simp [modelDump_tuned]) (by simp [modelDump_tuned])
    have hbatch : canonicalValue (.int t.batchSize) = canonicalValue (.int t'.batchSize) :=
      hitem "batch_size" (by simp [modelDump_tuned]) (by simp [modelDump_tuned])
    have hoptions : canonicalValue (.mapping t.indexOptions) = canonicalValue (.mapping t'.indexOptions) :=
      hitem "index_options" (by simp [modelDump_tuned]) (by simp [modelDump_tuned])
    refine ⟨IndexChangePolicy.value_injective ?_, ?_, canonicalValue_eq_iff.mp hoptions⟩
    · simpa [canonicalValue] using hpolicy
    · have htext : (toString (t.batchSize : ℤ)) = toString (t'.batchSize : ℤ) := by
        simpa [canonicalValue] using hbatch
      exact_mod_cast toString_int_injective htext
  · intro h
    rw [modelDump_tuned, modelDump_tuned, h.onIndexChange, h.batchSize]
    refine canonicalValue_pyDict_congr (List.rel_append (List.forall₂_same.mpr fun _ _ => ⟨rfl, rfl⟩)
      (.cons ⟨rfl, rfl⟩ (.cons ⟨rfl, rfl⟩ (.cons ⟨rfl, ?_⟩ .nil))))
    exact canonicalValue_eq_iff.mpr h.indexOptions

/-- The payloads of the code versions have the same canonical form exactly if the settings are
equal. -/
theorem canonicalValue_codePayload_iff : canonicalValue (d.codePayload (c.tuned t)) =
    canonicalValue (d.codePayload (c.tuned t')) ↔ t.Same t' := by
  rw [← canonicalValue_modelDump_tuned_iff (c := c)]
  constructor
  · intro h
    have hnodup : List.Nodup ["extraction", "transform", "ml", "chunk", "eval", "embed", "llm",
      "search", "agent_context", "depends_on", "fields"] := by decide
    exact canonicalValue_pyDict_item "search" h hnodup (by simp) (by simp)
  · intro h
    refine canonicalValue_pyDict_congr ?_
    simp only [List.forall₂_cons, List.Forall₂.nil, and_self, h]

/-- The code version of a resource depends on the settings, where its digests do not collide. -/
theorem codeVersion_tuned_iff
    (hfree : d.blake2b 16 (canonicalBytes (d.codePayload (c.tuned t))) =
      d.blake2b 16 (canonicalBytes (d.codePayload (c.tuned t'))) →
      canonicalBytes (d.codePayload (c.tuned t)) = canonicalBytes (d.codePayload (c.tuned t'))) :
    d.codeVersion (c.tuned t) = d.codeVersion (c.tuned t') ↔ t.Same t' := by
  rw [← canonicalValue_codePayload_iff (d := d) (c := c), canonicalValue_eq_iff, ← canonicalBytes_eq_iff]
  constructor
  · intro h
    exact hfree (hex_injective h)
  · intro h
    rw [Deployment.codeVersion, Deployment.codeVersion, h]

end Stel.Search
