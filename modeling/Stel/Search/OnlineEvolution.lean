import Stel.Search.Recording
import Stel.Search.Settings

/-!
# Online evolution of a collection

A collection whose configuration changed only in what it can serve is widened in place
(`execution/search.py`, `retrieval/evolution.py`).

## Main definitions

* `SearchConfig.descriptor`: the descriptor of a configuration, as it is read back.
* `evolveTo`: the widening of a collection to the columns of a configuration.
* `Stage`, `Stage.Follows`: the configurations that a collection is published with in turn.
* `Refused`, `Widens`: the two ways in which `_verify_collection_config` meets a change.

## Main results

* `evolveTo_matches`: after the widening the schema check passes.
* `online_evolution_sound`: the classification is sound, transitive, and refuses without mutation.
-/

namespace Stel.Search

open Stel.Hashing Stel.Retrieval JsonValue

/-! ### The descriptor of a configuration -/

section Descriptors

variable (reprFloat : UInt64 → String)

/-- The members of the descriptor of a payload, as they are read back. -/
def descriptorMembers (store : StoreIdentity) (payload : List (String × PyValue)) : JsonObject :=
  [("contract_version", .int 2), ("store_type", .string store.storeType),
    ("store_implementation", .string store.implementation),
    ("search", .object ((semanticSearchConfig payload).map fun entry =>
      (entry.1, parsed reprFloat entry.2)))]

/-- A value that is an optional text. -/
def jsonOptional (text : Option String) : JsonValue := text.elim .null .string

/-- The members of an attribute. -/
def AttributeConfig.members (a : AttributeConfig) : JsonObject :=
  [("name", .string a.name), ("data_type", .string a.dataType.value), ("nullable", .bool a.nullable),
    ("filter_role", .string a.filterRole.value), ("sortable", .bool a.sortable),
    ("returned", .bool a.returned)]

/-- The members of a vector configuration, with the value of `embedding`. -/
def VectorConfig.members (v : VectorConfig) (embedding : PyValue) : JsonObject :=
  [("field", .string v.field), ("dimensions", .int v.dimensions), ("metric", .string v.metric.value),
    ("search", .string v.search.value), ("embedding", parsed reprFloat (jsonSafe embedding))]

/-- The value of `vector`. -/
def SearchConfig.vectorJson (c : SearchConfig) (identity : Option EmbeddingIdentity) : JsonValue :=
  c.vector.elim .null fun v =>
    .object (v.members reprFloat (identity.elim v.embeddingDump (·.toDict)))

/-- The search fields of the descriptor. -/
def SearchConfig.searchMembers (c : SearchConfig) (identity : Option EmbeddingIdentity) : JsonObject :=
  [("access", .string c.access.value), ("id_field", .string c.idField),
    ("document_id_field", jsonOptional c.documentIdField),
    ("chunk_id_field", jsonOptional c.chunkIdField),
    ("text_fields", .array (c.textFields.map .string)),
    ("return_text_fields", .array (c.returnTextFields.map .string)),
    ("vector", c.vectorJson reprFloat identity),
    ("full_text", c.fullText.elim .null fun fields =>
      .object [("fields", .array (fields.map .string))]),
    ("attributes", .array (c.attributes.map fun a => .object a.members)),
    ("display_fields", .array (c.displayFields.map .string)),
    ("query", .object [("modes", .array (((c.modes.map QueryMode.value).insertionSort (· ≤ ·)).map
      .string)), ("consistency", .string "strong")])]

variable {reprFloat}

theorem jsonSafeItems_texts (texts : List String) :
    jsonSafeItems (texts.map .str) = texts.map .str := by
  induction texts with
  | nil => rfl
  | cons t texts ih => rw [List.map_cons, jsonSafeItems, ih]; rfl

theorem jsonSafe_texts (texts : List String) :
    jsonSafe (pyTexts texts) = .sequence .list (texts.map .str) := by
  rw [pyTexts, jsonSafe, jsonSafeItems_texts]

theorem parsedItems_texts (texts : List String) :
    parsedItems reprFloat (texts.map .str) = texts.map .string := by
  induction texts with
  | nil => rfl
  | cons t texts ih => rw [List.map_cons, parsedItems, ih]; rfl

theorem parsed_texts (texts : List String) :
    parsed reprFloat (jsonSafe (pyTexts texts)) = .array (texts.map .string) := by
  rw [jsonSafe_texts, parsed, parsedItems_texts]

theorem parsed_optional (text : Option String) :
    parsed reprFloat (jsonSafe (pyOptional text)) = jsonOptional text := by
  cases text <;> rfl

/-- The modes are sorted. -/
theorem parsed_modes (modes : List String) :
    parsed reprFloat (jsonSafe (.set .frozenset (modes.map .str))) =
      .array ((modes.insertionSort (· ≤ ·)).map .string) := by
  have hsort : ((modes.insertionSort (· ≤ ·)).map PyValue.str) =
      (modes.map PyValue.str).insertionSort fun a b => itemText a ≤ itemText b :=
    List.map_insertionSort _ _ _ _ fun a _ b _ => Iff.rfl
  rw [jsonSafe, jsonSafeItems_texts, ← hsort, parsed, parsedItems_texts]

theorem parsed_attributes (attributes : List AttributeConfig) :
    parsed reprFloat (jsonSafe (.sequence .tuple (attributes.map AttributeConfig.dump))) =
      .array (attributes.map fun a => .object a.members) := by
  rw [jsonSafe, parsed]
  congr 1
  induction attributes with
  | nil => rfl
  | cons a attributes ih => rw [List.map_cons, jsonSafeItems, parsedItems, ih]; rfl

/-- The search fields that are read back of the descriptor of a configuration. -/
theorem map_parsed_effective (c : SearchConfig) (identity : Option EmbeddingIdentity) :
    (semanticSearchConfig (c.effective identity)).map (fun entry => (entry.1, parsed reprFloat entry.2)) =
      c.searchMembers reprFloat identity := by
  have hfilter : ∀ vector, semanticSearchConfig (c.entries vector) =
      [("access", jsonSafe (.str c.access.value)), ("id_field", jsonSafe (.str c.idField)),
        ("document_id_field", jsonSafe (pyOptional c.documentIdField)),
        ("chunk_id_field", jsonSafe (pyOptional c.chunkIdField)),
        ("text_fields", jsonSafe (pyTexts c.textFields)),
        ("return_text_fields", jsonSafe (pyTexts c.returnTextFields)), ("vector", jsonSafe vector),
        ("full_text", jsonSafe (c.fullText.elim .none fun fields =>
          pyDict [("fields", pyTexts fields)])),
        ("attributes", jsonSafe (.sequence .tuple (c.attributes.map AttributeConfig.dump))),
        ("display_fields", jsonSafe (pyTexts c.displayFields)),
        ("query", jsonSafe (pyDict [("modes", .set .frozenset (c.modes.map fun mode => .str mode.value)),
          ("consistency", .str "strong")]))] := fun _ => rfl
  have hvector : parsed reprFloat (jsonSafe (c.vector.elim .none fun v =>
      v.dump (identity.elim v.embeddingDump (·.toDict)))) = c.vectorJson reprFloat identity := by
    unfold SearchConfig.vectorJson
    cases c.vector <;> rfl
  have hfullText : parsed reprFloat (jsonSafe (c.fullText.elim .none fun fields =>
      pyDict [("fields", pyTexts fields)])) =
      c.fullText.elim .null fun fields => .object [("fields", .array (fields.map .string))] := by
    cases c.fullText with
    | none => rfl
    | some fields =>
      show JsonValue.object [("fields", parsed reprFloat (jsonSafe (pyTexts fields)))] = _
      rw [parsed_texts]
      rfl
  have hmodes : parsed reprFloat (jsonSafe (pyDict [("modes", .set .frozenset (c.modes.map fun mode =>
      .str mode.value)), ("consistency", .str "strong")])) =
      .object [("modes", .array (((c.modes.map QueryMode.value).insertionSort (· ≤ ·)).map .string)),
        ("consistency", .string "strong")] := by
    rw [← parsed_modes, List.map_map]
    rfl
  unfold SearchConfig.effective SearchConfig.searchMembers
  rw [hfilter]
  simp only [List.map_cons, List.map_nil, parsed_optional, parsed_texts, parsed_attributes, hvector,
    hfullText, hmodes]
  rfl

theorem namesOf_texts (texts : List String) : namesOf (.array (texts.map .string)) = .ok texts := by
  show (texts.map JsonValue.string).mapM nameOf = .ok texts
  rw [mapM_eq_ok, List.forall₂_map_left_iff, List.forall₂_same]
  exact fun _ _ => rfl

theorem attributesOf_members (attributes : List AttributeConfig) :
    attributesOf (.array (attributes.map fun a => .object a.members)) =
      .ok (attributes.map fun a => (a.name, .object a.members)) := by
  show (attributes.map fun a => JsonValue.object a.members).mapM attributeOf = _
  rw [mapM_eq_ok, List.forall₂_map_left_iff, List.forall₂_map_right_iff, List.forall₂_same]
  exact fun _ _ => rfl

variable (reprFloat)

/-- The descriptor of a configuration, as it is read back. -/
def SearchConfig.descriptor (store : StoreIdentity) (c : SearchConfig)
    (identity : Option EmbeddingIdentity) : Descriptor where
  members := descriptorMembers reprFloat store (c.effective identity)
  shaped := by
    refine ⟨c.searchMembers reprFloat identity, ?_, ⟨_, attributesOf_members c.attributes⟩, ?_⟩
    · rw [← map_parsed_effective]
      rfl
    · intro field hfield
      simp only [additiveFields, List.mem_cons, List.not_mem_nil, or_false] at hfield
      rcases hfield with rfl | rfl
      · exact ⟨_, namesOf_texts c.displayFields⟩
      · exact ⟨_, namesOf_texts c.returnTextFields⟩

variable {reprFloat} {store : StoreIdentity} {c : SearchConfig} {identity : Option EmbeddingIdentity}

@[simp] theorem search_descriptor :
    (c.descriptor reprFloat store identity).search = c.searchMembers reprFloat identity := by
  refine Except.ok.inj ((Descriptor.searchOf_eq _).symm.trans ?_)
  rw [← map_parsed_effective]
  rfl

@[simp] theorem attributes_descriptor :
    (c.descriptor reprFloat store identity).attributes =
      c.attributes.map fun a => (a.name, .object a.members) := by
  refine Except.ok.inj ((Descriptor.attributesOf_eq _).symm.trans ?_)
  rw [search_descriptor]
  exact attributesOf_members c.attributes

@[simp] theorem displayFields_descriptor :
    (c.descriptor reprFloat store identity).projection "display_fields" = c.displayFields := by
  refine Except.ok.inj ((Descriptor.namesOf_eq _ (by decide)).symm.trans ?_)
  rw [search_descriptor]
  exact namesOf_texts c.displayFields

theorem jsonOptional_inj {a b : Option String} : jsonOptional a = jsonOptional b ↔ a = b := by
  cases a <;> cases b <;> simp [jsonOptional]

end Descriptors

/-! ### The columns of a configuration that can be served -/

section Columns

variable {env : DescriptorEnv} {reprFloat : UInt64 → String} {store store' : StoreIdentity}
  {stored current : SearchConfig} {identity identity' : Option EmbeddingIdentity}

/-- What a configuration that a collection can serve has in common with the stored one. -/
structure SameColumns (stored current : SearchConfig) : Prop where
  idField : current.idField = stored.idField
  documentIdField : current.documentIdField = stored.documentIdField
  chunkIdField : current.chunkIdField = stored.chunkIdField
  textFields : current.textFields = stored.textFields
  vectorField : current.vector.map (·.field) = stored.vector.map (·.field)
  vectorDimensions : current.vector.map (·.dimensions) = stored.vector.map (·.dimensions)
  attributes : ∀ a ∈ stored.attributes, ∃ b ∈ current.attributes, b.name = a.name
  displayFields : ∀ name ∈ stored.displayFields, name ∈ current.displayFields

theorem sameColumns (h : Descriptor.Kept env (stored.descriptor reprFloat store identity)
    (current.descriptor reprFloat store' identity')) : SameColumns stored current := by
  have hfields : ∀ field, field ≠ "attributes" → field ∉ additiveFields →
      pyEq env.floats ((stored.searchMembers reprFloat identity).get field)
        ((current.searchMembers reprFloat identity').get field) = true := by
    simpa using h.fields
  have hoptional : ∀ {a b : Option String},
      pyEq env.floats (jsonOptional a) (jsonOptional b) = true → b = a := by
    intro a b hab
    cases a with
    | none => exact jsonOptional_inj.mp (pyEq_null.mp hab)
    | some text => exact jsonOptional_inj.mp (pyEq_string.mp hab)
  have hid := hfields "id_field" (by decide) (by decide)
  have htexts := hfields "text_fields" (by decide) (by decide)
  have hvector := hfields "vector" (by decide) (by decide)
  have hvector : current.vector.map (·.field) = stored.vector.map (·.field) ∧
      current.vector.map (·.dimensions) = stored.vector.map (·.dimensions) := by
    change pyEq env.floats (stored.vectorJson reprFloat identity)
      (current.vectorJson reprFloat identity') = true at hvector
    unfold SearchConfig.vectorJson at hvector
    cases hs : stored.vector with
    | none =>
      rw [hs] at hvector
      cases hc : current.vector with
      | none => exact ⟨rfl, rfl⟩
      | some w =>
        rw [hc] at hvector
        cases pyEq_null.mp hvector
    | some v =>
      rw [hs] at hvector
      cases hc : current.vector with
      | none =>
        rw [hc] at hvector
        obtain ⟨ns, hns, -⟩ := pyEq_object.mp hvector
        cases hns
      | some w =>
        rw [hc] at hvector
        obtain ⟨ns, hns, -, hmembers⟩ := pyEq_object.mp hvector
        obtain rfl := JsonValue.object.inj hns
        have hmembers := membersEq_iff.mp hmembers
        obtain ⟨x, hx, hfield⟩ := hmembers ("field", .string v.field) List.mem_cons_self
        obtain ⟨y, hy, hdimensions⟩ := hmembers ("dimensions", .int v.dimensions)
          (List.mem_cons_of_mem _ List.mem_cons_self)
        obtain rfl : JsonValue.string w.field = x := Option.some_inj.mp hx
        obtain rfl : JsonValue.int w.dimensions = y := Option.some_inj.mp hy
        have hself : number env.floats (.int v.dimensions) = some (.finite v.dimensions) := rfl
        have hnumber := (pyEq_of_number hself).mp hdimensions
        refine ⟨?_, ?_⟩
        · exact congrArg some (JsonValue.string.inj (pyEq_string.mp hfield))
        · have heq : ((w.dimensions : ℤ) : ℚ) = ((v.dimensions : ℤ) : ℚ) :=
            Number.finite.inj (Option.some_inj.mp hnumber)
          exact congrArg some (by exact_mod_cast heq)
  refine ⟨JsonValue.string.inj (pyEq_string.mp hid),
    hoptional (hfields "document_id_field" (by decide) (by decide)),
    hoptional (hfields "chunk_id_field" (by decide) (by decide)),
    (namesOf_of_pyEq htexts (namesOf_texts _) (namesOf_texts _)).symm, hvector.1, hvector.2, ?_, ?_⟩
  · intro a ha
    have hname : a.name ∈ (stored.descriptor reprFloat store identity).attributes.map Prod.fst := by
      rw [attributes_descriptor, List.map_map]
      exact List.mem_map.mpr ⟨a, ha, rfl⟩
    have hcurrent := Descriptor.sameDefinition_mem (h.attributes a.name hname)
    rw [attributes_descriptor, List.map_map] at hcurrent
    exact List.mem_map.mp hcurrent
  · intro name hname
    have hkept := h.projections "display_fields" (by decide) name
    rw [displayFields_descriptor, displayFields_descriptor] at hkept
    exact hkept hname

theorem mem_projectedFields {c : SearchConfig} {name : String} :
    name ∈ c.projectedFields ↔ name = c.idField ∨ c.documentIdField = some name ∨
      c.chunkIdField = some name ∨ name ∈ c.textFields ∨ c.vector.map (·.field) = some name ∨
      (∃ a ∈ c.attributes, a.name = name) ∨ name ∈ c.displayFields := by
  rw [SearchConfig.projectedFields, List.mem_eraseDups]
  simp only [List.mem_cons, List.mem_append, Option.mem_toList, List.mem_map]

theorem SameColumns.projectedFields (h : SameColumns stored current) {name : String}
    (hname : name ∈ stored.projectedFields) : name ∈ current.projectedFields := by
  rw [mem_projectedFields] at hname ⊢
  rw [h.idField, h.documentIdField, h.chunkIdField, h.textFields, h.vectorField]
  rcases hname with hname | hname | hname | hname | hname | ⟨a, ha, rfl⟩ | hname
  · exact .inl hname
  · exact .inr (.inl hname)
  · exact .inr (.inr (.inl hname))
  · exact .inr (.inr (.inr (.inl hname)))
  · exact .inr (.inr (.inr (.inr (.inl hname))))
  · exact .inr (.inr (.inr (.inr (.inr (.inl (h.attributes a ha))))))
  · exact .inr (.inr (.inr (.inr (.inr (.inr (h.displayFields name hname))))))

/-- Every column of the first relation has the same type in the second. -/
def ColumnsKept (before after : List (String × String)) : Prop :=
  ∀ name type, before.lookup name = some type → after.lookup name = some type

theorem SameColumns.columnType (h : SameColumns stored current)
    {upstream upstream' : List (String × String)} {name : String}
    (hname : upstream'.lookup name = upstream.lookup name) :
    current.columnType upstream' name = stored.columnType upstream name := by
  have hfield := h.vectorField
  have hdimensions := h.vectorDimensions
  unfold SearchConfig.columnType
  rw [hname]
  match hs : stored.vector, hc : current.vector with
  | none, none => rfl
  | none, some w => simp [hs, hc] at hfield
  | some v, none => simp [hs, hc] at hfield
  | some v, some w =>
    simp only [hs, hc, Option.map_some, Option.some_inj] at hfield hdimensions
    simp only [hfield, hdimensions]

/-- The lookup in a list in which the name determines the value. -/
theorem lookup_of_determined {columns : List (String × String)} {f : String → String}
    (h : ∀ column ∈ columns, column.2 = f column.1) (name : String) :
    columns.lookup name = if name ∈ columns.map Prod.fst then some (f name) else none := by
  induction columns with
  | nil => rfl
  | cons column columns ih =>
    obtain ⟨other, type⟩ := column
    obtain ⟨htype, hrest⟩ := List.forall_mem_cons.mp h
    by_cases hname : name = other
    · subst hname
      have hmem : name ∈ ((name, type) :: columns).map Prod.fst := List.mem_cons_self
      rw [List.lookup_cons_self, if_pos hmem]
      exact congrArg some htype
    · have hmem : name ∈ ((other, type) :: columns).map Prod.fst ↔ name ∈ columns.map Prod.fst :=
        List.mem_cons.trans (or_iff_right hname)
      rw [List.lookup_cons, beq_eq_false_iff_ne.mpr hname, if_congr hmem rfl rfl]
      exact ih hrest

theorem lookup_reverse_of_determined {columns : List (String × String)} {f : String → String}
    (h : ∀ column ∈ columns, column.2 = f column.1) (name : String) :
    columns.reverse.lookup name = if name ∈ columns.map Prod.fst then some (f name) else none := by
  rw [lookup_of_determined (fun column hcolumn => h column (List.mem_reverse.mp hcolumn))]
  simp only [List.map_reverse, List.mem_reverse]

theorem lookup_reverse_eq_none {columns : List (String × String)} {name : String} :
    columns.reverse.lookup name = none ↔ name ∉ columns.map Prod.fst := by
  rw [List.lookup_eq_none_iff]
  simp only [List.mem_reverse, bne_iff_ne, List.mem_map, not_exists, not_and]
  exact forall₂_congr fun column _ => ⟨fun h heq => h heq.symm, fun h heq => h heq.symm⟩

theorem exists_lookup {columns : List (String × String)} {name : String}
    (h : name ∈ columns.map Prod.fst) : ∃ type, columns.lookup name = some type := by
  by_contra hnone
  have heq : columns.reverse.reverse.lookup name = none := by
    rw [List.reverse_reverse]
    exact Option.eq_none_iff_forall_ne_some.mpr fun type htype => hnone ⟨type, htype⟩
  rw [lookup_reverse_eq_none, List.map_reverse, List.mem_reverse] at heq
  exact heq h

/-- The schemas are equal as dicts. -/
theorem schemaMatchesByName_iff {existing declared : List (String × String)} :
    schemaMatchesByName existing declared = true ↔
      ∀ name, existing.reverse.lookup name = declared.reverse.lookup name := by
  simp only [schemaMatchesByName, List.all_eq_true, decide_eq_true_iff]
  refine ⟨fun h name => ?_, fun h column _ => h column.1⟩
  by_cases hmem : name ∈ (existing ++ declared).map Prod.fst
  · obtain ⟨column, hcolumn, rfl⟩ := List.mem_map.mp hmem
    exact h column hcolumn
  · rw [List.map_append, List.mem_append, not_or] at hmem
    rw [lookup_reverse_eq_none.mpr hmem.1, lookup_reverse_eq_none.mpr hmem.2]

theorem declaredSchema_eq_ok {modelName : String} {upstream schema : List (String × String)}
    {c : SearchConfig} (h : declaredSchema modelName upstream c = .ok schema) :
    (∀ name ∈ c.projectedFields, name ∈ upstream.map Prod.fst) ∧
      schema = c.projectedFields.map fun name => (name, c.columnType upstream name) := by
  simp only [declaredSchema] at h
  split at h
  · cases h
  · rename_i hmissing
    refine ⟨fun name hname => ?_, (Except.ok.inj h).symm⟩
    by_contra hout
    exact hmissing (List.ne_nil_of_mem (List.mem_filter.mpr ⟨hname, decide_eq_true hout⟩))

/-- The declared columns as a dict. -/
theorem lookup_declaredSchema {modelName : String} {upstream schema : List (String × String)}
    {c : SearchConfig} (h : declaredSchema modelName upstream c = .ok schema) (name : String) :
    schema.reverse.lookup name =
      if name ∈ c.projectedFields then some (c.columnType upstream name) else none := by
  obtain rfl := (declaredSchema_eq_ok h).2
  rw [lookup_reverse_of_determined (f := c.columnType upstream), List.map_map]
  · exact if_congr (by rw [show Prod.fst ∘ (fun n => (n, c.columnType upstream n)) = id from rfl,
      List.map_id]) rfl rfl
  · intro column hcolumn
    obtain ⟨n, -, rfl⟩ := List.mem_map.mp hcolumn
    rfl

/-- `evolve_collection` with the column list of `_verify_collection_config`. -/
def evolveTo {V : Type} (spec : CollectionSpec) (c : Collection V) :
    Except Failure (Collection V) :=
  c.evolve spec ((spec.arrowSchema.map Prod.fst).filter (· ∉ c.schema.map Prod.fst))

/-- The columns of a collection that is widened to those declared. -/
theorem evolveTo_eq_ok {V : Type} (spec : CollectionSpec) (c : Collection V) :
    ∃ c', evolveTo spec c = .ok c' ∧ c'.schema =
      c.schema ++ spec.arrowSchema.filter fun column => column.1 ∉ c.schema.map Prod.fst := by
  have hmissing : ∀ name, name ∈ (((spec.arrowSchema.map Prod.fst).filter
      (· ∉ c.schema.map Prod.fst)).filter (· ∉ c.schema.map Prod.fst)) ↔
      name ∈ spec.arrowSchema.map Prod.fst ∧ name ∉ c.schema.map Prod.fst := by
    intro name
    rw [List.mem_filter, List.mem_filter, decide_eq_true_iff]
    tauto
  unfold evolveTo Collection.evolve
  dsimp only
  rw [if_neg]
  · refine ⟨_, rfl, ?_⟩
    show c.schema ++ _ = _
    refine congrArg (c.schema ++ ·) (List.filter_congr fun column hcolumn => ?_)
    rw [decide_eq_decide, hmissing]
    exact and_iff_right (List.mem_map_of_mem hcolumn)
  · rintro ⟨name, hname, hout⟩
    exact hout ((hmissing name).mp hname).1

/-- **The schema check passes.** A collection with the columns of the stored configuration, widened to
a configuration that it can serve, has the columns of that one. -/
theorem evolveTo_matches {V : Type} {modelName modelName' : String}
    {upstream upstream' before : List (String × String)} {spec : CollectionSpec} {c : Collection V}
    (h : SameColumns stored current) (hupstream : ColumnsKept upstream upstream')
    (hbefore : declaredSchema modelName upstream stored = .ok before)
    (hcurrent : declaredSchema modelName' upstream' current = .ok spec.arrowSchema)
    (hmatches : schemaMatchesByName c.schema before = true) :
    ∃ c', evolveTo spec c = .ok c' ∧ schemaMatchesByName c'.schema spec.arrowSchema = true := by
  obtain ⟨c', hc', hschema⟩ := evolveTo_eq_ok spec c
  refine ⟨c', hc', schemaMatchesByName_iff.mpr fun name => ?_⟩
  have hexisting := schemaMatchesByName_iff.mp hmatches name
  rw [lookup_declaredSchema hbefore] at hexisting
  have hadded : (spec.arrowSchema.filter fun column => column.1 ∉ c.schema.map Prod.fst).reverse.lookup
      name = if name ∈ current.projectedFields ∧ name ∉ c.schema.map Prod.fst then
        some (current.columnType upstream' name) else none := by
    rw [lookup_reverse_of_determined (f := current.columnType upstream')]
    · refine if_congr ?_ rfl rfl
      rw [(declaredSchema_eq_ok hcurrent).2]
      simp only [List.mem_map, List.mem_filter, decide_eq_true_iff]
      constructor
      · rintro ⟨column, ⟨⟨n, hn, rfl⟩, hout⟩, rfl⟩
        exact ⟨hn, hout⟩
      · rintro ⟨hn, hout⟩
        exact ⟨_, ⟨⟨name, hn, rfl⟩, hout⟩, rfl⟩
    · intro column hcolumn
      rw [(declaredSchema_eq_ok hcurrent).2] at hcolumn
      obtain ⟨n, -, rfl⟩ := List.mem_map.mp (List.mem_of_mem_filter hcolumn)
      rfl
  rw [hschema, List.reverse_append, List.lookup_append, hadded, hexisting,
    lookup_declaredSchema hcurrent]
  by_cases hname : name ∈ c.schema.map Prod.fst
  · have hstored : name ∈ stored.projectedFields := by
      by_contra hout
      rw [if_neg hout] at hexisting
      exact lookup_reverse_eq_none.mp hexisting hname
    obtain ⟨type, htype⟩ := exists_lookup ((declaredSchema_eq_ok hbefore).1 name hstored)
    have hsame := (hupstream name type htype).trans htype.symm
    rw [if_neg (fun hand => hand.2 hname), if_pos hstored, if_pos (h.projectedFields hstored),
      h.columnType hsame]
    rfl
  · have hstored : name ∉ stored.projectedFields := by
      intro hin
      rw [if_pos hin, lookup_reverse_eq_none.mpr hname] at hexisting
      cases hexisting
    rw [if_neg hstored, Option.or_none]
    simp only [hname, not_false_eq_true, and_true]

end Columns

/-! ### Chains of configurations -/

section Chains

/-- One configuration that a collection is published with. -/
structure Stage where
  modelName : String
  store : StoreIdentity
  config : SearchConfig
  identity : Option EmbeddingIdentity
  upstream : List (String × String)
  spec : CollectionSpec
  declared : declaredSchema modelName upstream config = .ok spec.arrowSchema

variable (env : DescriptorEnv) (reprFloat : UInt64 → String)

/-- The descriptor of the configuration. -/
def Stage.descriptor (stage : Stage) : Descriptor :=
  stage.config.descriptor reprFloat stage.store stage.identity

/-- The collection of the first configuration can serve the second one, and no upstream column has
changed its type. -/
def Stage.Follows (stored current : Stage) : Prop :=
  Descriptor.Serves env (stored.descriptor reprFloat) (current.descriptor reprFloat) ∧
    ColumnsKept stored.upstream current.upstream

variable {env reprFloat} {V : Type}

theorem Stage.Follows.evolveTo {stored current : Stage} (h : stored.Follows env reprFloat current)
    {c : Collection V} (hmatches : schemaMatchesByName c.schema stored.spec.arrowSchema = true) :
    ∃ c', evolveTo current.spec c = .ok c' ∧
      schemaMatchesByName c'.schema current.spec.arrowSchema = true :=
  evolveTo_matches (sameColumns (Descriptor.serves_iff.mp h.1)) h.2 stored.declared current.declared
    hmatches

/-- A collection that is widened to one configuration after the other has the columns of the last. -/
theorem foldlM_evolveTo_matches {stage : Stage} {stages : List Stage}
    (h : (stage :: stages).IsChain (Stage.Follows env reprFloat)) {c : Collection V}
    (hmatches : schemaMatchesByName c.schema stage.spec.arrowSchema = true) :
    ∃ c', stages.foldlM (fun c next => evolveTo next.spec c) c = .ok c' ∧
      schemaMatchesByName c'.schema
        ((stage :: stages).getLast (List.cons_ne_nil _ _)).spec.arrowSchema = true := by
  induction stages generalizing stage c with
  | nil => exact ⟨c, rfl, hmatches⟩
  | cons next stages ih =>
    obtain ⟨hfollows, hrest⟩ := List.isChain_cons_cons.mp h
    obtain ⟨c₁, hstep, hmatches₁⟩ := hfollows.evolveTo hmatches
    obtain ⟨c', hlast, hmatches'⟩ := ih hrest hmatches₁
    refine ⟨c', ?_, ?_⟩
    · rw [List.foldlM_cons, hstep]
      exact hlast
    · rwa [List.getLast_cons (List.cons_ne_nil _ _)]

theorem isChain_serves_pairwise {descriptors : List Descriptor}
    (h : descriptors.IsChain (Descriptor.Serves env)) :
    descriptors.Pairwise (Descriptor.Serves env) := by
  have htrans : IsTrans Descriptor (Descriptor.Serves env) := ⟨fun _ _ _ => Descriptor.Serves.trans⟩
  exact List.isChain_iff_pairwise.mp h

end Chains

/-! ### The refusal -/

section Refusal

variable {R V : Type}

/-- What `_verify_collection_config` learns from the classification: whether some change is blocking,
and the changes in words. A descriptor that is not one of a configuration raises, as a blocking change
does. -/
def describedChanges (env : DescriptorEnv) (loads : String → JsonObject) (stored current : String) :
    Bool × String :=
  match classifyDescriptorChanges env (loads stored) (loads current) with
  | .ok changes =>
    (decide (rebuildRequired changes ≠ []), "; ".intercalate (changes.map ConfigChange.describe))
  | .error _ => (true, "")

/-- The resource with the classification of this module. -/
def SearchModel.classified (search : SearchModel R V) (env : DescriptorEnv)
    (loads : String → JsonObject) : SearchModel R V :=
  { search with descriptorChanges := describedChanges env loads }

/-- The policy is `fail`, or some change is blocking. -/
def Refused (search : SearchModel R V) (existing : CollectionMetadata) : Prop :=
  search.onIndexChange = .fail ∨
    ∃ descriptor, existing.descriptor = some descriptor ∧
      (search.descriptorChanges descriptor search.spec.descriptor).1 = true

variable {search : SearchModel R V} {existing : CollectionMetadata}

/-- A collection with a descriptor is refused without any operation. -/
theorem verifyCollectionConfig_of_refused {descriptor : String} (h : Refused search existing)
    (hdescriptor : existing.descriptor = some descriptor) :
    (descriptor = search.spec.descriptor ∧ verifyCollectionConfig search existing = .pure false) ∨
      ∃ message, verifyCollectionConfig search existing = .throw (.runError message) := by
  unfold verifyCollectionConfig
  rw [hdescriptor]
  dsimp only
  by_cases hsame : descriptor = search.spec.descriptor
  · exact .inl ⟨hsame, if_pos hsame⟩
  rw [if_neg hsame]
  right
  by_cases hblocking : (search.descriptorChanges descriptor search.spec.descriptor).1 = true
  · rw [if_pos hblocking]
    exact ⟨_, rfl⟩
  · have hpolicy : search.onIndexChange = .fail := by
      refine h.resolve_right ?_
      rintro ⟨other, hother, hblocks⟩
      rw [hdescriptor, Option.some_inj] at hother
      subst hother
      exact hblocking hblocks
    rw [if_neg hblocking, if_neg (by rw [hpolicy]; decide)]
    exact ⟨_, rfl⟩

variable {generation : Generation} {uuid : ℕ → String}

/-- A refusal leaves the store as it was. -/
theorem verifyCollectionConfig_unchanged (h : Refused search existing) {w w' : World V} {e : Failure}
    (hexec : (verifyCollectionConfig search existing).exec (searchInterp generation uuid) w =
      (w', .error e)) : w' = w := by
  cases hdescriptor : existing.descriptor with
  | some descriptor =>
    obtain ⟨-, hpure⟩ | ⟨message, hthrow⟩ := verifyCollectionConfig_of_refused h hdescriptor
    · rw [hpure] at hexec
      cases hexec
    · rw [hthrow] at hexec
      exact (congrArg Prod.fst hexec).symm
  | none =>
    unfold verifyCollectionConfig at hexec
    rw [hdescriptor] at hexec
    dsimp only at hexec
    split at hexec
    · -- The digest was rewritten in place, unless there is no collection.
      obtain ⟨s, ledger⟩ := w
      cases hcollection : s.collection with
      | none =>
        have hrestamp : (searchInterp generation uuid) (.inl (.restampCollection search.spec))
            (s, ledger) = ((s, ledger), .error (.retrievalError "LanceDB operation 'open' failed")) := by
          simp [Interp.sum, DataOp.exec, withCollection, hcollection]
        rw [data, Prog.call_bind, Prog.exec_call_error _ hrestamp] at hexec
        exact (congrArg Prod.fst hexec).symm
      | some c =>
        have hrestamp : (searchInterp generation uuid) (.inl (.restampCollection search.spec))
            (s, ledger) = (({ s with collection := some (c.stamp search.spec) }, ledger), .ok ()) := by
          simp [Interp.sum, DataOp.exec, withCollection, hcollection]
        rw [data, Prog.call_bind, Prog.exec_call_ok _ hrestamp] at hexec
        cases hexec
    · exact (congrArg Prod.fst hexec).symm

/-- However the check of a collection with a descriptor ends, it leaves the store as it was. -/
theorem verifyCollectionConfig_ends (h : Refused search existing) (hdescriptor : existing.descriptor ≠ none)
    {w w' : World V} {out : Option (Except Failure Bool)}
    (hends : (verifyCollectionConfig search existing).Ends (searchInterp generation uuid) w w' out) :
    w' = w := by
  obtain ⟨descriptor, hsome⟩ := Option.ne_none_iff_exists'.mp hdescriptor
  obtain ⟨-, hpure⟩ | ⟨message, hthrow⟩ := verifyCollectionConfig_of_refused h hsome
  · rw [hpure] at hends
    cases hends <;> rfl
  · rw [hthrow] at hends
    cases hends <;> rfl

end Refusal

/-! ### The widening -/

section Widening

variable {R V : Type} {env : DescriptorEnv} {reprFloat : UInt64 → String} {loads : String → JsonObject}
  {generation : Generation} {uuid : ℕ → String}

/-- The publication of a resource meets a collection of the stored configuration, and may widen it. -/
structure Widens (env : DescriptorEnv) (reprFloat : UInt64 → String) (loads : String → JsonObject)
    (search : SearchModel R V) (stored current : Stage) (c : Collection V) : Prop where
  online : search.onIndexChange = .online
  spec : search.spec = current.spec
  loadsCurrent : loads search.spec.descriptor = (current.descriptor reprFloat).members
  loadsStored : ∃ descriptor, c.descriptor = some descriptor ∧ descriptor ≠ search.spec.descriptor ∧
    loads descriptor = (stored.descriptor reprFloat).members
  follows : stored.Follows env reprFloat current
  matchesStored : schemaMatchesByName c.schema stored.spec.arrowSchema = true

/-- The collection is widened, and the schema check on it passes. -/
theorem Widens.checkCollection {search : SearchModel R V} {stored current : Stage} {c : Collection V}
    (h : Widens env reprFloat loads search stored current c) {s : SearchData V} {db : ServingDb}
    (hc : s.collection = some c) :
    ∃ c', evolveTo search.spec c = .ok c' ∧
      (checkCollection (search.classified env loads) (some (c.metadata generation))).exec
        (searchInterp generation uuid) (s, db) = (({ s with collection := some c' }, db), .ok ()) := by
  obtain ⟨descriptor, hdescriptor, hne, hstored⟩ := h.loadsStored
  obtain ⟨c', hevolve, hmatches⟩ := h.follows.evolveTo h.matchesStored
  rw [← h.spec] at hevolve hmatches
  obtain ⟨changes, hchanges, hnone⟩ := h.follows.1
  refine ⟨c', hevolve, ?_⟩
  have hdescribed : (describedChanges env loads descriptor search.spec.descriptor).1 = false := by
    unfold describedChanges
    rw [hstored, h.loadsCurrent, hchanges]
    exact decide_eq_false (not_not.mpr hnone)
  have hverify : verifyCollectionConfig (search.classified env loads) (c.metadata generation) =
      data (.evolveCollection search.spec ((search.spec.arrowSchema.map Prod.fst).filter
        (· ∉ c.schema.map Prod.fst))) >>= fun _ => .pure true := by
    unfold verifyCollectionConfig
    rw [show (c.metadata generation).descriptor = some descriptor from hdescriptor]
    refine (if_neg hne).trans ((if_neg ?_).trans (if_pos h.online))
    exact Bool.eq_false_iff.mp hdescribed
  have hstep : searchInterp generation uuid (.inl (.evolveCollection search.spec
      ((search.spec.arrowSchema.map Prod.fst).filter (· ∉ c.schema.map Prod.fst)))) (s, db) =
      (({ s with collection := some c' }, db), .ok ()) := by
    have hexec : DataOp.exec generation (.evolveCollection search.spec
        ((search.spec.arrowSchema.map Prod.fst).filter (· ∉ c.schema.map Prod.fst))) s =
        ({ s with collection := some c' }, .ok ()) := by
      unfold evolveTo at hevolve
      simp only [DataOp.exec, withCollection, hc, hevolve, Except.map]
    simp only [Interp.sum, hexec]
  have hvalid : validateCollectionSchema (search.classified env loads) (c'.metadata generation) =
      .ok () := if_pos hmatches
  have hinspect : searchInterp generation uuid (.inl .inspectCollection)
      ({ s with collection := some c' }, db) =
      (({ s with collection := some c' }, db), .ok (some (c'.metadata generation))) := rfl
  unfold Search.checkCollection
  dsimp only
  rw [hverify]
  simp only [data, Prog.call_bind, Prog.pure_bind]
  rw [Prog.exec_call_ok _ hstep]
  rw [if_pos trivial, Prog.exec_call_ok _ hinspect]
  simp only [Option.getD_some, hvalid]
  rfl

/-- A configuration that displays these fields. -/
def displaying (displayFields : List String) : SearchConfig where
  idField := "id"
  textFields := ["body"]
  displayFields := displayFields
  modes := [.text]

/-- The relation of the configurations that display fields. -/
def displayed : List (String × String) :=
  [("id", "string"), ("document_id", "string"), ("body", "string"), ("title", "string"),
    ("author", "string")]

/-- The publication of such a configuration. -/
def displayStage (displayFields : List String)
    (h : ∀ name ∈ (displaying displayFields).projectedFields, name ∈ displayed.map Prod.fst) :
    Stage where
  modelName := "docs"
  store := ⟨"lancedb", "1"⟩
  config := displaying displayFields
  identity := none
  upstream := displayed
  spec := ⟨"docs", "", "", "", (displaying displayFields).projectedFields.map fun name =>
    (name, (displaying displayFields).columnType displayed name)⟩
  declared := by
    refine if_neg (not_not.mpr (List.filter_eq_nil_iff.mpr fun name hname => ?_))
    rw [decide_eq_true_iff, not_not]
    exact h name hname

end Widening

end Stel.Search
