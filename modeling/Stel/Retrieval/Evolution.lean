import Stel.Data.JsonEquality
import Stel.Failure
import Mathlib.Data.List.Dedup
import Mathlib.Data.List.Sort

/-!
# Classified changes of a search configuration

`retrieval/evolution.py`: the descriptor that is stored beside a collection is compared field by field
with the current one, and every change is classified as one that the collection can serve or as one
that requires a rebuild.

## Main definitions

* `ConfigChange`, `classifyChanges`, `classifyDescriptorChanges`, `rebuildRequired`.
* `Descriptor`: a descriptor of the shape that a configuration dumps.
* `Descriptor.Serves`: no change requires a rebuild.
* `Descriptor.Kept`: what a configuration that a collection can serve keeps.

## Main results

* `Descriptor.serves_iff`: no change requires a rebuild exactly if everything is kept.
* `Descriptor.Serves.trans`: the relation is transitive.
-/

namespace Stel.Retrieval

open JsonValue

/-- `NON_SEMANTIC_FIELDS`. -/
def nonSemanticFields : List String := ["batch_size", "index_options", "on_index_change"]

/-- `ROUTING_FIELDS`. -/
def routingFields : List String := ["store", "collection"]

/-- `_ADDITIVE_FIELDS`. -/
def additiveFields : List String := ["display_fields", "return_text_fields"]

/-- `_CONTRACT_FIELDS`. -/
def contractFields : List String := ["contract_version", "store_type", "store_implementation"]

/-- `ChangeKind`. -/
inductive ChangeKind
  | compatible
  | rebuildRequired
  deriving DecidableEq, Repr

/-- `ConfigChange`. -/
structure ConfigChange where
  field : String
  kind : ChangeKind
  detail : String
  deriving DecidableEq, Repr

/-- `describe`. -/
def ConfigChange.describe (change : ConfigChange) : String := change.field ++ ": " ++ change.detail

/-- What the classification uses of the language: the numbers of floats, and `repr`. -/
structure DescriptorEnv where
  floats : Floats
  repr : JsonValue → String

/-- A JSON object, read as a dict. -/
abbrev JsonObject : Type := List (String × JsonValue)

/-- `fields.get(name)`. -/
def JsonObject.get (fields : JsonObject) (name : String) : JsonValue := (fields.lookup name).getD .null

/-! ### The three rules -/

section Rules

variable (env : DescriptorEnv)

/-- A value where the configuration has another type. -/
def unexpected {α : Type} : Except Failure α := .error (.other "TypeError")

/-- `sorted(names)` of a set, printed. -/
def printSorted (names : List String) : String :=
  env.repr (.array ((names.dedup.insertionSort (· ≤ ·)).map .string))

/-- An item of a field of names. -/
def nameOf : JsonValue → Except Failure String
  | .string name => .ok name
  | _ => unexpected

/-- `tuple(value or ())`, for a field that a configuration declares as a tuple of names. -/
def namesOf : JsonValue → Except Failure (List String)
  | .null => .ok []
  | .array items => items.mapM nameOf
  | _ => unexpected

/-- `_classify_projection`. -/
def classifyProjection (field : String) (before after : JsonValue) : Except Failure ConfigChange := do
  let old ← namesOf before
  let new ← namesOf after
  if ∀ name ∈ old, name ∈ new then
    return ⟨field, .compatible,
      "added " ++ printSorted env (new.filter (· ∉ old)) ++ " — projection only"⟩
  else
    return ⟨field, .rebuildRequired, "dropped " ++ printSorted env (old.filter (· ∉ new))⟩

/-- `(item["name"], item)`. -/
def attributeOf : JsonValue → Except Failure (String × JsonValue)
  | .object members =>
    match members.lookup "name" with
    | some (.string name) => .ok (name, .object members)
    | _ => unexpected
  | _ => unexpected

/-- `[(item["name"], item) for item in (value or ())]`. -/
def attributesOf : JsonValue → Except Failure JsonObject
  | .null => .ok []
  | .array items => items.mapM attributeOf
  | _ => unexpected

/-- The definition of a name in a dict made of such a list: the last one. -/
def definition (attributes : JsonObject) (name : String) : Option JsonValue :=
  attributes.reverse.lookup name

/-- The two dicts define the name alike. -/
def sameDefinition (old new : JsonObject) (name : String) : Bool :=
  match definition old name, definition new name with
  | some x, some y => pyEq env.floats x y
  | _, _ => false

/-- `_classify_attributes`. -/
def classifyAttributes (before after : JsonValue) : Except Failure ConfigChange := do
  let old ← attributesOf before
  let new ← attributesOf after
  let oldNames := old.map Prod.fst
  let newNames := new.map Prod.fst
  let removed := oldNames.filter (· ∉ newNames)
  let redefined := oldNames.filter fun name => ¬ sameDefinition env old new name
  if removed ≠ [] then
    return ⟨"attributes", .rebuildRequired, "removed " ++ printSorted env removed⟩
  else if redefined ≠ [] then
    return ⟨"attributes", .rebuildRequired, "redefined " ++ printSorted env redefined ++
      " — rows already written carry the old type or filter role"⟩
  else
    return ⟨"attributes", .compatible,
      "added " ++ printSorted env (newNames.filter (· ∉ oldNames))⟩

/-- The classification of one changed field. -/
def classifyField (field : String) (before after : JsonValue) : Except Failure ConfigChange :=
  if field = "attributes" then classifyAttributes env before after
  else if field ∈ additiveFields then classifyProjection env field before after
  else .ok ⟨field, .rebuildRequired,
    "changed from " ++ env.repr before ++ " to " ++ env.repr after⟩

/-- The fields that are not equal in the two, in order. -/
def changedFields (stored current : JsonObject) : List String :=
  (((stored ++ current).map Prod.fst).dedup.insertionSort (· ≤ ·)).filter fun field =>
    ¬ pyEq env.floats (stored.get field) (current.get field)

/-- `classify_changes`. -/
def classifyChanges (stored current : JsonObject) : Except Failure (List ConfigChange) :=
  (changedFields env stored current).mapM fun field =>
    classifyField env field (stored.get field) (current.get field)

/-- `rebuild_required`. -/
def rebuildRequired (changes : List ConfigChange) : List ConfigChange :=
  changes.filter (·.kind = .rebuildRequired)

/-- The changed contract fields. -/
def contractChanges (stored current : JsonObject) : List ConfigChange :=
  (contractFields.filter fun field =>
    ¬ pyEq env.floats (stored.get field) (current.get field)).map fun field =>
      ⟨field, .rebuildRequired,
        "changed from " ++ env.repr (stored.get field) ++ " to " ++ env.repr (current.get field)⟩

/-- `descriptor.get("search", {})`. -/
def searchOf (descriptor : JsonObject) : Except Failure JsonObject :=
  match descriptor.lookup "search" with
  | none => .ok []
  | some (.object fields) => .ok fields
  | some _ => unexpected

/-- `classify_descriptor_changes`. -/
def classifyDescriptorChanges (stored current : JsonObject) : Except Failure (List ConfigChange) := do
  let storedSearch ← searchOf stored
  let currentSearch ← searchOf current
  let changes ← classifyChanges env storedSearch currentSearch
  return contractChanges env stored current ++ changes

end Rules

/-! ### Values that are equal -/

variable {env : DescriptorEnv}

theorem forall₂_mapM {β : Type} {f : JsonValue → Except Failure β} {R : β → β → Prop}
    (hf : ∀ x y a b, pyEq env.floats x y = true → f x = .ok a → f y = .ok b → R a b)
    {xs ys : List JsonValue} {as bs : List β} (h : itemsEq env.floats xs ys = true)
    (hxs : xs.mapM f = .ok as) (hys : ys.mapM f = .ok bs) : List.Forall₂ R as bs := by
  rw [itemsEq_iff] at h
  rw [mapM_eq_ok] at hxs hys
  induction h generalizing as bs with
  | nil =>
    cases hxs
    cases hys
    exact .nil
  | @cons x y xs ys hxy _ ih =>
    obtain ⟨a, as, ha, hrest, rfl⟩ := List.forall₂_cons_left_iff.mp hxs
    obtain ⟨b, bs, hb, hrest', rfl⟩ := List.forall₂_cons_left_iff.mp hys
    exact .cons (hf x y a b hxy ha hb) (ih hrest hrest')

theorem namesOf_of_pyEq {x y : JsonValue} {old new : List String}
    (h : pyEq env.floats x y = true) (hold : namesOf x = .ok old) (hnew : namesOf y = .ok new) :
    old = new := by
  cases x with
  | null =>
    rw [pyEq_null] at h
    rw [h, hold] at hnew
    exact Except.ok.inj hnew
  | array xs =>
    obtain ⟨ys, rfl, hitems⟩ := pyEq_array.mp h
    rw [← List.forall₂_eq_eq_eq]
    refine forall₂_mapM (fun x y a b hxy ha hb => ?_) hitems hold hnew
    cases x <;> cases ha
    rw [pyEq_string] at hxy
    rw [hxy] at hb
    exact Except.ok.inj hb
  | _ => cases hold

/-- Equal lists of attributes have equal definitions of the same names, in the same order. -/
theorem attributesOf_of_pyEq {x y : JsonValue} {old new : JsonObject}
    (h : pyEq env.floats x y = true) (hold : attributesOf x = .ok old)
    (hnew : attributesOf y = .ok new) :
    List.Forall₂ (fun a b => a.1 = b.1 ∧ pyEq env.floats a.2 b.2 = true) old new := by
  cases x with
  | null =>
    rw [pyEq_null] at h
    rw [h, hold] at hnew
    cases hold
    cases hnew
    exact .nil
  | array xs =>
    obtain ⟨ys, rfl, hitems⟩ := pyEq_array.mp h
    refine forall₂_mapM (fun x y a b hxy ha hb => ?_) hitems hold hnew
    cases x with
    | object ms =>
      obtain ⟨ns, rfl, hlength, hmembers⟩ := pyEq_object.mp hxy
      simp only [attributeOf] at ha hb
      split at ha
      · rename_i name hname
        obtain ⟨z, hz, hnz⟩ := membersEq_iff.mp hmembers _ (mem_of_lookup hname)
        rw [pyEq_string] at hnz
        rw [hz, hnz] at hb
        cases ha
        cases hb
        exact ⟨rfl, hxy⟩
      · cases ha
    | _ => cases ha
  | _ => cases hold

theorem lookup_of_forall₂ {old new : JsonObject}
    (h : List.Forall₂ (fun a b => a.1 = b.1 ∧ pyEq env.floats a.2 b.2 = true) old new)
    {name : String} (hname : name ∈ old.map Prod.fst) :
    ∃ x y, old.lookup name = some x ∧ new.lookup name = some y ∧ pyEq env.floats x y = true := by
  induction h with
  | nil => cases hname
  | @cons a b old new hab _ ih =>
    obtain ⟨k, x⟩ := a
    obtain ⟨l, y⟩ := b
    obtain ⟨rfl, hxy⟩ := hab
    by_cases hk : name = k
    · subst hk
      exact ⟨x, y, List.lookup_cons_self, List.lookup_cons_self, hxy⟩
    · rw [List.lookup_cons, List.lookup_cons, beq_eq_false_iff_ne.mpr hk]
      exact ih ((List.mem_cons.mp hname).resolve_left hk)

theorem sameDefinition_iff {old new : JsonObject} {name : String} :
    sameDefinition env old new name = true ↔ ∃ x y, definition old name = some x ∧
      definition new name = some y ∧ pyEq env.floats x y = true := by
  unfold sameDefinition
  cases definition old name <;> cases definition new name <;> simp

/-- Equal lists of attributes define every name alike. -/
theorem sameDefinition_of_pyEq {x y : JsonValue} {old new : JsonObject}
    (h : pyEq env.floats x y = true) (hold : attributesOf x = .ok old)
    (hnew : attributesOf y = .ok new) {name : String} (hname : name ∈ old.map Prod.fst) :
    sameDefinition env old new name = true := by
  refine sameDefinition_iff.mpr (lookup_of_forall₂ ?_ ?_)
  · exact List.rel_reverse (attributesOf_of_pyEq h hold hnew)
  · rwa [List.map_reverse, List.mem_reverse]

/-! ### Descriptors -/

/-- The members have the shape that `collection_descriptor` gives them. -/
def Shaped (members : JsonObject) : Prop :=
  ∃ search, searchOf members = .ok search ∧
    (∃ attributes, attributesOf (search.get "attributes") = .ok attributes) ∧
    ∀ field ∈ additiveFields, ∃ names, namesOf (search.get field) = .ok names

/-- A descriptor. -/
structure Descriptor where
  members : JsonObject
  shaped : Shaped members

namespace Descriptor

/-- The search fields. -/
def search (d : Descriptor) : JsonObject := (searchOf d.members).toOption.getD []

/-- The attributes by name. -/
def attributes (d : Descriptor) : JsonObject :=
  (attributesOf (d.search.get "attributes")).toOption.getD []

/-- The names of an additive field. -/
def projection (d : Descriptor) (field : String) : List String :=
  (namesOf (d.search.get field)).toOption.getD []

theorem searchOf_eq (d : Descriptor) : searchOf d.members = .ok d.search := by
  obtain ⟨search, hsearch, -⟩ := d.shaped
  rw [Descriptor.search, hsearch]
  rfl

theorem attributesOf_eq (d : Descriptor) :
    attributesOf (d.search.get "attributes") = .ok d.attributes := by
  obtain ⟨search, hsearch, ⟨attributes, hattributes⟩, -⟩ := d.shaped
  have heq : d.search = search := Except.ok.inj (d.searchOf_eq.symm.trans hsearch)
  rw [Descriptor.attributes, heq, hattributes]
  rfl

theorem namesOf_eq (d : Descriptor) {field : String} (h : field ∈ additiveFields) :
    namesOf (d.search.get field) = .ok (d.projection field) := by
  obtain ⟨search, hsearch, -, hnames⟩ := d.shaped
  have heq : d.search = search := Except.ok.inj (d.searchOf_eq.symm.trans hsearch)
  obtain ⟨names, hnames⟩ := hnames field h
  rw [Descriptor.projection, heq, hnames]
  rfl

variable (env)

/-- The collection of the stored descriptor can serve the current one: some changes are classified,
and none requires a rebuild. -/
def Serves (stored current : Descriptor) : Prop :=
  ∃ changes, classifyDescriptorChanges env stored.members current.members = .ok changes ∧
    rebuildRequired changes = []

/-- What is kept: the contract fields and the fields that are not additive are equal, an absent one
being null; every attribute is still declared with an equal definition, and every name of an additive
field is still declared. -/
structure Kept (stored current : Descriptor) : Prop where
  contract : ∀ field ∈ contractFields,
    pyEq env.floats (stored.members.get field) (current.members.get field) = true
  fields : ∀ field, field ≠ "attributes" → field ∉ additiveFields →
    pyEq env.floats (stored.search.get field) (current.search.get field) = true
  attributes : ∀ name ∈ stored.attributes.map Prod.fst,
    sameDefinition env stored.attributes current.attributes name = true
  projections : ∀ field ∈ additiveFields, ∀ name ∈ stored.projection field,
    name ∈ current.projection field

/-- The field is kept. -/
def FieldKept (stored current : Descriptor) (field : String) : Prop :=
  if field = "attributes" then
    ∀ name ∈ stored.attributes.map Prod.fst,
      sameDefinition env stored.attributes current.attributes name = true
  else if field ∈ additiveFields then
    ∀ name ∈ stored.projection field, name ∈ current.projection field
  else False

variable {env} {stored current : Descriptor}

theorem sameDefinition_mem {old new : JsonObject} {name : String}
    (h : sameDefinition env old new name = true) : name ∈ new.map Prod.fst := by
  obtain ⟨x, y, -, hy, -⟩ := sameDefinition_iff.mp h
  have hmem := List.mem_reverse.mp (mem_of_lookup hy)
  exact List.mem_map.mpr ⟨_, hmem, rfl⟩

variable (env stored current) in
/-- The classification of one field. -/
theorem exists_classifyField (field : String) :
    ∃ change, classifyField env field (stored.search.get field) (current.search.get field) =
        .ok change ∧
      (change.kind = .compatible ↔ FieldKept env stored current field) := by
  unfold classifyField FieldKept
  split
  · rename_i hfield
    subst hfield
    have hremoved : ∀ names : List String, (names.filter (· ∉ current.attributes.map Prod.fst) = [] ↔
        ∀ name ∈ names, name ∈ current.attributes.map Prod.fst) := by
      intro names
      simp [List.filter_eq_nil_iff]
    have hredefined : ((stored.attributes.map Prod.fst).filter fun name =>
        ¬ sameDefinition env stored.attributes current.attributes name) = [] ↔
        ∀ name ∈ stored.attributes.map Prod.fst,
          sameDefinition env stored.attributes current.attributes name = true := by
      simp [List.filter_eq_nil_iff]
    unfold classifyAttributes
    rw [attributesOf_eq, attributesOf_eq]
    simp only [bind, Except.bind, pure, Except.pure]
    split
    · rename_i hne
      rw [Ne, hremoved] at hne
      exact ⟨_, rfl, iff_of_false (by simp) fun h => hne fun name hname =>
        sameDefinition_mem (h name hname)⟩
    · split
      · rename_i hne
        rw [Ne, hredefined] at hne
        exact ⟨_, rfl, iff_of_false (by simp) hne⟩
      · rename_i hnil
        exact ⟨_, rfl, iff_of_true rfl (hredefined.mp (not_not.mp hnil))⟩
  split
  · rename_i hadditive
    unfold classifyProjection
    rw [namesOf_eq _ hadditive, namesOf_eq _ hadditive]
    simp only [bind, Except.bind, pure, Except.pure]
    split
    · rename_i hall
      exact ⟨_, rfl, iff_of_true rfl hall⟩
    · rename_i hnot
      exact ⟨_, rfl, iff_of_false (by simp) hnot⟩
  · exact ⟨_, rfl, iff_of_false (by simp) id⟩

theorem get_of_notMem {fields : JsonObject} {name : String} (h : name ∉ fields.map Prod.fst) :
    fields.get name = .null := by
  cases hlookup : fields.lookup name with
  | none => rw [JsonObject.get, hlookup, Option.getD_none]
  | some x => exact absurd (List.mem_map.mpr ⟨_, mem_of_lookup hlookup, rfl⟩) h

theorem mem_changedFields {stored current : JsonObject} {field : String} :
    field ∈ changedFields env stored current ↔
      ¬ pyEq env.floats (stored.get field) (current.get field) = true := by
  simp only [changedFields, List.mem_filter, List.mem_insertionSort, List.mem_dedup,
    decide_eq_true_iff]
  refine and_iff_right_of_imp fun hne => ?_
  by_contra hout
  rw [List.map_append, List.mem_append, not_or] at hout
  rw [get_of_notMem hout.1, get_of_notMem hout.2] at hne
  exact hne (pyEq_null.mpr rfl)

theorem rebuildRequired_eq_nil {changes : List ConfigChange} :
    rebuildRequired changes = [] ↔ ∀ change ∈ changes, change.kind = .compatible := by
  rw [rebuildRequired, List.filter_eq_nil_iff]
  refine forall₂_congr fun change _ => ?_
  cases change.kind <;> simp

variable (env) in
/-- Whether the collection can serve the current descriptor, field by field. -/
theorem exists_classifyDescriptorChanges (stored current : Descriptor) :
    ∃ changes, classifyDescriptorChanges env stored.members current.members = .ok changes ∧
      (rebuildRequired changes = [] ↔
        (∀ field ∈ contractFields,
          pyEq env.floats (stored.members.get field) (current.members.get field) = true) ∧
        ∀ field, ¬ pyEq env.floats (stored.search.get field) (current.search.get field) = true →
          FieldKept env stored current field) := by
  obtain ⟨changes, hchanges⟩ : ∃ changes,
      classifyChanges env stored.search current.search = .ok changes :=
    exists_mapM_eq_ok fun field _ =>
      (exists_classifyField env _ _ field).imp fun change hchange => hchange.1
  have hkinds : (∀ change ∈ changes, change.kind = .compatible) ↔
      ∀ field ∈ changedFields env stored.search current.search,
        FieldKept env stored current field := by
    have hpairs := mapM_eq_ok.mp hchanges
    generalize changedFields env stored.search current.search = fields at hpairs
    clear hchanges
    induction hpairs with
    | nil => simp
    | @cons field change fields changes hfield _ ih =>
      obtain ⟨change', hchange', hkind⟩ := exists_classifyField env stored current field
      rw [hfield] at hchange'
      obtain rfl := Except.ok.inj hchange'
      rw [List.forall_mem_cons, List.forall_mem_cons]
      exact and_congr hkind ih
  have hcontract : (∀ change ∈ contractChanges env stored.members current.members,
      change.kind = .compatible) ↔ ∀ field ∈ contractFields,
        pyEq env.floats (stored.members.get field) (current.members.get field) = true := by
    simp only [contractChanges, List.forall_mem_map, List.mem_filter]
    refine ⟨fun h field hfield => ?_, fun h field hfield => ?_⟩
    · by_contra hne
      exact absurd (h field ⟨hfield, decide_eq_true hne⟩) (by simp)
    · exact absurd (h field hfield.1) (of_decide_eq_true hfield.2)
  refine ⟨contractChanges env stored.members current.members ++ changes, ?_, ?_⟩
  · unfold classifyDescriptorChanges
    rw [searchOf_eq, searchOf_eq]
    simp only [bind, Except.bind, hchanges]
    rfl
  · rw [rebuildRequired_eq_nil, List.forall_mem_append, hcontract, hkinds]
    simp only [mem_changedFields]

/-- **What a collection can serve.** No change requires a rebuild exactly if everything is kept. -/
theorem serves_iff : Serves env stored current ↔ Kept env stored current := by
  obtain ⟨changes, hchanges, hiff⟩ := exists_classifyDescriptorChanges env stored current
  have hserves : Serves env stored current ↔ rebuildRequired changes = [] := by
    constructor
    · rintro ⟨other, hother, hnil⟩
      rw [hchanges] at hother
      rwa [Except.ok.inj hother]
    · intro hnil
      exact ⟨changes, hchanges, hnil⟩
  rw [hserves, hiff]
  constructor
  · rintro ⟨hcontract, hfields⟩
    refine ⟨hcontract, fun field hattributes hadditive => ?_, fun name hname => ?_,
      fun field hadditive name hname => ?_⟩
    · by_contra hne
      have hkept := hfields field hne
      rwa [FieldKept, if_neg hattributes, if_neg hadditive] at hkept
    · by_cases heq : pyEq env.floats (stored.search.get "attributes")
          (current.search.get "attributes") = true
      · exact sameDefinition_of_pyEq heq stored.attributesOf_eq current.attributesOf_eq hname
      · have hkept := hfields _ heq
        rw [FieldKept, if_pos rfl] at hkept
        exact hkept name hname
    · by_cases heq : pyEq env.floats (stored.search.get field) (current.search.get field) = true
      · rwa [← namesOf_of_pyEq heq (stored.namesOf_eq hadditive) (current.namesOf_eq hadditive)]
      · have hkept := hfields _ heq
        have hne : field ≠ "attributes" := by
          rintro rfl
          revert hadditive
          decide
        rw [FieldKept, if_neg hne, if_pos hadditive] at hkept
        exact hkept name hname
  · intro h
    refine ⟨h.contract, fun field hne => ?_⟩
    unfold FieldKept
    split
    · exact h.attributes
    · rename_i hattributes
      split
      · exact h.projections field ‹_›
      · exact hne (h.fields field hattributes ‹_›)

theorem Kept.trans {a b c : Descriptor} (hab : Kept env a b) (hbc : Kept env b c) : Kept env a c where
  contract field hfield := pyEq_trans (hab.contract field hfield) (hbc.contract field hfield)
  fields field hattributes hadditive :=
    pyEq_trans (hab.fields field hattributes hadditive) (hbc.fields field hattributes hadditive)
  attributes name hname := by
    have hfirst := hab.attributes name hname
    obtain ⟨x, y, hx, hy, hxy⟩ := sameDefinition_iff.mp hfirst
    obtain ⟨y', z, hy', hz, hyz⟩ :=
      sameDefinition_iff.mp (hbc.attributes name (sameDefinition_mem hfirst))
    obtain rfl := Option.some_inj.mp (hy.symm.trans hy')
    exact sameDefinition_iff.mpr ⟨x, z, hx, hz, pyEq_trans hxy hyz⟩
  projections field hadditive name hname :=
    hbc.projections field hadditive name (hab.projections field hadditive name hname)

theorem Serves.trans {a b c : Descriptor} (hab : Serves env a b) (hbc : Serves env b c) :
    Serves env a c :=
  serves_iff.mpr ((serves_iff.mp hab).trans (serves_iff.mp hbc))

end Descriptor

end Stel.Retrieval
