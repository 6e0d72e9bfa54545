import Stel.Text.Relations
import Mathlib.Algebra.Order.Field.Rat
import Mathlib.Order.Bounds.Basic

/-!
# Relations that a model asserts

`ModelAssertionExtractor.extract` of `text/relations.py`: what an inference provider asserts of the
candidate pairs is validated, grouped by subject and object, and turned into relations. Confidences
are finite, as the driver hands them on.

## Main definitions

* `RelationAssertion`, `ModelAssertionExtractorOptions`.
* `Governed`: the assertions that are kept.
* `ModelAssertionExtractorOptions.extract`.
* `Consistent`: what the relations of a document promise.
* `BothWays`: a pair is asserted in both orientations.

## Main results

* `mem_emitted`: the relations of a list of assertions.
* `assertions_consistent_iff`: the relations are consistent exactly if the relations are directed or
  no pair is asserted in both orientations.
-/

namespace Stel.Text

/-! ### Assertions -/

/-- `RelationAssertion`. -/
structure RelationAssertion where
  subjectMentionId : String
  objectMentionId : String
  relationType : String
  confidence : ℚ
  deriving DecidableEq

/-- The subject and the object of an assertion. -/
def RelationAssertion.key (assertion : RelationAssertion) : String × String :=
  (assertion.subjectMentionId, assertion.objectMentionId)

/-- `ModelAssertionExtractorOptions`, with what its validators check. -/
structure ModelAssertionExtractorOptions extends PairingOptions where
  relationTypes : List String
  relationTypes_ne_nil : relationTypes ≠ []
  nodup_relationTypes : relationTypes.Nodup
  directed : Bool := true
  threshold : ℚ := 1 / 2
  threshold_mem : 0 ≤ threshold ∧ threshold ≤ 1

/-- `by_id`, in which the last mention with an ID wins. -/
def byId (mentions : List Mention) (mentionId : String) : Option Mention :=
  mentions.reverse.find? fun m => m.mentionId = mentionId

/-- `frozenset((subject_id, object_id)) in candidate_unordered`, for two different IDs. -/
def IsCandidate (pairs : List (Mention × Mention)) (subjectId objectId : String) : Prop :=
  ∃ p ∈ pairs, (p.1.mentionId = subjectId ∧ p.2.mentionId = objectId) ∨
    (p.1.mentionId = objectId ∧ p.2.mentionId = subjectId)

instance (pairs : List (Mention × Mention)) (subjectId objectId : String) :
    Decidable (IsCandidate pairs subjectId objectId) :=
  inferInstanceAs (Decidable (∃ p ∈ pairs, _ ∨ _))

/-- The assertions that are kept: of a candidate pair of known mentions, with an allowed type. -/
def Governed (options : ModelAssertionExtractorOptions) (mentions : List Mention)
    (pairs : List (Mention × Mention)) (assertion : RelationAssertion) : Prop :=
  ¬ (assertion.subjectMentionId = assertion.objectMentionId ∨
      byId mentions assertion.subjectMentionId = none ∨
      byId mentions assertion.objectMentionId = none) ∧
    IsCandidate pairs assertion.subjectMentionId assertion.objectMentionId ∧
    assertion.relationType ∈ options.relationTypes

instance (options : ModelAssertionExtractorOptions) (mentions : List Mention)
    (pairs : List (Mention × Mention)) (assertion : RelationAssertion) :
    Decidable (Governed options mentions pairs assertion) :=
  inferInstanceAs (Decidable (¬ _ ∧ _ ∧ _))

/-! ### The extractor -/

/-- `grouped`: the pairs in the order of their first assertions, and the best confidence of each type
that is asserted of a pair. -/
structure Grouped where
  order : List (String × String) := []
  types : Keyed (String × String) (Keyed String ℚ) := ∅

/-- The better confidence. -/
def addBest (confidence : ℚ) : Option ℚ → ℚ
  | none => confidence
  | some best => if best < confidence then confidence else best

/-- What an assertion does to the types of its pair. -/
def RelationAssertion.addTo (assertion : RelationAssertion) (types : Option (Keyed String ℚ)) :
    Keyed String ℚ :=
  (types.getD ∅).modify assertion.relationType (addBest assertion.confidence)

/-- The loop body for an assertion that is kept. -/
def Grouped.add (grouped : Grouped) (assertion : RelationAssertion) : Grouped where
  order := if assertion.key ∈ grouped.order then grouped.order
    else grouped.order ++ [assertion.key]
  types := grouped.types.modify assertion.key assertion.addTo

/-- The status of a relation. -/
def relationStatus (options : ModelAssertionExtractorOptions) (types : Keyed String ℚ)
    (confidence : ℚ) : RelationStatus :=
  if 1 < types.keys.length then .ambiguous
  else if options.threshold ≤ confidence then .asserted
  else .noRelation

/-- The relations of a subject and an object. -/
def relationsOf (options : ModelAssertionExtractorOptions) (subject obj : Mention)
    (types : Keyed String ℚ) : List Relation :=
  (types.keys.insertionSort (· ≤ ·)).map fun relationType =>
    let confidence := (types.lookup relationType).getD 0
    ⟨subject, obj, relationType, options.directed, relationStatus options types confidence,
      some confidence, sharedSentence subject obj⟩

/-- The relations of a pair. -/
def Grouped.relationsFor (options : ModelAssertionExtractorOptions) (mentions : List Mention)
    (grouped : Grouped) (key : String × String) : List Relation :=
  match byId mentions key.1, byId mentions key.2 with
  | some subject, some obj =>
    relationsOf options subject obj ((grouped.types.lookup key).getD ∅)
  | _, _ => []

/-- The relations of the assertions that are kept. -/
def Grouped.relations (options : ModelAssertionExtractorOptions) (mentions : List Mention)
    (grouped : Grouped) : List Relation :=
  grouped.order.flatMap (grouped.relationsFor options mentions)

/-- `ModelAssertionExtractor.extract`. -/
def ModelAssertionExtractorOptions.extract (options : ModelAssertionExtractorOptions)
    (mentions : List Mention)
    (infer : List (Mention × Mention) → Except Failure (List RelationAssertion)) :
    Except Failure (List Relation) :=
  if mentions.length < 2 then .ok []
  else do
    let pairs ← options.pairs mentions
    if pairs = [] then .ok []
    else do
      let assertions ← infer pairs
      let kept := assertions.filter fun a => Governed options mentions pairs a
      return (kept.foldl Grouped.add {}).relations options mentions

/-! ### What the relations promise -/

/-- The candidate pairs of a document, unless there are too many. -/
def candidatesOf (options : ModelAssertionExtractorOptions) (mentions : List Mention) :
    List (Mention × Mention) :=
  match options.pairs mentions with
  | .ok pairs => pairs
  | .error _ => []

/-- The assertions that are kept. -/
def governed (options : ModelAssertionExtractorOptions) (mentions : List Mention)
    (assertions : List RelationAssertion) : List RelationAssertion :=
  assertions.filter fun a => Governed options mentions (candidatesOf options mentions) a

/-- An assertion is about the pair of a relation: with the same subject and object or, where relations
have no direction, also the other way around. -/
def SamePair (options : ModelAssertionExtractorOptions) (a : RelationAssertion) (r : Relation) : Prop :=
  (a.subjectMentionId = r.subject.mentionId ∧ a.objectMentionId = r.object.mentionId) ∨
    (options.directed = false ∧ a.subjectMentionId = r.object.mentionId ∧
      a.objectMentionId = r.subject.mentionId)

/-- The relations that a document's assertions lead to join candidate pairs with allowed types, each
once. Every pair that is asserted is emitted with its types: as ambiguous if there are several, and
otherwise as asserted if the best confidence reaches the threshold. The order of the assertions does
not matter, and relations without direction have one orientation for a pair. -/
structure Consistent (options : ModelAssertionExtractorOptions) (mentions : List Mention)
    (assertions : List RelationAssertion) (relations : List Relation) : Prop where
  allowed : ∀ r ∈ relations, r.relationType ∈ options.relationTypes
  candidate : ∀ r ∈ relations, r.subject ∈ mentions ∧ r.object ∈ mentions ∧
    IsCandidate (candidatesOf options mentions) r.subject.mentionId r.object.mentionId
  nodup : (relations.map Relation.key).Nodup
  emitted : ∀ a ∈ governed options mentions assertions, ∃ r ∈ relations,
    SamePair options a r ∧ r.relationType = a.relationType
  ambiguous : ∀ r ∈ relations, (∃ a ∈ governed options mentions assertions,
    SamePair options a r ∧ a.relationType ≠ r.relationType) → r.status = .ambiguous
  single : ∀ r ∈ relations, (∀ a ∈ governed options mentions assertions,
    SamePair options a r → a.relationType = r.relationType) →
      ∃ best, IsGreatest {c | ∃ a ∈ governed options mentions assertions, SamePair options a r ∧
        a.confidence = c} best ∧ r.confidence = some best ∧
        r.status = if options.threshold ≤ best then .asserted else .noRelation
  order : ∀ assertions' relations', assertions'.Perm assertions →
    options.extract mentions (fun _ => .ok assertions') = .ok relations' →
      ∀ r, r ∈ relations' ↔ r ∈ relations
  orientation : options.directed = false → ∀ r ∈ relations, ∀ r' ∈ relations,
    ¬ (r.subject.mentionId = r'.object.mentionId ∧ r.object.mentionId = r'.subject.mentionId)

/-- Some pair is asserted in both orientations. -/
def BothWays (options : ModelAssertionExtractorOptions) (mentions : List Mention)
    (assertions : List RelationAssertion) : Prop :=
  ∃ a ∈ governed options mentions assertions, ∃ b ∈ governed options mentions assertions,
    a.subjectMentionId = b.objectMentionId ∧ a.objectMentionId = b.subjectMentionId

/-! ### Grouping -/

/-- The confidences with which a type is asserted of a pair. -/
def confidences (kept : List RelationAssertion) (key : String × String) (relationType : String) :
    List ℚ :=
  (kept.filter fun a => a.key = key ∧ a.relationType = relationType).map RelationAssertion.confidence

theorem mem_confidences {kept : List RelationAssertion} {key : String × String}
    {relationType : String} {c : ℚ} : c ∈ confidences kept key relationType ↔
      ∃ a ∈ kept, a.key = key ∧ a.relationType = relationType ∧ a.confidence = c := by
  simp only [confidences, List.mem_map, List.mem_filter, decide_eq_true_eq, and_assoc]

/-- The best confidence of some assertions. -/
theorem foldl_addBest (kept : List RelationAssertion) :
    kept.foldl (fun old a => some (addBest a.confidence old)) none =
      (kept.map RelationAssertion.confidence).max? := by
  have hsome : ∀ (kept : List RelationAssertion) (best : ℚ),
      kept.foldl (fun old a => some (addBest a.confidence old)) (some best) =
        some ((kept.map RelationAssertion.confidence).foldl max best) := by
    intro kept
    induction kept with
    | nil => exact fun _ => rfl
    | cons a kept ih =>
      intro best
      have hbest : addBest a.confidence (some best) = max best a.confidence :=
        (max_def_lt best a.confidence).symm
      rw [List.foldl_cons, List.map_cons, List.foldl_cons, ih, hbest]
  cases kept with
  | nil => rfl
  | cons a kept =>
    rw [List.foldl_cons, hsome]
    rfl

theorem foldl_getD {A B : Type} (f : A → B → B) (d : B) (xs : List A) (start : Option B) :
    (xs.foldl (fun old x => some (f x (old.getD d))) start).getD d =
      xs.foldl (fun t x => f x t) (start.getD d) := by
  induction xs generalizing start with
  | nil => rfl
  | cons x xs ih =>
    rw [List.foldl_cons, ih]
    rfl

/-- The types of a pair with their best confidences. -/
theorem lookup_types (kept : List RelationAssertion) (key : String × String) (relationType : String) :
    ((((kept.foldl Grouped.add {}).types.lookup key).getD ∅).lookup relationType) =
      (confidences kept key relationType).max? := by
  have htypes : (kept.foldl Grouped.add {}).types =
      kept.foldl (fun t a => t.modify a.key a.addTo) ∅ :=
    (List.foldl_hom Grouped.types fun _ _ => rfl).symm
  have hpair : (((kept.foldl Grouped.add {}).types.lookup key).getD ∅) =
      (kept.filter fun a => a.key = key).foldl
        (fun t a => t.modify a.relationType (addBest a.confidence)) ∅ := by
    rw [htypes, Keyed.lookup_foldl_modify RelationAssertion.key RelationAssertion.addTo,
      AList.lookup_empty]
    exact foldl_getD (fun (a : RelationAssertion) (t : Keyed String ℚ) =>
      t.modify a.relationType (addBest a.confidence)) ∅ _ none
  rw [hpair, Keyed.lookup_foldl_modify RelationAssertion.relationType
    (fun a => addBest a.confidence), AList.lookup_empty, foldl_addBest, List.filter_filter, confidences]
  congr 2
  refine List.filter_congr fun a _ => ?_
  rw [Bool.decide_and, Bool.and_comm]

theorem mem_order {kept : List RelationAssertion} {key : String × String} :
    key ∈ (kept.foldl Grouped.add {}).order ↔ ∃ a ∈ kept, a.key = key := by
  have hfold : ∀ (kept : List RelationAssertion) (grouped : Grouped),
      key ∈ (kept.foldl Grouped.add grouped).order ↔
        key ∈ grouped.order ∨ ∃ a ∈ kept, a.key = key := by
    intro kept
    induction kept with
    | nil => simp
    | cons a kept ih =>
      intro grouped
      have hadd : key ∈ (grouped.add a).order ↔ key ∈ grouped.order ∨ a.key = key := by
        rw [Grouped.add]
        split_ifs with hmem
        · exact ⟨.inl, fun h => h.elim id fun h => h ▸ hmem⟩
        · simp [eq_comm]
      rw [List.foldl_cons, ih, hadd, List.exists_mem_cons_iff, or_assoc]
  rw [hfold]
  simp

theorem nodup_order (kept : List RelationAssertion) : (kept.foldl Grouped.add {}).order.Nodup := by
  have hfold : ∀ (kept : List RelationAssertion) (grouped : Grouped), grouped.order.Nodup →
      (kept.foldl Grouped.add grouped).order.Nodup := by
    intro kept
    induction kept with
    | nil => exact fun _ h => h
    | cons a kept ih =>
      intro grouped h
      refine ih _ ?_
      rw [Grouped.add]
      split_ifs with hmem
      · exact h
      · exact List.nodup_append'.mpr ⟨h, List.nodup_singleton _, by simpa using hmem⟩
  exact hfold kept {} List.nodup_nil

/-- A pair has several types if another one than a given one is asserted of it. -/
theorem one_lt_length_keys {types : Keyed String ℚ} {relationType : String}
    (h : relationType ∈ types.keys) :
    1 < types.keys.length ↔ ∃ other ∈ types.keys, other ≠ relationType := by
  constructor
  · intro hlength
    by_contra hnone
    push Not at hnone
    have hsub : types.keys.Subperm [relationType] :=
      types.keys_nodup.subperm fun t ht => List.mem_singleton.mpr (hnone t ht)
    have hle := hsub.length_le
    rw [List.length_singleton] at hle
    omega
  · rintro ⟨other, hother, hne⟩
    have hsub : [other, relationType].Subperm types.keys := by
      refine List.Nodup.subperm (by simpa using hne) fun t ht => ?_
      rcases List.mem_cons.mp ht with rfl | ht
      · exact hother
      · exact List.mem_singleton.mp ht ▸ h
    exact hsub.length_le

/-! ### The relations of the assertions -/

/-- The status of a relation, in terms of the assertions that are kept. -/
def statusAmong (options : ModelAssertionExtractorOptions) (kept : List RelationAssertion)
    (key : String × String) (relationType : String) (best : ℚ) : RelationStatus :=
  if ∃ a ∈ kept, a.key = key ∧ a.relationType ≠ relationType then .ambiguous
  else if options.threshold ≤ best then .asserted
  else .noRelation

theorem max?_eq_some {cs : List ℚ} {best : ℚ} : cs.max? = some best ↔ IsGreatest {c | c ∈ cs} best := by
  rw [List.max?_eq_some_iff]
  rfl

variable {options : ModelAssertionExtractorOptions} {mentions : List Mention}

/-- The types that are asserted of a pair. -/
theorem mem_keys_types {kept : List RelationAssertion} {key : String × String}
    {relationType : String} :
    relationType ∈ (((kept.foldl Grouped.add {}).types.lookup key).getD ∅).keys ↔
      ∃ a ∈ kept, a.key = key ∧ a.relationType = relationType := by
  rw [Keyed.mem_iff_isSome, lookup_types, Option.isSome_iff_ne_none, ne_eq, List.max?_eq_none_iff,
    confidences, List.map_eq_nil_iff, List.filter_eq_nil_iff]
  simp

theorem Grouped.mem_relationsFor {grouped : Grouped} {key : String × String} {r : Relation} :
    r ∈ grouped.relationsFor options mentions key ↔
      ∃ subject obj, byId mentions key.1 = some subject ∧ byId mentions key.2 = some obj ∧
        r ∈ relationsOf options subject obj ((grouped.types.lookup key).getD ∅) := by
  rw [relationsFor]
  cases byId mentions key.1 with
  | none => simp
  | some subject =>
    cases byId mentions key.2 with
    | none => simp
    | some obj => simp

/-- The relations of a list of assertions that are kept. -/
theorem mem_emitted {kept : List RelationAssertion} {r : Relation} :
    r ∈ (kept.foldl Grouped.add {}).relations options mentions ↔
      ∃ a ∈ kept, byId mentions a.subjectMentionId = some r.subject ∧
        byId mentions a.objectMentionId = some r.object ∧ r.relationType = a.relationType ∧
        r.directed = options.directed ∧ r.sentenceIndex = sharedSentence r.subject r.object ∧
        ∃ best, IsGreatest {c | c ∈ confidences kept a.key a.relationType} best ∧
          r.confidence = some best ∧ r.status = statusAmong options kept a.key a.relationType best := by
  have hstatus : ∀ key relationType best,
      relationType ∈ (((kept.foldl Grouped.add {}).types.lookup key).getD ∅).keys →
      relationStatus options (((kept.foldl Grouped.add {}).types.lookup key).getD ∅) best =
        statusAmong options kept key relationType best := by
    intro key relationType best hmem
    have hseveral : 1 < (((kept.foldl Grouped.add {}).types.lookup key).getD ∅).keys.length ↔
        ∃ a ∈ kept, a.key = key ∧ a.relationType ≠ relationType := by
      rw [one_lt_length_keys hmem]
      simp only [mem_keys_types]
      constructor
      · rintro ⟨other, ⟨a, ha, hkey, rfl⟩, hne⟩
        exact ⟨a, ha, hkey, hne⟩
      · rintro ⟨a, ha, hkey, hne⟩
        exact ⟨a.relationType, ⟨a, ha, hkey, rfl⟩, hne⟩
    simp only [relationStatus, statusAmong, hseveral]
  rw [Grouped.relations, List.mem_flatMap]
  constructor
  · rintro ⟨key, -, hr⟩
    obtain ⟨subject, obj, hsubject, hobject, hr⟩ := Grouped.mem_relationsFor.mp hr
    obtain ⟨relationType, htype, rfl⟩ := List.mem_map.mp hr
    rw [List.mem_insertionSort] at htype
    obtain ⟨a, ha, rfl, rfl⟩ := mem_keys_types.mp htype
    obtain ⟨best, hbest⟩ := Option.isSome_iff_exists.mp (Keyed.mem_iff_isSome.mp htype)
    rw [hbest, Option.getD_some]
    refine ⟨a, ha, hsubject, hobject, rfl, rfl, rfl, best, ?_, rfl, hstatus _ _ _ htype⟩
    exact max?_eq_some.mp ((lookup_types _ _ _).symm.trans hbest)
  · rintro ⟨a, ha, hsubject, hobject, htype, hdirected, hsentence, best, hbest, hconfidence, hstat⟩
    refine ⟨a.key, mem_order.mpr ⟨a, ha, rfl⟩,
      Grouped.mem_relationsFor.mpr ⟨r.subject, r.object, hsubject, hobject, ?_⟩⟩
    have hkeys := mem_keys_types.mpr ⟨a, ha, rfl, rfl⟩
    refine List.mem_map.mpr ⟨a.relationType, (List.mem_insertionSort _).mpr hkeys, ?_⟩
    rw [lookup_types, max?_eq_some.mpr hbest, Option.getD_some]
    simp only [hstatus _ _ best hkeys]
    rw [← hstat, ← hconfidence, ← htype, ← hdirected, ← hsentence]

theorem mentionId_of_byId {mentionId : String} {m : Mention} (h : byId mentions mentionId = some m) :
    m.mentionId = mentionId ∧ m ∈ mentions := by
  refine ⟨by simpa using List.find?_some h, ?_⟩
  exact List.mem_reverse.mp (List.mem_of_find?_eq_some h)

/-- The key of an emitted relation is that of its assertion. -/
theorem nodup_keys_relations (kept : List RelationAssertion) :
    (((kept.foldl Grouped.add {}).relations options mentions).map Relation.key).Nodup := by
  rw [Grouped.relations, List.map_flatMap]
  have hkey : ∀ key, ∀ k ∈ ((kept.foldl Grouped.add {}).relationsFor options mentions key).map
      Relation.key, (k.1, k.2.1) = key := by
    intro key k hk
    obtain ⟨r, hr, rfl⟩ := List.mem_map.mp hk
    obtain ⟨subject, obj, hsubject, hobject, hr⟩ := Grouped.mem_relationsFor.mp hr
    obtain ⟨relationType, -, rfl⟩ := List.mem_map.mp hr
    exact Prod.ext (mentionId_of_byId hsubject).1 (mentionId_of_byId hobject).1
  refine List.nodup_flatMap.mpr ⟨fun key _ => ?_, (nodup_order kept).imp fun {key key'} hne k hk hk' =>
    hne ((hkey key k hk).symm.trans (hkey key' k hk'))⟩
  have htypes : ∀ subject obj types,
      ((relationsOf options subject obj types).map Relation.key).Nodup := fun subject obj types => by
    rw [relationsOf, List.map_map]
    refine List.Nodup.map_on (fun s _ t _ heq => ?_)
      ((List.perm_insertionSort _ _).nodup_iff.mpr (AList.keys_nodup _))
    exact congrArg (fun k => k.2.2) heq
  rw [Grouped.relationsFor]
  cases byId mentions key.1 with
  | none => exact List.nodup_nil
  | some subject =>
    cases byId mentions key.2 with
    | none => exact List.nodup_nil
    | some obj => exact htypes subject obj _

/-! ### Consistency -/

theorem mem_governed {assertions : List RelationAssertion} {a : RelationAssertion} :
    a ∈ governed options mentions assertions ↔
      a ∈ assertions ∧ Governed options mentions (candidatesOf options mentions) a := by
  rw [governed, List.mem_filter, decide_eq_true_eq]

/-- An extraction that does not raise emits the relations of the assertions that are kept. -/
theorem extract_eq_ok {assertions : List RelationAssertion} {relations : List Relation}
    (h : options.extract mentions (fun _ => .ok assertions) = .ok relations) :
    relations =
      ((governed options mentions assertions).foldl Grouped.add {}).relations options mentions := by
  have hnone : candidatesOf options mentions = [] → governed options mentions assertions = [] := by
    intro hempty
    refine List.filter_eq_nil_iff.mpr fun a _ hgoverned => ?_
    obtain ⟨-, ⟨p, hp, -⟩, -⟩ := of_decide_eq_true hgoverned
    rw [hempty] at hp
    cases hp
  unfold ModelAssertionExtractorOptions.extract at h
  split_ifs at h with hfew
  · -- one mention makes no pair
    obtain rfl := Except.ok.inj h
    have hempty : candidatesOf options mentions = [] := by
      unfold candidatesOf
      cases hpairs : options.pairs mentions with
      | error e => rfl
      | ok pairs =>
        obtain ⟨rfl, -⟩ := candidatePairs_eq_ok hpairs
        exact scopedPairs_eq_nil hfew _ _
    rw [hnone hempty]
    rfl
  · obtain ⟨pairs, hpairs, h⟩ := bind_eq_ok.mp h
    have hcandidates : candidatesOf options mentions = pairs := by
      rw [candidatesOf, hpairs]
    split_ifs at h with hempty
    · obtain rfl := Except.ok.inj h
      rw [hnone (hcandidates.trans hempty)]
      rfl
    · obtain rfl := Except.ok.inj h
      rw [governed, hcandidates]

/-- An extraction with an assertion that is kept does not raise. -/
theorem exists_extract_eq_ok {assertions : List RelationAssertion} {a : RelationAssertion}
    (ha : a ∈ governed options mentions assertions) :
    ∃ relations, options.extract mentions (fun _ => .ok assertions) = .ok relations := by
  obtain ⟨-, -, ⟨p, hp, -⟩, -⟩ := mem_governed.mp ha
  unfold candidatesOf at hp
  cases hpairs : options.pairs mentions with
  | error e =>
    rw [hpairs] at hp
    cases hp
  | ok pairs =>
    rw [hpairs] at hp
    have hne : pairs ≠ [] := List.ne_nil_of_mem hp
    have hmany : ¬ mentions.length < 2 := fun hfew => by
      obtain ⟨rfl, -⟩ := candidatePairs_eq_ok hpairs
      exact hne (scopedPairs_eq_nil hfew _ _)
    refine ⟨((assertions.filter fun a => Governed options mentions pairs a).foldl Grouped.add {}).relations
      options mentions, ?_⟩
    rw [ModelAssertionExtractorOptions.extract, if_neg hmany]
    refine bind_eq_ok.mpr ⟨pairs, hpairs, ?_⟩
    rw [if_neg hne]
    rfl

/-- Among assertions of one orientation for each pair, an assertion about the pair of a relation has
its subject and object. -/
theorem samePair_iff {assertions : List RelationAssertion}
    (h : options.directed = true ∨ ¬ BothWays options mentions assertions) {a b : RelationAssertion}
    (ha : a ∈ governed options mentions assertions) (hb : b ∈ governed options mentions assertions)
    {r : Relation} (hkey : (r.subject.mentionId, r.object.mentionId) = b.key) :
    SamePair options a r ↔ a.key = b.key := by
  obtain ⟨hsubject, hobject⟩ := Prod.mk.inj hkey
  rw [SamePair, hsubject, hobject]
  constructor
  · rintro (⟨hs, ho⟩ | ⟨hundirected, hs, ho⟩)
    · exact Prod.ext hs ho
    · rcases h with hdirected | hone
      · rw [hdirected] at hundirected
        cases hundirected
      · exact absurd ⟨a, ha, b, hb, hs, ho⟩ hone
  · intro hab
    exact .inl (Prod.mk.inj hab)

/-- A relation that is emitted, with the assertion that it comes from. -/
theorem exists_of_mem_emitted {kept : List RelationAssertion} {r : Relation}
    (h : r ∈ (kept.foldl Grouped.add {}).relations options mentions) :
    ∃ a ∈ kept, (r.subject.mentionId, r.object.mentionId) = a.key ∧ r.subject ∈ mentions ∧
      r.object ∈ mentions ∧ r.relationType = a.relationType ∧
      ∃ best, IsGreatest {c | c ∈ confidences kept a.key a.relationType} best ∧
        r.confidence = some best ∧ r.status = statusAmong options kept a.key a.relationType best := by
  obtain ⟨a, ha, hsubject, hobject, htype, -, -, hbest⟩ := mem_emitted.mp h
  obtain ⟨hsid, hsmem⟩ := mentionId_of_byId hsubject
  obtain ⟨hoid, homem⟩ := mentionId_of_byId hobject
  exact ⟨a, ha, Prod.ext hsid hoid, hsmem, homem, htype, hbest⟩

/-- Every assertion that is kept is emitted. -/
theorem exists_emitted {assertions : List RelationAssertion} {a : RelationAssertion}
    (ha : a ∈ governed options mentions assertions) :
    ∃ r ∈ ((governed options mentions assertions).foldl Grouped.add {}).relations options mentions,
      (r.subject.mentionId, r.object.mentionId) = a.key ∧ r.relationType = a.relationType := by
  obtain ⟨-, ⟨hknown, -, -⟩⟩ := mem_governed.mp ha
  push Not at hknown
  obtain ⟨-, hsubject, hobject⟩ := hknown
  obtain ⟨subject, hsubject⟩ := Option.ne_none_iff_exists'.mp hsubject
  obtain ⟨obj, hobject⟩ := Option.ne_none_iff_exists'.mp hobject
  have hmem : a.confidence ∈ confidences (governed options mentions assertions) a.key a.relationType :=
    mem_confidences.mpr ⟨a, ha, rfl, rfl, rfl⟩
  obtain ⟨best, hbest⟩ : ∃ best,
      (confidences (governed options mentions assertions) a.key a.relationType).max? = some best :=
    Option.ne_none_iff_exists'.mp fun h => by
      rw [List.max?_eq_none_iff.mp h] at hmem
      cases hmem
  refine ⟨⟨subject, obj, a.relationType, options.directed,
    statusAmong options (governed options mentions assertions) a.key a.relationType best, some best,
    sharedSentence subject obj⟩, mem_emitted.mpr ⟨a, ha, hsubject, hobject, rfl, rfl, rfl, best,
    max?_eq_some.mp hbest, rfl, rfl⟩, ?_, rfl⟩
  exact Prod.ext (mentionId_of_byId hsubject).1 (mentionId_of_byId hobject).1

/-- The relations do not depend on the order of the assertions. -/
theorem mem_relations_perm {kept kept' : List RelationAssertion} (h : kept'.Perm kept) (r : Relation) :
    r ∈ (kept'.foldl Grouped.add {}).relations options mentions ↔
      r ∈ (kept.foldl Grouped.add {}).relations options mentions := by
  have hconfidences : ∀ key relationType c, c ∈ confidences kept' key relationType ↔
      c ∈ confidences kept key relationType := fun key relationType c => by
    simp only [mem_confidences, h.mem_iff]
  simp only [mem_emitted, statusAmong, h.mem_iff, hconfidences]

/-- Relations that have a direction, and those of pairs that are asserted in one orientation. -/
theorem consistent_of {assertions : List RelationAssertion}
    (h : options.directed = true ∨ ¬ BothWays options mentions assertions) :
    Consistent options mentions assertions
      (((governed options mentions assertions).foldl Grouped.add {}).relations options mentions) := by
  refine ⟨fun r hr => ?_, fun r hr => ?_, nodup_keys_relations _, fun a ha => ?_, fun r hr => ?_,
    fun r hr hsingle => ?_, fun assertions' relations' hperm hextract r => ?_,
    fun hundirected r hr r' hr' => ?_⟩
  · obtain ⟨a, ha, -, -, -, htype, -⟩ := exists_of_mem_emitted hr
    rw [htype]
    exact (mem_governed.mp ha).2.2.2
  · obtain ⟨a, ha, hkey, hsubject, hobject, -⟩ := exists_of_mem_emitted hr
    obtain ⟨hsid, hoid⟩ := Prod.mk.inj hkey
    rw [hsid, hoid]
    exact ⟨hsubject, hobject, (mem_governed.mp ha).2.2.1⟩
  · obtain ⟨r, hr, hkey, htype⟩ := exists_emitted ha
    exact ⟨r, hr, (samePair_iff h ha ha hkey).mpr rfl, htype⟩
  · rintro ⟨a, ha, hpair, hne⟩
    obtain ⟨b, hb, hkey, -, -, htype, best, -, -, hstatus⟩ := exists_of_mem_emitted hr
    rw [htype] at hne
    rw [hstatus, statusAmong, if_pos ⟨a, ha, (samePair_iff h ha hb hkey).mp hpair, hne⟩]
  · obtain ⟨b, hb, hkey, -, -, htype, best, hbest, hconfidence, hstatus⟩ := exists_of_mem_emitted hr
    have hsame : ∀ c, c ∈ confidences (governed options mentions assertions) b.key b.relationType ↔
        ∃ a ∈ governed options mentions assertions, SamePair options a r ∧ a.confidence = c := by
      intro c
      rw [mem_confidences]
      refine exists_congr fun a => and_congr_right fun ha => ?_
      rw [samePair_iff h ha hb hkey]
      refine and_congr_right fun hab => ⟨And.right, fun hc => ⟨?_, hc⟩⟩
      rw [← htype]
      exact hsingle a ha ((samePair_iff h ha hb hkey).mpr hab)
    simp only [hsame] at hbest
    refine ⟨best, hbest, hconfidence, ?_⟩
    rw [hstatus, statusAmong, if_neg]
    rintro ⟨a, ha, hab, hne⟩
    exact hne (htype ▸ hsingle a ha ((samePair_iff h ha hb hkey).mpr hab))
  · rw [extract_eq_ok hextract]
    exact mem_relations_perm (hperm.filter _) r
  · rintro ⟨hsid, hoid⟩
    obtain ⟨a, ha, hkey, -⟩ := exists_of_mem_emitted hr
    obtain ⟨b, hb, hkey', -⟩ := exists_of_mem_emitted hr'
    obtain ⟨hs, ho⟩ := Prod.mk.inj hkey
    obtain ⟨hs', ho'⟩ := Prod.mk.inj hkey'
    rcases h with hdirected | hone
    · rw [hdirected] at hundirected
      cases hundirected
    · exact hone ⟨a, ha, b, hb, hs.symm.trans (hsid.trans ho'), ho.symm.trans (hoid.trans hs')⟩

/-- For every list of mentions, every options and every list of assertions: the relations that are
emitted are consistent if and only if relations are directed or no candidate pair is asserted, with
allowed types, in both orientations. -/
theorem assertions_consistent_iff (options : ModelAssertionExtractorOptions)
    (mentions : List Mention) (assertions : List RelationAssertion) :
    (∀ relations, options.extract mentions (fun _ => .ok assertions) = .ok relations →
      Consistent options mentions assertions relations) ↔
    options.directed = true ∨ ¬ BothWays options mentions assertions := by
  constructor
  · intro hconsistent
    by_contra hnot
    rw [not_or, Bool.not_eq_true, not_not] at hnot
    obtain ⟨hundirected, a, ha, b, hb, hab, hba⟩ := hnot
    have hextract : options.extract mentions (fun _ => .ok assertions) =
        .ok (((governed options mentions assertions).foldl Grouped.add {}).relations options
          mentions) := by
      obtain ⟨relations, hrelations⟩ := exists_extract_eq_ok ha
      rw [hrelations, extract_eq_ok hrelations]
    obtain ⟨r, hr, hkey, -⟩ := exists_emitted ha
    obtain ⟨r', hr', hkey', -⟩ := exists_emitted hb
    obtain ⟨hs, ho⟩ := Prod.mk.inj hkey
    obtain ⟨hs', ho'⟩ := Prod.mk.inj hkey'
    exact (hconsistent _ hextract).orientation hundirected r hr r' hr'
      ⟨hs.trans (hab.trans ho'.symm), ho.trans (hba.trans hs'.symm)⟩
  · intro h relations hextract
    rw [extract_eq_ok hextract]
    exact consistent_of h

/-- Two relation types, without direction. -/
def undirectedOptions : ModelAssertionExtractorOptions where
  relationTypes := ["acquired", "subsidiary_of"]
  relationTypes_ne_nil := List.cons_ne_nil _ _
  nodup_relationTypes := by decide
  directed := false
  threshold_mem := by decide +kernel

/-- Conflicting types of a pair, in opposite orientations. -/
def oppositeAssertions : List RelationAssertion :=
  [⟨"m1", "m2", "acquired", 9 / 10⟩, ⟨"m2", "m1", "subsidiary_of", 9 / 10⟩]

/-- The mentions `m1` and `m2`. -/
def firstMentions : Mention × Mention :=
  (⟨"m1", some 0, 0, 4, some "ORG", none⟩, ⟨"m2", some 0, 2, 6, some "GPE", none⟩)

/-- Both types are asserted, each in its own orientation. -/
theorem opposite_types_asserted :
    undirectedOptions.extract sampleMentions (fun _ => .ok oppositeAssertions) =
      .ok [⟨firstMentions.1, firstMentions.2, "acquired", false, .asserted, some (9 / 10), some 0⟩,
        ⟨firstMentions.2, firstMentions.1, "subsidiary_of", false, .asserted, some (9 / 10), some 0⟩] ∧
    ¬ ∀ relations, undirectedOptions.extract sampleMentions (fun _ => .ok oppositeAssertions) =
        .ok relations →
      Consistent undirectedOptions sampleMentions oppositeAssertions relations := by
  have hextract : undirectedOptions.extract sampleMentions (fun _ => .ok oppositeAssertions) =
      .ok [⟨firstMentions.1, firstMentions.2, "acquired", false, .asserted, some (9 / 10), some 0⟩,
        ⟨firstMentions.2, firstMentions.1, "subsidiary_of", false, .asserted, some (9 / 10),
          some 0⟩] := by decide +kernel
  refine ⟨hextract, fun h => ?_⟩
  exact (h _ hextract).orientation rfl _ List.mem_cons_self _
    (List.mem_cons_of_mem _ List.mem_cons_self) ⟨rfl, rfl⟩

end Stel.Text
