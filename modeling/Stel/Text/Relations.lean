import Stel.Hashing.Known
import Stel.Data.Keyed
import Stel.Data.Pairs
import Stel.Data.SortedSet
import Mathlib.Data.Prod.Lex
import Mathlib.Data.String.Basic
import Mathlib.Algebra.Order.Ring.Int
import Mathlib.Data.Rat.Defs

/-!
# Relations between the mentions of a document

`text/relations.py`: mentions are paired when they share a sentence or are near each other, and the
extractors turn the pairs into relations.

## Main definitions

* `Mention`, `Relation`, `orderKey`.
* `candidatePairs`: the pairs in scope, the earlier mention first.
* `CoOccurrenceExtractorOptions.extract`, `RuleExtractorOptions.extract`.
* `relationId`: the fingerprint of a relation.
* `InScope`, `CompletePairs`: the symmetric predicate, and all its pairs.

## Main results

* `candidatePairs_eq`: the pairs, or the error, in terms of one list.
* `completePairs_candidatePairs`: the pairs of a document.
* `candidate_pairs_complete`: completeness, the errors, and the identity of the relations.
-/

namespace Stel.Text

/-! ### Mentions and relations -/

/-- `CoOccurrenceScope`. -/
inductive CoOccurrenceScope
  | sentence
  | window
  deriving DecidableEq, Repr

/-- `Mention`. -/
structure Mention where
  mentionId : String
  sentenceIndex : Option ℤ
  start : ℤ
  end_ : ℤ
  label : Option String
  text : Option String := none
  deriving DecidableEq, Repr

/-- `RelationStatus`. -/
inductive RelationStatus
  | asserted
  | ambiguous
  | noRelation
  deriving DecidableEq, Repr

/-- `Relation`. -/
structure Relation where
  subject : Mention
  object : Mention
  relationType : String
  directed : Bool
  status : RelationStatus
  confidence : Option ℚ
  sentenceIndex : Option ℤ
  deriving DecidableEq

/-- `_order_key`. -/
def orderKey (mention : Mention) : ℤ ×ₗ ℤ ×ₗ String :=
  toLex (mention.start, toLex (mention.end_, mention.mentionId))

/-- `_shared_sentence`. -/
def sharedSentence (subject obj : Mention) : Option ℤ :=
  if subject.sentenceIndex = obj.sentenceIndex then subject.sentenceIndex else none

/-! ### Candidate pairs -/

/-- The error of `_emit`. -/
def tooManyPairs (maxPairs : ℕ) : Failure :=
  .other ("relation extraction produced more than max_pairs_per_document (" ++ toString maxPairs ++
    ") candidate pairs for a single document; narrow `scope`/`labels`/`max_char_gap` or raise the cap")

/-- The error of a mention without a sentence. -/
def nullSentence : Failure :=
  .other ("relation scope 'sentence' requires a non-null sentence_index on every mention; rebuild the " ++
    "mention table with a spaCy pipeline that sets sentence boundaries, or use scope 'window'")

/-- `by_sentence.setdefault(mention.sentence_index, []).append(mention)`. -/
def addToSentence (bySentence : Keyed ℤ (List Mention)) (mention : Mention) :
    Except Failure (Keyed ℤ (List Mention)) :=
  match mention.sentenceIndex with
  | none => .error nullSentence
  | some sentence => .ok (bySentence.modify sentence fun group => group.getD [] ++ [mention])

/-- `_candidate_pairs`. -/
def candidatePairs (mentions : List Mention) (scope : CoOccurrenceScope) (maxCharGap maxPairs : ℕ) :
    Except Failure (List (Mention × Mention)) :=
  match scope with
  | .sentence => do
    let bySentence ← mentions.foldlM addToSentence ∅
    (bySentence.keys.insertionSort (· ≤ ·)).foldlM (fun pairs sentence =>
      (laterPairs ((bySentence.lookup sentence).getD [])).foldlM
        (emit (tooManyPairs maxPairs) maxPairs) pairs) []
  | .window =>
    (laterPairs mentions).foldlM (fun pairs (subject, obj) =>
      if (maxCharGap : ℤ) < obj.start - subject.end_ then .ok pairs
      else emit (tooManyPairs maxPairs) maxPairs pairs (subject, obj)) []

/-! ### Extractors -/

/-- What the extractors read of their options to pair the mentions. -/
structure PairingOptions where
  scope : CoOccurrenceScope := .sentence
  maxCharGap : ℕ := 100
  maxPairsPerDocument : ℕ := 10000

/-- `_candidate_pairs` with the options of an extractor. -/
def PairingOptions.pairs (options : PairingOptions) (mentions : List Mention) :
    Except Failure (List (Mention × Mention)) :=
  candidatePairs mentions options.scope options.maxCharGap options.maxPairsPerDocument

/-- `CoOccurrenceExtractorOptions`. -/
structure CoOccurrenceExtractorOptions extends PairingOptions where
  relationType : String := "co_occurs_with"

/-- `RelationRule`. -/
structure RelationRule where
  subjectLabel : String
  objectLabel : String
  relationType : String
  deriving DecidableEq, Repr

/-- `RuleExtractorOptions`, whose validator rejects rules that are not distinct. -/
structure RuleExtractorOptions extends PairingOptions where
  rules : List RelationRule
  rules_ne_nil : rules ≠ []
  nodup_rules : rules.Nodup

/-- `CoOccurrenceExtractor.extract`. -/
def CoOccurrenceExtractorOptions.extract (options : CoOccurrenceExtractorOptions)
    (mentions : List Mention) : Except Failure (List Relation) :=
  if mentions.length < 2 then .ok []
  else do
    let pairs ← options.pairs mentions
    return pairs.map fun (subject, obj) =>
      ⟨subject, obj, options.relationType, false, .asserted, none, sharedSentence subject obj⟩

/-- The relations that a rule asserts of a pair, in both orientations. -/
def RelationRule.apply (rule : RelationRule) (earlier later : Mention) : List Relation :=
  [(earlier, later), (later, earlier)].filterMap fun (subject, obj) =>
    if subject.label = some rule.subjectLabel ∧ obj.label = some rule.objectLabel then
      some ⟨subject, obj, rule.relationType, true, .asserted, none, sharedSentence earlier later⟩
    else none

/-- `RuleExtractor.extract`. -/
def RuleExtractorOptions.extract (options : RuleExtractorOptions) (mentions : List Mention) :
    Except Failure (List Relation) :=
  if mentions.length < 2 then .ok []
  else do
    let pairs ← options.pairs mentions
    return pairs.flatMap fun (earlier, later) =>
      options.rules.flatMap fun rule => rule.apply earlier later

/-- The mapping that `relation_id` fingerprints. -/
def relationValue (documentId subjectMentionId objectMentionId relationType method : String) :
    Hashing.PyValue :=
  .mapping [(.str "document_id", .str documentId),
    (.str "subject_mention_id", .str subjectMentionId),
    (.str "object_mention_id", .str objectMentionId),
    (.str "relation_type", .str relationType), (.str "method", .str method)]

/-- `RELATION_FINGERPRINT_DOMAIN`. -/
def relationFingerprintDomain : String := "dbt-ml.entity-relation"

/-- `relation_id`. -/
def relationId (blake2b : ℤ → List UInt8 → List UInt8)
    (documentId subjectMentionId objectMentionId relationType method : String) :
    Except Failure String :=
  Hashing.canonicalFingerprint blake2b
    (relationValue documentId subjectMentionId objectMentionId relationType method)
    relationFingerprintDomain 1 16

/-- The `relation_id` of a row. -/
def Relation.id (blake2b : ℤ → List UInt8 → List UInt8) (documentId method : String)
    (relation : Relation) : Except Failure String :=
  relationId blake2b documentId relation.subject.mentionId relation.object.mentionId
    relation.relationType method

/-! ### The predicate of the pairs -/

/-- The spans of two mentions overlap. -/
def Overlaps (a b : Mention) : Prop := a.start < b.end_ ∧ b.start < a.end_

instance (a b : Mention) : Decidable (Overlaps a b) :=
  inferInstanceAs (Decidable (a.start < b.end_ ∧ b.start < a.end_))

/-- The characters between two spans. -/
def charsApart (a b : Mention) : ℤ := max (b.start - a.end_) (a.start - b.end_)

/-- Two mentions share a sentence, or their spans overlap or are near each other. -/
def InScope : CoOccurrenceScope → ℕ → Mention → Mention → Prop
  | .sentence, _, a, b => ∃ sentence ∈ a.sentenceIndex, b.sentenceIndex = some sentence
  | .window, maxCharGap, a, b => Overlaps a b ∨ charsApart a b ≤ maxCharGap

instance : ∀ scope maxCharGap a b, Decidable (InScope scope maxCharGap a b)
  | .sentence, _, a, b =>
    inferInstanceAs (Decidable (∃ sentence ∈ a.sentenceIndex, b.sentenceIndex = some sentence))
  | .window, maxCharGap, a, b =>
    inferInstanceAs (Decidable (Overlaps a b ∨ charsApart a b ≤ maxCharGap))

theorem InScope.symm {scope : CoOccurrenceScope} {maxCharGap : ℕ} {a b : Mention}
    (h : InScope scope maxCharGap a b) : InScope scope maxCharGap b a := by
  cases scope with
  | sentence =>
    obtain ⟨sentence, ha, hb⟩ := h
    exact ⟨sentence, hb, ha⟩
  | window =>
    refine h.imp And.symm fun hgap => ?_
    rwa [charsApart, max_comm]

/-- The pairs of mentions in scope, in the order of their positions. -/
def IsPair (scope : CoOccurrenceScope) (maxCharGap : ℕ) (p : Mention × Mention) : Prop :=
  orderKey p.1 < orderKey p.2 ∧ InScope scope maxCharGap p.1 p.2

instance (scope : CoOccurrenceScope) (maxCharGap : ℕ) (p : Mention × Mention) :
    Decidable (IsPair scope maxCharGap p) :=
  inferInstanceAs (Decidable (_ ∧ _))

/-- The number of unordered pairs of mentions in scope. -/
def pairCount (mentions : List Mention) (scope : CoOccurrenceScope) (maxCharGap : ℕ) : ℕ :=
  (mentions ×ˢ mentions).countP fun p => IsPair scope maxCharGap p

/-- A list holds each unordered pair of different mentions in scope once, the earlier mention first,
and no other pair. -/
structure CompletePairs (mentions : List Mention) (scope : CoOccurrenceScope) (maxCharGap : ℕ)
    (pairs : List (Mention × Mention)) : Prop where
  mem : ∀ p ∈ pairs, p.1 ∈ mentions ∧ p.2 ∈ mentions ∧ IsPair scope maxCharGap p
  once : ∀ a ∈ mentions, ∀ b ∈ mentions, a ≠ b → InScope scope maxCharGap a b →
    pairs.count (a, b) + pairs.count (b, a) = 1

/-- The mentions that an extractor is given: with distinct IDs, sorted by position, and no span ends
before it starts. -/
structure Prepared (mentions : List Mention) : Prop where
  nodup : (mentions.map Mention.mentionId).Nodup
  sorted : mentions.Pairwise fun a b => orderKey a ≤ orderKey b
  spans : ∀ m ∈ mentions, m.start ≤ m.end_

theorem Prepared.pairwise_lt {mentions : List Mention} (h : Prepared mentions) :
    mentions.Pairwise fun a b => orderKey a < orderKey b := by
  refine (h.sorted.and (List.pairwise_map.mp h.nodup)).imp fun {a b} ⟨hle, hne⟩ => ?_
  refine lt_of_le_of_ne hle fun heq => hne ?_
  exact congrArg (fun key => (ofLex (ofLex key).2).2) heq

theorem Prepared.nodup_mentions {mentions : List Mention} (h : Prepared mentions) :
    mentions.Nodup := List.Nodup.of_map _ h.nodup

/-! ### The loops -/

/-- The pairs that the loops of `_candidate_pairs` pass. -/
def scopedPairs (mentions : List Mention) : CoOccurrenceScope → ℕ → List (Mention × Mention)
  | .sentence, _ => (sortedSet (mentions.filterMap Mention.sentenceIndex)).flatMap fun sentence =>
      laterPairs (mentions.filter fun m => m.sentenceIndex = some sentence)
  | .window, maxCharGap => (laterPairs mentions).filter fun p =>
      ¬ (maxCharGap : ℤ) < p.2.start - p.1.end_

/-- The groups of mentions that have a sentence. -/
theorem foldlM_addToSentence {mentions : List Mention} (h : ∀ m ∈ mentions, m.sentenceIndex ≠ none)
    (start : Keyed ℤ (List Mention)) :
    ∃ bySentence, mentions.foldlM addToSentence start = .ok bySentence ∧
      ∀ sentence, bySentence.lookup sentence =
        if mentions.filter (fun m => m.sentenceIndex = some sentence) = [] then start.lookup sentence
        else some ((start.lookup sentence).getD [] ++
          mentions.filter fun m => m.sentenceIndex = some sentence) := by
  induction mentions generalizing start with
  | nil => exact ⟨start, rfl, fun _ => rfl⟩
  | cons m mentions ih =>
    obtain ⟨hm, hrest⟩ := List.forall_mem_cons.mp h
    obtain ⟨sentence, hsentence⟩ := Option.ne_none_iff_exists'.mp hm
    obtain ⟨bySentence, hfold, hlookup⟩ := ih hrest
      (start.modify sentence fun group => group.getD [] ++ [m])
    refine ⟨bySentence, ?_, fun other => ?_⟩
    · rw [List.foldlM_cons, addToSentence, hsentence]
      exact hfold
    · rw [hlookup, Keyed.lookup_modify, List.filter_cons, hsentence]
      by_cases heq : sentence = other
      · subst heq
        by_cases hempty : mentions.filter (fun m => m.sentenceIndex = some sentence) = []
        · simp [hempty]
        · simp [hempty]
      · have hne : ¬ some sentence = some other := fun h => heq (Option.some.inj h)
        simp [heq]

theorem foldlM_addToSentence_error {mentions : List Mention}
    (h : ∃ m ∈ mentions, m.sentenceIndex = none) (start : Keyed ℤ (List Mention)) :
    mentions.foldlM addToSentence start = .error nullSentence := by
  induction mentions generalizing start with
  | nil => simp at h
  | cons m mentions ih =>
    rw [List.foldlM_cons, addToSentence]
    cases hm : m.sentenceIndex with
    | none => rfl
    | some sentence =>
      obtain ⟨m', hmem, hnone⟩ := h
      rcases List.mem_cons.mp hmem with rfl | hmem
      · rw [hm] at hnone
        cases hnone
      · exact ih ⟨m', hmem, hnone⟩ _

/-- The pairs, or the error. -/
theorem candidatePairs_eq (mentions : List Mention) (scope : CoOccurrenceScope)
    (maxCharGap maxPairs : ℕ) :
    candidatePairs mentions scope maxCharGap maxPairs =
      if scope = .sentence ∧ ∃ m ∈ mentions, m.sentenceIndex = none then .error nullSentence
      else if (scopedPairs mentions scope maxCharGap).length ≤ maxPairs then
        .ok (scopedPairs mentions scope maxCharGap)
      else .error (tooManyPairs maxPairs) := by
  have hemit : ∀ pairs : List (Mention × Mention),
      pairs.foldlM (emit (tooManyPairs maxPairs) maxPairs) [] =
        if pairs.length ≤ maxPairs then .ok pairs else .error (tooManyPairs maxPairs) := fun pairs => by
    rw [foldlM_emit pairs [] (Nat.zero_le _), List.length_nil, Nat.zero_add, List.nil_append]
  cases scope with
  | sentence =>
    by_cases hnull : ∃ m ∈ mentions, m.sentenceIndex = none
    · rw [if_pos ⟨rfl, hnull⟩, candidatePairs, foldlM_addToSentence_error hnull]
      rfl
    · rw [if_neg fun h => hnull h.2]
      have hsome : ∀ m ∈ mentions, m.sentenceIndex ≠ none := fun m hm h => hnull ⟨m, hm, h⟩
      obtain ⟨bySentence, hfold, hlookup⟩ := foldlM_addToSentence hsome ∅
      have hgroup : ∀ sentence, (bySentence.lookup sentence).getD [] =
          mentions.filter fun m => m.sentenceIndex = some sentence := fun sentence => by
        rw [hlookup, AList.lookup_empty]
        split_ifs with hempty
        · rw [hempty, Option.getD_none]
        · rfl
      have hkeys : ∀ sentence, sentence ∈ bySentence.keys ↔
          sentence ∈ mentions.filterMap Mention.sentenceIndex := fun sentence => by
        rw [Keyed.mem_iff_isSome, hlookup, AList.lookup_empty, List.mem_filterMap]
        split_ifs with hempty
        · simpa [List.filter_eq_nil_iff] using hempty
        · simpa [List.filter_eq_nil_iff] using hempty
      rw [candidatePairs, hfold]
      change List.foldlM (fun pairs sentence =>
        (laterPairs ((bySentence.lookup sentence).getD [])).foldlM
          (emit (tooManyPairs maxPairs) maxPairs) pairs) []
        (bySentence.keys.insertionSort (· ≤ ·)) = _
      simp only [hgroup]
      rw [insertionSort_eq_sortedSet bySentence.keys_nodup hkeys, foldlM_flatMap_eq, hemit]
      rfl
  | window =>
    rw [if_neg (fun h => by cases h.1), candidatePairs, scopedPairs, ← hemit, List.foldlM_filter]
    congr 1
    funext pairs p
    by_cases hfar : (maxCharGap : ℤ) < p.2.start - p.1.end_
    · simp only [hfar, if_true, not_true_eq_false, decide_false, Bool.false_eq_true, if_false]
      rfl
    · simp only [hfar, if_false, not_false_eq_true, decide_true, if_true]

/-- Fewer than two mentions make no pair. -/
theorem scopedPairs_eq_nil {mentions : List Mention} (h : mentions.length < 2)
    (scope : CoOccurrenceScope) (maxCharGap : ℕ) : scopedPairs mentions scope maxCharGap = [] := by
  have hpairs : ∀ ms : List Mention, ms.length < 2 → laterPairs ms = [] := by
    rintro (_ | ⟨m, _ | ⟨m', ms⟩⟩) hlength
    · rfl
    · rfl
    · rw [List.length_cons, List.length_cons] at hlength
      omega
  cases scope with
  | sentence =>
    refine List.flatMap_eq_nil_iff.mpr fun sentence _ => hpairs _ ?_
    exact lt_of_le_of_lt (List.length_filter_le _ _) h
  | window => rw [scopedPairs, hpairs mentions h, List.filter_nil]

/-! ### Completeness -/

theorem asymm_orderKey (a b : Mention) (h : orderKey a < orderKey b) : ¬ orderKey b < orderKey a :=
  h.asymm

/-- Of two mentions in order, the spans are near exactly if the later one does not start too far
behind the end of the earlier one. -/
theorem inScope_window {maxCharGap : ℕ} {a b : Mention} (hstart : a.start ≤ b.start)
    (hspan : b.start ≤ b.end_) :
    InScope .window maxCharGap a b ↔ ¬ (maxCharGap : ℤ) < b.start - a.end_ := by
  have hgap : InScope .window maxCharGap a b ↔
      (a.start < b.end_ ∧ b.start < a.end_) ∨
        (b.start - a.end_ ≤ maxCharGap ∧ a.start - b.end_ ≤ maxCharGap) := by
    rw [InScope, Overlaps, charsApart, max_le_iff]
  rw [hgap]
  omega

theorem mem_scopedPairs {mentions : List Mention} (h : Prepared mentions)
    {scope : CoOccurrenceScope} {maxCharGap : ℕ} {p : Mention × Mention} :
    p ∈ scopedPairs mentions scope maxCharGap ↔
      p.1 ∈ mentions ∧ p.2 ∈ mentions ∧ IsPair scope maxCharGap p := by
  obtain ⟨a, b⟩ := p
  cases scope with
  | sentence =>
    have hgroup : ∀ sentence, (mentions.filter fun m => m.sentenceIndex = some sentence).Pairwise
        fun a b => orderKey a < orderKey b := fun _ => h.pairwise_lt.sublist List.filter_sublist
    simp only [scopedPairs, List.mem_flatMap, mem_sortedSet, mem_laterPairs asymm_orderKey
      (hgroup _), List.mem_filter, List.mem_filterMap, decide_eq_true_eq, IsPair]
    constructor
    · rintro ⟨sentence, -, ⟨ha, hsentence⟩, ⟨hb, hsentence'⟩, hlt⟩
      exact ⟨ha, hb, hlt, sentence, hsentence, hsentence'⟩
    · rintro ⟨ha, hb, hlt, sentence, hsentence, hsentence'⟩
      exact ⟨sentence, ⟨a, ha, hsentence⟩, ⟨ha, hsentence⟩, ⟨hb, hsentence'⟩, hlt⟩
  | window =>
    rw [scopedPairs, List.mem_filter, mem_laterPairs asymm_orderKey h.pairwise_lt,
      decide_eq_true_eq, and_assoc, and_assoc]
    refine and_congr_right fun _ => and_congr_right fun hb => and_congr_right fun hlt => ?_
    have hstart : a.start ≤ b.start := by
      rcases Prod.Lex.lt_iff.mp hlt with hlt | ⟨heq, -⟩
      · exact hlt.le
      · exact heq.le
    exact (inScope_window hstart (h.spans b hb)).symm

theorem nodup_scopedPairs {mentions : List Mention} (h : Prepared mentions)
    (scope : CoOccurrenceScope) (maxCharGap : ℕ) : (scopedPairs mentions scope maxCharGap).Nodup := by
  cases scope with
  | sentence =>
    refine List.nodup_flatMap.mpr ⟨fun sentence _ => nodup_laterPairs (h.nodup_mentions.filter _), ?_⟩
    refine nodup_sortedSet.imp fun {s t} hne => ?_
    intro p hp hp'
    have hs := (List.mem_filter.mp (mem_left_of_mem_laterPairs hp).1).2
    have ht := (List.mem_filter.mp (mem_left_of_mem_laterPairs hp').1).2
    rw [decide_eq_true_eq] at hs ht
    exact hne (Option.some.inj (hs.symm.trans ht))
  | window => exact (nodup_laterPairs h.nodup_mentions).filter _

theorem length_scopedPairs {mentions : List Mention} (h : Prepared mentions)
    (scope : CoOccurrenceScope) (maxCharGap : ℕ) :
    (scopedPairs mentions scope maxCharGap).length = pairCount mentions scope maxCharGap := by
  rw [pairCount, List.countP_eq_length_filter]
  refine List.Perm.length_eq ((List.perm_ext_iff_of_nodup (nodup_scopedPairs h scope maxCharGap)
    ((h.nodup_mentions.product h.nodup_mentions).filter _)).mpr fun p => ?_)
  have hproduct : p ∈ mentions ×ˢ mentions ↔ p.1 ∈ mentions ∧ p.2 ∈ mentions :=
    List.pair_mem_product
  rw [mem_scopedPairs h, List.mem_filter, hproduct, decide_eq_true_eq, and_assoc]

/-- The pairs of a document are complete. -/
theorem completePairs_scopedPairs {mentions : List Mention} (h : Prepared mentions)
    (scope : CoOccurrenceScope) (maxCharGap : ℕ) :
    CompletePairs mentions scope maxCharGap (scopedPairs mentions scope maxCharGap) := by
  refine ⟨fun p hp => (mem_scopedPairs h).mp hp, fun a ha b hb hne hscope => ?_⟩
  have hnodup := nodup_scopedPairs h scope maxCharGap
  have hpair : ∀ a ∈ mentions, ∀ b ∈ mentions, InScope scope maxCharGap a b →
      orderKey a < orderKey b →
        (scopedPairs mentions scope maxCharGap).count (a, b) = 1 ∧
          (scopedPairs mentions scope maxCharGap).count (b, a) = 0 := by
    intro a ha b hb hscope hlt
    refine ⟨List.count_eq_one_of_mem hnodup ((mem_scopedPairs h).mpr ⟨ha, hb, hlt, hscope⟩), ?_⟩
    exact List.count_eq_zero.mpr fun hmem => hlt.asymm ((mem_scopedPairs h).mp hmem).2.2.1
  rcases lt_trichotomy (orderKey a) (orderKey b) with hlt | heq | hgt
  · obtain ⟨hone, hzero⟩ := hpair a ha b hb hscope hlt
    rw [hone, hzero]
  · have hid : a.mentionId = b.mentionId := congrArg (fun key => (ofLex (ofLex key).2).2) heq
    exact absurd (List.inj_on_of_nodup_map h.nodup ha hb hid) hne
  · obtain ⟨hone, hzero⟩ := hpair b hb a ha hscope.symm hgt
    rw [hone, hzero]

theorem candidatePairs_eq_ok {mentions : List Mention} {scope : CoOccurrenceScope}
    {maxCharGap maxPairs : ℕ} {pairs : List (Mention × Mention)}
    (h : candidatePairs mentions scope maxCharGap maxPairs = .ok pairs) :
    pairs = scopedPairs mentions scope maxCharGap ∧ pairs.length ≤ maxPairs := by
  rw [candidatePairs_eq] at h
  split_ifs at h with hnull hcap
  obtain rfl := Except.ok.inj h
  exact ⟨rfl, hcap⟩

/-! ### The identity of relations -/

/-- What tells the relations of a document and a method apart. -/
def Relation.key (relation : Relation) : String × String × String :=
  (relation.subject.mentionId, relation.object.mentionId, relation.relationType)

/-- The mapping that is fingerprinted for a relation. -/
def Relation.value (documentId method : String) (relation : Relation) : Hashing.PyValue :=
  relationValue documentId relation.subject.mentionId relation.object.mentionId
    relation.relationType method

/-- The fingerprints of some relations do not collide. -/
def FreeOfCollisions (blake2b : ℤ → List UInt8 → List UInt8) (documentId method : String)
    (relations : List Relation) : Prop :=
  ∀ r ∈ relations, ∀ r' ∈ relations, Hashing.CollisionFree blake2b (r.value documentId method)
    (r'.value documentId method) relationFingerprintDomain

theorem relationValue_inj {documentId method : String} {r r' : Relation}
    (h : Hashing.canonicalValue (r.value documentId method) =
      Hashing.canonicalValue (r'.value documentId method)) : r.key = r'.key := by
  have hkeys : (([(Hashing.PyValue.str "document_id", Hashing.PyValue.str documentId),
      (.str "subject_mention_id", .str r'.subject.mentionId),
      (.str "object_mention_id", .str r'.object.mentionId),
      (.str "relation_type", .str r'.relationType), (.str "method", .str method)]).map
        fun f => Hashing.canonicalValue f.1).Nodup := by
    simp [Hashing.canonicalValue]
  have hsubject := Hashing.canonicalValue_item_eq (.str "subject_mention_id") h hkeys
    (v := .str r.subject.mentionId) (w := .str r'.subject.mentionId) (by simp) (by simp)
  have hobject := Hashing.canonicalValue_item_eq (.str "object_mention_id") h hkeys
    (v := .str r.object.mentionId) (w := .str r'.object.mentionId) (by simp) (by simp)
  have htype := Hashing.canonicalValue_item_eq (.str "relation_type") h hkeys
    (v := .str r.relationType) (w := .str r'.relationType) (by simp) (by simp)
  simp only [Hashing.canonicalValue, Json.array.injEq, List.cons.injEq,
    Json.string.injEq, true_and, and_true] at hsubject hobject htype
  rw [Relation.key, Relation.key, hsubject, hobject, htype]

/-- Different relations have different IDs. -/
theorem nodup_ids {blake2b : ℤ → List UInt8 → List UInt8} {documentId method : String}
    {relations : List Relation} (hnodup : (relations.map Relation.key).Nodup)
    (hfree : FreeOfCollisions blake2b documentId method relations) {ids : List String}
    (h : relations.mapM (Relation.id blake2b documentId method) = .ok ids) : ids.Nodup := by
  have hids := mapM_eq_ok.mp h
  clear h
  induction hids with
  | nil => exact List.nodup_nil
  | @cons r id relations ids hid hids ih =>
    obtain ⟨hnew, hrest⟩ := List.nodup_cons.mp hnodup
    refine List.nodup_cons.mpr ⟨fun hmem => ?_, ih hrest fun r hr r' hr' =>
      hfree r (List.mem_cons_of_mem _ hr) r' (List.mem_cons_of_mem _ hr')⟩
    obtain ⟨r', hr', hid'⟩ := exists_of_mem_right hids hmem
    have hvalue := ((hfree r List.mem_cons_self r'
      (List.mem_cons_of_mem _ hr')).fingerprint_eq_iff hid hid').mp rfl
    exact hnew (List.mem_map.mpr ⟨r', hr', (relationValue_inj hvalue).symm⟩)

/-- The mentions of a document are told apart by their IDs. -/
theorem Prepared.eq_of_id {mentions : List Mention} (h : Prepared mentions) {a b : Mention}
    (ha : a ∈ mentions) (hb : b ∈ mentions) (hid : a.mentionId = b.mentionId) : a = b :=
  List.inj_on_of_nodup_map h.nodup ha hb hid

/-- The two mentions of a pair have different IDs. -/
theorem Prepared.id_ne {mentions : List Mention} (h : Prepared mentions) {scope : CoOccurrenceScope}
    {maxCharGap : ℕ} {p : Mention × Mention} (hp : p ∈ scopedPairs mentions scope maxCharGap) :
    p.1.mentionId ≠ p.2.mentionId := by
  obtain ⟨h₁, h₂, hlt, -⟩ := (mem_scopedPairs h).mp hp
  intro hid
  exact hlt.ne (congrArg orderKey (h.eq_of_id h₁ h₂ hid))

/-- A pair is determined by the IDs of its mentions, in any order. -/
theorem Prepared.pair_eq {mentions : List Mention} (h : Prepared mentions)
    {scope : CoOccurrenceScope} {maxCharGap : ℕ} {p q : Mention × Mention}
    (hp : p ∈ scopedPairs mentions scope maxCharGap) (hq : q ∈ scopedPairs mentions scope maxCharGap)
    (hids : p.1.mentionId = q.1.mentionId ∧ p.2.mentionId = q.2.mentionId ∨
      p.1.mentionId = q.2.mentionId ∧ p.2.mentionId = q.1.mentionId) : p = q := by
  obtain ⟨hp₁, hp₂, hplt, -⟩ := (mem_scopedPairs h).mp hp
  obtain ⟨hq₁, hq₂, hqlt, -⟩ := (mem_scopedPairs h).mp hq
  rcases hids with ⟨h₁, h₂⟩ | ⟨h₁, h₂⟩
  · exact Prod.ext (h.eq_of_id hp₁ hq₁ h₁) (h.eq_of_id hp₂ hq₂ h₂)
  · have h₁₂ := h.eq_of_id hp₁ hq₂ h₁
    have h₂₁ := h.eq_of_id hp₂ hq₁ h₂
    rw [h₁₂, h₂₁] at hplt
    exact absurd hplt hqlt.asymm

/-- The relations of the co-occurrence extractor. -/
theorem CoOccurrenceExtractorOptions.nodup_keys {options : CoOccurrenceExtractorOptions}
    {mentions : List Mention} (h : Prepared mentions) {relations : List Relation}
    (hextract : options.extract mentions = .ok relations) :
    (relations.map Relation.key).Nodup ∧ relations.length ≤ options.maxPairsPerDocument := by
  unfold CoOccurrenceExtractorOptions.extract at hextract
  split_ifs at hextract with hfew
  · obtain rfl := Except.ok.inj hextract
    exact ⟨List.nodup_nil, Nat.zero_le _⟩
  · obtain ⟨pairs, hpairs, hrelations⟩ := bind_eq_ok.mp hextract
    obtain rfl := Except.ok.inj hrelations
    obtain ⟨rfl, hcap⟩ := candidatePairs_eq_ok hpairs
    refine ⟨?_, by rwa [List.length_map]⟩
    rw [List.map_map]
    refine List.Nodup.map_on (fun p hp q hq heq => ?_) (nodup_scopedPairs h _ _)
    simp only [Function.comp_apply, Relation.key, Prod.mk.injEq] at heq
    exact h.pair_eq hp hq (.inl ⟨heq.1, heq.2.1⟩)

/-- A relation that a rule asserts. -/
theorem RelationRule.mem_apply {rule : RelationRule} {earlier later : Mention} {r : Relation}
    (h : r ∈ rule.apply earlier later) :
    (r.subject = earlier ∧ r.object = later ∨ r.subject = later ∧ r.object = earlier) ∧
      r.subject.label = some rule.subjectLabel ∧ r.object.label = some rule.objectLabel ∧
      r.relationType = rule.relationType := by
  obtain ⟨⟨subject, obj⟩, hmem, hsome⟩ := List.mem_filterMap.mp h
  simp only at hsome
  split_ifs at hsome with hlabels
  obtain rfl := Option.some.inj hsome
  refine ⟨?_, hlabels.1, hlabels.2, rfl⟩
  rcases List.mem_cons.mp hmem with heq | hmem
  · exact .inl (Prod.mk.inj heq)
  · exact .inr (Prod.mk.inj (List.mem_singleton.mp hmem))

theorem RelationRule.nodup_apply (rule : RelationRule) {earlier later : Mention}
    (hne : earlier.mentionId ≠ later.mentionId) :
    ((rule.apply earlier later).map Relation.key).Nodup := by
  by_cases hforward : earlier.label = some rule.subjectLabel ∧ later.label = some rule.objectLabel
  · by_cases hback : later.label = some rule.subjectLabel ∧ earlier.label = some rule.objectLabel
    · simp only [RelationRule.apply, List.filterMap_cons, List.filterMap_nil, if_pos hforward,
        if_pos hback]
      simp [Relation.key, hne]
    · simp only [RelationRule.apply, List.filterMap_cons, List.filterMap_nil, if_pos hforward,
        if_neg hback]
      simp
  · by_cases hback : later.label = some rule.subjectLabel ∧ earlier.label = some rule.objectLabel
    · simp only [RelationRule.apply, List.filterMap_cons, List.filterMap_nil, if_neg hforward,
        if_pos hback]
      simp
    · simp only [RelationRule.apply, List.filterMap_cons, List.filterMap_nil, if_neg hforward,
        if_neg hback]
      simp

/-- The relations of the rule extractor. -/
theorem RuleExtractorOptions.nodup_keys {options : RuleExtractorOptions} {mentions : List Mention}
    (h : Prepared mentions) {relations : List Relation}
    (hextract : options.extract mentions = .ok relations) :
    (relations.map Relation.key).Nodup := by
  unfold RuleExtractorOptions.extract at hextract
  split_ifs at hextract with hfew
  · obtain rfl := Except.ok.inj hextract
    exact List.nodup_nil
  · obtain ⟨pairs, hpairs, hrelations⟩ := bind_eq_ok.mp hextract
    obtain rfl := Except.ok.inj hrelations
    obtain ⟨rfl, -⟩ := candidatePairs_eq_ok hpairs
    rw [List.map_flatMap]
    refine List.nodup_flatMap.mpr ⟨fun p hp => ?_, ?_⟩
    · -- the relations of one pair
      rw [List.map_flatMap]
      refine List.nodup_flatMap.mpr ⟨fun rule _ => rule.nodup_apply (h.id_ne hp), ?_⟩
      refine options.nodup_rules.imp fun {rule rule'} hne k hk hk' => hne ?_
      obtain ⟨r, hr, rfl⟩ := List.mem_map.mp hk
      obtain ⟨r', hr', hkey⟩ := List.mem_map.mp hk'
      obtain ⟨hpair, hsubject, hobject, htype⟩ := RelationRule.mem_apply hr
      obtain ⟨hpair', hsubject', hobject', htype'⟩ := RelationRule.mem_apply hr'
      obtain ⟨hsid, hoid, htypes⟩ : r'.subject.mentionId = r.subject.mentionId ∧
          r'.object.mentionId = r.object.mentionId ∧ r'.relationType = r.relationType := by
        simpa [Relation.key] using hkey
      obtain ⟨hp₁, hp₂, -⟩ := (mem_scopedPairs h).mp hp
      have hmem : ∀ r : Relation, (r.subject = p.1 ∧ r.object = p.2 ∨
          r.subject = p.2 ∧ r.object = p.1) → r.subject ∈ mentions ∧ r.object ∈ mentions := by
        rintro r (⟨hs, ho⟩ | ⟨hs, ho⟩)
        · exact ⟨hs ▸ hp₁, ho ▸ hp₂⟩
        · exact ⟨hs ▸ hp₂, ho ▸ hp₁⟩
      have hsubjects := h.eq_of_id (hmem r' hpair').1 (hmem r hpair).1 hsid
      have hobjects := h.eq_of_id (hmem r' hpair').2 (hmem r hpair).2 hoid
      rw [hsubjects, hsubject] at hsubject'
      rw [hobjects, hobject] at hobject'
      rw [htypes, htype] at htype'
      cases rule
      cases rule'
      simp_all
    · -- the relations of different pairs
      refine List.Pairwise.imp_of_mem ?_ (nodup_scopedPairs h _ _)
      intro p q hp hq hne k hk hk'
      obtain ⟨r, hr, rfl⟩ := List.mem_map.mp hk
      obtain ⟨r', hr', hkey⟩ := List.mem_map.mp hk'
      obtain ⟨rule, -, hr⟩ := List.mem_flatMap.mp hr
      obtain ⟨rule', -, hr'⟩ := List.mem_flatMap.mp hr'
      obtain ⟨hsid, hoid, -⟩ : r'.subject.mentionId = r.subject.mentionId ∧
          r'.object.mentionId = r.object.mentionId ∧ r'.relationType = r.relationType := by
        simpa [Relation.key] using hkey
      refine hne (h.pair_eq hp hq ?_)
      rcases (RelationRule.mem_apply hr).1 with ⟨hs, ho⟩ | ⟨hs, ho⟩ <;>
        rcases (RelationRule.mem_apply hr').1 with ⟨hs', ho'⟩ | ⟨hs', ho'⟩ <;>
        rw [hs, hs'] at hsid <;> rw [ho, ho'] at hoid
      · exact .inl ⟨hsid.symm, hoid.symm⟩
      · exact .inr ⟨hsid.symm, hoid.symm⟩
      · exact .inr ⟨hoid.symm, hsid.symm⟩
      · exact .inl ⟨hoid.symm, hsid.symm⟩

/-- For every list of mentions as an extractor is given them: the candidate pairs are complete, and
raise exactly if there are more of them than the cap, or if mentions are paired by sentence and one
has none. The co-occurrence extractor and the rule extractor emit relations with different IDs, and
the cap bounds the number of co-occurrences. -/
theorem candidate_pairs_complete {mentions : List Mention} (h : Prepared mentions)
    (blake2b : ℤ → List UInt8 → List UInt8) (documentId : String) :
    (∀ scope maxCharGap maxPairs,
      (∀ pairs, candidatePairs mentions scope maxCharGap maxPairs = .ok pairs →
        CompletePairs mentions scope maxCharGap pairs) ∧
      ((∃ e, candidatePairs mentions scope maxCharGap maxPairs = .error e) ↔
        maxPairs < pairCount mentions scope maxCharGap ∨
          scope = .sentence ∧ ∃ m ∈ mentions, m.sentenceIndex = none)) ∧
    (∀ (options : CoOccurrenceExtractorOptions) relations,
      options.extract mentions = .ok relations →
        relations.length ≤ options.maxPairsPerDocument ∧
        (FreeOfCollisions blake2b documentId "co_occurrence" relations → ∀ ids,
          relations.mapM (Relation.id blake2b documentId "co_occurrence") = .ok ids → ids.Nodup)) ∧
    ∀ (options : RuleExtractorOptions) relations, options.extract mentions = .ok relations →
      FreeOfCollisions blake2b documentId "rule" relations → ∀ ids,
        relations.mapM (Relation.id blake2b documentId "rule") = .ok ids → ids.Nodup := by
  refine ⟨fun scope maxCharGap maxPairs => ⟨fun pairs hpairs => ?_, ?_⟩,
    fun options relations hextract => ?_, fun options relations hextract hfree ids hids => ?_⟩
  · rw [(candidatePairs_eq_ok hpairs).1]
    exact completePairs_scopedPairs h scope maxCharGap
  · rw [candidatePairs_eq, ← length_scopedPairs h]
    by_cases hnull : scope = .sentence ∧ ∃ m ∈ mentions, m.sentenceIndex = none
    · rw [if_pos hnull]
      exact ⟨fun _ => .inr hnull, fun _ => ⟨_, rfl⟩⟩
    · rw [if_neg hnull]
      by_cases hcap : (scopedPairs mentions scope maxCharGap).length ≤ maxPairs
      · rw [if_pos hcap]
        constructor
        · rintro ⟨_, he⟩
          cases he
        · intro hor
          exact absurd hor (not_or.mpr ⟨hcap.not_gt, hnull⟩)
      · rw [if_neg hcap]
        exact ⟨fun _ => .inl (not_le.mp hcap), fun _ => ⟨_, rfl⟩⟩
  · obtain ⟨hnodup, hcap⟩ := options.nodup_keys h hextract
    exact ⟨hcap, fun hfree ids hids => nodup_ids hnodup hfree hids⟩
  · exact nodup_ids (options.nodup_keys h hextract) hfree hids

/-- Three mentions, of which the first two overlap and the third one is three characters behind. -/
def sampleMentions : List Mention :=
  [⟨"m1", some 0, 0, 4, some "ORG", none⟩, ⟨"m2", some 0, 2, 6, some "GPE", none⟩,
    ⟨"m3", some 1, 9, 12, some "GPE", none⟩]

theorem prepared_sampleMentions : Prepared sampleMentions := by
  refine ⟨by decide, ?_, by decide⟩
  simp [sampleMentions, orderKey, Prod.Lex.toLex_le_toLex]

/-- The co-occurrences within three characters. -/
def nearby : CoOccurrenceExtractorOptions := { scope := .window, maxCharGap := 3 }

/-- The digests of the co-occurrences of the mentions. -/
def nearbyDigests : List (Hashing.PyValue × List UInt8) :=
  [(relationValue "d1" "m1" "m2" "co_occurs_with" "co_occurrence",
    [0xdc, 0x7d, 0x86, 0x58, 0xb4, 0xa1, 0x7c, 0x6f, 0x91, 0x44, 0xa5, 0x7a, 0x8b, 0xa6, 0xe9, 0x7d]),
   (relationValue "d1" "m2" "m3" "co_occurs_with" "co_occurrence",
    [0x99, 0xa4, 0x29, 0xfa, 0x7d, 0x80, 0x27, 0x79, 0xd3, 0x4e, 0x9b, 0x31, 0x7f, 0xd0, 0xd9, 0x36])]

/-- The digest of these values. -/
def nearbyDigest : ℤ → List UInt8 → List UInt8 :=
  Hashing.knownDigest (Hashing.knownInputs relationFingerprintDomain nearbyDigests)

/-- The co-occurrences of the mentions. -/
def nearbyRelations : List Relation :=
  [⟨⟨"m1", some 0, 0, 4, some "ORG", none⟩, ⟨"m2", some 0, 2, 6, some "GPE", none⟩,
      "co_occurs_with", false, .asserted, none, some 0⟩,
    ⟨⟨"m2", some 0, 2, 6, some "GPE", none⟩, ⟨"m3", some 1, 9, 12, some "GPE", none⟩,
      "co_occurs_with", false, .asserted, none, none⟩]

theorem mapM_id_nearbyRelations :
    nearbyRelations.mapM (Relation.id nearbyDigest "d1" "co_occurrence") =
      .ok ["dc7d8658b4a17c6f9144a57a8ba6e97d", "99a429fa7d802779d34e9b317fd0d936"] := by
  have hhex : (nearbyDigests.map fun e => Hashing.hex e.2) =
      ["dc7d8658b4a17c6f9144a57a8ba6e97d", "99a429fa7d802779d34e9b317fd0d936"] := by decide +kernel
  have hnodup : (nearbyDigests.map fun e => Hashing.canonicalValue e.1).Nodup := by
    refine List.nodup_cons.mpr ⟨fun h => ?_, List.nodup_singleton _⟩
    have hvalue : Hashing.canonicalValue (nearbyRelations[0].value "d1" "co_occurrence") =
        Hashing.canonicalValue (nearbyRelations[1].value "d1" "co_occurrence") :=
      List.mem_singleton.mp h
    exact absurd (relationValue_inj hvalue) (by decide)
  have hknown : ∀ e ∈ nearbyDigests, Hashing.canonicalFingerprint nearbyDigest e.1
      relationFingerprintDomain 1 16 = .ok (Hashing.hex e.2) := fun e he =>
    Hashing.canonicalFingerprint_known (by decide) (by decide +kernel) (by decide +kernel) hnodup he
  have hfirst : nearbyRelations[0].id nearbyDigest "d1" "co_occurrence" =
      .ok (Hashing.hex nearbyDigests[0].2) := hknown nearbyDigests[0] List.mem_cons_self
  have hsecond : nearbyRelations[1].id nearbyDigest "d1" "co_occurrence" =
      .ok (Hashing.hex nearbyDigests[1].2) :=
    hknown nearbyDigests[1] (List.mem_cons_of_mem _ List.mem_cons_self)
  rw [← hhex]
  exact mapM_eq_ok.mpr (.cons hfirst (.cons hsecond .nil))

theorem candidate_pairs_complete_nearby :
    nearby.extract sampleMentions = .ok nearbyRelations ∧
      nearbyRelations.length ≤ 10000 ∧
      nearbyRelations.mapM (Relation.id nearbyDigest "d1" "co_occurrence") =
        .ok ["dc7d8658b4a17c6f9144a57a8ba6e97d", "99a429fa7d802779d34e9b317fd0d936"] ∧
      ["dc7d8658b4a17c6f9144a57a8ba6e97d", "99a429fa7d802779d34e9b317fd0d936"].Nodup := by
  have hextract : nearby.extract sampleMentions = .ok nearbyRelations := by decide +kernel
  have hfree : FreeOfCollisions nearbyDigest "d1" "co_occurrence" nearbyRelations := fun _ _ _ _ =>
    Hashing.collisionFree_knownDigest (by decide) (by decide) _ _ _
  obtain ⟨hcap, hids⟩ := (candidate_pairs_complete prepared_sampleMentions nearbyDigest "d1").2.1
    nearby nearbyRelations hextract
  exact ⟨hextract, hcap, mapM_id_nearbyRelations, hids hfree _ mapM_id_nearbyRelations⟩

end Stel.Text
