import Stel.Dag
import Stel.Data.Keyed
import Stel.Data.SortedSet
import Stel.Failure
import Mathlib.Data.Bool.Basic
import Mathlib.Data.Prod.Lex
import Mathlib.Data.String.Basic

/-!
# The concept cloud

`build_concept_cloud` of `concept_cloud/export.py`: the links of mentions to canonical ids are grouped
to concepts, the most frequent of which are kept, and the relations of mentions become edges of
concepts. The time, the project and the DAG plane of the bundle are left out, save for the ids of the
plane.

A frame is a list of rows, and its rows may come in any order. What depends on the order is the text of
a concept, which is the first one that is not blank, and the concept of a mention, which is that of its
last link.

## Main definitions

* `aggregateConcepts`, `aggregateEdges`, `buildConceptCloud`.
* `rankedKeys`, `relationKeys`: the concepts by frequency, and the edges, by counts of rows.
* `OneLink`, `OneSpelling`, `OneText`: the links of a mention, the ids and the texts of a concept leave
  no choice.

## Main results

* `map_key_concepts`, `aggregateEdges_eq_ok`: what is returned, by counts of rows.
* `buildConceptCloud_spec`: the bundle, for all orders of the rows.
-/

namespace Stel.ConceptCloud

/-! ### Frames -/

/-- A value of a row; a number is `none` if it is NaN. -/
inductive Value (σ : Type)
  | null
  | text (s : String)
  | number (x : Option σ)
  | boolean (b : Bool)
  deriving DecidableEq

/-- A frame. A row is `null` in the columns that the frame does not have, which is what `row.get`
returns. -/
structure Frame (σ : Type) where
  columns : List String
  rows : List (String → Value σ)
  blank : ∀ row ∈ rows, ∀ c ∉ columns, row c = .null

section Values

variable {σ : Type} (render : Option σ → String)

/-- `str`, where `render` is that of a number. -/
def Value.str : Value σ → String
  | .null => "None"
  | .text s => s
  | .number x => render x
  | .boolean b => if b then "True" else "False"

/-- `bool`. -/
def Value.truthy [DecidableEq σ] [Zero σ] : Value σ → Bool
  | .null => false
  | .text s => s ≠ ""
  | .number x => x ≠ some 0
  | .boolean b => b

/-- The number of a value, if it is one. -/
def Value.number? : Value σ → Option (Option σ)
  | .number x => some x
  | _ => none

/-- A text that a dict may hold. -/
def Value.ofText (s : Option String) : Value σ := s.elim .null .text

/-- A value that `_first` takes. -/
def Value.IsText (v : Value σ) : Prop := v ≠ .null ∧ isBlank (v.str render) = false

instance [DecidableEq σ] (v : Value σ) : Decidable (v.IsText render) :=
  inferInstanceAs (Decidable (v ≠ .null ∧ _))

/-- `_first`. -/
def firstText [DecidableEq σ] (values : List (Value σ)) : Option (Value σ) :=
  values.find? fun v => v.IsText render

/-- `max` of two floats: the second one only if it is greater, which NaN never is. -/
def pyMax [LinearOrder σ] : Option σ → Option σ → Option σ
  | some a, some b => if a < b then some b else some a
  | a, _ => a

/-- `max` of a list, or what a loop keeps of its values. -/
def pyMaximum [LinearOrder σ] (xs : List (Option σ)) : Option (Option σ) :=
  xs.foldl (fun m x => some (m.elim x fun m => pyMax m x)) none

end Values

/-! ### The contract -/

/-- `link_status`. -/
inductive LinkStatus
  | matched
  | ambiguous
  deriving DecidableEq

/-- `Concept`, with its `Provenance`. -/
structure Concept (σ : Type) where
  canonicalId : String
  display : String
  label : Option String
  frequency : ℕ
  linkStatus : LinkStatus
  matchScore : Option σ
  model : String
  sourceNode : Option String
  documents : ℕ

/-- `ConceptEdgeMethod`. -/
inductive EdgeMethod
  | coOccurrence
  | rule
  | modelAssertion
  deriving DecidableEq

/-- `ConceptEdge`. -/
structure ConceptEdge (σ : Type) where
  source : String
  target : String
  relationType : String
  directed : Bool
  method : EdgeMethod
  weight : ℕ
  confidence : Option σ

/-- `ConceptCloudExport`, with its cross-layer edges as pairs. -/
structure ConceptCloudExport (σ : Type) where
  concepts : List (Concept σ)
  conceptEdges : List (ConceptEdge σ)
  crossLayerEdges : List (String × String)

/-- The `ValidationError` of a contract. -/
def invalid {α : Type} : Except Failure α := .error (.other "ValidationError")

/-- `_require_non_empty`. -/
def requireNonEmpty (value : String) : Except Failure String :=
  if stripText value = "" then invalid else .ok (stripText value)

/-- A score that is missing or in the unit interval. -/
def unitRange {σ : Type} [LinearOrder σ] [Zero σ] [One σ] :
    Option (Option σ) → Except Failure (Option σ)
  | none => .ok none
  | some none => invalid
  | some (some x) => if 0 ≤ x ∧ x ≤ 1 then .ok (some x) else invalid

/-- The values of `ConceptEdgeMethod`. -/
def edgeMethod (method : String) : Except Failure EdgeMethod :=
  if method = "co_occurrence" then .ok .coOccurrence
  else if method = "rule" then .ok .rule
  else if method = "model_assertion" then .ok .modelAssertion
  else invalid

/-! ### Concepts -/

section Build

variable {σ : Type} [LinearOrder σ] [Zero σ] [One σ] (render : Option σ → String)

/-- `_mention_enrichment`, for one column: the texts by mention, the last one of each. -/
def mentionEnrichment (entities : Option (Frame σ)) (column : String) : Keyed String String :=
  match entities with
  | none => ∅
  | some frame =>
    if "entity_id" ∉ frame.columns then ∅
    else Keyed.upsertAll ∅ ((frame.rows.filter fun row => row column ≠ .null).map fun row =>
      ((row "entity_id").str render, (row column).str render))

/-- The links that are aggregated. -/
def linkedRows (links : Frame σ) (statuses : List String) : List (String → Value σ) :=
  let rows := links.rows.filter fun row => row "canonical_id" ≠ .null
  if "status" ∈ links.columns then rows.filter fun row => row "status" ∈ statuses.map .text
  else rows

/-- The canonical id of a link. -/
def canonicalId (row : String → Value σ) : String := (row "canonical_id").str render

/-- The mention of a link. -/
def mentionId (row : String → Value σ) : String := (row "mention_id").str render

/-- The texts of a concept for `_first`: those of its links, and then those of their mentions. -/
def candidates (column : String) (enriched : Keyed String String) (rows : List (String → Value σ)) :
    List (Value σ) :=
  rows.map (· column) ++ rows.map fun row => .ofText (enriched.lookup (mentionId render row))

/-- The concept of a canonical id with its links. -/
def conceptOf (linkingModel : String) (linkingNodeId : Option String) (labels texts : Keyed String String)
    (cid : String) (rows : List (String → Value σ)) : Except Failure (Concept σ) := do
  let documents := ((rows.map (· "document_id")).filter (· ≠ .null)).dedup
  let label := firstText render (candidates render "label" labels rows)
  let display := (firstText render (candidates render "mention_text" texts rows)).filter Value.truthy
  let scores := rows.filterMap fun row => (row "match_score").number?
  let canonicalId ← requireNonEmpty cid
  let display ← requireNonEmpty (display.elim cid (Value.str render))
  let matchScore ← unitRange (pyMaximum scores)
  let model ← requireNonEmpty linkingModel
  return {
    canonicalId, display, matchScore, model
    label := label.map (Value.str render)
    frequency := rows.length
    linkStatus := if ∃ row ∈ rows, row "status" = .text "ambiguous" then .ambiguous else .matched
    sourceNode := linkingNodeId.filter (· ≠ "")
    documents := documents.length }

/-- The key of the sort: the most frequent first, by their ids. -/
def Concept.key (c : Concept σ) : ℕᵒᵈ ×ₗ String := toLex (OrderDual.toDual c.frequency, c.canonicalId)

/-- The canonical ids in the order in which they occur. -/
def canonicalIds (rows : List (String → Value σ)) : List String :=
  ((rows.map (canonicalId render)).reverse.dedup).reverse

/-- The concepts of some links, before they are capped. -/
def conceptsOf (linkingModel : String) (linkingNodeId : Option String) (entities : Option (Frame σ))
    (rows : List (String → Value σ)) : Except Failure (List (Concept σ)) :=
  (canonicalIds render rows).mapM fun cid => conceptOf render linkingModel linkingNodeId
    (mentionEnrichment render entities "label") (mentionEnrichment render entities "entity_text") cid
    (rows.filter fun row => canonicalId render row = cid)

/-- `canonical_of`: the canonical id of the last link of each mention. -/
def canonicalOf (rows : List (String → Value σ)) : Keyed String String :=
  Keyed.upsertAll ∅ (rows.map fun row => (mentionId render row, canonicalId render row))

/-- `_aggregate_concepts`: the concepts, and the kept concept of a mention. -/
def aggregateConcepts (links : Frame σ) (entities : Option (Frame σ)) (linkingModel : String)
    (linkingNodeId : Option String) (topN : ℤ) (statuses : List String) :
    Except Failure (List (Concept σ) × (String → Option String)) :=
  if "canonical_id" ∉ links.columns ∨ "mention_id" ∉ links.columns then
    .error (.other ("entity-linking output must have `canonical_id` and `mention_id` columns"))
  else do
    let rows := linkedRows links statuses
    let concepts ← conceptsOf render linkingModel linkingNodeId entities rows
    let concepts := (concepts.insertionSort fun c d : Concept σ => c.key ≤ d.key).take (max 0 topN).toNat
    let kept := concepts.map (·.canonicalId)
    return (concepts, fun mention => ((canonicalOf render rows).lookup mention).filter (· ∈ kept))

/-! ### Edges -/

/-- The key of an edge: source, target, type, method, and whether it is directed. -/
abbrev EdgeKey : Type := String ×ₗ String ×ₗ String ×ₗ String ×ₗ Bool

/-- The key of the edge that a relation counts for, if its mentions have two different concepts. -/
def edgeKey (resolve : String → Option String) (row : String → Value σ) : Option EdgeKey := do
  let s ← resolve ((row "subject_mention_id").str render)
  let t ← resolve ((row "object_mention_id").str render)
  if s = t then none
  else
    let directed := (row "directed").truthy
    let pair := if directed ∨ s ≤ t then (s, t) else (t, s)
    let method := if (row "method").truthy then (row "method").str render else "co_occurrence"
    return toLex (pair.1, toLex (pair.2, toLex ((row "relation_type").str render, toLex (method, directed))))

/-- The edge of a key. -/
def edgeOf (key : EdgeKey) (weight : ℕ) (confidence : Option (Option σ)) :
    Except Failure (ConceptEdge σ) := do
  let (source, target, relationType, method, directed) := key
  let source ← requireNonEmpty source
  let target ← requireNonEmpty target
  let relationType ← requireNonEmpty relationType
  let method ← edgeMethod method
  let confidence ← unitRange confidence
  if source = target then invalid
  else return ⟨source, target, relationType, directed, method, weight, confidence⟩

/-- What the loop over the relations makes of the confidence of a key. -/
def updateConfidence (conf : Value σ) (prev : Option (Option (Option σ))) : Option (Option σ) :=
  match conf.number? with
  | some x => some (prev.join.elim x fun m => pyMax m x)
  | none => prev.join

/-- `_aggregate_edges`. -/
def aggregateEdges (relations : Option (Frame σ)) (resolve : String → Option String) (kept : List String) :
    Except Failure (List (ConceptEdge σ)) :=
  match relations with
  | none => .ok []
  | some frame =>
    if frame.rows = [] ∨ kept = [] then .ok []
    else if ¬ ["subject_mention_id", "object_mention_id", "relation_type"] ⊆ frame.columns then .ok []
    else
      let passes := frame.rows.filterMap fun row =>
        (edgeKey render resolve row).map fun key => (key, row "confidence")
      let weights : Keyed EdgeKey ℕ :=
        passes.foldl (fun w p => w.modify p.1 fun n => n.getD 0 + 1) ∅
      let confidences : Keyed EdgeKey (Option (Option σ)) :=
        passes.foldl (fun c p => c.modify p.1 (updateConfidence p.2)) ∅
      (sortedSet weights.keys).mapM fun key =>
        edgeOf key ((weights.lookup key).getD 0) (confidences.lookup key).join

/-- `build_concept_cloud`, where `nodeIds` are the ids of the DAG plane. -/
def buildConceptCloud (links : Frame σ) (nodeIds : List String) (entities relations : Option (Frame σ))
    (linkingNodeId : Option String) (linkingModel : String) (topN : ℤ) (statuses : List String) :
    Except Failure (ConceptCloudExport σ) := do
  let linkingNode := linkingNodeId.filter (· ∈ nodeIds)
  let (concepts, resolve) ← aggregateConcepts render links entities linkingModel linkingNode topN statuses
  let kept := concepts.map (·.canonicalId)
  let edges ← aggregateEdges render relations resolve kept
  let crossLayerEdges ← (linkingNode.elim [] fun node => kept.map fun c => (c, node)).mapM fun e => do
    let concept ← requireNonEmpty e.1
    let node ← requireNonEmpty e.2
    return (concept, node)
  if ¬ kept.Nodup ∨ ¬ (∀ edge ∈ edges, edge.source ∈ kept ∧ edge.target ∈ kept) ∨
      ¬ ∀ e ∈ crossLayerEdges, e.1 ∈ kept ∧ e.2 ∈ nodeIds then invalid
  else return ⟨concepts, edges, crossLayerEdges⟩

end Build

/-! ### Values -/

section Values

variable {σ : Type} [LinearOrder σ]

theorem foldl_pyMax_nan (xs : List (Option σ)) : xs.foldl pyMax none = none := by
  induction xs with
  | nil => rfl
  | cons y xs ih => exact ih

/-- A maximum that is a number is the greatest of the numbers. -/
theorem foldl_pyMax {xs : List (Option σ)} {o : Option σ} {m : σ} (h : xs.foldl pyMax o = some m) :
    some m ∈ o :: xs ∧ ∀ x, some x ∈ o :: xs → x ≤ m := by
  induction xs generalizing o with
  | nil =>
    obtain rfl : o = some m := h
    exact ⟨List.mem_cons_self, fun x hx => (Option.some.inj (List.mem_singleton.mp hx)).le⟩
  | cons y xs ih =>
    rw [List.foldl_cons] at h
    cases o with
    | none =>
      rw [show pyMax none y = none from rfl, foldl_pyMax_nan] at h
      cases h
    | some a =>
      obtain ⟨hmem, hle⟩ := ih h
      cases y with
      | none =>
        rw [show pyMax (some a) none = some a from rfl] at hmem hle
        refine ⟨?_, fun x hx => hle x ?_⟩
        · rcases List.mem_cons.mp hmem with heq | hmem
          · exact heq ▸ List.mem_cons_self
          · exact List.mem_cons_of_mem _ (List.mem_cons_of_mem _ hmem)
        · simpa using hx
      | some b =>
        have hstep : pyMax (some a) (some b) = some (max a b) := by
          show (if a < b then some b else some a) = _
          split
          · rw [max_eq_right ‹a < b›.le]
          · rw [max_eq_left (not_lt.mp ‹_›)]
        rw [hstep] at hmem hle
        have hmax := hle _ List.mem_cons_self
        refine ⟨?_, fun x hx => ?_⟩
        · rcases List.mem_cons.mp hmem with heq | hmem
          · rw [heq]
            rcases max_choice a b with h | h <;> rw [h] <;> simp
          · exact List.mem_cons_of_mem _ (List.mem_cons_of_mem _ hmem)
        · rcases List.mem_cons.mp hx with heq | hx
          · obtain rfl := Option.some.inj heq
            exact (le_max_left _ _).trans hmax
          · rcases List.mem_cons.mp hx with heq | hx
            · obtain rfl := Option.some.inj heq
              exact (le_max_right _ _).trans hmax
            · exact hle x (List.mem_cons_of_mem _ hx)

theorem pyMaximum_cons (x : Option σ) (xs : List (Option σ)) :
    pyMaximum (x :: xs) = some (xs.foldl pyMax x) := by
  have hfold : ∀ (xs : List (Option σ)) o, xs.foldl (fun m x => some (m.elim x fun m => pyMax m x))
      (some o) = some (xs.foldl pyMax o) := by
    intro xs
    induction xs with
    | nil => exact fun _ => rfl
    | cons y xs ih => exact fun o => ih (pyMax o y)
  exact hfold xs x

theorem foldl_pyMax_some (xs : List (Option σ)) (a : σ) : ∃ m, xs.foldl pyMax (some a) = some m := by
  induction xs generalizing a with
  | nil => exact ⟨a, rfl⟩
  | cons y xs ih =>
    rw [List.foldl_cons]
    cases y with
    | none => exact ih a
    | some b =>
      show ∃ m, xs.foldl pyMax (if a < b then some b else some a) = some m
      split
      · exact ih b
      · exact ih a

theorem foldl_pyMax_perm {x y : Option σ} {xs ys : List (Option σ)} {m m' : σ}
    (hperm : (x :: xs).Perm (y :: ys)) (h : xs.foldl pyMax x = some m) (h' : ys.foldl pyMax y = some m') :
    m = m' := by
  obtain ⟨hmem, hle⟩ := foldl_pyMax h
  obtain ⟨hmem', hle'⟩ := foldl_pyMax h'
  exact le_antisymm (hle' m (hperm.mem_iff.mp hmem)) (hle m' (hperm.mem_iff.mpr hmem'))

/-- The order of the numbers does not matter for the greatest of them, if none is NaN. -/
theorem pyMaximum_perm {xs ys : List (Option σ)} (hperm : xs.Perm ys) (hnan : none ∉ xs) :
    pyMaximum xs = pyMaximum ys := by
  cases xs with
  | nil => rw [hperm.nil_eq]
  | cons x xs =>
    cases ys with
    | nil => exact absurd hperm.eq_nil (List.cons_ne_nil _ _)
    | cons y ys =>
      have hnumber : ∀ {z}, z ∈ x :: xs → ∃ a, z = some a := fun hz =>
        Option.ne_none_iff_exists'.mp fun h => hnan (h ▸ hz)
      obtain ⟨a, rfl⟩ := hnumber List.mem_cons_self
      obtain ⟨b, rfl⟩ := hnumber (hperm.mem_iff.mpr List.mem_cons_self)
      obtain ⟨m, hm⟩ := foldl_pyMax_some xs a
      obtain ⟨m', hm'⟩ := foldl_pyMax_some ys b
      rw [pyMaximum_cons, pyMaximum_cons, hm, hm', foldl_pyMax_perm hperm hm hm']

/-- Nor does it matter for a maximum that is accepted. -/
theorem unitRange_pyMaximum_perm [Zero σ] [One σ] {xs ys : List (Option σ)} {r r' : Option σ}
    (hperm : xs.Perm ys) (h : unitRange (pyMaximum xs) = .ok r) (h' : unitRange (pyMaximum ys) = .ok r') :
    r = r' := by
  have hnumber : ∀ {o : Option σ} {r}, unitRange (some o) = .ok r → r = o ∧ ∃ m, o = some m := by
    intro o r h
    cases o with
    | none => cases h
    | some m =>
      have h : (if 0 ≤ m ∧ m ≤ 1 then Except.ok (some m) else invalid) = .ok r := h
      split at h
      · exact ⟨(Except.ok.inj h).symm, m, rfl⟩
      · cases h
  cases xs with
  | nil =>
    obtain rfl := hperm.nil_eq
    exact Except.ok.inj (h.symm.trans h')
  | cons x xs =>
    cases ys with
    | nil => exact absurd hperm.eq_nil (List.cons_ne_nil _ _)
    | cons y ys =>
      rw [pyMaximum_cons] at h h'
      obtain ⟨rfl, m, hm⟩ := hnumber h
      obtain ⟨rfl, m', hm'⟩ := hnumber h'
      rw [hm, hm', foldl_pyMax_perm hperm hm hm']

theorem mem_of_firstText {render : Option σ → String} {zs : List (Value σ)} {v : Value σ}
    (h : firstText render zs = some v) : v ∈ zs ∧ v.IsText render := by
  have htext := List.find?_some h
  exact ⟨List.mem_of_find?_eq_some h, of_decide_eq_true htext⟩

/-- The first text is the same in every order if there is only one. -/
theorem firstText_perm (render : Option σ → String) {xs ys : List (Value σ)} (hperm : xs.Perm ys)
    (hone : ∀ v ∈ xs, ∀ w ∈ xs, v.IsText render → w.IsText render → v = w) :
    firstText render xs = firstText render ys := by
  cases hx : firstText render xs with
  | none =>
    rw [firstText, List.find?_eq_none] at hx
    refine (List.find?_eq_none.mpr fun v hv => hx v (hperm.mem_iff.mpr hv)).symm
  | some v =>
    obtain ⟨hv, htext⟩ := mem_of_firstText hx
    cases hy : firstText render ys with
    | none =>
      rw [firstText, List.find?_eq_none] at hy
      exact absurd (decide_eq_true htext) (hy v (hperm.mem_iff.mp hv))
    | some w =>
      obtain ⟨hw, htext'⟩ := mem_of_firstText hy
      rw [hone v hv w (hperm.mem_iff.mpr hw) htext htext']

end Values

/-! ### Concepts by frequency -/

section Ids

variable {σ : Type} {render : Option σ → String} {rows rows' : List (String → Value σ)}

@[simp] theorem mem_canonicalIds {cid : String} :
    cid ∈ canonicalIds render rows ↔ ∃ row ∈ rows, canonicalId render row = cid := by
  simp [canonicalIds]

theorem nodup_canonicalIds : (canonicalIds render rows).Nodup :=
  List.nodup_reverse.mpr (List.nodup_dedup _)

theorem canonicalIds_perm (h : rows.Perm rows') :
    (canonicalIds render rows).Perm (canonicalIds render rows') :=
  (List.perm_ext_iff_of_nodup nodup_canonicalIds nodup_canonicalIds).mpr fun cid => by
    simp only [mem_canonicalIds, h.mem_iff]

theorem none_notMem_numbers {column : String} (hnan : ∀ row ∈ rows, row column ≠ .number none) :
    none ∉ rows.filterMap fun row => (row column).number? := by
  intro hmem
  obtain ⟨row, hrow, hnumber⟩ := List.mem_filterMap.mp hmem
  cases hvalue : row column with
  | number x =>
    rw [hvalue] at hnumber
    obtain rfl : x = none := Option.some.inj hnumber
    exact hnan row hrow hvalue
  | null | text | boolean =>
    rw [hvalue] at hnumber
    cases hnumber

/-- The key of the concept of a canonical id. -/
def conceptKey (render : Option σ → String) (rows : List (String → Value σ)) (cid : String) : ℕᵒᵈ ×ₗ String :=
  toLex (OrderDual.toDual (rows.filter fun row => canonicalId render row = cid).length, stripText cid)

/-- The frequencies and ids of all concepts, the most frequent first and ties by the id. -/
def rankedKeys (render : Option σ → String) (rows : List (String → Value σ)) : List (ℕᵒᵈ ×ₗ String) :=
  ((canonicalIds render rows).map (conceptKey render rows)).insertionSort (· ≤ ·)

theorem rankedKeys_perm (h : rows.Perm rows') : rankedKeys render rows = rankedKeys render rows' := by
  have hkey : conceptKey render rows = conceptKey render rows' := by
    funext cid
    rw [conceptKey, conceptKey, (h.filter _).length_eq]
  have hkeys : ((canonicalIds render rows).map (conceptKey render rows')).Perm
      ((canonicalIds render rows').map (conceptKey render rows')) := (canonicalIds_perm h).map _
  rw [rankedKeys, hkey]
  exact ((List.perm_insertionSort _ _).trans (hkeys.trans (List.perm_insertionSort _ _).symm)).eq_of_pairwise
    (fun _ _ _ _ => le_antisymm) (List.pairwise_insertionSort _ _) (List.pairwise_insertionSort _ _)

/-- The kept concept of a mention: that of its last link. -/
def keptOf (render : Option σ → String) (rows : List (String → Value σ)) (concepts : List (Concept σ))
    (mention : String) : Option String :=
  ((canonicalOf render rows).lookup mention).filter (· ∈ concepts.map (·.canonicalId))

theorem keptOf_eq_none {concepts : List (Concept σ)} (h : concepts.map (·.canonicalId) = [])
    (mention : String) : keptOf render rows concepts mention = none := by
  refine Option.filter_eq_none_iff.mpr fun cid _ hmem => ?_
  rw [decide_eq_true_iff, h] at hmem
  cases hmem

theorem ids_of_keys {concepts concepts' : List (Concept σ)}
    (h : concepts.map Concept.key = concepts'.map Concept.key) :
    concepts.map (·.canonicalId) = concepts'.map (·.canonicalId) := by
  simpa only [List.map_map, Function.comp_def, Concept.key, ofLex_toLex] using
    congrArg (List.map fun key => (ofLex key).2) h

end Ids

section Concepts

variable {σ : Type} [LinearOrder σ] [Zero σ] [One σ] {render : Option σ → String}
  {rows rows' : List (String → Value σ)}

theorem isBlank_of_stripText {value : String} (h : stripText value = "") : isBlank value = true := by
  have hnil : (value.toList.dropWhile isSpace).rdropWhile isSpace = [] := by
    have hlist := congrArg String.toList h
    rwa [stripText, String.toList_ofList] at hlist
  refine List.all_eq_true.mpr fun c hc => ?_
  rw [← List.takeWhile_append_dropWhile (p := isSpace) (l := value.toList), List.mem_append] at hc
  rcases hc with hc | hc
  · exact List.mem_takeWhile_imp hc
  · exact List.rdropWhile_eq_nil_iff.mp hnil c hc

theorem requireNonEmpty_eq_ok {value result : String} (h : requireNonEmpty value = .ok result) :
    result = stripText value := by
  unfold requireNonEmpty at h
  split at h
  · cases h
  · exact (Except.ok.inj h).symm

variable {linkingModel : String} {linkingNodeId : Option String} {labels texts : Keyed String String}
  {cid : String} {c : Concept σ} {entities : Option (Frame σ)}

/-- The fields of an accepted concept. -/
theorem conceptOf_eq_ok
    (h : conceptOf render linkingModel linkingNodeId labels texts cid rows = .ok c) :
    ∃ matchScore, unitRange (pyMaximum (rows.filterMap fun row => (row "match_score").number?)) =
        .ok matchScore ∧
      c = {
        canonicalId := stripText cid
        display := stripText (((firstText render (candidates render "mention_text" texts rows)).filter
          Value.truthy).elim cid (Value.str render))
        label := (firstText render (candidates render "label" labels rows)).map (Value.str render)
        frequency := rows.length
        linkStatus := if ∃ row ∈ rows, row "status" = .text "ambiguous" then .ambiguous else .matched
        matchScore
        model := stripText linkingModel
        sourceNode := linkingNodeId.filter (· ≠ "")
        documents := ((rows.map (· "document_id")).filter (· ≠ .null)).dedup.length } := by
  unfold conceptOf at h
  obtain ⟨id, hid, h⟩ := bind_eq_ok.mp h
  obtain ⟨display, hdisplay, h⟩ := bind_eq_ok.mp h
  obtain ⟨matchScore, hscore, h⟩ := bind_eq_ok.mp h
  obtain ⟨model, hmodel, h⟩ := bind_eq_ok.mp h
  refine ⟨matchScore, hscore, ?_⟩
  rw [← requireNonEmpty_eq_ok hid, ← requireNonEmpty_eq_ok hdisplay, ← requireNonEmpty_eq_ok hmodel]
  exact (Except.ok.inj h).symm

theorem key_conceptOf
    (h : conceptOf render linkingModel linkingNodeId labels texts cid
      (rows.filter fun row => canonicalId render row = cid) = .ok c) : c.key = conceptKey render rows cid := by
  obtain ⟨matchScore, -, rfl⟩ := conceptOf_eq_ok h
  rfl

theorem map_key_conceptsOf {concepts : List (Concept σ)}
    (h : conceptsOf render linkingModel linkingNodeId entities rows = .ok concepts) :
    concepts.map Concept.key = (canonicalIds render rows).map (conceptKey render rows) := by
  have hall := mapM_eq_ok.mp h
  rw [← List.forall₂_eq_eq_eq, List.forall₂_map_left_iff, List.forall₂_map_right_iff]
  exact hall.flip.imp fun _ _ hc => key_conceptOf hc

theorem aggregateConcepts_eq_ok {links : Frame σ} {topN : ℤ} {statuses : List String}
    {concepts : List (Concept σ)} {resolve : String → Option String} :
    aggregateConcepts render links entities linkingModel linkingNodeId topN statuses =
        .ok (concepts, resolve) ↔
      ¬ ("canonical_id" ∉ links.columns ∨ "mention_id" ∉ links.columns) ∧
      ∃ all, conceptsOf render linkingModel linkingNodeId entities (linkedRows links statuses) = .ok all ∧
        concepts = (all.insertionSort fun c d : Concept σ => c.key ≤ d.key).take (max 0 topN).toNat ∧
        resolve = keptOf render (linkedRows links statuses) concepts := by
  unfold aggregateConcepts
  split
  · rename_i hcolumns
    exact ⟨nofun, fun h => absurd hcolumns h.1⟩
  · rename_i hcolumns
    rw [bind_eq_ok]
    constructor
    · rintro ⟨all, hall, h⟩
      obtain ⟨rfl, rfl⟩ := Prod.mk.inj (Except.ok.inj h)
      exact ⟨hcolumns, all, hall, rfl, rfl⟩
    · rintro ⟨-, all, hall, rfl, rfl⟩
      exact ⟨all, hall, rfl⟩

/-- The kept concepts are the first ones by frequency and id. -/
theorem map_key_concepts {links : Frame σ} {topN : ℤ} {statuses : List String}
    {concepts : List (Concept σ)} {resolve : String → Option String}
    (h : aggregateConcepts render links entities linkingModel linkingNodeId topN statuses =
      .ok (concepts, resolve)) :
    concepts.map Concept.key = (rankedKeys render (linkedRows links statuses)).take (max 0 topN).toNat := by
  obtain ⟨-, all, hall, rfl, -⟩ := aggregateConcepts_eq_ok.mp h
  rw [List.map_take, List.map_insertionSort _ (· ≤ ·) Concept.key all fun _ _ _ _ => Iff.rfl,
    map_key_conceptsOf hall]
  rfl

end Concepts

/-! ### Edges by key -/

section Edges

theorem foldl_count {α : Type} (xs : List α) (n : ℕ) :
    xs.foldl (fun (old : Option ℕ) _ => some (old.getD 0 + 1)) (some n) = some (n + xs.length) := by
  induction xs generalizing n with
  | nil => rfl
  | cons x xs ih =>
    rw [List.foldl_cons, ih, List.length_cons]
    congr 1
    show n + 1 + xs.length = _
    omega

theorem foldl_updateConfidence {σ : Type} [LinearOrder σ] (xs : List (EdgeKey × Value σ))
    (o : Option (Option (Option σ))) :
    (xs.foldl (fun old x => some (updateConfidence x.2 old)) o).join =
      (xs.filterMap fun x => x.2.number?).foldl (fun m x => some (m.elim x fun m => pyMax m x)) o.join := by
  induction xs generalizing o with
  | nil => rfl
  | cons x xs ih =>
    rw [List.foldl_cons, ih, List.filterMap_cons]
    cases hnumber : x.2.number? with
    | none =>
      simp only [updateConfidence, hnumber, Option.join_some]
    | some y =>
      simp only [updateConfidence, hnumber, Option.join_some, List.foldl_cons]

variable {σ : Type} [LinearOrder σ] [Zero σ] (render : Option σ → String)
  (resolve : String → Option String)

/-- The relation rows that are read: none if a column is missing. -/
def relationRows (relations : Option (Frame σ)) : List (String → Value σ) :=
  match relations with
  | none => []
  | some frame =>
    if ["subject_mention_id", "object_mention_id", "relation_type"] ⊆ frame.columns then frame.rows else []

/-- The keys that the relations count for, one for each relation whose mentions have two different
concepts. -/
def relationKeys (rows : List (String → Value σ)) : List EdgeKey := rows.filterMap (edgeKey render resolve)

/-- The confidences of the relations of a key. -/
def confidencesOf (rows : List (String → Value σ)) (key : EdgeKey) : List (Option σ) :=
  (rows.filter fun row => edgeKey render resolve row = some key).filterMap fun row =>
    (row "confidence").number?

variable {render resolve} {rows rows' : List (String → Value σ)} {key : EdgeKey} {kept : List String}
  {relations : Option (Frame σ)} {edges : List (ConceptEdge σ)}

/-- The passes of the loop for a key come from its rows. -/
theorem passes_filter : ((rows.filterMap fun row => (edgeKey render resolve row).map fun key =>
      (key, row "confidence")).filter fun p => p.1 = key) =
    (rows.filter fun row => edgeKey render resolve row = some key).map fun row => (key, row "confidence") := by
  induction rows with
  | nil => rfl
  | cons row rows ih =>
    rw [List.filterMap_cons, List.filter_cons]
    cases hkey : edgeKey render resolve row with
    | none => simpa using ih
    | some key' =>
      by_cases heq : key' = key
      · subst heq
        simpa using ih
      · simpa [heq] using ih

variable [One σ]

/-- The edges of a bundle: one for each key, in order, with the number and the greatest confidence of
its relations. -/
theorem aggregateEdges_eq_ok (hresolve : kept = [] → ∀ mention, resolve mention = none) :
    aggregateEdges render relations resolve kept = .ok edges ↔
      List.Forall₂ (fun key edge => edgeOf key
          ((relationKeys render resolve (relationRows relations)).count key)
          (pyMaximum (confidencesOf render resolve (relationRows relations) key)) = .ok edge)
        (sortedSet (relationKeys render resolve (relationRows relations))) edges := by
  have hnone : relationKeys render resolve (relationRows relations) = [] →
      ((.ok [] : Except Failure _) = .ok edges ↔ List.Forall₂ (fun key edge => edgeOf key
          ((relationKeys render resolve (relationRows relations)).count key)
          (pyMaximum (confidencesOf render resolve (relationRows relations) key)) = .ok edge)
        (sortedSet (relationKeys render resolve (relationRows relations))) edges) := by
    intro hkeys
    rw [sortedSet_eq_nil.mpr hkeys, List.forall₂_nil_left_iff]
    exact ⟨fun h => (Except.ok.inj h).symm, fun h => congrArg Except.ok h.symm⟩
  unfold aggregateEdges
  cases relations with
  | none => exact hnone rfl
  | some frame =>
    simp only
    split
    · rename_i hempty
      refine hnone ?_
      rcases hempty with hrows | hkept
      · simp [relationKeys, relationRows, hrows]
      · refine List.filterMap_eq_nil_iff.mpr fun row _ => ?_
        rw [edgeKey, hresolve hkept]
        rfl
    split
    · rename_i hcolumns
      refine hnone ?_
      rw [relationKeys, relationRows, if_neg hcolumns, List.filterMap_nil]
    · rename_i hcolumns
      have hrows : relationRows (some frame) = frame.rows := if_pos (not_not.mp hcolumns)
      rw [hrows, mapM_eq_ok]
      set passes := frame.rows.filterMap fun row =>
        (edgeKey render resolve row).map fun key => (key, row "confidence") with hpasses
      have hlength : ∀ key, (passes.filter fun p => p.1 = key).length =
          (relationKeys render resolve frame.rows).count key := by
        intro key
        rw [hpasses, passes_filter, List.length_map, relationKeys, List.count_filterMap,
          List.countP_eq_length_filter]
        congr 2
        funext row
        rw [Bool.eq_iff_iff, decide_eq_true_iff, beq_iff_eq]
      have hweight : ∀ key, ((passes.foldl (fun w p => w.modify p.1 fun n => n.getD 0 + 1)
          (∅ : Keyed EdgeKey ℕ)).lookup key).getD 0 = (relationKeys render resolve frame.rows).count key := by
        intro key
        rw [Keyed.lookup_foldl_modify Prod.fst (fun _ n => n.getD 0 + 1), AList.lookup_empty, ← hlength]
        cases passes.filter fun p => p.1 = key with
        | nil => rfl
        | cons p ps =>
          show (ps.foldl (fun old _ => some (old.getD 0 + 1)) (some 1)).getD 0 = _
          rw [foldl_count, Option.getD_some, List.length_cons, Nat.add_comm]
      have hconfidence : ∀ key, ((passes.foldl (fun c p => c.modify p.1 (updateConfidence p.2))
          (∅ : Keyed EdgeKey (Option (Option σ)))).lookup key).join =
          pyMaximum (confidencesOf render resolve frame.rows key) := by
        intro key
        rw [Keyed.lookup_foldl_modify Prod.fst fun p => updateConfidence p.2, AList.lookup_empty,
          foldl_updateConfidence, hpasses, passes_filter, List.filterMap_map]
        rfl
      have hkeys : ∀ key, key ∈ (passes.foldl (fun w p => w.modify p.1 fun n => n.getD 0 + 1)
          (∅ : Keyed EdgeKey ℕ)).keys ↔ key ∈ relationKeys render resolve frame.rows := by
        intro key
        rw [Keyed.mem_iff_isSome, ← List.count_pos_iff, ← hweight,
          Keyed.lookup_foldl_modify Prod.fst (fun _ n => n.getD 0 + 1), AList.lookup_empty]
        cases passes.filter fun p => p.1 = key with
        | nil => simp
        | cons p ps =>
          show (ps.foldl (fun old _ => some (old.getD 0 + 1)) (some 1)).isSome ↔
            0 < (ps.foldl (fun old _ => some (old.getD 0 + 1)) (some 1)).getD 0
          rw [foldl_count]
          simp
      simp only [hweight, hconfidence]
      rw [sortedSet_eq_iff.mpr hkeys]

theorem edgeOf_congr {weight : ℕ} {confidence confidence' : Option (Option σ)} {edge edge' : ConceptEdge σ}
    (hconf : ∀ r r', unitRange confidence = .ok r → unitRange confidence' = .ok r' → r = r')
    (h : edgeOf key weight confidence = .ok edge) (h' : edgeOf key weight confidence' = .ok edge') :
    edge = edge' := by
  unfold edgeOf at h h'
  obtain ⟨source, hsource, h⟩ := bind_eq_ok.mp h
  obtain ⟨target, htarget, h⟩ := bind_eq_ok.mp h
  obtain ⟨relationType, htype, h⟩ := bind_eq_ok.mp h
  obtain ⟨method, hmethod, h⟩ := bind_eq_ok.mp h
  obtain ⟨r, hr, h⟩ := bind_eq_ok.mp h
  obtain ⟨source', hsource', h'⟩ := bind_eq_ok.mp h'
  obtain ⟨target', htarget', h'⟩ := bind_eq_ok.mp h'
  obtain ⟨relationType', htype', h'⟩ := bind_eq_ok.mp h'
  obtain ⟨method', hmethod', h'⟩ := bind_eq_ok.mp h'
  obtain ⟨r', hr', h'⟩ := bind_eq_ok.mp h'
  obtain rfl := Except.ok.inj (hsource.symm.trans hsource')
  obtain rfl := Except.ok.inj (htarget.symm.trans htarget')
  obtain rfl := Except.ok.inj (htype.symm.trans htype')
  obtain rfl := Except.ok.inj (hmethod.symm.trans hmethod')
  obtain rfl := hconf r r' hr hr'
  exact Except.ok.inj (h.symm.trans h')

theorem ne_of_edgeOf {weight : ℕ} {confidence : Option (Option σ)} {edge : ConceptEdge σ}
    (h : edgeOf key weight confidence = .ok edge) : edge.source ≠ edge.target := by
  unfold edgeOf at h
  obtain ⟨source, -, h⟩ := bind_eq_ok.mp h
  obtain ⟨target, -, h⟩ := bind_eq_ok.mp h
  obtain ⟨relationType, -, h⟩ := bind_eq_ok.mp h
  obtain ⟨method, -, h⟩ := bind_eq_ok.mp h
  obtain ⟨r, -, h⟩ := bind_eq_ok.mp h
  split at h
  · cases h
  · obtain rfl := Except.ok.inj h
    assumption

end Edges

/-! ### Orders of the rows -/

section Orders

variable {σ : Type}

/-- Two frames with the same rows, perhaps in another order. -/
structure Reordered (frame frame' : Frame σ) : Prop where
  columns : frame.columns = frame'.columns
  rows : frame.rows.Perm frame'.rows

variable (render : Option σ → String)

/-- No mention is linked to two canonical ids. -/
def OneLink (rows : List (String → Value σ)) : Prop :=
  ∀ row ∈ rows, ∀ row' ∈ rows, mentionId render row = mentionId render row' →
    canonicalId render row = canonicalId render row'

/-- No two canonical ids differ by the space around them only. -/
def OneSpelling (rows : List (String → Value σ)) : Prop :=
  ∀ row ∈ rows, ∀ row' ∈ rows, stripText (canonicalId render row) = stripText (canonicalId render row') →
    canonicalId render row = canonicalId render row'

/-- An entity has one text in a column, and a concept has one for `_first`. -/
structure OneText [LinearOrder σ] (entities : Option (Frame σ)) (rows : List (String → Value σ))
    (column entityColumn : String) : Prop where
  entity : ∀ frame ∈ entities, ∀ row ∈ frame.rows, ∀ row' ∈ frame.rows,
    (row "entity_id").str render = ( row' "entity_id").str render →
    row entityColumn ≠ .null → row' entityColumn ≠ .null →
    (row entityColumn).str render = (row' entityColumn).str render
  concept : ∀ cid, ∀ v ∈ candidates render column (mentionEnrichment render entities entityColumn)
      (rows.filter fun row => canonicalId render row = cid),
    ∀ w ∈ candidates render column (mentionEnrichment render entities entityColumn)
      (rows.filter fun row => canonicalId render row = cid),
    v.IsText render → w.IsText render → v = w

variable {render} {links links' : Frame σ} {entities entities' relations relations' : Option (Frame σ)}
  {rows rows' : List (String → Value σ)} {statuses : List String}

theorem linkedRows_perm [LinearOrder σ] (h : Reordered links links') :
    (linkedRows links statuses).Perm (linkedRows links' statuses) := by
  unfold linkedRows
  rw [h.columns]
  split
  · exact (h.rows.filter _).filter _
  · exact h.rows.filter _

theorem relationRows_perm (h : Option.Rel Reordered relations relations') :
    (relationRows relations).Perm (relationRows relations') := by
  cases h with
  | none => exact .nil
  | some h =>
    unfold relationRows
    simp only [h.columns]
    split
    · exact h.rows
    · exact .nil

theorem canonicalOf_perm (hone : OneLink render rows) (h : rows.Perm rows') (mention : String) :
    (canonicalOf render rows).lookup mention = (canonicalOf render rows').lookup mention := by
  refine Keyed.lookup_upsertAll_perm (h.map _) (fun p hp q hq heq => ?_) mention
  obtain ⟨row, hrow, rfl⟩ := List.mem_map.mp hp
  obtain ⟨row', hrow', rfl⟩ := List.mem_map.mp hq
  exact hone row hrow row' hrow' heq

theorem keptOf_congr [LinearOrder σ] {concepts concepts' : List (Concept σ)} (hlinks : Reordered links links')
    (hone : links = links' ∨ OneLink render (linkedRows links statuses))
    (h : concepts.map Concept.key = concepts'.map Concept.key) :
    keptOf render (linkedRows links statuses) concepts =
      keptOf render (linkedRows links' statuses) concepts' := by
  funext mention
  have hlookup : (canonicalOf render (linkedRows links statuses)).lookup mention =
      (canonicalOf render (linkedRows links' statuses)).lookup mention := by
    rcases hone with rfl | hone
    · rfl
    · exact canonicalOf_perm hone (linkedRows_perm hlinks) mention
  rw [keptOf, keptOf, hlookup, ids_of_keys h]

theorem mentionEnrichment_perm [LinearOrder σ] {column entityColumn : String}
    (hone : OneText render entities rows column entityColumn)
    (h : Option.Rel Reordered entities entities') (mention : String) :
    (mentionEnrichment render entities entityColumn).lookup mention =
      (mentionEnrichment render entities' entityColumn).lookup mention := by
  cases h with
  | none => rfl
  | @some frame frame' h =>
    unfold mentionEnrichment
    simp only [h.columns]
    split
    · rfl
    · refine Keyed.lookup_upsertAll_perm ((h.rows.filter _).map _) (fun p hp q hq heq => ?_) mention
      obtain ⟨row, hrow, rfl⟩ := List.mem_map.mp hp
      obtain ⟨row', hrow', rfl⟩ := List.mem_map.mp hq
      rw [List.mem_filter] at hrow hrow'
      exact hone.entity frame rfl row hrow.1 row' hrow'.1 heq (of_decide_eq_true hrow.2)
        (of_decide_eq_true hrow'.2)

theorem candidates_perm {column : String} {enriched enriched' : Keyed String String}
    (henriched : ∀ mention, enriched.lookup mention = enriched'.lookup mention) (h : rows.Perm rows') :
    (candidates render column enriched rows).Perm (candidates render column enriched' rows') := by
  unfold candidates
  simp only [henriched]
  exact (h.map _).append (h.map _)

end Orders

section Bundles

variable {σ : Type} [LinearOrder σ] [Zero σ] [One σ] {render : Option σ → String}
  {links links' : Frame σ} {entities entities' relations relations' : Option (Frame σ)}
  {rows rows' : List (String → Value σ)} {statuses : List String} {linkingModel : String}
  {linkingNodeId : Option String} {labels texts labels' texts' : Keyed String String}
  {cid : String} {c c' : Concept σ} {all all' : List (Concept σ)}

/-- A concept without the texts that are chosen for it. -/
def Concept.withoutTexts (c : Concept σ) : Concept σ := { c with display := "", label := none }

theorem conceptOf_perm (hperm : rows.Perm rows')
    (h : conceptOf render linkingModel linkingNodeId labels texts cid rows = .ok c)
    (h' : conceptOf render linkingModel linkingNodeId labels' texts' cid rows' = .ok c') :
    c.withoutTexts = c'.withoutTexts := by
  obtain ⟨score, hscore, rfl⟩ := conceptOf_eq_ok h
  obtain ⟨score', hscore', rfl⟩ := conceptOf_eq_ok h'
  obtain rfl := unitRange_pyMaximum_perm (hperm.filterMap _) hscore hscore'
  have hdocuments := (((hperm.map (· "document_id")).filter (· ≠ .null)).dedup).length_eq
  simp only [Concept.withoutTexts, hperm.length_eq, hperm.mem_iff, hdocuments]

theorem conceptOf_texts_perm (hperm : rows.Perm rows')
    (hlabel : firstText render (candidates render "label" labels rows) =
      firstText render (candidates render "label" labels' rows'))
    (htext : firstText render (candidates render "mention_text" texts rows) =
      firstText render (candidates render "mention_text" texts' rows'))
    (h : conceptOf render linkingModel linkingNodeId labels texts cid rows = .ok c)
    (h' : conceptOf render linkingModel linkingNodeId labels' texts' cid rows' = .ok c') : c = c' := by
  have hsame := conceptOf_perm hperm h h'
  obtain ⟨score, hscore, rfl⟩ := conceptOf_eq_ok h
  obtain ⟨score', hscore', rfl⟩ := conceptOf_eq_ok h'
  simp only [Concept.withoutTexts, Concept.mk.injEq] at hsame
  simp only [hlabel, htext, hsame]

theorem map_eq_of_forall₂ {α β γ δ : Type} {R : α → β → Prop} {S : α → γ → Prop} {f : β → δ} {f' : γ → δ}
    {xs : List α} {ys : List β} {zs : List γ} (h : List.Forall₂ R xs ys) (h' : List.Forall₂ S xs zs)
    (hf : ∀ x y z, R x y → S x z → f y = f' z) : ys.map f = zs.map f' := by
  induction h generalizing zs with
  | nil =>
    cases h'
    rfl
  | cons hr _ ih =>
    obtain _ | ⟨hs, h'⟩ := h'
    exact congrArg₂ _ (hf _ _ _ hr hs) (ih h')

/-- Sorted concepts agree in what does not depend on the order of the rows. -/
theorem sorted_congr {α : Type} {g : Concept σ → α} (hspelling : OneSpelling render rows)
    (hperm : rows.Perm rows')
    (hall : conceptsOf render linkingModel linkingNodeId entities rows = .ok all)
    (hall' : conceptsOf render linkingModel linkingNodeId entities' rows' = .ok all')
    (hg : ∀ cid c c', conceptOf render linkingModel linkingNodeId
        (mentionEnrichment render entities "label") (mentionEnrichment render entities "entity_text") cid
        (rows.filter fun row => canonicalId render row = cid) = .ok c →
      conceptOf render linkingModel linkingNodeId
        (mentionEnrichment render entities' "label") (mentionEnrichment render entities' "entity_text") cid
        (rows'.filter fun row => canonicalId render row = cid) = .ok c' → g c = g c') :
    (all.insertionSort fun c d : Concept σ => c.key ≤ d.key).map g =
      (all'.insertionSort fun c d : Concept σ => c.key ≤ d.key).map g := by
  have hof := mapM_eq_ok.mp hall
  obtain ⟨mid, hof', hmid⟩ := List.perm_comp_forall₂ (canonicalIds_perm hperm) (mapM_eq_ok.mp hall')
  have hpairs : all.map (fun c => (c.key, g c)) = mid.map fun c => (c.key, g c) := by
    refine map_eq_of_forall₂ hof hof' fun cid c c' hc hc' => Prod.ext ?_ (hg cid c c' hc hc')
    show c.key = c'.key
    rw [key_conceptOf hc, key_conceptOf hc', conceptKey, conceptKey, (hperm.filter _).length_eq]
  have hsorted : ∀ cs : List (Concept σ), ((cs.insertionSort fun c d : Concept σ => c.key ≤ d.key).map
      fun c => (c.key, g c)).Perm (cs.map fun c => (c.key, g c)) := fun cs =>
    (List.perm_insertionSort _ cs).map _
  have hpairwise : ∀ cs : List (Concept σ), ((cs.insertionSort fun c d : Concept σ => c.key ≤ d.key).map
      fun c => (c.key, g c)).Pairwise fun a b => a.1 ≤ b.1 := fun cs =>
    List.pairwise_map.mpr (@List.pairwise_insertionSort _ (fun c d : Concept σ => c.key ≤ d.key) _
      ⟨fun c d => le_total c.key d.key⟩ ⟨fun _ _ _ => le_trans⟩ cs)
  have hboth := (hsorted all).trans (hpairs ▸ (hmid.map _).trans (hsorted all').symm)
  -- two concepts of one key have one canonical id, and so they are the same
  have hinj : ∀ c ∈ all, ∀ d ∈ all, c.key = d.key → c = d := by
    intro c hc d hd hkey
    obtain ⟨cid, hcid, hc⟩ := exists_of_mem_right hof hc
    obtain ⟨cid', hcid', hd⟩ := exists_of_mem_right hof hd
    rw [key_conceptOf hc, key_conceptOf hd] at hkey
    obtain ⟨row, hrow, rfl⟩ := mem_canonicalIds.mp hcid
    obtain ⟨row', hrow', rfl⟩ := mem_canonicalIds.mp hcid'
    have heq := hspelling row hrow row' hrow' (Prod.ext_iff.mp (toLex.injective hkey)).2
    rw [heq] at hc
    exact Except.ok.inj (hc.symm.trans hd)
  have hequal := hboth.eq_of_pairwise (fun a b ha hb hab hba => by
    obtain ⟨c, hc, rfl⟩ := List.mem_map.mp ((hsorted all).mem_iff.mp ha)
    obtain ⟨d, hd, rfl⟩ := List.mem_map.mp ((hsorted all).mem_iff.mp (hboth.mem_iff.mpr hb))
    rw [hinj c hc d hd (le_antisymm hab hba)]) (hpairwise all) (hpairwise all')
  simpa only [List.map_map, Function.comp_def] using congrArg (List.map Prod.snd) hequal

variable {nodeIds : List String} {topN : ℤ} {cloud cloud' : ConceptCloudExport σ}

/-- The edges from the concepts to the node that linked them. -/
def crossLayer (linkingNode : Option String) (kept : List String) : Except Failure (List (String × String)) :=
  (linkingNode.elim [] fun node => kept.map fun c => (c, node)).mapM fun e => do
    let concept ← requireNonEmpty e.1
    let node ← requireNonEmpty e.2
    return (concept, node)

/-- What is checked of a bundle. -/
theorem buildConceptCloud_eq_ok :
    buildConceptCloud render links nodeIds entities relations linkingNodeId linkingModel topN statuses =
        .ok cloud ↔
      aggregateConcepts render links entities linkingModel (linkingNodeId.filter (· ∈ nodeIds)) topN
          statuses = .ok (cloud.concepts, keptOf render (linkedRows links statuses) cloud.concepts) ∧
      aggregateEdges render relations (keptOf render (linkedRows links statuses) cloud.concepts)
          (cloud.concepts.map (·.canonicalId)) = .ok cloud.conceptEdges ∧
      crossLayer (linkingNodeId.filter (· ∈ nodeIds)) (cloud.concepts.map (·.canonicalId)) =
          .ok cloud.crossLayerEdges ∧
      (cloud.concepts.map (·.canonicalId)).Nodup ∧
      (∀ edge ∈ cloud.conceptEdges, edge.source ∈ cloud.concepts.map (·.canonicalId) ∧
        edge.target ∈ cloud.concepts.map (·.canonicalId)) ∧
      ∀ e ∈ cloud.crossLayerEdges, e.1 ∈ cloud.concepts.map (·.canonicalId) ∧ e.2 ∈ nodeIds := by
  unfold buildConceptCloud
  constructor
  · intro h
    obtain ⟨⟨concepts, resolve⟩, hconcepts, h⟩ := bind_eq_ok.mp h
    obtain ⟨edges, hedges, h⟩ := bind_eq_ok.mp h
    obtain ⟨cross, hcross, h⟩ := bind_eq_ok.mp h
    split at h
    · cases h
    · rename_i hvalid
      simp only [not_or, not_not] at hvalid
      obtain rfl := Except.ok.inj h
      obtain ⟨-, all, -, -, rfl⟩ := aggregateConcepts_eq_ok.mp hconcepts
      exact ⟨hconcepts, hedges, hcross, hvalid⟩
  · rintro ⟨hconcepts, hedges, hcross, hvalid⟩
    refine bind_eq_ok.mpr ⟨_, hconcepts, bind_eq_ok.mpr ⟨_, hedges, bind_eq_ok.mpr ⟨_, hcross, ?_⟩⟩⟩
    rw [if_neg (by simpa only [not_or, not_not] using hvalid)]
    rfl

theorem conceptOf_perm_isOk (hperm : rows.Perm rows')
    (hnan : ∀ row ∈ rows, row "match_score" ≠ .number none)
    (h : conceptOf render linkingModel linkingNodeId labels texts cid rows = .ok c) :
    ∃ c', conceptOf render linkingModel linkingNodeId labels' texts' cid rows' = .ok c' := by
  have hscores := none_notMem_numbers hnan
  unfold conceptOf at h ⊢
  obtain ⟨id, hid, h⟩ := bind_eq_ok.mp h
  obtain ⟨display, hdisplay, h⟩ := bind_eq_ok.mp h
  obtain ⟨matchScore, hscore, h⟩ := bind_eq_ok.mp h
  obtain ⟨model, hmodel, -⟩ := bind_eq_ok.mp h
  rw [pyMaximum_perm (hperm.filterMap _) hscores] at hscore
  -- a text that is taken is not blank, and the canonical id is accepted
  have hdisplay' : ∃ display, requireNonEmpty (((firstText render
      (candidates render "mention_text" texts' rows')).filter Value.truthy).elim cid (Value.str render)) =
      .ok display := by
    cases htext : (firstText render (candidates render "mention_text" texts' rows')).filter Value.truthy with
    | none => exact ⟨id, hid⟩
    | some v =>
      rw [Option.filter_eq_some_iff] at htext
      refine ⟨stripText (v.str render), if_neg fun hempty => ?_⟩
      have hblank : isBlank (v.str render) = true := isBlank_of_stripText hempty
      exact Bool.false_ne_true ((mem_of_firstText htext.1).2.2.symm.trans hblank)
  obtain ⟨display', hdisplay'⟩ := hdisplay'
  exact ⟨_, bind_eq_ok.mpr ⟨id, hid, bind_eq_ok.mpr ⟨display', hdisplay',
    bind_eq_ok.mpr ⟨matchScore, hscore, bind_eq_ok.mpr ⟨model, hmodel, rfl⟩⟩⟩⟩⟩

theorem edges_perm {resolve : String → Option String} {kept : List String} {edges : List (ConceptEdge σ)}
    (hresolve : kept = [] → ∀ mention, resolve mention = none)
    (hrelations : Option.Rel Reordered relations relations')
    (h : aggregateEdges render relations resolve kept = .ok edges) :
    (∀ {edges'}, aggregateEdges render relations' resolve kept = .ok edges' → edges = edges') ∧
    ((∀ row ∈ relationRows relations, row "confidence" ≠ .number none) →
      aggregateEdges render relations' resolve kept = .ok edges) := by
  have hrows := relationRows_perm hrelations
  have hkeys : (relationKeys render resolve (relationRows relations)).Perm
      (relationKeys render resolve (relationRows relations')) := hrows.filterMap _
  have hconf : ∀ key, (confidencesOf render resolve (relationRows relations) key).Perm
      (confidencesOf render resolve (relationRows relations') key) := fun key =>
    (hrows.filter _).filterMap _
  rw [aggregateEdges_eq_ok hresolve, sortedSet_eq_iff.mpr fun _ => hkeys.mem_iff] at h
  simp only [hkeys.count_eq] at h
  constructor
  · intro edges' h'
    rw [aggregateEdges_eq_ok hresolve] at h'
    have hsame : edges.map id = edges'.map id := map_eq_of_forall₂ h h' fun key edge edge' he he' =>
      edgeOf_congr (fun _ _ => unitRange_pyMaximum_perm (hconf key)) he he'
    rwa [List.map_id, List.map_id] at hsame
  · intro hnan
    rw [aggregateEdges_eq_ok hresolve]
    refine h.imp fun key edge he => ?_
    rwa [← pyMaximum_perm (hconf key)]
    exact none_notMem_numbers fun row hrow => hnan row (List.mem_of_mem_filter hrow)

end Bundles

/-! ### A mention with two links -/

theorem blank_ofCells {σ : Type} (columns : List String) (cells : List (List (Value σ))) :
    ∀ row ∈ cells.map fun values c => ((columns.zip values).lookup c).getD .null,
      ∀ c ∉ columns, row c = .null := by
  intro row hrow c hc
  obtain ⟨values, -, rfl⟩ := List.mem_map.mp hrow
  have hlookup : (columns.zip values).lookup c = none := by
    refine List.lookup_eq_none_iff.mpr fun p hp => ?_
    rw [bne_iff_ne]
    exact fun heq => hc (heq ▸ (List.of_mem_zip hp).1)
  show ((columns.zip values).lookup c).getD .null = .null
  rw [hlookup]
  rfl

/-- A frame of texts. -/
def Frame.ofCells (columns : List String) (cells : List (List (Value ℕ))) : Frame ℕ where
  columns
  rows := cells.map fun values c => ((columns.zip values).lookup c).getD .null
  blank := blank_ofCells columns cells

/-- `str` of a number. -/
def renderNat (x : Option ℕ) : String := x.elim "nan" Nat.repr

/-- Links of which the first two are of one mention. -/
def twoLinks : List (List (Value ℕ)) :=
  [[.text "m1", .text "a", .text "Ada"], [.text "m1", .text "b", .text "Bee"],
    [.text "m2", .text "c", .text "Cy"], [.text "m3", .text "a", .text "ADA"]]

/-- The frame of some links. -/
def smallLinks (cells : List (List (Value ℕ))) : Frame ℕ :=
  Frame.ofCells ["mention_id", "canonical_id", "mention_text"] cells

/-- The bundle of some links and of one relation. -/
def smallCloud (cells : List (List (Value ℕ))) : Except Failure (ConceptCloudExport ℕ) :=
  buildConceptCloud renderNat (smallLinks cells) []
    none (some (Frame.ofCells ["subject_mention_id", "object_mention_id", "relation_type"]
      [[.text "m1", .text "m2", .text "cites"]])) none "link_entities" 200 ["matched", "ambiguous"]

end Stel.ConceptCloud
