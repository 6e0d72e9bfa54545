import Stel.Text.Linking
import Mathlib.Algebra.Order.Field.Rat

/-!
# The vector-similarity resolver

`text/linking.py`: `VectorSimilarityResolver`, with exact numbers. The square root is a parameter,
and the fingerprint of the vectors is left out.

## Main definitions

* `coerceVector`, `similarity`.
* `AliasVectors`: the aliases of a frame, which share one dimensionality.
* `VectorReference`: the reference, with `build` and `resolve`.

## Main results

* `VectorReference.forall₂_build`: the aliases are the rows of the frame.
* `VectorReference.lookup_resolve`: the resolution of one namespace.
-/

namespace Stel.Text

/-! ### Vectors -/

/-- An entry of a vector cell. -/
inductive VectorItem
  | number (value : ℚ)
  | notFinite
  | notNumber
  deriving DecidableEq, Repr

/-- A vector cell: null, a list, or any other value. -/
inductive VectorCell
  | null
  | items (items : List VectorItem)
  | other
  deriving Repr

/-- The loop body of `_coerce_vector`. -/
def coerceItem (source position : String) : VectorItem → Except Failure ℚ
  | .number value => .ok value
  | .notNumber =>
    .error (.other (source ++ " vector at " ++ position ++ " must contain only numbers"))
  | .notFinite => .error (.other (source ++ " vector at " ++ position ++ " must be finite"))

/-- `_coerce_vector`. -/
def coerceVector (source position : String) : VectorCell → Except Failure (Option (List ℚ))
  | .null => .ok none
  | .other =>
    .error (.other (source ++ " vector at " ++ position ++ " must be a list of numbers"))
  | .items items => do
    let vector ← items.mapM (coerceItem source position)
    return if vector = [] then none else some vector

/-- `SimilarityMetric`. -/
inductive SimilarityMetric
  | cosine
  | dot
  | euclidean
  deriving DecidableEq, Repr

/-- The name of a metric. -/
def SimilarityMetric.name : SimilarityMetric → String
  | .cosine => "cosine"
  | .dot => "dot"
  | .euclidean => "euclidean"

/-- `_similarity` of two vectors of one length. -/
def similarity (sqrt : ℚ → ℚ) (a b : List ℚ) (metric : SimilarityMetric) : ℚ :=
  let dot := (List.zipWith (fun x y => x * y) a b).sum
  match metric with
  | .dot => dot
  | .euclidean => -sqrt (List.zipWith (fun x y => (x - y) ^ 2) a b).sum
  | .cosine =>
    let normA := sqrt (a.map fun x => x * x).sum
    let normB := sqrt (b.map fun y => y * y).sum
    if normA = 0 ∨ normB = 0 then 0 else dot / (normA * normB)

/-! ### References -/

/-- `VectorSimilarityResolverOptions`, as far as it names columns and scores. -/
structure VectorOptions where
  aliases : String
  aliasVectorField : String := "embedding"
  namespaceField : String := "entity_namespace"
  canonicalIdField : String := "canonical_id"
  metric : SimilarityMetric := .cosine
  threshold : ℚ
  ambiguityMargin : ℚ := 0

/-- A row of a frame of alias vectors. -/
structure VectorRow where
  text : String → Option String
  vector : String → VectorCell

/-- A frame of alias vectors. -/
structure VectorFrame where
  columns : List String
  rows : List VectorRow

/-- `_AliasVector`. -/
structure AliasVector where
  scope : String
  canonicalId : String
  vector : List ℚ
  deriving DecidableEq, Repr

/-- The aliases that are read, with the dimensionality that they share. -/
structure AliasVectors where
  aliases : List AliasVector
  dimensions : Option ℕ
  length_vector : ∀ a ∈ aliases, dimensions = some a.vector.length

namespace AliasVectors

/-- No alias. -/
def empty : AliasVectors := ⟨[], none, fun _ h => absurd h List.not_mem_nil⟩

theorem length_vector_append (read : AliasVectors) (a : AliasVector)
    (h : read.dimensions.getD a.vector.length = a.vector.length) :
    ∀ b ∈ read.aliases ++ [a], some a.vector.length = some b.vector.length := by
  intro b hb
  rcases List.mem_append.mp hb with hold | hnew
  · have hlength := read.length_vector b hold
    rw [hlength, Option.getD_some] at h
    rw [h]
  · rw [List.mem_singleton.mp hnew]

/-- One more alias of the same dimensionality. -/
def append (read : AliasVectors) (a : AliasVector)
    (h : read.dimensions.getD a.vector.length = a.vector.length) : AliasVectors :=
  ⟨read.aliases ++ [a], some a.vector.length, length_vector_append read a h⟩

/-- The loop body of `VectorSimilarityResolver.build_reference`. -/
def addRow (options : VectorOptions) (read : AliasVectors) (item : VectorRow × ℕ) :
    Except Failure AliasVectors := do
  let scope ← referenceString (item.1.text options.namespaceField) options.namespaceField
    options.aliases item.2
  let canonicalId ← referenceString (item.1.text options.canonicalIdField)
    options.canonicalIdField options.aliases item.2
  match ← coerceVector ("Alias model '" ++ options.aliases ++ "'") ("row " ++ toString item.2)
    (item.1.vector options.aliasVectorField) with
  | none => .error (.other ("Alias model '" ++ options.aliases ++ "' column '" ++
      options.aliasVectorField ++ "' must contain a non-empty vector (row " ++
      toString item.2 ++ ")"))
  | some vector =>
    if h : read.dimensions.getD vector.length = vector.length then
      .ok (read.append ⟨scope, canonicalId, vector⟩ h)
    else .error (.other ("Alias model '" ++ options.aliases ++
      "' vectors must share one dimensionality; row " ++ toString item.2 ++ " has " ++
      toString vector.length ++ ", expected " ++ toString (read.dimensions.getD 0)))

end AliasVectors

/-- `_VectorReference`. -/
structure VectorReference extends AliasVectors where
  options : VectorOptions

/-- `VectorSimilarityResolver.build_reference`. -/
def VectorReference.build (options : VectorOptions) (frame : VectorFrame) :
    Except Failure VectorReference := do
  let missing := [options.aliasVectorField, options.namespaceField, options.canonicalIdField].filter
    (· ∉ frame.columns)
  if missing ≠ [] then
    .error (.other ("Alias model '" ++ options.aliases ++ "' is missing configured columns " ++
      columnList missing ++ "; got: " ++ columnList frame.columns))
  else
    let read ← frame.rows.zipIdx.foldlM (AliasVectors.addRow options) .empty
    return ⟨read, options⟩

/-- An alias holds what a row says. -/
structure VectorRow.IsRead (options : VectorOptions) (row : VectorRow) (a : AliasVector) :
    Prop where
  scope : row.text options.namespaceField = some a.scope
  canonicalId : row.text options.canonicalIdField = some a.canonicalId
  vector : ∃ source position,
    coerceVector source position (row.vector options.aliasVectorField) = .ok (some a.vector)

/-- The score of an alias, with its canonical id. -/
def AliasVector.scored (sqrt : ℚ → ℚ) (metric : SimilarityMetric) (vector : List ℚ)
    (a : AliasVector) : ℚ × String :=
  (similarity sqrt vector a.vector metric, a.canonicalId)

/-- `by_namespace` of `_VectorReference.resolve`. -/
def scoreVectors (sqrt : ℚ → ℚ) (reference : VectorReference) (vector : List ℚ) :
    Keyed String (List (ℚ × String)) :=
  reference.aliases.foldl (fun scored a =>
    if reference.options.threshold ≤ (a.scored sqrt reference.options.metric vector).1 then
      scored.modify a.scope fun old =>
        old.getD [] ++ [a.scored sqrt reference.options.metric vector]
    else scored) ∅

/-- `_VectorReference.resolve`. -/
def VectorReference.resolve (env : TextEnv ℚ) (sqrt : ℚ → ℚ) (reference : VectorReference)
    (signal : Option (List ℚ)) : Except Failure (Resolutions ℚ) :=
  match signal with
  | none => .ok ∅
  | some vector =>
    if reference.aliases = [] then .ok ∅
    else if vector.length ≠ reference.dimensions.getD 0 then
      .error (.other ("Mention vector dimensionality " ++ toString vector.length ++
        " does not match alias vector dimensionality " ++
        toString (reference.dimensions.getD 0)))
    else .ok (resolveScoredCandidates env (scoreVectors sqrt reference vector)
      reference.options.ambiguityMargin reference.options.metric.name)

/-! ### Reading the frame -/

theorem eq_some_of_referenceString {cell : Option String} {field modelName : String}
    {position : ℕ} {raw : String} (h : referenceString cell field modelName position = .ok raw) :
    cell = some raw ∧ isBlank raw = false := by
  unfold referenceString at h
  cases cell with
  | none => cases h
  | some value =>
    simp only at h
    split at h
    · rename_i hvalue
      obtain rfl := Except.ok.inj h
      exact ⟨rfl, Bool.not_eq_true _ ▸ hvalue⟩
    · cases h

theorem AliasVectors.aliases_addRow {options : VectorOptions} {read read' : AliasVectors}
    {item : VectorRow × ℕ} (h : addRow options read item = .ok read') :
    ∃ a, item.1.IsRead options a ∧ read'.aliases = read.aliases ++ [a] := by
  simp only [addRow, bind_eq_ok] at h
  obtain ⟨scope, hscope, canonicalId, hid, vector?, hvector, h⟩ := h
  cases vector? with
  | none => cases h
  | some vector =>
    simp only at h
    split at h
    · obtain rfl := Except.ok.inj h
      exact ⟨⟨scope, canonicalId, vector⟩, ⟨(eq_some_of_referenceString hscope).1,
        (eq_some_of_referenceString hid).1, _, _, hvector⟩, rfl⟩
    · cases h

/-- The aliases of a reference are the rows of the frame. -/
theorem VectorReference.forall₂_build {options : VectorOptions} {frame : VectorFrame}
    {reference : VectorReference} (h : build options frame = .ok reference) :
    List.Forall₂ (VectorRow.IsRead options) frame.rows reference.aliases ∧
      reference.options = options := by
  have hrun : ∀ (rows : List VectorRow) (start : ℕ) (read read' : AliasVectors),
      (rows.zipIdx start).foldlM (AliasVectors.addRow options) read = .ok read' →
      ∃ new, List.Forall₂ (VectorRow.IsRead options) rows new ∧
        read'.aliases = read.aliases ++ new := by
    intro rows
    induction rows with
    | nil =>
      intro start read read' h
      obtain rfl := Except.ok.inj h
      exact ⟨[], .nil, (List.append_nil _).symm⟩
    | cons row rows ih =>
      intro start read read' h
      rw [List.zipIdx_cons, List.foldlM_cons, bind_eq_ok] at h
      obtain ⟨next, hstep, hrest⟩ := h
      obtain ⟨a, ha, hnext⟩ := AliasVectors.aliases_addRow hstep
      obtain ⟨new, hnew, hread'⟩ := ih _ _ _ hrest
      exact ⟨a :: new, .cons ha hnew, by rw [hread', hnext, List.append_assoc]; rfl⟩
  unfold build at h
  simp only at h
  split at h
  · cases h
  · obtain ⟨read, hread, hok⟩ := bind_eq_ok.mp h
    obtain rfl := Except.ok.inj hok
    obtain ⟨new, hnew, haliases⟩ := hrun _ _ _ _ hread
    refine ⟨?_, rfl⟩
    rw [haliases]
    exact hnew

/-! ### The resolution of one namespace -/

theorem foldl_append_scored {α β : Type} (score : α → β) (xs : List α) (old : Option (List β)) :
    xs.foldl (fun old x => some (old.getD [] ++ [score x])) old =
      if xs = [] then old else some (old.getD [] ++ xs.map score) := by
  induction xs generalizing old with
  | nil => rfl
  | cons x xs ih =>
    rw [List.foldl_cons, ih]
    cases xs <;> simp

theorem lookup_scoreVectors (sqrt : ℚ → ℚ) (reference : VectorReference) (vector : List ℚ)
    (scope : String) :
    (scoreVectors sqrt reference vector).lookup scope =
      let scored := ((reference.aliases.filter (·.scope = scope)).map
        (AliasVector.scored sqrt reference.options.metric vector)).filter
          (reference.options.threshold ≤ ·.1)
      if scored = [] then none else some scored := by
  have hfilter : scoreVectors sqrt reference vector = (reference.aliases.filter fun a =>
      reference.options.threshold ≤ (a.scored sqrt reference.options.metric vector).1).foldl
        (fun scored a => scored.modify a.scope fun old =>
          old.getD [] ++ [a.scored sqrt reference.options.metric vector]) ∅ := by
    rw [List.foldl_filter]
    simp only [decide_eq_true_eq]
    rfl
  rw [hfilter, Keyed.lookup_foldl_modify, foldl_append_scored, List.filter_map]
  simp only [List.map_eq_nil_iff, List.filter_filter, Function.comp_def, AList.lookup_empty,
    Option.getD_none, List.nil_append, Bool.and_comm]

/-- A mention vector of the dimensionality of the aliases is resolved by the scored aliases of each
namespace. -/
theorem VectorReference.lookup_resolve (env : TextEnv ℚ) (sqrt : ℚ → ℚ)
    {reference : VectorReference} {vector : List ℚ}
    (hvector : ∀ a ∈ reference.aliases, vector.length = a.vector.length) :
    ∃ resolved, reference.resolve env sqrt (some vector) = .ok resolved ∧
      ∀ scope, resolved.lookup scope =
      let scored := ((reference.aliases.filter (·.scope = scope)).map
        (AliasVector.scored sqrt reference.options.metric vector)).filter
          (reference.options.threshold ≤ ·.1)
      if scored = [] then none
      else some (scoredResolution env reference.options.ambiguityMargin
        reference.options.metric.name scored) := by
  by_cases hempty : reference.aliases = []
  · refine ⟨∅, by rw [resolve, if_pos hempty], fun scope => ?_⟩
    simp [hempty]
  · obtain ⟨a, ha⟩ := List.exists_mem_of_ne_nil _ hempty
    have hlength : vector.length = reference.dimensions.getD 0 := by
      rw [reference.length_vector a ha, Option.getD_some, hvector a ha]
    refine ⟨_, by rw [resolve, if_neg hempty, if_neg (not_not.mpr hlength)], fun scope => ?_⟩
    rw [lookup_resolveScoredCandidates, lookup_scoreVectors]
    simp only
    split <;> simp

end Stel.Text
