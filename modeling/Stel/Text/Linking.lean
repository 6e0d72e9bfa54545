import Stel.Hashing
import Stel.Data.Keyed
import Stel.Data.SortedSet
import Stel.Data.Text
import Mathlib.Data.Finset.Sort
import Mathlib.Data.Prod.Lex

/-!
# Entity linking

`text/linking.py`: the rows of an alias frame, the fingerprint of the alias set, and the alias-table
and fuzzy resolvers. A dict is a keyed table; the order of its entries is left out.

## Main definitions

* `TextEnv`: the Unicode functions and the floats of the resolvers.
* `referenceRows`, `aliasSetFingerprint`.
* `AliasTableReference`, `FuzzyReference`: the references, with `build` and `resolve`.

## Main results

* `AliasTableReference.lookup_resolve`, `FuzzyReference.lookup_resolve`: the resolution of one
  namespace.
-/

namespace Stel.Text

/-! ### Frames -/

/-- What the resolvers use of the standard library: `unicodedata.normalize("NFKC", value)`,
`str.casefold`, and the true division of integers and the subtraction of floats. -/
structure TextEnv (σ : Type) where
  nfkc : String → String
  casefold : String → String
  zero : σ
  divide : ℕ → ℕ → σ
  sub : σ → σ → σ

/-- An alias frame. A cell that holds no string has no value. -/
structure AliasFrame where
  columns : List String
  rows : List (String → Option String)

/-- The options that name an alias frame and its columns. -/
structure ReferenceOptions where
  aliases : String
  aliasTextField : String := "alias"
  namespaceField : String := "entity_namespace"
  canonicalIdField : String := "canonical_id"

/-- A row of `_reference_rows`. -/
structure AliasRow where
  entityNamespace : String
  alias_ : String
  canonicalId : String
  deriving DecidableEq, Repr

/-- `_reference_string`. -/
def referenceString (cell : Option String) (field modelName : String) (position : ℕ) :
    Except Failure String :=
  match cell with
  | some raw => if ¬ isBlank raw then .ok raw
      else .error (.other ("Alias model '" ++ modelName ++ "' column '" ++ field ++
        "' must contain non-empty strings (row " ++ toString position ++ ")"))
  | none => .error (.other ("Alias model '" ++ modelName ++ "' column '" ++ field ++
      "' must contain non-empty strings (row " ++ toString position ++ ")"))

/-- The text of a list of column names. -/
def columnList (columns : List String) : String :=
  "[" ++ ", ".intercalate ((sortedSet columns).map fun c => "'" ++ c ++ "'") ++ "]"

/-- `_reference_rows`. -/
def referenceRows (frame : AliasFrame) (options : ReferenceOptions) :
    Except Failure (List AliasRow) :=
  let missing := [options.aliasTextField, options.namespaceField, options.canonicalIdField].filter
    (· ∉ frame.columns)
  if missing ≠ [] then
    .error (.other ("Alias model '" ++ options.aliases ++ "' is missing configured columns " ++
      columnList missing ++ "; got: " ++ columnList frame.columns))
  else frame.rows.zipIdx.mapM fun item => do
    let aliasText ← referenceString (item.1 options.aliasTextField) options.aliasTextField
      options.aliases item.2
    let scope ← referenceString (item.1 options.namespaceField) options.namespaceField
      options.aliases item.2
    let canonicalId ← referenceString (item.1 options.canonicalIdField) options.canonicalIdField
      options.aliases item.2
    return ⟨scope, aliasText, canonicalId⟩

/-! ### The fingerprint -/

/-- The triples of the rows. -/
def aliasTriples (rows : List AliasRow) : List (String ×ₗ String ×ₗ String) :=
  rows.map fun row => toLex (row.entityNamespace, toLex (row.alias_, row.canonicalId))

/-- Two lists of rows hold the same set of triples. -/
def SameTriples (rows rows' : List AliasRow) : Prop :=
  ∀ triple, triple ∈ aliasTriples rows ↔ triple ∈ aliasTriples rows'

/-- A triple, as it is fingerprinted. -/
def tripleValue (triple : String ×ₗ String ×ₗ String) : Hashing.PyValue :=
  let rest := ofLex (ofLex triple).2
  .sequence .tuple [.str (ofLex triple).1, .str rest.1, .str rest.2]

/-- `canonical_rows` of `alias_set_fingerprint`. -/
def canonicalRows (rows : List AliasRow) : Hashing.PyValue :=
  .sequence .list ((sortedSet (aliasTriples rows)).map tripleValue)

/-- `alias_set_fingerprint`. -/
def aliasSetFingerprint (blake2b : ℤ → List UInt8 → List UInt8) (rows : List AliasRow) :
    Except Failure String :=
  Hashing.canonicalFingerprint blake2b (canonicalRows rows) "dbt-ml.entity-alias-set" 1 16

/-! ### Resolutions -/

/-- The statuses of a resolution. -/
inductive ResolutionStatus
  | matched
  | ambiguous
  deriving DecidableEq, Repr

/-- `Candidate`. -/
structure Candidate (σ : Type) where
  canonicalId : String
  score : Option σ
  deriving DecidableEq, Repr

/-- `NamespaceResolution`. -/
structure NamespaceResolution (σ : Type) where
  method : String
  status : ResolutionStatus
  candidates : List (Candidate σ)
  deriving DecidableEq, Repr

/-- The resolutions of a mention, by namespace. -/
abbrev Resolutions (σ : Type) : Type := Keyed String (NamespaceResolution σ)

/-- The status for a number of winners. -/
def statusOf {α : Type} (winners : List α) : ResolutionStatus :=
  if winners.length = 1 then .matched else .ambiguous

variable {σ : Type}

/-- `normalize_alias_text`. -/
def normalizeAliasText (env : TextEnv σ) (value : String) : String :=
  " ".intercalate (splitWords (env.casefold (env.nfkc value)))

/-! ### The alias-table resolver -/

/-- `MatchMethod`. -/
inductive MatchMethod
  | exact
  | normalized
  deriving DecidableEq, Repr

/-- The name of a method. -/
def MatchMethod.name : MatchMethod → String
  | .exact => "exact"
  | .normalized => "normalized"

/-- The key of a text for a method. -/
def matchKey (env : TextEnv σ) (method : MatchMethod) (text : String) : String :=
  match method with
  | .exact => text
  | .normalized => normalizeAliasText env text

/-- A lookup table: the canonical ids by key and namespace. -/
abbrev AliasTable : Type := Keyed String (Keyed String (Finset String))

/-- `table.setdefault(key, {}).setdefault(entity_namespace, set()).add(canonical_id)`. -/
def AliasTable.add (table : AliasTable) (key : String) (row : AliasRow) : AliasTable :=
  let names := (table.lookup key).getD ∅
  let ids := (names.lookup row.entityNamespace).getD ∅
  table.insert key (names.insert row.entityNamespace (insert row.canonicalId ids))

/-- `_AliasTableReference`. -/
structure AliasTableReference where
  lookups : MatchMethod → AliasTable
  methods : List MatchMethod
  fingerprint : String

/-- The lookup table of a method. -/
def buildTable (env : TextEnv σ) (rows : List AliasRow) (method : MatchMethod) : AliasTable :=
  rows.foldl (fun table row => table.add (matchKey env method row.alias_) row) ∅

/-- `AliasTableResolver.build_reference`. -/
def AliasTableReference.build (env : TextEnv σ) (blake2b : ℤ → List UInt8 → List UInt8)
    (methods : List MatchMethod) (options : ReferenceOptions) (frame : AliasFrame) :
    Except Failure AliasTableReference := do
  let rows ← referenceRows frame options
  let fingerprint ← aliasSetFingerprint blake2b rows
  return ⟨buildTable env rows, methods, fingerprint⟩

/-- The resolution of one namespace by a method. -/
def aliasResolution (method : MatchMethod) (ids : Finset String) : NamespaceResolution σ :=
  let sorted := ids.sort (· ≤ ·)
  ⟨method.name, statusOf sorted, sorted.map fun cid => ⟨cid, none⟩⟩

/-- `for namespace, canonical_ids in hits.items()`. -/
def addHits (method : MatchMethod) (hits : List (Σ _ : String, Finset String))
    (resolved : Resolutions σ) : Resolutions σ :=
  hits.foldl (fun resolved hit => if hit.1 ∈ resolved then resolved
    else resolved.insert hit.1 (aliasResolution method hit.2)) resolved

/-- `_AliasTableReference.resolve`. -/
def AliasTableReference.resolve (env : TextEnv σ) (reference : AliasTableReference)
    (signal : Option String) : Resolutions σ :=
  match signal with
  | none => ∅
  | some text =>
    if isBlank text then ∅
    else reference.methods.foldl (fun resolved method =>
      match (reference.lookups method).lookup (matchKey env method text) with
      | none => resolved
      | some hits => addHits method hits.entries resolved) ∅

/-! ### The fuzzy resolver -/

/-- `FuzzyMetric`. -/
inductive FuzzyMetric
  | trigramDice
  | jaccardToken
  deriving DecidableEq, Repr

/-- The name of a metric. -/
def FuzzyMetric.name : FuzzyMetric → String
  | .trigramDice => "trigram_dice"
  | .jaccardToken => "jaccard_token"

/-- `FuzzyResolverOptions`. -/
structure FuzzyOptions (σ : Type) where
  metric : FuzzyMetric := .trigramDice
  normalize : Bool := true
  threshold : σ
  ambiguityMargin : σ

/-- `_fuzzy_representation`. -/
def fuzzyRepresentation (text : String) (metric : FuzzyMetric) : Finset String :=
  if text = "" then ∅
  else match metric with
    | .jaccardToken => (splitWords text).toFinset
    | .trigramDice =>
      let padded := [' ', ' '] ++ text.toList ++ [' ', ' ']
      ((List.range (padded.length - 2)).map fun i =>
        String.ofList ((padded.drop i).take 3)).toFinset

/-- `_fuzzy_score`. -/
def fuzzyScore (env : TextEnv σ) (a b : Finset String) (metric : FuzzyMetric) : σ :=
  if a = ∅ ∨ b = ∅ then env.zero
  else match metric with
    | .jaccardToken => env.divide (a ∩ b).card (a ∪ b).card
    | .trigramDice => env.divide (2 * (a ∩ b).card) (a.card + b.card)

/-- `_FuzzyAlias`. -/
structure FuzzyAlias where
  scope : String
  canonicalId : String
  signature : Finset String
  deriving DecidableEq

/-- `_FuzzyReference`. -/
structure FuzzyReference (σ : Type) where
  aliases : List FuzzyAlias
  options : FuzzyOptions σ
  fingerprint : String

/-- `_prepare`. -/
def prepare (env : TextEnv σ) (options : FuzzyOptions σ) (text : String) : String :=
  if options.normalize then normalizeAliasText env text else text

/-- The alias of a row. -/
def fuzzyAlias (env : TextEnv σ) (options : FuzzyOptions σ) (row : AliasRow) : FuzzyAlias :=
  ⟨row.entityNamespace, row.canonicalId,
    fuzzyRepresentation (prepare env options row.alias_) options.metric⟩

/-- `FuzzyResolver.build_reference`. -/
def FuzzyReference.build (env : TextEnv σ) (blake2b : ℤ → List UInt8 → List UInt8)
    (fuzzy : FuzzyOptions σ) (options : ReferenceOptions) (frame : AliasFrame) :
    Except Failure (FuzzyReference σ) := do
  let rows ← referenceRows frame options
  let fingerprint ← aliasSetFingerprint blake2b rows
  return ⟨rows.map (fuzzyAlias env fuzzy), fuzzy, fingerprint⟩

section Scores

variable [LinearOrder σ]

/-- The candidates within the margin of the top score, each once and in order. -/
def winnersOf (env : TextEnv σ) (margin : σ) (scored : List (σ × String)) : List String :=
  match (scored.map Prod.fst).max? with
  | none => []
  | some top =>
    sortedSet ((scored.filter fun p => env.sub top p.1 ≤ margin).map Prod.snd)

/-- The resolution of one namespace in `_resolve_scored_candidates`, which is never given an empty
list. -/
def scoredResolution (env : TextEnv σ) (margin : σ) (method : String)
    (scored : List (σ × String)) : NamespaceResolution σ :=
  let winners := winnersOf env margin scored
  ⟨method, statusOf winners,
    winners.map fun cid => ⟨cid, ((scored.filter (·.2 = cid)).map Prod.fst).max?⟩⟩

/-- `_resolve_scored_candidates`. -/
def resolveScoredCandidates (env : TextEnv σ)
    (scored : Keyed String (List (σ × String))) (margin : σ) (method : String) : Resolutions σ :=
  scored.entries.foldl (fun resolved entry =>
    resolved.insert entry.1 (scoredResolution env margin method entry.2)) ∅

/-- `by_namespace.setdefault(alias.namespace, []).append((score, alias.canonical_id))` for the
aliases that reach the threshold. -/
def scoreAliases (env : TextEnv σ) (reference : FuzzyReference σ) (signature : Finset String) :
    Keyed String (List (σ × String)) :=
  reference.aliases.foldl (fun scored a =>
    let score := fuzzyScore env signature a.signature reference.options.metric
    if reference.options.threshold ≤ score then
      scored.insert a.scope ((scored.lookup a.scope).getD [] ++ [(score, a.canonicalId)])
    else scored) ∅

/-- `_FuzzyReference.resolve`. -/
def FuzzyReference.resolve (env : TextEnv σ) (reference : FuzzyReference σ)
    (signal : Option String) : Resolutions σ :=
  match signal with
  | none => ∅
  | some text =>
    if isBlank text then ∅
    else
      let signature := fuzzyRepresentation (prepare env reference.options text)
        reference.options.metric
      if signature = ∅ then ∅
      else resolveScoredCandidates env (scoreAliases env reference signature)
        reference.options.ambiguityMargin reference.options.metric.name

end Scores

/-! ### The lookup tables -/

/-- The canonical ids under a key and a namespace. -/
def AliasTable.found (table : AliasTable) (key scope : String) : Option (Finset String) :=
  ((table.lookup key).getD ∅).lookup scope

/-- The canonical ids of the rows with a key and a namespace. -/
def idsOf (rowKey : String → String) (rows : List AliasRow) (key scope : String) :
    Finset String :=
  ((rows.filter fun row => rowKey row.alias_ = key ∧ row.entityNamespace = scope).map
    AliasRow.canonicalId).toFinset

theorem mem_idsOf {rowKey : String → String} {rows : List AliasRow} {key scope cid : String} :
    cid ∈ idsOf rowKey rows key scope ↔ ∃ text, rowKey text = key ∧
      toLex (scope, toLex (text, cid)) ∈ aliasTriples rows := by
  simp only [idsOf, aliasTriples, List.mem_toFinset, List.mem_map, List.mem_filter,
    decide_eq_true_eq]
  constructor
  · rintro ⟨row, ⟨hrow, hkey, rfl⟩, rfl⟩
    exact ⟨row.alias_, hkey, row, hrow, rfl⟩
  · rintro ⟨text, hkey, row, hrow, heq⟩
    obtain ⟨hscope, hrest⟩ := Prod.mk.inj (toLex_inj.mp heq)
    obtain ⟨htext, hcid⟩ := Prod.mk.inj (toLex_inj.mp hrest)
    exact ⟨row, ⟨hrow, htext ▸ hkey, hscope⟩, hcid⟩

theorem AliasTable.found_add (table : AliasTable) (key : String) (row : AliasRow)
    (key' scope : String) :
    (table.add key row).found key' scope =
      if key = key' ∧ row.entityNamespace = scope then
        some (insert row.canonicalId ((table.found key' scope).getD ∅))
      else table.found key' scope := by
  by_cases hkey : key = key'
  · subst hkey
    by_cases hscope : row.entityNamespace = scope
    · subst hscope
      simp [AliasTable.found, AliasTable.add]
    · simp [AliasTable.found, AliasTable.add, hscope, AList.lookup_insert_ne (Ne.symm hscope)]
  · simp [AliasTable.found, AliasTable.add, hkey, AList.lookup_insert_ne (Ne.symm hkey)]

/-- A lookup table holds the canonical ids of the rows. -/
theorem found_buildTable (env : TextEnv σ) (rows : List AliasRow) (method : MatchMethod)
    (key scope : String) :
    (buildTable env rows method).found key scope =
      if idsOf (matchKey env method) rows key scope = ∅ then none
      else some (idsOf (matchKey env method) rows key scope) := by
  induction rows using List.reverseRecOn with
  | nil => rfl
  | append_singleton rows row ih =>
    have hbuild : buildTable env (rows ++ [row]) method =
        (buildTable env rows method).add (matchKey env method row.alias_) row := by
      simp [buildTable]
    have hids : idsOf (matchKey env method) (rows ++ [row]) key scope =
        if matchKey env method row.alias_ = key ∧ row.entityNamespace = scope then
          insert row.canonicalId (idsOf (matchKey env method) rows key scope)
        else idsOf (matchKey env method) rows key scope := by
      ext cid
      by_cases hrow : matchKey env method row.alias_ = key ∧ row.entityNamespace = scope
      · simp [idsOf, hrow]
      · simp [idsOf, hrow]
    rw [hbuild, AliasTable.found_add, ih, hids]
    by_cases hrow : matchKey env method row.alias_ = key ∧ row.entityNamespace = scope
    · by_cases hempty : idsOf (matchKey env method) rows key scope = ∅
      · simp [hrow, hempty]
      · simp [hrow, hempty]
    · simp [hrow]

/-! ### The resolution of one namespace -/

theorem lookup_addHits (method : MatchMethod) (hits : List (Σ _ : String, Finset String))
    (resolved : Resolutions σ) (scope : String) :
    (addHits method hits resolved).lookup scope =
      (resolved.lookup scope).or ((hits.dlookup scope).map (aliasResolution method)) := by
  induction hits generalizing resolved with
  | nil => simp [addHits]
  | cons hit hits ih =>
    obtain ⟨name, ids⟩ := hit
    have hstep : addHits method (⟨name, ids⟩ :: hits) resolved =
        addHits method hits (if name ∈ resolved then resolved
          else resolved.insert name (aliasResolution method ids)) := rfl
    rw [hstep, ih]
    by_cases hmem : name ∈ resolved
    · rw [if_pos hmem]
      by_cases hscope : scope = name
      · subst hscope
        obtain ⟨r, hr⟩ := Option.isSome_iff_exists.mp (AList.lookup_isSome.mpr hmem)
        simp [hr]
      · rw [List.dlookup_cons_ne _ _ hscope]
    · rw [if_neg hmem]
      by_cases hscope : scope = name
      · subst hscope
        simp [AList.lookup_eq_none.mpr hmem]
      · rw [AList.lookup_insert_ne hscope, List.dlookup_cons_ne _ _ hscope]

/-- The first method that finds candidates for a namespace resolves it. -/
theorem AliasTableReference.lookup_resolve (env : TextEnv σ) (reference : AliasTableReference)
    {text : String} (htext : isBlank text = false) (scope : String) :
    (reference.resolve env (some text)).lookup scope = reference.methods.findSome? fun method =>
      ((reference.lookups method).found (matchKey env method text) scope).map
        (aliasResolution method) := by
  have hfold : ∀ (methods : List MatchMethod) (resolved : Resolutions σ),
      (methods.foldl (fun resolved method =>
        match (reference.lookups method).lookup (matchKey env method text) with
        | none => resolved
        | some hits => addHits method hits.entries resolved) resolved).lookup scope =
      (resolved.lookup scope).or (methods.findSome? fun method =>
        ((reference.lookups method).found (matchKey env method text) scope).map
          (aliasResolution method)) := by
    intro methods
    induction methods with
    | nil => simp
    | cons method methods ih =>
      intro resolved
      rw [List.foldl_cons, ih, List.findSome?_cons]
      cases hhits : (reference.lookups method).lookup (matchKey env method text) with
      | none =>
        have hfound : (reference.lookups method).found (matchKey env method text) scope = none := by
          simp [AliasTable.found, hhits]
        simp [hfound]
      | some hits =>
        have hfound : (reference.lookups method).found (matchKey env method text) scope =
            hits.entries.dlookup scope := by
          rw [AliasTable.found, hhits]
          rfl
        simp only [lookup_addHits, hfound, Option.or_assoc]
        cases hits.entries.dlookup scope <;> simp
  simp only [AliasTableReference.resolve, htext, Bool.false_eq_true, if_false, hfold]
  simp

section Scores

variable [LinearOrder σ]

/-- Lists with the same members have the same maximum. -/
theorem max?_congr {l l' : List σ} (h : ∀ x, x ∈ l ↔ x ∈ l') : l.max? = l'.max? := by
  cases hmax : l'.max? with
  | none =>
    obtain rfl := List.max?_eq_none_iff.mp hmax
    exact List.max?_eq_none_iff.mpr (List.eq_nil_iff_forall_not_mem.mpr fun x hx => by
      simpa using (h x).mp hx)
  | some top =>
    obtain ⟨hmem, hle⟩ := List.max?_eq_some_iff.mp hmax
    exact List.max?_eq_some_iff.mpr ⟨(h top).mpr hmem, fun x hx => hle x ((h x).mp hx)⟩

/-- The resolution depends on the set of the scored candidates only. -/
theorem scoredResolution_congr (env : TextEnv σ) (margin : σ) (method : String)
    {l l' : List (σ × String)} (h : ∀ p, p ∈ l ↔ p ∈ l') :
    scoredResolution env margin method l = scoredResolution env margin method l' := by
  have htop : (l.map Prod.fst).max? = (l'.map Prod.fst).max? :=
    max?_congr fun x => by simp [h]
  have hwinners : winnersOf env margin l = winnersOf env margin l' := by
    unfold winnersOf
    rw [htop]
    cases (l'.map Prod.fst).max? with
    | none => rfl
    | some top =>
      exact sortedSet_eq_iff.mpr fun cid => by simp [h]
  have hbest : ∀ cid, ((l.filter (·.2 = cid)).map Prod.fst).max? =
      ((l'.filter (·.2 = cid)).map Prod.fst).max? :=
    fun cid => max?_congr fun x => by simp [h]
  simp only [scoredResolution, hwinners, hbest]

theorem lookup_resolveScoredCandidates (env : TextEnv σ)
    (scored : Keyed String (List (σ × String))) (margin : σ) (method scope : String) :
    (resolveScoredCandidates env scored margin method).lookup scope =
      (scored.lookup scope).map (scoredResolution env margin method) := by
  have hfold : ∀ (entries : List (Σ _ : String, List (σ × String))) (resolved : Resolutions σ),
      entries.NodupKeys →
      (entries.foldl (fun resolved entry =>
        resolved.insert entry.1 (scoredResolution env margin method entry.2)) resolved).lookup
          scope =
      ((entries.dlookup scope).map (scoredResolution env margin method)).or
        (resolved.lookup scope) := by
    intro entries
    induction entries with
    | nil => simp
    | cons entry entries ih =>
      obtain ⟨name, candidates⟩ := entry
      intro resolved hnodup
      obtain ⟨hnew, hrest⟩ := List.nodupKeys_cons.mp hnodup
      rw [List.foldl_cons, ih _ hrest]
      by_cases hscope : scope = name
      · subst hscope
        simp [List.dlookup_eq_none.mpr hnew]
      · rw [AList.lookup_insert_ne hscope, List.dlookup_cons_ne _ _ hscope]
  rw [resolveScoredCandidates, hfold _ _ scored.nodupKeys, AList.lookup_empty, Option.or_none]
  rfl

/-- The scored candidates of a namespace. -/
def scoredOf (env : TextEnv σ) (options : FuzzyOptions σ) (signature : Finset String)
    (aliases : List FuzzyAlias) (scope : String) : List (σ × String) :=
  (aliases.filter fun a => a.scope = scope ∧
    options.threshold ≤ fuzzyScore env signature a.signature options.metric).map fun a =>
      (fuzzyScore env signature a.signature options.metric, a.canonicalId)

theorem lookup_scoreAliases (env : TextEnv σ) (reference : FuzzyReference σ)
    (signature : Finset String) (scope : String) :
    (scoreAliases env reference signature).lookup scope =
      if scoredOf env reference.options signature reference.aliases scope = [] then none
      else some (scoredOf env reference.options signature reference.aliases scope) := by
  obtain ⟨aliases, options, fingerprint⟩ := reference
  induction aliases using List.reverseRecOn with
  | nil => rfl
  | append_singleton aliases a ih =>
    let score := fuzzyScore env signature a.signature options.metric
    let before := scoreAliases env ⟨aliases, options, fingerprint⟩ signature
    have hstep : scoreAliases env ⟨aliases ++ [a], options, fingerprint⟩ signature =
        if options.threshold ≤ score then
          before.insert a.scope ((before.lookup a.scope).getD [] ++ [(score, a.canonicalId)])
        else before := by
      simp [scoreAliases, before, score]
    rw [hstep]
    by_cases hkept : a.scope = scope ∧ options.threshold ≤ score
    · obtain ⟨rfl, hscore⟩ := hkept
      have hscored : scoredOf env options signature (aliases ++ [a]) a.scope =
          scoredOf env options signature aliases a.scope ++ [(score, a.canonicalId)] := by
        have hreached : options.threshold ≤
            fuzzyScore env signature a.signature options.metric := hscore
        simp [scoredOf, hreached, score]
      have hbefore : (before.lookup a.scope).getD [] =
          scoredOf env options signature aliases a.scope := by
        rw [ih]
        split
        · exact (by assumption : _ = []).symm
        · rfl
      rw [if_pos hscore, AList.lookup_insert, hbefore, hscored]
      simp
    · have hscored : scoredOf env options signature (aliases ++ [a]) scope =
          scoredOf env options signature aliases scope := by
        rw [scoredOf, List.filter_append, List.filter_cons_of_neg (by simpa [score] using hkept)]
        simp [scoredOf]
      rw [hscored, ← ih]
      split
      · have hscope : scope ≠ a.scope := fun h => hkept ⟨h.symm, by assumption⟩
        exact AList.lookup_insert_ne hscope
      · rfl

/-- The scored candidates of a namespace resolve it. -/
theorem FuzzyReference.lookup_resolve (env : TextEnv σ) (reference : FuzzyReference σ)
    {text : String} (htext : isBlank text = false) {signature : Finset String}
    (hsignature : fuzzyRepresentation (prepare env reference.options text)
      reference.options.metric = signature) (hne : signature ≠ ∅) (scope : String) :
    (reference.resolve env (some text)).lookup scope =
      let scored := scoredOf env reference.options signature reference.aliases scope
      if scored = [] then none
      else some (scoredResolution env reference.options.ambiguityMargin
        reference.options.metric.name scored) := by
  simp only [FuzzyReference.resolve, htext, Bool.false_eq_true, if_false, hsignature, if_neg hne,
    lookup_resolveScoredCandidates, lookup_scoreAliases]
  split <;> simp

end Scores

end Stel.Text
