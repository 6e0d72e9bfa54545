import Stel.Text.Fingerprint
import Stel.Text.Vectors

/-!
# What the resolvers find

The resolution of a mention against the rows of the alias frame: the first method with a matching
row for the alias table, and the best scores within the margin for the scored resolvers.

## Main definitions

* `FirstMatch`, `ScoredMatch`: the resolution of a namespace by methods and by scores.

## Main results

* `firstMatch_resolve`, `scoredMatch_resolve`, `scoredMatch_resolve_vector`: the three resolvers.
* `alias_resolution_spec`: the resolvers together.
-/

namespace Stel.Text

variable {σ : Type}

/-! ### Specifications -/

/-- A resolution lists a set of canonical ids, sorted and each once, and is matched exactly if there
is one. -/
structure NamespaceResolution.Lists (resolution : NamespaceResolution σ) (ids : Set String) :
    Prop where
  sorted : (resolution.candidates.map Candidate.canonicalId).Pairwise (· < ·)
  mem_iff : ∀ cid, cid ∈ resolution.candidates.map Candidate.canonicalId ↔ cid ∈ ids
  matched_iff : resolution.status = .matched ↔ ∃ candidate, resolution.candidates = [candidate]

/-- A row of a namespace has the key of a text. -/
def AliasRow.Matches (env : TextEnv σ) (method : MatchMethod) (text scope : String)
    (row : AliasRow) : Prop :=
  matchKey env method row.alias_ = matchKey env method text ∧ row.entityNamespace = scope

/-- The resolution of a namespace by the first method that has a matching row. -/
def FirstMatch (env : TextEnv σ) (rows : List AliasRow) (methods : List MatchMethod)
    (text scope : String) : Option (NamespaceResolution σ) → Prop
  | none => ∀ method ∈ methods, ∀ row ∈ rows, ¬ row.Matches env method text scope
  | some resolution => ∃ before method after, methods = before ++ method :: after ∧
      (∀ earlier ∈ before, ∀ row ∈ rows, ¬ row.Matches env earlier text scope) ∧
      (∃ row ∈ rows, row.Matches env method text scope) ∧
      resolution.method = method.name ∧
      resolution.Lists {cid | ∃ row ∈ rows, row.Matches env method text scope ∧
        row.canonicalId = cid} ∧
      ∀ candidate ∈ resolution.candidates, candidate.score = none

/-- The resolution of a namespace by the scores of its aliases. -/
def ScoredMatch (threshold margin : ℚ) (method : String) (scored : List (ℚ × String)) :
    Option (NamespaceResolution ℚ) → Prop
  | none => ∀ p ∈ scored, p.1 < threshold
  | some resolution => ∃ best, IsGreatest {score | ∃ cid, (score, cid) ∈ scored} best ∧
      threshold ≤ best ∧ resolution.method = method ∧
      resolution.Lists {cid | ∃ score, (score, cid) ∈ scored ∧
        max threshold (best - margin) ≤ score} ∧
      ∀ candidate ∈ resolution.candidates, ∃ score, candidate.score = some score ∧
        IsGreatest {score | (score, candidate.canonicalId) ∈ scored} score

/-- The Unicode functions, and exact numbers. -/
def TextEnv.exact (nfkc casefold : String → String) : TextEnv ℚ where
  nfkc := nfkc
  casefold := casefold
  zero := 0
  divide := fun m n => (m : ℚ) / n
  sub := fun p q => p - q

theorem statusOf_map {α β : Type} (f : α → β) (winners : List α) :
    statusOf winners = .matched ↔ ∃ candidate, winners.map f = [candidate] := by
  rw [← List.length_eq_one_iff, List.length_map, statusOf]
  split <;> simp [*]

/-! ### The alias-table resolver -/

theorem mem_idsOf_matchKey {env : TextEnv σ} {rows : List AliasRow} {method : MatchMethod}
    {text scope cid : String} :
    cid ∈ idsOf (matchKey env method) rows (matchKey env method text) scope ↔
      ∃ row ∈ rows, row.Matches env method text scope ∧ row.canonicalId = cid := by
  simp only [idsOf, AliasRow.Matches, List.mem_toFinset, List.mem_map, List.mem_filter,
    decide_eq_true_eq, and_assoc]

theorem idsOf_eq_empty {env : TextEnv σ} {rows : List AliasRow} {method : MatchMethod}
    {text scope : String} :
    idsOf (matchKey env method) rows (matchKey env method text) scope = ∅ ↔
      ∀ row ∈ rows, ¬ row.Matches env method text scope := by
  simp only [Finset.eq_empty_iff_forall_notMem, mem_idsOf_matchKey, not_exists, not_and]
  exact ⟨fun h row hrow hmatch => h _ row hrow hmatch rfl, fun h _ row hrow hmatch =>
    absurd hmatch (h row hrow)⟩

/-- A method lists the canonical ids of its rows. -/
theorem lists_aliasResolution (method : MatchMethod) (ids : Finset String) :
    (aliasResolution (σ := σ) method ids).Lists {cid | cid ∈ ids} where
  sorted := by
    simp only [aliasResolution, List.map_map, Function.comp_def, List.map_id']
    exact (Finset.sortedLT_sort ids).pairwise
  mem_iff := by simp [aliasResolution]
  matched_iff := statusOf_map _ _

theorem not_matches_of_blank {env : TextEnv σ}
    (hfold : ∀ s, isBlank (env.casefold (env.nfkc s)) = isBlank s) {row : AliasRow}
    (hrow : isBlank row.alias_ = false) {text : String} (htext : isBlank text = true)
    (method : MatchMethod) (scope : String) : ¬ row.Matches env method text scope := by
  rintro ⟨hkey, -⟩
  cases method with
  | exact =>
    have hsame : row.alias_ = text := hkey
    rw [hsame, htext] at hrow
    cases hrow
  | normalized =>
    have hempty : normalizeAliasText env text = "" :=
      join_splitWords_eq_empty.mpr ((hfold text).trans htext)
    have hblank := join_splitWords_eq_empty.mp (hkey.trans hempty)
    rw [hfold, hrow] at hblank
    cases hblank

/-- No alias of a frame is blank. -/
theorem isBlank_alias_of_mem {frame : AliasFrame} {options : ReferenceOptions}
    {rows : List AliasRow} (h : referenceRows frame options = .ok rows) {row : AliasRow}
    (hrow : row ∈ rows) : isBlank row.alias_ = false := by
  unfold referenceRows at h
  simp only at h
  split at h
  · cases h
  obtain ⟨item, -, hitem⟩ := exists_of_mem_right (mapM_eq_ok.mp h) hrow
  simp only [bind_eq_ok] at hitem
  obtain ⟨aliasText, halias, scope, -, canonicalId, -, hok⟩ := hitem
  obtain rfl := Except.ok.inj hok
  exact (eq_some_of_referenceString halias).2

/-- The first method with a matching row resolves a namespace. -/
theorem firstMatch_resolve {env : TextEnv σ}
    (hfold : ∀ s, isBlank (env.casefold (env.nfkc s)) = isBlank s) {rows : List AliasRow}
    (hrows : ∀ row ∈ rows, isBlank row.alias_ = false) {reference : AliasTableReference}
    (hlookups : reference.lookups = buildTable env rows) (text scope : String) :
    FirstMatch env rows reference.methods text scope
      ((reference.resolve env (some text)).lookup scope) := by
  cases htext : isBlank text with
  | true =>
    have hempty : reference.resolve env (some text) = ∅ := by
      simp [AliasTableReference.resolve, htext]
    rw [hempty, AList.lookup_empty]
    exact fun method _ row hrow => not_matches_of_blank hfold (hrows row hrow) htext method scope
  | false =>
    let found : MatchMethod → Option (NamespaceResolution σ) := fun method =>
      ((reference.lookups method).found (matchKey env method text) scope).map
        (aliasResolution method)
    have hfound : ∀ method, found method =
        if idsOf (matchKey env method) rows (matchKey env method text) scope = ∅ then none
        else some (aliasResolution method
          (idsOf (matchKey env method) rows (matchKey env method text) scope)) := by
      intro method
      simp only [found, hlookups, found_buildTable]
      split <;> rfl
    have hnone : ∀ method, found method = none →
        ∀ row ∈ rows, ¬ row.Matches env method text scope := by
      intro method h
      rw [hfound, ite_eq_left_iff] at h
      exact idsOf_eq_empty.mp (not_not.mp fun hids => Option.some_ne_none _ (h hids))
    rw [AliasTableReference.lookup_resolve env _ htext]
    cases hfirst : reference.methods.findSome? found with
    | none =>
      intro method hmethod
      exact hnone method (List.findSome?_eq_none_iff.mp hfirst method hmethod)
    | some resolution =>
      obtain ⟨before, method, after, hmethods, hmethod, hbefore⟩ :=
        List.findSome?_eq_some_iff.mp hfirst
      rw [hfound, ite_eq_iff] at hmethod
      obtain ⟨-, hfalse⟩ | ⟨hids, hresolution⟩ := hmethod
      · cases hfalse
      obtain rfl := Option.some.inj hresolution
      obtain ⟨cid, hcid⟩ := Finset.nonempty_iff_ne_empty.mpr hids
      obtain ⟨row, hrow, hmatch, -⟩ := mem_idsOf_matchKey.mp hcid
      refine ⟨before, method, after, hmethods, fun earlier h => hnone earlier (hbefore earlier h),
        ⟨row, hrow, hmatch⟩, rfl, ?_, ?_⟩
      · have hlists := lists_aliasResolution (σ := σ) method
          (idsOf (matchKey env method) rows (matchKey env method text) scope)
        simpa only [mem_idsOf_matchKey] using hlists
      · simp [aliasResolution]

/-! ### The scored resolvers -/

/-- The greatest of the scores that reach the threshold is the greatest score. -/
theorem exists_isGreatest_max? {threshold : ℚ} {scored kept : List (ℚ × String)}
    (hkept : ∀ p, p ∈ kept ↔ p ∈ scored ∧ threshold ≤ p.1) {score : ℚ} {cid : String}
    (hscore : (score, cid) ∈ scored) (hreached : threshold ≤ score) :
    ∃ best, ((kept.filter (·.2 = cid)).map Prod.fst).max? = some best ∧
      IsGreatest {score | (score, cid) ∈ scored} best := by
  have hmem : ∀ x, x ∈ (kept.filter (·.2 = cid)).map Prod.fst ↔
      (x, cid) ∈ scored ∧ threshold ≤ x := by
    intro x
    simp [hkept]
  obtain ⟨best, hbest⟩ : ∃ best, ((kept.filter (·.2 = cid)).map Prod.fst).max? = some best := by
    rw [← Option.isSome_iff_exists, List.isSome_max?_iff]
    exact List.ne_nil_of_mem ((hmem score).mpr ⟨hscore, hreached⟩)
  obtain ⟨hin, hle⟩ := List.max?_eq_some_iff.mp hbest
  obtain ⟨hbestScored, hthreshold⟩ := (hmem best).mp hin
  refine ⟨best, hbest, hbestScored, fun x hx => ?_⟩
  by_cases hx' : threshold ≤ x
  · exact hle x ((hmem x).mpr ⟨hx, hx'⟩)
  · exact (not_le.mp hx').le.trans hthreshold

/-- The scores that reach the threshold resolve a namespace. -/
theorem scoredMatch_scoredResolution {nfkc casefold : String → String} {threshold margin : ℚ}
    (method : String) {scored kept : List (ℚ × String)}
    (hkept : ∀ p, p ∈ kept ↔ p ∈ scored ∧ threshold ≤ p.1) :
    ScoredMatch threshold margin method scored (if kept = [] then none
      else some (scoredResolution (.exact nfkc casefold) margin method kept)) := by
  by_cases hempty : kept = []
  · rw [if_pos hempty]
    intro p hp
    by_contra hscore
    rw [hempty] at hkept
    exact List.not_mem_nil ((hkept p).mpr ⟨hp, not_lt.mp hscore⟩)
  · rw [if_neg hempty]
    obtain ⟨best, hbest⟩ : ∃ best, (kept.map Prod.fst).max? = some best := by
      rw [← Option.isSome_iff_exists, List.isSome_max?_iff]
      simpa using hempty
    obtain ⟨hmem, hle⟩ := List.max?_eq_some_iff.mp hbest
    obtain ⟨top, htop, rfl⟩ := List.mem_map.mp hmem
    obtain ⟨htopScored, hthreshold⟩ := (hkept top).mp htop
    have hbound : ∀ p ∈ scored, p.1 ≤ top.1 := by
      intro p hp
      by_cases hp' : threshold ≤ p.1
      · exact hle p.1 (List.mem_map_of_mem ((hkept p).mpr ⟨hp, hp'⟩))
      · exact (not_le.mp hp').le.trans hthreshold
    have hwinners : ∀ cid, cid ∈ winnersOf (.exact nfkc casefold) margin kept ↔
        ∃ score, (score, cid) ∈ scored ∧ max threshold (top.1 - margin) ≤ score := by
      intro cid
      simp only [winnersOf, hbest, mem_sortedSet, List.mem_map, List.mem_filter,
        decide_eq_true_eq, hkept, max_le_iff, Prod.exists, exists_eq_right]
      refine exists_congr fun score => ?_
      rw [and_assoc]
      exact and_congr_right fun _ => and_congr_right fun _ => sub_le_comm
    refine ⟨top.1, ⟨⟨top.2, htopScored⟩, ?_⟩, hthreshold, rfl, ⟨?_, ?_, statusOf_map _ _⟩, ?_⟩
    · rintro score ⟨cid, hcid⟩
      exact hbound _ hcid
    · simp only [scoredResolution, List.map_map, Function.comp_def, List.map_id', winnersOf, hbest]
      exact (pairwise_sortedSet.and nodup_sortedSet).imp fun h => lt_of_le_of_ne h.1 h.2
    · intro cid
      simpa [scoredResolution] using hwinners cid
    · intro candidate hcandidate
      obtain ⟨cid, hcid, rfl⟩ := List.mem_map.mp hcandidate
      obtain ⟨score, hscore, hreached⟩ := (hwinners cid).mp hcid
      have hreached : threshold ≤ score := (le_max_left _ _).trans hreached
      exact exists_isGreatest_max? hkept hscore hreached

/-- The score of a row for a text, with its canonical id. -/
def AliasRow.scored (env : TextEnv σ) (options : FuzzyOptions σ) (text : String) (row : AliasRow) :
    σ × String :=
  (fuzzyScore env (fuzzyRepresentation (prepare env options text) options.metric)
    (fuzzyRepresentation (prepare env options row.alias_) options.metric) options.metric,
    row.canonicalId)

/-- A blank text has no words and no normalized trigrams. -/
theorem fuzzyRepresentation_of_blank {env : TextEnv σ}
    (hfold : ∀ s, isBlank (env.casefold (env.nfkc s)) = isBlank s) {options : FuzzyOptions σ}
    {text : String} (htext : isBlank text = true)
    (h : options.normalize = true ∨ options.metric = .jaccardToken) :
    fuzzyRepresentation (prepare env options text) options.metric = ∅ := by
  cases hnormalize : options.normalize with
  | true =>
    have hempty : prepare env options text = "" := by
      rw [prepare, if_pos hnormalize]
      exact join_splitWords_eq_empty.mpr ((hfold text).trans htext)
    simp [fuzzyRepresentation, hempty]
  | false =>
    have hmetric : options.metric = .jaccardToken := h.resolve_left (by simp [hnormalize])
    have hprepared : prepare env options text = text := by simp [prepare, hnormalize]
    simp [fuzzyRepresentation, hprepared, hmetric, splitWords_eq_nil.mpr htext]

/-- The scores of the rows resolve a namespace, for every text whose trigrams are not those of raw
whitespace. -/
theorem scoredMatch_resolve {nfkc casefold : String → String}
    (hfold : ∀ s, isBlank (casefold (nfkc s)) = isBlank s) {rows : List AliasRow}
    {fuzzy : FuzzyOptions ℚ} (hthreshold : 0 < fuzzy.threshold) {reference : FuzzyReference ℚ}
    (haliases : reference.aliases = rows.map (fuzzyAlias (.exact nfkc casefold) fuzzy))
    (hoptions : reference.options = fuzzy) {text : String}
    (htext : isBlank text = false ∨ fuzzy.normalize = true ∨ fuzzy.metric = .jaccardToken)
    (scope : String) :
    ScoredMatch fuzzy.threshold fuzzy.ambiguityMargin fuzzy.metric.name
      ((rows.filter (·.entityNamespace = scope)).map
        (AliasRow.scored (.exact nfkc casefold) fuzzy text))
      ((reference.resolve (.exact nfkc casefold) (some text)).lookup scope) := by
  by_cases hsignature : fuzzyRepresentation (prepare (.exact nfkc casefold) fuzzy text)
      fuzzy.metric = ∅
  · have hempty : reference.resolve (.exact nfkc casefold) (some text) = ∅ := by
      simp [FuzzyReference.resolve, hoptions, hsignature]
    rw [hempty, AList.lookup_empty]
    intro p hp
    obtain ⟨row, -, rfl⟩ := List.mem_map.mp hp
    have hzero : (row.scored (.exact nfkc casefold) fuzzy text).1 = 0 := by
      simp only [AliasRow.scored, fuzzyScore, hsignature, true_or, if_true]
      rfl
    rw [hzero]
    exact hthreshold
  · have hnotBlank : isBlank text = false := by
      rcases htext with hblank | hmethod
      · exact hblank
      · by_contra hblank
        exact hsignature (fuzzyRepresentation_of_blank hfold (Bool.not_eq_false _ ▸ hblank) hmethod)
    rw [FuzzyReference.lookup_resolve _ reference hnotBlank (by rw [hoptions]) hsignature]
    simp only [hoptions, haliases]
    refine scoredMatch_scoredResolution _ fun p => ?_
    simp only [scoredOf, List.mem_map, List.mem_filter, decide_eq_true_eq, AliasRow.scored]
    constructor
    · rintro ⟨_, ⟨⟨row, hrow, rfl⟩, hscope, hscore⟩, rfl⟩
      exact ⟨⟨row, ⟨hrow, hscope⟩, rfl⟩, hscore⟩
    · rintro ⟨⟨row, ⟨hrow, hscope⟩, rfl⟩, hscore⟩
      exact ⟨_, ⟨⟨row, hrow, rfl⟩, hscope, hscore⟩, rfl⟩

/-- The scores of the alias vectors resolve a namespace. -/
theorem scoredMatch_resolve_vector (nfkc casefold : String → String) (sqrt : ℚ → ℚ)
    {reference : VectorReference} {vector : List ℚ}
    (hvector : ∀ a ∈ reference.aliases, vector.length = a.vector.length) :
    ∃ resolved, reference.resolve (.exact nfkc casefold) sqrt (some vector) = .ok resolved ∧
      ∀ scope, ScoredMatch reference.options.threshold reference.options.ambiguityMargin
        reference.options.metric.name ((reference.aliases.filter (·.scope = scope)).map
          (AliasVector.scored sqrt reference.options.metric vector)) (resolved.lookup scope) := by
  obtain ⟨resolved, hresolved, hlookup⟩ :=
    VectorReference.lookup_resolve (.exact nfkc casefold) sqrt hvector
  refine ⟨resolved, hresolved, fun scope => ?_⟩
  rw [hlookup]
  refine scoredMatch_scoredResolution _ fun p => ?_
  rw [List.mem_filter, decide_eq_true_eq]

/-! ### All resolvers -/

/-- **Alias resolution meets its specification.** For every frame that a resolver accepts: the alias
table resolves every text by the first method with a matching row, and the scored resolvers resolve
a namespace by the best scores within the margin. The fuzzy resolver is meant for texts that are not
blank: raw whitespace has trigrams, and is not resolved all the same. Mention vectors have the
length of the alias vectors. -/
theorem alias_resolution_spec (nfkc casefold : String → String) (sqrt : ℚ → ℚ)
    (blake2b : ℤ → List UInt8 → List UInt8)
    (hfold : ∀ s, isBlank (casefold (nfkc s)) = isBlank s) :
    (∀ methods options frame rows reference, referenceRows frame options = .ok rows →
      AliasTableReference.build (.exact nfkc casefold) blake2b methods options frame =
        .ok reference →
      ∀ text scope, FirstMatch (.exact nfkc casefold) rows methods text scope
        ((reference.resolve (.exact nfkc casefold) (some text)).lookup scope)) ∧
    (∀ fuzzy options frame rows reference, 0 < fuzzy.threshold →
      referenceRows frame options = .ok rows →
      FuzzyReference.build (.exact nfkc casefold) blake2b fuzzy options frame = .ok reference →
      ∀ text, (isBlank text = false ∨ fuzzy.normalize = true ∨ fuzzy.metric = .jaccardToken) →
        ∀ scope, ScoredMatch fuzzy.threshold fuzzy.ambiguityMargin fuzzy.metric.name
          ((rows.filter (·.entityNamespace = scope)).map
            (AliasRow.scored (.exact nfkc casefold) fuzzy text))
          ((reference.resolve (.exact nfkc casefold) (some text)).lookup scope)) ∧
    ∀ options frame reference, VectorReference.build options frame = .ok reference →
      List.Forall₂ (VectorRow.IsRead options) frame.rows reference.aliases ∧
      ∀ vector, (∀ a ∈ reference.aliases, vector.length = a.vector.length) →
        ∃ resolved, reference.resolve (.exact nfkc casefold) sqrt (some vector) = .ok resolved ∧
          ∀ scope, ScoredMatch options.threshold options.ambiguityMargin options.metric.name
            ((reference.aliases.filter (·.scope = scope)).map
              (AliasVector.scored sqrt options.metric vector)) (resolved.lookup scope) := by
  refine ⟨fun methods options frame rows reference hrows hbuild text scope => ?_,
    fun fuzzy options frame rows reference hthreshold hrows hbuild text htext scope => ?_,
    fun options frame reference hbuild => ?_⟩
  · obtain ⟨-, hlookups, rfl⟩ := (AliasTableReference.build_eq_ok hrows).mp hbuild
    exact firstMatch_resolve hfold (fun row hrow => isBlank_alias_of_mem hrows hrow) hlookups text
      scope
  · obtain ⟨-, haliases, hoptions⟩ := (FuzzyReference.build_eq_ok hrows).mp hbuild
    exact scoredMatch_resolve hfold hthreshold haliases hoptions htext scope
  · obtain ⟨hread, rfl⟩ := VectorReference.forall₂_build hbuild
    exact ⟨hread, fun vector hvector => scoredMatch_resolve_vector nfkc casefold sqrt hvector⟩

/-- The columns of an alias frame. -/
def companyColumns : ReferenceOptions := ⟨"companies", "alias", "entity_namespace", "canonical_id"⟩

theorem referenceRows_companyFrame :
    referenceRows (companyFrame ["acme corp"]) companyColumns =
      .ok [⟨"company", "acme corp", "acme"⟩] := by decide +kernel

/-- The digest that `blake2b` has on the alias `acme corp`. -/
def acmeDigest : ℤ → List UInt8 → List UInt8 := fun _ _ =>
  [70, 28, 58, 242, 28, 181, 221, 215, 214, 79, 142, 151, 214, 20, 4, 238]

theorem alias_resolution_spec_companies :
    ∃ reference, AliasTableReference.build (.exact id id) acmeDigest [.exact, .normalized]
        companyColumns (companyFrame ["acme corp"]) = .ok reference ∧
      FirstMatch (.exact id id) [⟨"company", "acme corp", "acme"⟩] [.exact, .normalized]
        "acme  corp" "company"
        ((reference.resolve (.exact id id) (some "acme  corp")).lookup "company") := by
  obtain ⟨fingerprint, hfingerprint⟩ : ∃ fingerprint, aliasSetFingerprint acmeDigest
      [⟨"company", "acme corp", "acme"⟩] = .ok fingerprint :=
    exists_eq_ok_of_isOk (by decide +kernel)
  have hbuild : AliasTableReference.build (.exact id id) acmeDigest [.exact, .normalized]
      companyColumns (companyFrame ["acme corp"]) =
      .ok ⟨buildTable (.exact id id) [⟨"company", "acme corp", "acme"⟩], [.exact, .normalized],
        fingerprint⟩ :=
    (AliasTableReference.build_eq_ok referenceRows_companyFrame).mpr ⟨hfingerprint, rfl, rfl⟩
  exact ⟨_, hbuild, (alias_resolution_spec id id id acmeDigest fun _ => rfl).1 _ _ _ _ _
    referenceRows_companyFrame hbuild _ _⟩

/-- Trigrams of raw text, with a threshold of a fifth. -/
def rawTrigrams : FuzzyOptions ℚ := ⟨.trigramDice, false, 1 / 5, 0⟩

/-- The digest that `blake2b` has on the alias with three spaces. -/
def spacedDigest : ℤ → List UInt8 → List UInt8 := fun _ _ =>
  [204, 212, 156, 148, 155, 139, 174, 143, 183, 78, 41, 193, 70, 13, 69, 223]

/-- Three spaces score a quarter against an alias with three spaces, and are not resolved. -/
theorem blank_text_unresolved :
    ∃ reference, FuzzyReference.build (.exact id id) spacedDigest rawTrigrams companyColumns
        (companyFrame ["a   b"]) = .ok reference ∧
      (AliasRow.mk "company" "a   b" "acme").scored (.exact id id) rawTrigrams "   " =
        (1 / 4, "acme") ∧
      (reference.resolve (.exact id id) (some "   ")).lookup "company" = none ∧
      ¬ ScoredMatch (1 / 5) 0 "trigram_dice" [(1 / 4, "acme")]
        ((reference.resolve (.exact id id) (some "   ")).lookup "company") := by
  have hrows : referenceRows (companyFrame ["a   b"]) companyColumns =
      .ok [⟨"company", "a   b", "acme"⟩] := by decide +kernel
  obtain ⟨fingerprint, hfingerprint⟩ : ∃ fingerprint, aliasSetFingerprint spacedDigest
      [⟨"company", "a   b", "acme"⟩] = .ok fingerprint :=
    exists_eq_ok_of_isOk (by decide +kernel)
  have hbuild : FuzzyReference.build (.exact id id) spacedDigest rawTrigrams companyColumns
      (companyFrame ["a   b"]) = .ok ⟨[fuzzyAlias (.exact id id) rawTrigrams
        ⟨"company", "a   b", "acme"⟩], rawTrigrams, fingerprint⟩ :=
    (FuzzyReference.build_eq_ok hrows).mpr ⟨hfingerprint, rfl, rfl⟩
  have hnone : ∀ reference : FuzzyReference ℚ,
      (reference.resolve (.exact id id) (some "   ")).lookup "company" = none := by
    intro reference
    have hblank : isBlank "   " = true := by decide
    simp [FuzzyReference.resolve, hblank]
  refine ⟨_, hbuild, by decide +kernel, hnone _, ?_⟩
  rw [hnone]
  intro h
  exact absurd (h _ (List.mem_singleton_self _)) (by decide +kernel)

end Stel.Text
