import Stel.Text.Linking
import Mathlib.Algebra.Order.Field.Rat

/-!
# The alias-set fingerprint

The fingerprint of an alias frame against the set of its triples, and the resolutions of the
resolvers against that set.

## Main results

* `canonicalRows_eq_iff`: the fingerprinted rows determine the set of triples.
* `AliasTableReference.resolve_congr`, `FuzzyReference.resolve_congr`: the resolutions depend on the
  set of triples only.
* `alias_fingerprint_faithful`: both resolvers record the same fingerprint exactly for the same
  triples, and resolve alike then.
-/

namespace Stel.Text

open Hashing

variable {σ : Type}

/-! ### Triples -/

theorem canonicalValue_tripleValue_injective :
    Function.Injective fun triple => canonicalValue (tripleValue triple) := by
  intro s t h
  simp only [tripleValue, canonicalValue, canonicalItems, Json.array.injEq, List.cons.injEq,
    Json.string.injEq, true_and, and_true] at h
  obtain ⟨hscope, htext, hcid⟩ := h
  have hrest : (ofLex s).2 = (ofLex t).2 := ofLex_inj.mp (Prod.ext htext hcid)
  exact ofLex_inj.mp (Prod.ext hscope hrest)

theorem canonicalRows_eq_iff {rows rows' : List AliasRow} :
    canonicalValue (canonicalRows rows) = canonicalValue (canonicalRows rows') ↔
      SameTriples rows rows' := by
  rw [SameTriples, ← sortedSet_eq_iff]
  constructor
  · intro h
    simp only [canonicalRows, canonicalValue, canonicalItems_eq_map, List.map_map,
      Json.array.injEq, List.cons.injEq, true_and, and_true] at h
    exact List.map_injective_iff.mpr canonicalValue_tripleValue_injective h
  · intro h
    rw [canonicalRows, canonicalRows, h]

/-! ### The alias-table resolver -/

theorem AliasTableReference.build_eq_ok {env : TextEnv σ}
    {blake2b : ℤ → List UInt8 → List UInt8} {methods : List MatchMethod}
    {options : ReferenceOptions} {frame : AliasFrame} {rows : List AliasRow}
    (hrows : referenceRows frame options = .ok rows) {reference : AliasTableReference} :
    build env blake2b methods options frame = .ok reference ↔
      aliasSetFingerprint blake2b rows = .ok reference.fingerprint ∧
        reference.lookups = buildTable env rows ∧ reference.methods = methods := by
  simp only [build, hrows, bind_eq_ok, Except.ok.injEq, pure, Except.pure, exists_eq_left']
  constructor
  · rintro ⟨fingerprint, hfingerprint, rfl⟩
    exact ⟨hfingerprint, rfl, rfl⟩
  · rintro ⟨hfingerprint, hlookups, hmethods⟩
    exact ⟨_, hfingerprint, by rw [← hlookups, ← hmethods]⟩

/-- References to the same triples with the same methods resolve alike. -/
theorem AliasTableReference.resolve_congr (env : TextEnv σ) {rows rows' : List AliasRow}
    (htriples : SameTriples rows rows') {reference reference' : AliasTableReference}
    (h : reference.lookups = buildTable env rows) (h' : reference'.lookups = buildTable env rows')
    (hmethods : reference.methods = reference'.methods) (signal : Option String) (scope : String) :
    (reference.resolve env signal).lookup scope = (reference'.resolve env signal).lookup scope := by
  cases signal with
  | none => rfl
  | some text =>
    cases hblank : isBlank text with
    | true => simp only [resolve, hblank, if_true]
    | false =>
      have hids : ∀ (rowKey : String → String) key, idsOf rowKey rows key scope =
          idsOf rowKey rows' key scope := by
        intro rowKey key
        ext cid
        simp only [mem_idsOf, htriples _]
      simp only [lookup_resolve env _ hblank, h, h', hmethods, found_buildTable, hids]

/-! ### The fuzzy resolver -/

theorem FuzzyReference.build_eq_ok {env : TextEnv σ} {blake2b : ℤ → List UInt8 → List UInt8}
    {fuzzy : FuzzyOptions σ} {options : ReferenceOptions} {frame : AliasFrame}
    {rows : List AliasRow} (hrows : referenceRows frame options = .ok rows)
    {reference : FuzzyReference σ} :
    build env blake2b fuzzy options frame = .ok reference ↔
      aliasSetFingerprint blake2b rows = .ok reference.fingerprint ∧
        reference.aliases = rows.map (fuzzyAlias env fuzzy) ∧ reference.options = fuzzy := by
  simp only [build, hrows, bind_eq_ok, Except.ok.injEq, pure, Except.pure, exists_eq_left']
  constructor
  · rintro ⟨fingerprint, hfingerprint, rfl⟩
    exact ⟨hfingerprint, rfl, rfl⟩
  · rintro ⟨hfingerprint, haliases, hoptions⟩
    exact ⟨_, hfingerprint, by rw [← haliases, ← hoptions]⟩

theorem mem_scoredOf [LinearOrder σ] {env : TextEnv σ} {options : FuzzyOptions σ}
    {signature : Finset String} {rows : List AliasRow} {scope : String} {p : σ × String} :
    p ∈ scoredOf env options signature (rows.map (fuzzyAlias env options)) scope ↔
      ∃ text, toLex (scope, toLex (text, p.2)) ∈ aliasTriples rows ∧
        options.threshold ≤ p.1 ∧ fuzzyScore env signature
          (fuzzyRepresentation (prepare env options text) options.metric) options.metric = p.1 := by
  simp only [scoredOf, aliasTriples, List.mem_map, List.mem_filter,
    decide_eq_true_eq]
  constructor
  · rintro ⟨_, ⟨⟨row, hrow, rfl⟩, rfl, hscore⟩, rfl⟩
    exact ⟨row.alias_, ⟨row, hrow, rfl⟩, hscore, rfl⟩
  · rintro ⟨text, ⟨row, hrow, heq⟩, hscore, hp⟩
    obtain ⟨hscope, hrest⟩ := Prod.mk.inj (toLex_inj.mp heq)
    obtain ⟨htext, hcid⟩ := Prod.mk.inj (toLex_inj.mp hrest)
    subst htext
    refine ⟨fuzzyAlias env options row, ⟨⟨row, hrow, rfl⟩, hscope, ?_⟩, Prod.ext hp hcid⟩
    rwa [← hp] at hscore

/-- References to the same triples with the same options resolve alike. -/
theorem FuzzyReference.resolve_congr [LinearOrder σ] (env : TextEnv σ)
    {rows rows' : List AliasRow} (htriples : SameTriples rows rows')
    {fuzzy : FuzzyOptions σ} {reference reference' : FuzzyReference σ}
    (h : reference.aliases = rows.map (fuzzyAlias env fuzzy))
    (h' : reference'.aliases = rows'.map (fuzzyAlias env fuzzy))
    (hoptions : reference.options = fuzzy) (hoptions' : reference'.options = fuzzy)
    (signal : Option String) (scope : String) :
    (reference.resolve env signal).lookup scope = (reference'.resolve env signal).lookup scope := by
  cases signal with
  | none => rfl
  | some text =>
    cases hblank : isBlank text with
    | true => simp only [resolve, hblank, if_true]
    | false =>
      by_cases hsignature : fuzzyRepresentation (prepare env fuzzy text) fuzzy.metric = ∅
      · simp only [resolve, hblank, hoptions, hoptions', hsignature, if_true]
      · have hmem : ∀ p,
            p ∈ scoredOf env fuzzy (fuzzyRepresentation (prepare env fuzzy text) fuzzy.metric)
              (rows.map (fuzzyAlias env fuzzy)) scope ↔
            p ∈ scoredOf env fuzzy (fuzzyRepresentation (prepare env fuzzy text) fuzzy.metric)
              (rows'.map (fuzzyAlias env fuzzy)) scope := by
          intro p
          simp only [mem_scoredOf, htriples _]
        have hempty : (scoredOf env fuzzy
              (fuzzyRepresentation (prepare env fuzzy text) fuzzy.metric)
              (rows.map (fuzzyAlias env fuzzy)) scope = []) ↔
            scoredOf env fuzzy (fuzzyRepresentation (prepare env fuzzy text) fuzzy.metric)
              (rows'.map (fuzzyAlias env fuzzy)) scope = [] := by
          simp only [List.eq_nil_iff_forall_not_mem, hmem]
        rw [lookup_resolve env reference hblank (by rw [hoptions]) hsignature,
          lookup_resolve env reference' hblank (by rw [hoptions']) hsignature]
        simp only [h, h', hoptions, hoptions', hempty, scoredResolution_congr env _ _ hmem]

/-! ### Faithfulness -/

/-- **The alias-set fingerprint is faithful.** For frames that both resolvers accept, the recorded
fingerprints are equal exactly if the frames hold the same set of triples, and references with equal
fingerprints resolve every mention alike. -/
theorem alias_fingerprint_faithful [LinearOrder σ] (env : TextEnv σ)
    (blake2b : ℤ → List UInt8 → List UInt8) {options options' : ReferenceOptions}
    {frame frame' : AliasFrame} {rows rows' : List AliasRow}
    (h : referenceRows frame options = .ok rows) (h' : referenceRows frame' options' = .ok rows')
    (hfree : CollisionFree blake2b (canonicalRows rows) (canonicalRows rows')
      "dbt-ml.entity-alias-set") :
    (∀ methods reference reference',
      AliasTableReference.build env blake2b methods options frame = .ok reference →
      AliasTableReference.build env blake2b methods options' frame' = .ok reference' →
      (reference.fingerprint = reference'.fingerprint ↔ SameTriples rows rows') ∧
      (reference.fingerprint = reference'.fingerprint → ∀ signal scope,
        (reference.resolve env signal).lookup scope =
          (reference'.resolve env signal).lookup scope)) ∧
    ∀ fuzzy reference reference',
      FuzzyReference.build env blake2b fuzzy options frame = .ok reference →
      FuzzyReference.build env blake2b fuzzy options' frame' = .ok reference' →
      (reference.fingerprint = reference'.fingerprint ↔ SameTriples rows rows') ∧
      (reference.fingerprint = reference'.fingerprint → ∀ signal scope,
        (reference.resolve env signal).lookup scope =
          (reference'.resolve env signal).lookup scope) := by
  have hfingerprint : ∀ s t, aliasSetFingerprint blake2b rows = .ok s →
      aliasSetFingerprint blake2b rows' = .ok t →
      (s = t ↔ SameTriples rows rows') := by
    intro s t hs ht
    exact (hfree.fingerprint_eq_iff hs ht).trans canonicalRows_eq_iff
  constructor
  · intro methods reference reference' hbuild hbuild'
    obtain ⟨hs, hlookups, hmethods⟩ := (AliasTableReference.build_eq_ok h).mp hbuild
    obtain ⟨ht, hlookups', hmethods'⟩ := (AliasTableReference.build_eq_ok h').mp hbuild'
    refine ⟨hfingerprint _ _ hs ht, fun heq => ?_⟩
    exact AliasTableReference.resolve_congr env ((hfingerprint _ _ hs ht).mp heq) hlookups
      hlookups' (hmethods.trans hmethods'.symm)
  · intro fuzzy reference reference' hbuild hbuild'
    obtain ⟨hs, haliases, hoptions⟩ := (FuzzyReference.build_eq_ok h).mp hbuild
    obtain ⟨ht, haliases', hoptions'⟩ := (FuzzyReference.build_eq_ok h').mp hbuild'
    refine ⟨hfingerprint _ _ hs ht, fun heq => ?_⟩
    exact FuzzyReference.resolve_congr env ((hfingerprint _ _ hs ht).mp heq) haliases haliases'
      hoptions hoptions'

/-- The Unicode functions on ASCII texts, and exact numbers. -/
def asciiEnv : TextEnv ℚ where
  nfkc := id
  casefold := fun s => String.ofList (s.toList.map Char.toLower)
  zero := 0
  divide := fun m n => (m : ℚ) / n
  sub := fun p q => p - q

/-- A frame with the default columns. -/
def companyFrame (aliases : List String) : AliasFrame where
  columns := ["alias", "entity_namespace", "canonical_id"]
  rows := aliases.map fun text field =>
    if field = "alias" then some text
    else if field = "entity_namespace" then some "company" else some "acme"

/-- The digest that `blake2b` has on the two aliases. -/
def companyDigest : ℤ → List UInt8 → List UInt8 := fun _ _ =>
  [85, 80, 216, 232, 125, 138, 4, 107, 179, 32, 227, 62, 9, 56, 247, 199]

theorem alias_fingerprint_faithful_companies :
    ∃ reference reference', AliasTableReference.build asciiEnv companyDigest [.exact, .normalized]
        ⟨"companies", "alias", "entity_namespace", "canonical_id"⟩
        (companyFrame ["Acme", "ACME Corp"]) = .ok reference ∧
      AliasTableReference.build asciiEnv companyDigest [.exact, .normalized]
        ⟨"companies", "alias", "entity_namespace", "canonical_id"⟩
        (companyFrame ["ACME Corp", "Acme", "ACME Corp"]) = .ok reference' ∧
      ∀ signal scope, (reference.resolve asciiEnv signal).lookup scope =
        (reference'.resolve asciiEnv signal).lookup scope := by
  let rows := ["Acme", "ACME Corp"].map fun text => AliasRow.mk "company" text "acme"
  let rows' := ["ACME Corp", "Acme", "ACME Corp"].map fun text => AliasRow.mk "company" text "acme"
  have hrows : referenceRows (companyFrame ["Acme", "ACME Corp"])
      ⟨"companies", "alias", "entity_namespace", "canonical_id"⟩ = .ok rows := by decide +kernel
  have hrows' : referenceRows (companyFrame ["ACME Corp", "Acme", "ACME Corp"])
      ⟨"companies", "alias", "entity_namespace", "canonical_id"⟩ = .ok rows' := by decide +kernel
  have hcanonical : canonicalRows rows = canonicalRows rows' := by
    have hsorted : sortedSet (aliasTriples rows) = sortedSet (aliasTriples rows') := by decide
    rw [canonicalRows, canonicalRows, hsorted]
  obtain ⟨fingerprint, hfingerprint⟩ :
      ∃ fingerprint, aliasSetFingerprint companyDigest rows = .ok fingerprint :=
    exists_eq_ok_of_isOk (by decide +kernel)
  have hfingerprint' : aliasSetFingerprint companyDigest rows' = .ok fingerprint := by
    rw [aliasSetFingerprint, ← hcanonical]
    exact hfingerprint
  have hbuild : AliasTableReference.build asciiEnv companyDigest [.exact, .normalized] _ _ =
      .ok ⟨buildTable asciiEnv rows, [.exact, .normalized], fingerprint⟩ :=
    (AliasTableReference.build_eq_ok hrows).mpr ⟨hfingerprint, rfl, rfl⟩
  have hbuild' : AliasTableReference.build asciiEnv companyDigest [.exact, .normalized] _ _ =
      .ok ⟨buildTable asciiEnv rows', [.exact, .normalized], fingerprint⟩ :=
    (AliasTableReference.build_eq_ok hrows').mpr ⟨hfingerprint', rfl, rfl⟩
  have hfaithful := (alias_fingerprint_faithful asciiEnv companyDigest hrows hrows'
    (CollisionFree.of_eq hcanonical)).1 _ _ _ hbuild hbuild'
  exact ⟨_, _, hbuild, hbuild', hfaithful.2 rfl⟩

end Stel.Text
