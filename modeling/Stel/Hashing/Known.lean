import Stel.Hashing
import Mathlib.Algebra.Ring.Nat

/-!
# Known digests

A digest function that is given by its values at some inputs, and the fingerprints that it has there.
A value of moderate size has a fingerprint, which is seen without sorting its canonical form.

## Main definitions

* `knownDigest`, `knownInputs`: a digest that is known for some values.
* `canonicalBound`: a bound on the length of the canonical form.

## Main results

* `collisionFree_knownDigest`: a known digest does not collide.
* `canonicalFingerprint_known`: the fingerprints of the values.
-/

namespace Stel.Hashing

open PyValue

/-! ### The length of the canonical form -/

mutual

/-- A bound on the length of the canonical form, which does not sort. -/
def canonicalBound : PyValue → ℕ
  | .mapping entries => 40 + entriesBound entries
  | .sequence _ items => 40 + itemsBound items
  | .set _ items => 40 + itemsBound items
  | v => (canonicalValue v).encode.length

def itemsBound : List PyValue → ℕ
  | [] => 0
  | item :: items => canonicalBound item + 1 + itemsBound items

def entriesBound : List (PyValue × PyValue) → ℕ
  | [] => 0
  | (key, item) :: entries => canonicalBound key + canonicalBound item + 4 + entriesBound entries

end

theorem length_encode_array_le (items : List Json) :
    (Json.array items).encode.length ≤ 2 + (items.map fun j => j.encode.length + 1).sum := by
  have hfurther : ∀ l : List Json, (Json.encodeFurther l).length =
      1 + (l.map fun j => j.encode.length + 1).sum := by
    intro l
    induction l with
    | nil => rfl
    | cons j l ih =>
      rw [Json.encodeFurther, List.length_cons, List.length_append, ih, List.map_cons,
        List.sum_cons]
      omega
  cases items with
  | nil => simp [Json.encode, Json.encodeItems]
  | cons j items =>
    rw [Json.encode, Json.encodeItems, List.length_cons, List.length_append, hfurther,
      List.map_cons, List.sum_cons]
    omega

/-- Sorting does not change the length. -/
theorem length_encode_sortEncoded_le (items : List Json) :
    (Json.array (sortEncoded items)).encode.length ≤
      2 + (items.map fun j => j.encode.length + 1).sum := by
  have hperm : (sortEncoded items).Perm items :=
    List.perm_insertionSort (fun a b : Json => a.dumps ≤ b.dumps) items
  rw [← (hperm.map fun j : Json => j.encode.length + 1).sum_nat]
  exact length_encode_array_le _

theorem length_encode_tagged_le (tag type : String) (j : Json) :
    (Json.array [.string tag, .string type, j]).encode.length ≤
      (Json.quote tag).length + (Json.quote type).length + j.encode.length + 5 := by
  refine (length_encode_array_le _).trans ?_
  simp only [List.map_cons, List.map_nil, List.sum_cons, List.sum_nil, Json.encode]
  omega

mutual

theorem length_canonicalValue_le : ∀ v : PyValue,
    (canonicalValue v).encode.length ≤ canonicalBound v
  | .mapping entries => by
    rw [canonicalValue, canonicalBound]
    have htag := length_encode_tagged_le "mapping" "builtins.dict"
      (.array (sortEncoded (canonicalEntries entries)))
    have hsort := length_encode_sortEncoded_le (canonicalEntries entries)
    have hentries := length_canonicalEntries_le entries
    simp only [show (Json.quote "mapping").length = 9 by decide,
      show (Json.quote "builtins.dict").length = 15 by decide] at htag
    omega
  | .sequence kind items => by
    rw [canonicalValue, canonicalBound]
    have htag := length_encode_tagged_le "sequence" kind.typeIdentity (.array (canonicalItems items))
    have harray := length_encode_array_le (canonicalItems items)
    have hitems := length_canonicalItems_le items
    have htype : (Json.quote kind.typeIdentity).length ≤ 16 := by cases kind <;> decide
    simp only [show (Json.quote "sequence").length = 10 by decide] at htag
    omega
  | .set kind items => by
    rw [canonicalValue, canonicalBound]
    have htag := length_encode_tagged_le "set" kind.typeIdentity
      (.array (sortEncoded (canonicalItems items)))
    have hsort := length_encode_sortEncoded_le (canonicalItems items)
    have hitems := length_canonicalItems_le items
    have htype : (Json.quote kind.typeIdentity).length ≤ 20 := by cases kind <;> decide
    simp only [show (Json.quote "set").length = 5 by decide] at htag
    omega
  | .none | .bool _ | .int _ | .float _ | .complex _ _ | .str _ | .bytes _ | .bytearray _
  | .memoryview _ => by
    simp [canonicalBound]

theorem length_canonicalItems_le : ∀ items : List PyValue,
    ((canonicalItems items).map fun j => j.encode.length + 1).sum ≤ itemsBound items
  | [] => le_rfl
  | item :: items => by
    rw [canonicalItems, List.map_cons, List.sum_cons, itemsBound]
    have hitem := length_canonicalValue_le item
    have hrest := length_canonicalItems_le items
    omega

theorem length_canonicalEntries_le : ∀ entries : List (PyValue × PyValue),
    ((canonicalEntries entries).map fun j => j.encode.length + 1).sum ≤ entriesBound entries
  | [] => le_rfl
  | (key, item) :: entries => by
    rw [canonicalEntries, List.map_cons, List.sum_cons, entriesBound]
    have hkey := length_canonicalValue_le key
    have hitem := length_canonicalValue_le item
    have hrest := length_canonicalEntries_le entries
    have hpair : (Json.array [canonicalValue key, canonicalValue item]).encode.length =
        (canonicalValue key).encode.length + (canonicalValue item).encode.length + 3 := by
      simp [Json.encode, Json.encodeItems, Json.encodeFurther]
      omega
    omega

end

theorem length_utf8_ofList_le (l : List Char) : (utf8 (String.ofList l)).length ≤ 4 * l.length := by
  have hbytes : (utf8 (String.ofList l)).length = (l.flatMap String.utf8EncodeChar).length := by
    simp [utf8, List.utf8Encode]
  rw [hbytes]
  induction l with
  | nil => rfl
  | cons c l ih =>
    have hc := c.utf8Size_le_four
    rw [List.flatMap_cons, List.length_append, String.length_utf8EncodeChar, List.length_cons]
    have := ih (by simp [utf8, List.utf8Encode])
    omega

/-- A value that is not huge has a fingerprint. -/
theorem exists_fingerprintInput {v : PyValue} {domain : String} (hdomain : domain ≠ "")
    (hlength : (utf8 domain).length < 256 ^ 8) (hv : 4 * canonicalBound v < 256 ^ 8) :
    ∃ input, fingerprintInput v domain 1 16 = .ok input := by
  have hbytes : (canonicalBytes v).length < 256 ^ 8 :=
    ((length_utf8_ofList_le _).trans
      (Nat.mul_le_mul_left 4 (length_canonicalValue_le v))).trans_lt hv
  have hversion : (utf8 (toString (1 : ℤ))).length < 256 ^ 8 := by decide +kernel
  rw [fingerprintInput, if_neg hdomain, if_neg (by decide), if_neg (by decide)]
  exact ⟨_, bind_eq_ok.mpr ⟨_, updateFrame_eq_ok.mpr ⟨hlength, rfl⟩, bind_eq_ok.mpr
    ⟨_, updateFrame_eq_ok.mpr ⟨hversion, rfl⟩, updateFrame_eq_ok.mpr ⟨hbytes, rfl⟩⟩⟩⟩

/-! ### The digest -/

/-- A digest that is known for some inputs, and is the input itself for the others. -/
def knownDigest (known : List (List UInt8 × List UInt8)) : ℤ → List UInt8 → List UInt8 :=
  fun _ input => (known.lookup input).getD input

/-- Different known digests of the size of a digest do not collide. -/
theorem collisionFree_knownDigest {known : List (List UInt8 × List UInt8)}
    (hnodup : (known.map Prod.snd).Nodup) (hlength : ∀ d ∈ known.map Prod.snd, d.length = 16)
    (v w : PyValue) (domain : String) : CollisionFree (knownDigest known) v w domain := by
  have hlong : ∀ (u : PyValue) (input : List UInt8), fingerprintInput u domain 1 16 = .ok input →
      16 < input.length := by
    intro u input h
    obtain ⟨-, -, -, rfl⟩ := fingerprintInput_eq_ok h
    simp only [List.length_append, length_bigEndian]
    omega
  have hmem : ∀ {input digest : List UInt8}, known.lookup input = some digest →
      (input, digest) ∈ known := by
    intro input digest h
    obtain ⟨l, r, rfl, -⟩ := List.lookup_eq_some_iff.mp h
    simp
  intro a b ha hb h
  simp only [knownDigest] at h
  cases hla : known.lookup a with
  | none =>
    cases hlb : known.lookup b with
    | none => simpa [hla, hlb] using h
    | some d =>
      have hd := hlength d (List.mem_map_of_mem (hmem hlb))
      have hab : a = d := by simpa [hla, hlb] using h
      have := hlong v a ha
      rw [hab] at this
      omega
  | some c =>
    have hc := hlength c (List.mem_map_of_mem (hmem hla))
    cases hlb : known.lookup b with
    | none =>
      have hab : c = b := by simpa [hla, hlb] using h
      have := hlong w b hb
      rw [← hab] at this
      omega
    | some d =>
      have hcd : c = d := by simpa [hla, hlb] using h
      have hentry := List.inj_on_of_nodup_map hnodup (hmem hla) (hmem hlb) hcd
      exact congrArg Prod.fst hentry

/-- The inputs of the digest of some values in a domain, with their digests. -/
def knownInputs (domain : String) (known : List (PyValue × List UInt8)) :
    List (List UInt8 × List UInt8) :=
  known.map fun e => (((fingerprintInput e.1 domain 1 16).toOption).getD [], e.2)

/-- The fingerprint of a value whose digest is known. -/
theorem canonicalFingerprint_known {known : List (PyValue × List UInt8)} {domain : String}
    (hdomain : domain ≠ "") (hlength : (utf8 domain).length < 256 ^ 8)
    (hbound : ∀ e ∈ known, 4 * canonicalBound e.1 < 256 ^ 8)
    (hnodup : (known.map fun e => canonicalValue e.1).Nodup) {v : PyValue} {digest : List UInt8}
    (h : (v, digest) ∈ known) :
    canonicalFingerprint (knownDigest (knownInputs domain known)) v domain 1 16 =
      .ok (hex digest) := by
  obtain ⟨input, hinput⟩ := exists_fingerprintInput hdomain hlength (hbound _ h)
  have hlookup : (knownInputs domain known).lookup input = some digest := by
    induction known with
    | nil => cases h
    | cons e known ih =>
      obtain ⟨other, hother⟩ := exists_fingerprintInput hdomain hlength
        (hbound e List.mem_cons_self)
      obtain ⟨hnew, hrest⟩ := List.nodup_cons.mp hnodup
      rw [knownInputs, List.map_cons, List.lookup_cons, hother, Except.toOption, Option.getD_some]
      by_cases heq : input = other
      · subst heq
        have hvalue := (fingerprintInput_inj hinput hother).2.2
        rcases List.mem_cons.mp h with rfl | hmem
        · simp
        · exact absurd (List.mem_map.mpr ⟨(v, digest), hmem, hvalue⟩) hnew
      · rcases List.mem_cons.mp h with rfl | hmem
        · exact absurd (Except.ok.inj (hinput.symm.trans hother)) heq
        · have hb : (input == other) = false := by simpa using heq
          rw [hb]
          exact ih (fun e he => hbound e (List.mem_cons_of_mem _ he)) hrest hmem
  rw [canonicalFingerprint, hinput]
  show Except.ok (hex (knownDigest _ 16 input)) = _
  rw [knownDigest, hlookup, Option.getD_some]

end Stel.Hashing
