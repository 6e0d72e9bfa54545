import Stel.Failure
import Stel.Data.Json
import Stel.Data.Text
import Mathlib.Data.List.Perm.Basic
import Mathlib.Data.List.Sort

/-!
# Canonical fingerprints

`hashing.py`: a value is turned into a tagged JSON value, whose text is framed with the domain and
the version and fed to the digest.

## Main definitions

* `PyValue`: the values that are fingerprinted.
* `canonicalValue`, `canonicalBytes`: the canonical form and its text.
* `fingerprintInput`: the bytes that `canonical_fingerprint` digests.
* `PyValue.Same`: equality up to the order of mapping entries and set elements.

## Main results

* `canonicalValue_eq_iff`: the canonical form determines a value up to order.
* `fingerprint_input_injective`: the digested bytes determine domain, version and value.
-/

namespace Stel.Hashing

/-- The types of an ordered sequence. -/
inductive SequenceKind
  | list
  | tuple
  deriving DecidableEq, Repr

/-- The types of a set. -/
inductive SetKind
  | set
  | frozenset
  deriving DecidableEq, Repr

/-- A Python value. A float is its IEEE 754 representation, and a mapping or a set lists its
contents in the order of iteration. -/
inductive PyValue
  | none
  | bool (b : Bool)
  | int (i : ℤ)
  | float (bits : UInt64)
  | complex (real imag : UInt64)
  | str (s : String)
  | bytes (b : List UInt8)
  | bytearray (b : List UInt8)
  | memoryview (b : List UInt8)
  | sequence (kind : SequenceKind) (items : List PyValue)
  | mapping (entries : List (PyValue × PyValue))
  | set (kind : SetKind) (items : List PyValue)

/-! ### Bytes -/

/-- `int.to_bytes(width, "big")` of a number that fits. -/
def bigEndian : ℕ → ℕ → List UInt8
  | 0, _ => []
  | width + 1, n => bigEndian width (n / 256) ++ [UInt8.ofNat (n % 256)]

/-- `struct.pack(">d", value)`. -/
def packDouble (bits : UInt64) : List UInt8 := bigEndian 8 bits.toNat

/-- `bytes.hex`. -/
def hex (b : List UInt8) : String :=
  String.ofList (b.flatMap fun x => [Json.hexDigit (x.toNat / 16), Json.hexDigit (x.toNat % 16)])

/-- `str.encode("utf-8")`. -/
def utf8 (s : String) : List UInt8 := s.toUTF8.data.toList

/-! ### The canonical form -/

/-- `_type_identity` of a sequence. -/
def SequenceKind.typeIdentity : SequenceKind → String
  | .list => "builtins.list"
  | .tuple => "builtins.tuple"

/-- `_type_identity` of a set. -/
def SetKind.typeIdentity : SetKind → String
  | .set => "builtins.set"
  | .frozenset => "builtins.frozenset"

/-- `sort(key=_encoded_json)`. -/
def sortEncoded (items : List Json) : List Json :=
  items.insertionSort fun a b => a.dumps ≤ b.dumps

mutual

/-- `_canonical_value`. -/
def canonicalValue : PyValue → Json
  | .mapping entries => .array [.string "mapping", .string "builtins.dict",
      .array (sortEncoded (canonicalEntries entries))]
  | .sequence kind items => .array [.string "sequence", .string kind.typeIdentity,
      .array (canonicalItems items)]
  | .set kind items => .array [.string "set", .string kind.typeIdentity,
      .array (sortEncoded (canonicalItems items))]
  | .none => .array [.string "none"]
  | .bool b => .array [.string "bool", .bool b]
  | .int i => .array [.string "int", .string (toString i)]
  | .float bits => .array [.string "float", .string (hex (packDouble bits))]
  | .complex real imag => .array [.string "complex", .string (hex (packDouble real)),
      .string (hex (packDouble imag))]
  | .str s => .array [.string "string", .string s]
  | .bytes b => .array [.string "bytes", .string (hex b)]
  | .bytearray b => .array [.string "bytearray", .string (hex b)]
  | .memoryview b => .array [.string "memoryview", .string (hex b)]

/-- `[_canonical_value(item) for item in value]`. -/
def canonicalItems : List PyValue → List Json
  | [] => []
  | item :: items => canonicalValue item :: canonicalItems items

/-- `[[_canonical_value(key), _canonical_value(item)] for key, item in value.items()]`. -/
def canonicalEntries : List (PyValue × PyValue) → List Json
  | [] => []
  | (key, item) :: entries =>
    .array [canonicalValue key, canonicalValue item] :: canonicalEntries entries

end

/-- `canonical_bytes`. -/
def canonicalBytes (value : PyValue) : List UInt8 := utf8 (canonicalValue value).dumps

/-! ### The digested bytes -/

/-- `_FINGERPRINT_PREFIX`. -/
def fingerprintPrefix : List UInt8 := utf8 "dbt-ml-canonical-fingerprint"

/-- `_update_frame`, on the bytes that the digest was fed so far. -/
def updateFrame (digest value : List UInt8) : Except Failure (List UInt8) :=
  if value.length < 256 ^ 8 then .ok (digest ++ (bigEndian 8 value.length ++ value))
  else .error (.other "int too big to convert")

/-- What `canonical_fingerprint` feeds to the digest. -/
def fingerprintInput (value : PyValue) (domain : String) (version digestSize : ℤ) :
    Except Failure (List UInt8) :=
  if domain = "" then .error (.other "Fingerprint domain must not be empty")
  else if version < 1 then .error (.other "Fingerprint version must be positive")
  else if ¬ (1 ≤ digestSize ∧ digestSize ≤ 64) then
    .error (.other "Fingerprint digest_size must be between 1 and 64")
  else do
    let digest ← updateFrame fingerprintPrefix (utf8 domain)
    let digest ← updateFrame digest (utf8 (toString version))
    updateFrame digest (canonicalBytes value)

/-- `canonical_fingerprint`, with the digest as a parameter. -/
def canonicalFingerprint (blake2b : ℤ → List UInt8 → List UInt8) (value : PyValue)
    (domain : String) (version digestSize : ℤ) : Except Failure String := do
  let digest ← fingerprintInput value domain version digestSize
  return hex (blake2b digestSize digest)

/-! ### Equality up to order -/

namespace PyValue

mutual

/-- The same value up to the order of mapping entries and set elements. -/
inductive Same : PyValue → PyValue → Prop
  | refl (v : PyValue) : Same v v
  | sequence {kind : SequenceKind} {xs ys : List PyValue} (items : SameItems xs ys) :
      Same (.sequence kind xs) (.sequence kind ys)
  | mapping {es es' fs : List (PyValue × PyValue)} (order : es.Perm es')
      (entries : SameEntries es' fs) : Same (.mapping es) (.mapping fs)
  | set {kind : SetKind} {xs xs' ys : List PyValue} (order : xs.Perm xs')
      (items : SameItems xs' ys) : Same (.set kind xs) (.set kind ys)

/-- Item by item the same. -/
inductive SameItems : List PyValue → List PyValue → Prop
  | nil : SameItems [] []
  | cons {x y : PyValue} {xs ys : List PyValue} (item : Same x y) (items : SameItems xs ys) :
      SameItems (x :: xs) (y :: ys)

/-- Entry by entry the same. -/
inductive SameEntries : List (PyValue × PyValue) → List (PyValue × PyValue) → Prop
  | nil : SameEntries [] []
  | cons {k l x y : PyValue} {es fs : List (PyValue × PyValue)} (key : Same k l)
      (item : Same x y) (entries : SameEntries es fs) : SameEntries ((k, x) :: es) ((l, y) :: fs)

end

end PyValue

/-! ### Injectivity of the parts -/

theorem bigEndian_inj {width m n : ℕ} (hm : m < 256 ^ width) (hn : n < 256 ^ width)
    (h : bigEndian width m = bigEndian width n) : m = n := by
  induction width generalizing m n with
  | zero => omega
  | succ width ih =>
    obtain ⟨hhigh, hlow⟩ := List.append_inj' h rfl
    have hdiv : m / 256 = n / 256 := by
      refine ih (Nat.div_lt_of_lt_mul ?_) (Nat.div_lt_of_lt_mul ?_) hhigh <;> omega
    have hmod : (UInt8.ofNat (m % 256)).toNat = (UInt8.ofNat (n % 256)).toNat :=
      congrArg UInt8.toNat (List.singleton_inj.mp hlow)
    simp only [UInt8.toNat_ofNat'] at hmod
    omega

theorem packDouble_injective : Function.Injective packDouble := by
  intro a b h
  exact UInt64.toNat_inj.mp (bigEndian_inj a.toNat_lt b.toNat_lt h)

theorem hex_injective : Function.Injective hex := by
  intro a b h
  replace h := String.ofList_injective h
  induction a generalizing b with
  | nil =>
    cases b with
    | nil => rfl
    | cons y b => simp at h
  | cons x a ih =>
    cases b with
    | nil => simp at h
    | cons y b =>
      simp only [List.flatMap_cons, List.cons_append, List.nil_append, List.cons.injEq] at h
      obtain ⟨hhigh, hlow, hrest⟩ := h
      have hdigit : ∀ m n, m < 16 → n < 16 → Json.hexDigit m = Json.hexDigit n → m = n := by
        intro m n hm hn hmn
        rw [← Json.hexValue_hexDigit m hm, hmn, Json.hexValue_hexDigit n hn]
      have hx := x.toNat_lt
      have hy := y.toNat_lt
      have hdiv := hdigit _ _ (by omega) (by omega) hhigh
      have hmod := hdigit _ _ (by omega) (by omega) hlow
      rw [ih hrest, UInt8.toNat_inj.mp (show x.toNat = y.toNat by omega)]

theorem utf8_injective : Function.Injective utf8 := by
  intro s t h
  refine String.toByteArray_inj.mp (ByteArray.ext (Array.toList_inj.mp ?_))
  simpa only [utf8, String.toUTF8_eq_toByteArray] using h

theorem toString_int_injective : Function.Injective (toString : ℤ → String) := by
  have hdigits : ∀ m n : ℕ, Nat.repr m = Nat.repr n → m = n := fun m n h =>
    toDigits_injective (by rw [← Nat.toList_repr, ← Nat.toList_repr, h])
  have hsign : ∀ m n : ℕ, Nat.repr m ≠ "-" ++ Nat.repr n := by
    intro m n h
    have hmem : '-' ∈ (Nat.repr m).toList := by simp [h]
    rw [Nat.toList_repr] at hmem
    exact absurd (Nat.isDigit_of_mem_toDigits (by decide) (by decide) hmem) (by decide)
  intro a b h
  rcases a with m | m <;> rcases b with n | n <;> simp only [toString, Int.repr] at h
  · rw [hdigits m n h]
  · exact absurd h (hsign m _)
  · exact absurd h.symm (hsign n _)
  · rw [Nat.succ.inj (hdigits _ _ ((String.append_right_inj _).mp h))]

theorem SequenceKind.typeIdentity_injective : Function.Injective SequenceKind.typeIdentity := by
  intro a b h
  cases a <;> cases b <;> first | rfl | exact absurd h (by decide)

theorem SetKind.typeIdentity_injective : Function.Injective SetKind.typeIdentity := by
  intro a b h
  cases a <;> cases b <;> first | rfl | exact absurd h (by decide)

theorem canonicalItems_eq_map (items : List PyValue) :
    canonicalItems items = items.map canonicalValue := by
  induction items with
  | nil => rfl
  | cons item items ih => rw [canonicalItems, ih, List.map_cons]

theorem canonicalEntries_eq_map (entries : List (PyValue × PyValue)) :
    canonicalEntries entries =
      entries.map fun e => .array [canonicalValue e.1, canonicalValue e.2] := by
  induction entries with
  | nil => rfl
  | cons e entries ih => rw [canonicalEntries, ih, List.map_cons]

/-- Sorting by the text forgets the order and nothing else. -/
theorem sortEncoded_eq_iff {as bs : List Json} : sortEncoded as = sortEncoded bs ↔ as.Perm bs := by
  have hperm : ∀ l : List Json, (sortEncoded l).Perm l := fun l =>
    List.perm_insertionSort (fun a b : Json => a.dumps ≤ b.dumps) l
  constructor
  · intro h
    exact (hperm as).symm.trans (h ▸ hperm bs)
  · intro h
    have hsorted : ∀ l : List Json, (sortEncoded l).Pairwise fun a b => a.dumps ≤ b.dumps := by
      intro l
      have : Std.Total fun a b : Json => a.dumps ≤ b.dumps := ⟨fun a b => le_total _ _⟩
      have : IsTrans Json fun a b => a.dumps ≤ b.dumps := ⟨fun a b c => le_trans⟩
      exact List.pairwise_insertionSort _ l
    refine List.Perm.eq_of_pairwise (fun a b _ _ hab hba => ?_) (hsorted as) (hsorted bs)
      ((hperm as).trans (h.trans (hperm bs).symm))
    exact Json.dumps_injective (le_antisymm hab hba)

/-- Values with the same sorted forms can be put in an order in which the forms agree. -/
theorem exists_perm_of_sorted {α : Type} {f : α → Json} {xs ys : List α}
    (h : sortEncoded (xs.map f) = sortEncoded (ys.map f)) :
    ∃ xs', xs.Perm xs' ∧ xs'.map f = ys.map f := by
  have hperm : (ys.map f).Perm (xs.map f) := (sortEncoded_eq_iff.mp h).symm
  obtain ⟨xs', hmap, hxs⟩ := (congrFun₂ (List.eq_map_comp_perm f) _ _).mpr hperm
  exact ⟨xs', hxs.symm, hmap.symm⟩

/-! ### The canonical form up to order -/

open PyValue

theorem sameItems_of_map_eq {xs ys : List PyValue}
    (h : ∀ x ∈ xs, ∀ w, canonicalValue x = canonicalValue w → x.Same w)
    (hmap : xs.map canonicalValue = ys.map canonicalValue) : SameItems xs ys := by
  induction xs generalizing ys with
  | nil =>
    obtain rfl := List.map_eq_nil_iff.mp hmap.symm
    exact .nil
  | cons x xs ih =>
    obtain ⟨y, ys, rfl, hxy, hrest⟩ := List.map_eq_cons_iff.mp hmap.symm
    exact .cons (h x List.mem_cons_self y hxy.symm)
      (ih (fun z hz => h z (List.mem_cons_of_mem _ hz)) hrest.symm)

theorem sameEntries_of_map_eq {es fs : List (PyValue × PyValue)}
    (h : ∀ e ∈ es, (∀ w, canonicalValue e.1 = canonicalValue w → e.1.Same w) ∧
      ∀ w, canonicalValue e.2 = canonicalValue w → e.2.Same w)
    (hmap : canonicalEntries es = canonicalEntries fs) : SameEntries es fs := by
  induction es generalizing fs with
  | nil =>
    cases fs with
    | nil => exact .nil
    | cons f fs => cases hmap
  | cons e es ih =>
    cases fs with
    | nil => cases hmap
    | cons f fs =>
      simp only [canonicalEntries, List.cons.injEq, Json.array.injEq, and_true] at hmap
      obtain ⟨⟨hkey, hitem⟩, hrest⟩ := hmap
      obtain ⟨hk, hx⟩ := h e List.mem_cons_self
      exact .cons (hk f.1 hkey) (hx f.2 hitem)
        (ih (fun z hz => h z (List.mem_cons_of_mem _ hz)) hrest)

mutual

/-- The canonical form determines a value up to order. -/
theorem same_of_canonicalValue : ∀ v w : PyValue, canonicalValue v = canonicalValue w → v.Same w
  | .sequence kind xs, w, h => by
    cases w <;> simp [canonicalValue] at h
    rename_i kind' ys
    obtain ⟨hkind, hitems⟩ := h
    obtain rfl := SequenceKind.typeIdentity_injective hkind
    rw [canonicalItems_eq_map, canonicalItems_eq_map] at hitems
    exact .sequence (sameItems_of_map_eq (same_of_mem xs) hitems)
  | .mapping es, w, h => by
    cases w <;> simp [canonicalValue] at h
    rename_i fs
    rw [canonicalEntries_eq_map, canonicalEntries_eq_map] at h
    obtain ⟨es', hes, hmap⟩ := exists_perm_of_sorted h
    rw [← canonicalEntries_eq_map, ← canonicalEntries_eq_map] at hmap
    exact .mapping hes
      (sameEntries_of_map_eq (fun e he => same_of_mem_entries es e (hes.mem_iff.mpr he)) hmap)
  | .set kind xs, w, h => by
    cases w <;> simp [canonicalValue] at h
    rename_i kind' ys
    obtain ⟨hkind, hitems⟩ := h
    obtain rfl := SetKind.typeIdentity_injective hkind
    rw [canonicalItems_eq_map, canonicalItems_eq_map] at hitems
    obtain ⟨xs', hxs, hmap⟩ := exists_perm_of_sorted hitems
    exact .set hxs (sameItems_of_map_eq (fun x hx => same_of_mem xs x (hxs.mem_iff.mpr hx)) hmap)
  | .none, w, h => by
    cases w <;> simp [canonicalValue] at h
    exact .refl _
  | .bool b, w, h => by
    cases w <;> simp [canonicalValue] at h
    exact h ▸ .refl _
  | .int i, w, h => by
    cases w with
    | int j =>
      simp only [canonicalValue, Json.array.injEq, List.cons.injEq, Json.string.injEq, true_and,
        and_true] at h
      exact toString_int_injective h ▸ .refl _
    | _ => simp [canonicalValue] at h
  | .float bits, w, h => by
    cases w <;> simp [canonicalValue] at h
    exact packDouble_injective (hex_injective h) ▸ .refl _
  | .complex real imag, w, h => by
    cases w <;> simp [canonicalValue] at h
    obtain ⟨hreal, himag⟩ := h
    rw [packDouble_injective (hex_injective hreal), packDouble_injective (hex_injective himag)]
    exact .refl _
  | .str s, w, h => by
    cases w <;> simp [canonicalValue] at h
    exact h ▸ .refl _
  | .bytes b, w, h | .bytearray b, w, h | .memoryview b, w, h => by
    cases w <;> simp [canonicalValue] at h
    exact hex_injective h ▸ .refl _

theorem same_of_mem : ∀ xs : List PyValue, ∀ x ∈ xs, ∀ w,
    canonicalValue x = canonicalValue w → x.Same w
  | [], x, hx, w, h => by cases hx
  | y :: ys, x, hx, w, h => by
    rcases List.mem_cons.mp hx with hxy | hx
    · rw [hxy] at h ⊢
      exact same_of_canonicalValue y w h
    · exact same_of_mem ys x hx w h

theorem same_of_mem_entries : ∀ es : List (PyValue × PyValue), ∀ e ∈ es,
    (∀ w, canonicalValue e.1 = canonicalValue w → e.1.Same w) ∧
      ∀ w, canonicalValue e.2 = canonicalValue w → e.2.Same w
  | [], e, he => by cases he
  | (key, item) :: es, e, he => by
    rcases List.mem_cons.mp he with hek | he
    · rw [hek]
      exact ⟨same_of_canonicalValue key, same_of_canonicalValue item⟩
    · exact same_of_mem_entries es e he

end

mutual

/-- Values that are the same up to order have the same canonical form. -/
theorem canonicalValue_of_same : ∀ {v w : PyValue}, v.Same w → canonicalValue v = canonicalValue w
  | _, _, .refl _ => rfl
  | _, _, .sequence items => by rw [canonicalValue, canonicalValue, canonicalItems_of_same items]
  | _, _, .mapping order entries => by
    rw [canonicalValue, canonicalValue, ← canonicalEntries_of_same entries]
    simp only [canonicalEntries_eq_map]
    rw [sortEncoded_eq_iff.mpr (order.map _)]
  | _, _, .set order items => by
    rw [canonicalValue, canonicalValue, ← canonicalItems_of_same items]
    simp only [canonicalItems_eq_map]
    rw [sortEncoded_eq_iff.mpr (order.map _)]

theorem canonicalItems_of_same : ∀ {xs ys : List PyValue}, SameItems xs ys →
    canonicalItems xs = canonicalItems ys
  | _, _, .nil => rfl
  | _, _, .cons item items => by
    rw [canonicalItems, canonicalItems, canonicalValue_of_same item, canonicalItems_of_same items]

theorem canonicalEntries_of_same : ∀ {es fs : List (PyValue × PyValue)}, SameEntries es fs →
    canonicalEntries es = canonicalEntries fs
  | _, _, .nil => rfl
  | _, _, .cons key item entries => by
    rw [canonicalEntries, canonicalEntries, canonicalValue_of_same key,
      canonicalValue_of_same item, canonicalEntries_of_same entries]

end

theorem canonicalValue_eq_iff {v w : PyValue} : canonicalValue v = canonicalValue w ↔ v.Same w :=
  ⟨same_of_canonicalValue v w, canonicalValue_of_same⟩

/-- Mappings with the same canonical form have the same items, up to their canonical form. -/
theorem canonicalValue_item_eq {es fs : List (PyValue × PyValue)} (key : PyValue) {v w : PyValue}
    (h : canonicalValue (.mapping es) = canonicalValue (.mapping fs))
    (hkeys : (fs.map fun f => canonicalValue f.1).Nodup) (hv : (key, v) ∈ es)
    (hw : (key, w) ∈ fs) : canonicalValue v = canonicalValue w := by
  have hperm : (canonicalEntries es).Perm (canonicalEntries fs) := by
    simpa [canonicalValue, sortEncoded_eq_iff] using h
  rw [canonicalEntries_eq_map, canonicalEntries_eq_map] at hperm
  have hmem := hperm.mem_iff.mp
    (List.mem_map_of_mem (f := fun e => Json.array [canonicalValue e.1, canonicalValue e.2]) hv)
  obtain ⟨entry, hentry, heq⟩ := List.mem_map.mp hmem
  simp only [Json.array.injEq, List.cons.injEq, and_true] at heq
  obtain rfl : entry = (key, w) := List.inj_on_of_nodup_map hkeys hentry hw heq.1
  exact heq.2.symm

example : (canonicalValue (.mapping [(.bool true, .str "x\n\"")])).encode =
    "[\"mapping\",\"builtins.dict\",[[[\"bool\",true],[\"string\",\"x\\n\\\"\"]]]]".toList := by
  decide

theorem canonicalBytes_eq_iff {v w : PyValue} : canonicalBytes v = canonicalBytes w ↔ v.Same w := by
  rw [← canonicalValue_eq_iff]
  constructor
  · intro h
    exact Json.dumps_injective (utf8_injective h)
  · intro h
    rw [canonicalBytes, canonicalBytes, h]

/-! ### Framing -/

theorem length_bigEndian (width n : ℕ) : (bigEndian width n).length = width := by
  induction width generalizing n with
  | zero => rfl
  | succ width ih => rw [bigEndian, List.length_append, ih, List.length_singleton]

theorem updateFrame_eq_ok {digest value out : List UInt8} :
    updateFrame digest value = .ok out ↔
      value.length < 256 ^ 8 ∧ out = digest ++ (bigEndian 8 value.length ++ value) := by
  unfold updateFrame
  split
  · rename_i hlt
    constructor
    · intro h
      exact ⟨hlt, (Except.ok.inj h).symm⟩
    · rintro ⟨-, rfl⟩
      rfl
  · rename_i hge
    constructor
    · intro h
      cases h
    · rintro ⟨hlt, -⟩
      exact absurd hlt hge

/-- A framed value can be told from what follows it. -/
theorem frame_append_inj {u v x y : List UInt8} (hu : u.length < 256 ^ 8) (hv : v.length < 256 ^ 8)
    (h : bigEndian 8 u.length ++ u ++ x = bigEndian 8 v.length ++ v ++ y) : u = v ∧ x = y := by
  rw [List.append_assoc, List.append_assoc] at h
  obtain ⟨hsize, hrest⟩ := List.append_inj h (by rw [length_bigEndian, length_bigEndian])
  exact List.append_inj hrest (bigEndian_inj hu hv hsize)

/-- What is digested if the arguments are accepted. -/
theorem fingerprintInput_eq_ok {value : PyValue} {domain : String} {version digestSize : ℤ}
    {input : List UInt8} (h : fingerprintInput value domain version digestSize = .ok input) :
    (utf8 domain).length < 256 ^ 8 ∧ (utf8 (toString version)).length < 256 ^ 8 ∧
      (canonicalBytes value).length < 256 ^ 8 ∧ input = fingerprintPrefix ++
        ((bigEndian 8 (utf8 domain).length ++ utf8 domain) ++
          ((bigEndian 8 (utf8 (toString version)).length ++ utf8 (toString version)) ++
            (bigEndian 8 (canonicalBytes value).length ++ canonicalBytes value))) := by
  unfold fingerprintInput at h
  split at h
  · cases h
  split at h
  · cases h
  split at h
  · cases h
  obtain ⟨first, hfirst, h⟩ := bind_eq_ok.mp h
  obtain ⟨second, hsecond, h⟩ := bind_eq_ok.mp h
  obtain ⟨hdomain, rfl⟩ := updateFrame_eq_ok.mp hfirst
  obtain ⟨hversion, rfl⟩ := updateFrame_eq_ok.mp hsecond
  obtain ⟨hvalue, rfl⟩ := updateFrame_eq_ok.mp h
  exact ⟨hdomain, hversion, hvalue, by simp only [List.append_assoc]⟩

theorem fingerprintInput_inj {value value' : PyValue} {domain domain' : String}
    {version version' digestSize digestSize' : ℤ} {input : List UInt8}
    (h : fingerprintInput value domain version digestSize = .ok input)
    (h' : fingerprintInput value' domain' version' digestSize' = .ok input) :
    domain = domain' ∧ version = version' ∧ canonicalValue value = canonicalValue value' := by
  obtain ⟨hdomain, hversion, hvalue, rfl⟩ := fingerprintInput_eq_ok h
  obtain ⟨hdomain', hversion', hvalue', heq⟩ := fingerprintInput_eq_ok h'
  obtain ⟨hd, hrest⟩ := frame_append_inj hdomain hdomain' (List.append_cancel_left heq)
  obtain ⟨hv, hrest⟩ := frame_append_inj hversion hversion' hrest
  rw [← List.append_nil (_ ++ canonicalBytes value),
    ← List.append_nil (_ ++ canonicalBytes value')] at hrest
  obtain ⟨hc, -⟩ := frame_append_inj hvalue hvalue' hrest
  exact ⟨utf8_injective hd, toString_int_injective (utf8_injective hv),
    Json.dumps_injective (utf8_injective hc)⟩

/-- **Fingerprint preimages are injective.** The digested bytes are equal only if domain and version
are equal and the values are the same up to the order of mapping entries and set elements, and
values that are the same up to order have the same bytes. -/
theorem fingerprint_input_injective {value value' : PyValue} :
    (∀ domain domain' version version' digestSize digestSize' input,
      fingerprintInput value domain version digestSize = .ok input →
      fingerprintInput value' domain' version' digestSize' = .ok input →
        domain = domain' ∧ version = version' ∧ value.Same value') ∧
    (value.Same value' → ∀ domain version digestSize,
      fingerprintInput value domain version digestSize =
        fingerprintInput value' domain version digestSize) := by
  constructor
  · intro domain domain' version version' digestSize digestSize' input h h'
    obtain ⟨hdomain, hversion, hvalue⟩ := fingerprintInput_inj h h'
    exact ⟨hdomain, hversion, canonicalValue_eq_iff.mp hvalue⟩
  · intro hsame domain version digestSize
    rw [fingerprintInput, fingerprintInput, canonicalBytes_eq_iff.mpr hsame]

/-- The mapping `{"b": {2, 1}, "a": None}`, and its contents in another order. -/
def sampleMappings : PyValue × PyValue :=
  (.mapping [(.str "b", .set .set [.int 2, .int 1]), (.str "a", .none)],
    .mapping [(.str "a", .none), (.str "b", .set .set [.int 1, .int 2])])

theorem same_sampleMappings : sampleMappings.1.Same sampleMappings.2 :=
  .mapping (.swap _ _ _) (.cons (.refl _) (.refl _) (.cons (.refl _)
    (.set (.swap _ _ _) (.cons (.refl _) (.cons (.refl _) .nil))) .nil))

/-- The two orders are digested alike, and the digested bytes give the value back up to order. -/
theorem fingerprint_input_injective_reordered : ∃ input,
    fingerprintInput sampleMappings.1 "sample" 1 16 = .ok input ∧
    fingerprintInput sampleMappings.2 "sample" 1 16 = .ok input ∧
    sampleMappings.2.Same sampleMappings.1 := by
  obtain ⟨input, hinput⟩ : ∃ input, fingerprintInput sampleMappings.1 "sample" 1 16 = .ok input :=
    exists_eq_ok_of_isOk (by decide +kernel)
  have hother : fingerprintInput sampleMappings.2 "sample" 1 16 = .ok input :=
    (fingerprint_input_injective.2 same_sampleMappings _ _ _).symm.trans hinput
  obtain ⟨-, -, hsame⟩ := fingerprint_input_injective.1 _ _ _ _ _ _ input hother hinput
  exact ⟨input, hinput, hother, hsame⟩

/-! ### Digests without collisions -/

/-- The digests of two values in a domain are different, unless the digested bytes are equal. -/
def CollisionFree (blake2b : ℤ → List UInt8 → List UInt8) (v w : PyValue) (domain : String) :
    Prop :=
  ∀ a b, fingerprintInput v domain 1 16 = .ok a → fingerprintInput w domain 1 16 = .ok b →
    blake2b 16 a = blake2b 16 b → a = b

theorem CollisionFree.of_eq {blake2b : ℤ → List UInt8 → List UInt8} {v w : PyValue}
    {domain : String} (h : v = w) : CollisionFree blake2b v w domain := by
  subst h
  intro a b ha hb _
  exact Except.ok.inj (ha.symm.trans hb)

/-- Without collisions, fingerprints are equal exactly if the canonical forms are. -/
theorem CollisionFree.fingerprint_eq_iff {blake2b : ℤ → List UInt8 → List UInt8} {v w : PyValue}
    {domain : String} (h : CollisionFree blake2b v w domain) {s t : String}
    (hs : canonicalFingerprint blake2b v domain 1 16 = .ok s)
    (ht : canonicalFingerprint blake2b w domain 1 16 = .ok t) :
    s = t ↔ canonicalValue v = canonicalValue w := by
  obtain ⟨a, ha, hs⟩ := bind_eq_ok.mp hs
  obtain ⟨b, hb, ht⟩ := bind_eq_ok.mp ht
  obtain rfl := Except.ok.inj hs
  obtain rfl := Except.ok.inj ht
  constructor
  · intro hdigest
    obtain rfl := h a b ha hb (hex_injective hdigest)
    exact (fingerprintInput_inj ha hb).2.2
  · intro hvalue
    have hinput : fingerprintInput v domain 1 16 = fingerprintInput w domain 1 16 := by
      rw [fingerprintInput, fingerprintInput, canonicalBytes, canonicalBytes, hvalue]
    obtain rfl := Except.ok.inj (ha.symm.trans (hinput.trans hb))
    rfl

end Stel.Hashing
