import Stel.Data.Keyed
import Mathlib.Data.List.Sort
import Mathlib.Data.String.Basic
import Mathlib.Algebra.Group.Int.Defs

/-!
# Python values in JSON

Dictionaries, lists and tuples, numbers and texts, and what is left of them after `json.dumps` with
`sort_keys=True` and `json.loads`: the members of a dictionary come back in the order of their names, and a
tuple comes back as a list. Finite floats and strings come back as they are, so a text of JSON is represented
by the value that it stands for.

## Main definitions

* `FloatArithmetic`: the floats, with the operations that may raise.
* `Value`, `JsonText`: the values, and the texts of JSON.
* `Value.dumps`, `JsonText.loads`.

## Main results

* `lookup_reloaded`: the members of a dictionary that is read back.
* `sorted_sorted`: what is read back is written the same.
-/

namespace Stel.Ml

/-! ### Floats -/

/-- The floats of the interpreter: comparison, and the operations; `none` is an exception. -/
structure FloatArithmetic (F : Type) where
  isFinite : F → Bool
  cmp : F → F → Option Ordering
  cmpInt : F → ℤ → Option Ordering
  /-- `float(n)`. -/
  ofInt : ℤ → Option F
  /-- `m / n`. -/
  divInt : ℤ → ℤ → Option F
  add : F → F → F
  sub : F → F → F
  mul : F → F → F
  div : F → F → Option F
  /-- `sum(xs)`. -/
  sum : List F → F
  log : F → Option F
  exp : F → Option F
  ceil : F → Option ℤ
  floor : F → Option ℤ
  /-- `int(x)`. -/
  trunc : F → Option ℤ

/-- A number that is an `int` or a `float`. -/
inductive Number (F : Type)
  | int (n : ℤ)
  | float (x : F)

namespace FloatArithmetic

variable {F : Type} (A : FloatArithmetic F)

/-- `0 <= x`. -/
def NonNeg (x : F) : Prop := A.cmpInt x 0 = some .gt ∨ A.cmpInt x 0 = some .eq

/-- `x <= y`. -/
def Le (x y : F) : Prop := A.cmp x y = some .lt ∨ A.cmp x y = some .eq

/-- `float(number)`. -/
def ofNumber : Number F → Option F
  | .int n => A.ofInt n
  | .float x => some x

/-- `float(number) == number` of a number and an `int`. -/
def eqNumber : Number F → Number F → Bool
  | .int m, .int n => m = n
  | .int m, .float x => A.cmpInt x m = some .eq
  | .float x, .int m => A.cmpInt x m = some .eq
  | .float x, .float y => A.cmp x y = some .eq

/-- What holds of floats with rounding to the nearest one: results between finite floats are finite, and
rounding keeps the order. -/
structure Rounds : Prop where
  cmp_self : ∀ x, A.isFinite x = true → A.cmp x x = some .eq
  ofInt_finite : ∀ n x, A.ofInt n = some x → A.isFinite x = true
  /-- The integers of 53 bits are floats. -/
  cmpInt_ofInt : ∀ m n x, 0 ≤ m → m ≤ 2 ^ 53 → A.ofInt m = some x → A.cmpInt x n = some (compare m n)
  divInt_finite : ∀ m n x, A.divInt m n = some x → A.isFinite x = true
  ofInt_nonNeg : ∀ n x, 0 ≤ n → A.ofInt n = some x → A.NonNeg x
  ofInt_le : ∀ m n x y, m ≤ n → A.ofInt m = some x → A.ofInt n = some y → A.Le x y
  add_le_add : ∀ x x' y y', A.NonNeg x → A.NonNeg y → A.Le x x' → A.Le y y' → A.Le (A.add x y) (A.add x' y')
  add_nonNeg : ∀ x y, A.NonNeg x → A.NonNeg y → A.NonNeg (A.add x y)
  le_add : ∀ t x y, A.NonNeg t → A.NonNeg x → A.Le x y → A.Le x (A.add t y)
  le_mul : ∀ x n y, A.NonNeg x → 1 ≤ n → A.ofInt n = some y → A.Le x (A.mul x y)
  /-- Half the distance of the largest floats is greater than a million. -/
  add_finite : ∀ n x y, A.ofInt n = some x → A.isFinite y = true → A.NonNeg y →
    A.cmpInt y 1000000 ≠ some .gt → A.isFinite (A.add x y) = true
  div_finite : ∀ x y z, A.isFinite x = true → A.NonNeg x → A.Le x y → A.div x y = some z → A.isFinite z = true
  log_finite : ∀ x y, A.isFinite x = true → A.log x = some y → A.isFinite y = true
  /-- A logarithm is less than a million. -/
  log_add_finite : ∀ x y n z, A.isFinite x = true → A.log x = some y → A.ofInt n = some z →
    A.isFinite (A.add y z) = true

end FloatArithmetic

/-! ### Values -/

/-- A value. The members of a dictionary have different names. -/
inductive Value (F : Type)
  | null
  | bool (b : Bool)
  | int (n : ℤ)
  | float (x : F)
  | str (s : String)
  | list (items : List (Value F))
  | tuple (items : List (Value F))
  | object (members : List (String × Value F))

namespace Value

variable {F : Type}

/-- The value of a number. -/
def ofNumber : Number F → Value F
  | .int n => .int n
  | .float x => .float x

/-- A list of texts. -/
def texts (ss : List String) : Value F := .list (ss.map .str)

/-- `null` for an absent value. -/
def ofOption {α : Type} (f : α → Value F) : Option α → Value F
  | none => .null
  | some a => f a

/-- The order of the members in a text with `sort_keys=True`. -/
def byName {α : Type} (a b : String × α) : Prop := a.1 ≤ b.1

instance {α : Type} (a b : String × α) : Decidable (byName a b) := inferInstanceAs (Decidable (a.1 ≤ b.1))

instance {α : Type} : Std.Total (@byName α) := ⟨fun a b => le_total a.1 b.1⟩

instance {α : Type} : IsTrans (String × α) byName := ⟨fun _ _ _ h h' => le_trans h h'⟩

mutual

/-- What `json.loads` reads from what `json.dumps` writes. -/
def sorted : Value F → Value F
  | .list items => .list (sortedItems items)
  | .tuple items => .list (sortedItems items)
  | .object members => .object ((sortedMembers members).insertionSort byName)
  | v => v

def sortedItems : List (Value F) → List (Value F)
  | [] => []
  | item :: items => item.sorted :: sortedItems items

def sortedMembers : List (String × Value F) → List (String × Value F)
  | [] => []
  | (name, value) :: members => (name, value.sorted) :: sortedMembers members

end

end Value

/-- A text of JSON, by the value that it stands for. -/
structure JsonText (F : Type) where
  value : Value F

/-- `json.dumps(v, sort_keys=True)`. -/
def Value.dumps {F : Type} (v : Value F) : JsonText F := ⟨v.sorted⟩

/-- `json.loads(text)`. -/
def JsonText.loads {F : Type} (text : JsonText F) : Value F := text.value

namespace Value

variable {F : Type}

theorem sortedItems_eq_map (items : List (Value F)) : sortedItems items = items.map sorted := by
  induction items with
  | nil => rfl
  | cons item items ih => rw [sortedItems, ih, List.map_cons]

theorem sortedMembers_eq_map (members : List (String × Value F)) :
    sortedMembers members = members.map fun m => (m.1, m.2.sorted) := by
  induction members with
  | nil => rfl
  | cons m members ih => rw [sortedMembers, ih, List.map_cons]

/-- The members of a dictionary that is read back. -/
def reloaded (members : List (String × Value F)) : List (String × Value F) :=
  (sortedMembers members).insertionSort byName

theorem sorted_object (members : List (String × Value F)) :
    (object members).sorted = object (reloaded members) := rfl

theorem sorted_str (s : String) : (str s : Value F).sorted = str s := rfl

theorem sorted_int (n : ℤ) : (int n : Value F).sorted = int n := rfl

theorem sorted_texts (ss : List String) : (texts ss : Value F).sorted = texts ss := by
  rw [texts, sorted, sortedItems_eq_map, List.map_map]
  rfl

theorem lookup_sortedMembers (members : List (String × Value F)) (name : String) :
    (sortedMembers members).lookup name = (members.lookup name).map sorted := by
  induction members with
  | nil => rfl
  | cons m members ih =>
    rw [sortedMembers, List.lookup_cons, List.lookup_cons, ih]
    split <;> rfl

theorem keys_sortedMembers (members : List (String × Value F)) :
    (sortedMembers members).map Prod.fst = members.map Prod.fst := by
  rw [sortedMembers_eq_map, List.map_map]
  rfl

theorem keys_reloaded (members : List (String × Value F)) :
    ((reloaded members).map Prod.fst).Perm (members.map Prod.fst) := by
  rw [← keys_sortedMembers members]
  exact (List.perm_insertionSort byName _).map _

/-- A dictionary is looked up the same in any order. -/
theorem lookup_perm {β : Type} {ms ns : List (String × β)} (h : ms.Perm ns)
    (hnodup : (ms.map Prod.fst).Nodup) (name : String) : ms.lookup name = ns.lookup name := by
  refine Option.ext fun b => ?_
  rw [← mem_iff_lookup hnodup, ← mem_iff_lookup ((h.map Prod.fst).nodup_iff.mp hnodup), h.mem_iff]

/-- The members of a dictionary that is read back are those that were written, read back. -/
theorem lookup_reloaded {members : List (String × Value F)} (hnodup : (members.map Prod.fst).Nodup)
    (name : String) : (reloaded members).lookup name = (members.lookup name).map sorted := by
  rw [← lookup_sortedMembers]
  refine lookup_perm (List.perm_insertionSort byName _) ?_ name
  exact (keys_reloaded members).nodup_iff.mpr hnodup

/-! ### Reading back twice -/

theorem pairwise_reloaded (members : List (String × Value F)) : (reloaded members).Pairwise byName :=
  List.pairwise_insertionSort byName _

theorem sortedMembers_eq_self {members : List (String × Value F)} (h : ∀ m ∈ members, m.2.sorted = m.2) :
    sortedMembers members = members := by
  induction members with
  | nil => rfl
  | cons m members ih =>
    obtain ⟨hm, hrest⟩ := List.forall_mem_cons.mp h
    rw [sortedMembers, hm, ih hrest]

mutual

/-- What is read back is written the same. -/
theorem sorted_sorted : ∀ v : Value F, v.sorted.sorted = v.sorted
  | .null | .bool _ | .int _ | .float _ | .str _ => rfl
  | .list items | .tuple items => congrArg Value.list (sortedItems_sortedItems items)
  | .object members => by
    have hfixed : ∀ m ∈ reloaded members, m.2.sorted = m.2 := fun m hm =>
      sorted_of_mem members m ((List.perm_insertionSort byName _).mem_iff.mp hm)
    have hmembers : sortedMembers (reloaded members) = reloaded members := sortedMembers_eq_self hfixed
    rw [sorted_object, sorted_object, reloaded, hmembers, (pairwise_reloaded members).insertionSort_eq]

theorem sortedItems_sortedItems : ∀ items : List (Value F),
    sortedItems (sortedItems items) = sortedItems items
  | [] => rfl
  | item :: items => congrArg₂ List.cons (sorted_sorted item) (sortedItems_sortedItems items)

theorem sorted_of_mem : ∀ (members : List (String × Value F)), ∀ m ∈ sortedMembers members, m.2.sorted = m.2
  | [], _, hm => absurd hm List.not_mem_nil
  | (_, value) :: members, m, hm => by
    rcases List.mem_cons.mp hm with rfl | hm
    · exact sorted_sorted value
    · exact sorted_of_mem members m hm

end

theorem sortedMembers_sortedMembers (members : List (String × Value F)) :
    sortedMembers (sortedMembers members) = sortedMembers members :=
  sortedMembers_eq_self (sorted_of_mem members)

/-- The order of the members does not matter for the text. -/
theorem reloaded_perm {ms ns : List (String × Value F)} (h : ms.Perm ns) (hnodup : (ms.map Prod.fst).Nodup) :
    reloaded ms = reloaded ns := by
  have hperm : (reloaded ms).Perm (reloaded ns) := by
    refine (List.perm_insertionSort byName _).trans (.trans ?_ (List.perm_insertionSort byName _).symm)
    rw [sortedMembers_eq_map, sortedMembers_eq_map]
    exact h.map _
  have hkeys : ((reloaded ms).map Prod.fst).Nodup := (keys_reloaded ms).nodup_iff.mpr hnodup
  refine hperm.eq_of_pairwise (fun a b ha hb hab hba => ?_) (pairwise_reloaded ms) (pairwise_reloaded ns)
  exact List.inj_on_of_nodup_map hkeys ha (hperm.mem_iff.mpr hb) (le_antisymm hab hba)

/-- Members that are left out after a dictionary is read back might as well be left out before. -/
theorem reloaded_filter {members : List (String × Value F)} (hnodup : (members.map Prod.fst).Nodup)
    (p : String → Bool) :
    reloaded ((reloaded members).filter fun m => p m.1) = reloaded (members.filter fun m => p m.1) := by
  have hfilter : sortedMembers (members.filter fun m => p m.1) =
      (sortedMembers members).filter fun m => p m.1 := by
    rw [sortedMembers_eq_map, sortedMembers_eq_map, List.filter_map]
    rfl
  have hkeys : (((reloaded members).filter fun m => p m.1).map Prod.fst).Nodup :=
    (List.filter_sublist.map Prod.fst).nodup ((keys_reloaded members).nodup_iff.mpr hnodup)
  have hperm : ((reloaded members).filter fun m => p m.1).Perm
      (sortedMembers (members.filter fun m => p m.1)) := by
    rw [hfilter]
    exact (List.perm_insertionSort byName _).filter _
  rw [reloaded_perm hperm hkeys, reloaded, sortedMembers_sortedMembers]
  rfl

end Value

end Stel.Ml
