import Stel.Data.JsonValue
import Stel.Data.Keyed
import Mathlib.Algebra.Order.Field.Rat
import Mathlib.Data.List.Nodup

/-!
# Equality of JSON values

Python's `==` on the values of `json.loads`: booleans, integers and floats are compared as numbers,
arrays item by item, and objects by name in any order.

## Main definitions

* `JsonValue.Floats`: the numbers that the texts of floats denote.
* `JsonValue.pyEq`: the equality.

## Main results

* `JsonValue.pyEq_trans`: the equality is transitive.
* `JsonValue.pyEq_object_self`: an object without repeated names equals itself if its values do.
-/

namespace Stel.JsonValue

/-- The number of the text of a finite float. A float without one is infinite or not a number. -/
abbrev Floats : Type := String → Option ℚ

variable (floats : Floats)

/-- A number as Python compares it. -/
inductive Number
  | finite (q : ℚ)
  | infinite (text : String)
  deriving DecidableEq

/-- The number of a boolean, an integer or a float; what is not a number has none. -/
def number : JsonValue → Option Number
  | .bool b => some (.finite (if b then 1 else 0))
  | .int n => some (.finite n)
  | .float text =>
    match floats text with
    | some q => some (.finite q)
    | none => if text = "NaN" then none else some (.infinite text)
  | _ => none

/-- The two are the same number. -/
def numbersEq (a b : JsonValue) : Bool :=
  match number floats a, number floats b with
  | some x, some y => x = y
  | _, _ => false

mutual

/-- `a == b`. -/
def pyEq : JsonValue → JsonValue → Bool
  | .null, b => match b with | .null => true | _ => false
  | .string s, b => match b with | .string t => s = t | _ => false
  | .array xs, b => match b with | .array ys => itemsEq xs ys | _ => false
  | .object ms, b =>
    match b with
    | .object ns => ms.length = ns.length && membersEq ms ns
    | _ => false
  | .bool x, b => numbersEq floats (.bool x) b
  | .int n, b => numbersEq floats (.int n) b
  | .float text, b => numbersEq floats (.float text) b

/-- Item by item equal. -/
def itemsEq : List JsonValue → List JsonValue → Bool
  | [], ys => ys.isEmpty
  | x :: xs, ys => match ys with | [] => false | y :: ys => pyEq x y && itemsEq xs ys

/-- Every member is equal to the one of its name. -/
def membersEq : List (String × JsonValue) → List (String × JsonValue) → Bool
  | [], _ => true
  | (name, x) :: ms, ns =>
    match ns.lookup name with
    | some y => pyEq x y && membersEq ms ns
    | none => false

end

example : pyEq (fun _ => none) (.object [("a", .int 1), ("b", .null)])
    (.object [("b", .null), ("a", .bool true)]) = true := by decide

variable {floats : Floats}

/-! ### What equals a value -/

@[simp] theorem pyEq_null {b : JsonValue} : pyEq floats .null b = true ↔ b = .null := by
  cases b <;> simp [pyEq]

@[simp] theorem pyEq_string {s : String} {b : JsonValue} :
    pyEq floats (.string s) b = true ↔ b = .string s := by
  cases b <;> simp [pyEq, eq_comm]

theorem pyEq_array {xs : List JsonValue} {b : JsonValue} :
    pyEq floats (.array xs) b = true ↔ ∃ ys, b = .array ys ∧ itemsEq floats xs ys = true := by
  cases b <;> simp [pyEq]

theorem pyEq_object {ms : List (String × JsonValue)} {b : JsonValue} :
    pyEq floats (.object ms) b = true ↔
      ∃ ns, b = .object ns ∧ ms.length = ns.length ∧ membersEq floats ms ns = true := by
  cases b <;> simp [pyEq]

theorem numbersEq_iff {a b : JsonValue} :
    numbersEq floats a b = true ↔ ∃ x, number floats a = some x ∧ number floats b = some x := by
  unfold numbersEq
  cases number floats a <;> cases number floats b <;> simp [eq_comm]

/-- A value that is a number equals the values that are the same number. -/
theorem pyEq_of_number {a b : JsonValue} {x : Number} (h : number floats a = some x) :
    pyEq floats a b = true ↔ number floats b = some x := by
  have hnumbers : pyEq floats a b = numbersEq floats a b := by
    cases a <;> first | rfl | cases h
  rw [hnumbers, numbersEq_iff, h]
  simp [eq_comm]

theorem itemsEq_iff {xs ys : List JsonValue} :
    itemsEq floats xs ys = true ↔ List.Forall₂ (fun x y => pyEq floats x y = true) xs ys := by
  induction xs generalizing ys with
  | nil => cases ys <;> simp [itemsEq]
  | cons x xs ih => cases ys <;> simp [itemsEq, ih]

theorem membersEq_iff {ms ns : List (String × JsonValue)} :
    membersEq floats ms ns = true ↔
      ∀ m ∈ ms, ∃ y, ns.lookup m.1 = some y ∧ pyEq floats m.2 y = true := by
  induction ms with
  | nil => simp [membersEq]
  | cons m ms ih =>
    obtain ⟨name, x⟩ := m
    rw [List.forall_mem_cons, ← ih, membersEq]
    cases ns.lookup name <;> simp

theorem mem_of_lookup {ms : List (String × JsonValue)} {name : String} {x : JsonValue}
    (h : ms.lookup name = some x) : (name, x) ∈ ms := by
  obtain ⟨before, after, rfl, -⟩ := List.lookup_eq_some_iff.mp h
  exact List.mem_append_right _ List.mem_cons_self

/-! ### Transitivity -/

mutual

theorem pyEq_trans : ∀ {a b c : JsonValue}, pyEq floats a b = true → pyEq floats b c = true →
    pyEq floats a c = true
  | .null, b, c, hab, hbc => by
    rw [pyEq_null] at hab
    rwa [hab] at hbc
  | .string s, b, c, hab, hbc => by
    rw [pyEq_string] at hab
    rwa [hab] at hbc
  | .array xs, b, c, hab, hbc => by
    obtain ⟨ys, rfl, hxy⟩ := pyEq_array.mp hab
    obtain ⟨zs, rfl, hyz⟩ := pyEq_array.mp hbc
    exact pyEq_array.mpr ⟨zs, rfl, itemsEq_trans hxy hyz⟩
  | .object ms, b, c, hab, hbc => by
    obtain ⟨ns, rfl, hlength, hmn⟩ := pyEq_object.mp hab
    obtain ⟨os, rfl, hlength', hno⟩ := pyEq_object.mp hbc
    exact pyEq_object.mpr ⟨os, rfl, hlength.trans hlength', membersEq_trans hmn hno⟩
  | .bool x, b, c, hab, hbc => by
    obtain ⟨y, hy, hb⟩ := numbersEq_iff.mp hab
    exact numbersEq_iff.mpr ⟨y, hy, (pyEq_of_number hb).mp hbc⟩
  | .int n, b, c, hab, hbc => by
    obtain ⟨y, hy, hb⟩ := numbersEq_iff.mp hab
    exact numbersEq_iff.mpr ⟨y, hy, (pyEq_of_number hb).mp hbc⟩
  | .float text, b, c, hab, hbc => by
    obtain ⟨y, hy, hb⟩ := numbersEq_iff.mp hab
    exact numbersEq_iff.mpr ⟨y, hy, (pyEq_of_number hb).mp hbc⟩

theorem itemsEq_trans : ∀ {xs ys zs : List JsonValue}, itemsEq floats xs ys = true →
    itemsEq floats ys zs = true → itemsEq floats xs zs = true
  | [], ys, zs, hxy, hyz => by
    cases ys with
    | nil => exact hyz
    | cons y ys => cases hxy
  | x :: xs, ys, zs, hxy, hyz => by
    cases ys with
    | nil => cases hxy
    | cons y ys =>
      cases zs with
      | nil => cases hyz
      | cons z zs =>
        simp only [itemsEq, Bool.and_eq_true] at hxy hyz ⊢
        exact ⟨pyEq_trans hxy.1 hyz.1, itemsEq_trans hxy.2 hyz.2⟩

theorem membersEq_trans : ∀ {ms ns os : List (String × JsonValue)},
    membersEq floats ms ns = true → membersEq floats ns os = true →
    membersEq floats ms os = true
  | [], ns, os, hmn, hno => by rw [membersEq]
  | (name, x) :: ms, ns, os, hmn, hno => by
    obtain ⟨⟨y, hy, hxy⟩, hrest⟩ := List.forall_mem_cons.mp (membersEq_iff.mp hmn)
    obtain ⟨z, hz, hyz⟩ := membersEq_iff.mp hno (name, y) (mem_of_lookup hy)
    rw [membersEq, hz]
    exact Bool.and_eq_true_iff.mpr ⟨pyEq_trans hxy hyz, membersEq_trans (membersEq_iff.mpr hrest) hno⟩

end

/-! ### Values that equal themselves -/

theorem pyEq_array_self {xs : List JsonValue} (h : ∀ x ∈ xs, pyEq floats x x = true) :
    pyEq floats (.array xs) (.array xs) = true :=
  pyEq_array.mpr ⟨xs, rfl, itemsEq_iff.mpr (List.forall₂_same.mpr h)⟩

/-- An object without repeated names equals itself if its values do. -/
theorem pyEq_object_self {ms : List (String × JsonValue)} (hnodup : (ms.map Prod.fst).Nodup)
    (h : ∀ m ∈ ms, pyEq floats m.2 m.2 = true) : pyEq floats (.object ms) (.object ms) = true :=
  pyEq_object.mpr ⟨ms, rfl, rfl, membersEq_iff.mpr fun m hm =>
    ⟨m.2, (mem_iff_lookup hnodup).mp hm, h m hm⟩⟩

end Stel.JsonValue
