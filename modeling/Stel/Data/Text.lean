import Mathlib.Data.List.Basic

/-!
# Python string functions

The string functions of the source whose Unicode behaviour differs from Lean's.

## Main definitions

* `isSpace`: `str.isspace` for one character.
* `isBlank`: whether `str.strip` leaves nothing.
* `Text.splitWords`: the words between whitespace.

## Main results

* `Text.join_splitWords_eq_empty`: the texts without words.
* `append_cons_inj`, `toDigits_injective`: texts with separators and numbers.
-/

namespace Stel

/-- The characters that `str.strip` removes. -/
def isSpace (c : Char) : Bool :=
  let n := c.toNat
  (9 ≤ n && n ≤ 13) || (28 ≤ n && n ≤ 32) || n = 0x85 || n = 0xa0 || n = 0x1680 ||
    (0x2000 ≤ n && n ≤ 0x200a) || n = 0x2028 || n = 0x2029 || n = 0x202f || n = 0x205f ||
      n = 0x3000

/-- `not s.strip()`. -/
def isBlank (s : String) : Bool :=
  s.toList.all isSpace

/-- `str.split`. -/
def Text.splitWords (s : String) : List String :=
  ((s.toList.splitOnP isSpace).filter (· ≠ [])).map String.ofList

/-! ### Words -/

theorem Text.splitWords_eq_nil {s : String} : splitWords s = [] ↔ isBlank s = true := by
  rw [splitWords, isBlank, List.map_eq_nil_iff]
  induction s.toList with
  | nil => simp
  | cons c cs ih =>
    rw [List.splitOnP_cons_eq_if_modifyHead, List.all_cons]
    cases hc : isSpace c with
    | true => simpa using ih
    | false =>
      obtain ⟨word, words, hwords⟩ := List.exists_cons_of_ne_nil (List.splitOnP_ne_nil isSpace cs)
      simp [hwords]

theorem Text.ne_empty_of_mem_splitWords {s word : String} (h : word ∈ splitWords s) :
    word ≠ "" := by
  obtain ⟨cs, hcs, rfl⟩ := List.mem_map.mp h
  simpa using (List.mem_filter.mp hcs).2

/-- Words joined by spaces are empty if there are none. -/
theorem Text.join_splitWords_eq_empty {s : String} :
    " ".intercalate (splitWords s) = "" ↔ isBlank s = true := by
  rw [← splitWords_eq_nil]
  constructor
  · intro h
    cases hwords : splitWords s with
    | nil => rfl
    | cons word words =>
      have hword := ne_empty_of_mem_splitWords (s := s) (hwords ▸ List.mem_cons_self)
      rw [hwords] at h
      cases words with
      | nil => exact absurd h hword
      | cons next words => simp [hword] at h
  · intro h
    rw [h, String.intercalate_nil]

/-! ### Separators and numbers -/

/-- Texts up to the first separator are determined by the whole. -/
theorem append_cons_inj {a b x y : List Char} {c : Char} (ha : c ∉ a) (hb : c ∉ b)
    (h : a ++ c :: x = b ++ c :: y) : a = b ∧ x = y := by
  induction a generalizing b with
  | nil =>
    cases b with
    | nil => exact ⟨rfl, (List.cons.inj h).2⟩
    | cons d b => exact absurd (List.cons.inj h).1 fun he => hb (he ▸ List.mem_cons_self)
  | cons d a ih =>
    cases b with
    | nil => exact absurd (List.cons.inj h).1.symm fun he => ha (he ▸ List.mem_cons_self)
    | cons e b =>
      obtain ⟨rfl, htail⟩ := List.cons.inj h
      obtain ⟨rfl, hxy⟩ := ih (fun hm => ha (List.mem_cons_of_mem _ hm))
        (fun hm => hb (List.mem_cons_of_mem _ hm)) htail
      exact ⟨rfl, hxy⟩

theorem toDigits_injective : Function.Injective (Nat.toDigits 10) := by
  intro m n h
  have hvalue := congrArg (Nat.ofDigitChars 10 · 0) h
  simpa using hvalue

theorem notMem_toDigits {c : Char} (hc : c.isDigit = false) (n : ℕ) : c ∉ Nat.toDigits 10 n := by
  intro hmem
  have hdigit := Nat.isDigit_of_mem_toDigits (by decide) (by decide) hmem
  simp [hc] at hdigit

end Stel
