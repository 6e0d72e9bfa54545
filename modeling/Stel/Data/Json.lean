import Stel.Data.Encoding
import Mathlib.Data.String.Basic

/-!
# JSON texts

The texts that `json.dumps` writes, with `separators=(",", ":")` and `ensure_ascii=False`, for
strings, booleans and arrays of these. An object or a number does not occur in what the source
digests.

## Main definitions

* `Json`: the values.
* `Json.escape`: the escape of one character in a string.
* `Json.encode`, `Json.dumps`: the text of a value.

## Main results

* `Json.prefixFree_encode`: a text determines its value, also in front of more text.
* `Json.dumps_injective`.
-/

namespace Stel

/-- A JSON value without objects and numbers. -/
inductive Json
  | string (s : String)
  | bool (b : Bool)
  | array (items : List Json)

namespace Json

/-- A lower-case hexadecimal digit. -/
def hexDigit (n : ℕ) : Char := Nat.digitChar n

/-- The value of a lower-case hexadecimal digit. -/
def hexValue (c : Char) : ℕ := if c ≤ '9' then c.toNat - '0'.toNat else c.toNat - 'a'.toNat + 10

/-- The escape of a character in a string. -/
def escape (c : Char) : List Char :=
  if c = '"' then ['\\', '"']
  else if c = '\\' then ['\\', '\\']
  else if c = '\n' then ['\\', 'n']
  else if c = '\r' then ['\\', 'r']
  else if c = '\t' then ['\\', 't']
  else if c = '\x0c' then ['\\', 'f']
  else if c = '\x08' then ['\\', 'b']
  else if c.toNat < 32 then
    ['\\', 'u', '0', '0', hexDigit (c.toNat / 16), hexDigit (c.toNat % 16)]
  else [c]

/-- A quoted string. -/
def quote (s : String) : List Char :=
  '"' :: (s.toList.flatMap escape ++ ['"'])

mutual

/-- The text of a value. -/
def encode : Json → List Char
  | .string s => quote s
  | .bool true => ['t', 'r', 'u', 'e']
  | .bool false => ['f', 'a', 'l', 's', 'e']
  | .array items => '[' :: encodeItems items

/-- The text of the items of an array, after the opening bracket. -/
def encodeItems : List Json → List Char
  | [] => [']']
  | item :: items => encode item ++ encodeFurther items

/-- The text of the items of an array after the first one. -/
def encodeFurther : List Json → List Char
  | [] => [']']
  | item :: items => ',' :: (encode item ++ encodeFurther items)

end

/-- The text of a value as a string. -/
def dumps (j : Json) : String := String.ofList (encode j)

/-! ### Strings -/

/-- The character whose escape starts a text. -/
def unescape : List Char → Option (Char × List Char)
  | [] => none
  | '\\' :: 'u' :: '0' :: '0' :: high :: low :: rest =>
    some (Char.ofNat (16 * hexValue high + hexValue low), rest)
  | '\\' :: 'n' :: rest => some ('\n', rest)
  | '\\' :: 'r' :: rest => some ('\r', rest)
  | '\\' :: 't' :: rest => some ('\t', rest)
  | '\\' :: 'f' :: rest => some ('\x0c', rest)
  | '\\' :: 'b' :: rest => some ('\x08', rest)
  | '\\' :: c :: rest => some (c, rest)
  | c :: rest => some (c, rest)

theorem hexValue_hexDigit : ∀ n < 16, hexValue (hexDigit n) = n := by decide

theorem unescape_escape (c : Char) (x : List Char) : unescape (escape c ++ x) = some (c, x) := by
  unfold escape
  split
  · subst_vars; rfl
  split
  · subst_vars; rfl
  split
  · subst_vars; rfl
  split
  · subst_vars; rfl
  split
  · subst_vars; rfl
  split
  · subst_vars; rfl
  split
  · subst_vars; rfl
  split
  · rename_i hcontrol
    have hhigh := hexValue_hexDigit (c.toNat / 16) (by omega)
    have hlow := hexValue_hexDigit (c.toNat % 16) (by omega)
    have hchar : Char.ofNat (16 * (c.toNat / 16) + c.toNat % 16) = c := by
      rw [Nat.div_add_mod, Char.ofNat_toNat]
    simp only [List.cons_append, List.nil_append, unescape, hhigh, hlow, hchar]
  · simp only [List.cons_append, List.nil_append]
    rw [unescape.eq_def]
    split <;> simp_all

/-- No escape starts with a quotation mark. -/
theorem escape_ne_quote (c : Char) (x y : List Char) : escape c ++ x ≠ '"' :: y := by
  unfold escape
  repeat' split
  all_goals simp_all

theorem prefixFree_quote : PrefixFree quote := by
  have hbody : PrefixFree fun s : String => s.toList.flatMap escape ++ ['"'] :=
    ((PrefixFree.of_decode unescape_escape).terminated escape_ne_quote).comp
      fun _ _ h => String.toList_inj.mp h
  intro s t x y h
  exact hbody (List.cons.inj h).2

/-! ### Values -/

/-- No value starts with a closing bracket. -/
theorem encode_ne_bracket (j : Json) (x y : List Char) : encode j ++ x ≠ ']' :: y := by
  rcases j with _ | (_ | _) | _ <;> simp [encode, quote]

mutual

theorem prefixFree_encode : ∀ ⦃a b : Json⦄ ⦃x y : List Char⦄,
    encode a ++ x = encode b ++ y → a = b ∧ x = y
  | .string s, .string t, x, y, h => by
    obtain ⟨rfl, hxy⟩ := prefixFree_quote (by simpa only [encode] using h)
    exact ⟨rfl, hxy⟩
  | .bool a, .bool b, x, y, h => by
    cases a <;> cases b <;> simp_all [encode]
  | .array as, .array bs, x, y, h => by
    simp only [encode, List.cons_append, List.cons.injEq, true_and] at h
    obtain ⟨rfl, hxy⟩ := prefixFree_encodeItems h
    exact ⟨rfl, hxy⟩
  | .string _, .array _, x, y, h | .array _, .string _, x, y, h => by simp [encode, quote] at h
  | .string _, .bool b, x, y, h | .bool b, .string _, x, y, h | .array _, .bool b, x, y, h
  | .bool b, .array _, x, y, h => by cases b <;> simp [encode, quote] at h

theorem prefixFree_encodeItems : ∀ ⦃as bs : List Json⦄ ⦃x y : List Char⦄,
    encodeItems as ++ x = encodeItems bs ++ y → as = bs ∧ x = y
  | [], [], x, y, h => by simpa [encodeItems] using h
  | a :: as, b :: bs, x, y, h => by
    simp only [encodeItems, List.append_assoc] at h
    obtain ⟨rfl, hrest⟩ := prefixFree_encode h
    obtain ⟨rfl, hxy⟩ := prefixFree_encodeFurther hrest
    exact ⟨rfl, hxy⟩
  | [], b :: bs, x, y, h => by
    simp only [encodeItems, List.append_assoc, List.cons_append, List.nil_append] at h
    exact absurd h.symm (encode_ne_bracket b _ _)
  | a :: as, [], x, y, h => by
    simp only [encodeItems, List.append_assoc, List.cons_append, List.nil_append] at h
    exact absurd h (encode_ne_bracket a _ _)

theorem prefixFree_encodeFurther : ∀ ⦃as bs : List Json⦄ ⦃x y : List Char⦄,
    encodeFurther as ++ x = encodeFurther bs ++ y → as = bs ∧ x = y
  | [], [], x, y, h => by simpa [encodeFurther] using h
  | a :: as, b :: bs, x, y, h => by
    simp only [encodeFurther, List.cons_append, List.append_assoc, List.cons.injEq, true_and] at h
    obtain ⟨rfl, hrest⟩ := prefixFree_encode h
    obtain ⟨rfl, hxy⟩ := prefixFree_encodeFurther hrest
    exact ⟨rfl, hxy⟩
  | [], b :: bs, x, y, h => by simp [encodeFurther] at h
  | a :: as, [], x, y, h => by simp [encodeFurther] at h

end

theorem dumps_injective : Function.Injective dumps := by
  intro a b h
  exact PrefixFree.injective prefixFree_encode (String.ofList_injective h)

end Json

end Stel
