import Stel.Data.Json
import Mathlib.Data.List.Sort
import Mathlib.Data.String.Basic

/-!
# JSON values with objects and numbers

The values of `json.loads`, and the texts of `json.dumps` with `sort_keys=True` and
`separators=(",", ":")`.

## Main definitions

* `JsonValue`: the values. A float is the text of its `repr`.
* `JsonValue.encode`: the text of a value, for a way to escape characters.
* `JsonValue.dumps`, `JsonValue.dumpsAscii`: the texts for the two values of `ensure_ascii`.
* `JsonValue.hasNan`: a value that `allow_nan=False` refuses.
-/

namespace Stel

/-- A JSON value. The members of an object have different names; a float is the text of its
`repr`. -/
inductive JsonValue
  | null
  | bool (b : Bool)
  | int (n : ℤ)
  | float (text : String)
  | string (s : String)
  | array (items : List JsonValue)
  | object (members : List (String × JsonValue))

namespace JsonValue

/-- A quoted string. -/
def quoteWith (escape : Char → List Char) (s : String) : List Char :=
  '"' :: (s.toList.flatMap escape ++ ['"'])

/-- Texts between commas. -/
def commaSep : List (List Char) → List Char
  | [] => []
  | [x] => x
  | x :: y :: rest => x ++ ',' :: commaSep (y :: rest)

mutual

/-- The text of a value, with the members of an object in the order of their names. -/
def encode (escape : Char → List Char) : JsonValue → List Char
  | .null => ['n', 'u', 'l', 'l']
  | .bool true => ['t', 'r', 'u', 'e']
  | .bool false => ['f', 'a', 'l', 's', 'e']
  | .int n => (toString n).toList
  | .float text => text.toList
  | .string s => quoteWith escape s
  | .array items => '[' :: (commaSep (encodeItems escape items) ++ [']'])
  | .object members =>
    '{' :: (commaSep (((encodeMembers escape members).insertionSort fun a b => a.1 ≤ b.1).map
      fun m => quoteWith escape m.1 ++ ':' :: m.2) ++ ['}'])

/-- The texts of the items of an array. -/
def encodeItems (escape : Char → List Char) : List JsonValue → List (List Char)
  | [] => []
  | item :: items => encode escape item :: encodeItems escape items

/-- The names of the members of an object with the texts of their values. -/
def encodeMembers (escape : Char → List Char) :
    List (String × JsonValue) → List (String × List Char)
  | [] => []
  | (name, value) :: members => (name, encode escape value) :: encodeMembers escape members

end

/-- The text of a value with `ensure_ascii=False`. -/
def dumps (j : JsonValue) : String := String.ofList (encode Json.escape j)

/-- The escape of a 16-bit code. -/
def escapeCode (n : ℕ) : List Char :=
  ['\\', 'u', Json.hexDigit (n / 4096), Json.hexDigit (n / 256 % 16), Json.hexDigit (n / 16 % 16),
    Json.hexDigit (n % 16)]

/-- The escape of a character with `ensure_ascii=True`: a character above the 16-bit codes is a
surrogate pair. -/
def escapeAscii (c : Char) : List Char :=
  if c.toNat < 127 then Json.escape c
  else if c.toNat < 65536 then escapeCode c.toNat
  else escapeCode (55296 + (c.toNat - 65536) / 1024) ++ escapeCode (56320 + (c.toNat - 65536) % 1024)

/-- The text of a value with `ensure_ascii=True`. -/
def dumpsAscii (j : JsonValue) : String := String.ofList (encode escapeAscii j)

mutual

/-- A float that is not finite occurs in the value. -/
def hasNan : JsonValue → Bool
  | .float text => text ∈ ["NaN", "Infinity", "-Infinity"]
  | .array items => itemsHaveNan items
  | .object members => membersHaveNan members
  | _ => false

/-- A float that is not finite occurs in the items. -/
def itemsHaveNan : List JsonValue → Bool
  | [] => false
  | item :: items => hasNan item || itemsHaveNan items

/-- A float that is not finite occurs in the members. -/
def membersHaveNan : List (String × JsonValue) → Bool
  | [] => false
  | (_, value) :: members => hasNan value || membersHaveNan members

end

end JsonValue

end Stel
