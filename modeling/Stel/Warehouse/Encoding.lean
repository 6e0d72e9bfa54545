import Stel.Warehouse.Frame
import Stel.Data.Encoding

/-!
# Encodings of rows

Texts from which rows can be read back, for digests that do not shorten what they digest.

## Main definitions

* `encodeCells`: the encoding of named cells.
-/

namespace Stel.Warehouse

/-- The kind of a cell and its text. -/
def cellParts : Cell → Char × String
  | .null => ('n', "")
  | .string s => ('s', s)
  | .nested j => ('l', j)
  | .other t => ('o', t)

theorem cellParts_injective : Function.Injective cellParts := by
  intro a b h
  cases a <;> cases b <;> simp_all [cellParts]

/-- The encoding of named cells. -/
def encodeCells : List (String × Cell) → List Char :=
  encodeList fun c => encodeText c.1 ++ ([(cellParts c.2).1] ++ encodeText (cellParts c.2).2)

theorem prefixFree_cells : PrefixFree encodeCells :=
  (prefixFree_text.pair ((prefixFree_char.pair prefixFree_text).comp cellParts_injective)).list

end Stel.Warehouse
