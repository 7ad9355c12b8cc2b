import ResolverRecovery.Text.Hex

/-!
# Metadata tokens

A token names a row of one of the metadata tables.  The table sits in the top byte of a 32-bit word
and the row, counted from one, in the lower 24 bits; row zero names nothing.

## Main definitions

* `Token`: the packed word, with `Token.table`, `Token.row` and the zero-based `Token.index`.
* `Token.ofParts`: packing; `Token.typeDef`, `Token.field` and `Token.methodDef` fix the table.
* `Token.text` and `Token.describe`: the short and the long written form.
-/

namespace ResolverRecovery

/-- A metadata token, kept as the packed word. -/
structure Token where
  /-- The table in the top byte, the row below it. -/
  value : UInt32
  deriving DecidableEq

namespace Token

/-- Code of the table of type definitions. -/
def typeDefTable : Nat := 0x02

/-- Code of the table of fields. -/
def fieldTable : Nat := 0x04

/-- Code of the table of method definitions. -/
def methodDefTable : Nat := 0x06

/-- The number of rows that the lower 24 bits can tell apart, the empty row zero included. -/
def rowLimit : Nat := 0x1000000

/-- Packs a table code and a row.  Of the row only the lower 24 bits are kept. -/
def ofParts (table row : Nat) : Token :=
  ⟨UInt32.ofNat (table * rowLimit + row % rowLimit)⟩

/-- The token of a row of the type table. -/
def typeDef (row : Nat) : Token := ofParts typeDefTable row

/-- The token of a row of the field table. -/
def field (row : Nat) : Token := ofParts fieldTable row

/-- The token of a row of the method table. -/
def methodDef (row : Nat) : Token := ofParts methodDefTable row

/-- The code of the table that the token points into. -/
def table (t : Token) : Nat := t.value.toNat / rowLimit

/-- The row of the token, counted from one. -/
def row (t : Token) : Nat := t.value.toNat % rowLimit

/-- The position of the row in its table, counted from zero; row zero has none. -/
def index (t : Token) : Option Nat :=
  if t.row = 0 then none else some (t.row - 1)

/-- The position of the row if the token points into the given table. -/
def indexIn (t : Token) (table : Nat) : Option Nat :=
  if t.table = table then t.index else none

/-- The token that is zero throughout. -/
def isNull (t : Token) : Bool := t.value == 0

/-- Tokens are ordered by their packed words. -/
def compare (s t : Token) : Ordering := Ord.compare s.value.toNat t.value.toNat

/-- The written form used in messages: `0x` and eight hexadecimal digits. -/
def text (t : Token) : String := "0x" ++ Text.hex 8 t.value.toNat

/-- The long written form, which spells out the table and the row. -/
def describe (t : Token) : String :=
  "Token(" ++ t.text ++ ", table: 0x" ++ Text.hex 2 t.table ++ ", row: " ++ toString t.row ++ ")"

instance : ToString Token := ⟨text⟩

end Token

end ResolverRecovery
