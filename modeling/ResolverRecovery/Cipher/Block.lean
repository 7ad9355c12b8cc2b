import ResolverRecovery.Cipher.Column
import ResolverRecovery.Cipher.Substitution

/-!
# Blocks and the rounds of AES

A block is four columns of four bytes.  A round substitutes the bytes, shifts the rows, mixes the
columns and adds a round key; the last round does not mix.  Decryption undoes the rounds in reverse.

## Main definitions

* `Block`, with `Block.ofBytes?` and `Block.bytes`.
* `KeySchedule`: the round keys of a key, with `KeySchedule.ofKey?`.
* `KeySchedule.encrypt` and `KeySchedule.decrypt`: the cipher on one block.
-/

namespace ResolverRecovery.Cipher

/-- Sixteen bytes in four columns. -/
structure Block where
  c0 : Column
  c1 : Column
  c2 : Column
  c3 : Column
  deriving DecidableEq

namespace Block

/-- The number of bytes in a block. -/
def size : Nat := 16

/-- The bytes of a block, column after column. -/
def bytes (b : Block) : List UInt8 := b.c0.bytes ++ b.c1.bytes ++ b.c2.bytes ++ b.c3.bytes

/-- The sum in the field, byte by byte. -/
def add (a b : Block) : Block := ⟨a.c0.add b.c0, a.c1.add b.c1, a.c2.add b.c2, a.c3.add b.c3⟩

/-- Applies a function to each column. -/
def map (f : Column → Column) (b : Block) : Block := ⟨f b.c0, f b.c1, f b.c2, f b.c3⟩

/-- Moves each row to the left by its index. -/
def shiftRows (b : Block) : Block :=
  ⟨⟨b.c0.b0, b.c1.b1, b.c2.b2, b.c3.b3⟩, ⟨b.c1.b0, b.c2.b1, b.c3.b2, b.c0.b3⟩,
    ⟨b.c2.b0, b.c3.b1, b.c0.b2, b.c1.b3⟩, ⟨b.c3.b0, b.c0.b1, b.c1.b2, b.c2.b3⟩⟩

/-- Moves each row to the right by its index. -/
def unshiftRows (b : Block) : Block :=
  ⟨⟨b.c0.b0, b.c3.b1, b.c2.b2, b.c1.b3⟩, ⟨b.c1.b0, b.c0.b1, b.c3.b2, b.c2.b3⟩,
    ⟨b.c2.b0, b.c1.b1, b.c0.b2, b.c3.b3⟩, ⟨b.c3.b0, b.c2.b1, b.c1.b2, b.c0.b3⟩⟩

/-- Substitutes the bytes and shifts the rows. -/
def scramble (b : Block) : Block := (b.map (Column.map substitute)).shiftRows

/-- Undoes `scramble`. -/
def unscramble (b : Block) : Block := b.unshiftRows.map (Column.map unsubstitute)

/-- A round in the middle. -/
def round (b key : Block) : Block := (b.scramble.map Column.mix).add key

/-- Undoes `round`. -/
def unround (b key : Block) : Block := ((b.add key).map Column.unmix).unscramble

end Block

/-- The blocks of a list of bytes, if its length is a multiple of the block size. -/
def blocksOfBytes? : List UInt8 → Option (List Block)
  | [] => some []
  | a0 :: a1 :: a2 :: a3 :: b0 :: b1 :: b2 :: b3 :: c0 :: c1 :: c2 :: c3 :: d0 :: d1 :: d2 :: d3 ::
      rest =>
    (blocksOfBytes? rest).map
      (⟨⟨a0, a1, a2, a3⟩, ⟨b0, b1, b2, b3⟩, ⟨c0, c1, c2, c3⟩, ⟨d0, d1, d2, d3⟩⟩ :: ·)
  | _ => none

/-- The columns of a list of bytes; what does not fill a column is dropped. -/
def columnsOfBytes : List UInt8 → List Column
  | a :: b :: c :: d :: rest => ⟨a, b, c, d⟩ :: columnsOfBytes rest
  | _ => []

/-- The round keys that a key is expanded to. -/
structure KeySchedule where
  /-- The key that is added before the first round. -/
  first : Block
  /-- The keys of the rounds in the middle. -/
  middle : List Block
  /-- The key of the last round. -/
  last : Block

namespace KeySchedule

/-- The cipher takes keys of 16, 24 and 32 bytes. -/
def isKeyLength (length : Nat) : Bool := length == 16 || length == 24 || length == 32

/-- The constant of the `n`-th part of the expansion. -/
def roundConstant : Nat → UInt8
  | 0 => 1
  | n + 1 => double (roundConstant n)

/-- The change that the previous column undergoes before the column at `position` is made of it; the
key has `width` columns. -/
def transform (width position : Nat) (previous : Column) : Column :=
  if position % width = 0 then
    (previous.rotate.map substitute).add ⟨roundConstant (position / width - 1), 0, 0, 0⟩
  else if 6 < width ∧ position % width = 4 then
    previous.map substitute
  else
    previous

/-- Appends `n` columns to an expansion that starts with the `width` columns of a key. -/
def expand (width : Nat) : Nat → Array Column → Array Column
  | 0, columns => columns
  | n + 1, columns =>
    let position := columns.size
    let previous := columns.getD (position - 1) Column.zero
    let column := (columns.getD (position - width) Column.zero).add
      (transform width position previous)
    expand width n (columns.push column)

/-- The round key in columns `4 * n` and following. -/
def keyAt (columns : Array Column) (n : Nat) : Block :=
  let column := fun i => columns.getD (4 * n + i) Column.zero
  ⟨column 0, column 1, column 2, column 3⟩

/-- The schedule of a key; a key of `width` columns has `width + 6` rounds. -/
def ofKey? (key : List UInt8) : Option KeySchedule :=
  if isKeyLength key.length then
    let width := key.length / 4
    let rounds := width + 6
    let columns := expand width (4 * (rounds + 1) - width) (columnsOfBytes key).toArray
    some ⟨keyAt columns 0, (List.range (rounds - 1)).map fun n => keyAt columns (n + 1),
      keyAt columns rounds⟩
  else
    none

/-- Encrypts a block. -/
def encrypt (k : KeySchedule) (b : Block) : Block :=
  (k.middle.foldl Block.round (b.add k.first)).scramble.add k.last

/-- Decrypts a block. -/
def decrypt (k : KeySchedule) (b : Block) : Block :=
  (k.middle.foldr (fun key b => b.unround key) (b.add k.last).unscramble).add k.first

end KeySchedule

end ResolverRecovery.Cipher
