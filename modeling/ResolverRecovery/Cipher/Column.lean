/-!
# Columns of the AES state

AES works on columns of four bytes.  The bytes are elements of the field of 256 elements, and a
column is mixed by a multiplication with a fixed matrix, which has an inverse.

## Main definitions

* `double`: multiplication by the element `x` of the field; the other factors are built from it.
* `Column`, with `Column.add`, `Column.map` and `Column.rotate`.
* `Column.mix` and `Column.unmix`.
-/

namespace ResolverRecovery.Cipher

/-- Multiplication by the element `x`: a shift to the left, reduced by the field's polynomial if a
bit drops out. -/
def double (b : UInt8) : UInt8 :=
  (b <<< 1) ^^^ (if b < 0x80 then 0 else 0x1B)

/-- Multiplication by four. -/
def quadruple (b : UInt8) : UInt8 := double (double b)

/-- Multiplication by eight. -/
def octuple (b : UInt8) : UInt8 := double (quadruple b)

/-- Four bytes. -/
structure Column where
  b0 : UInt8
  b1 : UInt8
  b2 : UInt8
  b3 : UInt8
  deriving DecidableEq

namespace Column

/-- The column of zeros. -/
def zero : Column := ⟨0, 0, 0, 0⟩

/-- The sum in the field, byte by byte. -/
def add (c d : Column) : Column :=
  ⟨c.b0 ^^^ d.b0, c.b1 ^^^ d.b1, c.b2 ^^^ d.b2, c.b3 ^^^ d.b3⟩

/-- Applies a function to each byte. -/
def map (f : UInt8 → UInt8) (c : Column) : Column := ⟨f c.b0, f c.b1, f c.b2, f c.b3⟩

/-- The first byte moves to the end. -/
def rotate (c : Column) : Column := ⟨c.b1, c.b2, c.b3, c.b0⟩

/-- The bytes in order. -/
def bytes (c : Column) : List UInt8 := [c.b0, c.b1, c.b2, c.b3]

/-- The byte `2a + 3b + c + d` of a mixed column. -/
def mixed (a b c d : UInt8) : UInt8 := double a ^^^ (double b ^^^ b) ^^^ c ^^^ d

/-- Multiplies the column by the matrix whose rows are the rotations of 2, 3, 1, 1. -/
def mix (c : Column) : Column :=
  ⟨mixed c.b0 c.b1 c.b2 c.b3, mixed c.b1 c.b2 c.b3 c.b0, mixed c.b2 c.b3 c.b0 c.b1,
    mixed c.b3 c.b0 c.b1 c.b2⟩

/-- The byte `14a + 11b + 13c + 9d` of an unmixed column. -/
def unmixed (a b c d : UInt8) : UInt8 :=
  (octuple a ^^^ quadruple a ^^^ double a) ^^^ (octuple b ^^^ double b ^^^ b) ^^^
    (octuple c ^^^ quadruple c ^^^ c) ^^^ (octuple d ^^^ d)

/-- Multiplies the column by the inverse matrix, whose rows are the rotations of 14, 11, 13, 9. -/
def unmix (c : Column) : Column :=
  ⟨unmixed c.b0 c.b1 c.b2 c.b3, unmixed c.b1 c.b2 c.b3 c.b0, unmixed c.b2 c.b3 c.b0 c.b1,
    unmixed c.b3 c.b0 c.b1 c.b2⟩

end Column

end ResolverRecovery.Cipher
