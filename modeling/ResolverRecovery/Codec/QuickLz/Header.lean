import ResolverRecovery.Codec.Error

/-!
# Headers of QuickLZ streams

A stream opens with a byte of flags and two sizes: that of the whole stream and that of the data in
it.  One flag tells whether the sizes take one byte each or four, least significant byte first.

## Main definitions

* `QuickLz.Header`, and `QuickLz.Header.read`, which reads one.
* `littleEndian`: the number written by some bytes.
-/

namespace ResolverRecovery.Codec

/-- The number that bytes write, least significant byte first. -/
def littleEndian : List UInt8 → Nat
  | [] => 0
  | b :: rest => b.toNat + 256 * littleEndian rest

namespace QuickLz

/-- The header of a stream. -/
structure Header where
  /-- The number of bytes that the header takes. -/
  length : Nat
  /-- The announced size of the whole stream, header included. -/
  streamSize : Nat
  /-- The announced size of the decoded data. -/
  dataSize : Nat
  level : Nat
  /-- The body is compressed and not stored as it is. -/
  compressed : Bool
  deriving DecidableEq

namespace Header

/-- Reads the header at the start of a stream.  Bit 0 of the flags says that the body is compressed,
bit 1 that the sizes take four bytes each, and bits 2 and 3 hold the level. -/
def read (data : List UInt8) : Except Error Header :=
  match data with
  | [] => .error .inputTooShort
  | flags :: rest =>
    let flags := flags.toNat
    let width := if flags / 2 % 2 = 1 then 4 else 1
    if rest.length < 2 * width then
      .error .invalidHeader
    else
      .ok {
        length := 1 + 2 * width
        streamSize := littleEndian (rest.take width)
        dataSize := littleEndian ((rest.drop width).take width)
        level := flags / 4 % 4
        compressed := flags % 2 = 1 }

end Header

end QuickLz

end ResolverRecovery.Codec
