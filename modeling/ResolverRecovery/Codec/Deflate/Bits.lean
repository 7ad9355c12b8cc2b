import ResolverRecovery.Codec.Error

/-!
# Bits of a deflate stream

A deflate stream is a sequence of bits, from the lowest bit of the first byte to the highest bit of
the last one.  Some parts of it begin at the next whole byte.

## Main definitions

* `Bits`: the rest of a stream.
* `Bits.next?`, `Bits.number`, `Bits.byte`: reading a bit, a number of some bits, a whole byte.
* `Bits.align`: dropping what is left of the current byte.
-/

namespace ResolverRecovery.Codec.Deflate

/-- The rest of a stream of bits. -/
structure Bits where
  /-- The bits of the current byte that have not been read. -/
  pending : List Bool
  /-- The bytes behind it. -/
  bytes : List UInt8

/-- A part of the decoding, which uses up bits and may meet a fault. -/
abbrev Read := StateT Bits (Except Fault)

namespace Bits

/-- The whole of a stream. -/
def ofBytes (bytes : List UInt8) : Bits := ⟨[], bytes⟩

/-- The number of bits that are left. -/
def length (b : Bits) : Nat := b.pending.length + 8 * b.bytes.length

/-- The bits of a byte above the lowest, from there up. -/
def upperBits (byte : UInt8) : List Bool :=
  (List.range 7).map fun i => byte.toNat.testBit (i + 1)

/-- The next bit, and what is left after it. -/
def next? (b : Bits) : Option (Bool × Bits) :=
  match b.pending, b.bytes with
  | bit :: pending, _ => some (bit, { b with pending := pending })
  | [], byte :: rest => some (byte.toNat.testBit 0, ⟨upperBits byte, rest⟩)
  | [], [] => none

/-- Reads a bit.  Without one the stream is incomplete. -/
def bit : Read Bool := fun b =>
  match b.next? with
  | some (bit, rest) => .ok (bit, rest)
  | none => .error .incomplete

/-- Reads a number of `n` bits, lowest first. -/
def number : Nat → Read Nat
  | 0 => return 0
  | n + 1 => do
    let low ← bit
    let high ← number n
    return low.toNat + 2 * high

/-- Drops what is left of the current byte. -/
def align : Read Unit := fun b => .ok ((), { b with pending := [] })

/-- Reads a byte. -/
def byte : Read UInt8 := return UInt8.ofNat (← number 8)

end Bits

end ResolverRecovery.Codec.Deflate
