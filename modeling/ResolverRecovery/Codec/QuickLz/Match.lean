/-!
# Matches in QuickLZ streams

A match stands for bytes that the output holds already.  At level 1 it names a bucket of a hash
table, at level 3 the distance back.  Either is packed, together with the length, into the lowest
bits of the next few bytes of the stream, read as one number.

## Main definitions

* `Level`: the two levels that are read here.
* `Form`: the five ways in which level 3 packs distance and length, with `Form.ofWord`.
* `bucketOf`: the bucket that three bytes of output belong to.
-/

namespace ResolverRecovery.Codec.QuickLz

/-- The levels that are read here. -/
inductive Level where
  | one
  | three
  deriving DecidableEq

/-- The level with the given number. -/
def Level.ofNat? : Nat → Option Level
  | 1 => some .one
  | 3 => some .three
  | _ => none

/-- The number of bytes that a match may take, and so the number of bytes to look ahead. -/
def Level.window : Level → Nat
  | .one => 3
  | .three => 4

/-- The ways in which level 3 packs a distance and a length. -/
inductive Form where
  /-- One byte: two bits of tag, then six of distance; the length is three. -/
  | tiny
  /-- Two bytes: two bits of tag, then fourteen of distance; the length is three. -/
  | distant
  /-- Two bytes: two bits of tag, four of length and ten of distance. -/
  | medium
  /-- Three bytes: two bits of tag, five of length and seventeen of distance. -/
  | wide
  /-- Four bytes: seven bits of tag, eight of length and seventeen of distance. -/
  | long
  deriving DecidableEq

namespace Form

/-- The form that the lowest bits of the bytes ahead announce. -/
def ofWord (word : Nat) : Form :=
  if word % 4 = 0 then .tiny
  else if word % 4 = 1 then .distant
  else if word % 4 = 2 then .medium
  else if word % 128 ≠ 3 then .wide
  else .long

/-- The number of bytes that the form takes. -/
def size : Form → Nat
  | tiny => 1
  | distant => 2
  | medium => 2
  | wide => 3
  | long => 4

/-- The distance back that is packed in the bytes ahead. -/
def offset (word : Nat) : Form → Nat
  | tiny => word % 256 / 4
  | distant => word % 65536 / 4
  | medium => word % 65536 / 64
  | wide => word / 128 % 131072
  | long => word / 32768

/-- The length that is packed in the bytes ahead. -/
def length (word : Nat) : Form → Nat
  | tiny => 3
  | distant => 3
  | medium => word / 4 % 16 + 3
  | wide => word / 4 % 32 + 2
  | long => word / 128 % 256 + 3

end Form

/-- The number of buckets of the hash table at level 1. -/
def bucketCount : Nat := 4096

/-- The bucket of three bytes, given as the number they write: its upper twelve bits folded onto its
lower twelve. -/
def bucketOf (value : Nat) : Nat := (value / 4096 ^^^ value) % bucketCount

end ResolverRecovery.Codec.QuickLz
