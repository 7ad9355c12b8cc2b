import ResolverRecovery.Cipher.Block
import ResolverRecovery.Cipher.Padding

/-!
# AES in chained blocks

Every block of a text is added to the encryption of the block before it, the first one to the
initialization vector, and then encrypted.  Texts are padded to whole blocks.

## Main definitions

* `encryptBlocks`, `decryptBlocks`: chaining over a list of blocks.
* `encrypt?`, `decrypt?`: texts of any length under a key and an initialization vector.
-/

namespace ResolverRecovery.Cipher

/-- Encrypts blocks in a chain that starts at `previous`. -/
def encryptBlocks (k : KeySchedule) : Block → List Block → List Block
  | _, [] => []
  | previous, plain :: rest =>
    let cipher := k.encrypt (plain.add previous)
    cipher :: encryptBlocks k cipher rest

/-- Decrypts blocks in a chain that starts at `previous`. -/
def decryptBlocks (k : KeySchedule) : Block → List Block → List Block
  | _, [] => []
  | previous, cipher :: rest =>
    (k.decrypt cipher).add previous :: decryptBlocks k cipher rest

/-- The block that a chain starts at: the first sixteen bytes of the initialization vector. -/
def chainStart? (vector : List UInt8) : Option Block :=
  if Block.size ≤ vector.length then
    (blocksOfBytes? (vector.take Block.size)).bind List.head?
  else
    none

/-- The bytes of blocks, one after the other. -/
def bytesOfBlocks (blocks : List Block) : List UInt8 := blocks.flatMap Block.bytes

/-- Encrypts a text.  There is no ciphertext if no cipher takes a key of this length or the vector
is shorter than a block. -/
def encrypt? (key vector text : List UInt8) : Option (List UInt8) := do
  let k ← KeySchedule.ofKey? key
  let start ← chainStart? vector
  let blocks ← blocksOfBytes? (pad text)
  return bytesOfBlocks (encryptBlocks k start blocks)

/-- Decrypts a ciphertext.  There is no text if no cipher takes a key of this length, the vector is
shorter than a block, the ciphertext is not made of whole blocks, or the padding is not as it should
be; an empty ciphertext has no padding. -/
def decrypt? (key vector cipher : List UInt8) : Option (List UInt8) := do
  let k ← KeySchedule.ofKey? key
  let start ← chainStart? vector
  let blocks ← blocksOfBytes? cipher
  unpad? (bytesOfBlocks (decryptBlocks k start blocks))

end ResolverRecovery.Cipher
