/-!
# Padding to whole blocks

Before it is encrypted, a text is filled up to whole blocks by 1 to 16 bytes, each of which tells
how many there are.  A text of whole blocks gets a block of padding, so that the end can always be
told.

## Main definitions

* `pad` and `unpad?`.
-/

namespace ResolverRecovery.Cipher

/-- Appends the padding. -/
def pad (text : List UInt8) : List UInt8 :=
  let n := 16 - text.length % 16
  text ++ List.replicate n (UInt8.ofNat n)

/-- Removes the padding.  The last byte tells how many bytes there are, at least one and at most a
block, and all of them have to be equal to it. -/
def unpad? (padded : List UInt8) : Option (List UInt8) :=
  match padded.getLast? with
  | none => none
  | some last =>
    let n := last.toNat
    let kept := padded.length - n
    if 1 ≤ n ∧ n ≤ 16 ∧ n ≤ padded.length ∧ padded.drop kept = List.replicate n last then
      some (padded.take kept)
    else
      none

end ResolverRecovery.Cipher
