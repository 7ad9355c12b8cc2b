/-!
# Hexadecimal numbers of fixed width

Tokens, opcodes and instruction offsets are written with lower-case hexadecimal digits and filled
with zeros on the left up to a fixed width.

## Main definitions

* `Text.hex width n`: the digits of `n`, at least `width` of them.
-/

namespace ResolverRecovery.Text

/-- The lower-case hexadecimal digits of `n`, most significant first, with leading zeros up to
`width` digits.  A number that needs more digits than `width` is written in full. -/
def hex (width n : Nat) : String :=
  let digits := Nat.toDigits 16 n
  String.ofList (List.replicate (width - digits.length) '0' ++ digits)

end ResolverRecovery.Text
