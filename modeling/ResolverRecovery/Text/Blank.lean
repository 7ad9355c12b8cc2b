/-!
# Blank characters

Names are trimmed of the characters that carry the Unicode property `White_Space`.

## Main definitions

* `Text.isBlank`: the characters of that property.
* `Text.trim`, `Text.trimEnd`: a character list without blanks at both ends, or at the end.
-/

namespace ResolverRecovery.Text

/-- The ranges of code points that carry the property `White_Space`, in ascending order and with
both bounds included. -/
def blankRanges : List (Nat × Nat) :=
  [(0x09, 0x0D), (0x20, 0x20), (0x85, 0x85), (0xA0, 0xA0), (0x1680, 0x1680), (0x2000, 0x200A),
    (0x2028, 0x2029), (0x202F, 0x202F), (0x205F, 0x205F), (0x3000, 0x3000)]

/-- A character is blank if one of the ranges holds its code point. -/
def isBlank (c : Char) : Bool :=
  blankRanges.any fun r => r.1 ≤ c.toNat && c.toNat ≤ r.2

/-- The text without the blanks at its end. -/
def trimEnd (s : List Char) : List Char :=
  (s.reverse.dropWhile isBlank).reverse

/-- The text without the blanks at either end. -/
def trim (s : List Char) : List Char :=
  trimEnd (s.dropWhile isBlank)

end ResolverRecovery.Text
