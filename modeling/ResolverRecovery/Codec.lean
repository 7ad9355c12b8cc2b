import ResolverRecovery.Codec.Deflate
import ResolverRecovery.Codec.QuickLz

/-!
# Codecs of hidden resources

A hidden resource is compressed before it is encrypted, with one of two codecs.

## Main definitions

* `Codec` and `Codec.decompress`.
-/

namespace ResolverRecovery

/-- How a payload is compressed. -/
inductive Codec where
  | quickLz
  | deflate
  deriving DecidableEq

namespace Codec

/-- The codec's name, as configurations show it. -/
def label : Codec → String
  | quickLz => "QuickLz"
  | deflate => "Deflate"

/-- The codec that a configuration has if none is chosen. -/
def standard : Codec := quickLz

/-- The data in a stream of this codec. -/
def decompress : Codec → List UInt8 → Except Error (List UInt8)
  | quickLz => QuickLz.decompress
  | deflate => Deflate.decompress

end Codec

end ResolverRecovery
