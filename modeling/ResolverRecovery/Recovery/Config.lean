import ResolverRecovery.Codec
import ResolverRecovery.Detection.Candidate
import ResolverRecovery.Cil.Normalizer
import ResolverRecovery.Detection.Oracle

/-!
# Configuration and collaborators

A configuration says what is looked for and how far a recovery goes.  Collaborators are the parts of
the work that a host may replace.

## Main definitions

* `Config`, with `Config.standard` and `Config.detectionOnly`.
* `Collaborators`, with `Collaborators.ofConfig`.
-/

namespace ResolverRecovery

/-- What is looked for, and how far a recovery goes. -/
structure Config where
  /-- The families of resolvers that are tried, in this order. -/
  variants : List Variant
  /-- The operations that do nothing. -/
  filler : List Opcode
  /-- A handler has to name an embedded resource. -/
  strict : Bool
  /-- How hidden resources are compressed. -/
  codec : Codec
  /-- The hidden resource is recovered after detection. -/
  recover : Bool
  /-- A recovered resource is stored in the module. -/
  merge : Bool
  /-- The greatest number of local variables that an initializer may have. -/
  maxLocals : Nat

namespace Config

/-- Everything is tried and nothing left out. -/
def standard : Config where
  variants := Variant.all
  filler := [.nop]
  strict := false
  codec := Codec.standard
  recover := true
  merge := true
  maxLocals := 1

/-- Resolvers are detected, and the module is left as it is. -/
def detectionOnly : Config := { standard with recover := false, merge := false }

/-- A list in brackets. -/
def listText (items : List String) : String := "[" ++ String.intercalate ", " items ++ "]"

/-- The written form, which names every setting. -/
def describe (c : Config) : String :=
  "ResolverConfig \x7b variants: " ++ listText (c.variants.map Variant.label) ++
    ", filler: " ++ listText (c.filler.map Opcode.label) ++
    ", strict_decrypter_check: " ++ toString c.strict ++
    ", decompression: " ++ c.codec.label ++
    ", recover: " ++ toString c.recover ++
    ", merge_resources: " ++ toString c.merge ++
    ", max_initializer_locals: " ++ toString c.maxLocals ++ " \x7d"

end Config

/-- The parts of the work that a host may replace. -/
structure Collaborators where
  /-- Makes bodies readable. -/
  normalizer : Normalizer
  /-- Tells decryption routines. -/
  oracle : Oracle
  /-- Knows the embedded assemblies. -/
  assemblies : AssemblyLookup

namespace Collaborators

/-- What comes with the library: filler is stripped, local variables are judged, and no embedded
assembly is known. -/
def ofConfig (c : Config) : Collaborators where
  normalizer := Normalizer.stripping c.filler
  oracle := Oracle.localTypes
  assemblies := AssemblyRegistry.empty.find?

/-- The written form, which shows nothing of what a host may put in. -/
def describe (_ : Collaborators) : String := "Collaborators \x7b .. \x7d"

end Collaborators

end ResolverRecovery
