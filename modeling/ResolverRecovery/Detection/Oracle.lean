import ResolverRecovery.Metadata.Module

/-!
# Oracles that tell decryption routines

An oracle judges whether a method has the looks of a routine that decrypts an embedded resource.

## Main definitions

* `Oracle`.
* `Oracle.localTypes`: judges by the types of the local variables.
-/

namespace ResolverRecovery

/-- Judges whether a method looks like a decryption routine.  It is told which types such a routine
uses besides the usual ones, and whether the body must name an embedded resource. -/
abbrev Oracle := Module → MethodDecl → List String → Bool → Bool

/-- Some string that the body loads is the name of an embedded resource. -/
def Module.isNamedIn (m : Module) (b : Body) : Bool :=
  b.code.any fun i => i.loadedString?.any fun name => (m.resource? name).isSome

namespace Oracle

/-- The types that every decryption routine uses: it reads bytes through a stream and sends them
through a stream that decrypts. -/
def requiredTypes : List String :=
  ["System.Byte[]", "System.IO.BinaryReader", "System.IO.MemoryStream",
    "System.Security.Cryptography.CryptoStream", "System.Security.Cryptography.ICryptoTransform"]

/-- The types of ciphers, of which a decryption routine uses one at least. -/
def cipherTypes : List String :=
  ["System.Security.Cryptography.RijndaelManaged", "System.Security.Cryptography.AesManaged",
    "System.Security.Cryptography.SymmetricAlgorithm"]

/-- The local variables are those of a decryption routine. -/
def acceptsLocals (extra locals : List String) : Bool :=
  requiredTypes.all locals.contains && extra.all locals.contains && cipherTypes.any locals.contains

/-- Accepts static methods whose local variables are those of a decryption routine.  If it is
strict, the body has to load the name of an embedded resource as well. -/
def localTypes : Oracle := fun m d extra strict =>
  d.isStatic &&
    match d.body with
    | none => false
    | some b => acceptsLocals extra b.locals && (!strict || m.isNamedIn b)

/-- Accepts everything, or nothing. -/
def constant (answer : Bool) : Oracle := fun _ _ _ _ => answer

/-- Accepts the methods of a name. -/
def named (name : String) : Oracle := fun _ d _ _ => d.name == name

end Oracle

end ResolverRecovery
