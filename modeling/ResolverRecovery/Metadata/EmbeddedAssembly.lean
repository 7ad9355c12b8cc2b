import ResolverRecovery.Metadata.AssemblyName

/-!
# Embedded assemblies

Some resolvers load their resources from an assembly that is itself embedded in the module.  Which
assemblies are embedded is found out elsewhere and registered under their simple names.

## Main definitions

* `EmbeddedAssembly`, and `EmbeddedAssembly.ofDisplayName`.
* `AssemblyRegistry`, with `AssemblyRegistry.register` and `AssemblyRegistry.find?`.
-/

namespace ResolverRecovery

/-- An assembly that is embedded as a resource. -/
structure EmbeddedAssembly where
  displayName : String
  /-- The simple name, under which the assembly is looked up. -/
  simpleName : String
  /-- The extension of the file that the assembly would be saved to. -/
  extension : String
  /-- The resource that holds the assembly. -/
  resourceName : String
  /-- The bytes of the resource are compressed. -/
  isCompressed : Bool
  deriving DecidableEq

/-- An uncompressed library of the given display name. -/
def EmbeddedAssembly.ofDisplayName (displayName resourceName : String) : EmbeddedAssembly where
  displayName := displayName
  simpleName := AssemblyName.simple displayName
  extension := ".dll"
  resourceName := resourceName
  isCompressed := false

/-- How an embedded assembly is found by its simple name. -/
abbrev AssemblyLookup := String → Option EmbeddedAssembly

/-- The embedded assemblies that are known, at most one under each simple name. -/
structure AssemblyRegistry where
  /-- The assemblies in the order in which they were last registered. -/
  entries : List EmbeddedAssembly

namespace AssemblyRegistry

/-- Nothing is known. -/
def empty : AssemblyRegistry := ⟨[]⟩

/-- Registers an assembly under its simple name, in place of the one that was there. -/
def register (r : AssemblyRegistry) (a : EmbeddedAssembly) : AssemblyRegistry :=
  ⟨r.entries.filter (fun b => b.simpleName != a.simpleName) ++ [a]⟩

/-- The number of assemblies. -/
def size (r : AssemblyRegistry) : Nat := r.entries.length

/-- The assembly of a simple name. -/
def find? (r : AssemblyRegistry) : AssemblyLookup := fun simpleName =>
  r.entries.find? fun a => a.simpleName == simpleName

end AssemblyRegistry

end ResolverRecovery
