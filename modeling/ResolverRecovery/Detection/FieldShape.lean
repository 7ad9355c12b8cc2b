import ResolverRecovery.Metadata.Declaration

/-!
# Shapes of resolver types

The fields of a generated type change their names and their order from build to build, but not their
types.  A type is recognised by how often each type occurs among its fields.

## Main definitions

* `FieldCensus`: how often each type is declared among some fields.
* `FieldShape` and `FieldShape.ofFields?`: the shapes of resolver types that decrypt a resource.
-/

namespace ResolverRecovery

/-- How often each type is declared among some fields.  Only the numbers are kept, so that fields in
another order have the same census. -/
@[ext]
structure FieldCensus where
  /-- The number of fields of a type. -/
  count : String → Nat
  /-- The number of fields. -/
  total : Nat

namespace FieldCensus

/-- The census of all the given fields. -/
def ofFields (fields : List FieldDecl) : FieldCensus where
  count fieldType := (fields.map FieldDecl.fieldType).count fieldType
  total := fields.length

/-- The census of the given fields, if there are as many as required. -/
def ofExactly? (fields : List FieldDecl) (required : Nat) : Option FieldCensus :=
  if fields.length = required then some (ofFields fields) else none

end FieldCensus

/-- The shapes of resolver types that decrypt a resource. -/
inductive FieldShape where
  /-- A truth value and two objects. -/
  | objectPair
  /-- A truth value, an assembly and an array of names. -/
  | assemblyAndNames
  deriving DecidableEq

namespace FieldShape

/-- The number of fields that every shape has. -/
def fieldCount : Nat := 3

/-- The name of the shape. -/
def label : FieldShape → String
  | objectPair => "ObjectPair"
  | assemblyAndNames => "AssemblyAndNames"

/-- The shape of a type with these fields. -/
def ofFields? (fields : List FieldDecl) : Option FieldShape :=
  match FieldCensus.ofExactly? fields fieldCount with
  | none => none
  | some c =>
    if c.count WellKnown.boolean ≠ 1 then none
    else if c.count WellKnown.object = 2 then some objectPair
    else if c.count WellKnown.assembly = 1 ∧ c.count WellKnown.stringArray = 1 then
      some assemblyAndNames
    else none

end FieldShape

end ResolverRecovery
