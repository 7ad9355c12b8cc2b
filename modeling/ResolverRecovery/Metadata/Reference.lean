/-!
# References to types, fields and methods

Instruction operands point at declarations by name.  The same declaration can be written down
several times, so references are compared by structure: names exactly, and the scope, which is the
name of a module or assembly, without regard to the case of ASCII letters.

## Main definitions

* `TypeRef`, `FieldRef`, `Signature`, `MethodRef`.
* `TypeRef.denotes` and `MethodRef.denotes`: structural identity of types and of methods.
* `WellKnown`: the full names of the framework types that resolvers are recognised by.
-/

namespace ResolverRecovery

/-! ### Well-known names -/

namespace WellKnown

/-- The root of all classes. -/
def object : String := "System.Object"

/-- The truth values. -/
def boolean : String := "System.Boolean"

/-- The type of methods that return nothing. -/
def void : String := "System.Void"

/-- Text. -/
def string : String := "System.String"

/-- Arrays of text. -/
def stringArray : String := "System.String[]"

/-- Arrays of bytes. -/
def byteArray : String := "System.Byte[]"

/-- The handle of a loaded assembly. -/
def assembly : String := "System.Reflection.Assembly"

/-- The second parameter of a resolve handler. -/
def resolveEventArgs : String := "System.ResolveEventArgs"

/-- The name of every instance constructor. -/
def constructor : String := ".ctor"

/-- All of them, in the order above. -/
def all : List String :=
  [object, boolean, void, string, stringArray, byteArray, assembly, resolveEventArgs, constructor]

end WellKnown

/-- The scope of a reference with its ASCII letters in lower case; two scopes are the same if these
agree. -/
def foldScope (scope : String) : String := scope.map Char.toLower

/-- The full name of a type: the namespace and the name joined by a dot, or the name alone in the
global namespace. -/
def qualifiedName (namespaceName name : String) : String :=
  if namespaceName.isEmpty then name else namespaceName ++ "." ++ name

/-- A reference to a type. -/
structure TypeRef where
  /-- The namespace, empty for the global one. -/
  namespaceName : String
  /-- The name within the namespace. -/
  name : String
  /-- The module or assembly that defines the type. -/
  scope : String
  deriving DecidableEq

namespace TypeRef

/-- The namespace and the name in one. -/
def fullName (r : TypeRef) : String := qualifiedName r.namespaceName r.name

/-- Two references denote one type if their names and namespaces are equal and their scopes agree
up to the case of ASCII letters. -/
def denotes (r s : TypeRef) : Bool :=
  r.name == s.name && r.namespaceName == s.namespaceName && foldScope r.scope == foldScope s.scope

/-- The written form: the scope in brackets, then the full name. -/
def text (r : TypeRef) : String := "[" ++ r.scope ++ "]" ++ r.fullName

end TypeRef

/-- A reference to a field. -/
structure FieldRef where
  owner : TypeRef
  name : String
  /-- The full name of the declared type. -/
  fieldType : String
  deriving DecidableEq

/-- The types that a method takes and returns, by full name. -/
structure Signature where
  result : String
  /-- The types of the parameters, in order. -/
  params : List String
  deriving DecidableEq

namespace Signature

/-- No parameters and no result. -/
def void : Signature := ⟨WellKnown.void, []⟩

/-- The parameters in parentheses, joined by commas. -/
def paramText (s : Signature) : String := "(" ++ String.intercalate "," s.params ++ ")"

/-- The written form: the result, then the parameters. -/
def text (s : Signature) : String := s.result ++ s.paramText

end Signature

/-- A reference to a method. -/
structure MethodRef where
  owner : TypeRef
  name : String
  /-- What it takes and returns. -/
  signature : Signature
  deriving DecidableEq

namespace MethodRef

/-- Two references denote one method if name and signature are equal and their owners denote one
type. -/
def denotes (r s : MethodRef) : Bool :=
  r.name == s.name && r.signature == s.signature && r.owner.denotes s.owner

/-- The written form: the result, the owner's full name, the method's name and the parameters. -/
def text (r : MethodRef) : String :=
  r.signature.result ++ " " ++ r.owner.fullName ++ "::" ++ r.name ++ r.signature.paramText

end MethodRef

end ResolverRecovery
