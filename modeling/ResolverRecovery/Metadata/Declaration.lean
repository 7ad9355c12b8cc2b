import ResolverRecovery.Cil.Instruction
import ResolverRecovery.Metadata.Flags
import ResolverRecovery.Metadata.Token

/-!
# Declared types, fields, methods and resources

Declarations are the rows of a module.  They know their tokens, and a type holds its fields in line
and its methods by token.

## Main definitions

* `FieldDecl`, `MethodDecl`, `TypeDecl`, `Resource`.
* `MethodDecl.isStatic`, `MethodDecl.isConstructor`: the two kinds of methods that matter here.
* `TypeDecl.isDenotedBy`: the declaration is the one that a reference points at.
-/

namespace ResolverRecovery

/-- A field of a type. -/
structure FieldDecl where
  token : Token
  name : String
  /-- The full name of its type. -/
  fieldType : String
  /-- The token of the type that declares it. -/
  owner : Token
  /-- The field belongs to the type and not to an instance. -/
  isStatic : Bool
  /-- The bytes that the field starts out with, if the module holds any. -/
  initialData : Option (List UInt8)
  deriving DecidableEq

/-- A method of a type. -/
structure MethodDecl where
  token : Token
  name : String
  /-- The token of the type that declares it. -/
  owner : Token
  /-- The attribute bits. -/
  flags : UInt32
  /-- What the method takes and returns. -/
  signature : Signature
  /-- The body, which abstract and foreign methods lack. -/
  body : Option Body
  deriving DecidableEq

namespace MethodDecl

/-- The method belongs to its type. -/
def isStatic (m : MethodDecl) : Bool := staticFlag.isSet m.flags

/-- The method is an instance constructor. -/
def isConstructor (m : MethodDecl) : Bool :=
  !m.isStatic && m.name == WellKnown.constructor

/-- The method is static and has a body. -/
def isStaticWithBody (m : MethodDecl) : Bool := m.isStatic && m.body.isSome

/-- The instructions of the body; a method without one has none. -/
def code (m : MethodDecl) : List Instruction := (m.body.map Body.code).getD []

/-- The types of the local variables; a method without a body has none. -/
def locals (m : MethodDecl) : List String := (m.body.map Body.locals).getD []

/-- The reference to this method on a type. -/
def reference (m : MethodDecl) (owner : TypeRef) : MethodRef := ⟨owner, m.name, m.signature⟩

end MethodDecl

/-- A type of a module. -/
structure TypeDecl where
  token : Token
  /-- The namespace, empty for the global one. -/
  namespaceName : String
  /-- The name within the namespace. -/
  name : String
  /-- The name of the module that defines the type. -/
  scope : String
  /-- The type it derives from; interfaces have none. -/
  base : Option TypeRef
  fields : List FieldDecl
  /-- The tokens of the methods in order of declaration. -/
  methods : List Token
  deriving DecidableEq

namespace TypeDecl

/-- The namespace and the name in one. -/
def fullName (t : TypeDecl) : String := qualifiedName t.namespaceName t.name

/-- The reference to this type. -/
def reference (t : TypeDecl) : TypeRef := ⟨t.namespaceName, t.name, t.scope⟩

/-- The reference `r` denotes this type: names and namespaces are equal, and the scopes agree up to
the case of ASCII letters. -/
def isDenotedBy (t : TypeDecl) (r : TypeRef) : Bool :=
  t.name == r.name && t.namespaceName == r.namespaceName && foldScope t.scope == foldScope r.scope

/-- The type derives from the root of all classes and from nothing else. -/
def derivesFromObject (t : TypeDecl) : Bool :=
  t.base.any fun b => b.fullName == WellKnown.object

/-- The first field of the given type. -/
def fieldOfType? (t : TypeDecl) (fieldType : String) : Option FieldDecl :=
  t.fields.find? fun f => f.fieldType == fieldType

/-- The first static field of the given type. -/
def staticFieldOfType? (t : TypeDecl) (fieldType : String) : Option FieldDecl :=
  t.fields.find? fun f => f.isStatic && f.fieldType == fieldType

/-- The first field of the given name. -/
def field? (t : TypeDecl) (name : String) : Option FieldDecl :=
  t.fields.find? fun f => f.name == name

end TypeDecl

/-- A resource embedded in a module. -/
structure Resource where
  name : String
  /-- The attribute bits. -/
  flags : UInt32
  data : List UInt8
  deriving DecidableEq

/-- A resource that only its module sees. -/
def Resource.internal (name : String) (data : List UInt8) : Resource :=
  ⟨name, privateFlag.bit, data⟩

end ResolverRecovery
