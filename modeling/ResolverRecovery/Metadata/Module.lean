import ResolverRecovery.Error
import ResolverRecovery.Metadata.Declaration

/-!
# Modules

A module is built declaration by declaration and searched by token or by reference.  Tokens are
issued in order of declaration and stay valid: nothing is ever removed.

## Main definitions

* `Module`, and `Module.named`: a module without declarations.
* `Module.type?`, `Module.method?`, `Module.resource?`: look-up by token and by name.
* `Module.resolveField?`, `Module.reference?`: from a reference to a declaration, and back.
* `Module.addType`, `Module.addField`, `Module.addMethod`, `Module.addResource`: declarations.
* `Module.replaceBody`, `Module.upsertResource`: changes to what is there.

## Design notes

Operations that may be refused run in `Module.Edit`, which hands back the module also after a
refusal.  Resources form a list in which a name may occur twice; both the look-up and the
replacement take the first of that name.
-/

namespace ResolverRecovery

/-- A module: its types, its methods and the resources embedded in it. -/
structure Module where
  /-- The name, which is the scope of every type declared here. -/
  name : String
  /-- The types in order of declaration. -/
  types : List TypeDecl
  /-- The methods of all types in order of declaration. -/
  methods : List MethodDecl
  /-- The embedded resources in order. -/
  resources : List Resource
  /-- The number of fields declared so far, over all types. -/
  fieldCount : Nat
  deriving DecidableEq

namespace Module

/-- An edit that may be refused, and that hands back the module in either case. -/
abbrev Edit := EStateM Error Module

/-- A module without declarations. -/
def named (name : String) : Module := ⟨name, [], [], [], 0⟩

/-! ### Look-up -/

/-- The position of a type of this module. -/
def typeIndex? (m : Module) (t : Token) : Option Nat :=
  (t.indexIn Token.typeDefTable).filter fun i => i < m.types.length

/-- The position of a method of this module. -/
def methodIndex? (m : Module) (t : Token) : Option Nat :=
  (t.indexIn Token.methodDefTable).filter fun i => i < m.methods.length

/-- The type behind a token. -/
def type? (m : Module) (t : Token) : Option TypeDecl :=
  (m.typeIndex? t).bind fun i => m.types[i]?

/-- The method behind a token. -/
def method? (m : Module) (t : Token) : Option MethodDecl :=
  (m.methodIndex? t).bind fun i => m.methods[i]?

/-- The methods of a type in order of declaration. -/
def methodsOf (m : Module) (t : TypeDecl) : List MethodDecl :=
  t.methods.filterMap m.method?

/-- The first method of a type that has the given name. -/
def methodOf? (m : Module) (t : TypeDecl) (name : String) : Option MethodDecl :=
  (m.methodsOf t).find? fun d => d.name == name

/-- The reference to the method behind a token, on the type that declares it. -/
def reference? (m : Module) (t : Token) : Option MethodRef := do
  let d ← m.method? t
  let owner ← m.type? d.owner
  return d.reference owner.reference

/-- The field that a reference denotes.  The first type that the reference's owner denotes is the
only one searched. -/
def resolveField? (m : Module) (r : FieldRef) : Option FieldDecl :=
  (m.types.find? fun t => t.isDenotedBy r.owner).bind fun t => t.field? r.name

/-- The first resource of the given name. -/
def resource? (m : Module) (name : String) : Option Resource :=
  m.resources.find? fun r => r.name == name

/-! ### Declarations -/

/-- Declares a type and returns its token. -/
def addType (m : Module) (namespaceName name : String) (base : Option TypeRef) : Token × Module :=
  let token := Token.typeDef (m.types.length + 1)
  let declared : TypeDecl := ⟨token, namespaceName, name, m.name, base, [], []⟩
  (token, { m with types := m.types ++ [declared] })

/-- Declares a field on a type and returns its token. -/
def addField (owner : Token) (name fieldType : String) (isStatic : Bool)
    (initialData : Option (List UInt8)) : Edit Token := fun m =>
  match m.typeIndex? owner with
  | none => .error (.malformed (.unknownOwner owner)) m
  | some i =>
    let token := Token.field (m.fieldCount + 1)
    let declared : FieldDecl := ⟨token, name, fieldType, owner, isStatic, initialData⟩
    .ok token { m with
      fieldCount := m.fieldCount + 1
      types := m.types.modify i fun t => { t with fields := t.fields ++ [declared] } }

/-- Declares a method on a type and returns its token. -/
def addMethod (owner : Token) (name : String) (flags : UInt32) (signature : Signature)
    (body : Option Body) : Edit Token := fun m =>
  match m.typeIndex? owner with
  | none => .error (.malformed (.unknownOwner owner)) m
  | some i =>
    let token := Token.methodDef (m.methods.length + 1)
    let declared : MethodDecl := ⟨token, name, owner, flags, signature, body⟩
    .ok token { m with
      methods := m.methods ++ [declared]
      types := m.types.modify i fun t => { t with methods := t.methods ++ [token] } }

/-- Embeds a resource after the ones that are there. -/
def addResource (m : Module) (r : Resource) : Module :=
  { m with resources := m.resources ++ [r] }

/-! ### Changes -/

/-- Applies `f` to the type behind a token, if there is one. -/
def modifyType? (m : Module) (t : Token) (f : TypeDecl → TypeDecl) : Option Module :=
  (m.typeIndex? t).map fun i => { m with types := m.types.modify i f }

/-- The module with a body for the method behind a token.  Without such a method nothing changes. -/
def setBody (m : Module) (t : Token) (body : Body) : Module :=
  match m.methodIndex? t with
  | none => m
  | some i => { m with methods := m.methods.modify i fun d => { d with body := some body } }

/-- Stores a body for the method behind a token. -/
def replaceBody (t : Token) (body : Body) : Edit Unit := fun m =>
  if (m.method? t).isSome then
    .ok () (m.setBody t body)
  else
    .error (.malformed (.unknownMethod t)) m

/-- Gives the first resource of a name new data, or puts an internal resource at the end.  Tells
whether the name was there. -/
def storeData (name : String) (data : List UInt8) : List Resource → Bool × List Resource
  | [] => (false, [Resource.internal name data])
  | r :: rest =>
    if r.name = name then
      (true, { r with data := data } :: rest)
    else
      let (found, stored) := storeData name data rest
      (found, r :: stored)

/-- Stores data under a name, keeping the attributes of a resource that has the name already.
Tells whether there was one. -/
def upsertResource (m : Module) (name : String) (data : List UInt8) : Bool × Module :=
  let (found, stored) := storeData name data m.resources
  (found, { m with resources := stored })

end Module

end ResolverRecovery
