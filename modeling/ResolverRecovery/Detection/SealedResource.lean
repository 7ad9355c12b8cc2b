import ResolverRecovery.Cipher.Chaining
import ResolverRecovery.Metadata.Module

/-!
# The encrypted resource behind a handler

The handler of a resolver loads the name of the resource that it decrypts as a string, and the key
and the initialization vector as arrays that are the initial data of fields.

## Main definitions

* `NamedResource`: a name and the bytes that belong to it.
* `SealedResource`: what is known of a handler's resource.
* `SealedResource.load`: reads name, key and vector from the handler.
* `SealedResource.decrypt`: the text of the resource under what was read.

## Design notes

Loading marks the resource as initialized and sets its name before the arrays are looked at, and it
sets key and vector only when both are fit for use.  What a failed attempt has set stays set.
-/

namespace ResolverRecovery

/-- A name and the bytes that belong to it. -/
structure NamedResource where
  name : String
  data : List UInt8
  deriving DecidableEq

/-- What is known of the resource that a handler decrypts. -/
structure SealedResource where
  /-- The handler. -/
  method : Token
  /-- The handler has been read. -/
  isInitialized : Bool
  resourceName : Option String
  /-- The key, empty as long as none was found fit for use. -/
  key : List UInt8
  /-- The initialization vector, empty as long as none was found fit for use. -/
  vector : List UInt8
  /-- What was recovered from the resource. -/
  recovered : Option NamedResource
  deriving DecidableEq

namespace SealedResource

/-- Nothing is known but the handler. -/
def ofHandler (method : Token) : SealedResource := ⟨method, false, none, [], [], none⟩

/-- The handler names an embedded resource. -/
def isLocated (r : SealedResource) : Bool := r.resourceName.isSome

/-- The first string that the code loads and that is the name of an embedded resource. -/
def nameIn? (m : Module) (code : List Instruction) : Option String :=
  code.findSome? fun i => i.loadedString?.filter fun name => (m.resource? name).isSome

/-- The initial data of the fields whose handles the code loads, in order. -/
def arraysIn (m : Module) (code : List Instruction) : List (List UInt8) :=
  code.filterMap fun i =>
    if i.opcode = .ldtoken then
      i.field?.bind fun r => (m.resolveField? r).bind FieldDecl.initialData
    else
      none

/-- The key and the vector for a resource: the first two arrays, which have to be of suitable
length. -/
def keyMaterial (resource : String) (arrays : List (List UInt8)) :
    Except DecryptionFault (List UInt8 × List UInt8) :=
  match arrays with
  | [] => .error (.noKey resource)
  | [_] => .error (.noVector resource)
  | key :: vector :: _ =>
    if !Cipher.KeySchedule.isKeyLength key.length then
      .error (.keyLength resource key.length)
    else if vector.length ≠ Cipher.Block.size then
      .error (.vectorLength resource vector.length)
    else
      .ok (key, vector)

/-- Reads the name of the resource, the key and the vector from the handler.  A handler that names
no embedded resource is no error. -/
def load (m : Module) : EStateM Error SealedResource Unit := fun r =>
  match m.method? r.method with
  | none => .error (.malformed (.unknownHandler r.method)) r
  | some handler =>
    let name := nameIn? m handler.code
    let r := { r with isInitialized := true, resourceName := name }
    match name with
    | none => .ok () r
    | some name =>
      match keyMaterial name (arraysIn m handler.code) with
      | .error fault => .error (.decryption fault) r
      | .ok (key, vector) => .ok () { r with key := key, vector := vector }

/-- Decrypts the embedded resource with the key and the vector that were read. -/
def decrypt (r : SealedResource) (m : Module) : Except DecryptionFault (List UInt8) :=
  match r.resourceName with
  | none => .error .nothingLocated
  | some name =>
    match m.resource? name with
    | none => .error (.resourceGone name)
    | some resource =>
      match Cipher.decrypt? r.key r.vector resource.data with
      | none => .error (.rejected name)
      | some text => .ok text

end SealedResource

end ResolverRecovery
