import ResolverRecovery.Codec.Error
import ResolverRecovery.Metadata.Token

/-!
# Why a recovery stops

Finding no resolver is not an error.  What stops a recovery, or an edit of a module, falls into five
groups: a dangling token, a resolver that lacks a part it needs, key material or a ciphertext that
cannot be used, a payload that cannot be decoded, and a failing collaborator.

## Main definitions

* `Malformation`, `Companion`, `DecryptionFault`: the causes within a group.
* `Error` with `Error.message`: every cause and its wording, without the place in a program at which
  a malformation was noticed.
-/

namespace ResolverRecovery

/-- A token that does not lead anywhere. -/
inductive Malformation where
  /-- A declaration is to be added to a type that the module does not have. -/
  | unknownOwner (token : Token)
  /-- A body is to be stored for a method that the module does not have. -/
  | unknownMethod (token : Token)
  /-- A type that the module does not have is to be searched. -/
  | unknownType (token : Token)
  /-- The handler of a resolver is not a method of the module. -/
  | unknownHandler (token : Token)
  /-- The handler of a resolver is missing, or has no body. -/
  | handlerWithoutBody (token : Token)
  deriving DecidableEq

/-- The wording of a malformation. -/
def Malformation.message : Malformation → String
  | .unknownOwner t => "type token " ++ t.text ++ " is not part of this module"
  | .unknownMethod t => "method token " ++ t.text ++ " is not part of this module"
  | .unknownType t => "type " ++ t.text ++ " is not part of this module"
  | .unknownHandler t => "handler " ++ t.text ++ " is not part of this module"
  | .handlerWithoutBody t => "handler " ++ t.text ++ " has no body"

/-- A part that a resolver type needs next to its handler. -/
inductive Companion where
  | instanceConstructor
  | initializerMethod
  deriving DecidableEq

/-- What the part is called. -/
def Companion.name : Companion → String
  | .instanceConstructor => "instance constructor"
  | .initializerMethod => "initializer method"

/-- Why the resource of a handler cannot be decrypted. -/
inductive DecryptionFault where
  /-- The handler loads no array that could be the key. -/
  | noKey (resource : String)
  /-- The handler loads a key, but no array that could be the initialization vector. -/
  | noVector (resource : String)
  /-- No cipher takes a key of this length. -/
  | keyLength (resource : String) (length : Nat)
  /-- The initialization vector is not one block long. -/
  | vectorLength (resource : String) (length : Nat)
  /-- The handler names no embedded resource. -/
  | nothingLocated
  /-- The named resource is no longer part of the module. -/
  | resourceGone (resource : String)
  /-- The cipher does not accept the bytes of the resource. -/
  | rejected (resource : String)
  deriving DecidableEq

/-- The wording of a decryption fault. -/
def DecryptionFault.message : DecryptionFault → String
  | .noKey r => "no key array found for resource '" ++ r ++ "'"
  | .noVector r => "no IV array found for resource '" ++ r ++ "'"
  | .keyLength r n => "key for resource '" ++ r ++ "' has invalid length " ++ toString n
  | .vectorLength r n => "IV for resource '" ++ r ++ "' has invalid length " ++ toString n
  | .nothingLocated => "no encrypted resource located"
  | .resourceGone r => "resource '" ++ r ++ "' is not embedded in the module"
  | .rejected r => "ciphertext of resource '" ++ r ++ "' was rejected"

/-- Why a recovery, or an edit of a module, stops. -/
inductive Error where
  /-- The module is inconsistent. -/
  | malformed (cause : Malformation)
  /-- A resolver was detected on a type that lacks a part every such resolver has. -/
  | companionMissing (module typeName : String) (companion : Companion)
  /-- The resource cannot be decrypted. -/
  | decryption (fault : DecryptionFault)
  /-- The decrypted payload cannot be decoded. -/
  | decompression (cause : Codec.Error)
  /-- A collaborator failed and gives its own wording. -/
  | collaborator (message : String)
  deriving DecidableEq

/-- The wording of an error.  What a program prints for a malformation goes on before it: the word
`Malformed` and the line of the program's text at which the malformation was noticed.  Neither is
part of the wording here, so that the event that records such an error lacks them too. -/
def Error.message : Error → String
  | .malformed cause => cause.message
  | .companionMissing module typeName companion =>
    "Could not find resource resolver " ++ companion.name ++ " on type '" ++ typeName ++
      "' in module '" ++ module ++ "'"
  | .decryption fault => "Resource decryption failed - " ++ fault.message
  | .decompression cause => cause.message
  | .collaborator message => message

end ResolverRecovery
