import ResolverRecovery.Metadata.EmbeddedAssembly
import ResolverRecovery.Detection.SealedResource

/-!
# Candidates

A candidate is a type that was taken for a resolver, together with its handler and with what the
handler leads to.

## Main definitions

* `Variant`: the families of resolvers.
* `Payload`: what a handler leads to.
* `Candidate`, and `Candidate.ofType`.
-/

namespace ResolverRecovery

/-- The families of resolvers. -/
inductive Variant where
  /-- The handler decrypts an embedded resource. -/
  | reactor
  /-- The handler loads an embedded assembly. -/
  | smartAssembly
  deriving DecidableEq

namespace Variant

/-- All families, in the order in which they are tried by default. -/
def all : List Variant := [reactor, smartAssembly]

/-- The short name, which configurations show. -/
def label : Variant → String
  | reactor => "Reactor"
  | smartAssembly => "SmartAssembly"

/-- The name of the protector. -/
def name : Variant → String
  | reactor => ".NET Reactor"
  | smartAssembly => "SmartAssembly"

/-- The family with this short name. -/
def ofLabel? (label : String) : Option Variant := all.find? fun v => v.label == label

end Variant

/-- What the handler of a resolver leads to. -/
inductive Payload where
  | assembly (info : EmbeddedAssembly)
  | sealed (resource : SealedResource)
  deriving DecidableEq

/-- A type that was taken for a resolver. -/
structure Candidate where
  variant : Variant
  type : Token
  typeName : String
  /-- The handler. -/
  handler : Token
  /-- The initializer, once it has been found. -/
  initializer : Option Token
  /-- What the handler leads to. -/
  payload : Payload
  deriving DecidableEq

namespace Candidate

/-- A candidate of which the initializer has not been looked for. -/
def ofType (variant : Variant) (t : TypeDecl) (handler : Token) (payload : Payload) : Candidate :=
  ⟨variant, t.token, t.fullName, handler, none, payload⟩

/-- The candidate has a handler. -/
def isDetected (c : Candidate) : Bool := !c.handler.isNull

/-- The assembly that the handler loads. -/
def assembly? (c : Candidate) : Option EmbeddedAssembly :=
  match c.payload with
  | .assembly info => some info
  | .sealed _ => none

/-- The resource that the handler decrypts. -/
def sealed? (c : Candidate) : Option SealedResource :=
  match c.payload with
  | .sealed resource => some resource
  | .assembly _ => none

/-- The resource that the handler decrypts is known by name. -/
def isResourceLocated (c : Candidate) : Bool := c.sealed?.any SealedResource.isLocated

/-- The written form: the protector, the type and the handler. -/
def text (c : Candidate) : String :=
  c.variant.name ++ " resolver " ++ c.typeName ++ " (handler " ++ c.handler.text ++ ")"

end Candidate

end ResolverRecovery
