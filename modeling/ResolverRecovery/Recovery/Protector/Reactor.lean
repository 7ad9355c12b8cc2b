import ResolverRecovery.Recovery.Config
import ResolverRecovery.Recovery.Detector
import ResolverRecovery.Detection.FieldShape
import ResolverRecovery.Recovery.Initializer

/-!
# Resolvers that decrypt a resource

The protector compresses and encrypts the resources of a module and installs a handler that decrypts
them on first use.  The type of the handler derives from the root of all classes, has three fields
of known types, and has an initializer.

## Main definitions

* `Reactor`: the settings of the detector.
* `Reactor.classify`: recognition of the type and its handler.
* `Reactor.prepare`: normalizes the handler and reads name, key and vector from it.
* `Reactor.locateInitializer`, `Reactor.recover` and `Reactor.detector`.

## Design notes

Only a candidate whose handler has not been read is prepared, and only one that has been read is
recovered.  What was recovered once is kept with the candidate and given again.
-/

namespace ResolverRecovery

/-- The settings of the detector. -/
structure Reactor where
  /-- Makes bodies readable. -/
  normalizer : Normalizer
  /-- Tells decryption routines. -/
  oracle : Oracle
  /-- Finds initializers. -/
  locator : InitializerLocator
  /-- A handler has to name an embedded resource. -/
  strict : Bool
  /-- How hidden resources are compressed. -/
  codec : Codec

namespace Reactor

/-- The settings that follow from a configuration and collaborators. -/
def ofConfig (config : Config) (collaborators : Collaborators) : Reactor where
  normalizer := collaborators.normalizer
  oracle := collaborators.oracle
  locator := ⟨collaborators.normalizer, config.maxLocals⟩
  strict := config.strict
  codec := config.codec

/-- The types that a handler uses besides those of every decryption routine. -/
def extraTypes : List String := [WellKnown.string]

/-- The two signatures that a handler may have. -/
def handlerSignatures : List Signature :=
  [⟨WellKnown.assembly, [WellKnown.object, WellKnown.resolveEventArgs]⟩,
    ⟨WellKnown.assembly, [WellKnown.object, WellKnown.object]⟩]

/-- The method is static, has a body and the signature of a handler, and is accepted by the
oracle. -/
def isHandler (r : Reactor) (m : Module) (d : MethodDecl) : Bool :=
  d.isStaticWithBody && handlerSignatures.contains d.signature && r.oracle m d extraTypes r.strict

/-- The candidate that a type is: it derives from the root of all classes, its fields have one of
the shapes, and its first handler is the candidate's. -/
def classify (r : Reactor) (m : Module) (t : TypeDecl) : Option Candidate :=
  if t.derivesFromObject && (FieldShape.ofFields? t.fields).isSome then
    ((m.methodsOf t).find? (r.isHandler m)).map fun d =>
      .ofType .reactor t d.token (.sealed (.ofHandler d.token))
  else
    none

/-- Stores what is known of the encrypted resource with the candidate. -/
def keep (q : Inquiry) (resource : SealedResource) : Inquiry :=
  { q with candidate := { q.candidate with payload := .sealed resource } }

/-- Records whether the handler names an embedded resource. -/
def reportName (q : Inquiry) (resource : SealedResource) : Inquiry :=
  match resource.resourceName with
  | some name => q.record (.plain .info
      ("handler " ++ resource.method.text ++ " reads resource '" ++ name ++ "'"))
  | none => q.record (.plain .warning
      ("handler " ++ resource.method.text ++ " names no embedded resource"))

/-- Normalizes the handler and decrypts its literals.  Each of the two leaves an event if it changes
the body, and the body is stored if the two together have changed it. -/
def cleanHandler (r : Reactor) (t : Token) (body : Body) : Work Unit := fun w =>
  match r.normalizer.normalize body with
  | .error e => .error e w
  | .ok normalized =>
    let w :=
      if normalized = body then w
      else w.record (.onMethod .methodNormalized t ("normalized resolver handler " ++ t.text))
    match r.normalizer.decryptStrings normalized with
    | .error e => .error e w
    | .ok decrypted =>
      let w :=
        if decrypted = normalized then w
        else w.record (.onMethod .stringsDecrypted t EventKind.stringsDecrypted.description)
      .ok () (if decrypted = body then w else { w with module := w.module.setBody t decrypted })

/-- Makes the handler readable and reads the resource's name, the key and the vector from it. -/
def prepare (r : Reactor) (resource : SealedResource) : Inquire Unit := fun q =>
  match (q.module.method? resource.method).bind MethodDecl.body with
  | none => .error (.malformed (.handlerWithoutBody resource.method)) q
  | some body =>
    match Inquiry.onWorkbench (r.cleanHandler resource.method body) q with
    | .error e q => .error e q
    | .ok _ q =>
      match SealedResource.load q.module resource with
      | .error e resource => .error e (keep q resource)
      | .ok _ resource => .ok () (reportName (keep q resource) resource)

/-- The error that a companion of the candidate is missing. -/
def missing (q : Inquiry) (companion : Companion) : Error :=
  .companionMissing q.module.name q.candidate.typeName companion

/-- Finds the initializer, which this family must have, and prepares a handler that has not been
read yet. -/
def locateInitializer (r : Reactor) : Inquire Unit := fun q =>
  let type := q.candidate.type
  match InitializerLocator.constructor? q.module type with
  | none => .error (missing q .instanceConstructor) q
  | some constructor =>
    match Inquiry.onWorkbench (r.locator.locate type constructor) q with
    | .error e q => .error e q
    | .ok none q => .error (missing q .initializerMethod) q
    | .ok (some t) q =>
      let q := q.noteInitializer t
      match q.candidate.sealed? with
      | none => .ok () q
      | some resource => if resource.isInitialized then .ok () q else r.prepare resource q

/-- Decrypts and decodes the resource of this name, and keeps what comes out. -/
def decode (r : Reactor) (name : String) (resource : SealedResource) :
    Inquire (Option NamedResource) := fun q =>
  match resource.decrypt q.module with
  | .error fault => .error (.decryption fault) q
  | .ok payload =>
    let q := q.record (.onMethod .resourceDecrypted resource.method
      ("decrypted '" ++ name ++ "' (" ++ toString payload.length ++ " bytes)"))
    match r.codec.decompress payload with
    | .error cause => .error (.decompression cause) q
    | .ok data =>
      let q := q.record (.plain .resourceRecovered
        ("recovered '" ++ name ++ "' (" ++ toString data.length ++ " bytes)"))
      .ok (some ⟨name, data⟩) (keep q { resource with recovered := some ⟨name, data⟩ })

/-- Recovers the resource.  There is none as long as the handler has not been read, or if it names
no embedded resource. -/
def recover (r : Reactor) : Inquire (Option NamedResource) := fun q =>
  match q.candidate.sealed? with
  | none => .ok none q
  | some resource =>
    match resource.recovered with
    | some done => .ok (some done) q
    | none =>
      if !resource.isInitialized then .ok none q
      else
        match resource.resourceName with
        | none => .ok none q
        | some name => r.decode name resource q

/-- The detector of this family. -/
def detector (r : Reactor) : Detector where
  variant := .reactor
  classify := r.classify
  locateInitializer := r.locateInitializer
  recover := r.recover

end Reactor

end ResolverRecovery
