import ResolverRecovery.Cil.Scanner
import ResolverRecovery.Recovery.Config
import ResolverRecovery.Recovery.Detector
import ResolverRecovery.Recovery.Initializer

/-!
# Resolvers that load an embedded assembly

The protector moves the resources of a module into an assembly of their own and embeds that.  The
resolver type keeps the assembly in a static field once it is loaded, and its handler hands the
display name of the assembly, as a string, straight to a call.

## Main definitions

* `SmartAssembly`: the settings of the detector.
* `SmartAssembly.loadedAssembly?`: the embedded assembly that a piece of code names.
* `SmartAssembly.classify`: recognition of the type and its handler.
* `SmartAssembly.locateInitializer`, `SmartAssembly.recover` and `SmartAssembly.detector`.
-/

namespace ResolverRecovery

/-- The settings of the detector. -/
structure SmartAssembly where
  /-- Knows the embedded assemblies. -/
  assemblies : AssemblyLookup
  /-- Finds the load of a name that is followed by a call. -/
  scanner : Scanner
  /-- Finds initializers. -/
  locator : InitializerLocator

namespace SmartAssembly

/-- The settings that follow from a configuration and collaborators. -/
def ofConfig (config : Config) (collaborators : Collaborators) : SmartAssembly where
  assemblies := collaborators.assemblies
  scanner := ⟨config.filler⟩
  locator := ⟨collaborators.normalizer, config.maxLocals⟩

/-- A string is loaded and handed to a call. -/
def loadPattern : List Opcode := [.ldstr, .call]

/-- The embedded assembly that a load and a call name between them. -/
def namedAssembly? (s : SmartAssembly) (m : Scanner.Match) : Option EmbeddedAssembly :=
  match m.placed.map Placed.instruction with
  | [load, call] =>
    match load.literal?, call.method? with
    | some displayName, some _ => s.assemblies (AssemblyName.simple displayName)
    | _, _ => none
  | _ => none

/-- The first embedded assembly whose name the code loads and hands to a call. -/
def loadedAssembly? (s : SmartAssembly) (code : List Instruction) : Option EmbeddedAssembly :=
  (s.scanner.findAll code loadPattern).findSome? s.namedAssembly?

/-- The candidate that a type has in one of its methods. -/
def candidateOf? (s : SmartAssembly) (t : TypeDecl) (d : MethodDecl) : Option Candidate :=
  if d.isStaticWithBody then
    (s.loadedAssembly? d.code).map fun info => .ofType .smartAssembly t d.token (.assembly info)
  else
    none

/-- The candidate that a type is: it has a static field for an assembly, and the first of its
methods that names an embedded assembly is the handler. -/
def classify (s : SmartAssembly) (m : Module) (t : TypeDecl) : Option Candidate :=
  if (t.staticFieldOfType? WellKnown.assembly).isSome then
    (m.methodsOf t).findSome? (s.candidateOf? t)
  else
    none

/-- Finds the initializer if there is one, which this family does not need. -/
def locateInitializer (s : SmartAssembly) : Inquire Unit := fun q =>
  let type := q.candidate.type
  match InitializerLocator.constructor? q.module type with
  | none => .ok () q
  | some constructor =>
    match Inquiry.onWorkbench (s.locator.locate type constructor) q with
    | .error e q => .error e q
    | .ok none q => .ok () q
    | .ok (some t) q => .ok () (q.noteInitializer t)

/-- Records where the resources are.  There is nothing to decrypt. -/
def recover : Inquire (Option NamedResource) := fun q =>
  match q.candidate.assembly? with
  | none => .ok none q
  | some info =>
    .ok none (q.record (.plain .info
      ("resources of " ++ q.candidate.typeName ++ " are in embedded assembly '" ++
        info.simpleName ++ "' (resource '" ++ info.resourceName ++ "')")))

/-- The detector of this family. -/
def detector (s : SmartAssembly) : Detector where
  variant := .smartAssembly
  classify := s.classify
  locateInitializer := s.locateInitializer
  recover := recover

end SmartAssembly

end ResolverRecovery
