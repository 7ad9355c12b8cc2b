import ResolverRecovery.Recovery.Protector.Reactor
import ResolverRecovery.Recovery.Protector.SmartAssembly

/-!
# The recovery of hidden resources

An engine offers every type of a module to its detectors and follows up the first candidate: the
initializer is located, the hidden resource is recovered, and what comes out is stored in the
module.

## Main definitions

* `Engine`, with `Engine.ofConfig`, `Engine.withCollaborators` and `Engine.register`.
* `Engine.detect?`: the first candidate, types before detectors.
* `Engine.run`: the whole recovery on a workbench.
* `Engine.process`, `Engine.processAll`: modules with a log of their own.
* `Outcome`: what a recovery hands back.
-/

namespace ResolverRecovery

/-- The detector of a family. -/
def Variant.detector (config : Config) (collaborators : Collaborators) : Variant → Detector
  | .reactor => (Reactor.ofConfig config collaborators).detector
  | .smartAssembly => (SmartAssembly.ofConfig config collaborators).detector

/-- What a recovery hands back. -/
structure Outcome where
  /-- The candidate, if a resolver was detected. -/
  candidate : Option Candidate
  /-- The resource, if one was recovered. -/
  resource : Option NamedResource
  /-- The resource was stored in the module. -/
  merged : Bool
  /-- The events in the log after the recovery. -/
  events : EventLog
  deriving DecidableEq

/-- A resolver with a handler was detected. -/
def Outcome.isDetected (o : Outcome) : Bool := o.candidate.any Candidate.isDetected

/-- Detects resolvers and recovers what they hide. -/
structure Engine where
  /-- What is looked for, and how far a recovery goes. -/
  config : Config
  /-- The detectors in the order in which they are tried. -/
  detectors : List Detector

namespace Engine

/-- An engine with a detector for each family of the configuration. -/
def withCollaborators (config : Config) (collaborators : Collaborators) : Engine :=
  ⟨config, config.variants.map (Variant.detector config collaborators)⟩

/-- An engine with the collaborators that come with the library. -/
def ofConfig (config : Config) : Engine := withCollaborators config (.ofConfig config)

/-- The engine with one more detector, which is tried last. -/
def register (e : Engine) (d : Detector) : Engine := { e with detectors := e.detectors ++ [d] }

/-- The written form, which shows the configuration and the families of the detectors. -/
def describe (e : Engine) : String :=
  "ResolverEngine \x7b config: " ++ e.config.describe ++ ", detectors: " ++
    Config.listText (e.detectors.map fun d => d.variant.label) ++ ", .. \x7d"

/-- The first detector that takes a type for a resolver, and the candidate. -/
def classify? (e : Engine) (m : Module) (t : TypeDecl) : Option (Detector × Candidate) :=
  e.detectors.findSome? fun d => (d.classify m t).map fun c => (d, c)

/-- The first candidate of the module with its detector: the types are tried in order, and each type
by all detectors before the next. -/
def find? (e : Engine) (m : Module) : Option (Detector × Candidate) :=
  m.types.findSome? (e.classify? m)

/-- The first candidate of the module. -/
def detect? (e : Engine) (m : Module) : Option Candidate := (e.find? m).map Prod.snd

/-- The event with which every recovery begins. -/
def scanning (e : Engine) (m : Module) : Event :=
  .plain .info ("scanning " ++ toString m.types.length ++ " types of " ++ m.name ++ " with " ++
    toString e.detectors.length ++ " detectors")

/-- Records a detected candidate. -/
def reportCandidate (w : Workbench) (c : Candidate) : Workbench :=
  (w.record (.onMethod .resolverDetected c.handler c.text)).record
    (.plain .detectionComplete (w.module.name ++ " uses a " ++ c.variant.name ++ " resolver"))

/-- Stores a recovered resource in the module and records that. -/
def mergeResource (w : Workbench) (resource : NamedResource) : Workbench :=
  let (replaced, module) := w.module.upsertResource resource.name resource.data
  { w with module := module }.record (.plain .resourceMerged
    ((if replaced then "replaced" else "added") ++ " resource '" ++ resource.name ++ "' (" ++
      toString resource.data.length ++ " bytes)"))

/-- Finds the initializer of the candidate and then recovers its resource. -/
def followUp (d : Detector) : Inquire (Option NamedResource) := fun q =>
  match d.locateInitializer q with
  | .error e q => .error e q
  | .ok _ q => d.recover q

/-- The recovery: candidate, resource, and whether the resource was stored.  An error is recorded
before it is handed back. -/
def run (e : Engine) : Work (Option Candidate × Option NamedResource × Bool) := fun w =>
  let found := e.find? w.module
  let w := w.record (e.scanning w.module)
  match found with
  | none =>
    .ok (none, none, false)
      (w.record (.plain .detectionComplete ("no resource resolver in " ++ w.module.name)))
  | some (d, c) =>
    let w := reportCandidate w c
    if !e.config.recover then
      .ok (some c, none, false) w
    else
      match followUp d ⟨w, c⟩ with
      | .error error q => .error error (q.toWorkbench.record (.plain .error error.message))
      | .ok none q => .ok (some q.candidate, none, false) q.toWorkbench
      | .ok (some resource) q =>
        if e.config.merge then
          .ok (some q.candidate, some resource, true) (mergeResource q.toWorkbench resource)
        else
          .ok (some q.candidate, some resource, false) q.toWorkbench

/-- Recovers with the log of the workbench, which keeps the events also of a recovery that fails. -/
def processWithLog (e : Engine) : Work Outcome := fun w =>
  match e.run w with
  | .error error w => .error error w
  | .ok (candidate, resource, merged) w => .ok ⟨candidate, resource, merged, w.log⟩ w

/-- Recovers with a log of its own. -/
def process (e : Engine) : Module.Edit Outcome := fun m =>
  match e.processWithLog ⟨m, EventLog.empty⟩ with
  | .error error w => .error error w.module
  | .ok outcome w => .ok outcome w.module

/-- Recovers the resources of many modules, each on its own and in order. -/
def processAll (e : Engine) (modules : List Module) : List (EStateM.Result Error Module Outcome) :=
  modules.map e.process

end Engine

end ResolverRecovery
