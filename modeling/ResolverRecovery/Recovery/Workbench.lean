import ResolverRecovery.Detection.Candidate
import ResolverRecovery.Recovery.Event

/-!
# Work on a module

While a module is worked on, its method bodies are replaced and events are recorded.  Both are kept
when the work ends with an error.

## Main definitions

* `Workbench`: a module and the log of the work on it.
* `Inquiry`: the same with a candidate whose resource is being recovered.
* `Workbench.record`, `Workbench.storeNormalized`: the two things that happen to a workbench.
-/

namespace ResolverRecovery

/-- A module and the log of the work on it. -/
structure Workbench where
  module : Module
  log : EventLog
  deriving DecidableEq

/-- A workbench together with the candidate that is looked into. -/
structure Inquiry extends Workbench where
  candidate : Candidate
  deriving DecidableEq

/-- Work that needs a module and a log. -/
abbrev Work := EStateM Error Workbench

/-- Work that looks into a candidate. -/
abbrev Inquire := EStateM Error Inquiry

namespace Workbench

/-- Records an event. -/
def record (w : Workbench) (e : Event) : Workbench := { w with log := w.log.push e }

/-- Stores the normalized body of a method and records that.  A body that normalization has not
changed is left alone. -/
def storeNormalized (w : Workbench) (t : Token) (body normalized : Body) (message : String) :
    Workbench :=
  if normalized = body then
    w
  else
    { w with module := w.module.setBody t normalized }.record
      (.onMethod .methodNormalized t message)

end Workbench

namespace Inquiry

/-- Records an event. -/
def record (q : Inquiry) (e : Event) : Inquiry := { q with log := q.log.push e }

/-- Does the work on the workbench of an inquiry. -/
def onWorkbench {α : Type} (work : Work α) : Inquire α := fun q =>
  match work q.toWorkbench with
  | .ok a w => .ok a { q with toWorkbench := w }
  | .error e w => .error e { q with toWorkbench := w }

/-- Notes the initializer of the candidate and records that it was found. -/
def noteInitializer (q : Inquiry) (t : Token) : Inquiry :=
  { q with candidate := { q.candidate with initializer := some t } }.record
    (.onMethod .initializerLocated t ("initializer of " ++ q.candidate.typeName))

end Inquiry

end ResolverRecovery
