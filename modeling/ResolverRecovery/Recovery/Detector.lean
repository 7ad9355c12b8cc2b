import ResolverRecovery.Recovery.Workbench

/-!
# Detectors

A detector recognises the resolvers of one family and knows how their resources are recovered.

## Main definitions

* `Detector`: recognition, the search for the initializer, and recovery.
* `Detector.fixed`: a detector whose answers are given beforehand.
-/

namespace ResolverRecovery

/-- Recognises the resolvers of one family and recovers their resources. -/
structure Detector where
  variant : Variant
  /-- The candidate that a type of the module is, if it is one. -/
  classify : Module → TypeDecl → Option Candidate
  /-- Finds the initializer of the candidate and makes ready for recovery. -/
  locateInitializer : Inquire Unit
  /-- Recovers the resource that the candidate hides, if it hides one. -/
  recover : Inquire (Option NamedResource)

namespace Detector

/-- The answers of a detector that are given beforehand. -/
structure Answers where
  /-- The family that it says it recognises. -/
  variant : Variant
  /-- The handler of its candidates. -/
  handler : Token
  /-- The only type that it accepts, by full name; otherwise it accepts all. -/
  accepted : Option String
  /-- What it recovers. -/
  resource : Option NamedResource
  /-- The warning that the search for an initializer leaves in the log. -/
  remark : String
  /-- The words with which the search for an initializer fails, if it is to fail. -/
  locateFailure : Option String
  /-- The words with which recovery fails, if it is to fail. -/
  recoverFailure : Option String

/-- Answers as it was told, whatever the module holds. -/
def fixed (a : Answers) : Detector where
  variant := a.variant
  classify _ t :=
    if a.accepted.all fun name => t.fullName == name then
      some (.ofType a.variant t a.handler (.sealed (.ofHandler a.handler)))
    else
      none
  locateInitializer q :=
    let q := q.record (.plain .warning a.remark)
    match a.locateFailure with
    | some message => .error (.collaborator message) q
    | none => .ok () q
  recover q :=
    match a.recoverFailure with
    | some message => .error (.collaborator message) q
    | none => .ok a.resource q

end Detector

end ResolverRecovery
