import ResolverRecovery.Proofs.Recovery.Protector.Reactor
import ResolverRecovery.Proofs.Recovery.Protector.SmartAssembly
import ResolverRecovery.Recovery.Engine

/-!
# Detecting resolvers

A candidate tells which family it belongs to, which type it is and which method of that type is its
handler.

## Main statements

* `Reactor.classify_eq_some`, `SmartAssembly.classify_eq_some`: what the candidates of a family are.
* `Variant.classify_eq_some`: what the candidates of both families have in common.
* `Engine.classify_of_find?`: a candidate was found by one of the detectors.
* `Engine.find?_eq_some`: a candidate was found by the detector of some family.
* `Engine.find?_eq_some_of_reactor`: a candidate and its detector are of one family.
-/

namespace ResolverRecovery

namespace Reactor

variable {r : Reactor}

/-- A candidate of this family is a type of which some method is the handler. -/
theorem classify_eq_some {m : Module} {t : TypeDecl} {c : Candidate}
    (h : r.classify m t = some c) :
    ∃ d ∈ m.methodsOf t, r.isHandler m d = true ∧
      c = .ofType .reactor t d.token (.sealed (.ofHandler d.token)) := by
  rw [classify_of_fits (fits_of_classify h)] at h
  obtain ⟨d, hd, rfl⟩ := Option.map_eq_some_iff.mp h
  exact ⟨d, List.mem_of_find?_eq_some hd, List.find?_some hd, rfl⟩

/-- A handler has a body and returns something. -/
theorem isHandler_spec {m : Module} {d : MethodDecl} (h : r.isHandler m d = true) :
    d.body.isSome = true ∧ d.signature ≠ Signature.void := by
  simp only [isHandler, MethodDecl.isStaticWithBody, Bool.and_eq_true] at h
  obtain ⟨⟨⟨-, hbody⟩, hsignature⟩, -⟩ := h
  refine ⟨hbody, fun hvoid => ?_⟩
  rw [hvoid] at hsignature
  revert hsignature
  decide

end Reactor

namespace SmartAssembly

/-- A candidate of this family is a type of which some method names an embedded assembly. -/
theorem classify_eq_some {s : SmartAssembly} {m : Module} {t : TypeDecl} {c : Candidate}
    (h : s.classify m t = some c) :
    ∃ d ∈ m.methodsOf t, ∃ info, d.isStaticWithBody = true ∧
      s.loadedAssembly? d.code = some info ∧
      c = .ofType .smartAssembly t d.token (.assembly info) := by
  rw [classify_of_keepsAssembly (keepsAssembly_of_classify h)] at h
  obtain ⟨d, hd, hcandidate⟩ := List.exists_of_findSome?_eq_some h
  obtain ⟨info, hstatic, hinfo, rfl⟩ := candidateOf?_eq_some_iff.mp hcandidate
  exact ⟨d, hd, info, hstatic, hinfo, rfl⟩

end SmartAssembly

/-- A candidate of either family is a type of which some method is the handler.  Of the resource
behind the handler nothing else is known. -/
theorem Variant.classify_eq_some {config : Config} {collaborators : Collaborators}
    {variant : Variant} {m : Module} {t : TypeDecl} {c : Candidate}
    (h : (Variant.detector config collaborators variant).classify m t = some c) :
    c.variant = variant ∧ c.type = t.token ∧
      (∀ resource, c.sealed? = some resource → resource = .ofHandler c.handler) ∧
      ∃ d ∈ m.methodsOf t, d.isStaticWithBody = true ∧ c.handler = d.token := by
  cases variant with
  | reactor =>
      obtain ⟨d, hd, hhandler, rfl⟩ := Reactor.classify_eq_some h
      refine ⟨rfl, rfl, fun resource hresource => (Option.some.inj hresource).symm, d, hd, ?_, rfl⟩
      simp only [Reactor.isHandler, Bool.and_eq_true] at hhandler
      exact hhandler.1.1
  | smartAssembly =>
      obtain ⟨d, hd, info, hstatic, -, rfl⟩ := SmartAssembly.classify_eq_some h
      refine ⟨rfl, rfl, fun resource hresource => ?_, d, hd, hstatic, rfl⟩
      cases hresource

namespace Engine

variable {config : Config} {collaborators : Collaborators} {m : Module} {d : Detector}
  {c : Candidate}

/-- A candidate was found by one of the detectors, in some type. -/
theorem classify_of_find? {e : Engine} (h : e.find? m = some (d, c)) :
    d ∈ e.detectors ∧ ∃ t ∈ m.types, d.classify m t = some c := by
  obtain ⟨t, ht, hclassify⟩ := List.exists_of_findSome?_eq_some h
  obtain ⟨d', hd', hfound⟩ := List.exists_of_findSome?_eq_some hclassify
  obtain ⟨c', hc', heq⟩ := Option.map_eq_some_iff.mp hfound
  cases heq
  exact ⟨hd', t, ht, hc'⟩

/-- A candidate was found by the detector of some family, in some type. -/
theorem find?_eq_some (h : (withCollaborators config collaborators).find? m = some (d, c)) :
    ∃ variant, d = Variant.detector config collaborators variant ∧
      ∃ t ∈ m.types, d.classify m t = some c := by
  obtain ⟨hd, hfound⟩ := classify_of_find? h
  obtain ⟨variant, -, rfl⟩ := List.mem_map.mp hd
  exact ⟨variant, rfl, hfound⟩

/-- A candidate that decrypts a resource was found by the detector of its family, in some type. -/
theorem find?_eq_some_of_reactor
    (h : (withCollaborators config collaborators).find? m = some (d, c))
    (hvariant : c.variant = .reactor) :
    d = (Reactor.ofConfig config collaborators).detector ∧
      ∃ t ∈ m.types, (Reactor.ofConfig config collaborators).classify m t = some c := by
  obtain ⟨variant, rfl, t, ht, hc'⟩ := find?_eq_some h
  cases variant with
  | reactor => exact ⟨rfl, t, ht, hc'⟩
  | smartAssembly =>
      obtain ⟨handler, -, info, -, -, rfl⟩ := SmartAssembly.classify_eq_some hc'
      exact Variant.noConfusion hvariant

end Engine

end ResolverRecovery
