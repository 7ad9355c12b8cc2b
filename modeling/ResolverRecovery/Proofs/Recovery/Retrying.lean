import ResolverRecovery.Proofs.Recovery.Preserving
import ResolverRecovery.Proofs.Recovery.Repeating

/-!
# Trying a recovery again

A recovery that fails, or that stores nothing, leaves the module with some bodies stripped.  Another
recovery of the module as it is then ends in the same way, and leaves it as it is.

## Main statements

* `Engine.followUp_repeats_of_find?`: a detected candidate is followed up in the same way again.
* `Engine.process_again`: a second recovery reproduces the result of the first.
-/

namespace ResolverRecovery.Engine

variable {config : Config} {collaborators : Collaborators} {m : Module}

/-- With filler stripped, a detected candidate is followed up in the same way again. -/
theorem followUp_repeats_of_find? (hwf : m.WellFormed) {filler : List Opcode}
    (hnormalizer : collaborators.normalizer = .stripping filler) {d : Detector} {c : Candidate}
    (hfind : (withCollaborators config collaborators).find? m = some (d, c)) (start : EventLog) :
    Repeats (followUp d) ⟨⟨m, start⟩, c⟩ := by
  obtain ⟨variant, rfl, t, ht, hclassify⟩ := find?_eq_some hfind
  cases variant with
  | reactor =>
      let r := Reactor.ofConfig config collaborators
      refine followUp_repeats (d := r.detector) ?_ Reactor.recover_eqUpToLog r.recover_module
      refine Reactor.locateInitializer_repeats hnormalizer hnormalizer fun resource hsealed => ?_
      obtain ⟨-, -, hfresh, -⟩ := Variant.classify_eq_some hclassify
      rw [hfresh resource hsealed]
      exact Reactor.not_visits_handler hwf ht hclassify _ _
  | smartAssembly =>
      let s := SmartAssembly.ofConfig config collaborators
      exact followUp_repeats (d := s.detector) (SmartAssembly.locateInitializer_repeats hnormalizer)
        SmartAssembly.recover_eqUpToLog SmartAssembly.recover_module

/-- The module that following a candidate up leaves has the same candidate, and following that up
ends in the same way. -/
theorem followUp_again (hwf : m.WellFormed)
    (hnormalizer : collaborators.normalizer = .stripping config.filler)
    (horacle : collaborators.oracle = .localTypes) (hldstr : .ldstr ∉ config.filler)
    (hcall : .call ∉ config.filler) {d : Detector} {c : Candidate} {start : EventLog}
    {result : EStateM.Result Error Inquiry (Option NamedResource)}
    (hfind : (withCollaborators config collaborators).find? m = some (d, c))
    (hfollow : followUp d ⟨⟨m, start⟩, c⟩ = result) :
    (withCollaborators config collaborators).find? (finalState result).module = some (d, c) ∧
      ∀ start', EqUpToLog result (followUp d ⟨⟨(finalState result).module, start'⟩, c⟩) := by
  have hrepadded := (followUp_reworked hnormalizer hfind hfollow).repadded
  refine ⟨(find?_repadded horacle hldstr hcall hrepadded).trans hfind, ?_⟩
  rw [← hfollow]
  exact followUp_repeats_of_find? hwf hnormalizer hfind start

/-- A recovery that stores nothing has the outcome that following the candidate up has again. -/
theorem exists_process_eq_ok {e : Engine} (hrecover : e.config.recover = true) {d : Detector}
    {c : Candidate} {q : Inquiry} {found : Option NamedResource}
    (hfind : e.find? q.module = some (d, c))
    (hagain : ∀ start, EqUpToLog (.ok found q) (followUp d ⟨⟨q.module, start⟩, c⟩))
    (hunmerged : (found.isSome && e.config.merge) = false) :
    ∃ events, e.process q.module = .ok ⟨some q.candidate, found, false, events⟩ q.module := by
  obtain ⟨start, hprocess⟩ := exists_process_eq hrecover hfind
  obtain ⟨q', hfollow, hmodule, hcandidate⟩ := (hagain start).exists_ok
  simp only [hfollow] at hprocess
  obtain ⟨events, m', hprocess, hkept⟩ := hprocess
  rw [hkept hunmerged, hmodule, hcandidate, hunmerged] at hprocess
  exact ⟨events, hprocess⟩

/-- A recovery that fails, or that stores nothing, leaves a module of which another recovery fails
with the same error or has the same outcome, and which it leaves alone. -/
theorem process_again (hbuilt : m.Built) (hrange : m.InRange) (hldstr : .ldstr ∉ config.filler)
    (hcall : .call ∉ config.filler) {assemblies : AssemblyLookup} {e : Engine}
    (he : e = withCollaborators config ⟨.stripping config.filler, .localTypes, assemblies⟩) :
    match e.process m with
    | .error error m' => e.process m' = .error error m'
    | .ok o m' =>
      o.merged = false → ∃ events, e.process m' = .ok { o with events := events } m' := by
  subst he
  have hwf := hbuilt.wellFormed hrange
  have hending := process_ending (withCollaborators config
    ⟨.stripping config.filler, .localTypes, assemblies⟩) m
  generalize hprocess : (withCollaborators config
    ⟨.stripping config.filler, .localTypes, assemblies⟩).process m = result at hending ⊢
  cases hending with
  | undetected hfind => exact fun _ => ⟨_, hprocess⟩
  | detected hfind hrecover => exact fun _ => ⟨_, hprocess⟩
  | failed hfind hrecover hfollow =>
      obtain ⟨hfind', hagain⟩ := followUp_again hwf rfl rfl hldstr hcall hfind hfollow
      obtain ⟨start', hprocess'⟩ := exists_process_eq hrecover hfind'
      obtain ⟨q', hfollow', hmodule, -⟩ := (hagain start').exists_error
      simp only [hfollow', hmodule] at hprocess'
      exact hprocess'
  | unhidden hfind hrecover hfollow =>
      obtain ⟨hfind', hagain⟩ := followUp_again hwf rfl rfl hldstr hcall hfind hfollow
      exact fun _ => exists_process_eq_ok hrecover hfind' hagain rfl
  | recovered hfind hrecover hmerge hfollow =>
      obtain ⟨hfind', hagain⟩ := followUp_again hwf rfl rfl hldstr hcall hfind hfollow
      exact fun _ => exists_process_eq_ok hrecover hfind' hagain hmerge
  | merged hfind hrecover hmerge hfollow => exact fun hunmerged => nomatch hunmerged

/-- The sample, of which the resource is recovered twice if it is not stored. -/
theorem process_again_sample :
    ∃ o m' events, (ofConfig { Config.standard with merge := false }).process Sample.module =
        .ok o m' ∧ o.resource = some ⟨"hidden", [104, 105]⟩ ∧
      (ofConfig { Config.standard with merge := false }).process m' =
        .ok { o with events := events } m' := by
  obtain ⟨o, m', hprocess, hresource, hmerged⟩ := Sample.exists_process_module false
  have hagain := process_again (e := ofConfig { Config.standard with merge := false })
    Sample.module_built ⟨by decide +kernel, by decide +kernel⟩ (by decide) (by decide) rfl
  rw [hprocess] at hagain
  obtain ⟨events, hsecond⟩ := hagain hmerged
  exact ⟨o, m', events, hprocess, hresource, hsecond⟩

end ResolverRecovery.Engine
