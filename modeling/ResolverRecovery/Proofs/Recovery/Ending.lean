import ResolverRecovery.Recovery.Engine

/-!
# How a recovery ends

A recovery ends in one of six ways.  What holds of every recovery is shown by going through them, so
that no other proof has to follow the branches of the run.

## Main definitions

* `Engine.Ending`: the results that the recovery of a module may have.

## Main statements

* `Engine.process_ending`: every recovery ends in one of these ways.
* `Engine.exists_process_eq`: if recovery is asked for, the candidate decides how it ends.
-/

namespace ResolverRecovery.Engine

/-- The results that the recovery of a module may have.  What the log holds is left open. -/
inductive Ending (e : Engine) (m : Module) : EStateM.Result Error Module Outcome → Prop
  /-- No type is a resolver. -/
  | undetected {log : EventLog} (hfind : e.find? m = none) :
      Ending e m (.ok ⟨none, none, false, log⟩ m)
  /-- A resolver was detected, and recovery not asked for. -/
  | detected {d : Detector} {c : Candidate} {log : EventLog} (hfind : e.find? m = some (d, c))
      (hrecover : e.config.recover = false) : Ending e m (.ok ⟨some c, none, false, log⟩ m)
  /-- The candidate could not be followed up. -/
  | failed {d : Detector} {c : Candidate} {start : EventLog} {error : Error} {q : Inquiry}
      (hfind : e.find? m = some (d, c)) (hrecover : e.config.recover = true)
      (hfollow : followUp d ⟨⟨m, start⟩, c⟩ = .error error q) : Ending e m (.error error q.module)
  /-- The candidate hides no resource. -/
  | unhidden {d : Detector} {c : Candidate} {start log : EventLog} {q : Inquiry}
      (hfind : e.find? m = some (d, c)) (hrecover : e.config.recover = true)
      (hfollow : followUp d ⟨⟨m, start⟩, c⟩ = .ok none q) :
      Ending e m (.ok ⟨some q.candidate, none, false, log⟩ q.module)
  /-- A resource was recovered and is handed back alone. -/
  | recovered {d : Detector} {c : Candidate} {start log : EventLog} {resource : NamedResource}
      {q : Inquiry} (hfind : e.find? m = some (d, c)) (hrecover : e.config.recover = true)
      (hmerge : e.config.merge = false)
      (hfollow : followUp d ⟨⟨m, start⟩, c⟩ = .ok (some resource) q) :
      Ending e m (.ok ⟨some q.candidate, some resource, false, log⟩ q.module)
  /-- A resource was recovered and stored in the module. -/
  | merged {d : Detector} {c : Candidate} {start log : EventLog} {resource : NamedResource}
      {q : Inquiry} (hfind : e.find? m = some (d, c)) (hrecover : e.config.recover = true)
      (hmerge : e.config.merge = true)
      (hfollow : followUp d ⟨⟨m, start⟩, c⟩ = .ok (some resource) q) :
      Ending e m (.ok ⟨some q.candidate, some resource, true, log⟩
        (q.module.upsertResource resource.name resource.data).2)

/-- Every recovery ends in one of these ways. -/
theorem process_ending (e : Engine) (m : Module) : e.Ending m (e.process m) := by
  simp only [process, processWithLog, run]
  cases hfind : e.find? m with
  | none => exact .undetected hfind
  | some found =>
      obtain ⟨d, c⟩ := found
      simp only
      cases hrecover : e.config.recover with
      | false => exact .detected hfind hrecover
      | true =>
          simp only [Bool.not_true, Bool.false_eq_true, if_false]
          cases hfollow : followUp d
              ⟨reportCandidate ((Workbench.mk m .empty).record (e.scanning m)) c, c⟩ with
          | error error q => exact .failed hfind hrecover hfollow
          | ok recovered q =>
              cases recovered with
              | none => exact .unhidden hfind hrecover hfollow
              | some resource =>
                  simp only
                  cases hmerge : e.config.merge with
                  | false => exact .recovered hfind hrecover hmerge hfollow
                  | true => exact .merged hfind hrecover hmerge hfollow

/-- If recovery is asked for, the result is what comes of following the candidate up. -/
theorem exists_process_eq {e : Engine} {m : Module} (hrecover : e.config.recover = true)
    {d : Detector} {c : Candidate} (hfind : e.find? m = some (d, c)) :
    ∃ start, match followUp d ⟨⟨m, start⟩, c⟩ with
      | .error error q => e.process m = .error error q.module
      | .ok found q => ∃ events m', e.process m =
          .ok ⟨some q.candidate, found, found.isSome && e.config.merge, events⟩ m' ∧
            ((found.isSome && e.config.merge) = false → m' = q.module) := by
  have hending := e.process_ending m
  generalize e.process m = result at hending ⊢
  cases hending with
  | undetected hundetected => exact nomatch hfind.symm.trans hundetected
  | detected _ hoff => exact nomatch hrecover.symm.trans hoff
  | @failed _ _ start error q hfind' _ hfollow =>
      cases hfind.symm.trans hfind'
      exact ⟨start, by rw [hfollow]⟩
  | @unhidden _ _ start log q hfind' _ hfollow =>
      cases hfind.symm.trans hfind'
      refine ⟨start, ?_⟩
      rw [hfollow]
      exact ⟨log, q.module, rfl, fun _ => rfl⟩
  | @recovered _ _ start log resource q hfind' _ hmerge hfollow
  | @merged _ _ start log resource q hfind' _ hmerge hfollow =>
      cases hfind.symm.trans hfind'
      refine ⟨start, ?_⟩
      rw [hfollow]
      simp only [Option.isSome_some, Bool.true_and, hmerge]
      exact ⟨log, _, rfl, by simp⟩

end ResolverRecovery.Engine
