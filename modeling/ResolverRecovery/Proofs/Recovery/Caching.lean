import ResolverRecovery.Proofs.Recovery.Reloading

/-!
# A candidate remembers its resource

A candidate can be looked into again and again, each time with the module and the log of the moment.
What is known of its resource only ever moves forward: the handler is read, and then the resource is
recovered under the name that was read.  Whatever was recovered once is given again from then on,
and nobody looks at a module for it any more, so that it does not matter what has become of the
ciphertext in the meantime.

## Main definitions

* `Reactor.Call`, `Reactor.afterCalls`: calls of the detector, and the candidate after them.
* `SealedResource.Step`: what a call can make of a resource.
* `Reactor.Caches`: what is known of recovering from a candidate.

## Main statements

* `Reactor.step_afterCall`: every call is a step, whether it succeeds or fails.
* `Reactor.recover_cached`: what was recovered is given again after any calls, on any module.
-/

namespace ResolverRecovery

open Engine

/-! ### What is known of a resource -/

namespace SealedResource

/-- What a call can make of what is known of a resource. -/
inductive Step (s : SealedResource) : SealedResource → Prop
  | stay : Step s s
  /-- The handler is read, or an attempt is made. -/
  | read {s' : SealedResource} (hunread : s.isInitialized = false)
      (hkept : s'.recovered = s.recovered) : Step s s'
  /-- The resource is recovered under the name that the handler was read for. -/
  | recover {done : NamedResource} (hfresh : s.recovered = none) (hread : s.isInitialized = true)
      (hname : s.resourceName = some done.name) : Step s { s with recovered := some done }

/-- Nothing is recovered before the handler is read, nor under another name. -/
def Orderly (s : SealedResource) : Prop :=
  ∀ done, s.recovered = some done → s.isInitialized = true ∧ s.resourceName = some done.name

variable {s s' : SealedResource}

theorem orderly_ofHandler (t : Token) : (ofHandler t).Orderly := by
  intro done hdone
  cases hdone

theorem Step.orderly (h : s.Step s') (hs : s.Orderly) : s'.Orderly := by
  intro done hdone
  cases h with
  | stay => exact hs done hdone
  | read hunread hkept =>
      obtain ⟨hread, -⟩ := hs done (hkept.symm.trans hdone)
      exact absurd hread (by simp [hunread])
  | recover _ hread hname =>
      obtain rfl := Option.some.inj hdone
      exact ⟨hread, hname⟩

/-- What was recovered is not given up. -/
theorem Step.recovered_eq {done : NamedResource} (h : s.Step s') (hdone : s.recovered = some done) :
    s'.recovered = some done := by
  cases h with
  | stay => exact hdone
  | read _ hkept => exact hkept.trans hdone
  | recover hfresh => exact nomatch hfresh.symm.trans hdone

/-- Reading a handler has nothing to do with what was recovered. -/
theorem recovered_load (m : Module) (s : SealedResource) :
    (finalState (load m s)).recovered = s.recovered := by
  have hreading := load_reading m s
  generalize load m s = result at hreading ⊢
  cases hreading <;> rfl

end SealedResource

namespace Reactor

variable {r : Reactor} {q : Inquiry} {resource : SealedResource}

/-- What was recovered before is given again, and nothing else is done. -/
theorem recover_of_recovered {done : NamedResource}
    (hsealed : q.candidate.sealed? = some resource) (hdone : resource.recovered = some done) :
    r.recover q = .ok (some done) q := by
  simp only [recover, hsealed, hdone]

/-! ### What a call makes of a resource -/

theorem step_of_recover (hsealed : q.candidate.sealed? = some resource) :
    ∃ resource', (finalState (r.recover q)).candidate.sealed? = some resource' ∧
      resource.Step resource' := by
  have hrecovery := r.recovery hsealed
  generalize r.recover q = result at hrecovery ⊢
  cases hrecovery with
  | kept | unread | nameless | undecrypted | undecoded => exact ⟨resource, hsealed, .stay⟩
  | fresh hfresh hread hname => exact ⟨_, rfl, .recover hfresh hread hname⟩

/-- The resource is read or left alone when its handler is prepared. -/
theorem recovered_of_prepare (hsealed : q.candidate.sealed? = some resource) :
    ∃ resource', (finalState (r.prepare resource q)).candidate.sealed? = some resource' ∧
      resource'.recovered = resource.recovered := by
  rw [prepare]
  cases (q.module.method? resource.method).bind MethodDecl.body with
  | none => exact ⟨resource, hsealed, rfl⟩
  | some body =>
      simp only [Inquiry.onWorkbench]
      cases r.cleanHandler resource.method body q.toWorkbench with
      | error e w => exact ⟨resource, hsealed, rfl⟩
      | ok u w =>
          dsimp only
          have hkept := SealedResource.recovered_load w.module resource
          cases hload : SealedResource.load w.module resource with
          | error e loaded =>
              rw [hload] at hkept
              exact ⟨loaded, rfl, hkept⟩
          | ok u loaded =>
              rw [hload] at hkept
              refine ⟨loaded, ?_, hkept⟩
              rw [finalState_ok, (reportName_spec _ loaded).2]
              rfl

theorem step_of_locateInitializer (hsealed : q.candidate.sealed? = some resource) :
    ∃ resource', (finalState (r.locateInitializer q)).candidate.sealed? = some resource' ∧
      resource.Step resource' := by
  cases hconstructor : InitializerLocator.constructor? q.module q.candidate.type with
  | none =>
      simp only [locateInitializer, hconstructor]
      exact ⟨resource, hsealed, .stay⟩
  | some constructor =>
      cases hlocate : r.locator.locate q.candidate.type constructor q.toWorkbench with
      | error e w =>
          simp only [locateInitializer, hconstructor, Inquiry.onWorkbench, hlocate]
          exact ⟨resource, hsealed, .stay⟩
      | ok found w =>
          rw [locateInitializer_eq hconstructor hlocate]
          cases found with
          | none => exact ⟨resource, hsealed, .stay⟩
          | some t =>
              simp only [hsealed]
              cases hread : resource.isInitialized with
              | true => exact ⟨resource, hsealed, .stay⟩
              | false =>
                  obtain ⟨resource', hresource, hkept⟩ := recovered_of_prepare (r := r)
                    (q := Inquiry.noteInitializer { q with toWorkbench := w } t) hsealed
                  exact ⟨resource', hresource, .read hread hkept⟩

/-! ### Calls -/

/-- A call of the detector, with the module and the log of the moment. -/
inductive Call where
  | locateInitializer (w : Workbench)
  | recover (w : Workbench)

/-- The candidate after a call, whether it succeeds or fails. -/
def afterCall (r : Reactor) (c : Candidate) : Call → Candidate
  | .locateInitializer w => (finalState (r.locateInitializer ⟨w, c⟩)).candidate
  | .recover w => (finalState (r.recover ⟨w, c⟩)).candidate

/-- The candidate after some calls, one after the other. -/
def afterCalls (r : Reactor) (c : Candidate) (calls : List Call) : Candidate :=
  calls.foldl r.afterCall c

variable {c : Candidate}

theorem afterCalls_of_locateInitializer_eq_ok {w : Workbench}
    (h : r.locateInitializer ⟨w, c⟩ = .ok () q) :
    r.afterCalls c [.locateInitializer w] = q.candidate :=
  congrArg (fun result => (finalState result).candidate) h

/-- Every call is a step. -/
theorem step_afterCall (call : Call) (hsealed : c.sealed? = some resource) :
    ∃ resource', (r.afterCall c call).sealed? = some resource' ∧ resource.Step resource' := by
  match call with
  | .locateInitializer w => exact step_of_locateInitializer (q := ⟨w, c⟩) hsealed
  | .recover w => exact step_of_recover (q := ⟨w, c⟩) hsealed

/-- What every step keeps is kept by any calls. -/
theorem afterCalls_induction {P : SealedResource → Prop}
    (hstep : ∀ s s', s.Step s' → P s → P s') (calls : List Call)
    (hsealed : c.sealed? = some resource) (hresource : P resource) :
    ∃ resource', (r.afterCalls c calls).sealed? = some resource' ∧ P resource' := by
  induction calls generalizing c resource with
  | nil => exact ⟨resource, hsealed, hresource⟩
  | cons call calls ih =>
      obtain ⟨resource', hsealed', hcall⟩ := step_afterCall (r := r) call hsealed
      exact ih hsealed' (hstep _ _ hcall hresource)

/-- Once recovered, a resource is given again after any calls. -/
theorem recover_afterCalls {done : NamedResource} (hsealed : c.sealed? = some resource)
    (hdone : resource.recovered = some done) (later : List Call) (w : Workbench) :
    r.recover ⟨w, r.afterCalls c later⟩ = .ok (some done) ⟨w, r.afterCalls c later⟩ := by
  obtain ⟨resource', hsealed', hdone'⟩ :=
    afterCalls_induction (P := fun s => s.recovered = some done) (fun s s' h => h.recovered_eq)
      later hsealed hdone
  exact recover_of_recovered hsealed' hdone'

/-- What is known of recovering from a candidate. -/
structure Caches (r : Reactor) (q : Inquiry) (resource : SealedResource) : Prop where
  module_eq : (finalState (r.recover q)).module = q.module
  /-- A handler that has not been read, or that names no resource, leads to nothing. -/
  idle : resource.isInitialized = false ∨ resource.resourceName = none → r.recover q = .ok none q
  /-- An error leaves the candidate as it was. -/
  candidate_of_error : ∀ e q', r.recover q = .error e q' → q'.candidate = q.candidate
  /-- Where there is nothing to recover nothing is recorded. -/
  eq_of_none : ∀ q', r.recover q = .ok none q' → q' = q
  /-- What is recovered is given again, whatever is called in the meantime and with which modules,
  and giving it again does nothing. -/
  again : ∀ done q', r.recover q = .ok (some done) q' → ∀ later w,
    r.recover ⟨w, r.afterCalls q'.candidate later⟩ =
      .ok (some done) ⟨w, r.afterCalls q'.candidate later⟩

theorem caches_of_orderly (hsealed : q.candidate.sealed? = some resource)
    (horderly : resource.Orderly) : r.Caches q resource := by
  have hrecovery := r.recovery hsealed
  refine ⟨r.recover_module q, fun hidle => ?_, fun e q' hresult => ?_, fun q' hresult => ?_,
    fun done q' hresult later w => ?_⟩
  · have hfresh : resource.recovered = none := by
      refine Option.eq_none_iff_forall_ne_some.mpr fun done hdone => ?_
      obtain ⟨hread, hname⟩ := horderly done hdone
      simp [hread, hname] at hidle
    rw [recover, hsealed]
    rcases hidle with hunread | hname
    · simp [hfresh, hunread]
    · simp [hfresh, hname]
  · rw [hresult] at hrecovery
    cases hrecovery <;> rfl
  · rw [hresult] at hrecovery
    cases hrecovery <;> rfl
  · rw [hresult] at hrecovery
    cases hrecovery with
    | kept hdone => exact recover_afterCalls hsealed hdone later w
    | fresh => exact recover_afterCalls rfl rfl later w

/-- A candidate that a type was classified as remembers its resource.  After any calls, with any
modules and logs, recovering leaves the module alone; it comes to nothing until the handler has been
read for a resource; without a result it leaves the candidate alone; and its first result is the
result of every call that follows, which does nothing but give it again. -/
theorem recover_cached (r : Reactor) {m : Module} {t : TypeDecl} {c : Candidate}
    (hclassify : r.classify m t = some c) (calls : List Call) :
    ∃ resource, (r.afterCalls c calls).sealed? = some resource ∧
      ∀ w, r.Caches ⟨w, r.afterCalls c calls⟩ resource := by
  obtain ⟨handler, -, -, rfl⟩ := classify_eq_some hclassify
  have hsealed : (Candidate.ofType .reactor t handler.token
      (.sealed (.ofHandler handler.token))).sealed? = some (.ofHandler handler.token) := rfl
  obtain ⟨resource, hresource, horderly⟩ :=
    afterCalls_induction (r := r) (fun s s' h => h.orderly) calls hsealed
      (SealedResource.orderly_ofHandler handler.token)
  exact ⟨resource, hresource, fun w => caches_of_orderly hresource horderly⟩

/-- The resource of the sample is not recovered before the initializer is located.  Then it is, and
after that also from a module that has no resources. -/
theorem recover_cached_sample :
    (ofConfig .standard (.ofConfig .standard)).classify Sample.module Sample.resolverType =
        some Sample.candidate ∧
      (∀ w, (ofConfig .standard (.ofConfig .standard)).recover ⟨w, Sample.candidate⟩ =
        .ok none ⟨w, Sample.candidate⟩) ∧
      ∃ c q, (ofConfig .standard (.ofConfig .standard)).afterCalls Sample.candidate
          [.locateInitializer ⟨Sample.module, .empty⟩] = c ∧
        (ofConfig .standard (.ofConfig .standard)).recover ⟨⟨Sample.module, .empty⟩, c⟩ =
          .ok (some ⟨"hidden", [104, 105]⟩) q ∧
        (ofConfig .standard (.ofConfig .standard)).recover
            ⟨⟨.named "app.exe", .empty⟩, q.candidate⟩ =
          .ok (some ⟨"hidden", [104, 105]⟩) ⟨⟨.named "app.exe", .empty⟩, q.candidate⟩ := by
  have hclassify : (ofConfig .standard (.ofConfig .standard)).classify Sample.module
      Sample.resolverType = some Sample.candidate := by decide +kernel
  refine ⟨hclassify, fun w => ?_, ?_⟩
  · obtain ⟨resource, hsealed, hcaches⟩ := recover_cached _ hclassify []
    obtain rfl : SealedResource.ofHandler (.methodDef 3) = resource := Option.some.inj hsealed
    exact (hcaches w).idle (.inl rfl)
  · obtain ⟨located, hlocate, -, hloaded⟩ := locateInitializer_spec rfl rfl
      (q := ⟨⟨Sample.module, .empty⟩, Sample.candidate⟩) Sample.module_staged (by decide +kernel)
      rfl rfl
    obtain ⟨resource, -, hcaches⟩ := recover_cached _ hclassify
      [.locateInitializer ⟨Sample.module, .empty⟩]
    -- the module as it was before still has the ciphertext
    have hdecrypt : SealedResource.decrypt ((SealedResource.ofHandler (.methodDef 3)).loaded
        "hidden" Sample.key Sample.vector) Sample.module = .ok [12, 5, 2, 104, 105] := by
      have hstored : Sample.module.resource? "hidden" = some ⟨"hidden", 5, Sample.ciphertext⟩ := by
        decide +kernel
      exact SealedResource.decrypt_eq_ok_iff.mpr
        ⟨"hidden", _, rfl, hstored, Sample.decrypt?_ciphertext⟩
    have hdecode : Codec.quickLz.decompress [12, 5, 2, 104, 105] = .ok [104, 105] := rfl
    obtain ⟨q, hrecover, -⟩ := recover_spec (r := ofConfig .standard (.ofConfig .standard))
      (q := ⟨⟨Sample.module, .empty⟩, located.candidate⟩) hloaded rfl rfl rfl hdecrypt hdecode
    have hcandidate : (ofConfig .standard (.ofConfig .standard)).afterCalls Sample.candidate
        [.locateInitializer ⟨Sample.module, .empty⟩] = located.candidate :=
      afterCalls_of_locateInitializer_eq_ok hlocate
    rw [← hcandidate] at hrecover
    exact ⟨_, q, rfl, hrecover,
      (hcaches _).again _ q hrecover [] ⟨.named "app.exe", .empty⟩⟩

end Reactor

end ResolverRecovery
