import ResolverRecovery.Proofs.Recovery.Preserving

/-!
# What the outcome of a recovery stands for

A recovery that succeeds hands back an initializer only if it has found one, and a resource only if
it was embedded in the module under the name that the handler discloses, and decrypted and decoded
with the key and the vector that the handler discloses.  This holds of every normalizer, since what
is handed back was read from the bodies as they are stored in the end.

## Main definitions

* `Initialized`: a method is the initializer that a candidate names.
* `Disclosed`: a resource is what the handler of a candidate discloses.
* `Engine.Justified`: an outcome is made up of what was found.

## Main statements

* `Reactor.initialized_of_locateInitializer`: the initializer survives the work on the handler.
* `Engine.process_justified`: every recovery that succeeds hands back what was found.
-/

namespace ResolverRecovery

/-- The method is the initializer that a candidate names: a static method of the type `t` other than
the handler, which neither takes nor returns anything and has few enough local variables before the
recovery, and which sets the type up as it is stored afterwards. -/
structure Initialized (maxLocals : Nat) (m m' : Module) (c : Candidate) (t : TypeDecl)
    (d : MethodDecl) : Prop where
  token : c.initializer = some d.token
  member : d ∈ m.methodsOf t
  other : d.token ≠ c.handler
  isStatic : d.isStatic = true
  signature : d.signature = Signature.void
  locals : d.locals.length ≤ maxLocals
  setsUp : ∃ constructor b, (m.methodsOf t).find? MethodDecl.isConstructor = some constructor ∧
    (m'.method? d.token).bind MethodDecl.body = some b ∧ SetsUp t constructor b.code

/-- The resource is what the handler of a candidate discloses: as it is stored after the recovery,
the handler names a resource that was embedded before, a key and a vector, and under these the
resource was decrypted and then decoded. -/
def Disclosed (codec : Codec) (m m' : Module) (c : Candidate) (resource : NamedResource) : Prop :=
  ∃ b key vector stored text, (m'.method? c.handler).bind MethodDecl.body = some b ∧
    SealedResource.Discloses m b.code resource.name key vector ∧
    m.resource? resource.name = some stored ∧
    Cipher.decrypt? key vector stored.data = some text ∧
    codec.decompress text = .ok resource.data

variable {config : Config} {collaborators : Collaborators} {m m' m'' : Module} {c c' : Candidate}

/-- An initializer concerns the methods of the module and two of the tokens of the candidate. -/
theorem Initialized.congr {maxLocals : Nat} {t : TypeDecl} {d : MethodDecl}
    (h : Initialized maxLocals m m' c t d) (hinitializer : c'.initializer = c.initializer)
    (hhandler : c'.handler = c.handler) (hmethod : ∀ t, m''.method? t = m'.method? t) :
    Initialized maxLocals m m'' c' t d :=
  { h with
    token := hinitializer.trans h.token
    other := hhandler ▸ h.other
    setsUp := by
      rw [hmethod]
      exact h.setsUp }

/-- What a handler discloses concerns the methods of the module and the token of the handler. -/
theorem Disclosed.congr {codec : Codec} {resource : NamedResource}
    (h : Disclosed codec m m' c resource) (hhandler : c'.handler = c.handler)
    (hmethod : ∀ t, m''.method? t = m'.method? t) : Disclosed codec m m'' c' resource := by
  rw [Disclosed, hmethod, hhandler]
  exact h

namespace Reactor

variable {t : TypeDecl} {start : EventLog} {located : Inquiry}

/-- The initializer of a detected type is what the candidate says, also after the handler was
prepared. -/
theorem initialized_of_locateInitializer (hwf : m.WellFormed) (ht : t ∈ m.types)
    (hclassify : (ofConfig config collaborators).classify m t = some c)
    (hlocate : (ofConfig config collaborators).locateInitializer ⟨⟨m, start⟩, c⟩ =
      .ok () located) :
    (∃ payload, located.candidate =
      { c with initializer := located.candidate.initializer, payload := payload }) ∧
      ∃ initializer, Initialized config.maxLocals m located.module located.candidate t
        initializer := by
  obtain ⟨handler, hhandler, hish, rfl⟩ := classify_eq_some hclassify
  obtain ⟨constructor, u, w, hconstructor, hfound, hprepare⟩ := locateInitializer_eq_ok rfl hlocate
  -- the constructor and the candidates for the initializer are those of the detected type
  obtain ⟨owner, ctor, howner, hctor, rfl⟩ :=
    InitializerLocator.constructor?_eq_some hwf hconstructor
  obtain ⟨owner', howner', hcandidate, b, hbody, hqualifies⟩ :=
    InitializerLocator.locate_eq_some hfound
  have hsame : some t = some owner := (hwf.type?_token ht).symm.trans howner
  have hsame' : some t = some owner' := (hwf.type?_token ht).symm.trans howner'
  cases hsame
  cases hsame'
  obtain ⟨d, hd, hstatic, hvoid, hlocals, rfl⟩ :=
    InitializerLocator.mem_candidates_iff.mp hcandidate
  have hother : d.token ≠ handler.token := by
    intro hsame
    rw [hsame] at hcandidate
    exact handler_not_mem_candidates hwf ht ht hhandler hish hcandidate
  -- preparing the handler leaves the body of the initializer alone
  have hprepared := prepare_rewritten (ofConfig config collaborators) (.ofHandler handler.token)
    (Inquiry.noteInitializer
      ⟨w, .ofType .reactor t handler.token (.sealed (.ofHandler handler.token))⟩ d.token)
  rw [hprepare, finalState_ok] at hprepared
  obtain ⟨loaded, -, hnoted⟩ := prepare_eq_ok hprepare
  refine ⟨⟨.sealed loaded, by rw [hnoted]; rfl⟩, d, ?_⟩
  rw [hnoted]
  refine ⟨rfl, hd, hother, (Bool.and_eq_true_iff.mp hstatic).1, hvoid, hlocals, ctor, b, hctor, ?_,
    qualifies_iff.mp hqualifies⟩
  rw [hprepared.method?_eq hother]
  exact hbody

/-- A resource that is recovered is what the prepared handler of the detected type discloses. -/
theorem disclosed_of_recover (hclassify : (ofConfig config collaborators).classify m t = some c)
    (hlocate : (ofConfig config collaborators).locateInitializer ⟨⟨m, start⟩, c⟩ = .ok () located)
    {resource : NamedResource} {q : Inquiry}
    (hrecover : (ofConfig config collaborators).recover located = .ok (some resource) q) :
    Disclosed config.codec m located.module c resource := by
  obtain ⟨handler, -, -, rfl⟩ := classify_eq_some hclassify
  obtain ⟨b, key, vector, stored, text, hbody, hdiscloses, hresource, htext, hdata⟩ :=
    exists_discloses_of_recover rfl hlocate hrecover
  -- types and resources are those of the module before
  have hrewritten := (ofConfig config collaborators).locateInitializer_rewritten rfl
    ⟨⟨m, start⟩, .ofType .reactor t handler.token (.sealed (.ofHandler handler.token))⟩
  rw [hlocate, finalState_ok] at hrewritten
  refine ⟨b, key, vector, stored, text, hbody,
    hdiscloses.congr hrewritten.types.symm hrewritten.resources.symm, ?_, htext, hdata⟩
  rw [← hresource, Module.resource?, Module.resource?, hrewritten.resources]

end Reactor

namespace Engine

/-- The outcome is made up of what was found in the module.  A candidate that decrypts a resource
has a handler and an initializer, and a resource comes only of such a candidate. -/
structure Justified (config : Config) (m m' : Module) (o : Outcome) : Prop where
  initialized : ∀ c, o.candidate = some c → c.variant = .reactor →
    ∃ t handler initializer, m.type? c.type = some t ∧ handler ∈ m.methodsOf t ∧
      handler.token = c.handler ∧ handler.isStaticWithBody = true ∧
      Initialized config.maxLocals m m' c t initializer
  disclosed : ∀ resource, o.resource = some resource →
    ∃ c, o.candidate = some c ∧ c.variant = .reactor ∧ Disclosed config.codec m m' c resource

/-- What comes of following a detected candidate up was found, also if other parts of the module
than its methods have changed since. -/
theorem justified_of_followUp (hwf : m.WellFormed) {d : Detector} {c : Candidate}
    (hfind : (withCollaborators config collaborators).find? m = some (d, c)) {start log : EventLog}
    {found : Option NamedResource} {merged : Bool} {q : Inquiry}
    (hfollow : followUp d ⟨⟨m, start⟩, c⟩ = .ok found q)
    (hmethod : ∀ t, m'.method? t = q.module.method? t) :
    Justified config m m' ⟨some q.candidate, found, merged, log⟩ := by
  obtain ⟨variant, rfl, t, ht, hclassify⟩ := find?_eq_some hfind
  obtain ⟨hvariant, htype, -, handler, hhandler, hstatic, hc⟩ := Variant.classify_eq_some hclassify
  obtain ⟨located, hlocate, hrecover⟩ := followUp_eq_ok hfollow
  cases variant with
  | smartAssembly =>
      -- this family hands back no resource, and another family than the one asked for
      obtain ⟨initializer, hlocated⟩ := SmartAssembly.candidate_of_locateInitializer_eq_ok hlocate
      obtain ⟨rfl, hkept⟩ := SmartAssembly.recover_eq_ok hrecover
      have hother : q.candidate.variant = .smartAssembly := by
        rw [hkept, hlocated]
        exact hvariant
      refine ⟨fun c' hc' hreactor => ?_, fun resource hresource => nomatch hresource⟩
      cases hc'
      exact nomatch hother.symm.trans hreactor
  | reactor =>
      obtain ⟨⟨loaded, hlocated⟩, initializer, hinitialized⟩ :=
        Reactor.initialized_of_locateInitializer hwf ht hclassify hlocate
      obtain ⟨kept, hq⟩ := Reactor.candidate_of_recover_eq_ok hrecover
      rw [hlocated] at hq
      have hmodule : q.module = located.module := Reactor.module_of_recover_eq_ok hrecover
      have hstored : ∀ t, m'.method? t = located.module.method? t := fun t => by
        rw [hmethod, hmodule]
      refine ⟨fun c' hc' _ => ?_, fun resource hresource => ?_⟩
      · cases hc'
        refine ⟨t, handler, initializer, ?_, hhandler, ?_, hstatic, ?_⟩
        · rw [hq]
          exact htype ▸ hwf.type?_token ht
        · rw [hq]
          exact hc.symm
        · exact hinitialized.congr (by rw [hq]) (by rw [hq, hlocated]) hstored
      · cases hresource
        have hdisclosed := Reactor.disclosed_of_recover hclassify hlocate hrecover
        refine ⟨q.candidate, rfl, ?_, hdisclosed.congr ?_ hstored⟩
        · rw [hq]
          exact hvariant
        · rw [hq]

/-- If a recovery succeeds, the initializer and the resource that it hands back were found. -/
theorem process_justified (hbuilt : m.Built) (hrange : m.InRange) (hrecover : config.recover = true)
    {o : Outcome} (h : (withCollaborators config collaborators).process m = .ok o m') :
    Justified config m m' o := by
  have hwf := hbuilt.wellFormed hrange
  have hending := process_ending (withCollaborators config collaborators) m
  rw [h] at hending
  cases hending with
  | undetected hfind =>
      exact ⟨fun c hc => (nomatch hc), fun resource hresource => (nomatch hresource)⟩
  | detected hfind hoff => exact nomatch hrecover.symm.trans hoff
  | unhidden hfind _ hfollow | recovered hfind _ _ hfollow | merged hfind _ _ hfollow =>
      exact justified_of_followUp hwf hfind hfollow fun t => rfl

/-- The resource of the sample is what its handler discloses. -/
theorem process_justified_sample :
    ∃ o m', (ofConfig .standard).process Sample.module = .ok o m' ∧
      o.resource = some ⟨"hidden", [104, 105]⟩ ∧ Justified .standard Sample.module m' o := by
  obtain ⟨o, m', hprocess, hresource, -⟩ := Sample.exists_process_module true
  exact ⟨o, m', hprocess, hresource, process_justified Sample.module_built
    ⟨by decide +kernel, by decide +kernel⟩ rfl hprocess⟩

end Engine

end ResolverRecovery
