import ResolverRecovery.Proofs.Recovery.Preserving
import ResolverRecovery.Proofs.Recovery.Repeating

/-!
# Locating the initializer of a candidate again

The search for the initializer leaves its marks on the candidate: the initializer is noted, and the
resource is marked as read before the key and the vector are looked at.  Made again with the
candidate as it is then, the search ends as before, except that a resource without usable key or
vector, which was an error, is taken for one that has been read.

## Main statements

* `Reactor.prepare_outcome`: a handler with a body is marked as read, with or without an error.
* `Reactor.locateInitializer_again`: what comes of a second search.
* `Reactor.locateInitializer_keyless`: a fault that a second search does not report.
-/

namespace ResolverRecovery

open Engine

namespace SealedResource

/-- A handler of the module is marked as read, also if its key or its vector is not usable. -/
theorem load_outcome {m : Module} {resource : SealedResource} {d : MethodDecl}
    (hd : m.method? resource.method = some d) :
    ∃ loaded, loaded.isInitialized = true ∧
      (load m resource = .ok () loaded ∨
        ∃ fault, load m resource = .error (.decryption fault) loaded) := by
  have hreading := load_reading m resource
  generalize load m resource = result at hreading
  cases hreading with
  | unknown hmethod => cases hd.symm.trans hmethod
  | nameless => exact ⟨_, rfl, .inl rfl⟩
  | undisclosed => exact ⟨_, rfl, .inr ⟨_, rfl⟩⟩
  | disclosed => exact ⟨_, rfl, .inl rfl⟩

/-- A handler that names a resource without usable key or vector is read with an error. -/
theorem load_eq_error {m : Module} {resource : SealedResource} {b : Body} {name : String}
    {fault : DecryptionFault} (hbody : (m.method? resource.method).bind MethodDecl.body = some b)
    (hname : nameIn? m b.code = some name)
    (hmaterial : keyMaterial name (arraysIn m b.code) = .error fault) :
    load m resource = .error (.decryption fault)
      { resource with isInitialized := true, resourceName := some name } := by
  obtain ⟨d, hd, hdb⟩ := Option.bind_eq_some_iff.mp hbody
  have hcode : d.code = b.code := by rw [MethodDecl.code, hdb, Option.map_some, Option.getD_some]
  simp only [load, hd, hcode, hname, hmaterial]

end SealedResource

namespace Reactor

variable {config : Config} {collaborators : Collaborators} {filler : List Opcode} {m : Module}
  {r : Reactor} {q : Inquiry}

/-- A handler with a body is marked as read, and all that can fail is what it was read for. -/
theorem prepare_outcome (hr : r.normalizer = .stripping filler) {resource : SealedResource}
    {b : Body} (hbody : (q.module.method? resource.method).bind MethodDecl.body = some b) :
    ∃ loaded q', loaded.isInitialized = true ∧
      q'.candidate = { q.candidate with payload := .sealed loaded } ∧
      (r.prepare resource q = .ok () q' ∨
        ∃ fault, r.prepare resource q = .error (.decryption fault) q') := by
  obtain ⟨w, hclean, -, hstripped⟩ := cleanHandler_spec hr (w := q.toWorkbench) hbody
  obtain ⟨d, hd, -⟩ := Option.bind_eq_some_iff.mp hstripped
  obtain ⟨loaded, hread, hload | ⟨fault, hload⟩⟩ := SealedResource.load_outcome hd
  · refine ⟨loaded, _, hread, ?_, .inl (by rw [prepare_eq hbody hclean, hload])⟩
    rw [(reportName_spec _ loaded).2]
    rfl
  · exact ⟨loaded, _, hread, rfl, .inr ⟨fault, by rw [prepare_eq hbody hclean, hload]⟩⟩

/-- Where the search is settled, the initializer noted and the handler read, nothing is left to do.
Whether the handler was read with success makes no difference. -/
theorem locateInitializer_of_initialized {constructor : MethodRef} {t : Token}
    {resource : SealedResource}
    (hsettled : r.locator.Settled q.module q.candidate.type constructor (some t))
    (hnoted : q.candidate.initializer = some t) (hsealed : q.candidate.sealed? = some resource)
    (hread : resource.isInitialized = true) (log : EventLog) :
    EqUpToLog (.ok () q) (r.locateInitializer { q with log := log }) := by
  rw [locateInitializer_eq (q := { q with log := log }) hsettled.constructor?
    (hsettled.locate log)]
  simp only [hsealed, hread, if_true]
  refine .ok () rfl ?_
  rw [Inquiry.noteInitializer, ← hnoted]
  rfl

section Found

variable {constructor : MethodRef} {t : Token} {w : Workbench} {resource : SealedResource}
  {b : Body} (hl : r.locator.normalizer = .stripping filler)
  (hconstructor : InitializerLocator.constructor? q.module q.candidate.type = some constructor)
  (hlocate : r.locator.locate q.candidate.type constructor q.toWorkbench = .ok (some t) w)
  (hsealed : q.candidate.sealed? = some resource) (hunread : resource.isInitialized = false)
  (houtside : ¬r.locator.Visits q.module q.candidate.type resource.method)
  (hbody : (q.module.method? resource.method).bind MethodDecl.body = some b)
  (hr : r.normalizer = .stripping filler)
include hl hconstructor hlocate hsealed hunread houtside hbody

/-- Where an initializer is found and the handler has not been read, the handler is prepared as it
was before the search. -/
theorem locateInitializer_eq_prepare :
    r.locateInitializer q =
        r.prepare resource (Inquiry.noteInitializer { q with toWorkbench := w } t) ∧
      q.module.Repadded filler w.module ∧
      (w.module.method? resource.method).bind MethodDecl.body = some b := by
  obtain ⟨_, _, hwalk, hreworked⟩ := InitializerLocator.exists_locate hl hconstructor
  cases hlocate.symm.trans hwalk
  refine ⟨?_, hreworked.repadded, by rw [hreworked.method?_eq houtside, hbody]⟩
  rw [locateInitializer_eq hconstructor hlocate]
  simp only [hsealed, hunread, Bool.false_eq_true, if_false]

include hr

/-- All that can fail then is what the handler is read for, and a second search does nothing. -/
theorem locateInitializer_outcome :
    ∃ q', (r.locateInitializer q = .ok () q' ∨
        ∃ fault, r.locateInitializer q = .error (.decryption fault) q') ∧
      ∀ log, EqUpToLog (.ok () q') (r.locateInitializer { q' with log := log }) := by
  obtain ⟨hfirst, -, hbody'⟩ :=
    locateInitializer_eq_prepare hl hconstructor hlocate hsealed hunread houtside hbody
  obtain ⟨loaded, q', hread, hcandidate, hprepare⟩ := prepare_outcome hr
    (q := Inquiry.noteInitializer { q with toWorkbench := w } t) hbody'
  have hsince := prepare_reworked hr resource
    (Inquiry.noteInitializer { q with toWorkbench := w } t)
  have hfinal : finalState (r.prepare resource
      (Inquiry.noteInitializer { q with toWorkbench := w } t)) = q' := by
    rcases hprepare with hok | ⟨fault, hfault⟩
    · rw [hok, finalState_ok]
    · rw [hfault, finalState_error]
  rw [hfinal, Inquiry.module_noteInitializer] at hsince
  have hsettled := InitializerLocator.settled_of_locate hl hconstructor hlocate hsince
    fun u hvisit hu => houtside (hu ▸ hvisit)
  have htype : q'.candidate.type = q.candidate.type := by rw [hcandidate]; rfl
  exact ⟨q', by rwa [hfirst], locateInitializer_of_initialized (htype ▸ hsettled)
    (by rw [hcandidate]; rfl) (by rw [hcandidate]; rfl) hread⟩

/-- A fault in the key or the vector is reported once, and not by a second search. -/
theorem locateInitializer_of_fault {name : String} {fault : DecryptionFault}
    (hname : SealedResource.nameIn? q.module (b.strip filler).code = some name)
    (hmaterial : SealedResource.keyMaterial name
      (SealedResource.arraysIn q.module (b.strip filler).code) = .error fault) :
    ∃ q', r.locateInitializer q = .error (.decryption fault) q' ∧
      ∀ log, EqUpToLog (.ok () q') (r.locateInitializer { q' with log := log }) := by
  obtain ⟨hfirst, hrepadded, hbody'⟩ :=
    locateInitializer_eq_prepare hl hconstructor hlocate hsealed hunread houtside hbody
  obtain ⟨v, hclean, hcleaned, hstripped⟩ := cleanHandler_spec hr
    (w := (Inquiry.noteInitializer { q with toWorkbench := w } t).toWorkbench) hbody'
  -- types and resources are still those of the module before
  have htypes : v.module.types = q.module.types := hcleaned.types.trans hrepadded.types
  have hresources : v.module.resources = q.module.resources :=
    hcleaned.resources.trans hrepadded.resources
  have hname' : SealedResource.nameIn? v.module (b.strip filler).code = some name := by
    rw [← hname]
    simp only [SealedResource.nameIn?, Module.resource?, hresources]
  have hmaterial' : SealedResource.keyMaterial name
      (SealedResource.arraysIn v.module (b.strip filler).code) = .error fault := by
    rw [← hmaterial]
    simp only [SealedResource.arraysIn, Module.resolveField?, htypes]
  have hload := SealedResource.load_eq_error hstripped hname' hmaterial'
  rw [← Inquiry.module_noteInitializer { q with toWorkbench := w } t] at hbody'
  have hprepare := prepare_eq hbody' hclean
  obtain ⟨q', hok | ⟨fault', hfault⟩, hsecond⟩ :=
    locateInitializer_outcome hl hconstructor hlocate hsealed hunread houtside hbody hr
  · rw [hfirst, hprepare, hload] at hok
    cases hok
  · refine ⟨q', ?_, hsecond⟩
    have hsame := hfault
    rw [hfirst, hprepare, hload] at hsame
    cases hsame
    exact hfault

end Found

/-- A search for the initializer of a detected type that is made again, with the candidate as the
first one has left it, changes neither module nor candidate and ends as the first one did.  Only a
fault in the key or the vector is not reported again. -/
theorem locateInitializer_again (hbuilt : m.Built) (hrange : m.InRange)
    (hnormalizer : collaborators.normalizer = .stripping filler) {t : TypeDecl} (ht : t ∈ m.types)
    {c : Candidate} (hclassify : (ofConfig config collaborators).classify m t = some c)
    (start log : EventLog) :
    match (ofConfig config collaborators).locateInitializer ⟨⟨m, start⟩, c⟩ with
    | .error (.decryption _) q =>
      EqUpToLog (.ok () q) ((ofConfig config collaborators).locateInitializer { q with log := log })
    | first =>
      EqUpToLog first ((ofConfig config collaborators).locateInitializer
        { finalState first with log := log }) := by
  have hwf := hbuilt.wellFormed hrange
  have hunvisited := not_visits_handler hwf ht hclassify ⟨collaborators.normalizer,
    config.maxLocals⟩ c.type
  obtain ⟨handler, hhandler, hish, rfl⟩ := classify_eq_some hclassify
  generalize hr : ofConfig config collaborators = r at *
  have hr' : r.normalizer = .stripping filler := hr ▸ hnormalizer
  have hl : r.locator.normalizer = .stripping filler := hr ▸ hnormalizer
  generalize hq : Inquiry.mk ⟨m, start⟩
    (.ofType .reactor t handler.token (.sealed (.ofHandler handler.token))) = q
  have hsealed : q.candidate.sealed? = some (.ofHandler handler.token) := by rw [← hq]; rfl
  -- the search does not come to the handler, which has a body
  have houtside : ¬r.locator.Visits q.module q.candidate.type handler.token := by
    rw [← hq, ← hr]
    exact hunvisited
  obtain ⟨b, hb⟩ := Option.isSome_iff_exists.mp (isHandler_spec hish).1
  have hbody : (q.module.method? handler.token).bind MethodDecl.body = some b := by
    rw [hwf.methodsOf_eq ht, List.mem_filter] at hhandler
    rw [← hq, hwf.method?_token hhandler.1]
    exact hb
  have hrepeats : Repeats r.locateInitializer q := by
    refine locateInitializer_repeats hr' hl fun resource hresource => ?_
    cases hsealed.symm.trans hresource
    exact houtside
  cases hconstructor : InitializerLocator.constructor? q.module q.candidate.type with
  | none =>
      have hfirst : r.locateInitializer q = .error (missing q .instanceConstructor) q := by
        simp only [locateInitializer, hconstructor]
      have hsecond := hrepeats log
      rw [hfirst] at hsecond ⊢
      exact hsecond
  | some constructor =>
      obtain ⟨found, w, hlocate, -⟩ := InitializerLocator.exists_locate hl hconstructor
      cases found with
      | none =>
          have hfirst := locateInitializer_eq hconstructor hlocate
          have hsecond := hrepeats log
          rw [hfirst] at hsecond ⊢
          exact hsecond
      | some u =>
          obtain ⟨q', hfirst | ⟨fault, hfirst⟩, hsecond⟩ :=
            locateInitializer_outcome hl hconstructor hlocate hsealed rfl houtside hbody hr'
          · rw [hfirst]
            exact hsecond log
          · rw [hfirst]
            exact hsecond log

/-- The initializer of the sample is located twice. -/
theorem locateInitializer_again_sample :
    ∃ q, (ofConfig .standard (.ofConfig .standard)).locateInitializer
        ⟨⟨Sample.module, .empty⟩, Sample.candidate⟩ = .ok () q ∧
      ∀ log, EqUpToLog (.ok () q)
        ((ofConfig .standard (.ofConfig .standard)).locateInitializer { q with log := log }) := by
  obtain ⟨q, hfirst, -⟩ := locateInitializer_spec rfl rfl
    (q := ⟨⟨Sample.module, .empty⟩, Sample.candidate⟩) Sample.module_staged (by decide +kernel) rfl
    rfl
  refine ⟨q, hfirst, fun log => ?_⟩
  have hnormalizer : (Collaborators.ofConfig .standard).normalizer = .stripping [.nop] := rfl
  have hclassify : (ofConfig .standard (.ofConfig .standard)).classify Sample.module
      Sample.resolverType = some Sample.candidate := by decide +kernel
  have hagain := locateInitializer_again Sample.module_built
    ⟨by decide +kernel, by decide +kernel⟩ hnormalizer (by decide +kernel) hclassify .empty log
  rw [hfirst] at hagain
  exact hagain

end Reactor

/-! ### A resource without a key -/

namespace Engine.Sample

/-- Loads the name of the resource, and neither key nor vector. -/
def resolveKeyless : Body where
  code := [⟨0, .ldstr, .literal "hidden"⟩, ⟨5, .ret, .none⟩]
  locals := resolve.locals

/-- A module with a resolver that discloses no key for the resource. -/
def keyless : Module :=
  let m := ((Module.named "app.exe").addType "Obf" "R" (some root)).2
  let m := Module.Edit.apply (Module.addField (.typeDef 1) "flag" WellKnown.boolean true none) m
  let m := Module.Edit.apply (Module.addField (.typeDef 1) "first" WellKnown.object true none) m
  let m := Module.Edit.apply (Module.addField (.typeDef 1) "second" WellKnown.object true none) m
  let m := Module.Edit.apply (Module.addMethod (.typeDef 1) ".ctor" 0 .void (some ⟨[], []⟩)) m
  let m := Module.Edit.apply
    (Module.addMethod (.typeDef 1) "Setup" staticFlag.bit .void (some setup)) m
  let m := Module.Edit.apply (Module.addMethod (.typeDef 1) "Resolve" staticFlag.bit
    ⟨WellKnown.assembly, [WellKnown.object, WellKnown.object]⟩ (some resolveKeyless)) m
  m.addResource ⟨"hidden", 1, [0]⟩

theorem keyless_built : keyless.Built :=
  ((Module.Built.named "app.exe").addType "Obf" "R" (some root)
    |>.apply_addField _ _ _ _ _
    |>.apply_addField _ _ _ _ _
    |>.apply_addField _ _ _ _ _
    |>.apply_addMethod _ _ _ _ _
    |>.apply_addMethod _ _ _ _ _
    |>.apply_addMethod _ _ _ _ _
    |>.addResource _)

end Engine.Sample

namespace Reactor

/-- That there is no key is an error the first time, and no longer when the search is made again
with the module, the log and the candidate as they are then. -/
theorem locateInitializer_keyless :
    Sample.keyless.Built ∧ Sample.keyless.InRange ∧
      (ofConfig .standard (.ofConfig .standard)).classify Sample.keyless Sample.resolverType =
        some Sample.candidate ∧
      ∃ q q', (ofConfig .standard (.ofConfig .standard)).locateInitializer
          ⟨⟨Sample.keyless, .empty⟩, Sample.candidate⟩ =
            .error (.decryption (.noKey "hidden")) q ∧
        (ofConfig .standard (.ofConfig .standard)).locateInitializer q = .ok () q' := by
  have hrange : Sample.keyless.InRange := ⟨by decide +kernel, by decide +kernel⟩
  have hwf := Sample.keyless_built.wellFormed hrange
  refine ⟨Sample.keyless_built, hrange, by decide +kernel, ?_⟩
  let r := ofConfig .standard (.ofConfig .standard)
  have htype : Sample.keyless.type? (.typeDef 1) = some Sample.resolverType := by decide +kernel
  have hconstructor := InitializerLocator.constructor?_eq hwf htype
    (d := ⟨.methodDef 1, ".ctor", .typeDef 1, 0, .void, some ⟨[], []⟩⟩) (by decide +kernel)
  obtain ⟨found, w, hlocate, -⟩ := InitializerLocator.locate_spec (l := r.locator) rfl
    (w := ⟨Sample.keyless, .empty⟩) hwf htype
    (d := ⟨.methodDef 2, "Setup", .typeDef 1, staticFlag.bit, .void, some Sample.setup⟩)
    (by decide +kernel) Sample.setup_initializes
  have houtside : ¬r.locator.Visits Sample.keyless (.typeDef 1) (.methodDef 3) := by
    rintro ⟨owner, howner, hcandidate⟩
    cases htype.symm.trans howner
    revert hcandidate
    decide +kernel
  have hnormalizer : r.normalizer = .stripping [.nop] := rfl
  have hname : SealedResource.nameIn? Sample.keyless
      (Sample.resolveKeyless.strip [.nop]).code = some "hidden" := by decide +kernel
  obtain ⟨q, hfirst, hsecond⟩ := locateInitializer_of_fault
    (q := ⟨⟨Sample.keyless, .empty⟩, Sample.candidate⟩) hnormalizer hconstructor
    hlocate rfl rfl houtside (by decide +kernel) hnormalizer hname rfl
  obtain ⟨q', hagain, -⟩ := (hsecond q.log).exists_ok
  exact ⟨q, q', hfirst, hagain⟩

end Reactor

end ResolverRecovery
