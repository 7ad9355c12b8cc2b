import ResolverRecovery.Proofs.Recovery.Framing
import ResolverRecovery.Proofs.Recovery.Redetecting
import ResolverRecovery.Proofs.Recovery.Succeeding

/-!
# Stages that repeat themselves

With filler stripped, a stage that is done again on the module that it leaves, with the candidate
that it was given, ends as it did the first time and changes nothing more.  The first time has
stripped the bodies that the second time looks at, and stripping them again does nothing.

## Main definitions

* `EqUpToLog`: results that differ in their logs alone.
* `Repeats`: work that ends in the same way if it is done again.
* `InitializerLocator.Settled`: the search changes nothing, and what it finds is known.

## Main statements

* `InitializerLocator.settled_of_locate`: the search finds the same method again.
* `Reactor.locateInitializer_repeats`, `SmartAssembly.locateInitializer_repeats`: up to the recovery
  of the resource, the detectors repeat themselves.
* `Engine.followUp_repeats`: so does following a candidate up.
-/

namespace ResolverRecovery

/-! ### Doing work again -/

/-- The results are the same but for what the logs hold. -/
inductive EqUpToLog {α : Type} :
    EStateM.Result Error Inquiry α → EStateM.Result Error Inquiry α → Prop
  | ok {q q' : Inquiry} (a : α) (hmodule : q'.module = q.module)
      (hcandidate : q'.candidate = q.candidate) : EqUpToLog (.ok a q) (.ok a q')
  | error {q q' : Inquiry} (e : Error) (hmodule : q'.module = q.module)
      (hcandidate : q'.candidate = q.candidate) : EqUpToLog (.error e q) (.error e q')

/-- Done again on the module that it leaves and with the candidate that it was given, the work ends
in the same way, whatever the log. -/
def Repeats {α : Type} (work : Inquire α) (q : Inquiry) : Prop :=
  ∀ log, EqUpToLog (work q) (work ⟨⟨(finalState (work q)).module, log⟩, q.candidate⟩)

namespace EqUpToLog

variable {α : Type} {result : EStateM.Result Error Inquiry α} {q : Inquiry}

theorem exists_ok {a : α} (h : EqUpToLog (.ok a q) result) :
    ∃ q', result = .ok a q' ∧ q'.module = q.module ∧ q'.candidate = q.candidate := by
  cases h with
  | ok a hmodule hcandidate => exact ⟨_, rfl, hmodule, hcandidate⟩

theorem exists_error {e : Error} (h : EqUpToLog (.error e q) result) :
    ∃ q', result = .error e q' ∧ q'.module = q.module ∧ q'.candidate = q.candidate := by
  cases h with
  | error e hmodule hcandidate => exact ⟨_, rfl, hmodule, hcandidate⟩

end EqUpToLog

variable {filler : List Opcode}

/-- A body that rewriting does not change stays as it is, and so does the lack of one. -/
theorem Module.Reworked.body_eq_of_fixed {m m' : Module} {f : Body → Body}
    {touched : Token → Prop} (h : m.Reworked f touched m') {t : Token}
    (hfixed : ((m.method? t).bind MethodDecl.body).map f = (m.method? t).bind MethodDecl.body) :
    (m'.method? t).bind MethodDecl.body = (m.method? t).bind MethodDecl.body := by
  rcases h.method t with hsame | ⟨-, hmapped⟩
  · rw [hsame]
  · rw [hmapped, ← hfixed]
    cases m.method? t <;> rfl

/-! ### The search for an initializer -/

namespace InitializerLocator

variable {l : InitializerLocator}

/-- A candidate that is stripped already is left alone. -/
theorem firstQualified_cons_of_stripped (hl : l.normalizer = .stripping filler) (owner : TypeRef)
    (constructor : MethodRef) {t : Token} (rest : List Token) {w : Workbench} {b : Body}
    (hbody : (w.module.method? t).bind MethodDecl.body = some b) (hb : b.strip filler = b) :
    l.firstQualified owner constructor (t :: rest) w =
      if qualifies owner constructor b.code then .ok (some t) w
      else l.firstQualified owner constructor rest w := by
  simp only [firstQualified, hbody, hl, Normalizer.stripping, hb, Workbench.storeNormalized,
    if_true]

/-- The walk through candidates that are stripped as far as a first walk has come changes nothing
and ends as that one did. -/
theorem firstQualified_again (hl : l.normalizer = .stripping filler) {owner : TypeRef}
    {constructor : MethodRef} {tokens : List Token} {w w' w'' : Workbench} {found : Option Token}
    (h : l.firstQualified owner constructor tokens w = .ok found w')
    (hagree : ∀ t ∈ tokens, (w''.module.method? t).bind MethodDecl.body =
      (w'.module.method? t).bind MethodDecl.body) :
    l.firstQualified owner constructor tokens w'' = .ok found w'' := by
  induction tokens generalizing w with
  | nil =>
      cases h
      rfl
  | cons t rest ih =>
      have hrest : ∀ u ∈ rest, (w''.module.method? u).bind MethodDecl.body =
          (w'.module.method? u).bind MethodDecl.body :=
        fun u hu => hagree u (List.mem_cons_of_mem t hu)
      -- what the rest of the walk does to a body that is stripped, or missing
      have hkept : ∀ v, l.firstQualified owner constructor rest v = .ok found w' →
          ((v.module.method? t).bind MethodDecl.body).map (Body.strip filler) =
            (v.module.method? t).bind MethodDecl.body →
          (w''.module.method? t).bind MethodDecl.body =
            (v.module.method? t).bind MethodDecl.body := by
        intro v hv hfixed
        obtain ⟨_, _, hwalk, hreworked, -⟩ := firstQualified_spec hl owner constructor rest v
        cases hv.symm.trans hwalk
        rw [hagree t List.mem_cons_self, hreworked.body_eq_of_fixed hfixed]
      rw [firstQualified] at h ⊢
      cases hbody : (w.module.method? t).bind MethodDecl.body with
      | none =>
          simp only [hbody] at h
          have hnone := hkept w h (by rw [hbody]; rfl)
          rw [hbody] at hnone
          simp only [hnone]
          exact ih h hrest
      | some body =>
          simp only [hbody, hl, Normalizer.stripping] at h
          have hstored : ((w.storeNormalized t body (body.strip filler)
              ("normalized initializer candidate " ++ t.text)).module.method? t).bind
                MethodDecl.body = some (body.strip filler) :=
            Workbench.body_storeNormalized hbody _
          rw [← firstQualified]
          split at h
          · rename_i hqualifies
            cases h
            rw [firstQualified_cons_of_stripped hl owner constructor rest
              ((hagree t List.mem_cons_self).trans hstored) (Body.strip_strip filler body),
              if_pos hqualifies]
          · rename_i hdisqualified
            have hstripped := hkept _ h (by rw [hstored, Option.map_some, Body.strip_strip])
            rw [firstQualified_cons_of_stripped hl owner constructor rest
              (hstripped.trans hstored) (Body.strip_strip filler body), if_neg hdisqualified]
            exact ih h hrest

/-- With filler stripped, the search that a constructor is known for ends without an error. -/
theorem exists_locate (hl : l.normalizer = .stripping filler) {type : Token} {w : Workbench}
    {constructor : MethodRef} (hconstructor : constructor? w.module type = some constructor) :
    ∃ found w', l.locate type constructor w = .ok found w' ∧
      w.module.Reworked (Body.strip filler) (l.Visits w.module type) w'.module := by
  rw [constructor?] at hconstructor
  obtain ⟨owner, howner, -⟩ := Option.bind_eq_some_iff.mp hconstructor
  obtain ⟨found, w', hwalk, hreworked, -⟩ := firstQualified_spec hl owner.reference constructor
    (l.candidates w.module owner) w
  refine ⟨found, w', ?_, hreworked.mono fun t ht => ⟨owner, howner, ht⟩⟩
  rw [locate, howner]
  exact hwalk

/-- The search is settled: it ends with what is known to be found and changes nothing. -/
structure Settled (l : InitializerLocator) (m : Module) (type : Token) (constructor : MethodRef)
    (found : Option Token) : Prop where
  constructor? : constructor? m type = some constructor
  locate : ∀ log, l.locate type constructor ⟨m, log⟩ = .ok found ⟨m, log⟩

/-- The search is settled once it was made, also if other methods than those that it visits have
been stripped since. -/
theorem settled_of_locate (hl : l.normalizer = .stripping filler) {type : Token}
    {constructor : MethodRef} {w w' : Workbench} {found : Option Token}
    (hconstructor : constructor? w.module type = some constructor)
    (hlocate : l.locate type constructor w = .ok found w') {m : Module} {touched : Token → Prop}
    (hsince : w'.module.Reworked (Body.strip filler) touched m)
    (houtside : ∀ t, l.Visits w.module type t → ¬touched t) :
    l.Settled m type constructor found := by
  obtain ⟨_, _, hwalk, hreworked⟩ := exists_locate hl hconstructor
  cases hlocate.symm.trans hwalk
  refine ⟨?_, fun log => ?_⟩
  · rw [constructor?_repadded hsince.repadded, constructor?_repadded hreworked.repadded,
      hconstructor]
  · rw [InitializerLocator.locate] at hlocate
    cases howner : w.module.type? type with
    | none =>
        rw [howner] at hlocate
        cases hlocate
    | some owner =>
        simp only [howner] at hlocate
        have howner' : m.type? type = some owner := by
          rw [hsince.repadded.type?_eq, hreworked.repadded.type?_eq, howner]
        have hcandidates : l.candidates m owner = l.candidates w.module owner := by
          rw [l.candidates_repadded hsince.repadded, l.candidates_repadded hreworked.repadded]
        simp only [InitializerLocator.locate, howner', hcandidates]
        refine firstQualified_again hl hlocate fun t ht => ?_
        rw [hsince.method?_eq (houtside t ⟨owner, howner, ht⟩)]

/-- The search changes nothing when it is made a second time at once. -/
theorem settled_of_locate_self (hl : l.normalizer = .stripping filler) {type : Token}
    {constructor : MethodRef} {w w' : Workbench} {found : Option Token}
    (hconstructor : constructor? w.module type = some constructor)
    (hlocate : l.locate type constructor w = .ok found w') :
    l.Settled w'.module type constructor found := by
  have hunchanged : w'.module.Reworked (Body.strip filler) (fun _ => False) w'.module := .refl _
  exact settled_of_locate hl hconstructor hlocate hunchanged fun _ _ => id

end InitializerLocator

/-! ### The stages of the detectors -/

@[simp]
theorem Inquiry.module_noteInitializer (q : Inquiry) (t : Token) :
    (q.noteInitializer t).module = q.module := rfl

namespace Reactor

@[simp]
theorem module_keep (q : Inquiry) (resource : SealedResource) :
    (keep q resource).module = q.module := rfl

variable {r : Reactor} {q : Inquiry}

/-- A handler that is stripped already is left alone. -/
theorem cleanHandler_of_stripped (hr : r.normalizer = .stripping filler) {b : Body}
    (hb : b.strip filler = b) (t : Token) (w : Workbench) : r.cleanHandler t b w = .ok () w := by
  simp only [cleanHandler, hr, Normalizer.stripping, hb, if_true]

/-- Preparing a handler that was cleaned is reading it. -/
theorem prepare_eq {resource : SealedResource} {b : Body} {w : Workbench}
    (hbody : (q.module.method? resource.method).bind MethodDecl.body = some b)
    (hclean : r.cleanHandler resource.method b q.toWorkbench = .ok () w) :
    r.prepare resource q =
      match SealedResource.load w.module resource with
      | .error e loaded => .error e (keep { q with toWorkbench := w } loaded)
      | .ok _ loaded => .ok () (reportName (keep { q with toWorkbench := w } loaded) loaded) := by
  cases hload : SealedResource.load w.module resource <;>
    simp only [prepare, hbody, Inquiry.onWorkbench, hclean, hload]

theorem prepare_repeats (hr : r.normalizer = .stripping filler) (resource : SealedResource)
    (q : Inquiry) : Repeats (r.prepare resource) q := by
  intro log
  cases hbody : (q.module.method? resource.method).bind MethodDecl.body with
  | none =>
      have hfirst : ∀ log, r.prepare resource ⟨⟨q.module, log⟩, q.candidate⟩ =
          .error (.malformed (.handlerWithoutBody resource.method))
            ⟨⟨q.module, log⟩, q.candidate⟩ := by
        intro log
        simp only [prepare, hbody]
      rw [hfirst q.log, finalState_error, hfirst log]
      exact .error _ rfl rfl
  | some b =>
      obtain ⟨w, hclean, -, hstripped⟩ := cleanHandler_spec hr (w := q.toWorkbench) hbody
      have hclean' := cleanHandler_of_stripped hr (Body.strip_strip filler b) resource.method
        ⟨w.module, log⟩
      have hagain := prepare_eq (q := ⟨⟨w.module, log⟩, q.candidate⟩) hstripped hclean'
      rw [prepare_eq hbody hclean]
      cases hload : SealedResource.load w.module resource with
      | error e loaded =>
          simp only [hload] at hagain
          rw [finalState_error, module_keep, hagain]
          exact .error e rfl rfl
      | ok u loaded =>
          simp only [hload] at hagain
          obtain ⟨hmodule, hcandidate⟩ :=
            reportName_spec (keep { q with toWorkbench := w } loaded) loaded
          obtain ⟨hmodule', hcandidate'⟩ :=
            reportName_spec (keep ⟨⟨w.module, log⟩, q.candidate⟩ loaded) loaded
          rw [finalState_ok, hmodule, module_keep, hagain]
          exact .ok () (hmodule'.trans hmodule.symm) (hcandidate'.trans hcandidate.symm)

/-- Preparing takes filler out of the handler alone. -/
theorem prepare_reworked (hr : r.normalizer = .stripping filler) (resource : SealedResource)
    (q : Inquiry) : q.module.Reworked (Body.strip filler) (· = resource.method)
      (finalState (r.prepare resource q)).module :=
  (r.prepare_rewritten resource q).imp fun hrewrites =>
    Normalizer.eq_or_eq_of_rewrites_stripping (hr ▸ hrewrites)

/-- Up to the recovery of the resource, the detector repeats itself, if the search for the
initializer does not come to the handler. -/
theorem locateInitializer_repeats (hr : r.normalizer = .stripping filler)
    (hl : r.locator.normalizer = .stripping filler)
    (houtside : ∀ resource, q.candidate.sealed? = some resource →
      ¬r.locator.Visits q.module q.candidate.type resource.method) :
    Repeats r.locateInitializer q := by
  intro log
  cases hconstructor : InitializerLocator.constructor? q.module q.candidate.type with
  | none =>
      have hfails : ∀ log, r.locateInitializer ⟨⟨q.module, log⟩, q.candidate⟩ =
          .error (missing q .instanceConstructor) ⟨⟨q.module, log⟩, q.candidate⟩ := by
        intro log
        simp only [locateInitializer, hconstructor]
        rfl
      rw [hfails q.log, finalState_error, hfails log]
      exact .error _ rfl rfl
  | some constructor =>
      obtain ⟨found, w, hlocate, -⟩ := InitializerLocator.exists_locate hl hconstructor
      have hsettled := InitializerLocator.settled_of_locate_self hl hconstructor hlocate
      have hagain := locateInitializer_eq (q := ⟨⟨w.module, log⟩, q.candidate⟩)
        hsettled.constructor? (hsettled.locate log)
      rw [locateInitializer_eq hconstructor hlocate]
      cases found with
      | none =>
          rw [finalState_error, hagain]
          exact .error _ rfl rfl
      | some t =>
          cases hsealed : q.candidate.sealed? with
          | none =>
              simp only [hsealed] at hagain ⊢
              rw [finalState_ok, Inquiry.module_noteInitializer, hagain]
              exact .ok () rfl rfl
          | some resource =>
              cases hread : resource.isInitialized with
              | true =>
                  simp only [hsealed, hread, if_true] at hagain ⊢
                  rw [finalState_ok, Inquiry.module_noteInitializer, hagain]
                  exact .ok () rfl rfl
              | false =>
                  simp only [hread, Bool.false_eq_true, if_false]
                  -- the handler is stripped after the search, which does not come to it
                  have hsince := prepare_reworked hr resource
                    (Inquiry.noteInitializer { q with toWorkbench := w } t)
                  rw [Inquiry.module_noteInitializer] at hsince
                  have hsettled' := InitializerLocator.settled_of_locate hl hconstructor hlocate
                    hsince fun u hvisit hu => houtside resource hsealed (hu ▸ hvisit)
                  rw [locateInitializer_eq (q := ⟨⟨_, log⟩, q.candidate⟩) hsettled'.constructor?
                    (hsettled'.locate log)]
                  simp only [hsealed, hread, Bool.false_eq_true, if_false]
                  exact prepare_repeats hr resource _ _

/-- Recovering depends on the module and the candidate, and not on the log. -/
theorem recover_eqUpToLog {q' : Inquiry} (hmodule : q'.module = q.module)
    (hcandidate : q'.candidate = q.candidate) : EqUpToLog (r.recover q) (r.recover q') := by
  rw [recover, recover, hcandidate]
  cases q.candidate.sealed? with
  | none => exact .ok none hmodule hcandidate
  | some resource =>
      simp only
      cases resource.recovered with
      | some done => exact .ok (some done) hmodule hcandidate
      | none =>
          simp only
          split
          · exact .ok none hmodule hcandidate
          · cases resource.resourceName with
            | none => exact .ok none hmodule hcandidate
            | some name =>
                simp only [decode, hmodule]
                cases resource.decrypt q.module with
                | error fault => exact .error _ hmodule hcandidate
                | ok text =>
                    simp only
                    cases r.codec.decompress text with
                    | error cause => exact .error _ hmodule hcandidate
                    | ok data =>
                        refine .ok _ hmodule ?_
                        simp only [keep, Inquiry.record, hcandidate]

end Reactor

namespace SmartAssembly

variable {s : SmartAssembly} {q : Inquiry}

/-- The detector repeats itself. -/
theorem locateInitializer_repeats (hl : s.locator.normalizer = .stripping filler) :
    Repeats s.locateInitializer q := by
  intro log
  cases hconstructor : InitializerLocator.constructor? q.module q.candidate.type with
  | none =>
      have hends : ∀ log, s.locateInitializer ⟨⟨q.module, log⟩, q.candidate⟩ =
          .ok () ⟨⟨q.module, log⟩, q.candidate⟩ := by
        intro log
        simp only [locateInitializer, hconstructor]
      rw [hends q.log, finalState_ok, hends log]
      exact .ok () rfl rfl
  | some constructor =>
      obtain ⟨found, w, hlocate, -⟩ := InitializerLocator.exists_locate hl hconstructor
      have hsettled := InitializerLocator.settled_of_locate_self hl hconstructor hlocate
      have hagain := locateInitializer_eq (q := ⟨⟨w.module, log⟩, q.candidate⟩)
        hsettled.constructor? (hsettled.locate log)
      rw [locateInitializer_eq hconstructor hlocate]
      cases found with
      | none =>
          rw [finalState_ok, hagain]
          exact .ok () rfl rfl
      | some t =>
          rw [finalState_ok, Inquiry.module_noteInitializer, hagain]
          exact .ok () rfl rfl

theorem recover_eqUpToLog {q' : Inquiry} (hmodule : q'.module = q.module)
    (hcandidate : q'.candidate = q.candidate) : EqUpToLog (recover q) (recover q') := by
  rw [recover, recover, hcandidate]
  cases q.candidate.assembly? with
  | none => exact .ok none hmodule hcandidate
  | some info => exact .ok none hmodule hcandidate

end SmartAssembly

/-! ### Following a candidate up -/

/-- Where recovering depends on module and candidate alone and leaves the module as it is, following
a candidate up repeats itself if the search for the initializer does. -/
theorem Engine.followUp_repeats {d : Detector} {q : Inquiry}
    (hlocate : Repeats d.locateInitializer q)
    (hrecover : ∀ {q q' : Inquiry}, q'.module = q.module → q'.candidate = q.candidate →
      EqUpToLog (d.recover q) (d.recover q'))
    (hmodule : ∀ q, (finalState (d.recover q)).module = q.module) : Repeats (followUp d) q := by
  intro log
  cases hlocated : d.locateInitializer q with
  | error e located =>
      have hagain := hlocate log
      rw [hlocated, finalState_error] at hagain
      obtain ⟨located', hlocated', hsame, hcandidate⟩ := hagain.exists_error
      simp only [followUp, hlocated, finalState_error, hlocated']
      exact .error e hsame hcandidate
  | ok u located =>
      have hagain := hlocate log
      rw [hlocated, finalState_ok] at hagain
      obtain ⟨located', hlocated', hsame, hcandidate⟩ := hagain.exists_ok
      simp only [followUp, hlocated, hmodule located, hlocated']
      exact hrecover hsame hcandidate

end ResolverRecovery
