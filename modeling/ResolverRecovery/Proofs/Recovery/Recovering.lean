import ResolverRecovery.Proofs.Recovery.Locating
import ResolverRecovery.Recovery.Protector.Reactor

/-!
# Recovering a sealed resource

With filler stripped, the stages of a recovery do what they are there for as long as what they look
for is in the module: the handler is stripped and read, the initializer is found, and the resource
is decrypted and decoded.  Every stage rewrites bodies alone, so that what one stage reads is what
was there before the others.

## Main definitions

* `SealedResource.Discloses`: code names a resource, a key and a vector.
* `Reactor.Staged`: a module has what a recovery looks for.

## Main statements

* `Reactor.cleanHandler_spec`, `Reactor.prepare_spec`: how a handler is read.
* `Reactor.locateInitializer_spec`: what happens up to the recovery of the resource.
* `Reactor.recover_spec`: the recovery of the resource.
-/

namespace ResolverRecovery

/-! ### What a handler names -/

namespace SealedResource

variable {m m' : Module}

/-- The code names an embedded resource, and the first two of its arrays are fit to be a key and an
initialization vector. -/
structure Discloses (m : Module) (code : List Instruction) (name : String)
    (key vector : List UInt8) : Prop where
  name : nameIn? m code = some name
  arrays : ∃ rest, arraysIn m code = key :: vector :: rest
  /-- The key is of a length that some cipher takes. -/
  key : Cipher.KeySchedule.isKeyLength key.length = true
  vector : vector.length = Cipher.Block.size

/-- What is known of a resource once its name, a key and a vector have been read. -/
def loaded (r : SealedResource) (name : String) (key vector : List UInt8) : SealedResource :=
  { r with isInitialized := true, resourceName := some name, key := key, vector := vector }

namespace Discloses

variable {code : List Instruction} {name : String} {key vector : List UInt8}

/-- What code discloses depends on the types and the resources of a module only. -/
theorem congr (h : Discloses m code name key vector) (htypes : m'.types = m.types)
    (hresources : m'.resources = m.resources) : Discloses m' code name key vector where
  name := by
    rw [← h.name]
    simp only [nameIn?, Module.resource?, hresources]
  arrays := by
    obtain ⟨rest, hrest⟩ := h.arrays
    refine ⟨rest, ?_⟩
    rw [← hrest]
    simp only [arraysIn, Module.resolveField?, htypes]
  key := h.key
  vector := h.vector

theorem keyMaterial_eq (h : Discloses m code name key vector) :
    keyMaterial name (arraysIn m code) = .ok (key, vector) := by
  obtain ⟨rest, hrest⟩ := h.arrays
  simp only [hrest, keyMaterial, h.key, h.vector, Bool.not_true, Bool.false_eq_true, if_false,
    ne_eq, not_true_eq_false]

/-- A handler is read for what its code discloses. -/
theorem load_eq {r : SealedResource} {b : Body} (h : Discloses m b.code name key vector)
    (hbody : (m.method? r.method).bind MethodDecl.body = some b) :
    load m r = .ok () (r.loaded name key vector) := by
  obtain ⟨d, hd, hdb⟩ := Option.bind_eq_some_iff.mp hbody
  have hcode : d.code = b.code := by rw [MethodDecl.code, hdb, Option.map_some, Option.getD_some]
  rw [load, hd]
  simp only [hcode, h.name, h.keyMaterial_eq, loaded]

end Discloses

end SealedResource

namespace Reactor

variable {r : Reactor} {filler : List Opcode}

/-! ### Reading the handler -/

/-- The handler is stripped, and nothing else is touched. -/
theorem cleanHandler_spec (hr : r.normalizer = .stripping filler) {w : Workbench} {t : Token}
    {b : Body} (hbody : (w.module.method? t).bind MethodDecl.body = some b) :
    ∃ w', r.cleanHandler t b w = .ok () w' ∧
      w.module.Reworked (Body.strip filler) (· = t) w'.module ∧
      (w'.module.method? t).bind MethodDecl.body = some (b.strip filler) := by
  simp only [cleanHandler, hr, Normalizer.stripping]
  by_cases hsame : b.strip filler = b
  · refine ⟨w, ?_, .refl w.module, by rw [hbody, hsame]⟩
    simp only [hsame, if_true]
  · refine ⟨_, rfl, ?_, ?_⟩
    · simp only [if_neg hsame, if_true]
      refine Module.Rewritten.setBody ?_ hbody ?_ <;> rfl
    · obtain ⟨d, hd, hdb⟩ := Option.bind_eq_some_iff.mp hbody
      simp only [if_neg hsame, if_true, Module.method?_setBody, Workbench.record, hd,
        Option.map_some, Option.bind_some]

/-- Recording changes neither module nor candidate. -/
theorem reportName_spec (q : Inquiry) (resource : SealedResource) :
    (reportName q resource).module = q.module ∧
      (reportName q resource).candidate = q.candidate := by
  rw [reportName]
  split <;> exact ⟨rfl, rfl⟩

/-- A handler is stripped, and read for what its code discloses. -/
theorem prepare_spec (hr : r.normalizer = .stripping filler) {q : Inquiry}
    {resource : SealedResource} {b : Body} {name : String} {key vector : List UInt8}
    (hbody : (q.module.method? resource.method).bind MethodDecl.body = some b)
    (hdiscloses : SealedResource.Discloses q.module (b.strip filler).code name key vector) :
    ∃ q', r.prepare resource q = .ok () q' ∧
      q.module.Reworked (Body.strip filler) (· = resource.method) q'.module ∧
      q'.candidate.sealed? = some (resource.loaded name key vector) := by
  obtain ⟨w, hclean, hreworked, hstripped⟩ := cleanHandler_spec hr (w := q.toWorkbench) hbody
  have hload := (hdiscloses.congr hreworked.types hreworked.resources).load_eq hstripped
  let loaded := resource.loaded name key vector
  obtain ⟨hmodule, hcandidate⟩ := reportName_spec (keep { q with toWorkbench := w } loaded) loaded
  refine ⟨reportName (keep { q with toWorkbench := w } loaded) loaded, ?_, ?_, ?_⟩
  · rw [prepare, hbody]
    simp only [Inquiry.onWorkbench, hclean, hload]
    rfl
  · rw [hmodule]
    exact hreworked
  · rw [hcandidate]
    rfl

/-- A module has what a recovery looks for: its type has an initializer, and the handler, which is
not a candidate for it, discloses a resource. -/
structure Staged (r : Reactor) (filler : List Opcode) (m : Module) (t : TypeDecl) (handler : Token)
    (name : String) (key vector : List UInt8) : Prop where
  /-- Look-up by token can be relied on. -/
  wellFormed : m.WellFormed
  /-- The type has a constructor and an initializer that calls it. -/
  initializer : ∃ constructor d b,
    (m.methodsOf t).find? MethodDecl.isConstructor = some constructor ∧ d ∈ m.methodsOf t ∧
      Initializes filler r.locator.maxLocals t constructor d b
  /-- The search for the initializer does not come to the handler. -/
  outside : handler ∉ r.locator.candidates m t
  /-- The stripped handler discloses a resource. -/
  discloses : ∃ b, (m.method? handler).bind MethodDecl.body = some b ∧
    SealedResource.Discloses m (b.strip filler).code name key vector

/-- If the handler has not been read, the initializer is found and then the handler read. -/
theorem locateInitializer_spec (hr : r.normalizer = .stripping filler)
    (hl : r.locator.normalizer = .stripping filler) {q : Inquiry} {t : TypeDecl}
    {resource : SealedResource} {name : String} {key vector : List UInt8}
    (hstaged : r.Staged filler q.module t resource.method name key vector)
    (htype : q.module.type? q.candidate.type = some t)
    (hsealed : q.candidate.sealed? = some resource) (hunread : resource.isInitialized = false) :
    ∃ q', r.locateInitializer q = .ok () q' ∧
      q.module.Reworked (Body.strip filler)
        (fun u => u ∈ r.locator.candidates q.module t ∨ u = resource.method) q'.module ∧
      q'.candidate.sealed? = some (resource.loaded name key vector) := by
  obtain ⟨hwf, ⟨constructor, d, b, hconstructor, hd, hinit⟩, houtside, body, hbody, hdiscloses⟩ :=
    hstaged
  obtain ⟨found, w, hlocate, hreworked⟩ :=
    InitializerLocator.locate_spec hl (w := q.toWorkbench) hwf htype hd hinit
  -- the search has rewritten other bodies, so the handler still discloses what it did before
  have hhandler : (w.module.method? resource.method).bind MethodDecl.body = some body := by
    rw [hreworked.method?_eq houtside]
    exact hbody
  let noted := Inquiry.noteInitializer { q with toWorkbench := w } found
  have hkept : SealedResource.Discloses noted.module (body.strip filler).code name key vector :=
    hdiscloses.congr hreworked.types hreworked.resources
  obtain ⟨q', hprepare, hreworked', hcandidate⟩ := prepare_spec hr (q := noted) hhandler hkept
  refine ⟨q', ?_, ?_, hcandidate⟩
  · have hnoted : (Inquiry.noteInitializer { q with toWorkbench := w } found).candidate.sealed? =
        some resource := hsealed
    rw [locateInitializer]
    simp only [InitializerLocator.constructor?_eq hwf htype hconstructor, Inquiry.onWorkbench,
      hlocate, hnoted, hunread, Bool.false_eq_true, if_false]
    exact hprepare
  · exact Module.Reworked.trans (Body.strip_strip filler) (hreworked.mono fun _ ht => .inl ht)
      (hreworked'.mono fun _ ht => .inr ht)

/-! ### Recovery -/

/-- A resource that has been read is recovered, if it can be decrypted and decoded. -/
theorem recover_spec {q : Inquiry} {resource : SealedResource} {name : String}
    {text data : List UInt8} (hsealed : q.candidate.sealed? = some resource)
    (hfresh : resource.recovered = none) (hread : resource.isInitialized = true)
    (hname : resource.resourceName = some name) (hdecrypt : resource.decrypt q.module = .ok text)
    (hdecode : r.codec.decompress text = .ok data) :
    ∃ q', r.recover q = .ok (some ⟨name, data⟩) q' ∧ q'.module = q.module := by
  rw [recover, hsealed]
  simp only [hfresh, hread, hname, Reactor.decode, hdecrypt, hdecode]
  exact ⟨_, rfl, rfl⟩

end Reactor

end ResolverRecovery
