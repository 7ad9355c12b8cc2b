import ResolverRecovery.Proofs.Recovery.Framing

/-!
# What a stage that succeeds has found

A stage that ends without an error has found what it is there for, whatever the normalizer has made
of the bodies on the way.  What it has found is in the module as the stage leaves it.

## Main definitions

* `SealedResource.Reading`: the ways in which the load of a resource ends.

## Main statements

* `InitializerLocator.locate_eq_some`: the method that the search returns sets its type up.
* `SealedResource.load_eq_ok`, `SealedResource.decrypt_eq_ok`: what a handler was read for, and what
  a decryption goes by.
* `Reactor.locateInitializer_eq`, `SmartAssembly.locateInitializer_eq`: what follows the search for
  an initializer.
* `Reactor.locateInitializer_eq_ok`: a prepared candidate has an initializer and a handler that was
  read.
* `Reactor.exists_discloses_of_recover`: a recovered resource was decrypted and decoded with what
  the prepared handler discloses.
-/

namespace ResolverRecovery

/-- The body of the method is what the normalizer has made of it. -/
theorem Workbench.body_storeNormalized {w : Workbench} {t : Token} {b b' : Body}
    (hbody : (w.module.method? t).bind MethodDecl.body = some b) (message : String) :
    ((w.storeNormalized t b b' message).module.method? t).bind MethodDecl.body = some b' := by
  rw [storeNormalized]
  split
  · rename_i hsame
    rw [hsame]
    exact hbody
  · obtain ⟨d, hd, -⟩ := Option.bind_eq_some_iff.mp hbody
    simp only [record, Module.method?_setBody, if_true, hd, Option.map_some, Option.bind_some]

/-! ### The search for an initializer -/

namespace InitializerLocator

variable {l : InitializerLocator}

/-- The walk returns a candidate of which the body, as it is stored by then, qualifies. -/
theorem firstQualified_eq_some {owner : TypeRef} {constructor : MethodRef} {tokens : List Token}
    {w w' : Workbench} {t : Token}
    (h : l.firstQualified owner constructor tokens w = .ok (some t) w') :
    t ∈ tokens ∧ ∃ b, (w'.module.method? t).bind MethodDecl.body = some b ∧
      qualifies owner constructor b.code = true := by
  induction tokens generalizing w with
  | nil => cases h
  | cons first rest ih =>
      rw [firstQualified] at h
      cases hbody : (w.module.method? first).bind MethodDecl.body with
      | none =>
          simp only [hbody] at h
          exact (ih h).imp_left (List.mem_cons_of_mem first)
      | some body =>
          simp only [hbody] at h
          split at h
          · cases h
          · rename_i normalized hnormalize
            split at h
            · rename_i hqualifies
              cases h
              exact ⟨List.mem_cons_self, normalized, Workbench.body_storeNormalized hbody _,
                hqualifies⟩
            · exact (ih h).imp_left (List.mem_cons_of_mem first)

theorem locate_eq_some {type : Token} {constructor : MethodRef} {w w' : Workbench} {t : Token}
    (h : l.locate type constructor w = .ok (some t) w') :
    ∃ owner, w.module.type? type = some owner ∧ t ∈ l.candidates w.module owner ∧
      ∃ b, (w'.module.method? t).bind MethodDecl.body = some b ∧
        qualifies owner.reference constructor b.code = true := by
  rw [locate] at h
  split at h
  · cases h
  · rename_i owner howner
    exact ⟨owner, howner, firstQualified_eq_some h⟩

/-- A constructor is found on the type, and referred to on it. -/
theorem constructor?_eq_some {m : Module} (hwf : m.WellFormed) {type : Token} {c : MethodRef}
    (h : constructor? m type = some c) :
    ∃ owner d, m.type? type = some owner ∧
      (m.methodsOf owner).find? MethodDecl.isConstructor = some d ∧
      c = d.reference owner.reference := by
  have hfound := h
  rw [constructor?] at hfound
  obtain ⟨owner, howner, hfound⟩ := Option.bind_eq_some_iff.mp hfound
  obtain ⟨d, hd, -⟩ := Option.bind_eq_some_iff.mp hfound
  rw [constructor?_eq hwf howner hd] at h
  exact ⟨owner, d, howner, hd, (Option.some.inj h).symm⟩

end InitializerLocator

/-! ### What a handler is read for -/

namespace SealedResource

variable {m : Module}

theorem keyMaterial_eq_ok {name : String} {arrays : List (List UInt8)} {key vector : List UInt8}
    (h : keyMaterial name arrays = .ok (key, vector)) :
    (∃ rest, arrays = key :: vector :: rest) ∧
      Cipher.KeySchedule.isKeyLength key.length = true ∧ vector.length = Cipher.Block.size := by
  match arrays with
  | [] => cases h
  | [_] => cases h
  | key' :: vector' :: rest =>
      rw [keyMaterial] at h
      split at h
      · cases h
      · rename_i hkey
        split at h
        · cases h
        · rename_i hvector
          cases h
          simp only [Bool.not_eq_true', Bool.not_eq_false] at hkey
          exact ⟨⟨rest, rfl⟩, hkey, not_not.mp hvector⟩

/-- The ways in which a load ends: there is no handler; the handler names no resource; it names one
for which it discloses no key and vector; it discloses all three. -/
inductive Reading (m : Module) (r : SealedResource) :
    EStateM.Result Error SealedResource Unit → Prop
  | unknown (hmethod : m.method? r.method = none) :
      Reading m r (.error (.malformed (.unknownHandler r.method)) r)
  | nameless {d : MethodDecl} (hmethod : m.method? r.method = some d)
      (hname : nameIn? m d.code = none) :
      Reading m r (.ok () { r with isInitialized := true, resourceName := none })
  | undisclosed {d : MethodDecl} {name : String} {fault : DecryptionFault}
      (hmethod : m.method? r.method = some d) (hname : nameIn? m d.code = some name)
      (hrefused : ∀ key vector, ¬Discloses m d.code name key vector) :
      Reading m r (.error (.decryption fault)
        { r with isInitialized := true, resourceName := some name })
  | disclosed {d : MethodDecl} {name : String} {key vector : List UInt8}
      (hmethod : m.method? r.method = some d)
      (hdiscloses : Discloses m d.code name key vector) :
      Reading m r (.ok () (r.loaded name key vector))

theorem load_reading (m : Module) (r : SealedResource) : Reading m r (load m r) := by
  cases hmethod : m.method? r.method with
  | none =>
      simp only [load, hmethod]
      exact .unknown hmethod
  | some d =>
      cases hname : nameIn? m d.code with
      | none =>
          simp only [load, hmethod, hname]
          exact .nameless hmethod hname
      | some name =>
          cases hmaterial : keyMaterial name (arraysIn m d.code) with
          | error fault =>
              simp only [load, hmethod, hname, hmaterial]
              refine .undisclosed hmethod hname fun key vector hdiscloses => ?_
              cases hmaterial.symm.trans hdiscloses.keyMaterial_eq
          | ok material =>
              simp only [load, hmethod, hname, hmaterial]
              obtain ⟨harrays, hkey, hvector⟩ := keyMaterial_eq_ok hmaterial
              exact .disclosed hmethod ⟨hname, harrays, hkey, hvector⟩

/-- A handler that was read either names no resource or discloses one. -/
theorem load_eq_ok {r r' : SealedResource} (h : load m r = .ok () r') :
    ∃ d, m.method? r.method = some d ∧
      (r' = { r with isInitialized := true, resourceName := none } ∨
        ∃ name key vector, Discloses m d.code name key vector ∧ r' = r.loaded name key vector) := by
  have hreading := load_reading m r
  rw [h] at hreading
  cases hreading with
  | nameless hmethod hname => exact ⟨_, hmethod, .inl rfl⟩
  | disclosed hmethod hdiscloses => exact ⟨_, hmethod, .inr ⟨_, _, _, hdiscloses, rfl⟩⟩

/-- What is decrypted is an embedded resource. -/
theorem decrypt_eq_ok {r : SealedResource} {name : String} {text : List UInt8}
    (hname : r.resourceName = some name) (h : r.decrypt m = .ok text) :
    ∃ stored, m.resource? name = some stored ∧
      Cipher.decrypt? r.key r.vector stored.data = some text := by
  simp only [decrypt, hname] at h
  split at h
  · cases h
  · rename_i stored hstored
    split at h
    · cases h
    · rename_i text' htext
      cases h
      exact ⟨stored, hstored, htext⟩

end SealedResource

/-! ### The stages of the detectors -/

namespace Reactor

variable {r : Reactor} {q q' : Inquiry}

/-- A handler that was prepared has been read as it is stored by then. -/
theorem prepare_eq_ok {resource : SealedResource} (h : r.prepare resource q = .ok () q') :
    ∃ loaded, SealedResource.load q'.module resource = .ok () loaded ∧
      q'.candidate = { q.candidate with payload := .sealed loaded } := by
  rw [prepare] at h
  split at h
  · cases h
  · rename_i body _
    split at h
    · cases h
    · rename_i u cleaned hclean
      have hcandidate : cleaned.candidate = q.candidate := by
        have hfinal := Inquiry.finalState_onWorkbench (r.cleanHandler resource.method body) q
        rw [hclean, finalState_ok] at hfinal
        rw [hfinal]
      split at h
      · cases h
      · rename_i u' loaded hload
        cases h
        obtain ⟨hmodule, hkept⟩ := reportName_spec (keep cleaned loaded) loaded
        refine ⟨loaded, ?_, ?_⟩
        · rw [hmodule]
          exact hload
        · rw [hkept, ← hcandidate]
          rfl

/-- Where the search for an initializer ends, the initializer is noted and the handler prepared. -/
theorem locateInitializer_eq {constructor : MethodRef} {found : Option Token} {w : Workbench}
    (hconstructor : InitializerLocator.constructor? q.module q.candidate.type = some constructor)
    (hlocate : r.locator.locate q.candidate.type constructor q.toWorkbench = .ok found w) :
    r.locateInitializer q =
      match found with
      | none => .error (missing { q with toWorkbench := w } .initializerMethod)
          { q with toWorkbench := w }
      | some t =>
        match q.candidate.sealed? with
        | none => .ok () (Inquiry.noteInitializer { q with toWorkbench := w } t)
        | some resource =>
          if resource.isInitialized then
            .ok () (Inquiry.noteInitializer { q with toWorkbench := w } t)
          else
            r.prepare resource (Inquiry.noteInitializer { q with toWorkbench := w } t) := by
  cases found with
  | none => simp only [locateInitializer, hconstructor, Inquiry.onWorkbench, hlocate]
  | some t =>
      simp only [locateInitializer, hconstructor, Inquiry.onWorkbench, hlocate]
      rfl

/-- An initializer was found, and then the handler prepared unless it has been read before. -/
theorem locateInitializer_eq_ok_or (h : r.locateInitializer q = .ok () q') :
    ∃ constructor t w,
      InitializerLocator.constructor? q.module q.candidate.type = some constructor ∧
      r.locator.locate q.candidate.type constructor q.toWorkbench = .ok (some t) w ∧
      (((∀ resource, q.candidate.sealed? = some resource → resource.isInitialized = true) ∧
          q' = Inquiry.noteInitializer { q with toWorkbench := w } t) ∨
        ∃ resource, q.candidate.sealed? = some resource ∧ resource.isInitialized = false ∧
          r.prepare resource (Inquiry.noteInitializer { q with toWorkbench := w } t) =
            .ok () q') := by
  cases hconstructor : InitializerLocator.constructor? q.module q.candidate.type with
  | none =>
      simp only [locateInitializer, hconstructor] at h
      cases h
  | some constructor =>
      cases hlocate : r.locator.locate q.candidate.type constructor q.toWorkbench with
      | error e w =>
          simp only [locateInitializer, hconstructor, Inquiry.onWorkbench, hlocate] at h
          cases h
      | ok found w =>
          rw [locateInitializer_eq hconstructor hlocate] at h
          cases found with
          | none => cases h
          | some t =>
              refine ⟨constructor, t, w, rfl, hlocate, ?_⟩
              cases hsealed : q.candidate.sealed? with
              | none =>
                  simp only [hsealed] at h
                  cases h
                  refine .inl ⟨fun resource hresource => ?_, rfl⟩
                  cases hresource
              | some resource =>
                  cases hread : resource.isInitialized with
                  | true =>
                      simp only [hsealed, hread, if_true] at h
                      cases h
                      exact .inl ⟨fun _ hresource => Option.some.inj hresource ▸ hread, rfl⟩
                  | false =>
                      simp only [hsealed, hread, Bool.false_eq_true, if_false] at h
                      exact .inr ⟨resource, rfl, hread, h⟩

/-- If nothing but the handler is known so far, an initializer was found and then the handler
prepared. -/
theorem locateInitializer_eq_ok {handler : Token}
    (hsealed : q.candidate.sealed? = some (.ofHandler handler))
    (h : r.locateInitializer q = .ok () q') :
    ∃ constructor t w,
      InitializerLocator.constructor? q.module q.candidate.type = some constructor ∧
      r.locator.locate q.candidate.type constructor q.toWorkbench = .ok (some t) w ∧
      r.prepare (.ofHandler handler) (Inquiry.noteInitializer { q with toWorkbench := w } t) =
        .ok () q' := by
  obtain ⟨constructor, t, w, hconstructor, hlocate, ⟨hread, -⟩ | ⟨_, hresource, -, hprepare⟩⟩ :=
    locateInitializer_eq_ok_or h
  · cases hread _ hsealed
  · cases hsealed.symm.trans hresource
    exact ⟨constructor, t, w, hconstructor, hlocate, hprepare⟩

/-- A resource that was recovered now was decrypted and decoded. -/
theorem recover_eq_some {resource : SealedResource} {recovered : NamedResource}
    (hsealed : q.candidate.sealed? = some resource) (hfresh : resource.recovered = none)
    (h : r.recover q = .ok (some recovered) q') :
    resource.resourceName = some recovered.name ∧
      (∃ text, resource.decrypt q.module = .ok text ∧
        r.codec.decompress text = .ok recovered.data) ∧
      q'.candidate = { q.candidate with
        payload := .sealed { resource with recovered := some recovered } } := by
  have hrecovery := r.recovery hsealed
  rw [h] at hrecovery
  cases hrecovery with
  | kept hdone => cases hfresh.symm.trans hdone
  | fresh _ _ hname hdecrypt hdecode => exact ⟨hname, ⟨_, hdecrypt, hdecode⟩, rfl⟩

/-- If nothing but the handler was known, a recovered resource is one that the prepared handler
discloses, decrypted and decoded. -/
theorem exists_discloses_of_recover {handler : Token} {located : Inquiry}
    {recovered : NamedResource} (hsealed : q.candidate.sealed? = some (.ofHandler handler))
    (hlocate : r.locateInitializer q = .ok () located)
    (hrecover : r.recover located = .ok (some recovered) q') :
    ∃ b key vector stored text,
      (located.module.method? handler).bind MethodDecl.body = some b ∧
      SealedResource.Discloses located.module b.code recovered.name key vector ∧
      located.module.resource? recovered.name = some stored ∧
      Cipher.decrypt? key vector stored.data = some text ∧
      r.codec.decompress text = .ok recovered.data := by
  obtain ⟨-, t, w, -, -, hprepare⟩ := locateInitializer_eq_ok hsealed hlocate
  obtain ⟨loaded, hload, hcandidate⟩ := prepare_eq_ok hprepare
  have hloaded : located.candidate.sealed? = some loaded := by rw [hcandidate]; rfl
  obtain ⟨d, hd, hread⟩ := SealedResource.load_eq_ok hload
  rcases hread with rfl | ⟨name, key, vector, hdiscloses, rfl⟩
  · -- without a name there is nothing to recover
    exact nomatch (recover_eq_some hloaded rfl hrecover).1
  · obtain ⟨hname, ⟨text, htext, hdata⟩, -⟩ := recover_eq_some hloaded rfl hrecover
    cases Option.some.inj hname
    obtain ⟨stored, hstored, hdecrypt⟩ := SealedResource.decrypt_eq_ok hname htext
    cases hbody : d.body with
    | none =>
        -- a method without a body names nothing
        have hnamed := hdiscloses.name
        rw [MethodDecl.code, hbody] at hnamed
        cases hnamed
    | some b =>
        rw [MethodDecl.code, hbody] at hdiscloses
        refine ⟨b, key, vector, stored, text, ?_, hdiscloses, hstored, hdecrypt, hdata⟩
        exact Option.bind_eq_some_iff.mpr ⟨d, hd, hbody⟩

theorem module_of_recover_eq_ok {found : Option NamedResource} (h : r.recover q = .ok found q') :
    q'.module = q.module := by
  have hmodule := r.recover_module q
  rwa [h, finalState_ok] at hmodule

/-- Recovering concerns the payload of the candidate alone. -/
theorem candidate_of_recover_eq_ok {found : Option NamedResource}
    (h : r.recover q = .ok found q') :
    ∃ payload, q'.candidate = { q.candidate with payload := payload } := by
  cases hsealed : q.candidate.sealed? with
  | none =>
      cases (r.recover_of_unsealed hsealed).symm.trans h
      exact ⟨_, rfl⟩
  | some resource =>
      have hrecovery := r.recovery hsealed
      rw [h] at hrecovery
      cases hrecovery <;> exact ⟨_, rfl⟩

end Reactor

namespace SmartAssembly

variable {s : SmartAssembly} {q q' : Inquiry}

/-- Where the search for an initializer ends, the initializer is noted if there is one. -/
theorem locateInitializer_eq {constructor : MethodRef} {found : Option Token} {w : Workbench}
    (hconstructor : InitializerLocator.constructor? q.module q.candidate.type = some constructor)
    (hlocate : s.locator.locate q.candidate.type constructor q.toWorkbench = .ok found w) :
    s.locateInitializer q =
      match found with
      | none => .ok () { q with toWorkbench := w }
      | some t => .ok () (Inquiry.noteInitializer { q with toWorkbench := w } t) := by
  cases found <;> simp only [locateInitializer, hconstructor, Inquiry.onWorkbench, hlocate]

/-- Only the initializer of the candidate is noted. -/
theorem candidate_of_locateInitializer_eq_ok (h : s.locateInitializer q = .ok () q') :
    ∃ initializer, q'.candidate = { q.candidate with initializer := initializer } := by
  cases hconstructor : InitializerLocator.constructor? q.module q.candidate.type with
  | none =>
      simp only [locateInitializer, hconstructor] at h
      cases h
      exact ⟨_, rfl⟩
  | some constructor =>
      cases hlocate : s.locator.locate q.candidate.type constructor q.toWorkbench with
      | error e w =>
          simp only [locateInitializer, hconstructor, Inquiry.onWorkbench, hlocate] at h
          cases h
      | ok found w =>
          rw [locateInitializer_eq hconstructor hlocate] at h
          cases found with
          | none =>
              cases h
              exact ⟨_, rfl⟩
          | some t =>
              cases h
              exact ⟨some t, rfl⟩

/-- There is nothing to recover. -/
theorem recover_eq_ok {found : Option NamedResource} (h : recover q = .ok found q') :
    found = none ∧ q'.candidate = q.candidate := by
  rw [recover] at h
  split at h
  · cases h
    exact ⟨rfl, rfl⟩
  · cases h
    exact ⟨rfl, rfl⟩

end SmartAssembly

end ResolverRecovery
