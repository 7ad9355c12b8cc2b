import ResolverRecovery.Proofs.Metadata.Resources
import ResolverRecovery.Proofs.Recovery.Detecting
import ResolverRecovery.Proofs.Recovery.Ending
import ResolverRecovery.Proofs.Recovery.RoundTrip
import ResolverRecovery.Proofs.Recovery.Succeeding

/-!
# What a recovery leaves as it was

With filler stripped, a recovery takes filler out of the handler and of the candidates for the
initializer, and stores one resource if it succeeds and is asked to.  Everything else in the module
stays, also if the recovery fails half-way.

## Main definitions

* `Engine.MayStrip`: the methods of which a recovery may take the filler out.
* `Engine.Framed`: what a recovery leaves of a module.

## Main statements

* `Reactor.not_visits_handler`: the search for an initializer leaves the handler alone.
* `Engine.followUp_rewritten`: a candidate is followed up by rewriting bodies of its type.
* `Engine.process_framed`: every recovery leaves everything else as it was.
-/

namespace ResolverRecovery

/-- The search for an initializer does not come to the handler of a detected type. -/
theorem Reactor.not_visits_handler {m : Module} (hwf : m.WellFormed) {r : Reactor} {t : TypeDecl}
    (ht : t ∈ m.types) {c : Candidate} (hclassify : r.classify m t = some c)
    (l : InitializerLocator) (type : Token) : ¬l.Visits m type c.handler := by
  rintro ⟨owner, howner, hcandidate⟩
  obtain ⟨handler, hhandler, hish, rfl⟩ := Reactor.classify_eq_some hclassify
  exact handler_not_mem_candidates hwf ht (Module.mem_of_type? howner) hhandler hish hcandidate

namespace Engine

variable {config : Config} {collaborators : Collaborators} {m m' : Module}

/-! ### Following a candidate up -/

theorem followUp_eq_ok {d : Detector} {q q' : Inquiry} {found : Option NamedResource}
    (h : followUp d q = .ok found q') :
    ∃ located, d.locateInitializer q = .ok () located ∧ d.recover located = .ok found q' := by
  rw [followUp] at h
  split at h
  · cases h
  · rename_i located hlocate
    exact ⟨located, hlocate, h⟩

/-- Where recovering leaves the module alone, only the search for the initializer touches it. -/
theorem module_followUp {d : Detector}
    (hrecover : ∀ q, (finalState (d.recover q)).module = q.module) (q : Inquiry) :
    (finalState (followUp d q)).module = (finalState (d.locateInitializer q)).module := by
  rw [followUp]
  cases d.locateInitializer q with
  | error e located => rfl
  | ok u located => exact hrecover located

/-- Whatever comes of it, a candidate is followed up by rewriting its handler and the candidates for
its initializer. -/
theorem followUp_rewritten (variant : Variant) {q : Inquiry}
    (hsealed : ∀ resource, q.candidate.sealed? = some resource →
      resource = .ofHandler q.candidate.handler) :
    q.module.Rewritten collaborators.normalizer.Rewrites
      (fun t => t = q.candidate.handler ∨
        (InitializerLocator.mk collaborators.normalizer config.maxLocals).Visits q.module
          q.candidate.type t)
      (finalState (followUp (Variant.detector config collaborators variant) q)).module := by
  cases variant with
  | reactor =>
      let r := Reactor.ofConfig config collaborators
      rw [module_followUp (d := Variant.detector config collaborators .reactor) r.recover_module]
      refine (r.locateInitializer_rewritten rfl q).mono fun t ht => ?_
      rcases ht with hvisit | ⟨resource, hresource, rfl⟩
      · exact .inr hvisit
      · rw [hsealed resource hresource]
        exact .inl rfl
  | smartAssembly =>
      let s := SmartAssembly.ofConfig config collaborators
      rw [module_followUp (d := Variant.detector config collaborators .smartAssembly)
        SmartAssembly.recover_module]
      exact (s.locateInitializer_rewritten q).mono fun t => .inr

/-- A resource that comes of a detected candidate is embedded in the module. -/
theorem exists_resource_of_followUp {d : Detector} {c : Candidate} {start : EventLog} {q : Inquiry}
    {resource : NamedResource}
    (hfind : (withCollaborators config collaborators).find? m = some (d, c))
    (hfollow : followUp d ⟨⟨m, start⟩, c⟩ = .ok (some resource) q) :
    ∃ stored, q.module.resource? resource.name = some stored := by
  obtain ⟨variant, rfl, t, -, hclassify⟩ := find?_eq_some hfind
  obtain ⟨located, hlocate, hrecover⟩ := followUp_eq_ok hfollow
  cases variant with
  | smartAssembly => exact nomatch (SmartAssembly.recover_eq_ok hrecover).1
  | reactor =>
      obtain ⟨handler, -, -, rfl⟩ := Reactor.classify_eq_some hclassify
      obtain ⟨-, -, -, stored, -, -, -, hstored, -⟩ :=
        Reactor.exists_discloses_of_recover rfl hlocate hrecover
      have hmodule : q.module = located.module := Reactor.module_of_recover_eq_ok hrecover
      exact ⟨stored, by rw [hmodule]; exact hstored⟩

/-- With filler stripped, a detected candidate is followed up by taking filler out. -/
theorem followUp_reworked {filler : List Opcode}
    (hnormalizer : collaborators.normalizer = .stripping filler) {d : Detector} {c : Candidate}
    (hfind : (withCollaborators config collaborators).find? m = some (d, c)) {start : EventLog}
    {result : EStateM.Result Error Inquiry (Option NamedResource)}
    (hfollow : followUp d ⟨⟨m, start⟩, c⟩ = result) :
    m.Reworked (Body.strip filler)
      (fun t => t = c.handler ∨
        (InitializerLocator.mk collaborators.normalizer config.maxLocals).Visits m c.type t)
      (finalState result).module := by
  obtain ⟨variant, rfl, t, -, hclassify⟩ := find?_eq_some hfind
  obtain ⟨-, -, hsealed, -⟩ := Variant.classify_eq_some hclassify
  rw [← hfollow]
  refine (followUp_rewritten variant (q := ⟨⟨m, start⟩, c⟩) hsealed).imp fun hrewrites => ?_
  rw [hnormalizer] at hrewrites
  exact Normalizer.eq_or_eq_of_rewrites_stripping hrewrites

/-! ### The frame -/

/-- The methods of which a recovery may take the filler out: the handler of the detected type, and
the static methods of that type that neither take nor return anything and have few enough local
variables. -/
def MayStrip (e : Engine) (m : Module) (d : MethodDecl) : Prop :=
  ∃ c, e.detect? m = some c ∧ (d.token = c.handler ∨
    d.owner = c.type ∧ d.isStatic = true ∧ d.signature = Signature.void ∧
      d.locals.length ≤ e.config.maxLocals)

/-- A method before and after a recovery of the module: the body is the same, or its filler was
taken out where that may be. -/
structure KeepsMethod (e : Engine) (filler : List Opcode) (m : Module) (d d' : MethodDecl) :
    Prop where
  token : d'.token = d.token
  name : d'.name = d.name
  owner : d'.owner = d.owner
  flags : d'.flags = d.flags
  signature : d'.signature = d.signature
  locals : d'.locals = d.locals
  body : d'.body = d.body ∨ e.MayStrip m d ∧ d'.body = d.body.map (Body.strip filler)

/-- The resources after a recovery: the first one of the recovered name has new data if the recovery
has stored it, and nothing else has changed. -/
def KeepsResources (m : Module) : EStateM.Result Error Module Outcome → Prop
  | .error _ m' => m'.resources = m.resources
  | .ok o m' =>
    if o.merged then
      ∃ resource, o.resource = some resource ∧
        Module.ReplacesFirst resource.name resource.data m.resources m'.resources
    else
      m'.resources = m.resources

/-- What a recovery leaves of a module. -/
structure Framed (e : Engine) (filler : List Opcode) (m : Module)
    (result : EStateM.Result Error Module Outcome) : Prop where
  name : (finalState result).name = m.name
  /-- The types are the same, and with them their fields. -/
  types : (finalState result).types = m.types
  fieldCount : (finalState result).fieldCount = m.fieldCount
  /-- There are as many methods as before, in the same order. -/
  methods : List.Forall₂ (e.KeepsMethod filler m) m.methods (finalState result).methods
  resources : KeepsResources m result

/-- Taking the filler out changes nothing but the code. -/
theorem KeepsMethod.mapBody {e : Engine} {filler : List Opcode} {d : MethodDecl}
    (h : e.MayStrip m d) : e.KeepsMethod filler m d (d.mapBody (Body.strip filler)) where
  token := rfl
  name := rfl
  owner := rfl
  flags := rfl
  signature := rfl
  locals := by
    rw [MethodDecl.locals, MethodDecl.mapBody, Option.map_map]
    rfl
  body := .inr ⟨h, rfl⟩

theorem KeepsMethod.refl {e : Engine} {filler : List Opcode} (d : MethodDecl) :
    e.KeepsMethod filler m d d :=
  ⟨rfl, rfl, rfl, rfl, rfl, rfl, .inl rfl⟩

/-- A module of which methods were stripped that may be is framed, whatever its resources. -/
theorem framed_of_reworked {e : Engine} {filler : List Opcode} {touched : Token → Prop}
    {result : EStateM.Result Error Module Outcome} (hwf : m.WellFormed)
    (h : m.Reworked (Body.strip filler) touched m')
    (htouched : ∀ d ∈ m.methods, touched d.token → e.MayStrip m d)
    (hfinal : finalState result = { m' with resources := (finalState result).resources })
    (hresources : KeepsResources m result) : e.Framed filler m result where
  name := by rw [hfinal]; exact h.name
  types := by rw [hfinal]; exact h.types
  fieldCount := by rw [hfinal]; exact h.fieldCount
  methods := by
    rw [hfinal]
    refine ((List.forall₂_and_left _ _).mpr ⟨fun d hd => hd, h.forall₂_methods hwf⟩).imp ?_
    rintro d d' ⟨hd, rfl | ⟨ht, rfl⟩⟩
    · exact .refl d'
    · exact .mapBody (htouched d hd ht)
  resources := hresources

/-- The methods that following a candidate up may touch are those that may be stripped. -/
theorem mayStrip_of_touched (hwf : m.WellFormed) {detector : Detector} {c : Candidate}
    (hfind : (withCollaborators config collaborators).find? m = some (detector, c))
    {normalizer : Normalizer} {d : MethodDecl} (hd : d ∈ m.methods)
    (htouched : d.token = c.handler ∨
      (InitializerLocator.mk normalizer config.maxLocals).Visits m c.type d.token) :
    (withCollaborators config collaborators).MayStrip m d := by
  refine ⟨c, congrArg (Option.map Prod.snd) hfind, htouched.imp_right ?_⟩
  rintro ⟨owner, howner, hcandidate⟩
  obtain ⟨variant, rfl, t, ht, hclassify⟩ := find?_eq_some hfind
  obtain ⟨-, htype, -⟩ := Variant.classify_eq_some hclassify
  obtain ⟨d', hd', hstatic, hvoid, hlocals, htoken⟩ :=
    InitializerLocator.mem_candidates_iff.mp hcandidate
  -- the candidate is the method itself, and its owner the detected type
  rw [hwf.methodsOf_eq (Module.mem_of_type? howner), List.mem_filter, decide_eq_true_eq] at hd'
  have hsame := hwf.method?_token hd'.1
  rw [htoken, hwf.method?_token hd] at hsame
  cases hsame
  rw [htype, hwf.type?_token ht] at howner
  cases howner
  exact ⟨hd'.2.trans htype.symm, (Bool.and_eq_true_iff.mp hstatic).1, hvoid, hlocals⟩

/-- A recovery leaves a module as it was, but for filler that it takes out of the handler of the
detected type and of the candidates for its initializer, and for the one resource that it stores if
it succeeds and is asked to. -/
theorem process_framed (hbuilt : m.Built) (hrange : m.InRange) {filler : List Opcode}
    (hnormalizer : collaborators.normalizer = .stripping filler) :
    (withCollaborators config collaborators).Framed filler m
      ((withCollaborators config collaborators).process m) := by
  have hwf := hbuilt.wellFormed hrange
  have hending := process_ending (withCollaborators config collaborators) m
  generalize (withCollaborators config collaborators).process m = result at hending ⊢
  cases hending with
  | undetected hfind =>
      have hunchanged : m.Reworked (Body.strip filler) (fun _ => False) m := .refl m
      exact framed_of_reworked hwf hunchanged (fun _ _ => False.elim) rfl rfl
  | detected hfind hrecover =>
      have hunchanged : m.Reworked (Body.strip filler) (fun _ => False) m := .refl m
      exact framed_of_reworked hwf hunchanged (fun _ _ => False.elim) rfl rfl
  | failed hfind hrecover hfollow | unhidden hfind hrecover hfollow =>
      have hreworked := followUp_reworked hnormalizer hfind hfollow
      exact framed_of_reworked hwf hreworked (fun _ => mayStrip_of_touched hwf hfind) rfl
        hreworked.resources
  | recovered hfind hrecover hmerge hfollow =>
      have hreworked := followUp_reworked hnormalizer hfind hfollow
      exact framed_of_reworked hwf hreworked (fun _ => mayStrip_of_touched hwf hfind) rfl
        hreworked.resources
  | merged hfind hrecover hmerge hfollow =>
      rename_i resource q
      have hreworked := followUp_reworked hnormalizer hfind hfollow
      obtain ⟨stored, hstored⟩ := exists_resource_of_followUp hfind hfollow
      have hreplaces : Module.ReplacesFirst resource.name resource.data q.module.resources
          (q.module.upsertResource resource.name resource.data).2.resources :=
        Module.replacesFirst_upsertResource hstored
      rw [finalState_ok] at hreworked
      rw [hreworked.resources] at hreplaces
      exact framed_of_reworked hwf hreworked (fun _ => mayStrip_of_touched hwf hfind) rfl
        ⟨resource, rfl, hreplaces⟩

/-- The sample with every method accepted as a handler, and with calls for filler as well. -/
theorem process_framed_sample :
    (withCollaborators .standard ⟨.stripping [.nop, .call], .constant true, fun _ => none⟩).Framed
      [.nop, .call] Sample.module
      ((withCollaborators .standard
        ⟨.stripping [.nop, .call], .constant true, fun _ => none⟩).process Sample.module) :=
  process_framed Sample.module_built ⟨by decide +kernel, by decide +kernel⟩ rfl

end Engine

end ResolverRecovery
