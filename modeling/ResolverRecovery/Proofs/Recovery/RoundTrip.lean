import ResolverRecovery.Proofs.Cipher.RoundTrip
import ResolverRecovery.Proofs.Metadata.Resources
import ResolverRecovery.Proofs.Recovery.Detecting
import ResolverRecovery.Proofs.Recovery.Ending
import ResolverRecovery.Proofs.Recovery.Recovering

/-!
# Recovering what was hidden

A protected module holds a payload, compressed and encrypted, under the name, the key and the vector
that the handler of its resolver discloses.  A recovery finds the resolver, gives the payload back
and stores it in the place of the ciphertext.

## Main statements

* `Reactor.handler_not_mem_candidates`: the search for an initializer passes over the handler.
* `Engine.followUp_spec`: locating and recovering, one after the other.
* `Engine.process_recovers`: a recovery gives back what was hidden.
-/

namespace ResolverRecovery

variable {config : Config} {m : Module}

/-- A handler returns something, so that no search for an initializer looks at it. -/
theorem Reactor.handler_not_mem_candidates (hwf : m.WellFormed) {r : Reactor}
    {l : InitializerLocator} {t owner : TypeDecl} (ht : t ∈ m.types) (howner : owner ∈ m.types)
    {d : MethodDecl} (hd : d ∈ m.methodsOf t) (hhandler : r.isHandler m d = true) :
    d.token ∉ l.candidates m owner := by
  intro hmem
  obtain ⟨e, he, -, hvoid, -, htoken⟩ := InitializerLocator.mem_candidates_iff.mp hmem
  rw [hwf.methodsOf_eq ht] at hd
  rw [hwf.methodsOf_eq howner] at he
  have hsame := hwf.method?_token (List.mem_filter.mp he).1
  rw [htoken, hwf.method?_token (List.mem_filter.mp hd).1] at hsame
  cases hsame
  exact (Reactor.isHandler_spec hhandler).2 hvoid

namespace Engine

/-- A sealed resource of which everything is in place is located and recovered, and on the way
nothing but bodies is rewritten. -/
theorem followUp_spec {r : Reactor} {filler : List Opcode} (hr : r.normalizer = .stripping filler)
    (hl : r.locator.normalizer = .stripping filler) {q : Inquiry} {t : TypeDecl} {handler : Token}
    {name : String} {key vector : List UInt8}
    (hstaged : r.Staged filler q.module t handler name key vector)
    (htype : q.module.type? q.candidate.type = some t)
    (hsealed : q.candidate.sealed? = some (.ofHandler handler)) {resource : Resource}
    (hresource : q.module.resource? name = some resource) {text data : List UInt8}
    (hencrypted : Cipher.encrypt? key vector text = some resource.data)
    (hdecode : r.codec.decompress text = .ok data) :
    ∃ q', followUp r.detector q = .ok (some ⟨name, data⟩) q' ∧
      q.module.Reworked (Body.strip filler)
        (fun u => u ∈ r.locator.candidates q.module t ∨ u = handler) q'.module := by
  obtain ⟨q₁, hlocate, hreworked, hloaded⟩ :=
    Reactor.locateInitializer_spec hr hl hstaged htype hsealed rfl
  have hdecrypt : ((SealedResource.ofHandler handler).loaded name key vector).decrypt q₁.module =
      .ok text := by
    have hstored : q₁.module.resource? name = some resource := by
      rw [← hresource, Module.resource?, Module.resource?, hreworked.resources]
    have htext := Cipher.decrypt?_eq_some_iff.mpr hencrypted
    simp only [SealedResource.decrypt, SealedResource.loaded, hstored, htext]
  obtain ⟨q₂, hrecover, hmodule⟩ := Reactor.recover_spec hloaded rfl rfl rfl hdecrypt hdecode
  refine ⟨q₂, ?_, by rw [hmodule]; exact hreworked⟩
  simp only [followUp, Reactor.detector, hlocate, hrecover]

/-- A recovery that comes to a resource stores it, if that is asked for. -/
theorem process_eq_of_followUp {e : Engine} (hrecover : e.config.recover = true)
    (hmerge : e.config.merge = true) {d : Detector} {c : Candidate}
    (hfind : e.find? m = some (d, c)) {resource : NamedResource} {q : Inquiry}
    (hfollow : followUp d ⟨reportCandidate ((Workbench.mk m .empty).record (e.scanning m)) c, c⟩ =
      .ok (some resource) q) :
    e.process m = .ok
      ⟨some q.candidate, some resource, true, (mergeResource q.toWorkbench resource).log⟩
      (mergeResource q.toWorkbench resource).module := by
  simp only [process, processWithLog, run, hfind, hrecover, Bool.not_true, Bool.false_eq_true,
    if_false, hfollow, hmerge, if_true]

/-- A payload that is compressed, encrypted under the key and the vector that the handler of a
resolver discloses, and embedded under the name that it discloses, is given back by a recovery and
stored in its place.  The resource keeps its attributes, and no other resource changes. -/
theorem process_recovers (hbuilt : m.Built) (hrange : m.InRange)
    (hrecover : config.recover = true) (hmerge : config.merge = true) {c : Candidate}
    (hdetect : (ofConfig config).detect? m = some c) (hvariant : c.variant = .reactor)
    {t : TypeDecl} (htype : m.type? c.type = some t) {constructor initializer : MethodDecl}
    (hconstructor : (m.methodsOf t).find? MethodDecl.isConstructor = some constructor)
    (hmember : initializer ∈ m.methodsOf t) {b : Body}
    (hinit : Initializes config.filler config.maxLocals t constructor initializer b)
    {body : Body} (hbody : (m.method? c.handler).bind MethodDecl.body = some body)
    {name : String} {key vector : List UInt8}
    (hdiscloses : SealedResource.Discloses m (body.strip config.filler).code name key vector)
    {resource : Resource} (hresource : m.resource? name = some resource)
    {text payload : List UInt8}
    (hencrypted : Cipher.encrypt? key vector text = some resource.data)
    (hdecode : config.codec.decompress text = .ok payload) :
    ∃ outcome m', (ofConfig config).process m = .ok outcome m' ∧
      outcome.resource = some ⟨name, payload⟩ ∧ outcome.merged = true ∧
      m'.resource? name = some { resource with data := payload } ∧
      ∀ other, other ≠ name → m'.resource? other = m.resource? other := by
  have hwf := hbuilt.wellFormed hrange
  obtain ⟨⟨d, c'⟩, hfind, rfl⟩ := Option.map_eq_some_iff.mp hdetect
  obtain ⟨rfl, owner, howner, hclassify⟩ := find?_eq_some_of_reactor hfind hvariant
  obtain ⟨h, hh, hhandler, hcandidate⟩ := Reactor.classify_eq_some hclassify
  have hsealed : c'.sealed? = some (.ofHandler h.token) := by rw [hcandidate]; rfl
  rw [hcandidate] at hbody
  let r := Reactor.ofConfig config (.ofConfig config)
  have hstaged : r.Staged config.filler m t h.token name key vector :=
    { wellFormed := hwf
      initializer := ⟨constructor, initializer, b, hconstructor, hmember, hinit⟩
      outside :=
        Reactor.handler_not_mem_candidates hwf howner (Module.mem_of_type? htype) hh hhandler
      discloses := ⟨body, hbody, hdiscloses⟩ }
  let q₀ : Inquiry :=
    ⟨reportCandidate ((Workbench.mk m .empty).record ((ofConfig config).scanning m)) c', c'⟩
  obtain ⟨q, hfollow, hreworked⟩ := followUp_spec (r := r) rfl rfl (q := q₀) hstaged htype
    hsealed hresource hencrypted hdecode
  -- up to here nothing but bodies has changed, so the resources are still those of the module
  have hresources : ∀ other, q.module.resource? other = m.resource? other := by
    intro other
    rw [Module.resource?, hreworked.resources]
    rfl
  refine ⟨_, _, process_eq_of_followUp hrecover hmerge hfind hfollow, rfl, rfl, ?_, ?_⟩
  · exact Module.resource?_upsertResource ((hresources name).trans hresource)
  · intro other hother
    exact (Module.resource?_upsertResource_of_ne hother).trans (hresources other)

/-! ### A protected module -/

namespace Sample

/-- The root of all classes. -/
def root : TypeRef := ⟨"System", "Object", "mscorlib"⟩

/-- The type of the resolver, as its own code refers to it. -/
def resolver : TypeRef := ⟨"Obf", "R", "app.exe"⟩

/-- The type that holds key and vector, with its scope in another spelling. -/
def holder : TypeRef := ⟨"", "Keys", "APP.exe"⟩

/-- Constructs an instance and raises the flag. -/
def setup : Body where
  code := [⟨0, .nop, .none⟩, ⟨1, .newobj, .method ⟨resolver, ".ctor", .void⟩⟩, ⟨6, .pop, .none⟩,
    ⟨7, .stsfld, .field ⟨resolver, "flag", WellKnown.boolean⟩⟩, ⟨12, .ret, .none⟩]
  locals := []

/-- Loads the name of the resource, the key and the vector. -/
def resolve : Body where
  code := [⟨0, .ldstr, .literal "hidden"⟩, ⟨5, .nop, .none⟩,
    ⟨6, .ldtoken, .field ⟨holder, "key", WellKnown.byteArray⟩⟩,
    ⟨11, .ldtoken, .field ⟨holder, "vector", WellKnown.byteArray⟩⟩, ⟨16, .ret, .none⟩]
  locals := WellKnown.string :: "System.Security.Cryptography.AesManaged" :: Oracle.requiredTypes

def key : List UInt8 := List.replicate 16 1

def vector : List UInt8 := List.replicate 16 2

/-- Two bytes in a stream that stores them as they are, encrypted. -/
def ciphertext : List UInt8 :=
  [187, 9, 68, 13, 99, 234, 158, 75, 61, 149, 109, 95, 232, 104, 8, 45]

theorem encrypt?_ciphertext :
    Cipher.encrypt? key vector [12, 5, 2, 104, 105] = some ciphertext := by
  decide +kernel

theorem decrypt?_ciphertext :
    Cipher.decrypt? key vector ciphertext = some [12, 5, 2, 104, 105] :=
  Cipher.decrypt?_eq_some_iff.mpr encrypt?_ciphertext

/-- A module with a resolver, its key and vector, and the resource that it hides. -/
def module : Module :=
  let m := ((Module.named "app.exe").addType "Obf" "R" (some root)).2
  let m := (m.addType "" "Keys" (some root)).2
  let m := Module.Edit.apply (Module.addField (.typeDef 1) "flag" WellKnown.boolean true none) m
  let m := Module.Edit.apply (Module.addField (.typeDef 1) "first" WellKnown.object true none) m
  let m := Module.Edit.apply (Module.addField (.typeDef 1) "second" WellKnown.object true none) m
  let m := Module.Edit.apply
    (Module.addField (.typeDef 2) "key" WellKnown.byteArray true (some key)) m
  let m := Module.Edit.apply
    (Module.addField (.typeDef 2) "vector" WellKnown.byteArray true (some vector)) m
  let m := Module.Edit.apply (Module.addMethod (.typeDef 1) ".ctor" 0 .void (some ⟨[], []⟩)) m
  let m := Module.Edit.apply
    (Module.addMethod (.typeDef 1) "Setup" staticFlag.bit .void (some setup)) m
  let m := Module.Edit.apply (Module.addMethod (.typeDef 1) "Resolve" staticFlag.bit
    ⟨WellKnown.assembly, [WellKnown.object, WellKnown.object]⟩ (some resolve)) m
  m.addResource ⟨"hidden", 5, ciphertext⟩

def resolverType : TypeDecl where
  token := .typeDef 1
  namespaceName := "Obf"
  name := "R"
  scope := "app.exe"
  base := some root
  fields := [⟨.field 1, "flag", WellKnown.boolean, .typeDef 1, true, none⟩,
    ⟨.field 2, "first", WellKnown.object, .typeDef 1, true, none⟩,
    ⟨.field 3, "second", WellKnown.object, .typeDef 1, true, none⟩]
  methods := [.methodDef 1, .methodDef 2, .methodDef 3]

def holderType : TypeDecl where
  token := .typeDef 2
  namespaceName := ""
  name := "Keys"
  scope := "app.exe"
  base := some root
  fields := [⟨.field 4, "key", WellKnown.byteArray, .typeDef 2, true, some key⟩,
    ⟨.field 5, "vector", WellKnown.byteArray, .typeDef 2, true, some vector⟩]
  methods := []

theorem module_built : module.Built :=
  ((Module.Built.named "app.exe").addType "Obf" "R" (some root)
    |>.addType "" "Keys" (some root)
    |>.apply_addField _ _ _ _ _
    |>.apply_addField _ _ _ _ _
    |>.apply_addField _ _ _ _ _
    |>.apply_addField _ _ _ _ _
    |>.apply_addField _ _ _ _ _
    |>.apply_addMethod _ _ _ _ _
    |>.apply_addMethod _ _ _ _ _
    |>.apply_addMethod _ _ _ _ _
    |>.addResource _)

/-- The setup is an initializer of the resolver's type. -/
theorem setup_initializes :
    Initializes [.nop] 1 resolverType ⟨.methodDef 1, ".ctor", .typeDef 1, 0, .void, some ⟨[], []⟩⟩
      ⟨.methodDef 2, "Setup", .typeDef 1, staticFlag.bit, .void, some setup⟩ setup where
  isStatic := by decide
  signature := rfl
  body := rfl
  locals := Nat.zero_le 1
  setsUp := by
    refine ⟨⟨⟨7, .stsfld, .field ⟨resolver, "flag", WellKnown.boolean⟩⟩, ?_, rfl, _, rfl, rfl, ?_⟩,
      ⟨⟨1, .newobj, .method ⟨resolver, ".ctor", .void⟩⟩, ?_, rfl, _, rfl, ?_⟩⟩
    · decide +kernel
    · simp [TypeRef.denotes, resolver, resolverType, TypeDecl.reference]
    · decide +kernel
    · simp [MethodRef.denotes, MethodDecl.reference, TypeRef.denotes, resolver, resolverType,
        TypeDecl.reference]

/-- A module in which the type is found behind its reference leads to key and vector. -/
theorem arraysIn_resolve {m : Module}
    (h : ∀ name fieldType, m.resolveField? ⟨holder, name, fieldType⟩ = holderType.field? name) :
    SealedResource.arraysIn m (resolve.strip [.nop]).code = [key, vector] := by
  have hkey : (holderType.field? "key").bind FieldDecl.initialData = some key := by
    decide +kernel
  have hvector : (holderType.field? "vector").bind FieldDecl.initialData = some vector := by
    decide +kernel
  simp [SealedResource.arraysIn, Body.strip, resolve, Instruction.field?, h, hkey, hvector]

theorem resolve_discloses :
    SealedResource.Discloses module (resolve.strip [.nop]).code "hidden" key vector where
  name := by decide +kernel
  arrays := by
    have htypes : module.types = [resolverType, holderType] := by decide +kernel
    have hscope : foldScope "APP.exe" = foldScope "app.exe" := by
      apply String.toList_injective
      rw [foldScope, foldScope, String.toList_map, String.toList_map]
      decide +kernel
    refine ⟨[], arraysIn_resolve fun name fieldType => ?_⟩
    simp [Module.resolveField?, htypes, TypeDecl.isDenotedBy, resolverType, holderType, holder,
      hscope]
  key := by decide
  vector := by decide

/-- The sample has what a recovery looks for. -/
theorem module_staged :
    (Reactor.ofConfig .standard (.ofConfig .standard)).Staged [.nop] module resolverType
      (.methodDef 3) "hidden" key vector where
  wellFormed := module_built.wellFormed ⟨by decide +kernel, by decide +kernel⟩
  initializer := ⟨_, _, setup, by decide +kernel, by decide +kernel, setup_initializes⟩
  outside := by decide +kernel
  discloses := ⟨resolve, by decide +kernel, resolve_discloses⟩

/-- The resolver of the sample. -/
def candidate : Candidate :=
  ⟨.reactor, .typeDef 1, "Obf.R", .methodDef 3, none, .sealed (.ofHandler (.methodDef 3))⟩

theorem detect_module : (ofConfig .standard).detect? module = some candidate := by decide +kernel

/-- Whether or not it is to be stored, the payload is recovered. -/
theorem exists_process_module (merge : Bool) :
    ∃ o m', (ofConfig { Config.standard with merge := merge }).process module = .ok o m' ∧
      o.resource = some ⟨"hidden", [104, 105]⟩ ∧ o.merged = merge := by
  have hdetect : (ofConfig { Config.standard with merge := merge }).detect? module =
      some candidate := detect_module
  obtain ⟨⟨d, c⟩, hfind, rfl⟩ := Option.map_eq_some_iff.mp hdetect
  obtain ⟨rfl, -⟩ := find?_eq_some_of_reactor hfind rfl
  have htype : module.type? (.typeDef 1) = some resolverType := by decide +kernel
  have hresource : module.resource? "hidden" = some ⟨"hidden", 5, ciphertext⟩ := by decide +kernel
  have hdecode : Codec.quickLz.decompress [12, 5, 2, 104, 105] = .ok [104, 105] := rfl
  obtain ⟨start, hprocess⟩ := exists_process_eq rfl hfind
  obtain ⟨q, hfollow, -⟩ := followUp_spec (r := Reactor.ofConfig .standard (.ofConfig .standard))
    rfl rfl (q := ⟨⟨module, start⟩, candidate⟩) module_staged htype rfl hresource
    encrypt?_ciphertext hdecode
  have hfollow' : followUp (Reactor.ofConfig { Config.standard with merge := merge }
      (.ofConfig { Config.standard with merge := merge })).detector ⟨⟨module, start⟩, candidate⟩ =
        .ok (some ⟨"hidden", [104, 105]⟩) q := hfollow
  rw [hfollow'] at hprocess
  obtain ⟨events, m', hprocess, -⟩ := hprocess
  exact ⟨_, m', hprocess, rfl, rfl⟩

end Sample

/-- The payload of the sample is given back. -/
theorem process_recovers_sample :
    ∃ outcome m', (ofConfig .standard).process Sample.module = .ok outcome m' ∧
      outcome.resource = some ⟨"hidden", [104, 105]⟩ ∧ outcome.merged = true ∧
      m'.resource? "hidden" = some ⟨"hidden", 5, [104, 105]⟩ ∧
      ∀ other, other ≠ "hidden" → m'.resource? other = Sample.module.resource? other := by
  have hdetect : (ofConfig .standard).detect? Sample.module = some ⟨.reactor, .typeDef 1, "Obf.R",
      .methodDef 3, none, .sealed (.ofHandler (.methodDef 3))⟩ := by decide +kernel
  have htype : Sample.module.type? (.typeDef 1) = some Sample.resolverType := by decide +kernel
  have hresource : Sample.module.resource? "hidden" = some ⟨"hidden", 5, Sample.ciphertext⟩ := by
    decide +kernel
  have hencrypted : Cipher.encrypt? Sample.key Sample.vector [12, 5, 2, 104, 105] =
      some Sample.ciphertext := by decide +kernel
  have hdecode : Codec.quickLz.decompress [12, 5, 2, 104, 105] = .ok [104, 105] := by rfl
  exact process_recovers Sample.module_built ⟨by decide +kernel, by decide +kernel⟩ rfl rfl hdetect
    rfl htype (by decide +kernel) (by decide +kernel) Sample.setup_initializes (by decide +kernel)
    Sample.resolve_discloses hresource hencrypted hdecode

end Engine

end ResolverRecovery
