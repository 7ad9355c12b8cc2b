import ResolverRecovery.Proofs.Cil.Padding
import ResolverRecovery.Proofs.Metadata.Repadded
import ResolverRecovery.Recovery.Engine

/-!
# What detection depends on

Detection reads the types and the resources of a module, and of its methods nothing that changes
with the padding, as long as neither loads of strings nor calls count as filler.  The same is true
of the constructor and of the methods that the search for an initializer begins with.

## Main statements

* `Reactor.classify_repadded`, `SmartAssembly.classify_repadded`: a type is the same candidate in
  modules that differ in filler alone.
* `Engine.find?_repadded`: the first candidate of such modules is the same.
* `InitializerLocator.constructor?_repadded`, `InitializerLocator.candidates_repadded`: the search
  for an initializer begins with the same constructor and the same methods.
-/

namespace ResolverRecovery

variable {filler : List Opcode} {m m' : Module}

/-! ### Code without filler -/

/-- What no filler has is found in code if and only if it is found in the code without filler. -/
theorem Body.any_strip {p : Instruction → Bool}
    (hp : ∀ i, p i = true → i.opcode ∉ filler) (b : Body) :
    (b.strip filler).code.any p = b.code.any p := by
  have hkept : (fun i : Instruction => !filler.contains i.opcode && p i) = p := by
    funext i
    cases hpi : p i with
    | false => rw [Bool.and_false]
    | true => simpa using hp i hpi
  rw [Body.strip, List.any_filter, hkept]

/-- Code names a resource with and without its filler. -/
theorem Module.isNamedIn_strip (hldstr : .ldstr ∉ filler) (m : Module) (b : Body) :
    m.isNamedIn (b.strip filler) = m.isNamedIn b := by
  refine Body.any_strip (fun i hnamed hmem => ?_) b
  obtain ⟨name, hname, -⟩ := (Option.any_eq_true _ _).mp hnamed
  rw [Instruction.loadedString?] at hname
  split at hname
  · rename_i hload
    exact hldstr (hload ▸ hmem)
  · cases hname

theorem MethodDecl.code_stripped (d : MethodDecl) :
    (d.stripped filler).code = Scanner.unpadded ⟨filler⟩ d.code := by
  rw [code, code, body_stripped]
  cases d.body <;> rfl

/-! ### Oracles and detectors -/

/-- Local variables are judged without regard to filler. -/
theorem Oracle.localTypes_stripped (hldstr : .ldstr ∉ filler) (m : Module) (d : MethodDecl)
    (extra : List String) (strict : Bool) :
    localTypes m (d.stripped filler) extra strict = localTypes m d extra strict := by
  simp only [localTypes, MethodDecl.isStatic_stripped, MethodDecl.body_stripped]
  cases d.body with
  | none => rfl
  | some b =>
      simp only [Option.map_some, Module.isNamedIn_strip hldstr]
      rfl

theorem Oracle.localTypes_repadded (h : m.Repadded filler m') : localTypes m' = localTypes m := by
  funext d extra strict
  simp only [localTypes, Module.isNamedIn, h.resource?_eq]

namespace Reactor

variable {r : Reactor}

theorem isHandler_stripped (horacle : r.oracle = .localTypes) (hldstr : .ldstr ∉ filler)
    (m : Module) (d : MethodDecl) : r.isHandler m (d.stripped filler) = r.isHandler m d := by
  simp only [isHandler, MethodDecl.isStaticWithBody_stripped, MethodDecl.signature_stripped,
    horacle, Oracle.localTypes_stripped hldstr]

/-- A type is the same candidate of this family in modules that differ in filler alone. -/
theorem classify_repadded (horacle : r.oracle = .localTypes) (hldstr : .ldstr ∉ filler)
    (h : m.Repadded filler m') (t : TypeDecl) : r.classify m' t = r.classify m t := by
  have hhandler : r.isHandler m' = r.isHandler m := by
    funext d
    simp only [isHandler, horacle, Oracle.localTypes_repadded h]
  rw [classify, classify, hhandler,
    h.map_find?_methodsOf (isHandler_stripped horacle hldstr m) fun d => rfl]

end Reactor

namespace SmartAssembly

variable {s : SmartAssembly}

/-- What embedded assembly code names is told by the instructions of its matches. -/
theorem loadedAssembly?_congr {code code' : List Instruction}
    (h : (s.scanner.findAll code' loadPattern).map Scanner.Match.code =
      (s.scanner.findAll code loadPattern).map Scanner.Match.code) :
    s.loadedAssembly? code' = s.loadedAssembly? code := by
  -- a match counts as if its instructions were placed anywhere
  let named : List Instruction → Option EmbeddedAssembly := fun code =>
    s.namedAssembly? ⟨0, 0, code.map (Placed.mk 0)⟩
  have hnamed : s.namedAssembly? = named ∘ Scanner.Match.code := by
    funext found
    simp only [named, Function.comp_apply, namedAssembly?, List.map_map, Function.comp_def,
      List.map_id', Scanner.Match.code]
  rw [loadedAssembly?, loadedAssembly?, hnamed, ← List.findSome?_map, h, List.findSome?_map]

/-- An embedded assembly is named in code with and without its filler. -/
theorem loadedAssembly?_unpadded (hpattern : ∀ op ∈ loadPattern, op ∉ s.scanner.filler)
    (code : List Instruction) :
    s.loadedAssembly? (s.scanner.unpadded code) = s.loadedAssembly? code :=
  loadedAssembly?_congr <| Scanner.findAll_unpadded
    (fun op hop => by simpa [Scanner.isFiller] using hpattern op hop) code

theorem candidateOf?_stripped (hpattern : ∀ op ∈ loadPattern, op ∉ s.scanner.filler)
    (t : TypeDecl) (d : MethodDecl) :
    s.candidateOf? t (d.stripped s.scanner.filler) = s.candidateOf? t d := by
  simp only [candidateOf?, MethodDecl.isStaticWithBody_stripped, MethodDecl.code_stripped,
    MethodDecl.token_stripped, loadedAssembly?_unpadded hpattern]

/-- A type is the same candidate of this family in modules that differ in filler alone. -/
theorem classify_repadded (hpattern : ∀ op ∈ loadPattern, op ∉ s.scanner.filler)
    (h : m.Repadded s.scanner.filler m') (t : TypeDecl) : s.classify m' t = s.classify m t := by
  rw [classify, classify, h.findSome?_methodsOf (candidateOf?_stripped hpattern t)]

end SmartAssembly

variable {config : Config} {collaborators : Collaborators}

/-- A type is the same candidate of either family in modules that differ in filler alone. -/
theorem Variant.classify_repadded (horacle : collaborators.oracle = .localTypes)
    (hldstr : .ldstr ∉ config.filler) (hcall : .call ∉ config.filler)
    (h : m.Repadded config.filler m') (variant : Variant) (t : TypeDecl) :
    (Variant.detector config collaborators variant).classify m' t =
      (Variant.detector config collaborators variant).classify m t := by
  cases variant with
  | reactor =>
      exact Reactor.classify_repadded (r := .ofConfig config collaborators) horacle hldstr h t
  | smartAssembly =>
      have hpattern : ∀ op ∈ SmartAssembly.loadPattern, op ∉ config.filler := by
        simp only [SmartAssembly.loadPattern, List.forall_mem_cons]
        exact ⟨hldstr, hcall, List.forall_mem_nil _⟩
      exact SmartAssembly.classify_repadded (s := .ofConfig config collaborators) hpattern h t

/-- Modules that differ in filler alone have the same first candidate. -/
theorem Engine.find?_repadded (horacle : collaborators.oracle = .localTypes)
    (hldstr : .ldstr ∉ config.filler) (hcall : .call ∉ config.filler)
    (h : m.Repadded config.filler m') :
    (withCollaborators config collaborators).find? m' =
      (withCollaborators config collaborators).find? m := by
  have hclassify : ∀ t, (withCollaborators config collaborators).classify? m' t =
      (withCollaborators config collaborators).classify? m t := by
    intro t
    simp only [classify?, withCollaborators, List.findSome?_map, Function.comp_def,
      Variant.classify_repadded horacle hldstr hcall h]
  rw [find?, find?, h.types, funext hclassify]

/-! ### The search for an initializer -/

namespace InitializerLocator

/-- An initializer calls the same constructor. -/
theorem constructor?_repadded (h : m.Repadded filler m') (type : Token) :
    constructor? m' type = constructor? m type := by
  have hread : ∀ found : Option MethodDecl, (found.bind fun d => m.reference? d.token) =
      (found.map MethodDecl.token).bind m.reference? := by
    intro found
    cases found <;> rfl
  have hfound := h.map_find?_methodsOf (p := MethodDecl.isConstructor) (f := MethodDecl.token)
    (fun d => rfl) (fun d => rfl)
  simp only [constructor?, h.type?_eq, Option.bind_eq_bind, h.reference?_eq, hread, hfound]

/-- The same methods may be the initializer. -/
theorem candidates_repadded (l : InitializerLocator) (h : m.Repadded filler m')
    (owner : TypeDecl) : l.candidates m' owner = l.candidates m owner := by
  refine h.map_filter_methodsOf (fun d => ?_) (fun d => rfl) owner
  rw [MethodDecl.isStaticWithBody_stripped, MethodDecl.signature_stripped,
    MethodDecl.locals_stripped]

end InitializerLocator

end ResolverRecovery
