import Mathlib.Data.List.Forall2
import ResolverRecovery.Proofs.Cil.Repadding
import ResolverRecovery.Proofs.Recovery.Redetecting

/-!
# Detection in modules that are padded anew

The same module comes with other padding from build to build: filler is put in at some places and
left out at others, and everything else stays.  A resolver that is detected in one of the builds is
detected in all of them, with the same handler and the same payload.

## Main definitions

* `Module.Repads`: modules of which corresponding bodies differ in their padding.

## Main statements

* `Engine.detect?_repads`: what is detected does not depend on the padding.
-/

namespace ResolverRecovery

variable {filler : List Opcode}

/-! ### Bodies, methods and modules -/

/-- The bodies have the same local variables, and code that differs in its padding. -/
structure Body.Repads (filler : List Opcode) (b b' : Body) : Prop where
  locals : b'.locals = b.locals
  code : ResolverRecovery.Repads filler b.code b'.code

theorem Body.Repads.strip_eq {b b' : Body} (h : b.Repads filler b') :
    b'.strip filler = b.strip filler := by
  rw [strip, strip, h.locals]
  exact congrArg (Body.mk · b.locals) h.code.unpadded_eq

/-- The methods are declared in the same way, and the body of one, if it has one, is that of the
other padded anew. -/
structure MethodDecl.Repads (filler : List Opcode) (d d' : MethodDecl) : Prop where
  token : d'.token = d.token
  name : d'.name = d.name
  owner : d'.owner = d.owner
  flags : d'.flags = d.flags
  signature : d'.signature = d.signature
  body : Option.Rel (Body.Repads filler) d.body d'.body

theorem MethodDecl.Repads.stripped_eq {d d' : MethodDecl} (h : d.Repads filler d') :
    d'.stripped filler = d.stripped filler := by
  obtain ⟨token, name, owner, flags, signature, body⟩ := d
  obtain ⟨token', name', owner', flags', signature', body'⟩ := d'
  obtain ⟨rfl, rfl, rfl, rfl, rfl, hbody⟩ := h
  cases hbody with
  | none => rfl
  | some hb => simp only [stripped, mapBody, Option.map_some, hb.strip_eq]

namespace Module

/-- The modules are the same but for the padding of their methods. -/
structure Repads (filler : List Opcode) (m m' : Module) : Prop where
  name : m'.name = m.name
  types : m'.types = m.types
  fieldCount : m'.fieldCount = m.fieldCount
  resources : m'.resources = m.resources
  /-- There are as many methods, which correspond row by row. -/
  methods : List.Forall₂ (MethodDecl.Repads filler) m.methods m'.methods

/-- Modules that are padded anew differ in filler alone. -/
theorem Repads.repadded {m m' : Module} (h : m.Repads filler m') : m.Repadded filler m' where
  types := h.types
  resources := h.resources
  method := by
    intro t
    have hindex : m'.methodIndex? t = m.methodIndex? t := by
      rw [methodIndex?, methodIndex?, h.methods.length_eq]
    have hstripped : m'.methods.map (MethodDecl.stripped filler) =
        m.methods.map (MethodDecl.stripped filler) := by
      rw [← List.forall₂_eq_eq_eq, List.forall₂_map_left_iff, List.forall₂_map_right_iff]
      exact h.methods.flip.imp fun _ _ => MethodDecl.Repads.stripped_eq
    simp only [method?, hindex, Option.map_bind, Function.comp_def, ← List.getElem?_map, hstripped]

end Module

/-! ### Detection -/

namespace Engine

/-- With local variables to judge handlers by, and with neither loads of strings nor calls among the
filler, the same resolver is detected in modules that are the same but for their padding: the same
type with the same handler and the same payload, or none in either. -/
theorem detect?_repads {config : Config} {collaborators : Collaborators}
    (horacle : collaborators.oracle = .localTypes) (hldstr : .ldstr ∉ config.filler)
    (hcall : .call ∉ config.filler) {m m' : Module} (h : m.Repads config.filler m') :
    (withCollaborators config collaborators).detect? m' =
      (withCollaborators config collaborators).detect? m := by
  rw [detect?, detect?, find?_repadded horacle hldstr hcall h.repadded]

namespace Sample

/-- A module whose resolver has the given code for its handler. -/
def loader (code : List Instruction) : Module where
  name := "app.exe"
  types := [⟨.typeDef 1, "", "Loader", "app.exe", none,
    [⟨.field 1, "loaded", WellKnown.assembly, .typeDef 1, true, none⟩], [.methodDef 1]⟩]
  methods := [⟨.methodDef 1, "Resolve", .typeDef 1, staticFlag.bit,
    ⟨WellKnown.assembly, [WellKnown.object, WellKnown.object]⟩, some ⟨code, []⟩⟩]
  resources := []
  fieldCount := 1

/-- The method that loads an assembly by its display name. -/
def load : MethodRef :=
  ⟨⟨"System.Reflection", "Assembly", "mscorlib"⟩, "Load", ⟨WellKnown.assembly, [WellKnown.string]⟩⟩

/-- Names an assembly that is not embedded, and then one that is. -/
def loading : List Instruction :=
  [⟨0, .ldstr, .literal "Other"⟩, ⟨5, .call, .method load⟩, ⟨10, .ldstr, .literal "Lib, Version=1"⟩,
    ⟨15, .call, .method load⟩, ⟨20, .ret, .none⟩]

/-- The same with filler before, within and behind the pairs. -/
def paddedLoading : List Instruction :=
  [⟨0, .nop, .none⟩, ⟨0, .ldstr, .literal "Other"⟩, ⟨5, .call, .method load⟩,
    ⟨10, .ldstr, .literal "Lib, Version=1"⟩, ⟨15, .br, .integer 0⟩, ⟨15, .nop, .none⟩,
    ⟨15, .call, .method load⟩, ⟨20, .ret, .none⟩, ⟨25, .nop, .none⟩]

end Sample

/-- A handler that loads an embedded assembly is detected with and without padding. -/
theorem detect?_repads_loader :
    (Sample.loader Sample.loading).Repads [.nop, .br] (Sample.loader Sample.paddedLoading) ∧
      (withCollaborators { Config.standard with filler := [.nop, .br], strict := true }
        ⟨.identity, .localTypes,
          (AssemblyRegistry.empty.register (.ofDisplayName "Lib" "lib")).find?⟩).detect?
            (Sample.loader Sample.paddedLoading) =
        some ⟨.smartAssembly, .typeDef 1, "Loader", .methodDef 1, none,
          .assembly (.ofDisplayName "Lib" "lib")⟩ := by
  have hrepads : (Sample.loader Sample.loading).Repads [.nop, .br]
      (Sample.loader Sample.paddedLoading) :=
    ⟨rfl, rfl, rfl, rfl,
      .cons ⟨rfl, rfl, rfl, rfl, rfl, .some ⟨rfl, repads_iff.mpr (by decide +kernel)⟩⟩ .nil⟩
  refine ⟨hrepads, ?_⟩
  rw [detect?_repads rfl (by decide) (by decide) hrepads]
  decide +kernel

end Engine

end ResolverRecovery
