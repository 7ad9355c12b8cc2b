import ResolverRecovery.Proofs.Metadata.Respelled
import ResolverRecovery.Proofs.Recovery.RoundTrip
import ResolverRecovery.Proofs.Recovery.Succeeding

/-!
# Locating the initializer in other spellings

An initializer is recognised by the references in its code, to a flag of its type and to a
constructor.  However these are spelt, in the code or in the reference to the constructor that is
looked for, the same method is found: all that is asked of a reference is what it denotes.

## Main definitions

* `Workbench.Respells`: the same work on modules in different spellings.
* `EqUpToSpelling`: results that differ in the spelling of references alone.

## Main statements

* `InitializerLocator.firstQualified_respells`: the walk through candidates ends in the same way.
* `InitializerLocator.locate_respells`: what is located does not depend on the spelling.
-/

namespace ResolverRecovery

open Engine

/-! ### Work in two spellings -/

/-- The logs are the same, and the modules are but for the spelling of references. -/
structure Workbench.Respells (w w' : Workbench) : Prop where
  module : w.module.Respells w'.module
  log : w'.log = w.log

/-- The results are the same but for the spelling of references in the modules. -/
inductive EqUpToSpelling {α : Type} :
    EStateM.Result Error Workbench α → EStateM.Result Error Workbench α → Prop
  | ok {w w' : Workbench} (a : α) (h : w.Respells w') : EqUpToSpelling (.ok a w) (.ok a w')
  | error {w w' : Workbench} (e : Error) (h : w.Respells w') :
      EqUpToSpelling (.error e w) (.error e w')

/-- The same work that succeeds in one spelling succeeds in the other. -/
theorem EqUpToSpelling.exists_ok {α : Type} {a : α} {w : Workbench}
    {result : EStateM.Result Error Workbench α} (h : EqUpToSpelling (.ok a w) result) :
    ∃ w', result = .ok a w' ∧ w.Respells w' := by
  cases h with
  | ok a h => exact ⟨_, rfl, h⟩

/-- Filler is taken out in one spelling if it is in the other. -/
theorem Workbench.Respells.storeNormalized {w w' : Workbench} (h : w.Respells w') {b b' : Body}
    (hb : b.Respells b') (filler : List Opcode) (t : Token) (message : String) :
    (w.storeNormalized t b (b.strip filler) message).Respells
      (w'.storeNormalized t b' (b'.strip filler) message) := by
  by_cases hsame : b.strip filler = b
  · rw [Workbench.storeNormalized, Workbench.storeNormalized, if_pos hsame,
      if_pos (hb.strip_eq_self_iff.mpr hsame)]
    exact h
  · rw [Workbench.storeNormalized, Workbench.storeNormalized, if_neg hsame,
      if_neg (mt hb.strip_eq_self_iff.mp hsame)]
    refine ⟨h.module.setBody t hb.strip, ?_⟩
    rw [record, record, h.log]

/-! ### Location -/

namespace InitializerLocator

variable {l : InitializerLocator} {owner : TypeRef} {constructor constructor' : MethodRef}

theorem raisesFlag_eq {i i' : Instruction} (h : i.Respells i') :
    raisesFlag owner i' = raisesFlag owner i := by
  rw [raisesFlag, raisesFlag, h.opcode, h.any_field? fun r r' hr => ?_]
  rw [hr.fieldType,
    TypeRef.denotes_congr hr.owner (TypeRef.equivalence_denotes.refl owner)]

theorem constructs_eq {i i' : Instruction} (h : i.Respells i')
    (hconstructor : constructor.denotes constructor' = true) :
    constructs constructor' i' = constructs constructor i := by
  rw [constructs, constructs, h.opcode,
    h.any_method? fun r r' hr => MethodRef.denotes_congr hr hconstructor]

/-- A body qualifies in one spelling if it does in the other. -/
theorem qualifies_eq {b b' : Body} (h : b.Respells b')
    (hconstructor : constructor.denotes constructor' = true) :
    qualifies owner constructor' b'.code = qualifies owner constructor b.code := by
  rw [qualifies, qualifies, h.any_code fun _ _ => raisesFlag_eq,
    h.any_code fun _ _ hi => constructs_eq hi hconstructor]

/-- The candidates are the same, for they are told by their declarations and locals. -/
theorem candidates_eq {m m' : Module} (h : m.Respells m') (t : TypeDecl) :
    l.candidates m' t = l.candidates m t := by
  rw [candidates, candidates, ← List.forall₂_eq_eq_eq, List.forall₂_map_left_iff,
    List.forall₂_map_right_iff]
  refine List.Forall₂.imp (fun d d' hd => MethodDecl.Respells.token hd)
    (List.rel_filter ?_ (h.methodsOf t)).flip
  intro d d' hd
  simp only [hd.isStaticWithBody_eq, hd.signature, hd.locals_eq]

/-- The walk through candidates ends in the same way in both spellings. -/
theorem firstQualified_respells {filler : List Opcode} (hl : l.normalizer = .stripping filler)
    (hconstructor : constructor.denotes constructor' = true) (owner : TypeRef)
    (tokens : List Token) {w w' : Workbench} (h : w.Respells w') :
    EqUpToSpelling (l.firstQualified owner constructor tokens w)
      (l.firstQualified owner constructor' tokens w') := by
  -- the workbenches vary, for what is passed over leaves its body stripped in both
  induction tokens generalizing w w' with
  | nil => exact .ok none h
  | cons t rest ih =>
      rw [firstQualified, firstQualified]
      have hbody := h.module.body? t
      generalize (w.module.method? t).bind MethodDecl.body = found,
        (w'.module.method? t).bind MethodDecl.body = found' at hbody ⊢
      cases hbody with
      | none => exact ih h
      | some hb =>
          have hstored := h.storeNormalized hb filler t
            ("normalized initializer candidate " ++ t.text)
          simp only [hl, Normalizer.stripping, qualifies_eq hb.strip hconstructor]
          split
          · exact .ok (some t) hstored
          · exact ih hstored

/-- To denote one type and to denote one method are equivalences, by names and signatures as they
are and by scopes in whatever case, and a declared type is denoted by what denotes the same as its
own reference.  So it makes no difference to the fields that references lead to, and to the
initializer that is located, how the references in the code and the one to the constructor are
spelt. -/
theorem locate_respells :
    Equivalence (fun r s : TypeRef => r.denotes s = true) ∧
      Equivalence (fun r s : MethodRef => r.denotes s = true) ∧
      (∀ r s : TypeRef, r.denotes s = true ↔ r.namespaceName = s.namespaceName ∧ r.name = s.name ∧
        r.scope.toList.map Char.toLower = s.scope.toList.map Char.toLower) ∧
      (∀ (t : TypeDecl) (r : TypeRef), t.isDenotedBy r = true ↔ t.reference.denotes r = true) ∧
      ∀ m m' : Module, m.Respells m' →
        (∀ r r' : FieldRef, r.Respells r' → m'.resolveField? r' = m.resolveField? r) ∧
          ∀ (l : InitializerLocator) (filler : List Opcode), l.normalizer = .stripping filler →
            ∀ constructor constructor' : MethodRef, constructor.denotes constructor' = true →
              ∀ (type : Token) (log : EventLog),
                EqUpToSpelling (l.locate type constructor ⟨m, log⟩)
                  (l.locate type constructor' ⟨m', log⟩) := by
  refine ⟨TypeRef.equivalence_denotes, MethodRef.equivalence_denotes,
    fun r s => TypeRef.denotes_iff, fun t r => ?_, fun m m' h => ⟨?_, ?_⟩⟩
  · rw [t.isDenotedBy_eq_denotes]
  · intro r r' hr
    exact hr.resolveField?_eq h.types
  · intro l filler hl constructor constructor' hconstructor type log
    rw [locate, locate, h.type?_eq]
    cases m.type? type with
    | none => exact .error _ ⟨h, rfl⟩
    | some t =>
        simp only [candidates_eq h]
        exact firstQualified_respells hl hconstructor t.reference _ ⟨h, rfl⟩

end InitializerLocator

/-! ### A setup in capital letters -/

namespace Engine.Sample

/-- The type of the resolver in capital letters. -/
def loudResolver : TypeRef := ⟨"Obf", "R", "APP.EXE"⟩

/-- The setup with its references in capital letters. -/
def loudSetup : Body where
  code := [⟨0, .nop, .none⟩, ⟨1, .newobj, .method ⟨loudResolver, ".ctor", .void⟩⟩, ⟨6, .pop, .none⟩,
    ⟨7, .stsfld, .field ⟨loudResolver, "flag", WellKnown.boolean⟩⟩, ⟨12, .ret, .none⟩]
  locals := []

theorem denotes_loudResolver : resolver.denotes loudResolver = true :=
  TypeRef.denotes_iff.mpr ⟨rfl, rfl, by decide +kernel⟩

theorem respells_loudSetup : setup.Respells loudSetup := by
  have hconstructor : (⟨resolver, ".ctor", .void⟩ : MethodRef).denotes
      ⟨loudResolver, ".ctor", .void⟩ = true :=
    MethodRef.denotes_iff.mpr ⟨rfl, rfl, denotes_loudResolver⟩
  exact ⟨rfl, .cons (.refl _) <| .cons ⟨rfl, rfl, .method hconstructor⟩ <| .cons (.refl _) <|
    .cons ⟨rfl, rfl, .field ⟨denotes_loudResolver, rfl, rfl⟩⟩ <| .cons (.refl _) .nil⟩

/-- The sample with a setup in capital letters. -/
def loud : Module := module.setBody (.methodDef 2) loudSetup

theorem respells_loud : module.Respells loud := by
  have hsame : module.setBody (.methodDef 2) setup = module := by decide +kernel
  have hstored := (Module.Respells.refl module).setBody (.methodDef 2) respells_loudSetup
  rwa [hsame] at hstored

end Engine.Sample

/-- A setup in capital letters is located as it is in small letters. -/
theorem InitializerLocator.locate_respells_loud :
    Sample.module.Respells Sample.loud ∧
      ∃ w, (InitializerLocator.mk .standard 1).locate (.typeDef 1)
        ⟨⟨"Obf", "R", "App.exe"⟩, ".ctor", .void⟩ ⟨Sample.loud, .empty⟩ =
          .ok (some (.methodDef 2)) w := by
  refine ⟨Sample.respells_loud, ?_⟩
  have htype : Sample.module.type? (.typeDef 1) = some Sample.resolverType := by decide +kernel
  obtain ⟨t, w, hlocate, -⟩ := locate_spec (l := ⟨.standard, 1⟩) rfl
    (w := ⟨Sample.module, .empty⟩)
    (Sample.module_built.wellFormed ⟨by decide +kernel, by decide +kernel⟩) htype
    (d := ⟨.methodDef 2, "Setup", .typeDef 1, staticFlag.bit, .void, some Sample.setup⟩)
    (by decide +kernel) Sample.setup_initializes
  -- there is one candidate alone
  have ht : t = .methodDef 2 := by
    obtain ⟨owner, howner, hcandidate, -⟩ := locate_eq_some hlocate
    cases htype.symm.trans howner
    have hcandidates : (InitializerLocator.mk .standard 1).candidates Sample.module
        Sample.resolverType = [.methodDef 2] := by decide +kernel
    rw [hcandidates] at hcandidate
    exact List.mem_singleton.mp hcandidate
  have hconstructor : MethodRef.denotes ⟨Sample.resolverType.reference, ".ctor", .void⟩
      ⟨⟨"Obf", "R", "App.exe"⟩, ".ctor", .void⟩ = true :=
    MethodRef.denotes_iff.mpr ⟨rfl, rfl, TypeRef.denotes_iff.mpr ⟨rfl, rfl, by decide +kernel⟩⟩
  obtain ⟨w', hloud, -⟩ := (hlocate ▸ (locate_respells.2.2.2.2 _ _ Sample.respells_loud).2
    ⟨.standard, 1⟩ [.nop] rfl _ _ hconstructor (.typeDef 1) .empty).exists_ok
  exact ⟨w', by rw [hloud, ht]⟩

end ResolverRecovery
