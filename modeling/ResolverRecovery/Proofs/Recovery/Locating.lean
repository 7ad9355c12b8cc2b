import ResolverRecovery.Proofs.Metadata.Repadded
import ResolverRecovery.Recovery.Initializer

/-!
# Locating the initializer

With filler stripped, the search for an initializer does not fail, rewrites the bodies of its
candidates alone, and finds an initializer if one of them qualifies.

## Main definitions

* `Prepares`, `SetsUp`: code that sets a type up.
* `Initializes`: a method that the search may return.

## Main statements

* `qualifies_iff_prepares`, `qualifies_iff`: what qualifies a method is that it sets its type up.
* `InitializerLocator.firstQualified_spec`: what the walk through the candidates does.
* `InitializerLocator.constructor?_eq`: the constructor that an initializer calls.
* `InitializerLocator.mem_candidates_iff`: the methods that may be the initializer.
* `InitializerLocator.locate_spec`: the search succeeds, and leaves other methods alone.
-/

namespace ResolverRecovery

/-! ### Code that sets a type up -/

/-- The code raises a flag of the type and constructs an instance by the given constructor. -/
structure Prepares (owner : TypeRef) (constructor : MethodRef) (code : List Instruction) :
    Prop where
  /-- Something is stored to a truth value of the type. -/
  stores : ∃ i ∈ code, i.opcode = .stsfld ∧ ∃ r, i.operand = .field r ∧
    r.fieldType = WellKnown.boolean ∧ r.owner.denotes owner = true
  /-- An instance is constructed. -/
  constructs : ∃ i ∈ code, i.opcode = .newobj ∧ ∃ r, i.operand = .method r ∧
    r.denotes constructor = true

/-- The code raises a flag of the type and constructs an instance of it. -/
structure SetsUp (t : TypeDecl) (constructor : MethodDecl) (code : List Instruction) : Prop where
  /-- Something is stored to a truth value of the type. -/
  stores : ∃ i ∈ code, i.opcode = .stsfld ∧ ∃ r, i.operand = .field r ∧
    r.fieldType = WellKnown.boolean ∧ r.owner.denotes t.reference = true
  /-- An instance is constructed. -/
  constructs : ∃ i ∈ code, i.opcode = .newobj ∧ ∃ r, i.operand = .method r ∧
    r.denotes (constructor.reference t.reference) = true

namespace Instruction

theorem field?_eq_some_iff {i : Instruction} {r : FieldRef} :
    i.field? = some r ↔ i.operand = .field r := by
  cases h : i.operand <;> simp [field?, h]

theorem method?_eq_some_iff {i : Instruction} {r : MethodRef} :
    i.method? = some r ↔ i.operand = .method r := by
  cases h : i.operand <;> simp [method?, h]

end Instruction

/-- What qualifies a method is that it sets its type up. -/
theorem qualifies_iff_prepares {owner : TypeRef} {constructor : MethodRef}
    {code : List Instruction} :
    InitializerLocator.qualifies owner constructor code = true ↔
      Prepares owner constructor code := by
  simp only [InitializerLocator.qualifies, InitializerLocator.raisesFlag,
    InitializerLocator.constructs, Bool.and_eq_true, List.any_eq_true, beq_iff_eq,
    Option.any_eq_true, Instruction.field?_eq_some_iff, Instruction.method?_eq_some_iff]
  exact ⟨fun ⟨hstores, hconstructs⟩ => ⟨hstores, hconstructs⟩,
    fun ⟨hstores, hconstructs⟩ => ⟨hstores, hconstructs⟩⟩

theorem qualifies_iff {t : TypeDecl} {constructor : MethodDecl} {code : List Instruction} :
    InitializerLocator.qualifies t.reference (constructor.reference t.reference) code = true ↔
      SetsUp t constructor code := by
  rw [qualifies_iff_prepares]
  exact ⟨fun h => ⟨h.stores, h.constructs⟩, fun h => ⟨h.stores, h.constructs⟩⟩

/-- A static method with a body, without parameters and result and with few enough local variables,
which without its filler sets the type up. -/
structure Initializes (filler : List Opcode) (maxLocals : Nat) (t : TypeDecl)
    (constructor d : MethodDecl) (b : Body) : Prop where
  isStatic : d.isStatic = true
  signature : d.signature = Signature.void
  body : d.body = some b
  locals : b.locals.length ≤ maxLocals
  setsUp : SetsUp t constructor (b.strip filler).code

/-! ### Rewriting bodies -/

/-- Storing what a normalizer has made of the body of a touched method is rewriting. -/
theorem Workbench.rewritten_storeNormalized {w : Workbench} {rewrites : Body → Body → Prop}
    {touched : Token → Prop} {t : Token} {b b' : Body} (ht : touched t)
    (hbody : (w.module.method? t).bind MethodDecl.body = some b) (hrewrites : rewrites b b')
    (message : String) :
    w.module.Rewritten rewrites touched (w.storeNormalized t b b' message).module := by
  rw [storeNormalized]
  split
  · exact .refl w.module
  · exact .setBody ht hbody hrewrites

namespace InitializerLocator

variable {l : InitializerLocator} {filler : List Opcode}

/-- The walk through candidates ends without an error, rewrites the bodies of candidates alone, and
finds a method if one of the candidates qualifies without its filler. -/
theorem firstQualified_spec (hl : l.normalizer = .stripping filler) (owner : TypeRef)
    (constructor : MethodRef) (tokens : List Token) (w : Workbench) :
    ∃ found w', l.firstQualified owner constructor tokens w = .ok found w' ∧
      w.module.Reworked (Body.strip filler) (· ∈ tokens) w'.module ∧
      ∀ t ∈ tokens, ∀ b, (w.module.method? t).bind MethodDecl.body = some b →
        qualifies owner constructor (b.strip filler).code = true → found.isSome = true := by
  -- the workbench varies, for every candidate that does not qualify leaves its body stripped
  induction tokens generalizing w with
  | nil => exact ⟨none, w, rfl, .refl w.module, fun t ht => absurd ht List.not_mem_nil⟩
  | cons t rest ih =>
      rw [firstQualified]
      cases hbody : (w.module.method? t).bind MethodDecl.body with
      | none =>
          obtain ⟨found, w', hwalk, hreworked, hfound⟩ := ih w
          refine ⟨found, w', hwalk, hreworked.mono fun t' => List.mem_cons_of_mem t, ?_⟩
          intro t' ht' b hb hq
          rcases List.mem_cons.mp ht' with rfl | ht'
          · rw [hbody] at hb
            cases hb
          · exact hfound t' ht' b hb hq
      | some body =>
          simp only [hl, Normalizer.stripping]
          generalize hstored : w.storeNormalized t body (body.strip filler)
            ("normalized initializer candidate " ++ t.text) = stored
          have hstep : w.module.Reworked (Body.strip filler) (· ∈ t :: rest) stored.module := by
            rw [← hstored]
            refine Workbench.rewritten_storeNormalized ?_ hbody ?_ _
            · exact List.mem_cons_self
            · rfl
          split
          · exact ⟨some t, stored, rfl, hstep, fun _ _ _ _ _ => rfl⟩
          · rename_i hdisqualified
            obtain ⟨found, w', hwalk, hreworked, hfound⟩ := ih stored
            refine ⟨found, w', hwalk, hstep.trans (Body.strip_strip filler)
              (hreworked.mono fun t' => List.mem_cons_of_mem t), ?_⟩
            intro t' ht' b hb hq
            rcases List.mem_cons.mp ht' with rfl | ht'
            · rw [hbody] at hb
              cases hb
              exact absurd hq hdisqualified
            · -- the body of a later candidate may be stripped by now, which changes no answer
              rcases hstep.body_eq hb with hsame | hstripped
              · exact hfound t' ht' b hsame hq
              · exact hfound t' ht' (b.strip filler) hstripped (by rwa [Body.strip_strip])

/-- In a well-formed module the constructor is found on the type itself. -/
theorem constructor?_eq {m : Module} (hwf : m.WellFormed) {token : Token} {owner : TypeDecl}
    (howner : m.type? token = some owner) {d : MethodDecl}
    (hd : (m.methodsOf owner).find? MethodDecl.isConstructor = some d) :
    constructor? m token = some (d.reference owner.reference) := by
  have htype := Module.mem_of_type? howner
  have hmem := List.mem_of_find?_eq_some hd
  rw [hwf.methodsOf_eq htype, List.mem_filter, decide_eq_true_eq] at hmem
  rw [constructor?, howner]
  simp only [Option.bind_eq_bind, Option.bind_some, hd]
  rw [Module.reference?, hwf.method?_token hmem.1]
  simp only [Option.bind_eq_bind, Option.bind_some, hmem.2, hwf.type?_token htype]
  rfl

/-- The candidates are static methods of the type with a body, without parameters and result, and
with few enough local variables. -/
theorem mem_candidates_iff {m : Module} {owner : TypeDecl} {t : Token} :
    t ∈ l.candidates m owner ↔ ∃ d ∈ m.methodsOf owner, d.isStaticWithBody = true ∧
      d.signature = Signature.void ∧ d.locals.length ≤ l.maxLocals ∧ d.token = t := by
  simp only [candidates, List.mem_map, List.mem_filter, Bool.and_eq_true, beq_iff_eq,
    decide_eq_true_eq, and_assoc]

/-- If a type has an initializer, the search finds one. -/
theorem locate_spec (hl : l.normalizer = .stripping filler) {w : Workbench}
    (hwf : w.module.WellFormed) {token : Token} {owner : TypeDecl}
    (howner : w.module.type? token = some owner) {constructor d : MethodDecl} {b : Body}
    (hd : d ∈ w.module.methodsOf owner)
    (hinit : Initializes filler l.maxLocals owner constructor d b) :
    ∃ found w', l.locate token (constructor.reference owner.reference) w = .ok (some found) w' ∧
      w.module.Reworked (Body.strip filler) (· ∈ l.candidates w.module owner) w'.module := by
  have hcandidate : d.token ∈ l.candidates w.module owner := by
    refine mem_candidates_iff.mpr ⟨d, hd, ?_, hinit.signature, ?_, rfl⟩
    · rw [MethodDecl.isStaticWithBody, hinit.isStatic, hinit.body]
      rfl
    · rw [MethodDecl.locals, hinit.body]
      exact hinit.locals
  have hbody : (w.module.method? d.token).bind MethodDecl.body = some b := by
    rw [hwf.methodsOf_eq (Module.mem_of_type? howner), List.mem_filter] at hd
    rw [hwf.method?_token hd.1]
    exact hinit.body
  obtain ⟨found, w', hwalk, hreworked, hfound⟩ := firstQualified_spec hl owner.reference
    (constructor.reference owner.reference) (l.candidates w.module owner) w
  obtain ⟨t, rfl⟩ := Option.isSome_iff_exists.mp
    (hfound d.token hcandidate b hbody (qualifies_iff.mpr hinit.setsUp))
  refine ⟨t, w', ?_, hreworked⟩
  rw [locate, howner]
  exact hwalk

end InitializerLocator

end ResolverRecovery
