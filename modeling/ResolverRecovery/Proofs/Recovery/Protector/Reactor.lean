import ResolverRecovery.Proofs.Detection.FieldShape
import ResolverRecovery.Recovery.Protector.Reactor

/-!
# Which types are taken for resolvers that decrypt

A type is taken for a resolver of this family because of what it derives from, the types of its
fields, and the first of its methods that has the looks of a handler.  Names, attributes and data of
the fields say nothing, and neither does their order.

## Main definitions

* `Reactor.Fits`: the type looks like that of a resolver, its methods aside.
* `Reactor.Handles`: the method looks like a handler.

## Main statements

* `FieldShape.isSome_ofFields?_iff`: the two lists of field types that have a shape.
* `Reactor.classify_firstHandler`: which types are candidates, and which candidates they are.
-/

namespace ResolverRecovery

/-- Fields have a shape if and only if their types are those of one of the two, in some order. -/
theorem FieldShape.isSome_ofFields?_iff {fields : List FieldDecl} :
    (ofFields? fields).isSome = true ↔
      (fields.map FieldDecl.fieldType).Perm objectPair.types ∨
        (fields.map FieldDecl.fieldType).Perm assemblyAndNames.types := by
  rw [Option.isSome_iff_exists]
  constructor
  · rintro ⟨shape, hshape⟩
    have hperm := ofFields?_eq_some_iff.mp hshape
    cases shape with
    | objectPair => exact .inl hperm
    | assemblyAndNames => exact .inr hperm
  · rintro (hperm | hperm)
    · exact ⟨_, ofFields?_eq_some_iff.mpr hperm⟩
    · exact ⟨_, ofFields?_eq_some_iff.mpr hperm⟩

theorem TypeDecl.derivesFromObject_iff {t : TypeDecl} :
    t.derivesFromObject = true ↔ ∃ b, t.base = some b ∧ b.fullName = WellKnown.object := by
  simp only [derivesFromObject, Option.any_eq_true, beq_iff_eq]

namespace Reactor

/-- The type derives from the root of all classes, and its fields are, in some order, a truth value
and two objects, or a truth value, an assembly and an array of names. -/
structure Fits (t : TypeDecl) : Prop where
  base : ∃ b, t.base = some b ∧ b.fullName = WellKnown.object
  fields :
    (t.fields.map FieldDecl.fieldType).Perm
        [WellKnown.boolean, WellKnown.object, WellKnown.object] ∨
      (t.fields.map FieldDecl.fieldType).Perm
        [WellKnown.boolean, WellKnown.assembly, WellKnown.stringArray]

/-- The method is static and has a body, it takes an object and either event arguments or another
object and returns an assembly, and the oracle accepts it. -/
structure Handles (r : Reactor) (m : Module) (d : MethodDecl) : Prop where
  isStatic : d.isStatic = true
  hasBody : d.body.isSome = true
  signature :
    d.signature = ⟨WellKnown.assembly, [WellKnown.object, WellKnown.resolveEventArgs]⟩ ∨
      d.signature = ⟨WellKnown.assembly, [WellKnown.object, WellKnown.object]⟩
  accepted : r.oracle m d [WellKnown.string] r.strict = true

variable {r : Reactor} {m m' : Module} {t : TypeDecl} {c : Candidate}

theorem fits_iff :
    Fits t ↔ (t.derivesFromObject && (FieldShape.ofFields? t.fields).isSome) = true := by
  rw [Bool.and_eq_true, TypeDecl.derivesFromObject_iff, FieldShape.isSome_ofFields?_iff]
  exact ⟨fun h => ⟨h.base, h.fields⟩, fun h => ⟨h.1, h.2⟩⟩

theorem isHandler_iff {d : MethodDecl} : r.isHandler m d = true ↔ r.Handles m d := by
  simp only [isHandler, MethodDecl.isStaticWithBody, handlerSignatures, List.contains_iff_mem,
    List.mem_cons, List.not_mem_nil, or_false, Bool.and_eq_true]
  exact ⟨fun ⟨⟨⟨hstatic, hbody⟩, hsignature⟩, haccepted⟩ =>
      ⟨hstatic, hbody, hsignature, haccepted⟩,
    fun h => ⟨⟨⟨h.isStatic, h.hasBody⟩, h.signature⟩, h.accepted⟩⟩

/-- A type that fits is the candidate of the first handler among its methods. -/
theorem classify_of_fits (h : Fits t) :
    r.classify m t = ((m.methodsOf t).find? (r.isHandler m)).map fun d =>
      .ofType .reactor t d.token (.sealed (.ofHandler d.token)) := by
  rw [classify, if_pos (fits_iff.mp h)]

theorem fits_of_classify (h : r.classify m t = some c) : Fits t := by
  rw [classify] at h
  split at h
  · rename_i hfits
    exact fits_iff.mpr hfits
  · cases h

theorem isSome_classify_iff :
    (r.classify m t).isSome = true ↔ Fits t ∧ ∃ d ∈ m.methodsOf t, r.Handles m d := by
  constructor
  · intro h
    obtain ⟨c, hc⟩ := Option.isSome_iff_exists.mp h
    have hfits := fits_of_classify hc
    rw [classify_of_fits hfits, Option.isSome_map, List.find?_isSome] at h
    obtain ⟨d, hd, hhandler⟩ := h
    exact ⟨hfits, d, hd, isHandler_iff.mp hhandler⟩
  · rintro ⟨hfits, d, hd, hhandles⟩
    rw [classify_of_fits hfits, Option.isSome_map, List.find?_isSome]
    exact ⟨d, hd, isHandler_iff.mpr hhandles⟩

theorem classify_eq_some_iff :
    r.classify m t = some c ↔ Fits t ∧ ∃ before d after, m.methodsOf t = before ++ d :: after ∧
      (∀ d' ∈ before, ¬r.Handles m d') ∧ r.Handles m d ∧
      c = .ofType .reactor t d.token (.sealed (.ofHandler d.token)) := by
  constructor
  · intro h
    have hfits := fits_of_classify h
    rw [classify_of_fits hfits, Option.map_eq_some_iff] at h
    obtain ⟨d, hfind, rfl⟩ := h
    obtain ⟨hhandler, before, after, hsplit, hbefore⟩ := List.find?_eq_some_iff_append.mp hfind
    refine ⟨hfits, before, d, after, hsplit, fun d' hd' hhandles => ?_,
      isHandler_iff.mp hhandler, rfl⟩
    have hrefused := hbefore d' hd'
    rw [isHandler_iff.mpr hhandles] at hrefused
    cases hrefused
  · rintro ⟨hfits, before, d, after, hsplit, hbefore, hhandles, rfl⟩
    have hfind : (m.methodsOf t).find? (r.isHandler m) = some d := by
      refine List.find?_eq_some_iff_append.mpr
        ⟨isHandler_iff.mpr hhandles, before, after, hsplit, fun d' hd' => ?_⟩
      rw [Bool.not_eq_true', ← Bool.not_eq_true, isHandler_iff]
      exact hbefore d' hd'
    rw [classify_of_fits hfits, hfind, Option.map_some]

/-- The fields of a type count by their types alone, also if they are changed in the module,
provided that the oracle judges the methods as before. -/
theorem classify_of_perm {fields : List FieldDecl}
    (hfields : (fields.map FieldDecl.fieldType).Perm (t.fields.map FieldDecl.fieldType))
    (hmethods : m'.methods = m.methods) (horacle : r.oracle m' = r.oracle m) :
    r.classify m' { t with fields := fields } = r.classify m t := by
  have hlookup : m'.method? = m.method? := by
    funext token
    rw [Module.method?, Module.method?, Module.methodIndex?, Module.methodIndex?, hmethods]
  have hhandler : r.isHandler m' = r.isHandler m := by
    funext d
    rw [isHandler, isHandler, horacle]
  have hmembers : m'.methodsOf { t with fields := fields } = m.methodsOf t := by
    rw [Module.methodsOf, Module.methodsOf, hlookup]
  rw [classify, classify, FieldShape.ofFields?_congr hfields, hmembers, hhandler]
  rfl

/-- A type is a candidate if and only if it fits and one of its methods is a handler.  The candidate
is that of the first handler, of whose resource nothing else is known yet.  Other fields of the same
types, in whatever order, make no difference. -/
theorem classify_firstHandler (r : Reactor) (m : Module) (t : TypeDecl) :
    ((r.classify m t).isSome = true ↔ Fits t ∧ ∃ d ∈ m.methodsOf t, r.Handles m d) ∧
      (∀ c, r.classify m t = some c ↔
        Fits t ∧ ∃ before d after, m.methodsOf t = before ++ d :: after ∧
          (∀ d' ∈ before, ¬r.Handles m d') ∧ r.Handles m d ∧
          c = .ofType .reactor t d.token (.sealed (.ofHandler d.token))) ∧
      ∀ (m' : Module) (fields : List FieldDecl),
        (fields.map FieldDecl.fieldType).Perm (t.fields.map FieldDecl.fieldType) →
          m'.methods = m.methods → r.oracle m' = r.oracle m →
            r.classify m' { t with fields := fields } = r.classify m t :=
  ⟨isSome_classify_iff, fun _ => classify_eq_some_iff, fun _ _ => classify_of_perm⟩

end Reactor

end ResolverRecovery
