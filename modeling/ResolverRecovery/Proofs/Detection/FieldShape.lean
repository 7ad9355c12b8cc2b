import Mathlib.Data.List.Perm.Subperm
import ResolverRecovery.Detection.FieldShape

/-!
# What the shapes of resolver types are

A shape is told by how often some types occur among the fields.  Since the number of fields is fixed
as well, no other type can be among them, so that the fields are of the types of the shape, in one
order or another.

## Main definitions

* `FieldShape.types`: the types of the fields of a shape.

## Main statements

* `FieldCensus.ofFields_eq_iff`: fields have the same census if and only if their types are the same
  in some order.
* `FieldShape.ofFields?_eq_some_iff`: fields have a shape if and only if their types are those of
  the shape in some order.
* `FieldShape.ofFields?_congr`: the order of the fields does not matter, nor do their names, flags
  and data.
-/

namespace ResolverRecovery

variable {fields fields' : List FieldDecl}

/-! ### Censuses -/

namespace FieldCensus

/-- Fields have the same census if and only if their types are the same in some order. -/
theorem ofFields_eq_iff :
    ofFields fields' = ofFields fields ↔
      (fields'.map FieldDecl.fieldType).Perm (fields.map FieldDecl.fieldType) := by
  constructor
  · intro h
    exact List.perm_iff_count.mpr fun fieldType => congrArg (count · fieldType) h
  · intro h
    have hlength : fields'.length = fields.length := by simpa using h.length_eq
    exact FieldCensus.ext (funext h.count_eq) hlength

/-- Whether there are as many fields as required is told by the census as well. -/
theorem ofExactly?_congr (h : ofFields fields' = ofFields fields) (required : Nat) :
    ofExactly? fields' required = ofExactly? fields required := by
  have hlength : fields'.length = fields.length := congrArg total h
  rw [ofExactly?, ofExactly?, hlength, h]

end FieldCensus

/-! ### Shapes -/

namespace FieldShape

variable {shape : FieldShape}

/-- The types of the fields of a shape. -/
def types : FieldShape → List String
  | objectPair => [WellKnown.boolean, WellKnown.object, WellKnown.object]
  | assemblyAndNames => [WellKnown.boolean, WellKnown.assembly, WellKnown.stringArray]

@[simp]
theorem length_types (shape : FieldShape) : shape.types.length = fieldCount := by
  cases shape <;> rfl

/-- Fields as many as a shape has, among which the types of the shape occur as often as in it, have
no other types. -/
theorem perm_types (hlength : fields.length = fieldCount)
    (hcount : ∀ fieldType ∈ shape.types,
      shape.types.count fieldType ≤ (FieldCensus.ofFields fields).count fieldType) :
    (fields.map FieldDecl.fieldType).Perm shape.types := by
  have hsize : (fields.map FieldDecl.fieldType).length = shape.types.length := by
    rw [List.length_map, hlength, length_types]
  exact ((List.subperm_ext_iff.mpr hcount).perm_of_length_le (Nat.le_of_eq hsize)).symm

/-- A shape is told by the census alone. -/
theorem ofFields?_congr
    (h : (fields'.map FieldDecl.fieldType).Perm (fields.map FieldDecl.fieldType)) :
    ofFields? fields' = ofFields? fields := by
  rw [ofFields?, ofFields?, FieldCensus.ofExactly?_congr (FieldCensus.ofFields_eq_iff.mpr h)]

/-- Fields whose types are those of a shape have that shape. -/
theorem ofFields?_of_perm (h : (fields.map FieldDecl.fieldType).Perm shape.types) :
    ofFields? fields = some shape := by
  have hlength : fields.length = fieldCount := by simpa using h.length_eq
  have hcount : ∀ fieldType, (FieldCensus.ofFields fields).count fieldType =
      shape.types.count fieldType := h.count_eq
  simp only [ofFields?, FieldCensus.ofExactly?, if_pos hlength, hcount]
  cases shape <;> decide +kernel

/-- Fields have a shape if and only if their types are those of the shape in some order. -/
theorem ofFields?_eq_some_iff :
    ofFields? fields = some shape ↔ (fields.map FieldDecl.fieldType).Perm shape.types := by
  refine ⟨fun h => ?_, ofFields?_of_perm⟩
  rw [ofFields?, FieldCensus.ofExactly?] at h
  by_cases hlength : fields.length = fieldCount
  · simp only [if_pos hlength] at h
    split at h
    · cases h
    · rename_i hboolean
      rw [not_not] at hboolean
      split at h
      · -- two objects and a truth value
        rename_i hobject
        cases h
        refine perm_types hlength fun fieldType hmem => ?_
        simp only [types, List.mem_cons, List.not_mem_nil, or_false, or_self] at hmem
        rcases hmem with rfl | rfl
        · exact Nat.le_of_eq hboolean.symm
        · exact Nat.le_of_eq hobject.symm
      · split at h
        · -- an assembly, an array of names and a truth value
          rename_i hothers
          cases h
          refine perm_types hlength fun fieldType hmem => ?_
          simp only [types, List.mem_cons, List.not_mem_nil, or_false] at hmem
          rcases hmem with rfl | rfl | rfl
          · exact Nat.le_of_eq hboolean.symm
          · exact Nat.le_of_eq hothers.1.symm
          · exact Nat.le_of_eq hothers.2.symm
        · cases h
  · simp only [if_neg hlength] at h
    cases h

end FieldShape

end ResolverRecovery
