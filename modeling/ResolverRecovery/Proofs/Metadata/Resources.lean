import ResolverRecovery.Metadata.Module

/-!
# Storing resources

Storing data under a name gives it to the first resource of that name, and to no other one.

## Main definitions

* `Module.ReplacesFirst`: lists of resources that differ in the data of the first one of a name.

## Main statements

* `Module.replacesFirst_upsertResource`: storing data under a name that is there changes nothing
  else.
* `Module.resource?_upsertResource`: the resource of the name has the data and keeps its flags.
* `Module.resource?_upsertResource_of_ne`: the resources of other names are as before.
-/

namespace ResolverRecovery.Module

variable {name other : String} {data : List UInt8}

/-- The first resource of the name has the data, and everything else is the same. -/
def ReplacesFirst (name : String) (data : List UInt8) (resources resources' : List Resource) :
    Prop :=
  ∃ before r after, resources = before ++ r :: after ∧ (∀ other ∈ before, other.name ≠ name) ∧
    r.name = name ∧ resources' = before ++ { r with data := data } :: after

/-- If the name is there, storing data under it replaces the data of its first resource. -/
theorem replacesFirst_storeData {resources : List Resource} {r : Resource}
    (h : resources.find? (fun r => r.name == name) = some r) :
    ReplacesFirst name data resources (storeData name data resources).2 := by
  induction resources with
  | nil => cases h
  | cons first rest ih =>
      by_cases hname : first.name = name
      · exact ⟨[], first, rest, rfl, fun _ hmem => absurd hmem List.not_mem_nil, hname, by
          rw [storeData, if_pos hname, List.nil_append]⟩
      · have hother : (first.name == name) = false := beq_eq_false_iff_ne.mpr hname
        simp only [List.find?_cons, hother] at h
        obtain ⟨before, r', after, hsplit, hbefore, hr', hstored⟩ := ih h
        refine ⟨first :: before, r', after, by rw [hsplit, List.cons_append], ?_, hr', ?_⟩
        · intro x hx
          rcases List.mem_cons.mp hx with rfl | hx
          · exact hname
          · exact hbefore x hx
        · rw [storeData, if_neg hname, List.cons_append, ← hstored]

/-- The first resource of the name is given the data, with its attributes kept. -/
theorem find?_storeData {resources : List Resource} {r : Resource}
    (h : resources.find? (fun r => r.name == name) = some r) :
    (storeData name data resources).2.find? (fun r => r.name == name) =
      some { r with data := data } := by
  induction resources with
  | nil => cases h
  | cons first rest ih =>
      by_cases hname : first.name = name
      · simp only [List.find?_cons, hname, beq_self_eq_true] at h
        cases h
        simp only [storeData, List.find?_cons, hname, if_true, beq_self_eq_true]
      · have hother : (first.name == name) = false := beq_eq_false_iff_ne.mpr hname
        simp only [List.find?_cons, hother] at h
        simp only [storeData, if_neg hname, List.find?_cons, hother]
        exact ih h

theorem find?_storeData_of_ne (hne : other ≠ name) (resources : List Resource) :
    (storeData name data resources).2.find? (fun r => r.name == other) =
      resources.find? fun r => r.name == other := by
  induction resources with
  | nil =>
      have hinternal : ((Resource.internal name data).name == other) = false :=
        beq_eq_false_iff_ne.mpr hne.symm
      simp only [storeData, List.find?_cons, hinternal, List.find?_nil]
  | cons first rest ih =>
      by_cases hname : first.name = name
      · have hother : (first.name == other) = false :=
          beq_eq_false_iff_ne.mpr fun heq => hne (heq.symm.trans hname)
        simp only [storeData, if_pos hname, List.find?_cons, hother]
      · simp only [storeData, if_neg hname, List.find?_cons, ih]

variable {m : Module}

theorem replacesFirst_upsertResource {r : Resource} (h : m.resource? name = some r) :
    ReplacesFirst name data m.resources (m.upsertResource name data).2.resources :=
  replacesFirst_storeData h

/-- The resource of the name has the data and keeps its attributes. -/
theorem resource?_upsertResource {r : Resource} (h : m.resource? name = some r) :
    (m.upsertResource name data).2.resource? name = some { r with data := data } :=
  find?_storeData h

theorem resource?_upsertResource_of_ne (hne : other ≠ name) :
    (m.upsertResource name data).2.resource? other = m.resource? other :=
  find?_storeData_of_ne hne m.resources

end ResolverRecovery.Module
