import ResolverRecovery.Detection.SealedResource
import ResolverRecovery.Proofs.Metadata.Resources

/-!
# Storing one resource after the other

The resources of a module are a list in which a name may occur twice, but to whoever stores data
under names and looks them up it is a map that remembers the order of its names.  A resource that
is there keeps its place, its name and its flags, and a name that is not there yet is put at the
end.  Of resources that share a name only the first takes part.

## Main definitions

* `Module.upsertAll`: data stored under names one after the other, with what the calls have told.
* `lastStored?`: the data that a name ends up with.
* `Module.newNames`: the names that are put at the end.
* `Module.Upserted`: what is left of a module afterwards.

## Main statements

* `Module.getElem?_storeData`, `Module.map_name_storeData`: what one call does, row by row.
* `Module.Upserted.cons`: a call goes before others.
* `Module.upserted_upsertAll`: what any number of calls does.
-/

namespace ResolverRecovery

/-! ### What is stored -/

/-- The data that are stored last under a name. -/
def lastStored? (stored : List NamedResource) (name : String) : Option (List UInt8) :=
  (stored.reverse.find? fun r => r.name == name).map NamedResource.data

theorem lastStored?_cons (r : NamedResource) (rest : List NamedResource) (name : String) :
    lastStored? (r :: rest) name =
      (lastStored? rest name).or (if r.name = name then some r.data else none) := by
  rw [lastStored?, List.reverse_cons, List.find?_append, Option.map_or, ← lastStored?,
    List.find?_singleton]
  simp only [beq_iff_eq]
  split <;> rfl

theorem lastStored?_cons_of_ne {r : NamedResource} {name : String} (hne : r.name ≠ name)
    (rest : List NamedResource) : lastStored? (r :: rest) name = lastStored? rest name := by
  rw [lastStored?_cons, if_neg hne, Option.or_none]

namespace Module

/-! ### One call -/

section StoreData

variable {name : String} {data : List UInt8} {resources : List Resource}

theorem fst_storeData :
    (storeData name data resources).1 = (resources.find? fun r => r.name == name).isSome := by
  induction resources with
  | nil => rfl
  | cons first rest ih =>
      by_cases hname : first.name = name
      · simp [storeData, hname]
      · simp [storeData, hname, ih]

/-- The names stay where they are, and one that is not there is put at the end. -/
theorem map_name_storeData :
    (storeData name data resources).2.map Resource.name = resources.map Resource.name ++
      if name ∈ resources.map Resource.name then [] else [name] := by
  induction resources with
  | nil => rfl
  | cons first rest ih =>
      by_cases hname : first.name = name
      · simp [storeData, hname]
      · simp [storeData, hname, Ne.symm hname, ih]

theorem storeData_of_not_mem (hname : name ∉ resources.map Resource.name) :
    (storeData name data resources).2 = resources ++ [.internal name data] := by
  induction resources with
  | nil => rfl
  | cons first rest ih =>
      rw [List.map_cons, List.mem_cons, not_or] at hname
      simp [storeData, Ne.symm hname.1, ih hname.2]

/-- The first resource of the name is given the data, and no other resource is changed. -/
theorem getElem?_storeData {i : Nat} {r : Resource} (h : resources[i]? = some r) :
    (storeData name data resources).2[i]? = some { r with
      data :=
        if r.name = name ∧ name ∉ (resources.map Resource.name).take i then data else r.data } := by
  induction resources generalizing i with
  | nil => cases h
  | cons first rest ih =>
      by_cases hname : first.name = name
      · cases i with
        | zero =>
            cases h
            simp [storeData, hname]
        | succ i =>
            rw [List.getElem?_cons_succ] at h
            simp [storeData, hname, h]
      · cases i with
        | zero =>
            cases h
            simp [storeData, hname]
        | succ i =>
            rw [List.getElem?_cons_succ] at h
            simp [storeData, hname, Ne.symm hname, ih h]

/-- The name has the data afterwards, whether or not it was there. -/
theorem data_find?_storeData :
    ((storeData name data resources).2.find? fun r => r.name == name).map Resource.data =
      some data := by
  induction resources with
  | nil => simp [storeData, Resource.internal]
  | cons first rest ih =>
      by_cases hname : first.name = name
      · simp [storeData, hname]
      · simp [storeData, hname, ih]

end StoreData

/-! ### Many calls -/

/-- Stores data under names, one after the other, and lists what the calls tell. -/
def upsertAll : Module → List NamedResource → List Bool × Module
  | m, [] => ([], m)
  | m, r :: rest =>
    let (found, m) := m.upsertResource r.name r.data
    let (answers, m) := m.upsertAll rest
    (found :: answers, m)

/-- The names of the resources in order. -/
def resourceNames (m : Module) : List String := m.resources.map Resource.name

/-- The names that are not there, each of them once, in the order in which something is stored under
them for the first time. -/
def newNames (m : Module) (stored : List NamedResource) : List String :=
  ((stored.map NamedResource.name).filter fun name => name ∉ m.resourceNames).eraseDups

/-- What is left of a module when data were stored in it one after the other, and what the calls
have told. -/
structure Upserted (m : Module) (stored : List NamedResource) (answers : List Bool)
    (m' : Module) : Prop where
  /-- Nothing but the resources has changed. -/
  rest : m' = { m with resources := m'.resources }
  /-- A name has the data that were stored last under it, or those of its first resource. -/
  data : ∀ name, (m'.resource? name).map Resource.data =
    (lastStored? stored name).or ((m.resource? name).map Resource.data)
  /-- A resource keeps its position, its name and its flags, and if one of its name stands before
  it, its data as well. -/
  kept : ∀ (i : Nat) (r : Resource), m.resources[i]? = some r →
    m'.resources[i]? = some { r with data :=
      if r.name ∈ m.resourceNames.take i then r.data
      else (lastStored? stored r.name).getD r.data }
  /-- Behind these there is an internal resource for each of the new names. -/
  added : m'.resources.drop m.resources.length = (m.newNames stored).map fun name =>
    .internal name ((lastStored? stored name).getD [])
  /-- There are as many answers as calls. -/
  length_answers : answers.length = stored.length
  /-- A call tells whether the name was there when it was made. -/
  told : ∀ before r after, stored = before ++ r :: after →
    answers[before.length]? = some ((m.upsertAll before).2.resource? r.name).isSome

variable {m m' : Module} {r : NamedResource} {rest : List NamedResource} {answers : List Bool}

theorem mem_resourceNames_upsertResource :
    r.name ∈ (m.upsertResource r.name r.data).2.resourceNames := by
  show r.name ∈ (storeData r.name r.data m.resources).2.map Resource.name
  rw [map_name_storeData]
  split
  · rename_i hmem
    exact List.mem_append_left _ hmem
  · exact List.mem_append_right _ (List.mem_singleton_self _)

theorem resourceNames_upsertResource (name : String) (data : List UInt8) :
    (m.upsertResource name data).2.resourceNames =
      m.resourceNames ++ if name ∈ m.resourceNames then [] else [name] :=
  map_name_storeData

/-- The new names begin with that of the first call, if it is new. -/
theorem newNames_cons (m : Module) (r : NamedResource) (rest : List NamedResource) :
    m.newNames (r :: rest) = (if r.name ∈ m.resourceNames then [] else [r.name]) ++
      (m.upsertResource r.name r.data).2.newNames rest := by
  simp only [newNames, resourceNames_upsertResource, List.map_cons, List.filter_cons]
  by_cases hmem : r.name ∈ m.resourceNames
  · simp [hmem]
  · simp only [hmem, not_false_eq_true, decide_true, if_true, if_false, List.eraseDups_cons,
      List.filter_filter, List.singleton_append, List.mem_append, List.mem_singleton, not_or]
    congr 3
    funext name
    by_cases hname : name = r.name
    · simp [hname]
    · simp [hname]

theorem ne_of_mem_newNames {name : String} (hname : name ∈ m.newNames rest)
    (hmem : r.name ∈ m.resourceNames) : r.name ≠ name := by
  rintro rfl
  simp only [newNames, List.mem_eraseDups, List.mem_filter, decide_eq_true_eq] at hname
  exact hname.2 hmem

namespace Upserted

theorem nil (m : Module) : m.Upserted [] [] m where
  rest := rfl
  data _ := rfl
  kept i r h := by
    rw [h]
    simp [lastStored?]
  added := by simp [newNames]
  length_answers := rfl
  told before r after h := by simp at h

variable (h : (m.upsertResource r.name r.data).2.Upserted rest answers m')
include h

theorem data_cons (name : String) :
    (m'.resource? name).map Resource.data =
      (lastStored? (r :: rest) name).or ((m.resource? name).map Resource.data) := by
  rw [h.data, lastStored?_cons, Option.or_assoc]
  congr 1
  by_cases hname : r.name = name
  · subst hname
    rw [if_pos rfl]
    exact data_find?_storeData
  · rw [if_neg hname, resource?_upsertResource_of_ne (Ne.symm hname), Option.none_or]

theorem kept_cons {i : Nat} {q : Resource} (hq : m.resources[i]? = some q) :
    m'.resources[i]? = some { q with
      data :=
        if q.name ∈ m.resourceNames.take i then q.data
        else (lastStored? (r :: rest) q.name).getD q.data } := by
  have hlength : i ≤ m.resourceNames.length := by
    rw [resourceNames, List.length_map]
    exact Nat.le_of_lt (List.getElem?_eq_some_iff.mp hq).1
  have hfirst : (m.upsertResource r.name r.data).2.resources[i]? = some { q with
      data :=
        if q.name = r.name ∧ r.name ∉ m.resourceNames.take i then r.data else q.data } :=
    getElem?_storeData hq
  rw [h.kept i _ hfirst, resourceNames_upsertResource, List.take_append_of_le_length hlength]
  congr 2
  by_cases hshadowed : q.name ∈ m.resourceNames.take i
  · -- the first call passes over it as well
    simp only [if_pos hshadowed]
    split
    · rename_i hfirst
      exact absurd (hfirst.1 ▸ hshadowed) hfirst.2
    · rfl
  · simp only [if_neg hshadowed, lastStored?_cons, Option.getD_or]
    congr 1
    by_cases hname : r.name = q.name
    · rw [if_pos ⟨hname.symm, hname ▸ hshadowed⟩, if_pos hname, Option.getD_some]
    · rw [if_neg fun hfirst => hname hfirst.1.symm, if_neg hname, Option.getD_none]

theorem added_cons : m'.resources.drop m.resources.length =
    (m.newNames (r :: rest)).map fun name =>
      .internal name ((lastStored? (r :: rest) name).getD []) := by
  have hrest : ((m.upsertResource r.name r.data).2.newNames rest).map (fun name =>
      Resource.internal name ((lastStored? (r :: rest) name).getD [])) =
      m'.resources.drop (m.upsertResource r.name r.data).2.resources.length := by
    rw [h.added]
    refine List.map_congr_left fun name hname => ?_
    rw [lastStored?_cons_of_ne (ne_of_mem_newNames hname mem_resourceNames_upsertResource)]
  rw [newNames_cons, List.map_append, hrest]
  by_cases hmem : r.name ∈ m.resourceNames
  · have hlength : (m.upsertResource r.name r.data).2.resources.length = m.resources.length := by
      have hnames := resourceNames_upsertResource (m := m) r.name r.data
      rw [if_pos hmem, List.append_nil] at hnames
      simpa [resourceNames] using congrArg List.length hnames
    rw [if_pos hmem, List.map_nil, List.nil_append, hlength]
  · have hstored : (m.upsertResource r.name r.data).2.resources =
        m.resources ++ [.internal r.name r.data] := storeData_of_not_mem hmem
    have hfresh : m'.resources[m.resources.length]? =
        some (.internal r.name ((lastStored? (r :: rest) r.name).getD [])) := by
      have hnames : (m.upsertResource r.name r.data).2.resourceNames.take m.resources.length =
          m.resourceNames := by
        rw [resourceNames_upsertResource, ← List.length_map (f := Resource.name)]
        exact List.take_left
      have hunshadowed : (Resource.internal r.name r.data).name ∉ m.resourceNames := hmem
      rw [h.kept _ (.internal r.name r.data) (by rw [hstored]; simp), hnames,
        if_neg hunshadowed, lastStored?_cons, if_pos rfl, Option.getD_or]
      rfl
    rw [List.drop_eq_getElem?_toList_append, hfresh, if_neg hmem, hstored]
    simp

theorem told_cons {before after : List NamedResource} {s : NamedResource}
    (hsplit : r :: rest = before ++ s :: after) :
    ((m.upsertResource r.name r.data).1 :: answers)[before.length]? =
      some ((m.upsertAll before).2.resource? s.name).isSome := by
  cases before with
  | nil =>
      cases hsplit
      exact congrArg some fst_storeData
  | cons first before =>
      cases hsplit
      exact h.told before s after rfl

/-- A call goes before others. -/
theorem cons : m.Upserted (r :: rest) ((m.upsertResource r.name r.data).1 :: answers) m' where
  rest := h.rest
  data := h.data_cons
  kept _ _ := h.kept_cons
  added := h.added_cons
  length_answers := congrArg Nat.succ h.length_answers
  told _ _ _ := h.told_cons

end Upserted

/-- Storing data under names one after the other is storing them in a map that remembers the order
of its names: every name ends up with the data that were stored last under it, the resources that
were there keep their places, their names and their flags, and those behind another one of their
name their data; the new names follow, each of them once, as internal resources in the order of
their first call; and a call tells whether its name was there. -/
theorem upserted_upsertAll (m : Module) (stored : List NamedResource) :
    m.Upserted stored (m.upsertAll stored).1 (m.upsertAll stored).2 := by
  induction stored generalizing m with
  | nil => exact .nil m
  | cons r rest ih => exact (ih _).cons

/-- The second resource of a name takes no part, and a new name is there for the next call. -/
example :
    upsertAll ⟨"app.exe", [], [], [⟨"a", 0, [1]⟩, ⟨"a", 1, [2]⟩], 0⟩
        [⟨"b", [3]⟩, ⟨"a", [4]⟩, ⟨"b", [5]⟩] =
      ([false, true, true], ⟨"app.exe", [], [],
        [⟨"a", 0, [4]⟩, ⟨"a", 1, [2]⟩, .internal "b" [5]], 0⟩) := by
  decide

end Module

end ResolverRecovery
