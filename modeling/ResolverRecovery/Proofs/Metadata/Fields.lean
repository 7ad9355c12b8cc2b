import ResolverRecovery.Proofs.Metadata.Built

/-!
# Fields behind references

A reference to a field names the type that declares it.  The look-up goes to the first type that is
denoted and looks for the field there and nowhere else.  A type may be declared more than once in a
module, and then a declaration that lacks the field hides the fields of those behind it.

## Main definitions

* `TypeDecl.Declares`, `TypeDecl.FirstField`: the fields of a type by name.
* `Module.FirstDeclares`: the first field of a module that a reference may mean.
* `Module.Hides`: the field is looked for in a type that does not declare it.

## Main statements

* `Module.resolveField?_unhidden`: a reference leads to the first field that it may mean, unless
  that is hidden.
* `Module.resolveField?_split`: a field that is declared and not found.
-/

namespace ResolverRecovery

/-! ### The fields of a type -/

namespace TypeDecl

/-- The type has a field of the name. -/
def Declares (t : TypeDecl) (name : String) : Prop := ∃ f ∈ t.fields, f.name = name

/-- The field is the first of the name in the type. -/
def FirstField (t : TypeDecl) (name : String) (f : FieldDecl) : Prop :=
  f.name = name ∧ ∃ before after, t.fields = before ++ f :: after ∧ ∀ f' ∈ before, f'.name ≠ name

variable {t : TypeDecl} {name : String} {f : FieldDecl}

theorem isSome_field?_iff : (t.field? name).isSome = true ↔ t.Declares name := by
  simp only [field?, Declares, List.find?_isSome, beq_iff_eq]

theorem field?_eq_none_iff : t.field? name = none ↔ ¬t.Declares name := by
  rw [← isSome_field?_iff, Bool.not_eq_true, Option.isSome_eq_false_iff, Option.isNone_iff_eq_none]

theorem field?_eq_some_iff : t.field? name = some f ↔ t.FirstField name f := by
  simp only [field?, FirstField, List.find?_eq_some_iff_append, beq_iff_eq, Bool.not_eq_true',
    beq_eq_false_iff_ne]

end TypeDecl

namespace Module

variable {m : Module} {r : FieldRef} {f : FieldDecl}

/-! ### The fields of a module -/

/-- The types that a reference denotes, in order of declaration. -/
def denoted (m : Module) (r : TypeRef) : List TypeDecl := m.types.filter fun t => t.isDenotedBy r

/-- The field is the first of the name in a type that the owner of the reference denotes, and no
such type before that one declares the name. -/
def FirstDeclares (m : Module) (r : FieldRef) (f : FieldDecl) : Prop :=
  ∃ before t after, m.types = before ++ t :: after ∧
    (∀ t' ∈ before, t'.isDenotedBy r.owner = true → ¬t'.Declares r.name) ∧
    t.isDenotedBy r.owner = true ∧ t.FirstField r.name f

/-- The first type that the owner of the reference denotes does not declare the name. -/
def Hides (m : Module) (r : FieldRef) : Prop :=
  ∃ t, (m.denoted r.owner).head? = some t ∧ ¬t.Declares r.name

theorem resolveField?_eq :
    m.resolveField? r = (m.denoted r.owner).head?.bind fun t => t.field? r.name := by
  rw [resolveField?, denoted, List.head?_filter]

/-- The first field that a reference may mean is found by a search through the types that its owner
denotes. -/
theorem firstDeclares_iff :
    m.FirstDeclares r f ↔ (m.denoted r.owner).findSome? (fun t => t.field? r.name) = some f := by
  have hsearch : (m.denoted r.owner).findSome? (fun t => t.field? r.name) =
      m.types.findSome? fun t => if t.isDenotedBy r.owner then t.field? r.name else none := by
    rw [denoted, ← List.head?_filterMap, List.filterMap_filter, List.head?_filterMap]
  rw [hsearch, List.findSome?_eq_some_iff]
  refine exists_congr fun before => exists_congr fun t => exists_congr fun after =>
    and_congr_right fun _ => ?_
  rw [and_comm, and_assoc]
  simp only [Option.ite_none_right_eq_some, ite_eq_right_iff, TypeDecl.field?_eq_some_iff,
    TypeDecl.field?_eq_none_iff, and_assoc]

/-- What is found is the first field that the reference may mean, unless the first of the types that
its owner denotes hides it. -/
theorem resolveField?_eq_some_iff :
    m.resolveField? r = some f ↔ m.FirstDeclares r f ∧ ¬m.Hides r := by
  rw [resolveField?_eq, firstDeclares_iff, Hides]
  cases m.denoted r.owner with
  | nil => simp
  | cons t rest =>
      rw [List.head?_cons, Option.bind_some, List.findSome?_cons]
      simp only [Option.some.injEq, exists_eq_left', ← TypeDecl.field?_eq_none_iff]
      cases t.field? r.name with
      | none => simp
      | some f' => simp

theorem exists_firstDeclares_iff :
    (∃ f, m.FirstDeclares r f) ↔
      ∃ t ∈ m.types, t.isDenotedBy r.owner = true ∧ t.Declares r.name := by
  simp only [firstDeclares_iff, ← Option.isSome_iff_exists, List.findSome?_isSome_iff,
    TypeDecl.isSome_field?_iff, denoted, List.mem_filter, and_assoc]

theorem isSome_resolveField?_iff :
    (m.resolveField? r).isSome = true ↔
      (∃ t ∈ m.types, t.isDenotedBy r.owner = true ∧ t.Declares r.name) ∧ ¬m.Hides r := by
  simp only [Option.isSome_iff_exists, resolveField?_eq_some_iff, exists_and_right,
    exists_firstDeclares_iff]

/-- Where only one type is denoted, nothing is hidden from a reference that means anything. -/
theorem not_hides_of_firstDeclares (hsingle : (m.denoted r.owner).length ≤ 1)
    (h : m.FirstDeclares r f) : ¬m.Hides r := by
  rintro ⟨t, hhead, hlacks⟩
  obtain ⟨t', ht', hdenoted, hdeclares⟩ := exists_firstDeclares_iff.mp ⟨f, h⟩
  have hmem : t' ∈ m.denoted r.owner := List.mem_filter.mpr ⟨ht', hdenoted⟩
  obtain ⟨rest, hcons⟩ : ∃ rest, m.denoted r.owner = t :: rest := List.head?_eq_some_iff.mp hhead
  have hrest : rest = [] := by
    rw [hcons, List.length_cons] at hsingle
    exact List.length_eq_zero_iff.mp (by omega)
  rw [hcons, hrest, List.mem_singleton] at hmem
  exact hlacks (hmem ▸ hdeclares)

/-- A reference leads to the first field of its name in the types that its owner denotes, unless
the first of these types does not declare the name: then it leads nowhere, whatever the others
declare.  A type that is declared but once hides nothing. -/
theorem resolveField?_unhidden (m : Module) (r : FieldRef) :
    (∀ f, m.resolveField? r = some f ↔ m.FirstDeclares r f ∧ ¬m.Hides r) ∧
      ((m.resolveField? r).isSome = true ↔
        (∃ t ∈ m.types, t.isDenotedBy r.owner = true ∧ t.Declares r.name) ∧ ¬m.Hides r) ∧
      ((m.denoted r.owner).length ≤ 1 → ∀ f, m.resolveField? r = some f ↔ m.FirstDeclares r f) := by
  refine ⟨fun f => resolveField?_eq_some_iff, isSome_resolveField?_iff, fun hsingle f => ?_⟩
  rw [resolveField?_eq_some_iff]
  exact ⟨And.left, fun h => ⟨h, not_hides_of_firstDeclares hsingle h⟩⟩

/-! ### A type declared twice -/

namespace Sample

/-- A type that is declared twice, with a field in the second declaration, and a type that is
declared once. -/
def split : Module :=
  let m := ((Module.named "app.exe").addType "Obf" "T" none).2
  let m := (m.addType "Obf" "T" none).2
  let m := (m.addType "Obf" "U" none).2
  let m := Edit.apply (addField (.typeDef 2) "key" WellKnown.byteArray true (some [1, 2, 3])) m
  Edit.apply (addField (.typeDef 3) "vector" WellKnown.byteArray true (some [4, 5])) m

theorem split_built : split.Built :=
  ((Module.Built.named "app.exe").addType "Obf" "T" none
    |>.addType "Obf" "T" none
    |>.addType "Obf" "U" none
    |>.apply_addField (.typeDef 2) "key" WellKnown.byteArray true (some [1, 2, 3])
    |>.apply_addField (.typeDef 3) "vector" WellKnown.byteArray true (some [4, 5]))

/-- The field of the type that is declared twice. -/
def key : FieldDecl := ⟨.field 1, "key", WellKnown.byteArray, .typeDef 2, true, some [1, 2, 3]⟩

/-- The field of the type that is declared once. -/
def vector : FieldDecl := ⟨.field 2, "vector", WellKnown.byteArray, .typeDef 3, true, some [4, 5]⟩

/-- The first declaration of the type that is declared twice. -/
def bare : TypeDecl := ⟨.typeDef 1, "Obf", "T", "app.exe", none, [], []⟩

/-- Its second declaration. -/
def keyed : TypeDecl := ⟨.typeDef 2, "Obf", "T", "app.exe", none, [key], []⟩

/-- The type that is declared once. -/
def vectored : TypeDecl := ⟨.typeDef 3, "Obf", "U", "app.exe", none, [vector], []⟩

theorem types_split : split.types = [bare, keyed, vectored] := by decide +kernel

end Sample

/-- The field of a type that is declared once is found. -/
theorem resolveField?_unhidden_single :
    (Sample.split.denoted ⟨"Obf", "U", "app.exe"⟩).length ≤ 1 ∧
      Sample.split.resolveField? ⟨⟨"Obf", "U", "app.exe"⟩, "vector", WellKnown.byteArray⟩ =
        some Sample.vector := by
  have hdenoted : Sample.split.denoted ⟨"Obf", "U", "app.exe"⟩ = [Sample.vectored] := by
    simp [denoted, Sample.types_split, TypeDecl.isDenotedBy, Sample.bare, Sample.keyed,
      Sample.vectored]
  have hsingle : (Sample.split.denoted ⟨"Obf", "U", "app.exe"⟩).length ≤ 1 := by
    rw [hdenoted]
    exact Nat.le_refl 1
  refine ⟨hsingle, ((resolveField?_unhidden Sample.split _).2.2 hsingle _).mpr ?_⟩
  rw [firstDeclares_iff, hdenoted]
  decide +kernel

/-- A field is declared in the second declaration of a type, and a reference to it leads nowhere. -/
theorem resolveField?_split :
    Sample.split.Built ∧
      Sample.split.FirstDeclares ⟨⟨"Obf", "T", "app.exe"⟩, "key", WellKnown.byteArray⟩
        Sample.key ∧
      Sample.split.resolveField? ⟨⟨"Obf", "T", "app.exe"⟩, "key", WellKnown.byteArray⟩ = none := by
  have hdenoted : Sample.split.denoted ⟨"Obf", "T", "app.exe"⟩ = [Sample.bare, Sample.keyed] := by
    simp [denoted, Sample.types_split, TypeDecl.isDenotedBy, Sample.bare, Sample.keyed,
      Sample.vectored]
  refine ⟨Sample.split_built, ?_, ?_⟩
  · rw [firstDeclares_iff, hdenoted]
    decide +kernel
  · rw [resolveField?_eq, hdenoted]
    decide +kernel

end Module

end ResolverRecovery
