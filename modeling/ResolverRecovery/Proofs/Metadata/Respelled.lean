import Mathlib.Data.List.Forall2
import ResolverRecovery.Metadata.Module

/-!
# References in other spellings

The scope of a reference is the name of a module or assembly, and whoever writes it down may choose
between capital and small letters.  So a declaration is referred to in many spellings, which all
denote the same: that they do is an equivalence.  A look-up cannot tell one spelling from another.

## Main definitions

* `FieldRef.Respells`, `Operand.Respells`, `Body.Respells`: the same reference, operand or code in
  another spelling.
* `Module.Respells`: modules that are the same but for the spelling of references in their code.

## Main statements

* `TypeRef.equivalence_denotes`, `MethodRef.equivalence_denotes`: to denote one thing is an
  equivalence.
* `TypeDecl.isDenotedBy_eq_denotes`: a declaration is denoted by what denotes the same as its own
  reference.
* `FieldRef.Respells.resolveField?_eq`: every spelling of a reference leads to the same field.
* `Module.Respells.method?`, `Module.Respells.methodsOf`: reading methods.
* `Module.Respells.setBody`: storing a body in both modules.
-/

namespace ResolverRecovery

/-! ### Lists that correspond row by row -/

section Rows

variable {α : Type} {R : α → α → Prop} {rows rows' : List α}

theorem any_eq_of_forall₂ (h : List.Forall₂ R rows rows') {p p' : α → Bool}
    (hp : ∀ a a', R a a' → p' a' = p a) : rows'.any p' = rows.any p := by
  induction h with
  | nil => rfl
  | cons ha _ ih => rw [List.any_cons, List.any_cons, hp _ _ ha, ih]

theorem getElem?_of_forall₂ (h : List.Forall₂ R rows rows') (i : Nat) :
    Option.Rel R rows[i]? rows'[i]? := by
  induction h generalizing i with
  | nil => exact .none
  | cons ha _ ih =>
      cases i with
      | zero => exact .some ha
      | succ i => exact ih i

theorem modify_of_forall₂ (h : List.Forall₂ R rows rows') (i : Nat) {f f' : α → α}
    (hf : ∀ a a', R a a' → R (f a) (f' a')) :
    List.Forall₂ R (rows.modify i f) (rows'.modify i f') := by
  induction h generalizing i with
  | nil =>
      rw [List.modify_nil, List.modify_nil]
      exact .nil
  | cons ha hrest ih =>
      cases i with
      | zero => exact .cons (hf _ _ ha) hrest
      | succ i => exact .cons ha (ih i)

end Rows

/-! ### References to the same thing -/

/-- A comparison that is an equivalence does not tell apart what it holds for the same. -/
theorem same_congr {α : Type} {same : α → α → Bool}
    (hequivalence : Equivalence fun a b => same a b = true) {a a' b b' : α}
    (ha : same a a' = true) (hb : same b b' = true) : same a' b' = same a b := by
  rw [Bool.eq_iff_iff]
  constructor
  · intro h
    exact hequivalence.trans (hequivalence.trans ha h) (hequivalence.symm hb)
  · intro h
    exact hequivalence.trans (hequivalence.trans (hequivalence.symm ha) h) hb

/-- Scopes are the same if they agree letter by letter, whatever the case of the letters. -/
theorem foldScope_eq_iff {s s' : String} :
    foldScope s = foldScope s' ↔ s.toList.map Char.toLower = s'.toList.map Char.toLower := by
  rw [foldScope, foldScope, ← String.toList_inj, String.toList_map, String.toList_map]

namespace TypeRef

variable {r r' s s' : TypeRef}

theorem denotes_iff :
    r.denotes s = true ↔ r.namespaceName = s.namespaceName ∧ r.name = s.name ∧
      r.scope.toList.map Char.toLower = s.scope.toList.map Char.toLower := by
  simp only [denotes, Bool.and_eq_true, beq_iff_eq, foldScope_eq_iff]
  rw [and_left_comm, and_assoc, and_left_comm]

/-- To denote one type is an equivalence.  In particular, a reference denotes what an equal one
does. -/
theorem equivalence_denotes : Equivalence fun r s : TypeRef => r.denotes s = true where
  refl r := denotes_iff.mpr ⟨rfl, rfl, rfl⟩
  symm := by
    intro r s h
    obtain ⟨hnamespace, hname, hscope⟩ := denotes_iff.mp h
    exact denotes_iff.mpr ⟨hnamespace.symm, hname.symm, hscope.symm⟩
  trans := by
    intro r s t h h'
    obtain ⟨hnamespace, hname, hscope⟩ := denotes_iff.mp h
    obtain ⟨hnamespace', hname', hscope'⟩ := denotes_iff.mp h'
    exact denotes_iff.mpr ⟨hnamespace.trans hnamespace', hname.trans hname', hscope.trans hscope'⟩

/-- Whether two references denote one type does not depend on their spelling. -/
theorem denotes_congr (h : r.denotes r' = true) (hs : s.denotes s' = true) :
    r'.denotes s' = r.denotes s :=
  same_congr equivalence_denotes h hs

end TypeRef

/-- A declaration makes the comparisons that its own reference would make. -/
theorem TypeDecl.isDenotedBy_eq_denotes (t : TypeDecl) (r : TypeRef) :
    t.isDenotedBy r = t.reference.denotes r := by
  rw [isDenotedBy, TypeRef.denotes, reference]

namespace MethodRef

variable {r r' s s' : MethodRef}

theorem denotes_iff :
    r.denotes s = true ↔ r.name = s.name ∧ r.signature = s.signature ∧
      r.owner.denotes s.owner = true := by
  simp only [denotes, Bool.and_eq_true, beq_iff_eq, and_assoc]

/-- To denote one method is an equivalence. -/
theorem equivalence_denotes : Equivalence fun r s : MethodRef => r.denotes s = true where
  refl r := denotes_iff.mpr ⟨rfl, rfl, TypeRef.equivalence_denotes.refl r.owner⟩
  symm := by
    intro r s h
    obtain ⟨hname, hsignature, howner⟩ := denotes_iff.mp h
    exact denotes_iff.mpr ⟨hname.symm, hsignature.symm, TypeRef.equivalence_denotes.symm howner⟩
  trans := by
    intro r s t h h'
    obtain ⟨hname, hsignature, howner⟩ := denotes_iff.mp h
    obtain ⟨hname', hsignature', howner'⟩ := denotes_iff.mp h'
    exact denotes_iff.mpr ⟨hname.trans hname', hsignature.trans hsignature',
      TypeRef.equivalence_denotes.trans howner howner'⟩

/-- Whether two references denote one method does not depend on their spelling. -/
theorem denotes_congr (h : r.denotes r' = true) (hs : s.denotes s' = true) :
    r'.denotes s' = r.denotes s :=
  same_congr equivalence_denotes h hs

end MethodRef

/-- The references are to a field of the same name and type, on owners that denote one type. -/
structure FieldRef.Respells (r r' : FieldRef) : Prop where
  owner : r.owner.denotes r'.owner = true
  name : r'.name = r.name
  fieldType : r'.fieldType = r.fieldType

namespace FieldRef.Respells

theorem refl (r : FieldRef) : r.Respells r :=
  ⟨TypeRef.equivalence_denotes.refl r.owner, rfl, rfl⟩

/-- Every spelling of a reference leads to the same field. -/
theorem resolveField?_eq {r r' : FieldRef} (h : r.Respells r') {m m' : Module}
    (htypes : m'.types = m.types) : m'.resolveField? r' = m.resolveField? r := by
  have hdenoted : ∀ t : TypeDecl, t.isDenotedBy r'.owner = t.isDenotedBy r.owner := by
    intro t
    rw [t.isDenotedBy_eq_denotes, t.isDenotedBy_eq_denotes]
    exact TypeRef.denotes_congr (TypeRef.equivalence_denotes.refl t.reference) h.owner
  simp only [Module.resolveField?, htypes, hdenoted, h.name]

end FieldRef.Respells

/-! ### Code with other spellings -/

/-- What the operand refers to is spelt in another way. -/
inductive Operand.Respells : Operand → Operand → Prop
  | refl (o : Operand) : Respells o o
  | field {r r' : FieldRef} (h : r.Respells r') : Respells (.field r) (.field r')
  | method {r r' : MethodRef} (h : r.denotes r' = true) : Respells (.method r) (.method r')
  | type {r r' : TypeRef} (h : r.denotes r' = true) : Respells (.type r) (.type r')

namespace Instruction

/-- The instructions differ in the spelling of what they refer to. -/
structure Respells (i i' : Instruction) : Prop where
  offset : i'.offset = i.offset
  opcode : i'.opcode = i.opcode
  operand : i.operand.Respells i'.operand

namespace Respells

variable {i i' : Instruction}

theorem refl (i : Instruction) : i.Respells i := ⟨rfl, rfl, .refl i.operand⟩

/-- What is read of a field reference without regard to its spelling is read of either operand. -/
theorem any_field? (h : i.Respells i') {p p' : FieldRef → Bool}
    (hp : ∀ r r' : FieldRef, r.Respells r' → p' r' = p r) :
    i'.field?.any p' = i.field?.any p := by
  have hsame : ∀ r, p' r = p r := fun r => hp r r (.refl r)
  obtain ⟨offset, opcode, operand⟩ := i
  obtain ⟨offset', opcode', operand'⟩ := i'
  cases h.operand with
  | refl => cases operand <;> simp only [field?, Option.any_none, Option.any_some, hsame]
  | field hr => exact hp _ _ hr
  | method hr => rfl
  | type hr => rfl

/-- What is read of a method reference without regard to its spelling is read of either operand. -/
theorem any_method? (h : i.Respells i') {p p' : MethodRef → Bool}
    (hp : ∀ r r' : MethodRef, r.denotes r' = true → p' r' = p r) :
    i'.method?.any p' = i.method?.any p := by
  have hsame : ∀ r, p' r = p r := fun r => hp r r (MethodRef.equivalence_denotes.refl r)
  obtain ⟨offset, opcode, operand⟩ := i
  obtain ⟨offset', opcode', operand'⟩ := i'
  cases h.operand with
  | refl => cases operand <;> simp only [method?, Option.any_none, Option.any_some, hsame]
  | field hr => rfl
  | method hr => exact hp _ _ hr
  | type hr => rfl

end Respells

end Instruction

namespace Body

/-- The bodies have the same local variables and the same code in other spellings. -/
structure Respells (b b' : Body) : Prop where
  locals : b'.locals = b.locals
  code : List.Forall₂ Instruction.Respells b.code b'.code

variable {filler : List Opcode} {b b' : Body}

theorem strip_eq_self_iff :
    b.strip filler = b ↔ ∀ op ∈ b.code.map Instruction.opcode, op ∉ filler := by
  obtain ⟨code, locals⟩ := b
  simp only [strip, Body.mk.injEq, and_true, List.filter_eq_self, List.forall_mem_map,
    Bool.not_eq_true', List.contains_eq_mem, decide_eq_false_iff_not]

namespace Respells

theorem refl (b : Body) : b.Respells b := ⟨rfl, List.forall₂_same.mpr fun i _ => .refl i⟩

theorem opcodes_eq (h : b.Respells b') :
    b'.code.map Instruction.opcode = b.code.map Instruction.opcode := by
  rw [← List.forall₂_eq_eq_eq, List.forall₂_map_left_iff, List.forall₂_map_right_iff]
  exact h.code.flip.imp fun _ _ hi => hi.opcode

/-- Filler is taken out of both bodies at the same places. -/
theorem strip (h : b.Respells b') : (b.strip filler).Respells (b'.strip filler) where
  locals := h.locals
  code := by
    refine List.rel_filter ?_ h.code
    intro i i' hi
    simp only [hi.opcode]

theorem strip_eq_self_iff (h : b.Respells b') : b'.strip filler = b' ↔ b.strip filler = b := by
  rw [Body.strip_eq_self_iff, Body.strip_eq_self_iff, h.opcodes_eq]

theorem any_code (h : b.Respells b') {p p' : Instruction → Bool}
    (hp : ∀ i i' : Instruction, i.Respells i' → p' i' = p i) : b'.code.any p' = b.code.any p :=
  any_eq_of_forall₂ h.code hp

end Respells

end Body

/-! ### Methods and modules -/

/-- The methods are declared in the same way, and the body of one, if it has one, is that of the
other in other spellings. -/
structure MethodDecl.Respells (d d' : MethodDecl) : Prop where
  token : d'.token = d.token
  name : d'.name = d.name
  owner : d'.owner = d.owner
  flags : d'.flags = d.flags
  signature : d'.signature = d.signature
  body : Option.Rel Body.Respells d.body d'.body

namespace MethodDecl.Respells

variable {d d' : MethodDecl}

theorem refl (d : MethodDecl) : d.Respells d := by
  refine ⟨rfl, rfl, rfl, rfl, rfl, ?_⟩
  cases d.body with
  | none => exact .none
  | some b => exact .some (.refl b)

theorem isStaticWithBody_eq (h : d.Respells d') : d'.isStaticWithBody = d.isStaticWithBody := by
  obtain ⟨token, name, owner, flags, signature, body⟩ := d
  obtain ⟨token', name', owner', flags', signature', body'⟩ := d'
  obtain ⟨rfl, rfl, rfl, rfl, rfl, hbody⟩ := h
  cases hbody <;> rfl

theorem locals_eq (h : d.Respells d') : d'.locals = d.locals := by
  obtain ⟨token, name, owner, flags, signature, body⟩ := d
  obtain ⟨token', name', owner', flags', signature', body'⟩ := d'
  obtain ⟨rfl, rfl, rfl, rfl, rfl, hbody⟩ := h
  cases hbody with
  | none => rfl
  | some hb => exact hb.locals

end MethodDecl.Respells

namespace Module

/-- The modules are the same but for the spelling of references in the code of their methods. -/
structure Respells (m m' : Module) : Prop where
  name : m'.name = m.name
  types : m'.types = m.types
  fieldCount : m'.fieldCount = m.fieldCount
  resources : m'.resources = m.resources
  /-- There are as many methods, which correspond row by row. -/
  methods : List.Forall₂ MethodDecl.Respells m.methods m'.methods

namespace Respells

variable {m m' : Module}

theorem refl (m : Module) : m.Respells m :=
  ⟨rfl, rfl, rfl, rfl, List.forall₂_same.mpr fun d _ => .refl d⟩

theorem type?_eq (h : m.Respells m') (t : Token) : m'.type? t = m.type? t := by
  simp only [type?, typeIndex?, h.types]

theorem methodIndex?_eq (h : m.Respells m') (t : Token) : m'.methodIndex? t = m.methodIndex? t := by
  rw [methodIndex?, methodIndex?, h.methods.length_eq]

/-- The methods behind a token correspond. -/
theorem method? (h : m.Respells m') (t : Token) :
    Option.Rel MethodDecl.Respells (m.method? t) (m'.method? t) := by
  rw [Module.method?, Module.method?, h.methodIndex?_eq]
  cases m.methodIndex? t with
  | none => exact .none
  | some i => exact getElem?_of_forall₂ h.methods i

/-- The bodies of the methods behind a token correspond. -/
theorem body? (h : m.Respells m') (t : Token) :
    Option.Rel Body.Respells ((m.method? t).bind MethodDecl.body)
      ((m'.method? t).bind MethodDecl.body) := by
  have hmethod := h.method? t
  generalize m.method? t = found, m'.method? t = found' at hmethod ⊢
  cases hmethod with
  | none => exact .none
  | some hd => exact hd.body

/-- The methods of a type correspond one by one. -/
theorem methodsOf (h : m.Respells m') (t : TypeDecl) :
    List.Forall₂ MethodDecl.Respells (m.methodsOf t) (m'.methodsOf t) := by
  refine List.rel_filterMap (R := Eq) ?_ (List.forall₂_same.mpr fun _ _ => rfl)
  rintro t _ rfl
  exact h.method? t

/-- Storing a body in one module and the same in another spelling in the other one leaves modules
that correspond. -/
theorem setBody (h : m.Respells m') (t : Token) {b b' : Body} (hb : b.Respells b') :
    (m.setBody t b).Respells (m'.setBody t b') := by
  rw [Module.setBody, Module.setBody, h.methodIndex?_eq]
  cases m.methodIndex? t with
  | none => exact h
  | some i =>
      refine ⟨h.name, h.types, h.fieldCount, h.resources, modify_of_forall₂ h.methods i ?_⟩
      intro d d' hd
      exact ⟨hd.token, hd.name, hd.owner, hd.flags, hd.signature, .some hb⟩

end Respells

end Module

end ResolverRecovery
