import ResolverRecovery.Proofs.Metadata.Reworked

/-!
# Sequences of calls on a module

A module changes by calls, and a call that is refused leaves it as it is.  What one call can make of
a module is said once, and everything that holds after any number of calls follows from that.

Nothing that a call has declared goes away again.  A token leads to the same type afterwards, which
may have been given more fields and methods, and to the same method, which may have been given
another body.

## Main definitions

* `Module.Call`, with `Call.edit`: the operations that change a module.
* `Module.run`: the module after a sequence of calls.
* `Module.Step`: what a call can make of a module.
* `TypeDecl.Grows`: a type was given fields and methods.

## Main statements

* `Module.step_perform`: every call is one of these steps.
* `Module.run_induction`: what every step preserves holds after any number of calls.
* `Module.type?_run`, `Module.method?_run`: tokens stay valid.
-/

namespace ResolverRecovery

/-- The type was given fields and methods after those that it had. -/
def TypeDecl.Grows (t t' : TypeDecl) : Prop :=
  ∃ fields methods, t' = { t with
    fields := t.fields ++ fields
    methods := t.methods ++ methods }

namespace TypeDecl.Grows

variable {t t' t'' : TypeDecl}

theorem refl (t : TypeDecl) : t.Grows t :=
  ⟨[], [], by rw [List.append_nil, List.append_nil]⟩

theorem trans (h : t.Grows t') (h' : t'.Grows t'') : t.Grows t'' := by
  obtain ⟨fields, methods, rfl⟩ := h
  obtain ⟨fields', methods', rfl⟩ := h'
  exact ⟨fields ++ fields', methods ++ methods', by rw [List.append_assoc, List.append_assoc]⟩

theorem field (t : TypeDecl) (f : FieldDecl) : t.Grows { t with fields := t.fields ++ [f] } :=
  ⟨[f], [], by rw [List.append_nil]⟩

theorem method (t : TypeDecl) (token : Token) :
    t.Grows { t with methods := t.methods ++ [token] } :=
  ⟨[], [token], by rw [List.append_nil]⟩

end TypeDecl.Grows

namespace Module

/-! ### Calls -/

/-- A call of an operation that changes a module. -/
inductive Call where
  | addType (namespaceName name : String) (base : Option TypeRef)
  | addField (owner : Token) (name fieldType : String) (isStatic : Bool)
      (initialData : Option (List UInt8))
  | addMethod (owner : Token) (name : String) (flags : UInt32) (signature : Signature)
      (body : Option Body)
  | addResource (r : Resource)
  | upsertResource (name : String) (data : List UInt8)
  | replaceBody (token : Token) (body : Body)

namespace Call

/-- The call as an edit.  The answer is the token that it issues, if it issues one. -/
def edit : Call → Edit (Option Token)
  | addType namespaceName name base => fun m =>
      .ok (some (m.addType namespaceName name base).1) (m.addType namespaceName name base).2
  | addField owner name fieldType isStatic initialData =>
      some <$> Module.addField owner name fieldType isStatic initialData
  | addMethod owner name flags signature body =>
      some <$> Module.addMethod owner name flags signature body
  | addResource r => fun m => .ok none (m.addResource r)
  | upsertResource name data => fun m => .ok none (m.upsertResource name data).2
  | replaceBody token body => (fun _ => none) <$> Module.replaceBody token body

/-- The body that the method behind a token has after the call, if it had the given one before. -/
def bodyOf (token : Token) (body : Option Body) : Call → Option Body
  | replaceBody token' body' => if token = token' then some body' else body
  | _ => body

end Call

/-- The module after a call, which may have been refused. -/
def perform (m : Module) (call : Call) : Module := Edit.apply call.edit m

/-- The module after a sequence of calls, any of which may have been refused. -/
def run (m : Module) (calls : List Call) : Module := calls.foldl perform m

variable {m m' : Module}

theorem run_append (m : Module) (calls calls' : List Call) :
    m.run (calls ++ calls') = (m.run calls).run calls' :=
  List.foldl_append

/-! ### What a call can make of a module -/

/-- What a call can make of a module. -/
inductive Step (m : Module) : Module → Prop
  | refused : Step m m
  | addType (namespaceName name : String) (base : Option TypeRef) :
      Step m (m.addType namespaceName name base).2
  | addField {i : Nat} (hi : i < m.types.length) {f : FieldDecl}
      (howner : f.owner = .typeDef (i + 1)) (htoken : f.token = .field (m.fieldCount + 1)) :
      Step m { m with
        fieldCount := m.fieldCount + 1
        types := m.types.modify i fun t => { t with fields := t.fields ++ [f] } }
  | addMethod {i : Nat} (hi : i < m.types.length) {d : MethodDecl}
      (howner : d.owner = .typeDef (i + 1))
      (htoken : d.token = .methodDef (m.methods.length + 1)) :
      Step m { m with
        methods := m.methods ++ [d]
        types := m.types.modify i fun t => { t with methods := t.methods ++ [d.token] } }
  | setBody (i : Nat) (body : Body) :
      Step m { m with methods := m.methods.modify i fun d => { d with body := some body } }
  | setResources (resources : List Resource) : Step m { m with resources := resources }

/-- What an edit answers does not matter to the module. -/
theorem Edit.apply_map {α β : Type} (f : α → β) (edit : Edit α) (m : Module) :
    Edit.apply (f <$> edit) m = Edit.apply edit m := by
  simp only [Edit.apply, Functor.map, EStateM.map]
  cases edit m <;> rfl

theorem perform_addField (m : Module) (owner : Token) (name fieldType : String) (isStatic : Bool)
    (initialData : Option (List UInt8)) :
    m.perform (.addField owner name fieldType isStatic initialData) =
      match m.typeIndex? owner with
      | none => m
      | some i => { m with
        fieldCount := m.fieldCount + 1
        types := m.types.modify i fun t => { t with
          fields := t.fields ++
            [⟨.field (m.fieldCount + 1), name, fieldType, owner, isStatic, initialData⟩] } } := by
  rw [perform, Call.edit, Edit.apply_map, Edit.apply, addField]
  cases m.typeIndex? owner <;> rfl

theorem perform_addMethod (m : Module) (owner : Token) (name : String) (flags : UInt32)
    (signature : Signature) (body : Option Body) :
    m.perform (.addMethod owner name flags signature body) =
      match m.typeIndex? owner with
      | none => m
      | some i => { m with
        methods := m.methods ++
          [⟨.methodDef (m.methods.length + 1), name, owner, flags, signature, body⟩]
        types := m.types.modify i fun t => { t with
          methods := t.methods ++ [.methodDef (m.methods.length + 1)] } } := by
  rw [perform, Call.edit, Edit.apply_map, Edit.apply, addMethod]
  cases m.typeIndex? owner <;> rfl

theorem perform_replaceBody (m : Module) (token : Token) (body : Body) :
    m.perform (.replaceBody token body) = m.setBody token body := by
  rw [perform, Call.edit, Edit.apply_map, Edit.apply, replaceBody]
  by_cases hfound : (m.method? token).isSome
  · rw [if_pos hfound]
  · rw [if_neg hfound, setBody]
    cases hindex : m.methodIndex? token with
    | none => rfl
    | some i =>
        -- a position of the table would have a method at it
        have hi := (eq_methodDef_of_methodIndex? hindex).2
        rw [method?, hindex, Option.bind_some, List.getElem?_eq_getElem hi] at hfound
        exact absurd rfl hfound

/-- Whatever a call does, it is one of the steps. -/
theorem step_perform (m : Module) (call : Call) : m.Step (m.perform call) := by
  cases call with
  | addType namespaceName name base => exact .addType namespaceName name base
  | addField owner name fieldType isStatic initialData =>
      rw [perform_addField]
      cases hindex : m.typeIndex? owner with
      | none => exact .refused
      | some i =>
          obtain ⟨howner, hi⟩ := eq_typeDef_of_typeIndex? hindex
          exact .addField hi howner rfl
  | addMethod owner name flags signature body =>
      rw [perform_addMethod]
      cases hindex : m.typeIndex? owner with
      | none => exact .refused
      | some i =>
          obtain ⟨howner, hi⟩ := eq_typeDef_of_typeIndex? hindex
          exact .addMethod (d := ⟨_, name, owner, flags, signature, body⟩) hi howner rfl
  | addResource r => exact .setResources _
  | upsertResource name data => exact .setResources _
  | replaceBody token body =>
      rw [perform_replaceBody, setBody]
      cases m.methodIndex? token with
      | none => exact .refused
      | some i => exact .setBody i body

/-- What every step preserves holds after any number of calls. -/
theorem run_induction {motive : Module → Prop} (hm : motive m)
    (hstep : ∀ {m m' : Module}, m.Step m' → motive m → motive m') (calls : List Call) :
    motive (m.run calls) := by
  induction calls generalizing m with
  | nil => exact hm
  | cons call calls ih => exact ih (hstep (m.step_perform call) hm)

/-! ### Tables grow -/

/-- The module is no larger than the other one: it has no more rows in any table. -/
structure NoLarger (m m' : Module) : Prop where
  types : m.types.length ≤ m'.types.length
  methods : m.methods.length ≤ m'.methods.length
  fields : m.fieldCount ≤ m'.fieldCount

namespace NoLarger

variable {m'' : Module}

theorem refl (m : Module) : m.NoLarger m := ⟨Nat.le_refl _, Nat.le_refl _, Nat.le_refl _⟩

theorem trans (h : m.NoLarger m') (h' : m'.NoLarger m'') : m.NoLarger m'' where
  types := Nat.le_trans h.types h'.types
  methods := Nat.le_trans h.methods h'.methods
  fields := Nat.le_trans h.fields h'.fields

end NoLarger

theorem Step.noLarger (h : m.Step m') : m.NoLarger m' := by
  cases h with
  | refused => exact .refl m
  | addType namespaceName name base =>
      exact { NoLarger.refl m with types := by simp [Module.addType] }
  | addField hi howner htoken => exact { NoLarger.refl m with types := by simp, fields := by simp }
  | addMethod hi howner htoken =>
      exact { NoLarger.refl m with types := by simp, methods := by simp }
  | setBody i body => exact { NoLarger.refl m with methods := by simp }
  | setResources resources => exact { NoLarger.refl m with }

theorem noLarger_run (m : Module) (calls : List Call) : m.NoLarger (m.run calls) :=
  run_induction (motive := m.NoLarger) (.refl m) (fun hstep h => h.trans hstep.noLarger) calls

/-! ### Tokens stay valid -/

theorem type?_eq_some {token : Token} {t : TypeDecl} :
    m.type? token = some t ↔
      ∃ i, token.indexIn Token.typeDefTable = some i ∧ m.types[i]? = some t := by
  simp only [type?, typeIndex?, Option.bind_eq_some_iff, Option.filter_eq_some_iff,
    decide_eq_true_eq]
  refine exists_congr fun i => ⟨fun h => ⟨h.1.1, h.2⟩, fun h => ⟨⟨h.1, ?_⟩, h.2⟩⟩
  exact (List.getElem?_eq_some_iff.mp h.2).1

theorem method?_eq_some {token : Token} {d : MethodDecl} :
    m.method? token = some d ↔
      ∃ i, token.indexIn Token.methodDefTable = some i ∧ m.methods[i]? = some d := by
  simp only [method?, methodIndex?, Option.bind_eq_some_iff, Option.filter_eq_some_iff,
    decide_eq_true_eq]
  refine exists_congr fun i => ⟨fun h => ⟨h.1.1, h.2⟩, fun h => ⟨⟨h.1, ?_⟩, h.2⟩⟩
  exact (List.getElem?_eq_some_iff.mp h.2).1

/-- If one type grows, a token leads to the same type, which may be the one that has grown. -/
theorem type?_modify {token : Token} {t : TypeDecl} {i : Nat} {f : TypeDecl → TypeDecl}
    (hf : ∀ t : TypeDecl, t.Grows (f t)) (htypes : m'.types = m.types.modify i f)
    (h : m.type? token = some t) : ∃ t', m'.type? token = some t' ∧ t.Grows t' := by
  obtain ⟨j, hj, ht⟩ := type?_eq_some.mp h
  have hrow : m'.types[j]? = some (if i = j then f t else t) := by
    rw [htypes]
    exact getElem?_modify_eq_some.mpr ⟨t, ht, rfl⟩
  refine ⟨_, type?_eq_some.mpr ⟨j, hj, hrow⟩, ?_⟩
  split
  · exact hf t
  · exact .refl t

/-- A token leads to the same type after a step, which may have been given fields and methods. -/
theorem Step.type? (hstep : m.Step m') {token : Token} {t : TypeDecl}
    (h : m.type? token = some t) : ∃ t', m'.type? token = some t' ∧ t.Grows t' := by
  cases hstep with
  | refused => exact ⟨t, h, .refl t⟩
  | addType namespaceName name base =>
      obtain ⟨i, hi, ht⟩ := type?_eq_some.mp h
      exact ⟨t, type?_eq_some.mpr ⟨i, hi, getElem?_concat_eq_some.mpr (.inl ht)⟩, .refl t⟩
  | addField hi howner htoken => exact type?_modify (fun t => .field t _) rfl h
  | addMethod hi howner htoken => exact type?_modify (fun t => .method t _) rfl h
  | setBody i body => exact ⟨t, h, .refl t⟩
  | setResources resources => exact ⟨t, h, .refl t⟩

/-- A token leads to the same type after any calls, which may have been given fields and
methods. -/
theorem type?_run {token : Token} {t : TypeDecl} (h : m.type? token = some t)
    (calls : List Call) : ∃ t', (m.run calls).type? token = some t' ∧ t.Grows t' := by
  refine run_induction (motive := fun m => ∃ t', m.type? token = some t' ∧ t.Grows t')
    ⟨t, h, .refl t⟩ (fun hstep hbefore => ?_) calls
  obtain ⟨t', ht', hgrows⟩ := hbefore
  obtain ⟨t'', ht'', hgrows'⟩ := hstep.type? ht'
  exact ⟨t'', ht'', hgrows.trans hgrows'⟩

/-- A token leads to the same method after a call, with the body that the call stores for it. -/
theorem method?_perform {token : Token} {d : MethodDecl} (h : m.method? token = some d)
    (call : Call) :
    (m.perform call).method? token = some { d with body := call.bodyOf token d.body } := by
  cases call with
  | addType namespaceName name base => exact h
  | addField owner name fieldType isStatic initialData =>
      rw [perform_addField]
      cases m.typeIndex? owner with
      | none => exact h
      | some i => exact h
  | addMethod owner name flags signature body =>
      rw [perform_addMethod]
      cases m.typeIndex? owner with
      | none => exact h
      | some i =>
          obtain ⟨j, hj, hd⟩ := method?_eq_some.mp h
          exact method?_eq_some.mpr ⟨j, hj, getElem?_concat_eq_some.mpr (.inl hd)⟩
  | addResource r => exact h
  | upsertResource name data => exact h
  | replaceBody token' body =>
      rw [perform_replaceBody, method?_setBody, h, Call.bodyOf]
      split <;> rfl

/-- A token leads to the same method after any calls, with the body that was last stored for it. -/
theorem method?_run {token : Token} {d : MethodDecl} (h : m.method? token = some d)
    (calls : List Call) :
    (m.run calls).method? token =
      some { d with body := calls.foldl (Call.bodyOf token) d.body } := by
  induction calls generalizing m d with
  | nil => exact h
  | cons call calls ih => exact ih (method?_perform h call)

end Module

end ResolverRecovery
