import ResolverRecovery.Proofs.Metadata.Calls

/-!
# What holds of a module after any calls

Whatever calls are made on a new module, performed or refused, its tables stay consistent with each
other: tokens are issued row by row, types and methods name each other, and look-up by token finds
what the token was issued for.  All of this rests on tokens telling rows apart, so that no table may
have more rows than the lower bits of a token can count.

## Main definitions

* `Module.Addressable`: tokens can tell the rows of every table apart.
* `Module.Numbered`: types are of the module, and fields are numbered through over all types.
* `Module.Consistent`: what one can rely on in a module.
* `Module.Call.Declared`: a token leads to what the call that issued it has declared.

## Main statements

* `Module.wellFormed_run`: every step keeps a module well formed and its fields numbered.
* `Module.run_consistent`: a module is consistent after any calls, and tokens lead to what they
  were issued for.
-/

namespace ResolverRecovery

theorem Token.ofParts_lt {table i j : Nat} (htable : table < 256) (hj : j < rowLimit)
    (h : i < j) : (ofParts table i).value < (ofParts table j).value := by
  rw [UInt32.lt_iff_toNat_lt, toNat_value_ofParts htable, toNat_value_ofParts htable,
    Nat.mod_eq_of_lt hj, Nat.mod_eq_of_lt (Nat.lt_trans h hj)]
  omega

/-! ### Rows that are changed in place -/

section Modify

variable {α β : Type} {rows : List α} {f : α → α} {i : Nat}

theorem map_modify {g : α → β} (hg : ∀ a, g (f a) = g a) :
    (rows.modify i f).map g = rows.map g := by
  refine List.ext_getElem? fun j => ?_
  rw [List.getElem?_map, List.getElem?_map, List.getElem?_modify]
  cases rows[j]? with
  | none => rfl
  | some a =>
      simp only [Option.map_some, Option.map_eq_map]
      split
      · rw [hg]
      · rfl

/-- What holds of all rows still does if it holds of the row that was changed. -/
theorem forall_mem_modify {p : α → Prop} (hrows : ∀ a ∈ rows, p a)
    (hf : ∀ a, rows[i]? = some a → p a → p (f a)) : ∀ a ∈ rows.modify i f, p a := by
  intro a ha
  obtain ⟨j, hj⟩ := List.mem_iff_getElem?.mp ha
  obtain ⟨old, hold, rfl⟩ := getElem?_modify_eq_some.mp hj
  have hpold : p old := hrows old (List.mem_of_getElem? hold)
  split
  · rename_i hij
    exact hf old (hij ▸ hold) hpold
  · exact hpold

/-- If the changed row contributes one item more, then so do all rows together. -/
theorem flatMap_modify_perm {g : α → List β} {b : β} (hf : ∀ a, g (f a) = g a ++ [b])
    (hi : i < rows.length) : ((rows.modify i f).flatMap g).Perm (rows.flatMap g ++ [b]) := by
  induction rows generalizing i with
  | nil => cases hi
  | cons a rest ih =>
      rw [List.flatMap_cons]
      cases i with
      | zero =>
          rw [List.modify_zero_cons, List.flatMap_cons, hf, List.append_assoc, List.append_assoc]
          exact List.Perm.append_left _ List.perm_append_comm
      | succ i =>
          rw [List.modify_succ_cons, List.flatMap_cons, List.append_assoc]
          exact List.Perm.append_left _ (ih (Nat.lt_of_succ_lt_succ hi))

/-- Selecting rows and reading them off does not see a change of what is neither tested nor read. -/
theorem map_filter_modify {p : α → Bool} {g : α → β} (hp : ∀ a, p (f a) = p a)
    (hg : ∀ a, g (f a) = g a) : ((rows.modify i f).filter p).map g = (rows.filter p).map g := by
  have hpairs : ∀ l : List α,
      (l.filter p).map g = ((l.map fun a => (p a, g a)).filter Prod.fst).map Prod.snd := by
    intro l
    rw [List.filter_map, List.map_map]
    rfl
  rw [hpairs, hpairs, map_modify fun a => by rw [hp, hg]]

end Modify

/-- The fields of the type are its own, in the order in which they were declared. -/
structure TypeDecl.OwnsFields (t : TypeDecl) : Prop where
  owner : ∀ f ∈ t.fields, f.owner = t.token
  order : t.fields.Pairwise fun f f' => f.token.value < f'.token.value

namespace Module

variable {m m' : Module}

/-! ### Well-formed modules -/

/-- A body concerns neither tokens nor owners. -/
theorem WellFormed.setBody (hwf : m.WellFormed) (i : Nat) (body : Body) :
    WellFormed { m with
      methods := m.methods.modify i fun d => { d with body := some body } } where
  types := hwf.types
  methods := by
    rw [List.length_modify]
    exact hwf.methods
  type_token := hwf.type_token
  method_token := by
    intro j d hd
    obtain ⟨old, hold, rfl⟩ := getElem?_modify_eq_some.mp hd
    rw [← hwf.method_token hold]
    split <;> rfl
  owner := by
    intro d hd
    refine forall_mem_modify (fun _ => hwf.owner) (fun _ _ h => ?_) d hd
    exact h
  methods_eq := by
    intro j t ht
    rw [hwf.methods_eq ht]
    exact (map_filter_modify (f := fun d : MethodDecl => { d with body := some body })
      (fun _ => rfl) fun _ => rfl).symm

theorem Step.wellFormed (h : m.Step m') (hwf : m.WellFormed) (hrange : m'.InRange) :
    m'.WellFormed := by
  cases h with
  | refused => exact hwf
  | addType namespaceName name base => exact hwf.addType namespaceName name base hrange
  | addField hi howner htoken => exact hwf.addField _ _
  | addMethod hi howner htoken =>
      have hroom := hrange.methods
      rw [List.length_append, List.length_singleton] at hroom
      exact hwf.addMethod hi howner htoken hroom
  | setBody i body => exact hwf.setBody i body
  | setResources resources =>
      obtain ⟨-, htype, hmethod, howner, hmethods⟩ := hwf
      exact ⟨hrange, htype, hmethod, howner, hmethods⟩

/-! ### Fields -/

/-- Tokens can tell the rows of every table apart. -/
structure Addressable (m : Module) : Prop extends InRange m where
  fields : m.fieldCount < Token.rowLimit

theorem NoLarger.addressable (h : m.NoLarger m') (hm' : m'.Addressable) : m.Addressable where
  types := Nat.lt_of_le_of_lt h.types hm'.types
  methods := Nat.lt_of_le_of_lt h.methods hm'.methods
  fields := Nat.lt_of_le_of_lt h.fields hm'.fields

/-- The tokens of the first fields, in order of declaration. -/
def fieldTokens (count : Nat) : List Token := (List.range count).map fun k => .field (k + 1)

theorem fieldTokens_succ (count : Nat) :
    fieldTokens (count + 1) = fieldTokens count ++ [.field (count + 1)] := by
  simp only [fieldTokens, List.range_succ, List.map_append, List.map_singleton]

theorem toNat_fieldTokens {count : Nat} (h : count < Token.rowLimit) :
    (fieldTokens count).map (fun s => s.value.toNat) = List.range' 0x04000001 count := by
  rw [fieldTokens, List.map_map, List.range'_eq_map_range]
  refine List.map_congr_left fun k hk => ?_
  have hrow : k + 1 < Token.rowLimit := Nat.lt_of_le_of_lt (List.mem_range.mp hk) h
  rw [Function.comp_apply, Token.field, Token.toNat_value_ofParts (by decide),
    Nat.mod_eq_of_lt hrow]
  simp only [Token.fieldTable, Token.rowLimit]
  omega

/-- Types are of the module, and fields are numbered through over all types. -/
structure Numbered (m : Module) : Prop where
  scope : ∀ t ∈ m.types, t.scope = m.name
  /-- Every token that was issued for a field is the token of one field. -/
  tokens : ((m.types.flatMap TypeDecl.fields).map FieldDecl.token).Perm
    (fieldTokens m.fieldCount)
  owns : ∀ t ∈ m.types, t.OwnsFields

namespace Numbered

theorem named (name : String) : (Module.named name).Numbered where
  scope := fun _ ht => absurd ht List.not_mem_nil
  tokens := .refl _
  owns := fun _ ht => absurd ht List.not_mem_nil

/-- A new type has no field yet. -/
theorem addType (hm : m.Numbered) (namespaceName name : String) (base : Option TypeRef) :
    (m.addType namespaceName name base).2.Numbered where
  scope := by
    intro t ht
    rcases List.mem_append.mp ht with hold | hnew
    · exact hm.scope t hold
    · rw [List.mem_singleton.mp hnew]
      rfl
  tokens := by
    have hfields : (m.addType namespaceName name base).2.types.flatMap TypeDecl.fields =
        m.types.flatMap TypeDecl.fields := by
      simp [Module.addType]
    rw [hfields]
    exact hm.tokens
  owns := by
    intro t ht
    rcases List.mem_append.mp ht with hold | hnew
    · exact hm.owns t hold
    · rw [List.mem_singleton.mp hnew]
      exact ⟨fun f hf => absurd hf List.not_mem_nil, List.Pairwise.nil⟩

/-- The fields of a type come before a field that is declared now. -/
theorem token_lt (hm : m.Numbered) (hroom : m.fieldCount + 1 < Token.rowLimit) {t : TypeDecl}
    (ht : t ∈ m.types) {f : FieldDecl} (hf : f ∈ t.fields) :
    f.token.value < (Token.field (m.fieldCount + 1)).value := by
  have hmem : f.token ∈ (m.types.flatMap TypeDecl.fields).map FieldDecl.token :=
    List.mem_map_of_mem (List.mem_flatMap_of_mem ht hf)
  obtain ⟨k, hk, htoken⟩ := List.mem_map.mp (hm.tokens.mem_iff.mp hmem)
  rw [← htoken]
  exact Token.ofParts_lt (by decide) hroom (Nat.succ_lt_succ (List.mem_range.mp hk))

/-- A new field has the token after the last one, and its owner has no field with a later one. -/
theorem addField (hm : m.Numbered) (hwf : m.WellFormed) {i : Nat} (hi : i < m.types.length)
    {f : FieldDecl} (howner : f.owner = .typeDef (i + 1))
    (htoken : f.token = .field (m.fieldCount + 1)) (hroom : m.fieldCount + 1 < Token.rowLimit) :
    Numbered { m with
      fieldCount := m.fieldCount + 1
      types := m.types.modify i fun t => { t with fields := t.fields ++ [f] } } where
  scope := forall_mem_modify hm.scope fun _ _ h => h
  tokens := by
    rw [fieldTokens_succ, ← htoken]
    refine (List.Perm.map _ (flatMap_modify_perm (fun _ => rfl) hi)).trans ?_
    rw [List.map_append]
    exact hm.tokens.append_right _
  owns := by
    refine forall_mem_modify hm.owns fun t ht hown => ⟨?_, ?_⟩
    · intro f' hf'
      rcases List.mem_append.mp hf' with hold | hnew
      · exact hown.owner f' hold
      · rw [List.mem_singleton.mp hnew, howner, hwf.type_token ht]
    · refine List.pairwise_append.mpr ⟨hown.order, List.pairwise_singleton _ _, ?_⟩
      intro f' hf' g hg
      rw [List.mem_singleton.mp hg, htoken]
      exact hm.token_lt hroom (List.mem_of_getElem? ht) hf'

/-- A method concerns no field. -/
theorem addMethod (hm : m.Numbered) (i : Nat) (d : MethodDecl) :
    Numbered { m with
      methods := m.methods ++ [d]
      types := m.types.modify i fun t => { t with methods := t.methods ++ [d.token] } } where
  scope := forall_mem_modify hm.scope fun _ _ h => h
  tokens := by
    have hfields : (m.types.modify i fun t =>
        { t with methods := t.methods ++ [d.token] }).map TypeDecl.fields =
          m.types.map TypeDecl.fields := map_modify fun _ => rfl
    rw [List.flatMap_def, hfields, ← List.flatMap_def]
    exact hm.tokens
  owns := forall_mem_modify hm.owns fun _ _ h => ⟨h.owner, h.order⟩

end Numbered

theorem Step.numbered (h : m.Step m') (hm : m.Numbered) (hwf : m.WellFormed)
    (hm' : m'.Addressable) : m'.Numbered := by
  cases h with
  | refused => exact hm
  | addType namespaceName name base => exact hm.addType namespaceName name base
  | addField hi howner htoken => exact hm.addField hwf hi howner htoken hm'.fields
  | addMethod hi howner htoken => exact hm.addMethod _ _
  | setBody i body => exact ⟨hm.scope, hm.tokens, hm.owns⟩
  | setResources resources => exact ⟨hm.scope, hm.tokens, hm.owns⟩

/-- A module is well formed and its fields are numbered through, whatever calls were made on it. -/
theorem wellFormed_run (name : String) (calls : List Call)
    (h : ((named name).run calls).Addressable) :
    ((named name).run calls).WellFormed ∧ ((named name).run calls).Numbered := by
  -- tables only grow, so the bounds hold before a call if they hold after it
  refine run_induction (motive := fun m => m.Addressable → m.WellFormed ∧ m.Numbered)
    (fun _ => ⟨.named name, .named name⟩) (fun hstep ih hm' => ?_) calls h
  obtain ⟨hwf, hm⟩ := ih (hstep.noLarger.addressable hm')
  exact ⟨hstep.wellFormed hwf hm'.toInRange, hstep.numbered hm hwf hm'⟩

/-! ### Refused calls -/

/-- Why the call has to be refused: it names an owner or a method that is not of the module. -/
def Call.refusal? (m : Module) : Call → Option Malformation
  | addField owner _ _ _ _ | addMethod owner _ _ _ _ =>
      if owner ∈ m.types.map TypeDecl.token then none else some (.unknownOwner owner)
  | replaceBody token _ =>
      if token ∈ m.methods.map MethodDecl.token then none else some (.unknownMethod token)
  | _ => none

namespace WellFormed

theorem isSome_typeIndex? (hwf : m.WellFormed) {token : Token} :
    (m.typeIndex? token).isSome ↔ token ∈ m.types.map TypeDecl.token := by
  constructor
  · intro h
    obtain ⟨i, hi⟩ := Option.isSome_iff_exists.mp h
    obtain ⟨htoken, hlt⟩ := eq_typeDef_of_typeIndex? hi
    have hrow : m.types[i]? = some m.types[i] := List.getElem?_eq_getElem hlt
    rw [htoken, ← hwf.type_token hrow]
    exact List.mem_map_of_mem (List.getElem_mem hlt)
  · intro h
    obtain ⟨t, ht, rfl⟩ := List.mem_map.mp h
    obtain ⟨i, hi, -⟩ := Option.bind_eq_some_iff.mp (hwf.type?_token ht)
    exact Option.isSome_of_eq_some hi

theorem isSome_method? (hwf : m.WellFormed) {token : Token} :
    (m.method? token).isSome ↔ token ∈ m.methods.map MethodDecl.token := by
  constructor
  · intro h
    obtain ⟨d, hd⟩ := Option.isSome_iff_exists.mp h
    obtain ⟨i, hindex, hrow⟩ := method?_eq_some.mp hd
    rw [Token.eq_ofParts_of_indexIn hindex, ← Token.methodDef, ← hwf.method_token hrow]
    exact List.mem_map_of_mem (List.mem_of_getElem? hrow)
  · intro h
    obtain ⟨d, hd, rfl⟩ := List.mem_map.mp h
    exact Option.isSome_of_eq_some (hwf.method?_token hd)

/-- A call is refused if and only if there is a reason, and then it leaves the module as it is. -/
theorem edit_eq (hwf : m.WellFormed) (call : Call) :
    match call.refusal? m with
    | some cause => call.edit m = .error (.malformed cause) m
    | none => ∃ token m', call.edit m = .ok token m' := by
  cases call with
  | addType namespaceName name base => exact ⟨_, _, rfl⟩
  | addField owner name fieldType isStatic initialData =>
      simp only [Call.refusal?, ← hwf.isSome_typeIndex?, Call.edit, Functor.map, EStateM.map,
        Module.addField]
      cases m.typeIndex? owner with
      | none => rfl
      | some i => exact ⟨_, _, rfl⟩
  | addMethod owner name flags signature body =>
      simp only [Call.refusal?, ← hwf.isSome_typeIndex?, Call.edit, Functor.map, EStateM.map,
        Module.addMethod]
      cases m.typeIndex? owner with
      | none => rfl
      | some i => exact ⟨_, _, rfl⟩
  | addResource r => exact ⟨_, _, rfl⟩
  | upsertResource name data => exact ⟨_, _, rfl⟩
  | replaceBody token body =>
      simp only [Call.refusal?, ← hwf.isSome_method?, Call.edit, Functor.map, EStateM.map,
        Module.replaceBody]
      cases m.method? token with
      | none => rfl
      | some d => exact ⟨_, _, rfl⟩

end WellFormed

/-! ### Consistent modules -/

/-- What one can rely on in a module. -/
structure Consistent (m : Module) : Prop where
  /-- Types have the tokens of their rows. -/
  type_token : ∀ {i : Nat} {t : TypeDecl}, m.types[i]? = some t →
    t.token.value.toNat = 0x02000001 + i
  scope : ∀ t ∈ m.types, t.scope = m.name
  /-- Methods have the tokens of their rows. -/
  method_token : ∀ {j : Nat} {d : MethodDecl}, m.methods[j]? = some d →
    d.token.value.toNat = 0x06000001 + j
  /-- The fields of all types have the tokens of the rows of one table, each token once. -/
  field_tokens : ((m.types.flatMap TypeDecl.fields).map fun f => f.token.value.toNat).Perm
    (List.range' 0x04000001 m.fieldCount)
  /-- A type's fields are its own, and their tokens are increasing. -/
  owns : ∀ t ∈ m.types, t.OwnsFields
  /-- The tokens of a type's methods are increasing. -/
  method_order : ∀ t ∈ m.types, t.methods.Pairwise fun s s' => s.value < s'.value
  /-- A type lists the methods of which it is the owner. -/
  mem_methods : ∀ t ∈ m.types, ∀ token, token ∈ t.methods ↔
    ∃ d ∈ m.methods, d.token = token ∧ d.owner = t.token
  /-- A method is listed by one type alone. -/
  listed : ∀ d ∈ m.methods, ∃! t, t ∈ m.types ∧ d.token ∈ t.methods
  type?_token : ∀ t ∈ m.types, m.type? t.token = some t
  method?_token : ∀ d ∈ m.methods, m.method? d.token = some d
  /-- The reference to a method is on the type that is its owner. -/
  reference?_token : ∀ d ∈ m.methods, ∃ t ∈ m.types, t.token = d.owner ∧
    m.reference? d.token = some (d.reference t.reference)
  /-- A call that names a token that is not of the module changes nothing. -/
  refused : ∀ {call : Call} {cause : Malformation}, call.refusal? m = some cause →
    call.edit m = .error (.malformed cause) m
  performed : ∀ {call : Call}, call.refusal? m = none → ∃ token m', call.edit m = .ok token m'

namespace WellFormed

/-- The owner of a method is a type of the module. -/
theorem exists_owner (hwf : m.WellFormed) {d : MethodDecl} (hd : d ∈ m.methods) :
    ∃ t ∈ m.types, t.token = d.owner := by
  obtain ⟨i, hi, howner⟩ := hwf.owner hd
  have hrow : m.types[i]? = some m.types[i] := List.getElem?_eq_getElem hi
  exact ⟨m.types[i], List.getElem_mem hi, by rw [howner, hwf.type_token hrow]⟩

theorem mem_methods (hwf : m.WellFormed) {t : TypeDecl} (ht : t ∈ m.types) {token : Token} :
    token ∈ t.methods ↔ ∃ d ∈ m.methods, d.token = token ∧ d.owner = t.token := by
  obtain ⟨i, -, hrow, htoken⟩ := hwf.exists_row ht
  rw [hwf.methods_eq hrow, htoken, List.mem_map]
  simp only [List.mem_filter, decide_eq_true_eq]
  exact exists_congr fun d => by tauto

theorem listed (hwf : m.WellFormed) {d : MethodDecl} (hd : d ∈ m.methods) :
    ∃! t, t ∈ m.types ∧ d.token ∈ t.methods := by
  obtain ⟨t, ht, htoken⟩ := hwf.exists_owner hd
  refine ⟨t, ⟨ht, (hwf.mem_methods ht).mpr ⟨d, hd, rfl, htoken.symm⟩⟩, ?_⟩
  rintro t' ⟨ht', hlisted⟩
  obtain ⟨d', hd', hsame, howner⟩ := (hwf.mem_methods ht').mp hlisted
  -- the two methods are one, and so are their owners
  have hmethod : d' = d := by
    have := hwf.method?_token hd'
    rw [hsame, hwf.method?_token hd] at this
    exact (Option.some.inj this).symm
  have htype := hwf.type?_token ht'
  rw [← howner, hmethod, ← htoken, hwf.type?_token ht] at htype
  exact (Option.some.inj htype).symm

/-- Methods are declared in the order of their tokens. -/
theorem method_order (hwf : m.WellFormed) {t : TypeDecl} (ht : t ∈ m.types) :
    t.methods.Pairwise fun s s' => s.value < s'.value := by
  obtain ⟨i, -, hrow, -⟩ := hwf.exists_row ht
  rw [hwf.methods_eq hrow, List.pairwise_map]
  refine List.Pairwise.filter _ (List.pairwise_iff_getElem.mpr fun j k hj hk hjk => ?_)
  rw [hwf.method_token (List.getElem?_eq_getElem hj),
    hwf.method_token (List.getElem?_eq_getElem hk)]
  exact Token.ofParts_lt (by decide) (Nat.lt_of_le_of_lt hk hwf.methods) (Nat.succ_lt_succ hjk)

theorem reference?_token (hwf : m.WellFormed) {d : MethodDecl} (hd : d ∈ m.methods) :
    ∃ t ∈ m.types, t.token = d.owner ∧
      m.reference? d.token = some (d.reference t.reference) := by
  obtain ⟨t, ht, htoken⟩ := hwf.exists_owner hd
  refine ⟨t, ht, htoken, ?_⟩
  simp only [reference?, hwf.method?_token hd, ← htoken, hwf.type?_token ht, Option.bind_eq_bind,
    Option.bind_some, Option.pure_def]

/-- A well-formed module of which the fields are numbered through is consistent. -/
theorem consistent (hwf : m.WellFormed) (hm : m.Numbered)
    (hfields : m.fieldCount < Token.rowLimit) : m.Consistent where
  type_token := by
    intro i t ht
    have hi : i + 1 < Token.rowLimit :=
      Nat.lt_of_le_of_lt (List.getElem?_eq_some_iff.mp ht).1 hwf.types
    rw [hwf.type_token ht, Token.typeDef, Token.toNat_value_ofParts (by decide),
      Nat.mod_eq_of_lt hi]
    simp only [Token.typeDefTable, Token.rowLimit]
    omega
  scope := hm.scope
  method_token := by
    intro j d hd
    have hj : j + 1 < Token.rowLimit :=
      Nat.lt_of_le_of_lt (List.getElem?_eq_some_iff.mp hd).1 hwf.methods
    rw [hwf.method_token hd, Token.methodDef, Token.toNat_value_ofParts (by decide),
      Nat.mod_eq_of_lt hj]
    simp only [Token.methodDefTable, Token.rowLimit]
    omega
  field_tokens := by
    rw [← toNat_fieldTokens hfields]
    have htokens := hm.tokens.map fun s => s.value.toNat
    rw [List.map_map] at htokens
    exact htokens
  owns := hm.owns
  method_order := fun t ht => hwf.method_order ht
  mem_methods := fun t ht token => hwf.mem_methods ht
  listed := fun d hd => hwf.listed hd
  type?_token := fun t ht => hwf.type?_token ht
  method?_token := fun d hd => hwf.method?_token hd
  reference?_token := fun d hd => hwf.reference?_token hd
  refused := by
    intro call cause hcause
    have := hwf.edit_eq call
    rw [hcause] at this
    exact this
  performed := by
    intro call hnone
    have := hwf.edit_eq call
    rw [hnone] at this
    exact this

end WellFormed

/-! ### Tokens that were issued -/

/-- The token leads to what the call that issued it has declared.  Types may have been given more
fields and methods since, and the body of a method is the one that was last stored for it. -/
def Call.Declared (m : Module) (token : Token) (later : List Call) : Call → Prop
  | addType namespaceName name base => ∃ fields methods,
      m.type? token = some ⟨token, namespaceName, name, m.name, base, fields, methods⟩
  | addField owner name fieldType isStatic initialData => ∃ t, m.type? owner = some t ∧
      ⟨token, name, fieldType, owner, isStatic, initialData⟩ ∈ t.fields
  | addMethod owner name flags signature body =>
      m.method? token = some
        ⟨token, name, owner, flags, signature, later.foldl (bodyOf token) body⟩ ∧
      ∃ t, m.type? owner = some t ∧ m.reference? token = some ⟨t.reference, name, signature⟩
  | _ => True

theorem Edit.of_map_some {α : Type} {edit : Edit α} {a : α}
    (h : (some <$> edit) m = .ok (some a) m') : edit m = .ok a m' := by
  simp only [Functor.map, EStateM.map] at h
  cases hedit : edit m with
  | ok b m'' =>
      rw [hedit] at h
      cases h
      rfl
  | error e m'' =>
      rw [hedit] at h
      cases h

/-- The type at a position of the table is behind a token that leads there. -/
theorem type?_of_typeIndex? {token : Token} {i : Nat} (h : m.typeIndex? token = some i) :
    ∃ t, m.types[i]? = some t ∧ m.type? token = some t := by
  have hi := (eq_typeDef_of_typeIndex? h).2
  exact ⟨m.types[i], List.getElem?_eq_getElem hi,
    type?_eq_some.mpr ⟨i, (Option.filter_eq_some_iff.mp h).1, List.getElem?_eq_getElem hi⟩⟩

theorem type?_addType (m : Module) (namespaceName name : String) (base : Option TypeRef)
    (hroom : (m.addType namespaceName name base).2.types.length < Token.rowLimit) :
    (m.addType namespaceName name base).2.type? (m.addType namespaceName name base).1 =
      some ⟨(m.addType namespaceName name base).1, namespaceName, name, m.name, base, [], []⟩ := by
  rw [Module.addType, List.length_append, List.length_singleton] at hroom
  exact type?_eq_some.mpr ⟨m.types.length, Token.indexIn_ofParts (by decide) hroom,
    List.getElem?_concat_length⟩

/-- A new field is the last one of its owner. -/
theorem type?_addField {token owner : Token} {name fieldType : String} {isStatic : Bool}
    {initialData : Option (List UInt8)}
    (h : addField owner name fieldType isStatic initialData m = .ok token m') :
    ∃ t : TypeDecl, m'.type? owner = some { t with
      fields := t.fields ++ [⟨token, name, fieldType, owner, isStatic, initialData⟩] } := by
  rw [addField] at h
  split at h
  · cases h
  · rename_i i hindex
    cases h
    obtain ⟨t, hrow, -⟩ := type?_of_typeIndex? hindex
    exact ⟨t, type?_eq_some.mpr ⟨i, (Option.filter_eq_some_iff.mp hindex).1,
      getElem?_modify_eq_some.mpr ⟨t, hrow, (if_pos rfl).symm⟩⟩⟩

/-- The token of a new method leads to the method, and its owner is a type. -/
theorem method?_addMethod {token owner : Token} {name : String} {flags : UInt32}
    {signature : Signature} {body : Option Body}
    (h : addMethod owner name flags signature body m = .ok token m')
    (hroom : m'.methods.length < Token.rowLimit) :
    m'.method? token = some ⟨token, name, owner, flags, signature, body⟩ ∧
      ∃ t, m'.type? owner = some t := by
  rw [addMethod] at h
  split at h
  · cases h
  · rename_i i hindex
    cases h
    rw [List.length_append, List.length_singleton] at hroom
    obtain ⟨t, hrow, -⟩ := type?_of_typeIndex? hindex
    refine ⟨method?_eq_some.mpr ⟨m.methods.length, Token.indexIn_ofParts (by decide) hroom,
      List.getElem?_concat_length⟩, _, type?_eq_some.mpr ⟨i,
        (Option.filter_eq_some_iff.mp hindex).1, getElem?_modify_eq_some.mpr ⟨t, hrow, rfl⟩⟩⟩

/-- A token that a call has issued leads to what the call has declared, whatever calls follow. -/
theorem declared_run {call : Call} {token : Token} (h : call.edit m = .ok (some token) m')
    (later : List Call) (hlater : (m'.run later).Addressable) (hm : (m'.run later).Numbered) :
    call.Declared (m'.run later) token later := by
  have hm' : m'.Addressable := (noLarger_run m' later).addressable hlater
  cases call with
  | addType namespaceName name base =>
      cases h
      obtain ⟨t, ht, fields, methods, rfl⟩ :=
        type?_run (type?_addType m namespaceName name base hm'.types) later
      refine ⟨fields, methods, ?_⟩
      rw [← hm.scope _ (mem_of_type? ht)]
      exact ht
  | addField owner name fieldType isStatic initialData =>
      obtain ⟨t, ht⟩ := type?_addField (Edit.of_map_some h)
      obtain ⟨t', ht', fields, methods, rfl⟩ := type?_run ht later
      exact ⟨_, ht', List.mem_append_left _ (List.mem_append_right _ List.mem_cons_self)⟩
  | addMethod owner name flags signature body =>
      obtain ⟨hmethod, t, ht⟩ := method?_addMethod (Edit.of_map_some h) hm'.methods
      have hmethod' := method?_run hmethod later
      obtain ⟨t', ht', -⟩ := type?_run ht later
      refine ⟨hmethod', t', ht', ?_⟩
      simp only [reference?, hmethod', ht', Option.bind_eq_bind, Option.bind_some, Option.pure_def]
      rfl
  | addResource r => trivial
  | upsertResource name data => trivial
  | replaceBody token body => trivial

/-- A module is consistent after any calls, and every token that one of them has issued leads to
what was declared. -/
theorem run_consistent (name : String) (calls : List Call)
    (h : ((named name).run calls).Addressable) :
    ((named name).run calls).Consistent ∧
      ∀ before call later, calls = before ++ call :: later → ∀ token m',
        call.edit ((named name).run before) = .ok (some token) m' →
          call.Declared ((named name).run calls) token later := by
  obtain ⟨hwf, hm⟩ := wellFormed_run name calls h
  refine ⟨hwf.consistent hm h.fields, ?_⟩
  rintro before call later rfl token m' hissued
  have hrun : (named name).run (before ++ call :: later) = m'.run later := by
    rw [run_append, run, List.foldl_cons, ← run, perform, Edit.apply, hissued]
  rw [hrun] at h hm ⊢
  exact declared_run hissued later h hm

/-- Calls of every operation, of which the first and the last but one are refused. -/
def sampleCalls : List Call :=
  [.addField (.typeDef 1) "early" WellKnown.boolean true none,
    .addType "Obf" "A" none,
    .addMethod (.typeDef 1) "Run" staticFlag.bit .void none,
    .addType "Obf" "B" none,
    .addField (.typeDef 2) "flag" WellKnown.boolean true none,
    .addField (.typeDef 1) "data" WellKnown.byteArray true (some [0x2A]),
    .addMethod (.typeDef 2) ".ctor" 0 .void (some ⟨[], []⟩),
    .addResource (.internal "payload" [0x4D, 0x5A]),
    .replaceBody (.methodDef 1) ⟨[⟨0, .ret, .none⟩], []⟩,
    .replaceBody (.methodDef 3) ⟨[], []⟩,
    .upsertResource "payload" []]

/-- The first method of the sample has the body that was stored for it after its declaration. -/
theorem run_consistent_sample :
    ((named "app.exe").run sampleCalls).Addressable ∧
      ((named "app.exe").run sampleCalls).Consistent ∧
      ((named "app.exe").run sampleCalls).method? (.methodDef 1) = some
        ⟨.methodDef 1, "Run", .typeDef 1, staticFlag.bit, .void,
          some ⟨[⟨0, .ret, .none⟩], []⟩⟩ := by
  have haddressable : ((named "app.exe").run sampleCalls).Addressable :=
    ⟨⟨by decide, by decide⟩, by decide⟩
  obtain ⟨hconsistent, hdeclared⟩ := run_consistent "app.exe" sampleCalls haddressable
  have hmethod := hdeclared (sampleCalls.take 2)
    (.addMethod (.typeDef 1) "Run" staticFlag.bit .void none) (sampleCalls.drop 3) rfl
    (.methodDef 1) _ rfl
  exact ⟨haddressable, hconsistent, hmethod.1⟩

end Module

end ResolverRecovery
