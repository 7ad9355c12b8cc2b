import Mathlib.Data.List.Basic
import ResolverRecovery.Metadata.Module

/-!
# Modules built by declarations

A module that was built by declarations alone issues its tokens row by row, and a type lists exactly
the methods that it owns.  Look-up by token then finds what the token was issued for, as long as no
table has more rows than tokens can tell apart.

## Main definitions

* `Module.Built`: the modules that declarations lead to.
* `Module.InRange`: tokens can tell all rows apart.
* `Module.WellFormed`: tokens, rows and owners fit together.

## Main statements

* `Module.Built.wellFormed`: declarations keep a module well formed.
* `Module.WellFormed.type?_token`, `Module.WellFormed.method?_token`: look-up finds every row.
* `Module.WellFormed.methodsOf_eq`: the methods of a type are those that it owns.
-/

namespace ResolverRecovery

/-! ### Tokens and rows -/

namespace Token

variable {table row : Nat}

theorem toNat_value_ofParts (htable : table < 256) :
    (ofParts table row).value.toNat = table * rowLimit + row % rowLimit := by
  rw [ofParts, UInt32.toNat_ofNat']
  simp only [rowLimit]
  omega

theorem table_ofParts (htable : table < 256) : (ofParts table row).table = table := by
  rw [Token.table, toNat_value_ofParts htable]
  simp only [rowLimit]
  omega

theorem row_ofParts (htable : table < 256) (hrow : row < rowLimit) :
    (ofParts table row).row = row := by
  rw [Token.row, toNat_value_ofParts htable]
  simp only [rowLimit] at hrow ⊢
  omega

theorem ofParts_table_row (t : Token) : ofParts t.table t.row = t := by
  have hvalue : t.table * rowLimit + t.row % rowLimit = t.value.toNat := by
    rw [Token.table, Token.row, Nat.mod_mod]
    exact Nat.div_add_mod' _ _
  rw [ofParts, hvalue, UInt32.ofNat_toNat]

/-- A token for a position of a table leads to that position. -/
theorem indexIn_ofParts {i : Nat} (htable : table < 256) (hrow : i + 1 < rowLimit) :
    (ofParts table (i + 1)).indexIn table = some i := by
  rw [indexIn, if_pos (table_ofParts htable), index, row_ofParts htable hrow,
    if_neg (Nat.succ_ne_zero i), Nat.add_sub_cancel]

/-- Only one token leads to a position of a table. -/
theorem eq_ofParts_of_indexIn {t : Token} {i : Nat} (h : t.indexIn table = some i) :
    t = ofParts table (i + 1) := by
  rw [indexIn] at h
  split at h
  · rename_i htable
    rw [index] at h
    split at h
    · cases h
    · rename_i hrow
      have hi : t.row = i + 1 := by
        have := Option.some.inj h
        omega
      rw [← hi, ← htable, ofParts_table_row]
  · cases h

theorem ofParts_inj {i j : Nat} (htable : table < 256) (hi : i + 1 < rowLimit)
    (hj : j + 1 < rowLimit) (h : ofParts table (i + 1) = ofParts table (j + 1)) : i = j := by
  have hrow := congrArg Token.row h
  rw [row_ofParts htable hi, row_ofParts htable hj] at hrow
  omega

end Token

/-! ### Rows of a table -/

theorem getElem?_concat_eq_some {α : Type} {rows : List α} {row a : α} {i : Nat} :
    (rows ++ [a])[i]? = some row ↔ rows[i]? = some row ∨ i = rows.length ∧ row = a := by
  rcases Nat.lt_trichotomy i rows.length with hlt | rfl | hgt
  · rw [List.getElem?_append_left hlt]
    simp [Nat.ne_of_lt hlt]
  · simp [eq_comm]
  · rw [List.getElem?_append_right (Nat.le_of_lt hgt)]
    simp [Nat.ne_of_gt hgt, Nat.le_of_lt hgt, Nat.sub_ne_zero_of_lt hgt]

theorem getElem?_modify_eq_some {α : Type} {rows : List α} {f : α → α} {row : α} {i j : Nat} :
    (rows.modify i f)[j]? = some row ↔ ∃ a, rows[j]? = some a ∧ row = if i = j then f a else a := by
  rw [List.getElem?_modify]
  cases rows[j]? <;> simp [eq_comm]

namespace Module

/-! ### Modules that declarations lead to -/

/-- The modules that declarations lead to, refused ones apart. -/
inductive Built : Module → Prop
  | named (name : String) : Built (.named name)
  | addType {m : Module} (h : Built m) (namespaceName name : String) (base : Option TypeRef) :
      Built (m.addType namespaceName name base).2
  | addField {m m' : Module} {token owner : Token} {name fieldType : String} {isStatic : Bool}
      {initialData : Option (List UInt8)} (h : Built m)
      (hadd : addField owner name fieldType isStatic initialData m = .ok token m') : Built m'
  | addMethod {m m' : Module} {token owner : Token} {name : String} {flags : UInt32}
      {signature : Signature} {body : Option Body} (h : Built m)
      (hadd : addMethod owner name flags signature body m = .ok token m') : Built m'
  | addResource {m : Module} (h : Built m) (r : Resource) : Built (m.addResource r)

/-- The module after an edit, which may have been refused. -/
def Edit.apply {α : Type} (edit : Edit α) (m : Module) : Module :=
  match edit m with
  | .ok _ m => m
  | .error _ m => m

/-- Declaring a field leads to a built module, also if it is refused. -/
theorem Built.apply_addField {m : Module} (h : m.Built) (owner : Token) (name fieldType : String)
    (isStatic : Bool) (initialData : Option (List UInt8)) :
    (Edit.apply (Module.addField owner name fieldType isStatic initialData) m).Built := by
  rw [Edit.apply]
  cases hadd : Module.addField owner name fieldType isStatic initialData m with
  | ok token m' => exact h.addField hadd
  | error e m' =>
      rw [Module.addField] at hadd
      split at hadd <;> cases hadd
      exact h

/-- Declaring a method leads to a built module, also if it is refused. -/
theorem Built.apply_addMethod {m : Module} (h : m.Built) (owner : Token) (name : String)
    (flags : UInt32) (signature : Signature) (body : Option Body) :
    (Edit.apply (Module.addMethod owner name flags signature body) m).Built := by
  rw [Edit.apply]
  cases hadd : Module.addMethod owner name flags signature body m with
  | ok token m' => exact h.addMethod hadd
  | error e m' =>
      rw [Module.addMethod] at hadd
      split at hadd <;> cases hadd
      exact h

/-- Tokens can tell all types and all methods apart. -/
structure InRange (m : Module) : Prop where
  types : m.types.length < Token.rowLimit
  methods : m.methods.length < Token.rowLimit

/-- Tokens are issued row by row, and a type lists the methods that it owns. -/
structure WellFormed (m : Module) : Prop extends InRange m where
  /-- A type has the token of its row. -/
  type_token : ∀ {i : Nat} {t : TypeDecl}, m.types[i]? = some t → t.token = .typeDef (i + 1)
  /-- A method has the token of its row. -/
  method_token : ∀ {j : Nat} {d : MethodDecl}, m.methods[j]? = some d → d.token = .methodDef (j + 1)
  /-- Every method is owned by a type. -/
  owner : ∀ {d : MethodDecl}, d ∈ m.methods → ∃ i, i < m.types.length ∧ d.owner = .typeDef (i + 1)
  /-- A type lists the methods that it owns. -/
  methods_eq : ∀ {i : Nat} {t : TypeDecl}, m.types[i]? = some t →
    t.methods = (m.methods.filter fun d => d.owner = .typeDef (i + 1)).map MethodDecl.token

/-! ### What a declaration does -/

variable {m m' : Module}

/-- A type of a module is behind the token of its row. -/
theorem eq_typeDef_of_typeIndex? {t : Token} {i : Nat} (h : m.typeIndex? t = some i) :
    t = .typeDef (i + 1) ∧ i < m.types.length := by
  obtain ⟨hindex, hlt⟩ := Option.filter_eq_some_iff.mp h
  exact ⟨Token.eq_ofParts_of_indexIn hindex, of_decide_eq_true hlt⟩

/-- A method of a module is behind the token of its row. -/
theorem eq_methodDef_of_methodIndex? {t : Token} {i : Nat} (h : m.methodIndex? t = some i) :
    t = .methodDef (i + 1) ∧ i < m.methods.length := by
  obtain ⟨hindex, hlt⟩ := Option.filter_eq_some_iff.mp h
  exact ⟨Token.eq_ofParts_of_indexIn hindex, of_decide_eq_true hlt⟩

/-- A declared field joins the fields of its type. -/
theorem addField_eq_ok {token owner : Token} {name fieldType : String} {isStatic : Bool}
    {initialData : Option (List UInt8)}
    (h : addField owner name fieldType isStatic initialData m = .ok token m') :
    ∃ i declared, m' = { m with
      fieldCount := m.fieldCount + 1
      types := m.types.modify i fun t => { t with fields := t.fields ++ [declared] } } := by
  rw [addField] at h
  split at h
  · cases h
  · cases h
    exact ⟨_, _, rfl⟩

/-- A declared method joins the methods of the module, and its token those of its type. -/
theorem addMethod_eq_ok {token owner : Token} {name : String} {flags : UInt32}
    {signature : Signature} {body : Option Body}
    (h : addMethod owner name flags signature body m = .ok token m') :
    ∃ i d, i < m.types.length ∧ d.owner = .typeDef (i + 1) ∧
      d.token = .methodDef (m.methods.length + 1) ∧ m' = { m with
        methods := m.methods ++ [d]
        types := m.types.modify i fun t => { t with methods := t.methods ++ [d.token] } } := by
  rw [addMethod] at h
  split at h
  · cases h
  · rename_i i hi
    cases h
    obtain ⟨howner, hlt⟩ := eq_typeDef_of_typeIndex? hi
    exact ⟨i, ⟨.methodDef (m.methods.length + 1), name, owner, flags, signature, body⟩, hlt, howner,
      rfl, rfl⟩

/-- Tokens tell the rows of the type table apart. -/
theorem InRange.typeDef_inj (hrange : m.InRange) {i j : Nat} (hi : i < m.types.length)
    (hj : j < m.types.length) (h : Token.typeDef (i + 1) = Token.typeDef (j + 1)) : i = j :=
  Token.ofParts_inj (by decide) (Nat.lt_of_le_of_lt hi hrange.types)
    (Nat.lt_of_le_of_lt hj hrange.types) h

namespace WellFormed

theorem named (name : String) : (Module.named name).WellFormed where
  types := show 0 < Token.rowLimit by decide
  methods := show 0 < Token.rowLimit by decide
  type_token := fun h => by simp [Module.named] at h
  method_token := fun h => by simp [Module.named] at h
  owner := fun h => by simp [Module.named] at h
  methods_eq := fun h => by simp [Module.named] at h

/-- A new type owns no method yet. -/
theorem addType (hwf : m.WellFormed) (namespaceName name : String) (base : Option TypeRef)
    (hrange : (m.addType namespaceName name base).2.InRange) :
    (m.addType namespaceName name base).2.WellFormed := by
  have hlength : (m.addType namespaceName name base).2.types.length = m.types.length + 1 := by
    simp [Module.addType]
  refine ⟨hrange, ?_, hwf.method_token, ?_, ?_⟩
  · intro i t ht
    rcases getElem?_concat_eq_some.mp ht with hold | ⟨rfl, rfl⟩
    · exact hwf.type_token hold
    · rfl
  · intro d hd
    obtain ⟨i, hi, howner⟩ := hwf.owner hd
    exact ⟨i, by omega, howner⟩
  · intro i t ht
    rcases getElem?_concat_eq_some.mp ht with hold | ⟨rfl, rfl⟩
    · exact hwf.methods_eq hold
    · -- methods are owned by types of earlier rows, which have other tokens
      refine (List.map_eq_nil_iff.mpr (List.filter_eq_nil_iff.mpr fun d hd => ?_)).symm
      obtain ⟨i, hi, howner⟩ := hwf.owner hd
      rw [decide_eq_true_eq, howner]
      intro hsame
      have := hrange.typeDef_inj (by omega) (by omega) hsame
      omega

/-- A field concerns neither tokens nor methods. -/
theorem addField (hwf : m.WellFormed) (i : Nat) (declared : FieldDecl) :
    WellFormed { m with
      fieldCount := m.fieldCount + 1
      types := m.types.modify i fun t => { t with fields := t.fields ++ [declared] } } where
  types := by
    simp only [List.length_modify]
    exact hwf.types
  methods := hwf.methods
  type_token := by
    intro j t ht
    obtain ⟨old, hold, rfl⟩ := getElem?_modify_eq_some.mp ht
    rw [← hwf.type_token hold]
    split <;> rfl
  method_token := hwf.method_token
  owner := by
    simp only [List.length_modify]
    exact hwf.owner
  methods_eq := by
    intro j t ht
    obtain ⟨old, hold, rfl⟩ := getElem?_modify_eq_some.mp ht
    rw [← hwf.methods_eq hold]
    split <;> rfl

/-- A new method is listed by its owner and by no other type. -/
theorem addMethod (hwf : m.WellFormed) {i : Nat} {d : MethodDecl} (hi : i < m.types.length)
    (howner : d.owner = .typeDef (i + 1)) (htoken : d.token = .methodDef (m.methods.length + 1))
    (hroom : m.methods.length + 1 < Token.rowLimit) :
    WellFormed { m with
      methods := m.methods ++ [d]
      types := m.types.modify i fun t => { t with methods := t.methods ++ [d.token] } } where
  types := by
    simp only [List.length_modify]
    exact hwf.types
  methods := by
    rw [List.length_append, List.length_singleton]
    exact hroom
  type_token := by
    intro j t ht
    obtain ⟨old, hold, rfl⟩ := getElem?_modify_eq_some.mp ht
    rw [← hwf.type_token hold]
    split <;> rfl
  method_token := by
    intro j e he
    rcases getElem?_concat_eq_some.mp he with hold | ⟨rfl, rfl⟩
    · exact hwf.method_token hold
    · exact htoken
  owner := by
    intro e he
    simp only [List.length_modify]
    rcases List.mem_append.mp he with hold | hnew
    · exact hwf.owner hold
    · rw [List.mem_singleton.mp hnew]
      exact ⟨i, hi, howner⟩
  methods_eq := by
    intro j t ht
    obtain ⟨old, hold, rfl⟩ := getElem?_modify_eq_some.mp ht
    have hj : j < m.types.length := (List.getElem?_eq_some_iff.mp hold).1
    rw [List.filter_append, List.map_append, ← hwf.methods_eq hold]
    -- the new method passes the filter of its owner alone
    by_cases hij : i = j
    · rw [if_pos hij, List.filter_cons_of_pos (by rw [howner, hij]; exact decide_eq_true rfl)]
      rfl
    · have hother : ¬d.owner = .typeDef (j + 1) := by
        rw [howner]
        exact fun hsame => hij (hwf.toInRange.typeDef_inj hi hj hsame)
      rw [if_neg hij, List.filter_cons_of_neg (by simpa using hother), List.filter_nil,
        List.map_nil, List.append_nil]

end WellFormed

/-- Declarations keep a module well formed as long as tokens can tell all rows apart. -/
theorem Built.wellFormed (h : m.Built) (hrange : m.InRange) : m.WellFormed := by
  -- tables only grow, so the bounds hold before a declaration if they hold after it
  induction h with
  | named name => exact .named name
  | addType h namespaceName name base ih =>
      have hbefore := hrange.types
      simp only [Module.addType, List.length_append, List.length_singleton] at hbefore
      exact (ih ⟨by omega, hrange.methods⟩).addType namespaceName name base hrange
  | addField h hadd ih =>
      obtain ⟨i, declared, rfl⟩ := addField_eq_ok hadd
      have hbefore := hrange.types
      rw [List.length_modify] at hbefore
      exact (ih ⟨hbefore, hrange.methods⟩).addField i declared
  | addMethod h hadd ih =>
      obtain ⟨i, d, hi, howner, htoken, rfl⟩ := addMethod_eq_ok hadd
      have hbefore := hrange.types
      have hroom := hrange.methods
      rw [List.length_modify] at hbefore
      rw [List.length_append, List.length_singleton] at hroom
      exact (ih ⟨hbefore, by omega⟩).addMethod hi howner htoken hroom
  | addResource h r ih =>
      obtain ⟨-, htype, hmethod, howner, hmethods⟩ := ih ⟨hrange.types, hrange.methods⟩
      exact ⟨hrange, htype, hmethod, howner, hmethods⟩

/-! ### Look-up -/

/-- A token for a row of the method table leads to that row. -/
theorem method?_methodDef (hrange : m.methods.length < Token.rowLimit) {i : Nat}
    (hi : i < m.methods.length) : m.method? (.methodDef (i + 1)) = m.methods[i]? := by
  have hindex : (Token.methodDef (i + 1)).indexIn Token.methodDefTable = some i :=
    Token.indexIn_ofParts (by decide) (Nat.lt_of_le_of_lt hi hrange)
  rw [method?, methodIndex?, hindex, Option.filter_some, if_pos (decide_eq_true hi),
    Option.bind_some]

namespace WellFormed

theorem exists_row (hwf : m.WellFormed) {t : TypeDecl} (ht : t ∈ m.types) :
    ∃ i, i < m.types.length ∧ m.types[i]? = some t ∧ t.token = .typeDef (i + 1) := by
  obtain ⟨i, hi, hget⟩ := List.mem_iff_getElem.mp ht
  have hrow : m.types[i]? = some t := by rw [List.getElem?_eq_getElem hi, hget]
  exact ⟨i, hi, hrow, hwf.type_token hrow⟩

theorem type?_token (hwf : m.WellFormed) {t : TypeDecl} (ht : t ∈ m.types) :
    m.type? t.token = some t := by
  obtain ⟨i, hi, hrow, htoken⟩ := hwf.exists_row ht
  have hindex : t.token.indexIn Token.typeDefTable = some i := by
    rw [htoken]
    exact Token.indexIn_ofParts (by decide) (Nat.lt_of_le_of_lt hi hwf.types)
  rw [type?, typeIndex?, hindex, Option.filter_some, if_pos (decide_eq_true hi), Option.bind_some,
    hrow]

theorem method?_token (hwf : m.WellFormed) {d : MethodDecl} (hd : d ∈ m.methods) :
    m.method? d.token = some d := by
  obtain ⟨j, hj, hget⟩ := List.mem_iff_getElem.mp hd
  have hrow : m.methods[j]? = some d := by rw [List.getElem?_eq_getElem hj, hget]
  rw [hwf.method_token hrow, method?_methodDef hwf.methods hj, hrow]

/-- The methods of a type are those that it owns, in order of declaration. -/
theorem methodsOf_eq (hwf : m.WellFormed) {t : TypeDecl} (ht : t ∈ m.types) :
    m.methodsOf t = m.methods.filter fun d => d.owner = t.token := by
  obtain ⟨i, hi, hrow, htoken⟩ := hwf.exists_row ht
  rw [methodsOf, hwf.methods_eq hrow, ← htoken, List.filterMap_map]
  have hfound : ∀ d ∈ m.methods.filter fun d => d.owner = t.token,
      (m.method? ∘ MethodDecl.token) d = some d := by
    intro d hd
    exact hwf.method?_token (List.mem_filter.mp hd).1
  rw [List.filterMap_congr hfound, List.filterMap_some]

end WellFormed

theorem mem_of_type? {token : Token} {t : TypeDecl} (h : m.type? token = some t) : t ∈ m.types := by
  obtain ⟨i, -, hrow⟩ := Option.bind_eq_some_iff.mp h
  exact List.mem_of_getElem? hrow

end Module

end ResolverRecovery
