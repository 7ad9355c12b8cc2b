import ResolverRecovery.Proofs.Metadata.Built

/-!
# Modules of which bodies were rewritten

The stages of a recovery rewrite bodies of methods and leave everything else in the module as it is.
How far a stage goes is said by the methods that it may touch, and by a relation between the body
before and the body after.  It takes a relation because a normalizer may be anything, so that what
it makes of a body is not a function of that body alone: the body may pass through it once or
several times.

## Main definitions

* `Module.Rewritten`: bodies of some methods were rewritten as a relation allows, and nothing else.

## Main statements

* `Module.method?_setBody`: storing a body changes the method behind the token and no other.
* `Module.Rewritten.trans`: rewriting twice is rewriting once, if the relation is transitive.
* `Module.Rewritten.imp`: a relation that allows more.
-/

namespace ResolverRecovery.Module

/-- Storing a body changes the method behind the token and no other. -/
theorem method?_setBody (m : Module) (t : Token) (b : Body) (t' : Token) :
    (m.setBody t b).method? t' =
      if t' = t then (m.method? t').map fun d => { d with body := some b } else m.method? t' := by
  cases hindex : m.methodIndex? t with
  | none =>
      have hunchanged : m.setBody t b = m := by rw [setBody, hindex]
      rw [hunchanged]
      split
      · rename_i heq
        rw [heq, method?, hindex]
        rfl
      · rfl
  | some i =>
      have hstored : m.setBody t b = { m with
          methods := m.methods.modify i fun d => { d with body := some b } } := by
        rw [setBody, hindex]
      have hsame : (m.setBody t b).methodIndex? t' = m.methodIndex? t' := by
        rw [hstored, methodIndex?, methodIndex?, List.length_modify]
      rw [method?, hsame, hstored, method?]
      cases hindex' : m.methodIndex? t' with
      | none => simp
      | some j =>
          rw [Option.bind_some, Option.bind_some]
          by_cases heq : t' = t
          · rw [heq, hindex] at hindex'
            rw [if_pos heq, Option.some.inj hindex', List.getElem?_modify_eq]
            rfl
          · have hne : i ≠ j := by
              rintro rfl
              exact heq ((eq_methodDef_of_methodIndex? hindex').1.trans
                (eq_methodDef_of_methodIndex? hindex).1.symm)
            rw [if_neg heq, List.getElem?_modify_ne _ _ hne]

/-- Bodies of some of the touched methods were rewritten as `rewrites` allows, and nothing else has
changed. -/
structure Rewritten (rewrites : Body → Body → Prop) (touched : Token → Prop) (m m' : Module) :
    Prop where
  name : m'.name = m.name
  types : m'.types = m.types
  /-- The fields are counted on from the same number. -/
  fieldCount : m'.fieldCount = m.fieldCount
  resources : m'.resources = m.resources
  count : m'.methods.length = m.methods.length
  /-- A method is the same, or it is touched and its body rewritten. -/
  method : ∀ t, m'.method? t = m.method? t ∨
    touched t ∧ ∃ d b b', m.method? t = some d ∧ d.body = some b ∧ rewrites b b' ∧
      m'.method? t = some { d with body := some b' }

namespace Rewritten

variable {rewrites rewrites' : Body → Body → Prop} {touched touched' : Token → Prop}
variable {m m' m'' : Module}

theorem refl (m : Module) : Rewritten rewrites touched m m where
  name := rfl
  types := rfl
  fieldCount := rfl
  resources := rfl
  count := rfl
  method := fun _ => .inl rfl

theorem mono (h : m.Rewritten rewrites touched m') (hle : ∀ t, touched t → touched' t) :
    m.Rewritten rewrites touched' m' :=
  { h with method := fun t => (h.method t).imp id fun ⟨ht, hbody⟩ => ⟨hle t ht, hbody⟩ }

/-- A relation may be replaced by another that allows as much, not counting bodies that stay as they
are. -/
theorem imp (h : m.Rewritten rewrites touched m')
    (hle : ∀ {b b'}, rewrites b b' → b' = b ∨ rewrites' b b') :
    m.Rewritten rewrites' touched m' where
  name := h.name
  types := h.types
  fieldCount := h.fieldCount
  resources := h.resources
  count := h.count
  method := by
    intro t
    rcases h.method t with hsame | ⟨ht, d, b, b', hd, hb, hbb', hd'⟩
    · exact .inl hsame
    · rcases hle hbb' with rfl | hallowed
      · rw [← hb] at hd'
        exact .inl (hd'.trans hd.symm)
      · exact .inr ⟨ht, d, b, b', hd, hb, hallowed, hd'⟩

theorem trans (hrewrites : ∀ {a b c}, rewrites a b → rewrites b c → rewrites a c)
    (h : m.Rewritten rewrites touched m') (h' : m'.Rewritten rewrites touched m'') :
    m.Rewritten rewrites touched m'' where
  name := h'.name.trans h.name
  types := h'.types.trans h.types
  fieldCount := h'.fieldCount.trans h.fieldCount
  resources := h'.resources.trans h.resources
  count := h'.count.trans h.count
  method := by
    intro t
    rcases h.method t with hsame | ⟨ht, d, b, b', hd, hb, hbb', hd'⟩
    · rcases h'.method t with hsame' | ⟨ht', hrest⟩
      · exact .inl (hsame'.trans hsame)
      · rw [hsame] at hrest
        exact .inr ⟨ht', hrest⟩
    · rcases h'.method t with hsame' | ⟨-, e, c, c', he, hc, hcc', he'⟩
      · exact .inr ⟨ht, d, b, b', hd, hb, hbb', hsame'.trans hd'⟩
      · -- both have rewritten the body, the second time what the first time has made of it
        rw [hd'] at he
        cases he
        cases hc
        exact .inr ⟨ht, d, b, c', hd, hb, hrewrites hbb' hcc', he'⟩

/-- Storing what the body of a touched method was rewritten to is rewriting. -/
theorem setBody {t : Token} {b b' : Body} (ht : touched t)
    (hbody : (m.method? t).bind MethodDecl.body = some b) (hrewrites : rewrites b b') :
    m.Rewritten rewrites touched (m.setBody t b') := by
  obtain ⟨d, hd, hdb⟩ := Option.bind_eq_some_iff.mp hbody
  have hmethod : ∀ t', (m.setBody t b').method? t' = m.method? t' ∨
      touched t' ∧ ∃ d b b'', m.method? t' = some d ∧ d.body = some b ∧ rewrites b b'' ∧
        (m.setBody t b').method? t' = some { d with body := some b'' } := by
    intro t'
    rw [method?_setBody]
    split
    · rename_i heq
      rw [heq, hd]
      exact .inr ⟨ht, d, b, b', rfl, hdb, hrewrites, rfl⟩
    · exact .inl rfl
  cases hindex : m.methodIndex? t with
  | none =>
      rw [Module.setBody, hindex]
      exact refl m
  | some i =>
      refine ⟨?_, ?_, ?_, ?_, ?_, hmethod⟩
      all_goals
        rw [Module.setBody, hindex]
      exact List.length_modify _ _ _

theorem method?_eq (h : m.Rewritten rewrites touched m') {t : Token} (ht : ¬touched t) :
    m'.method? t = m.method? t :=
  (h.method t).resolve_right fun hboth => ht hboth.1

end Rewritten

end ResolverRecovery.Module
