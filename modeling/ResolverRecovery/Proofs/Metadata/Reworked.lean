import Mathlib.Data.List.Forall2
import ResolverRecovery.Proofs.Metadata.Rewritten

/-!
# Modules of which bodies were rewritten by a function

A normalizer that takes filler out makes the same of a body wherever it meets it, and nothing more
of what it has made.  Then the relation between the body before and the body after is a function,
and a method that was touched is known from what it was.

## Main definitions

* `Module.Reworked`: bodies of some methods were rewritten by a function, and nothing else.

## Main statements

* `Module.Reworked.method`: a method is the same, or it is touched and its body rewritten.
* `Module.Reworked.trans`: rewriting twice is rewriting once, if the second time changes nothing.
-/

namespace ResolverRecovery

/-- The method with its body rewritten, if it has one. -/
def MethodDecl.mapBody (f : Body → Body) (d : MethodDecl) : MethodDecl :=
  { d with body := d.body.map f }

namespace Module

variable {m m' m'' : Module}

/-- Bodies of some of the touched methods were rewritten by `f`, and nothing else has changed. -/
def Reworked (f : Body → Body) (touched : Token → Prop) (m m' : Module) : Prop :=
  m.Rewritten (fun b b' => b' = f b) touched m'

namespace Reworked

variable {f : Body → Body} {touched : Token → Prop}

/-- A method is the same, or it is touched and its body rewritten. -/
theorem method (h : m.Reworked f touched m') (t : Token) :
    m'.method? t = m.method? t ∨
      touched t ∧ m'.method? t = (m.method? t).map (MethodDecl.mapBody f) := by
  rcases Rewritten.method h t with hsame | ⟨ht, d, b, _, hd, hb, rfl, hd'⟩
  · exact .inl hsame
  · refine .inr ⟨ht, ?_⟩
    rw [hd', hd, Option.map_some, MethodDecl.mapBody, hb, Option.map_some]

/-- If rewriting a body a second time changes nothing, rewriting twice is rewriting once. -/
theorem trans (hf : ∀ b, f (f b) = f b) (h : m.Reworked f touched m')
    (h' : m'.Reworked f touched m'') : m.Reworked f touched m'' := by
  refine Rewritten.trans (fun hb hc => ?_) h h'
  rw [hc, hb, hf]

theorem body_eq (h : m.Reworked f touched m') {t : Token} {b : Body}
    (hbody : (m.method? t).bind MethodDecl.body = some b) :
    (m'.method? t).bind MethodDecl.body = some b ∨
      (m'.method? t).bind MethodDecl.body = some (f b) := by
  rcases h.method t with hsame | ⟨-, hmapped⟩
  · exact .inl (by rw [hsame, hbody])
  · refine .inr ?_
    obtain ⟨d, hd, hdb⟩ := Option.bind_eq_some_iff.mp hbody
    rw [hmapped, hd, Option.map_some, Option.bind_some, MethodDecl.mapBody, hdb, Option.map_some]

/-- Row by row, a method is the same, or it is touched and its body rewritten. -/
theorem forall₂_methods (h : m.Reworked f touched m') (hwf : m.WellFormed) :
    List.Forall₂ (fun d d' => d' = d ∨ touched d.token ∧ d' = d.mapBody f)
      m.methods m'.methods := by
  refine List.forall₂_iff_get.mpr ⟨h.count.symm, fun i hi hi' => ?_⟩
  have hrow : m.methods[i]? = some (m.methods.get ⟨i, hi⟩) := List.getElem?_eq_getElem hi
  have hrow' : m'.methods[i]? = some (m'.methods.get ⟨i, hi'⟩) := List.getElem?_eq_getElem hi'
  have hrange' : m'.methods.length < Token.rowLimit := h.count ▸ hwf.methods
  have hmethod := h.method (.methodDef (i + 1))
  rw [method?_methodDef hwf.methods hi, method?_methodDef hrange' hi', hrow, hrow',
    Option.map_some, Option.some_inj, Option.some_inj, ← hwf.method_token hrow] at hmethod
  exact hmethod

end Reworked

end Module

end ResolverRecovery
