import ResolverRecovery.Proofs.Recovery.RoundTrip

/-!
# How a search for the initializer goes

The candidates for the initializer are listed before the first of them is rewritten, and tested as
they are rewritten one after the other.  In a module of which the tokens tell all methods apart this
makes no difference: every candidate is normalized as it was declared, and the search ends with the
first one that sets the type up or that cannot be normalized.

## Main definitions

* `InitializerLocator.eligible`: the candidates among the methods of a module.
* `Workbench.afterVisits`: what is left behind by visits to some of them.
* `InitializerLocator.Search`: the ways in which a search ends.

## Main statements

* `Workbench.storeNormalized_afterVisits`: a visit goes on from those before it.
* `InitializerLocator.search_firstQualified`: the walk through the candidates ends in one of these
  ways.
* `InitializerLocator.locate_eq_iff`: how a search ends, and when.
-/

namespace ResolverRecovery

open Engine

/-! ### Rows of the method table -/

namespace Module

variable {m : Module} {d : MethodDecl} {f : MethodDecl → MethodDecl}

theorem method?_map (m : Module) (f : MethodDecl → MethodDecl) (t : Token) :
    ({ m with methods := m.methods.map f } : Module).method? t = (m.method? t).map f := by
  have hindex : ({ m with methods := m.methods.map f } : Module).methodIndex? t =
      m.methodIndex? t := by
    simp only [methodIndex?, List.length_map]
  rw [method?, method?, hindex]
  cases m.methodIndex? t with
  | none => rfl
  | some i => exact List.getElem?_map

/-- No method is declared twice. -/
theorem WellFormed.row_inj (hwf : m.WellFormed) {i j : Nat} (hi : m.methods[i]? = some d)
    (hj : m.methods[j]? = some d) : i = j := by
  have htoken := (hwf.method_token hi).symm.trans (hwf.method_token hj)
  exact Token.ofParts_inj (by decide)
    (Nat.lt_of_le_of_lt (List.getElem?_eq_some_iff.mp hi).1 hwf.methods)
    (Nat.lt_of_le_of_lt (List.getElem?_eq_some_iff.mp hj).1 hwf.methods) htoken

theorem WellFormed.nodup_methods (hwf : m.WellFormed) : m.methods.Nodup := by
  refine List.pairwise_iff_getElem.mpr fun i j hi hj hlt hsame => Nat.ne_of_lt hlt ?_
  exact hwf.row_inj (List.getElem?_eq_getElem hi) (hsame ▸ List.getElem?_eq_getElem hj)

/-- Storing the body of a declared method changes its row alone. -/
theorem setBody_map (hwf : m.WellFormed) (hd : d ∈ m.methods) (f : MethodDecl → MethodDecl)
    (b : Body) :
    ({ m with methods := m.methods.map f } : Module).setBody d.token b =
      { m with methods := m.methods.map fun e =>
        if e = d then { f e with body := some b } else f e } := by
  obtain ⟨i, hi, hget⟩ := List.mem_iff_getElem.mp hd
  have hrow : m.methods[i]? = some d := by rw [List.getElem?_eq_getElem hi, hget]
  have hindex : ({ m with methods := m.methods.map f } : Module).methodIndex? d.token =
      some i := by
    rw [methodIndex?, hwf.method_token hrow, List.length_map]
    have hrange : i + 1 < Token.rowLimit := Nat.lt_of_le_of_lt hi hwf.methods
    rw [Token.methodDef, Token.indexIn_ofParts (by decide) hrange, Option.filter_some,
      if_pos (decide_eq_true hi)]
  rw [setBody, hindex]
  simp only
  congr 1
  refine List.ext_getElem? fun j => ?_
  rw [List.getElem?_modify, List.getElem?_map, List.getElem?_map]
  cases hother : m.methods[j]? with
  | none => rfl
  | some e =>
      have hsame : i = j ↔ e = d := by
        constructor
        · rintro rfl
          exact Option.some.inj (hother.symm.trans hrow)
        · rintro rfl
          exact hwf.row_inj hrow hother
      simp only [Option.map_some, hsame]
      split <;> rfl

end Module

/-! ### What visits leave behind -/

/-- What the normalizer makes of a body; a body that it cannot normalize is left as it is. -/
def Normalizer.normalized (n : Normalizer) (b : Body) : Body :=
  match n.normalize b with
  | .ok b' => b'
  | .error _ => b

theorem Normalizer.normalized_eq {n : Normalizer} {b b' : Body} (h : n.normalize b = .ok b') :
    n.normalized b = b' := by
  rw [normalized, h]

namespace Workbench

/-- The event that a visit leaves behind if it has changed the body. -/
def visitEvent? (n : Normalizer) (d : MethodDecl) : Option Event :=
  (d.body.filter fun b => n.normalized b ≠ b).map fun _ =>
    .onMethod .methodNormalized d.token ("normalized initializer candidate " ++ d.token.text)

/-- The workbench after visits to some methods: these are normalized, and nothing else in the module
is different.  The log tells of those that have changed, in the order of the visits. -/
def afterVisits (n : Normalizer) (visited : List MethodDecl) (w : Workbench) : Workbench where
  module := { w.module with
    methods := w.module.methods.map fun d => if d ∈ visited then d.mapBody n.normalized else d }
  log := w.log.merge ⟨visited.filterMap (visitEvent? n)⟩

variable {n : Normalizer} {w : Workbench} {visited : List MethodDecl} {d : MethodDecl} {b b' : Body}

theorem afterVisits_nil (n : Normalizer) (w : Workbench) : w.afterVisits n [] = w := by
  simp [afterVisits, EventLog.merge]

/-- A method that has not been visited is as it was declared. -/
theorem body_afterVisits (hwf : w.module.WellFormed) (hd : d ∈ w.module.methods)
    (hfresh : d ∉ visited) :
    ((w.afterVisits n visited).module.method? d.token).bind MethodDecl.body = d.body := by
  rw [afterVisits, Module.method?_map, hwf.method?_token hd, Option.map_some, if_neg hfresh]
  rfl

/-- A visit goes on from those before it. -/
theorem storeNormalized_afterVisits (hwf : w.module.WellFormed) (hd : d ∈ w.module.methods)
    (hfresh : d ∉ visited) (hbody : d.body = some b) (hb : n.normalize b = .ok b') :
    (w.afterVisits n visited).storeNormalized d.token b b'
        ("normalized initializer candidate " ++ d.token.text) =
      w.afterVisits n (visited ++ [d]) := by
  have hnormalized := Normalizer.normalized_eq hb
  rw [storeNormalized]
  split
  · rename_i hsame
    -- the body is what it was, so that the row is the same whether or not it counts as visited
    have hmap : d.mapBody n.normalized = d := by
      rw [MethodDecl.mapBody, hbody, Option.map_some, hnormalized, hsame, ← hbody]
    have hevent : visitEvent? n d = none := by
      simp [visitEvent?, hbody, hnormalized, hsame]
    simp only [afterVisits, List.mem_append, List.mem_singleton, List.filterMap_append,
      List.filterMap_cons_none hevent, List.filterMap_nil, List.append_nil]
    congr 2
    refine List.map_congr_left fun e _ => ?_
    by_cases he : e = d
    · rw [he, if_neg hfresh, if_pos (.inr rfl), hmap]
    · simp only [he, or_false]
  · rename_i hchanged
    have hevent : visitEvent? n d = some (.onMethod .methodNormalized d.token
        ("normalized initializer candidate " ++ d.token.text)) := by
      simp [visitEvent?, hbody, hnormalized, hchanged]
    simp only [afterVisits, record, Module.setBody_map hwf hd, List.mem_append,
      List.mem_singleton, List.filterMap_append, List.filterMap_cons_some hevent,
      List.filterMap_nil, EventLog.merge, EventLog.push, List.append_assoc]
    congr 2
    refine List.map_congr_left fun e _ => ?_
    by_cases he : e = d
    · rw [he, if_pos rfl, if_neg hfresh, if_pos (.inr rfl), MethodDecl.mapBody, hbody,
        Option.map_some, hnormalized]
    · simp only [he, if_false, or_false]

end Workbench

/-! ### The ways in which a search ends -/

namespace InitializerLocator

/-- The candidates among the methods of a module: the static methods of a type with a body, neither
parameters nor a result, and few enough local variables, in order of declaration. -/
def eligible (l : InitializerLocator) (m : Module) (type : Token) : List MethodDecl :=
  m.methods.filter fun d => decide (d.owner = type ∧ d.isStatic = true ∧ d.body.isSome = true ∧
    d.signature = Signature.void ∧ d.locals.length ≤ l.maxLocals)

/-- The method can be normalized, and does not prepare its type then. -/
def PassesOver (l : InitializerLocator) (owner : TypeRef) (constructor : MethodRef)
    (d : MethodDecl) : Prop :=
  ∃ b, d.body.map l.normalizer.normalize = some (.ok b) ∧ ¬Prepares owner constructor b.code

/-- The ways in which a search through methods ends that begins with a workbench `w`. -/
inductive Search (l : InitializerLocator) (owner : TypeRef) (constructor : MethodRef)
    (w : Workbench) (methods : List MethodDecl) :
    EStateM.Result Error Workbench (Option Token) → Prop
  /-- All methods before the one that is found are passed over. -/
  | found {before after : List MethodDecl} {d : MethodDecl} {b : Body}
      (split : methods = before ++ d :: after)
      (passed : ∀ c ∈ before, l.PassesOver owner constructor c)
      (normalized : d.body.map l.normalizer.normalize = some (.ok b))
      (prepares : Prepares owner constructor b.code) :
      Search l owner constructor w methods
        (.ok (some d.token) (w.afterVisits l.normalizer (before ++ [d])))
  /-- All methods are passed over. -/
  | exhausted (passed : ∀ c ∈ methods, l.PassesOver owner constructor c) :
      Search l owner constructor w methods (.ok none (w.afterVisits l.normalizer methods))
  /-- All methods before the one that cannot be normalized are passed over. -/
  | failed {before after : List MethodDecl} {d : MethodDecl} {e : Error}
      (split : methods = before ++ d :: after)
      (passed : ∀ c ∈ before, l.PassesOver owner constructor c)
      (fails : d.body.map l.normalizer.normalize = some (.error e)) :
      Search l owner constructor w methods (.error e (w.afterVisits l.normalizer before))

variable {l : InitializerLocator} {owner : TypeRef} {constructor : MethodRef} {w : Workbench}
  {m : Module}

/-- The walk through what is left of the candidates ends in one of these ways. -/
theorem search_firstQualified (hwf : w.module.WellFormed) {visited rest : List MethodDecl}
    (hmem : ∀ d ∈ rest, d ∈ w.module.methods ∧ d.body.isSome = true)
    (hnodup : (visited ++ rest).Nodup) (hpassed : ∀ c ∈ visited, l.PassesOver owner constructor c) :
    l.Search owner constructor w (visited ++ rest)
      (l.firstQualified owner constructor (rest.map MethodDecl.token)
        (w.afterVisits l.normalizer visited)) := by
  -- a candidate that is passed over joins the visited ones
  induction rest generalizing visited with
  | nil =>
      rw [List.append_nil]
      exact .exhausted hpassed
  | cons d rest ih =>
      obtain ⟨⟨hd, hsome⟩, hrest⟩ := List.forall_mem_cons.mp hmem
      obtain ⟨b, hbody⟩ := Option.isSome_iff_exists.mp hsome
      have hfresh : d ∉ visited := fun hold =>
        (List.nodup_append.mp hnodup).2.2 d hold d List.mem_cons_self rfl
      rw [List.map_cons, firstQualified, Workbench.body_afterVisits hwf hd hfresh, hbody]
      simp only
      cases hnormalize : l.normalizer.normalize b with
      | error e => exact .failed rfl hpassed (by rw [hbody, Option.map_some, hnormalize])
      | ok b' =>
          have hnormalized : d.body.map l.normalizer.normalize = some (.ok b') := by
            rw [hbody, Option.map_some, hnormalize]
          simp only [Workbench.storeNormalized_afterVisits hwf hd hfresh hbody hnormalize]
          split
          · rename_i hqualifies
            exact .found rfl hpassed hnormalized (qualifies_iff_prepares.mp hqualifies)
          · rename_i hdisqualified
            have hover : l.PassesOver owner constructor d :=
              ⟨b', hnormalized, mt qualifies_iff_prepares.mpr hdisqualified⟩
            have hvisited : visited ++ [d] ++ rest = visited ++ d :: rest := by
              rw [List.append_assoc, List.singleton_append]
            rw [← hvisited]
            refine ih hrest (hvisited ▸ hnodup) (List.forall_mem_append.mpr ⟨hpassed, ?_⟩)
            exact List.forall_mem_singleton.mpr hover

/-- The first element that fails a test splits a list in one way only. -/
theorem eq_of_split {α : Type} {p : α → Prop} {before before' after after' : List α} {a a' : α}
    (h : before ++ a :: after = before' ++ a' :: after') (hbefore : ∀ x ∈ before, p x)
    (hbefore' : ∀ x ∈ before', p x) (ha : ¬p a) (ha' : ¬p a') : before = before' ∧ a = a' := by
  induction before generalizing before' with
  | nil =>
      cases before' with
      | nil => exact ⟨rfl, (List.cons.inj h).1⟩
      | cons x before' => exact absurd (hbefore' a ((List.cons.inj h).1 ▸ List.mem_cons_self)) ha
  | cons x before ih =>
      cases before' with
      | nil => exact absurd (hbefore a' ((List.cons.inj h).1 ▸ List.mem_cons_self)) ha'
      | cons x' before' =>
          obtain ⟨rfl, htail⟩ := List.cons.inj h
          obtain ⟨rfl, rfl⟩ := ih htail (fun y hy => hbefore y (List.mem_cons_of_mem _ hy))
            (fun y hy => hbefore' y (List.mem_cons_of_mem _ hy))
          exact ⟨rfl, rfl⟩

/-- A method that prepares its type is not passed over. -/
theorem not_passesOver_of_prepares {d : MethodDecl} {b : Body}
    (hnormalized : d.body.map l.normalizer.normalize = some (.ok b))
    (hprepares : Prepares owner constructor b.code) : ¬l.PassesOver owner constructor d := by
  rintro ⟨b', hnormalized', hnot⟩
  cases hnormalized.symm.trans hnormalized'
  exact hnot hprepares

/-- A method that cannot be normalized is not passed over. -/
theorem not_passesOver_of_fails {d : MethodDecl} {e : Error}
    (hfails : d.body.map l.normalizer.normalize = some (.error e)) :
    ¬l.PassesOver owner constructor d := by
  rintro ⟨b', hnormalized, -⟩
  cases hfails.symm.trans hnormalized

/-- A search ends in one way only. -/
theorem Search.unique {methods : List MethodDecl}
    {result result' : EStateM.Result Error Workbench (Option Token)}
    (h : l.Search owner constructor w methods result)
    (h' : l.Search owner constructor w methods result') : result = result' := by
  cases h with
  | found split passed normalized prepares =>
      have hstop := not_passesOver_of_prepares normalized prepares
      cases h' with
      | found split' passed' normalized' prepares' =>
          obtain ⟨rfl, rfl⟩ := eq_of_split (split.symm.trans split') passed passed' hstop
            (not_passesOver_of_prepares normalized' prepares')
          rfl
      | exhausted passed' => exact absurd (passed' _ (by simp [split])) hstop
      | failed split' passed' fails' =>
          obtain ⟨-, rfl⟩ := eq_of_split (split.symm.trans split') passed passed' hstop
            (not_passesOver_of_fails fails')
          cases normalized.symm.trans fails'
  | exhausted passed =>
      cases h' with
      | found split' _ normalized' prepares' =>
          exact absurd (passed _ (by simp [split']))
            (not_passesOver_of_prepares normalized' prepares')
      | exhausted _ => rfl
      | failed split' _ fails' =>
          exact absurd (passed _ (by simp [split'])) (not_passesOver_of_fails fails')
  | failed split passed fails =>
      have hstop : ¬l.PassesOver owner constructor _ := not_passesOver_of_fails fails
      cases h' with
      | found split' passed' normalized' prepares' =>
          obtain ⟨-, rfl⟩ := eq_of_split (split.symm.trans split') passed passed' hstop
            (not_passesOver_of_prepares normalized' prepares')
          cases fails.symm.trans normalized'
      | exhausted passed' => exact absurd (passed' _ (by simp [split])) hstop
      | failed split' passed' fails' =>
          obtain ⟨rfl, rfl⟩ := eq_of_split (split.symm.trans split') passed passed' hstop
            (not_passesOver_of_fails fails')
          cases fails.symm.trans fails'
          rfl

/-- In a built module the candidates are the eligible methods. -/
theorem candidates_eq_eligible (hwf : m.WellFormed) {type : Token} {t : TypeDecl}
    (ht : m.type? type = some t) :
    l.candidates m t = (l.eligible m type).map MethodDecl.token := by
  have htoken : t.token = type := by
    obtain ⟨i, hi, hrow⟩ := Option.bind_eq_some_iff.mp ht
    rw [hwf.type_token hrow, (Module.eq_typeDef_of_typeIndex? hi).1]
  rw [candidates, hwf.methodsOf_eq (Module.mem_of_type? ht), List.filter_filter, htoken, eligible]
  congr 1
  refine List.filter_congr fun d _ => ?_
  simp only [MethodDecl.isStaticWithBody, Bool.decide_and, Bool.decide_eq_true, Bool.and_assoc,
    Bool.and_comm (decide (d.owner = type)), beq_eq_decide]

/-- A search for the initializer of a type ends with the first of the candidates that, normalized,
prepares the type or that cannot be normalized, and with none if there is neither.  It leaves behind
what the visits up to there do. -/
theorem locate_eq_iff (hbuilt : m.Built) (hrange : m.InRange) {type : Token} {t : TypeDecl}
    (ht : m.type? type = some t) (l : InitializerLocator) (constructor : MethodRef)
    (log : EventLog) (result : EStateM.Result Error Workbench (Option Token)) :
    l.locate type constructor ⟨m, log⟩ = result ↔
      l.Search t.reference constructor ⟨m, log⟩ (l.eligible m type) result := by
  have hwf := hbuilt.wellFormed hrange
  have hsearch : l.Search t.reference constructor ⟨m, log⟩ (l.eligible m type)
      (l.locate type constructor ⟨m, log⟩) := by
    have hmem : ∀ d ∈ l.eligible m type, d ∈ m.methods ∧ d.body.isSome = true := by
      intro d hd
      obtain ⟨hd, heligible⟩ := List.mem_filter.mp hd
      exact ⟨hd, (of_decide_eq_true heligible).2.2.1⟩
    have hwalk : l.Search t.reference constructor ⟨m, log⟩ ([] ++ l.eligible m type) _ :=
      search_firstQualified hwf hmem (hwf.nodup_methods.filter _) nofun
    rw [Workbench.afterVisits_nil, List.nil_append] at hwalk
    rw [locate, ht]
    simp only
    rw [candidates_eq_eligible hwf ht]
    exact hwalk
  constructor
  · rintro rfl
    exact hsearch
  · exact hsearch.unique

/-- The initializer of the sample is found at the first visit, which takes its filler out. -/
theorem locate_eq_iff_sample :
    Sample.module.Built ∧ Sample.module.InRange ∧
      Sample.module.type? (.typeDef 1) = some Sample.resolverType ∧
      ∃ w, (InitializerLocator.mk .standard 1).locate (.typeDef 1)
          ⟨Sample.resolverType.reference, ".ctor", .void⟩ ⟨Sample.module, .empty⟩ =
            .ok (some (.methodDef 2)) w ∧
        w.log.events = [.onMethod .methodNormalized (.methodDef 2)
          "normalized initializer candidate 0x06000002"] ∧
        (w.module.method? (.methodDef 2)).bind MethodDecl.body =
          some (Sample.setup.strip [.nop]) := by
  have hrange : Sample.module.InRange := ⟨by decide +kernel, by decide +kernel⟩
  have htype : Sample.module.type? (.typeDef 1) = some Sample.resolverType := by decide +kernel
  have heligible : (InitializerLocator.mk .standard 1).eligible Sample.module (.typeDef 1) =
      [] ++ [⟨.methodDef 2, "Setup", .typeDef 1, staticFlag.bit, .void, some Sample.setup⟩] := by
    decide +kernel
  have hsetsUp := Sample.setup_initializes.setsUp
  refine ⟨Sample.module_built, hrange, htype, _,
    (locate_eq_iff Sample.module_built hrange htype _ _ _ _).mpr
      (.found heligible nofun rfl ⟨hsetsUp.stores, hsetsUp.constructs⟩), ?_, ?_⟩
  · decide +kernel
  · decide +kernel

end InitializerLocator

end ResolverRecovery
