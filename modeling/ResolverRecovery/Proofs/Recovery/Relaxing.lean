import Mathlib.Data.List.Forall2
import ResolverRecovery.Proofs.Recovery.FirstFit
import ResolverRecovery.Proofs.Recovery.Protector.Reactor

/-!
# Detection under a stricter oracle

An oracle that is strict, that is told of more types, or that is shown fewer local variables accepts
less.  An engine that is not strict accepts whatever the strict one does and perhaps more, which may
move its first candidate to an earlier position of the grid, or to an earlier handler at the same
position, but never takes it away.

## Main definitions

* `MethodDecl.Widens`: a method with further local variables.
* `Oracle.Relaxes`: an oracle that accepts no less when it is not strict.
* `Candidate.NoLater`, `Detector.Relaxes`: accepting as much, with handlers that come no later.
* `Engine.DetectsAt`: detection at a position of the grid.

## Main statements

* `Oracle.localTypes_of_widens`: what a judgement by local variables depends on.
* `Engine.exists_detectsAt`: where something comes up, something is detected there or before.
* `Engine.detect?_relaxes`: what becomes of a candidate when the engine is no longer strict.
-/

namespace ResolverRecovery

/-! ### Oracles -/

/-- The second body has the code of the first one, and local variables of all its types. -/
structure Body.Widens (b b' : Body) : Prop where
  code : b'.code = b.code
  locals : b.locals ⊆ b'.locals

/-- The second method has the attributes and the code of the first one, and local variables of all
its types, in any order and number. -/
structure MethodDecl.Widens (d d' : MethodDecl) : Prop where
  flags : d'.flags = d.flags
  body : Option.Rel Body.Widens d.body d'.body

theorem MethodDecl.Widens.refl (d : MethodDecl) : d.Widens d := by
  refine ⟨rfl, ?_⟩
  cases d.body with
  | none => exact .none
  | some b => exact .some ⟨rfl, List.Subset.refl b.locals⟩

/-- What the oracle accepts when it is strict, it accepts when it is not. -/
def Oracle.Relaxes (oracle : Oracle) : Prop :=
  ∀ m d extra, oracle m d extra true = true → oracle m d extra false = true

namespace Oracle

/-- The local variables are of all types that are asked for, and one of them is a cipher. -/
theorem acceptsLocals_iff {extra locals : List String} :
    acceptsLocals extra locals = true ↔
      requiredTypes ⊆ locals ∧ extra ⊆ locals ∧ ∃ cipher ∈ cipherTypes, cipher ∈ locals := by
  simp only [acceptsLocals, Bool.and_eq_true, List.all_eq_true, List.any_eq_true,
    List.contains_iff_mem, and_assoc]
  rfl

theorem acceptsLocals_of_subset {extra extra' locals locals' : List String}
    (h : acceptsLocals extra locals = true) (hextra : extra' ⊆ extra) (hlocals : locals ⊆ locals') :
    acceptsLocals extra' locals' = true := by
  obtain ⟨hrequired, hasked, cipher, hcipher, hlocal⟩ := acceptsLocals_iff.mp h
  exact acceptsLocals_iff.mpr ⟨List.Subset.trans hrequired hlocals,
    List.Subset.trans hextra (List.Subset.trans hasked hlocals), cipher, hcipher, hlocals hlocal⟩

/-- Further local variables, fewer types to ask for and less strictness do no harm to a method. -/
theorem localTypes_of_widens {m : Module} {d d' : MethodDecl} {extra extra' : List String}
    {strict strict' : Bool} (h : localTypes m d extra strict = true) (hwidens : d.Widens d')
    (hextra : extra' ⊆ extra) (hstrict : strict' = true → strict = true) :
    localTypes m d' extra' strict' = true := by
  obtain ⟨token, name, owner, flags, signature, body⟩ := d
  obtain ⟨token', name', owner', flags', signature', body'⟩ := d'
  obtain ⟨rfl, hbody⟩ := hwidens
  cases hbody with
  | none => simp only [localTypes, Bool.and_false, Bool.false_eq_true] at h
  | @some b b' hb =>
      simp only [localTypes, Bool.and_eq_true, Bool.or_eq_true, Bool.not_eq_true'] at h ⊢
      obtain ⟨hstatic, hlocals, hnamed⟩ := h
      refine ⟨hstatic, acceptsLocals_of_subset hlocals hextra hb.locals, ?_⟩
      cases strict' with
      | false => exact .inl rfl
      | true =>
          have hloads : m.isNamedIn b = true := hnamed.resolve_left (by simp [hstrict rfl])
          rw [Module.isNamedIn, hb.code]
          exact .inr hloads

theorem relaxes_localTypes : localTypes.Relaxes := fun _ d extra h =>
  localTypes_of_widens h (.refl d) (List.Subset.refl extra) nofun

end Oracle

/-! ### Detectors -/

/-- The handler of the first candidate is that of the second one, or a method of the type that comes
before it. -/
def Candidate.NoLater (m : Module) (t : TypeDecl) (c' c : Candidate) : Prop :=
  c'.handler = c.handler ∨ ∃ before d' after d, m.methodsOf t = before ++ d' :: after ∧
    d ∉ before ∧ d ∈ after ∧ c'.handler = d'.token ∧ c.handler = d.token

/-- What the first detector takes for a resolver, the second takes for one as well, with a handler
that comes no later. -/
def Detector.Relaxes (d d' : Detector) : Prop :=
  ∀ m t c, d.classify m t = some c → ∃ c', d'.classify m t = some c' ∧ c'.NoLater m t c

theorem Detector.Relaxes.refl (d : Detector) : d.Relaxes d := fun _ _ c h => ⟨c, h, .inl rfl⟩

/-- Where more methods are handlers, the first handler comes no later. -/
theorem Reactor.relaxes_detector {r r' : Reactor} (h : ∀ m d, r.Handles m d → r'.Handles m d) :
    r.detector.Relaxes r'.detector := by
  intro m t c hclassify
  obtain ⟨hfits, before, d, after, hsplit, -, hhandles, rfl⟩ :=
    Reactor.classify_eq_some_iff.mp hclassify
  have hd : d ∈ m.methodsOf t := by
    rw [hsplit]
    exact List.mem_append_right before List.mem_cons_self
  obtain ⟨c', hclassify'⟩ := Option.isSome_iff_exists.mp
    (Reactor.isSome_classify_iff.mpr ⟨hfits, d, hd, h m d hhandles⟩)
  refine ⟨c', hclassify', ?_⟩
  obtain ⟨-, before', d', after', hsplit', hbefore', -, rfl⟩ :=
    Reactor.classify_eq_some_iff.mp hclassify'
  -- the handler of the first detector is one for the second, so it is not before the second's first
  have hfresh : d ∉ before' := fun hold => hbefore' d hold (h m d hhandles)
  rw [hsplit', List.mem_append, List.mem_cons] at hd
  rcases hd with hold | rfl | hafter
  · exact absurd hold hfresh
  · exact .inl rfl
  · exact .inr ⟨before', d', after', d, hsplit', hfresh, hafter, rfl, rfl⟩

variable {config : Config} {collaborators : Collaborators}

/-- The detectors of the library relax, for what loads assemblies knows no strictness. -/
theorem Variant.relaxes_detector (horacle : collaborators.oracle.Relaxes) (variant : Variant) :
    (Variant.detector { config with strict := true } collaborators variant).Relaxes
      (Variant.detector { config with strict := false } collaborators variant) := by
  cases variant with
  | reactor =>
      refine Reactor.relaxes_detector fun m d hhandles => ?_
      exact ⟨hhandles.isStatic, hhandles.hasBody, hhandles.signature,
        horacle m d _ hhandles.accepted⟩
  | smartAssembly => exact .refl _

/-! ### Engines -/

namespace Engine

/-- The candidate comes up at a position of the grid, and none does at a position before it. -/
structure DetectsAt (e : Engine) (m : Module) (i j : Nat) (c : Candidate) : Prop where
  verdict : e.verdict? m i j = some c
  first : ∀ i' j', i' < i ∨ i' = i ∧ j' < j → e.verdict? m i' j' = none

variable {e e' : Engine} {m : Module} {i j : Nat} {c : Candidate}

theorem detect?_eq_some_iff_detectsAt : e.detect? m = some c ↔ ∃ i j, e.DetectsAt m i j c := by
  rw [detect?_eq_some_iff]
  exact exists_congr fun i => exists_congr fun j => ⟨fun h => ⟨h.1, h.2⟩, fun h => ⟨h.1, h.2⟩⟩

/-- Where a candidate comes up, it is detected, or another one at a position before. -/
theorem exists_detectsAt (h : e.verdict? m i j = some c) :
    ∃ i' j' c', e.DetectsAt m i' j' c' ∧ (i' < i ∨ i' = i ∧ j' ≤ j) ∧
      (i' = i → j' = j → c' = c) := by
  cases hdetect : e.detect? m with
  | none => exact nomatch (detect?_eq_none_iff.mp hdetect i j).symm.trans h
  | some c' =>
      obtain ⟨i', j', hdetects⟩ := detect?_eq_some_iff_detectsAt.mp hdetect
      refine ⟨i', j', c', hdetects, ?_, ?_⟩
      · by_contra hlater
        exact nomatch (hdetects.first i j (by omega)).symm.trans h
      · rintro rfl rfl
        exact Option.some.inj (hdetects.verdict.symm.trans h)

/-- Where detectors relax one by one, what comes up for one engine comes up for the other. -/
theorem verdict?_relaxes (hrelaxes : List.Forall₂ Detector.Relaxes e.detectors e'.detectors)
    (h : e.verdict? m i j = some c) :
    ∃ t c', m.types[i]? = some t ∧ e'.verdict? m i j = some c' ∧ c'.NoLater m t c := by
  obtain ⟨t, ht, hdetectors⟩ := Option.bind_eq_some_iff.mp h
  obtain ⟨d, hd, hclassify⟩ := Option.bind_eq_some_iff.mp hdetectors
  obtain ⟨hlt, rfl⟩ := List.getElem?_eq_some_iff.mp hd
  have hlt' : j < e'.detectors.length := hrelaxes.length_eq ▸ hlt
  obtain ⟨c', hclassify', hnoLater⟩ :=
    (List.forall₂_iff_get.mp hrelaxes).2 j hlt hlt' m t c hclassify
  refine ⟨t, c', ht, ?_, hnoLater⟩
  rw [verdict?, ht, Option.bind_some, List.getElem?_eq_getElem hlt', Option.bind_some]
  exact hclassify'

/-- The engines of one configuration, strict and not, have detectors that relax one by one. -/
theorem relaxes_withRegistered (horacle : collaborators.oracle.Relaxes)
    (registered : List Detector) :
    List.Forall₂ Detector.Relaxes
      (withRegistered { config with strict := true } collaborators registered).detectors
      (withRegistered { config with strict := false } collaborators registered).detectors := by
  rw [withRegistered_eq, withRegistered_eq]
  refine List.rel_append ?_ (List.forall₂_same.mpr fun d _ => .refl d)
  rw [List.forall₂_map_left_iff, List.forall₂_map_right_iff]
  exact List.forall₂_same.mpr fun variant _ => Variant.relaxes_detector horacle variant

/-- A method that is accepted by its local variables when more types are asked for and a resource is
to be named is accepted with further local variables, whether or not the latter is asked for.  So an
engine that judges handlers in this way detects, when it is no longer strict, a candidate where it
detected one before or at an earlier position, types before detectors; where the position is the
same, the handler is so too or comes before. -/
theorem detect?_relaxes :
    (∀ (m : Module) (d d' : MethodDecl) (extra extra' : List String),
        Oracle.localTypes m d extra true = true → d.Widens d' → extra' ⊆ extra →
          ∀ strict, Oracle.localTypes m d' extra' strict = true) ∧
      ∀ (config : Config) (collaborators : Collaborators) (registered : List Detector) (m : Module),
        collaborators.oracle = .localTypes → ∀ i j c,
          (withRegistered { config with strict := true } collaborators registered).DetectsAt
            m i j c →
          ∃ i' j' c',
            (withRegistered { config with strict := false } collaborators registered).detect? m =
              some c' ∧
            (withRegistered { config with strict := false } collaborators registered).DetectsAt
              m i' j' c' ∧
            (i' < i ∨ i' = i ∧ j' ≤ j) ∧
            (i' = i → j' = j → ∃ t, m.types[i]? = some t ∧ c'.NoLater m t c) := by
  refine ⟨fun m d d' extra extra' h hwidens hextra strict =>
    Oracle.localTypes_of_widens h hwidens hextra fun _ => rfl, ?_⟩
  intro config collaborators registered m horacle i j c hdetects
  have hrelaxes : collaborators.oracle.Relaxes := horacle ▸ Oracle.relaxes_localTypes
  obtain ⟨t, c₀, ht, hverdict, hnoLater⟩ :=
    verdict?_relaxes (relaxes_withRegistered hrelaxes registered) hdetects.verdict
  obtain ⟨i', j', c', hdetects', hbefore, hsame⟩ := exists_detectsAt hverdict
  refine ⟨i', j', c', detect?_eq_some_iff_detectsAt.mpr ⟨i', j', hdetects'⟩, hdetects', hbefore, ?_⟩
  rintro rfl rfl
  exact ⟨t, ht, hsame rfl rfl ▸ hnoLater⟩

namespace Sample

/-- A handler by its signature and its local variables that names no resource. -/
def idle : MethodDecl :=
  ⟨.methodDef 1, "Idle", .typeDef 1, staticFlag.bit,
    ⟨WellKnown.assembly, [WellKnown.object, WellKnown.object]⟩,
    some ⟨[⟨0, .ret, .none⟩], resolve.locals⟩⟩

/-- A handler that names one. -/
def naming : MethodDecl :=
  ⟨.methodDef 2, "Resolve", .typeDef 1, staticFlag.bit,
    ⟨WellKnown.assembly, [WellKnown.object, WellKnown.object]⟩, some resolve⟩

/-- The same with its local variables the other way round, and one more. -/
def roomy : MethodDecl :=
  { naming with body := some { resolve with locals := WellKnown.object :: resolve.locals.reverse } }

/-- A module with both handlers on one type. -/
def ambiguous : Module where
  name := "app.exe"
  types := [{ resolverType with methods := [.methodDef 1, .methodDef 2] }]
  methods := [idle, naming]
  resources := [⟨"hidden", 1, [0]⟩]
  fieldCount := 3

/-- Its type, taken for a resolver with the given handler. -/
def handledBy (t : Token) : Candidate :=
  ⟨.reactor, .typeDef 1, "Obf.R", t, none, .sealed (.ofHandler t)⟩

end Sample

/-- The strict engine passes over the first of two handlers, which the other one takes. -/
theorem detect?_relaxes_ambiguous :
    Oracle.localTypes Sample.ambiguous Sample.roomy [] true = true ∧
      (withRegistered { Config.standard with strict := true } (.ofConfig .standard) []).DetectsAt
        Sample.ambiguous 0 0 (Sample.handledBy (.methodDef 2)) ∧
      ∃ c t, (withRegistered { Config.standard with strict := false } (.ofConfig .standard)
          []).DetectsAt Sample.ambiguous 0 0 c ∧ c.handler = .methodDef 1 ∧
        Sample.ambiguous.types[0]? = some t ∧
        c.NoLater Sample.ambiguous t (Sample.handledBy (.methodDef 2)) := by
  have hwidens : Sample.naming.Widens Sample.roomy := ⟨rfl, .some ⟨rfl, by decide⟩⟩
  have hstrict : (withRegistered { Config.standard with strict := true } (.ofConfig .standard)
      []).DetectsAt Sample.ambiguous 0 0 (Sample.handledBy (.methodDef 2)) :=
    ⟨by decide +kernel, fun i' j' hbefore => by omega⟩
  have hlenient : (withRegistered { Config.standard with strict := false } (.ofConfig .standard)
      []).detect? Sample.ambiguous = some (Sample.handledBy (.methodDef 1)) := by decide +kernel
  refine ⟨detect?_relaxes.1 _ Sample.naming _ [WellKnown.string] _ (by decide +kernel) hwidens
    (List.nil_subset _) true, hstrict, ?_⟩
  obtain ⟨i', j', c', hdetect, hdetects, hbefore, hsame⟩ :=
    detect?_relaxes.2 .standard (.ofConfig .standard) [] Sample.ambiguous rfl 0 0 _ hstrict
  obtain ⟨rfl, rfl⟩ : i' = 0 ∧ j' = 0 := by omega
  obtain ⟨t, ht, hnoLater⟩ := hsame rfl rfl
  refine ⟨c', t, hdetects, ?_, ht, hnoLater⟩
  rw [← Option.some.inj (hlenient.symm.trans hdetect)]
  rfl

end Engine

end ResolverRecovery
