import ResolverRecovery.Proofs.Recovery.Preserving
import ResolverRecovery.Proofs.Recovery.RoundTrip

/-!
# The first candidate of a module

Detection goes through the types of a module in order, and with each type through the detectors in
order, and takes the first candidate that comes up.  Types and detectors make up a grid, and the
candidate is the one at the lexicographically least position that has any.  A recovery starts from
the same candidate: what it reports differs from that in nothing but the initializer and in what is
known of the resource.

## Main definitions

* `Engine.withRegistered`: an engine to which further detectors were added.
* `Engine.verdict?`: what one detector makes of one type.
* `Detector.IsBuiltIn`: the detectors that come with the library.
* `Candidate.Agrees`: two candidates are one resolver.

## Main statements

* `Engine.detect?_eq_some_iff`, `Engine.detect?_eq_none_iff`: detection reads the grid line by line.
* `Engine.agrees_of_process`: a recovery reports the candidate that is detected.
* `Engine.detect?_firstFit`: the two together, for engines as they are made.
-/

namespace ResolverRecovery

/-! ### First hits by position -/

section FirstHit

variable {α β : Type} {f : α → Option β} {l : List α} {b : β}

theorem findSome?_eq_some_iff_getElem? :
    l.findSome? f = some b ↔
      ∃ i : Nat, l[i]?.bind f = some b ∧ ∀ i' < i, l[i']?.bind f = none := by
  rw [List.findSome?_eq_some_iff]
  constructor
  · rintro ⟨before, a, after, rfl, ha, hbefore⟩
    refine ⟨before.length, ?_, fun i' hlt => ?_⟩
    · rw [List.getElem?_append_right (Nat.le_refl _), Nat.sub_self, List.getElem?_cons_zero,
        Option.bind_some, ha]
    · rw [List.getElem?_append_left hlt, List.getElem?_eq_getElem hlt]
      exact hbefore _ (List.getElem_mem hlt)
  · rintro ⟨i, hi, hbefore⟩
    obtain ⟨a, hget, ha⟩ := Option.bind_eq_some_iff.mp hi
    obtain ⟨hlt, rfl⟩ := List.getElem?_eq_some_iff.mp hget
    refine ⟨l.take i, l[i], l.drop (i + 1), ?_, ha, fun a' ha' => ?_⟩
    · rw [List.getElem_cons_drop, List.take_append_drop]
    · obtain ⟨i', hlt', rfl⟩ := List.mem_take_iff_getElem.mp ha'
      have hnone := hbefore i' (Nat.lt_of_lt_of_le hlt' (Nat.min_le_left _ _))
      rwa [List.getElem?_eq_getElem (Nat.lt_of_lt_of_le hlt' (Nat.min_le_right _ _))] at hnone

theorem findSome?_eq_none_iff_getElem? :
    l.findSome? f = none ↔ ∀ i : Nat, l[i]?.bind f = none := by
  rw [List.findSome?_eq_none_iff]
  constructor
  · intro h i
    cases ha : l[i]? with
    | none => rfl
    | some a => exact h a (List.mem_of_getElem? ha)
  · intro h a ha
    obtain ⟨i, hi⟩ := List.getElem?_of_mem ha
    have hnone := h i
    rwa [hi] at hnone

end FirstHit

/-! ### Detection -/

/-- The detector is one of the two that come with the library, with any settings. -/
inductive Detector.IsBuiltIn : Detector → Prop
  | reactor (r : Reactor) : IsBuiltIn r.detector
  | smartAssembly (s : SmartAssembly) : IsBuiltIn s.detector

theorem Variant.isBuiltIn_detector (config : Config) (collaborators : Collaborators)
    (variant : Variant) : (Variant.detector config collaborators variant).IsBuiltIn := by
  cases variant with
  | reactor => exact .reactor _
  | smartAssembly => exact .smartAssembly _

namespace Engine

/-- The engine of a configuration, to which detectors were added one after the other. -/
def withRegistered (config : Config) (collaborators : Collaborators) (registered : List Detector) :
    Engine :=
  registered.foldl register (withCollaborators config collaborators)

/-- What the detector at position `j` makes of the type at position `i`; nothing, if there is no
such detector or no such type. -/
def verdict? (e : Engine) (m : Module) (i j : Nat) : Option Candidate :=
  m.types[i]?.bind fun t => e.detectors[j]?.bind fun d => d.classify m t

variable {e : Engine} {m m' : Module} {c : Candidate} {o : Outcome}

theorem foldl_register (e : Engine) (registered : List Detector) :
    registered.foldl register e = { e with detectors := e.detectors ++ registered } := by
  induction registered generalizing e with
  | nil => rw [List.foldl_nil, List.append_nil]
  | cons d registered ih =>
      rw [List.foldl_cons, ih]
      simp only [register, List.append_assoc, List.singleton_append]

theorem withRegistered_eq (config : Config) (collaborators : Collaborators)
    (registered : List Detector) :
    withRegistered config collaborators registered =
      ⟨config, config.variants.map (Variant.detector config collaborators) ++ registered⟩ :=
  foldl_register _ registered

theorem detect?_eq_findSome? (e : Engine) (m : Module) :
    e.detect? m = m.types.findSome? fun t => e.detectors.findSome? fun d => d.classify m t := by
  simp only [detect?, find?, classify?, List.map_findSome?, Function.comp_def, Option.map_map,
    Option.map_id']

/-- The candidate of one type is that of the first detector that accepts it. -/
theorem findSome?_detectors_eq_some_iff {i : Nat} :
    (m.types[i]?.bind fun t => e.detectors.findSome? fun d => d.classify m t) = some c ↔
      ∃ j, e.verdict? m i j = some c ∧ ∀ j' < j, e.verdict? m i j' = none := by
  simp only [verdict?]
  cases m.types[i]? with
  | none => simp
  | some t => exact findSome?_eq_some_iff_getElem?

theorem findSome?_detectors_eq_none_iff {i : Nat} :
    (m.types[i]?.bind fun t => e.detectors.findSome? fun d => d.classify m t) = none ↔
      ∀ j, e.verdict? m i j = none := by
  simp only [verdict?]
  cases m.types[i]? with
  | none => simp
  | some t => exact findSome?_eq_none_iff_getElem?

/-- What is detected is the candidate at the least position that has one, types before detectors. -/
theorem detect?_eq_some_iff :
    e.detect? m = some c ↔ ∃ i j, e.verdict? m i j = some c ∧
      ∀ i' j', i' < i ∨ i' = i ∧ j' < j → e.verdict? m i' j' = none := by
  simp only [detect?_eq_findSome?, findSome?_eq_some_iff_getElem?, findSome?_detectors_eq_some_iff,
    findSome?_detectors_eq_none_iff]
  constructor
  · rintro ⟨i, ⟨j, hverdict, hdetectors⟩, htypes⟩
    refine ⟨i, j, hverdict, fun i' j' hbefore => ?_⟩
    rcases hbefore with hi' | ⟨rfl, hj'⟩
    · exact htypes i' hi' j'
    · exact hdetectors j' hj'
  · rintro ⟨i, j, hverdict, hbefore⟩
    exact ⟨i, ⟨j, hverdict, fun j' hj' => hbefore i j' (.inr ⟨rfl, hj'⟩)⟩,
      fun i' hi' j' => hbefore i' j' (.inl hi')⟩

theorem detect?_eq_none_iff : e.detect? m = none ↔ ∀ i j, e.verdict? m i j = none := by
  simp only [detect?_eq_findSome?, findSome?_eq_none_iff_getElem?, findSome?_detectors_eq_none_iff]

theorem detect?_of_find? {d : Detector} (h : e.find? m = some (d, c)) : e.detect? m = some c := by
  rw [detect?, h, Option.map_some]

end Engine

/-! ### Recovery -/

/-- The candidates are one resolver: the same type with the same handler, of the same family. -/
structure Candidate.Agrees (c c' : Candidate) : Prop where
  variant : c'.variant = c.variant
  type : c'.type = c.type
  typeName : c'.typeName = c.typeName
  handler : c'.handler = c.handler

namespace Candidate.Agrees

variable {c c' c'' : Candidate}

theorem refl (c : Candidate) : c.Agrees c := ⟨rfl, rfl, rfl, rfl⟩

theorem trans (h : c.Agrees c') (h' : c'.Agrees c'') : c.Agrees c'' where
  variant := h'.variant.trans h.variant
  type := h'.type.trans h.type
  typeName := h'.typeName.trans h.typeName
  handler := h'.handler.trans h.handler

end Candidate.Agrees

variable {q q' : Inquiry} {found : Option NamedResource}

/-- Finding the initializer and reading the handler concern neither type nor handler. -/
theorem Reactor.agrees_of_locateInitializer {r : Reactor} (h : r.locateInitializer q = .ok () q') :
    q.candidate.Agrees q'.candidate := by
  obtain ⟨-, t, w, -, -, ⟨-, rfl⟩ | ⟨resource, -, -, hprepare⟩⟩ := locateInitializer_eq_ok_or h
  · exact ⟨rfl, rfl, rfl, rfl⟩
  · obtain ⟨loaded, -, hcandidate⟩ := prepare_eq_ok hprepare
    rw [hcandidate]
    exact ⟨rfl, rfl, rfl, rfl⟩

/-- A detector that comes with the library follows a candidate up without changing what it is. -/
theorem Detector.IsBuiltIn.agrees_of_followUp {d : Detector} (hd : d.IsBuiltIn)
    (h : Engine.followUp d q = .ok found q') : q.candidate.Agrees q'.candidate := by
  obtain ⟨located, hlocate, hrecover⟩ := Engine.followUp_eq_ok h
  cases hd with
  | reactor r =>
      obtain ⟨payload, hcandidate⟩ := Reactor.candidate_of_recover_eq_ok hrecover
      refine (Reactor.agrees_of_locateInitializer hlocate).trans ?_
      rw [hcandidate]
      exact ⟨rfl, rfl, rfl, rfl⟩
  | smartAssembly s =>
      obtain ⟨initializer, hlocated⟩ := SmartAssembly.candidate_of_locateInitializer_eq_ok hlocate
      rw [(SmartAssembly.recover_eq_ok hrecover).2, hlocated]
      exact ⟨rfl, rfl, rfl, rfl⟩

namespace Engine

variable {e : Engine} {m m' : Module} {o : Outcome}

/-- A recovery that succeeds reports the candidate that is detected, and none if none is. -/
theorem agrees_of_process (hdetectors : ∀ d ∈ e.detectors, d.IsBuiltIn)
    (h : e.process m = .ok o m') : Option.Rel Candidate.Agrees (e.detect? m) o.candidate := by
  have hending := e.process_ending m
  rw [h] at hending
  cases hending with
  | undetected hfind =>
      rw [detect?, hfind]
      exact .none
  | detected hfind _ =>
      rw [detect?_of_find? hfind]
      exact .some (.refl _)
  | unhidden hfind _ hfollow | recovered hfind _ _ hfollow | merged hfind _ _ hfollow =>
      rw [detect?_of_find? hfind]
      exact .some ((hdetectors _ (classify_of_find? hfind).1).agrees_of_followUp hfollow)

/-- Where recovery is not asked for, the candidate is reported as it was detected, and the module
stays as it is. -/
theorem process_of_not_recover (hrecover : e.config.recover = false) :
    ∃ log, e.process m = .ok ⟨e.detect? m, none, false, log⟩ m := by
  have hending := e.process_ending m
  generalize e.process m = result at hending ⊢
  cases hending with
  | @undetected log hfind => exact ⟨log, by rw [detect?, hfind, Option.map_none]⟩
  | @detected _ _ log hfind _ => exact ⟨log, by rw [detect?_of_find? hfind]⟩
  | failed _ hon _ | unhidden _ hon _ | recovered _ hon _ _ | merged _ hon _ _ =>
      exact nomatch hrecover.symm.trans hon

/-- An engine has the detectors of its configuration and behind them the registered ones.  It
detects the candidate at the least position of the grid of types and detectors, types first, and
none if there is none in the grid.  A recovery with detectors of the library that succeeds reports a
candidate if one is detected, and that is the same resolver; where recovery is not asked for, it
succeeds, reports the very candidate and no resource, and leaves the module as it is. -/
theorem detect?_firstFit (config : Config) (collaborators : Collaborators)
    (registered : List Detector) (m : Module) :
    (withRegistered config collaborators registered).detectors =
        config.variants.map (Variant.detector config collaborators) ++ registered ∧
      (∀ c, (withRegistered config collaborators registered).detect? m = some c ↔
        ∃ i j, (withRegistered config collaborators registered).verdict? m i j = some c ∧
          ∀ i' j', i' < i ∨ i' = i ∧ j' < j →
            (withRegistered config collaborators registered).verdict? m i' j' = none) ∧
      ((withRegistered config collaborators registered).detect? m = none ↔
        ∀ i j, (withRegistered config collaborators registered).verdict? m i j = none) ∧
      ((∀ d ∈ registered, d.IsBuiltIn) → ∀ o m',
        (withRegistered config collaborators registered).process m = .ok o m' →
          Option.Rel Candidate.Agrees
            ((withRegistered config collaborators registered).detect? m) o.candidate) ∧
      (config.recover = false → ∃ log,
        (withRegistered config collaborators registered).process m =
          .ok ⟨(withRegistered config collaborators registered).detect? m, none, false, log⟩
            m) := by
  rw [withRegistered_eq]
  refine ⟨rfl, fun c => detect?_eq_some_iff, detect?_eq_none_iff, fun hregistered o m' h => ?_,
    fun hrecover => process_of_not_recover hrecover⟩
  refine agrees_of_process (fun d hd => ?_) h
  rcases List.mem_append.mp hd with hconfigured | hadded
  · obtain ⟨variant, -, rfl⟩ := List.mem_map.mp hconfigured
    exact Variant.isBuiltIn_detector config collaborators variant
  · exact hregistered d hadded

/-- The resolver of the sample is detected, and it is reported by a recovery that gives the payload
back and by one that stops at detection. -/
theorem detect?_firstFit_sample :
    (∃ o m' c, (withRegistered .standard (.ofConfig .standard) []).process Sample.module =
        .ok o m' ∧ o.resource = some ⟨"hidden", [104, 105]⟩ ∧ o.candidate = some c ∧
        Sample.candidate.Agrees c) ∧
      ∃ log, (withRegistered { Config.standard with recover := false } (.ofConfig .standard)
        []).process Sample.module =
          .ok ⟨some Sample.candidate, none, false, log⟩ Sample.module := by
  constructor
  · obtain ⟨o, m', hprocess, hresource, -⟩ := Sample.exists_process_module true
    have hagrees := (detect?_firstFit .standard (.ofConfig .standard) [] Sample.module).2.2.2.1
      (fun _ hd => nomatch hd) o m' hprocess
    have hdetect : (withRegistered .standard (.ofConfig .standard) []).detect? Sample.module =
        some Sample.candidate := Sample.detect_module
    rw [hdetect] at hagrees
    generalize hreported : o.candidate = reported at hagrees
    cases hagrees with
    | some hc => exact ⟨o, m', _, hprocess, hresource, hreported, hc⟩
  · have hdetect : (withRegistered { Config.standard with recover := false } (.ofConfig .standard)
        []).detect? Sample.module = some Sample.candidate := Sample.detect_module
    rw [← hdetect]
    exact (detect?_firstFit _ _ [] Sample.module).2.2.2.2 rfl

end Engine

end ResolverRecovery
