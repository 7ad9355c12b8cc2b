import ResolverRecovery.Proofs.Recovery.Detecting
import ResolverRecovery.Proofs.Recovery.Succeeding

/-!
# What the log of a recovery tells

A recovery only adds to the log it is given.  Some of the events that it adds are milestones: a
resolver was detected, the search of the module is over, the initializer was found, a resource was
decrypted, decoded and stored, and an error has ended it.  The milestones come in one order, each at
most once, and say what the outcome says.

## Main definitions

* `EventLog.milestones`: the kinds of the milestones in a log, in order.
* `EventLog.Continues`: a log goes on with events that have given milestones among them.
* `Outcome.milestones`: the milestones that an outcome stands for.
* `Engine.Tells`: a log tells how a recovery has ended.

## Main statements

* `Engine.processWithLog_records`: the milestones of a recovery that succeeds are those of its
  outcome, and one that fails records the error last.
* `Engine.processWithLog_tells`: a recovery adds to the log what tells how it has ended.
-/

namespace ResolverRecovery

/-! ### Milestones -/

/-- Events of the kind mark how far a recovery has come.  The others comment on it, or tell of a
body that was rewritten, which may happen any number of times. -/
def EventKind.isMilestone : EventKind → Bool
  | methodNormalized | stringsDecrypted | info | warning => false
  | _ => true

namespace EventLog

variable {log log' log'' : EventLog} {passed passed' : List EventKind}

/-- The kinds of the milestones in the log, in order. -/
def milestones (log : EventLog) : List EventKind :=
  (log.events.map Event.kind).filter EventKind.isMilestone

theorem milestones_merge (log other : EventLog) :
    (log.merge other).milestones = log.milestones ++ other.milestones := by
  simp only [milestones, merge, List.map_append, List.filter_append]

theorem count_eq_count_milestones {k : EventKind} (hk : k.isMilestone = true) (log : EventLog) :
    log.count k = log.milestones.count k := by
  rw [milestones, List.count_filter hk, List.count, List.countP_map, count, ofKind,
    ← List.countP_eq_length_filter]
  rfl

/-- The log goes on with events that have the given milestones among them. -/
def Continues (passed : List EventKind) (log log' : EventLog) : Prop :=
  ∃ recorded, log' = log.merge recorded ∧ recorded.milestones = passed

namespace Continues

theorem refl (log : EventLog) : Continues [] log log :=
  ⟨.empty, by simp only [merge, empty, List.append_nil], rfl⟩

theorem trans (h : Continues passed log log') (h' : Continues passed' log' log'') :
    Continues (passed ++ passed') log log'' := by
  obtain ⟨recorded, rfl, rfl⟩ := h
  obtain ⟨recorded', rfl, rfl⟩ := h'
  refine ⟨recorded.merge recorded', ?_, milestones_merge recorded recorded'⟩
  simp only [merge, List.append_assoc]

theorem push (log : EventLog) (e : Event) :
    Continues ([e.kind].filter EventKind.isMilestone) log (log.push e) :=
  ⟨⟨[e]⟩, rfl, rfl⟩

/-- An event that is no milestone may follow. -/
theorem push_of_comment (h : Continues passed log log') {e : Event}
    (he : e.kind.isMilestone = false) : Continues passed log (log'.push e) := by
  have hpush := h.trans (.push log' e)
  rwa [List.filter_cons_of_neg (by rw [he]; exact Bool.false_ne_true), List.filter_nil,
    List.append_nil] at hpush

end Continues

end EventLog

open EventLog (Continues)

/-! ### The search for an initializer -/

theorem Workbench.storeNormalized_records (w : Workbench) (t : Token) (b b' : Body)
    (message : String) : Continues [] w.log (w.storeNormalized t b b' message).log := by
  rw [storeNormalized]
  split
  · exact .refl w.log
  · exact (Continues.refl w.log).push_of_comment rfl

namespace InitializerLocator

variable (l : InitializerLocator)

theorem firstQualified_records (owner : TypeRef) (constructor : MethodRef) (tokens : List Token)
    (w : Workbench) :
    Continues [] w.log (finalState (l.firstQualified owner constructor tokens w)).log := by
  induction tokens generalizing w with
  | nil => exact .refl w.log
  | cons t rest ih =>
      rw [firstQualified]
      cases (w.module.method? t).bind MethodDecl.body with
      | none => exact ih w
      | some body =>
          simp only
          cases l.normalizer.normalize body with
          | error e => exact .refl w.log
          | ok normalized =>
              have hstored := w.storeNormalized_records t body normalized
                ("normalized initializer candidate " ++ t.text)
              simp only
              split
              · exact hstored
              · exact hstored.trans (ih _)

/-- The search for an initializer passes no milestone. -/
theorem locate_records (type : Token) (constructor : MethodRef) (w : Workbench) :
    Continues [] w.log (finalState (l.locate type constructor w)).log := by
  rw [locate]
  cases w.module.type? type with
  | none => exact .refl w.log
  | some owner => exact l.firstQualified_records owner.reference constructor _ w

end InitializerLocator

/-- The milestone that a candidate with an initializer stands for. -/
def Candidate.milestones (c : Candidate) : List EventKind :=
  match c.initializer with
  | none => []
  | some _ => [.initializerLocated]

theorem Inquiry.noteInitializer_records (q : Inquiry) (t : Token) :
    Continues (q.noteInitializer t).candidate.milestones q.log (q.noteInitializer t).log :=
  .push q.log _

/-! ### Resolvers that decrypt a resource -/

/-- The milestones that a recovered resource stands for. -/
def recoveryMilestones : Option NamedResource → List EventKind
  | none => []
  | some _ => [.resourceDecrypted, .resourceRecovered]

/-- Recovering adds to the log what the recovered resource stands for, or at most that it was
decrypted if that fails, and leaves the initializer of the candidate alone. -/
def RecordsRecovery (q : Inquiry) :
    EStateM.Result Error Inquiry (Option NamedResource) → Prop
  | .ok found q' =>
    q'.candidate.milestones = q.candidate.milestones ∧
      Continues (recoveryMilestones found) q.log q'.log
  | .error _ q' => ∃ passed, passed ⊆ [.resourceDecrypted] ∧ Continues passed q.log q'.log

namespace Reactor

variable (r : Reactor)

theorem cleanHandler_records (t : Token) (body : Body) (w : Workbench) :
    Continues [] w.log (finalState (r.cleanHandler t body w)).log := by
  rw [cleanHandler]
  cases r.normalizer.normalize body with
  | error e => exact .refl w.log
  | ok normalized =>
      simp only
      generalize hlogged : (if normalized = body then w else w.record
        (.onMethod .methodNormalized t ("normalized resolver handler " ++ t.text))) = logged
      have hnormalized : Continues [] w.log logged.log := by
        rw [← hlogged]
        split
        · exact .refl w.log
        · exact (Continues.refl w.log).push_of_comment rfl
      cases r.normalizer.decryptStrings normalized with
      | error e => exact hnormalized
      | ok decrypted =>
          simp only [finalState_ok]
          -- storing the body leaves no event
          have hstored : ∀ v : Workbench, (if decrypted = body then v else
              { v with module := v.module.setBody t decrypted }).log = v.log := by
            intro v
            split <;> rfl
          rw [hstored]
          split
          · exact hnormalized
          · exact hnormalized.push_of_comment rfl

theorem reportName_records (q : Inquiry) (resource : SealedResource) :
    Continues [] q.log (reportName q resource).log := by
  rw [reportName]
  split <;> exact (Continues.refl q.log).push_of_comment rfl

/-- Preparing the handler passes no milestone and concerns only the payload of the candidate. -/
theorem prepare_records (resource : SealedResource) (q : Inquiry) :
    Continues [] q.log (finalState (r.prepare resource q)).log ∧
      (finalState (r.prepare resource q)).candidate.initializer = q.candidate.initializer := by
  rw [prepare]
  cases (q.module.method? resource.method).bind MethodDecl.body with
  | none => exact ⟨.refl q.log, rfl⟩
  | some body =>
      have hclean := r.cleanHandler_records resource.method body q.toWorkbench
      simp only [Inquiry.onWorkbench]
      cases hw : r.cleanHandler resource.method body q.toWorkbench with
      | error e w =>
          rw [hw] at hclean
          exact ⟨hclean, rfl⟩
      | ok u w =>
          rw [hw] at hclean
          simp only
          cases SealedResource.load w.module resource with
          | error e loaded => exact ⟨hclean, rfl⟩
          | ok u loaded =>
              rw [finalState_ok, (reportName_spec _ loaded).2]
              exact ⟨hclean.trans (reportName_records _ loaded), rfl⟩

/-- That the initializer was found is recorded if and only if it is noted with the candidate, also
if the handler cannot be prepared. -/
theorem locateInitializer_records {q : Inquiry} (hnone : q.candidate.initializer = none) :
    Continues (finalState (r.locateInitializer q)).candidate.milestones q.log
      (finalState (r.locateInitializer q)).log := by
  have hunnoted : q.candidate.milestones = [] := by rw [Candidate.milestones, hnone]
  rw [locateInitializer]
  cases InitializerLocator.constructor? q.module q.candidate.type with
  | none =>
      simp only [finalState_error, hunnoted]
      exact .refl q.log
  | some constructor =>
      have hlocate := r.locator.locate_records q.candidate.type constructor q.toWorkbench
      simp only [Inquiry.onWorkbench]
      cases hw : r.locator.locate q.candidate.type constructor q.toWorkbench with
      | error e w =>
          rw [hw] at hlocate
          simp only [finalState_error, hunnoted]
          exact hlocate
      | ok found w =>
          rw [hw] at hlocate
          cases found with
          | none =>
              simp only [finalState_error, hunnoted]
              exact hlocate
          | some t =>
              simp only
              have hnoted := hlocate.trans
                (Inquiry.noteInitializer_records { q with toWorkbench := w } t)
              split
              · exact hnoted
              · rename_i resource _
                split
                · exact hnoted
                · obtain ⟨hprepare, hkept⟩ := r.prepare_records resource
                    (Inquiry.noteInitializer { q with toWorkbench := w } t)
                  have hboth := hnoted.trans hprepare
                  rw [List.append_nil, List.nil_append] at hboth
                  rw [Candidate.milestones, hkept]
                  exact hboth

/-- A handler that was prepared has not given its resource away yet. -/
theorem fresh_of_locateInitializer {q q' : Inquiry} {handler : Token}
    (hsealed : q.candidate.sealed? = some (.ofHandler handler))
    (h : r.locateInitializer q = .ok () q') :
    ∀ resource, q'.candidate.sealed? = some resource → resource.recovered = none := by
  obtain ⟨_, _, _, -, -, hprepare⟩ := locateInitializer_eq_ok hsealed h
  obtain ⟨loaded, hload, hcandidate⟩ := prepare_eq_ok hprepare
  intro resource hresource
  rw [hcandidate] at hresource
  cases hresource
  obtain ⟨-, -, rfl | ⟨name, key, vector, -, rfl⟩⟩ := SealedResource.load_eq_ok hload
  · rfl
  · rfl

/-- Recovering a resource that was not given away before passes the milestones of the resource, and
of these at most the first if it fails. -/
theorem recover_records {q : Inquiry}
    (hfresh : ∀ resource, q.candidate.sealed? = some resource → resource.recovered = none) :
    RecordsRecovery q (r.recover q) := by
  cases hsealed : q.candidate.sealed? with
  | none =>
      rw [r.recover_of_unsealed hsealed]
      exact ⟨rfl, .refl q.log⟩
  | some resource =>
      have hrecovery := r.recovery hsealed
      generalize r.recover q = result at hrecovery ⊢
      cases hrecovery with
      | kept hdone => cases (hfresh resource hsealed).symm.trans hdone
      | unread | nameless => exact ⟨rfl, .refl q.log⟩
      | undecrypted => exact ⟨[], List.nil_subset _, .refl q.log⟩
      | undecoded => exact ⟨_, List.Subset.refl _, .push q.log _⟩
      | fresh => exact ⟨rfl, (Continues.push q.log _).trans (.push _ _)⟩

end Reactor

/-! ### Resolvers that load an embedded assembly -/

namespace SmartAssembly

variable (s : SmartAssembly)

/-- That the initializer was found is recorded if and only if it is noted with the candidate. -/
theorem locateInitializer_records {q : Inquiry} (hnone : q.candidate.initializer = none) :
    Continues (finalState (s.locateInitializer q)).candidate.milestones q.log
      (finalState (s.locateInitializer q)).log := by
  have hunnoted : q.candidate.milestones = [] := by rw [Candidate.milestones, hnone]
  rw [locateInitializer]
  cases InitializerLocator.constructor? q.module q.candidate.type with
  | none =>
      simp only [finalState_ok, hunnoted]
      exact .refl q.log
  | some constructor =>
      have hlocate := s.locator.locate_records q.candidate.type constructor q.toWorkbench
      simp only [Inquiry.onWorkbench]
      cases hw : s.locator.locate q.candidate.type constructor q.toWorkbench with
      | error e w =>
          rw [hw] at hlocate
          simp only [finalState_error, hunnoted]
          exact hlocate
      | ok found w =>
          rw [hw] at hlocate
          cases found with
          | none =>
              simp only [finalState_ok, hunnoted]
              exact hlocate
          | some t =>
              exact hlocate.trans (Inquiry.noteInitializer_records { q with toWorkbench := w } t)

theorem recover_records (q : Inquiry) : RecordsRecovery q (recover q) := by
  rw [recover]
  cases q.candidate.assembly? with
  | none => exact ⟨rfl, .refl q.log⟩
  | some info => exact ⟨rfl, (Continues.refl q.log).push_of_comment rfl⟩

end SmartAssembly

/-! ### The recovery -/

/-- The milestones that an outcome stands for, in order. -/
def Outcome.milestones (o : Outcome) : List EventKind :=
  (match o.candidate with
    | none => [.detectionComplete]
    | some c => .resolverDetected :: .detectionComplete :: c.milestones) ++
    recoveryMilestones o.resource ++ if o.merged then [.resourceMerged] else []

/-- How often the milestones of an outcome have a kind. -/
theorem Outcome.count_milestones (o : Outcome) (k : EventKind) :
    o.milestones.count k =
      match k with
      | .detectionComplete => 1
      | .resolverDetected => o.candidate.isSome.toNat
      | .initializerLocated => (o.candidate.bind Candidate.initializer).isSome.toNat
      | .resourceDecrypted | .resourceRecovered => o.resource.isSome.toNat
      | .resourceMerged => o.merged.toNat
      | _ => 0 := by
  obtain ⟨candidate, resource, merged, events⟩ := o
  rcases candidate with _ | ⟨variant, type, typeName, handler, initializer, payload⟩
  · cases resource <;> cases merged <;> cases k <;> rfl
  · cases initializer <;> cases resource <;> cases merged <;> cases k <;> rfl

namespace Engine

variable {config : Config} {collaborators : Collaborators} {m : Module}

/-- The initializer of a detected candidate has not been looked for. -/
theorem milestones_of_find?_eq_some {d : Detector} {c : Candidate}
    (hfind : (withCollaborators config collaborators).find? m = some (d, c)) :
    c.milestones = [] := by
  obtain ⟨variant, rfl, t, -, hclassify⟩ := find?_eq_some hfind
  cases variant with
  | reactor =>
      obtain ⟨handler, -, -, rfl⟩ := Reactor.classify_eq_some hclassify
      rfl
  | smartAssembly =>
      obtain ⟨handler, -, info, -, -, rfl⟩ := SmartAssembly.classify_eq_some hclassify
      rfl

/-- Following a candidate up passes the milestones of the initializer and of the resource, and no
others if it fails, if the detector records what it finds. -/
theorem followUp_records_of_locate {d : Detector} {q : Inquiry}
    (hlocated : Continues (finalState (d.locateInitializer q)).candidate.milestones q.log
      (finalState (d.locateInitializer q)).log)
    (hrecovered : ∀ located, d.locateInitializer q = .ok () located →
      RecordsRecovery located (d.recover located)) :
    match followUp d q with
    | .ok found q' =>
      Continues (q'.candidate.milestones ++ recoveryMilestones found) q.log q'.log
    | .error _ q' =>
      ∃ passed, passed ⊆ [.initializerLocated, .resourceDecrypted] ∧
        Continues passed q.log q'.log := by
  have hsubset : ∀ c : Candidate, c.milestones ⊆ [.initializerLocated, .resourceDecrypted] := by
    intro c
    rw [Candidate.milestones]
    cases c.initializer <;> simp
  rw [followUp]
  cases hlocate : d.locateInitializer q with
  | error e located =>
      rw [hlocate] at hlocated
      exact ⟨_, hsubset located.candidate, hlocated⟩
  | ok u located =>
      rw [hlocate, finalState_ok] at hlocated
      have hrecords := hrecovered located hlocate
      simp only
      cases hrecover : d.recover located with
      | error e q' =>
          rw [hrecover] at hrecords
          obtain ⟨passed, hpassed, hcontinues⟩ := hrecords
          refine ⟨_, List.append_subset.mpr ⟨hsubset located.candidate, ?_⟩,
            hlocated.trans hcontinues⟩
          exact List.Subset.trans hpassed (List.subset_cons_self _ _)
      | ok found q' =>
          rw [hrecover] at hrecords
          obtain ⟨hkept, hcontinues⟩ := hrecords
          simp only [hkept]
          exact hlocated.trans hcontinues

/-- A detected candidate is followed up by a detector that records what it finds. -/
theorem followUp_records {d : Detector} {c : Candidate}
    (hfind : (withCollaborators config collaborators).find? m = some (d, c)) (start : EventLog) :
    match followUp d ⟨⟨m, start⟩, c⟩ with
    | .ok found q => Continues (q.candidate.milestones ++ recoveryMilestones found) start q.log
    | .error _ q =>
      ∃ passed, passed ⊆ [.initializerLocated, .resourceDecrypted] ∧
        Continues passed start q.log := by
  obtain ⟨variant, rfl, t, -, hclassify⟩ := find?_eq_some hfind
  cases variant with
  | reactor =>
      obtain ⟨handler, -, -, rfl⟩ := Reactor.classify_eq_some hclassify
      let r := Reactor.ofConfig config collaborators
      exact followUp_records_of_locate (d := r.detector) (r.locateInitializer_records rfl)
        fun _ hlocate => r.recover_records (r.fresh_of_locateInitializer rfl hlocate)
  | smartAssembly =>
      obtain ⟨handler, -, info, -, -, rfl⟩ := SmartAssembly.classify_eq_some hclassify
      let s := SmartAssembly.ofConfig config collaborators
      exact followUp_records_of_locate (d := s.detector) (s.locateInitializer_records rfl)
        fun located _ => SmartAssembly.recover_records located

theorem mergeResource_records (w : Workbench) (resource : NamedResource) :
    Continues [.resourceMerged] w.log (mergeResource w resource).log :=
  .push w.log _

/-- The milestones of a recovery that succeeds are those of its outcome.  One that fails has
detected a resolver, passes none of the milestones that come last, and records its error at the
end. -/
theorem processWithLog_records (m : Module) (start : EventLog) {e : Engine}
    (he : e = withCollaborators config collaborators) :
    match e.processWithLog ⟨m, start⟩ with
    | .ok o w =>
      Continues o.milestones start w.log ∧ o.candidate.isSome = (e.detect? m).isSome ∧
        (o.merged = true → o.resource.isSome = true ∧ e.config.merge = true)
    | .error error w =>
      (e.detect? m).isSome = true ∧
        ∃ passed log, passed ⊆ [.initializerLocated, .resourceDecrypted] ∧
          Continues (.resolverDetected :: .detectionComplete :: passed) start log ∧
          w.log = log.push (.plain .error error.message) := by
  subst he
  simp only [processWithLog, run, detect?]
  have hscanning : Continues [] start
      ((Workbench.mk m start).record (scanning (withCollaborators config collaborators) m)).log :=
    (Continues.refl start).push_of_comment rfl
  cases hfind : (withCollaborators config collaborators).find? m with
  | none => exact ⟨hscanning.trans (.push _ _), rfl, nofun⟩
  | some found =>
      obtain ⟨d, c⟩ := found
      obtain ⟨log, hreported, hdetected⟩ : ∃ log,
          reportCandidate ((Workbench.mk m start).record
            (scanning (withCollaborators config collaborators) m)) c = ⟨m, log⟩ ∧
          Continues [.resolverDetected, .detectionComplete] start log :=
        ⟨_, rfl, (hscanning.trans (.push _ _)).trans (.push _ _)⟩
      simp only [hreported]
      cases (withCollaborators config collaborators).config.recover with
      | false =>
          refine ⟨?_, rfl, nofun⟩
          simpa [Outcome.milestones, recoveryMilestones, milestones_of_find?_eq_some hfind] using
            hdetected
      | true =>
          have hfollow := followUp_records hfind log
          simp only [Bool.not_true, Bool.false_eq_true, if_false]
          cases hresult : followUp d ⟨⟨m, log⟩, c⟩ with
          | error error q =>
              simp only [hresult] at hfollow ⊢
              obtain ⟨passed, hpassed, hcontinues⟩ := hfollow
              exact ⟨rfl, passed, q.log, hpassed, hdetected.trans hcontinues, rfl⟩
          | ok found q =>
              simp only [hresult] at hfollow ⊢
              have hpassed := hdetected.trans hfollow
              cases found with
              | none => exact ⟨by simpa [Outcome.milestones] using hpassed, rfl, nofun⟩
              | some resource =>
                  simp only
                  cases hmerge : (withCollaborators config collaborators).config.merge with
                  | false => exact ⟨by simpa [Outcome.milestones] using hpassed, rfl, nofun⟩
                  | true =>
                      refine ⟨?_, rfl, fun _ => ⟨rfl, rfl⟩⟩
                      simpa [Outcome.milestones] using
                        hpassed.trans (mergeResource_records q.toWorkbench resource)

/-! ### How a recovery has ended -/

/-- The log tells which parts of the outcome there are, and of no error.  Only a resource that was
recovered is stored, and only if the recovery is asked to. -/
structure TellsOutcome (e : Engine) (log : EventLog) (o : Outcome) : Prop where
  unfailed : log.count .error = 0
  located :
    log.count .initializerLocated = (o.candidate.bind Candidate.initializer).isSome.toNat
  decrypted : log.count .resourceDecrypted = o.resource.isSome.toNat
  recovered : log.count .resourceRecovered = o.resource.isSome.toNat
  merged : log.count .resourceMerged = o.merged.toNat
  merges : o.merged = true → o.resource.isSome = true ∧ e.config.merge = true

/-- The log tells how the recovery of a module has ended: that the search was completed, whether a
resolver was detected, and then either the outcome or the error, with nothing behind it. -/
structure Tells (e : Engine) (m : Module) (log : EventLog)
    (result : EStateM.Result Error Workbench Outcome) : Prop where
  completed : log.count .detectionComplete = 1
  detected : log.count .resolverDetected = (e.detect? m).isSome.toNat
  succeeded : ∀ o w, result = .ok o w → e.TellsOutcome log o
  failed : ∀ error w, result = .error error w →
    log.count .error = 1 ∧ log.events.getLast? = some (.plain .error error.message)

/-- A recovery keeps the log that it is given and adds to it what tells how it has ended. -/
theorem processWithLog_tells (config : Config) (collaborators : Collaborators) (m : Module)
    (start : EventLog) :
    ∃ recorded, (finalState
        ((withCollaborators config collaborators).processWithLog ⟨m, start⟩)).log =
          start.merge recorded ∧
      (withCollaborators config collaborators).Tells m recorded
        ((withCollaborators config collaborators).processWithLog ⟨m, start⟩) := by
  have hrecords := processWithLog_records m start (e := withCollaborators config collaborators) rfl
  generalize (withCollaborators config collaborators).processWithLog ⟨m, start⟩ = result
    at hrecords ⊢
  cases result with
  | error error w =>
      obtain ⟨hdetected, passed, log, hpassed, ⟨recorded, rfl, hmilestones⟩, hlog⟩ := hrecords
      have habsent : ∀ k, k ∉ [EventKind.initializerLocated, .resourceDecrypted] →
          passed.count k = 0 := fun k hk => List.count_eq_zero.mpr fun hmem => hk (hpassed hmem)
      -- the error comes behind everything else that was recorded
      have hcount : ∀ k, k.isMilestone = true →
          (recorded.push (.plain .error error.message)).count k =
            (.resolverDetected :: .detectionComplete :: passed ++ [EventKind.error]).count k := by
        intro k hk
        rw [EventLog.count_eq_count_milestones hk, ← hmilestones]
        exact congrArg (List.count k) (EventLog.milestones_merge recorded ⟨[_]⟩)
      refine ⟨recorded.push (.plain .error error.message), ?_, ?_, ?_, fun _ _ h => (nomatch h), ?_⟩
      · rw [finalState_error, hlog]
        simp only [EventLog.merge, EventLog.push, List.append_assoc]
      · rw [hcount _ rfl]
        simp [habsent]
      · rw [hcount _ rfl, hdetected]
        simp [habsent]
      · rintro _ _ ⟨⟩
        refine ⟨?_, List.getLast?_concat⟩
        rw [hcount _ rfl]
        simp [habsent]
  | ok o w =>
      obtain ⟨⟨recorded, hlog, hmilestones⟩, hdetected, hmerged⟩ := hrecords
      have hcount : ∀ k, k.isMilestone = true → recorded.count k = o.milestones.count k := by
        intro k hk
        rw [EventLog.count_eq_count_milestones hk, hmilestones]
      refine ⟨recorded, hlog, ?_, ?_, ?_, fun _ _ h => (nomatch h)⟩
      · rw [hcount _ rfl, o.count_milestones]
      · rw [hcount _ rfl, o.count_milestones, hdetected]
      · rintro _ _ ⟨⟩
        refine ⟨?_, ?_, ?_, ?_, ?_, hmerged⟩
        all_goals
          rw [hcount _ rfl, o.count_milestones]

end Engine

end ResolverRecovery
