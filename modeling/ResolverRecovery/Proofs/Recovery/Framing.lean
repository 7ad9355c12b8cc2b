import Mathlib.Logic.Relation
import ResolverRecovery.Proofs.Metadata.Rewritten
import ResolverRecovery.Proofs.Recovery.Recovering
import ResolverRecovery.Recovery.Engine

/-!
# What the stages of a recovery touch

Whatever the normalizer does, and whether a stage succeeds or fails, it stores only what the
normalizer has made of a body, and only for the methods that it visits: the candidates for the
initializer and the handler.  Nothing else in the module changes before a resource is stored.

## Main definitions

* `finalState`: the state in which work ends, also after an error.
* `Normalizer.Rewrites`: a body leads to another through steps of a normalizer.
* `InitializerLocator.Visits`: the methods that the search for an initializer may rewrite.
* `Reactor.Recovery`: the ways in which recovering ends.

## Main statements

* `InitializerLocator.locate_rewritten`: the search rewrites bodies of the methods it visits.
* `Reactor.locateInitializer_rewritten`, `SmartAssembly.locateInitializer_rewritten`: so do the
  detectors, of which the first rewrites the handler as well.
* `Reactor.recover_module`, `SmartAssembly.recover_module`: recovery leaves the module alone.
-/

namespace ResolverRecovery

/-- The state in which work ends, be it with a result or with an error. -/
def finalState {ε σ α : Type} : EStateM.Result ε σ α → σ
  | .ok _ s => s
  | .error _ s => s

@[simp]
theorem finalState_ok {ε σ α : Type} (a : α) (s : σ) :
    finalState (.ok a s : EStateM.Result ε σ α) = s := rfl

@[simp]
theorem finalState_error {ε σ α : Type} (e : ε) (s : σ) :
    finalState (.error e s : EStateM.Result ε σ α) = s := rfl

/-! ### Steps of a normalizer -/

/-- A body leads to another through steps of the normalizer, one at least. -/
def Normalizer.Rewrites (n : Normalizer) : Body → Body → Prop :=
  Relation.TransGen fun b b' => n.normalize b = .ok b' ∨ n.decryptStrings b = .ok b'

namespace Normalizer

variable {n : Normalizer} {b b' b'' : Body}

theorem Rewrites.of_normalize (h : n.normalize b = .ok b') : n.Rewrites b b' :=
  .single (.inl h)

theorem Rewrites.of_decryptStrings (h : n.decryptStrings b = .ok b') : n.Rewrites b b' :=
  .single (.inr h)

theorem Rewrites.trans (h : n.Rewrites b b') (h' : n.Rewrites b' b'') : n.Rewrites b b'' :=
  Relation.TransGen.trans h h'

/-- Stripping a second time changes nothing, so that many steps lead no further than one. -/
theorem eq_or_eq_of_rewrites_stripping {filler : List Opcode}
    (h : (stripping filler).Rewrites b b') : b' = b ∨ b' = b.strip filler := by
  induction h with
  | single hstep =>
      rcases hstep with hstep | hstep <;> cases hstep
      · exact .inr rfl
      · exact .inl rfl
  | tail _ hstep ih =>
      rcases hstep with hstep | hstep <;> cases hstep
      · rcases ih with rfl | rfl
        · exact .inr rfl
        · exact .inr (Body.strip_strip filler b)
      · exact ih

end Normalizer

/-! ### The search for an initializer -/

namespace InitializerLocator

/-- The method is a candidate for the initializer of the type, so that the search may rewrite it. -/
def Visits (l : InitializerLocator) (m : Module) (type t : Token) : Prop :=
  ∃ owner, m.type? type = some owner ∧ t ∈ l.candidates m owner

variable (l : InitializerLocator)

theorem firstQualified_rewritten (owner : TypeRef) (constructor : MethodRef) (tokens : List Token)
    (w : Workbench) :
    w.module.Rewritten l.normalizer.Rewrites (· ∈ tokens)
      (finalState (l.firstQualified owner constructor tokens w)).module := by
  induction tokens generalizing w with
  | nil => exact .refl w.module
  | cons t rest ih =>
      rw [firstQualified]
      cases hbody : (w.module.method? t).bind MethodDecl.body with
      | none => exact (ih w).mono fun _ => List.mem_cons_of_mem t
      | some body =>
          simp only
          cases hnormalize : l.normalizer.normalize body with
          | error e => exact .refl w.module
          | ok normalized =>
              have hsteps := Normalizer.Rewrites.of_normalize hnormalize
              have hstep : w.module.Rewritten l.normalizer.Rewrites (· ∈ t :: rest)
                  (w.storeNormalized t body normalized
                    ("normalized initializer candidate " ++ t.text)).module :=
                Workbench.rewritten_storeNormalized List.mem_cons_self hbody hsteps _
              simp only
              split
              · exact hstep
              · exact hstep.trans .trans ((ih _).mono fun _ => List.mem_cons_of_mem t)

theorem locate_rewritten (type : Token) (constructor : MethodRef) (w : Workbench) :
    w.module.Rewritten l.normalizer.Rewrites (l.Visits w.module type)
      (finalState (l.locate type constructor w)).module := by
  rw [locate]
  cases htype : w.module.type? type with
  | none => exact .refl w.module
  | some owner =>
      exact (l.firstQualified_rewritten owner.reference constructor _ w).mono
        fun _ ht => ⟨owner, htype, ht⟩

end InitializerLocator

/-! ### The stages of the detectors -/

/-- Work on the workbench of an inquiry leaves the candidate alone. -/
theorem Inquiry.finalState_onWorkbench {α : Type} (work : Work α) (q : Inquiry) :
    finalState (Inquiry.onWorkbench work q) =
      { q with toWorkbench := finalState (work q.toWorkbench) } := by
  rw [onWorkbench]
  cases work q.toWorkbench <;> rfl

namespace Reactor

variable (r : Reactor)

theorem cleanHandler_rewritten {t : Token} {body : Body} {w : Workbench}
    (hbody : (w.module.method? t).bind MethodDecl.body = some body) :
    w.module.Rewritten r.normalizer.Rewrites (· = t)
      (finalState (r.cleanHandler t body w)).module := by
  rw [cleanHandler]
  cases hnormalize : r.normalizer.normalize body with
  | error e => exact .refl w.module
  | ok normalized =>
      simp only
      -- neither of the two events touches the module
      generalize hlogged : (if normalized = body then w else w.record
        (.onMethod .methodNormalized t ("normalized resolver handler " ++ t.text))) = logged
      have hmodule : logged.module = w.module := by
        rw [← hlogged]
        split <;> rfl
      cases hdecrypt : r.normalizer.decryptStrings normalized with
      | error e =>
          rw [finalState_error, hmodule]
          exact .refl w.module
      | ok decrypted =>
          have hsteps : r.normalizer.Rewrites body decrypted :=
            (Normalizer.Rewrites.of_normalize hnormalize).trans (.of_decryptStrings hdecrypt)
          simp only
          generalize hlogged' : (if decrypted = normalized then logged else logged.record
            (.onMethod .stringsDecrypted t EventKind.stringsDecrypted.description)) = logged'
          have hmodule' : logged'.module = w.module := by
            rw [← hlogged', ← hmodule]
            split <;> rfl
          rw [finalState_ok]
          split
          · rw [hmodule']
            exact .refl w.module
          · rw [hmodule']
            exact .setBody rfl hbody hsteps

theorem prepare_rewritten (resource : SealedResource) (q : Inquiry) :
    q.module.Rewritten r.normalizer.Rewrites (· = resource.method)
      (finalState (r.prepare resource q)).module := by
  rw [prepare]
  cases hbody : (q.module.method? resource.method).bind MethodDecl.body with
  | none => exact .refl q.module
  | some body =>
      have hclean := r.cleanHandler_rewritten (w := q.toWorkbench) hbody
      simp only [Inquiry.onWorkbench]
      cases hw : r.cleanHandler resource.method body q.toWorkbench with
      | error e w =>
          rw [hw] at hclean
          exact hclean
      | ok u w =>
          rw [hw] at hclean
          simp only
          cases SealedResource.load w.module resource with
          | error e loaded => exact hclean
          | ok u loaded =>
              rw [finalState_ok, (reportName_spec _ loaded).1]
              exact hclean

/-- Up to the recovery of the resource, the candidates for the initializer are rewritten, and the
handler. -/
theorem locateInitializer_rewritten (hlocator : r.locator.normalizer = r.normalizer) (q : Inquiry) :
    q.module.Rewritten r.normalizer.Rewrites
      (fun t => r.locator.Visits q.module q.candidate.type t ∨
        ∃ resource, q.candidate.sealed? = some resource ∧ t = resource.method)
      (finalState (r.locateInitializer q)).module := by
  rw [locateInitializer]
  cases InitializerLocator.constructor? q.module q.candidate.type with
  | none => exact .refl q.module
  | some constructor =>
      have hlocate := r.locator.locate_rewritten q.candidate.type constructor q.toWorkbench
      rw [hlocator] at hlocate
      simp only [Inquiry.onWorkbench]
      cases hw : r.locator.locate q.candidate.type constructor q.toWorkbench with
      | error e w =>
          rw [hw] at hlocate
          exact hlocate.mono fun _ => .inl
      | ok found w =>
          rw [hw] at hlocate
          cases found with
          | none => exact hlocate.mono fun _ => .inl
          | some t =>
              simp only
              -- noting the initializer leaves module and payload alone
              generalize hnoted : Inquiry.noteInitializer { q with toWorkbench := w } t = noted
              have hmodule : noted.module = w.module := by rw [← hnoted]; rfl
              have hsealed : noted.candidate.sealed? = q.candidate.sealed? := by rw [← hnoted]; rfl
              rw [finalState_ok, ← hmodule] at hlocate
              rw [hsealed]
              cases q.candidate.sealed? with
              | none => exact hlocate.mono fun _ => .inl
              | some resource =>
                  simp only
                  split
                  · exact hlocate.mono fun _ => .inl
                  · exact (hlocate.mono fun _ => .inl).trans .trans
                      ((r.prepare_rewritten resource noted).mono
                        fun t ht => .inr ⟨resource, rfl, ht⟩)

/-- The ways in which recovering ends: the resource was recovered before; the handler has not been
read, or names no resource; the resource cannot be decrypted, or not be decoded; it is recovered
now. -/
inductive Recovery (r : Reactor) (q : Inquiry) (resource : SealedResource) :
    EStateM.Result Error Inquiry (Option NamedResource) → Prop
  | kept {done : NamedResource} (hdone : resource.recovered = some done) :
      Recovery r q resource (.ok (some done) q)
  | unread (hfresh : resource.recovered = none) (hunread : resource.isInitialized = false) :
      Recovery r q resource (.ok none q)
  | nameless (hfresh : resource.recovered = none) (hname : resource.resourceName = none) :
      Recovery r q resource (.ok none q)
  | undecrypted {name : String} {fault : DecryptionFault} (hread : resource.isInitialized = true)
      (hname : resource.resourceName = some name)
      (hdecrypt : resource.decrypt q.module = .error fault) :
      Recovery r q resource (.error (.decryption fault) q)
  | undecoded {name message : String} {text : List UInt8} {cause : Codec.Error}
      (hread : resource.isInitialized = true) (hname : resource.resourceName = some name)
      (hdecrypt : resource.decrypt q.module = .ok text)
      (hdecode : r.codec.decompress text = .error cause) :
      Recovery r q resource (.error (.decompression cause)
        (q.record (.onMethod .resourceDecrypted resource.method message)))
  | fresh {name message message' : String} {text data : List UInt8}
      (hfresh : resource.recovered = none) (hread : resource.isInitialized = true)
      (hname : resource.resourceName = some name)
      (hdecrypt : resource.decrypt q.module = .ok text)
      (hdecode : r.codec.decompress text = .ok data) :
      Recovery r q resource (.ok (some ⟨name, data⟩)
        (keep ((q.record (.onMethod .resourceDecrypted resource.method message)).record
          (.plain .resourceRecovered message')) { resource with recovered := some ⟨name, data⟩ }))

theorem recovery {q : Inquiry} {resource : SealedResource}
    (hsealed : q.candidate.sealed? = some resource) : r.Recovery q resource (r.recover q) := by
  rw [recover, hsealed]
  dsimp only
  cases hrecovered : resource.recovered with
  | some done => exact .kept hrecovered
  | none =>
      dsimp only
      cases hread : resource.isInitialized with
      | false => exact .unread hrecovered hread
      | true =>
          cases hname : resource.resourceName with
          | none => exact .nameless hrecovered hname
          | some name =>
              show r.Recovery q resource (r.decode name resource q)
              rw [decode]
              cases hdecrypt : resource.decrypt q.module with
              | error fault => exact .undecrypted hread hname hdecrypt
              | ok text =>
                  dsimp only
                  cases hdecode : r.codec.decompress text with
                  | error cause => exact .undecoded hread hname hdecrypt hdecode
                  | ok data => exact .fresh hrecovered hread hname hdecrypt hdecode

theorem recover_of_unsealed {q : Inquiry} (hnone : q.candidate.sealed? = none) :
    r.recover q = .ok none q := by
  rw [recover, hnone]

/-- Recovering leaves the module alone. -/
theorem recover_module (q : Inquiry) : (finalState (r.recover q)).module = q.module := by
  cases hsealed : q.candidate.sealed? with
  | none => rw [r.recover_of_unsealed hsealed, finalState_ok]
  | some resource =>
      have hrecovery := r.recovery hsealed
      generalize r.recover q = result at hrecovery ⊢
      cases hrecovery <;> rfl

end Reactor

namespace SmartAssembly

variable (s : SmartAssembly)

theorem locateInitializer_rewritten (q : Inquiry) :
    q.module.Rewritten s.locator.normalizer.Rewrites
      (s.locator.Visits q.module q.candidate.type)
      (finalState (s.locateInitializer q)).module := by
  rw [locateInitializer]
  cases InitializerLocator.constructor? q.module q.candidate.type with
  | none => exact .refl q.module
  | some constructor =>
      have hlocate := s.locator.locate_rewritten q.candidate.type constructor q.toWorkbench
      simp only [Inquiry.onWorkbench]
      cases hw : s.locator.locate q.candidate.type constructor q.toWorkbench with
      | error e w =>
          rw [hw] at hlocate
          exact hlocate
      | ok found w =>
          rw [hw] at hlocate
          cases found <;> exact hlocate

/-- There is nothing to recover. -/
theorem recover_module (q : Inquiry) : (finalState (recover q)).module = q.module := by
  rw [recover]
  cases q.candidate.assembly? <;> rfl

end SmartAssembly

end ResolverRecovery
