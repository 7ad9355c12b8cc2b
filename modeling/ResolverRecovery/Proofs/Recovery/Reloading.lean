import Mathlib.Data.List.Induction
import ResolverRecovery.Proofs.Recovery.Relocating

/-!
# Loading a resource more than once

A resource can be loaded from one module after the other, while handler, fields and resources change
in between.  A load that comes to a handler sets the name, but key and vector are set by a load that
finds both fit for use and by no other.  So the name is that of the last load that came to a
handler, and key and vector may be those of an earlier one.

## Main definitions

* `SealedResource.loadAll`: what is known after a history of loads, with or without success.
* `SealedResource.Latest`: what the last module of a history that gives anything gives.
* `SealedResource.Remembers`: name, key and vector are what a history of loads has left.

## Main statements

* `SealedResource.remembers_loadAll`: where name, key and vector come from, after any history.
* `SealedResource.decrypt_loadAll_iff`: what a resource is decrypted with, after any history.
* `SealedResource.decrypt_renamed`: a key that outlives the resource that it was read for.
-/

namespace ResolverRecovery

open Engine

namespace SealedResource

variable {m : Module} {method : Token} {history : List Module}

/-! ### Histories -/

/-- What is known of a resource after loads from several modules, each of which may have failed. -/
def loadAll (r : SealedResource) (history : List Module) : SealedResource :=
  history.foldl (fun r m => finalState (load m r)) r

@[simp] theorem loadAll_nil (r : SealedResource) : r.loadAll [] = r := rfl

@[simp] theorem loadAll_concat (r : SealedResource) (history : List Module) (m : Module) :
    r.loadAll (history ++ [m]) = finalState (load m (r.loadAll history)) := by
  rw [loadAll, List.foldl_concat, loadAll]

/-- The last module of a history that gives anything gives `a`. -/
def Latest {α : Type} (gives : Module → α → Prop) (history : List Module) (a : α) : Prop :=
  ∃ before m after, history = before ++ m :: after ∧ gives m a ∧ ∀ m' ∈ after, ∀ a', ¬gives m' a'

theorem not_latest_nil {α : Type} {gives : Module → α → Prop} {a : α} : ¬Latest gives [] a := by
  rintro ⟨before, m, after, hsplit, -⟩
  exact List.cons_ne_nil _ _ (List.append_eq_nil_iff.mp hsplit.symm).2

/-- The last module counts, and if it gives nothing those before it. -/
theorem latest_concat_iff {α : Type} {gives : Module → α → Prop} {a : α} :
    Latest gives (history ++ [m]) a ↔
      gives m a ∨ (∀ a', ¬gives m a') ∧ Latest gives history a := by
  constructor
  · rintro ⟨before, m₁, after, hsplit, hgives, hafter⟩
    rcases List.eq_nil_or_concat after with rfl | ⟨after', m₂, rfl⟩
    · obtain ⟨-, hsame⟩ := List.append_inj' hsplit rfl
      cases hsame
      exact .inl hgives
    · rw [List.concat_eq_append, ← List.cons_append, ← List.append_assoc] at hsplit
      obtain ⟨rfl, hsame⟩ := List.append_inj' hsplit rfl
      cases hsame
      exact .inr ⟨hafter m (by simp), before, m₁, after', rfl, hgives,
        fun m' hm' => hafter m' (by simp [hm'])⟩
  · rintro (hgives | ⟨hnothing, before, m₁, after, rfl, hgives, hafter⟩)
    · exact ⟨history, m, [], rfl, hgives, by simp⟩
    · refine ⟨before, m₁, after ++ [m], by simp, hgives, fun m' hm' => ?_⟩
      rcases List.mem_append.mp hm' with hold | hnew
      · exact hafter m' hold
      · rw [List.mem_singleton.mp hnew]
        exact hnothing

/-! ### What a module gives -/

/-- The handler is in the module, and names this resource or none. -/
def Names (method : Token) (m : Module) (name : Option String) : Prop :=
  ∃ d, m.method? method = some d ∧ nameIn? m d.code = name

/-- The handler is in the module, and discloses this key and this vector for a resource. -/
def Keys (method : Token) (m : Module) (material : List UInt8 × List UInt8) : Prop :=
  ∃ d name, m.method? method = some d ∧ Discloses m d.code name material.1 material.2

theorem Discloses.unique {code : List Instruction} {name name' : String}
    {key key' vector vector' : List UInt8} (h : Discloses m code name key vector)
    (h' : Discloses m code name' key' vector') :
    name = name' ∧ (key, vector) = (key', vector') := by
  obtain rfl := Option.some.inj (h.name.symm.trans h'.name)
  exact ⟨rfl, Except.ok.inj (h.keyMaterial_eq.symm.trans h'.keyMaterial_eq)⟩

theorem names_iff {d : MethodDecl} (hmethod : m.method? method = some d) {name : Option String} :
    Names method m name ↔ nameIn? m d.code = name := by
  simp only [Names, hmethod, Option.some.injEq, exists_eq_left']

theorem keys_iff {d : MethodDecl} (hmethod : m.method? method = some d)
    {material : List UInt8 × List UInt8} :
    Keys method m material ↔ ∃ name, Discloses m d.code name material.1 material.2 := by
  simp only [Keys, hmethod, Option.some.injEq, exists_and_left, exists_eq_left']

/-- A module without the handler gives neither name nor key. -/
theorem not_gives_of_unknown (hmethod : m.method? method = none) :
    (∀ name, ¬Names method m name) ∧ ∀ material, ¬Keys method m material := by
  constructor
  · rintro name ⟨d, hd, -⟩
    cases hmethod.symm.trans hd
  · rintro material ⟨d, name, hd, -⟩
    cases hmethod.symm.trans hd

/-- A handler that discloses nothing gives no key. -/
theorem not_keys_of_not_discloses {d : MethodDecl} (hmethod : m.method? method = some d)
    (hrefused : ∀ name key vector, ¬Discloses m d.code name key vector)
    (material : List UInt8 × List UInt8) : ¬Keys method m material := by
  rw [keys_iff hmethod]
  rintro ⟨name, hdiscloses⟩
  exact hrefused name _ _ hdiscloses

/-! ### What is left of a history -/

/-- What is known of a resource is what the modules of a history have given: the name comes from the
last one with the handler, and key and vector come from the last one that discloses them. -/
structure Remembers (method : Token) (history : List Module) (r : SealedResource) : Prop where
  handler : r.method = method
  name : ∀ name, r.resourceName = some name ↔ Latest (Names method) history (some name)
  /-- An empty key is none. -/
  keys : ∀ key vector, key ≠ [] →
    (r.key = key ∧ r.vector = vector ↔ Latest (Keys method) history (key, vector))

namespace Remembers

theorem ofHandler (method : Token) : Remembers method [] (.ofHandler method) where
  handler := rfl
  name _ := ⟨nofun, fun h => absurd h not_latest_nil⟩
  keys _ _ hkey := ⟨fun h => absurd h.1.symm hkey, fun h => absurd h not_latest_nil⟩

/-- A load adds its module to the history, however it ends. -/
theorem reading {r : SealedResource} (h : Remembers method history r)
    {result : EStateM.Result Error SealedResource Unit} (hreading : Reading m r result) :
    Remembers method (history ++ [m]) (finalState result) := by
  obtain ⟨rfl, hname, hkeys⟩ := h
  cases hreading with
  | unknown hmethod =>
      obtain ⟨hnameless, hkeyless⟩ := not_gives_of_unknown hmethod
      exact ⟨rfl, by simpa [latest_concat_iff, hnameless] using hname,
        by simpa [latest_concat_iff, hkeyless] using hkeys⟩
  | nameless hmethod hnone =>
      have hkeyless := not_keys_of_not_discloses hmethod fun _ _ _ hdiscloses =>
        absurd (hnone.symm.trans hdiscloses.name) nofun
      exact ⟨rfl, by simp [latest_concat_iff, names_iff hmethod, hnone],
        by simpa [latest_concat_iff, hkeyless] using hkeys⟩
  | undisclosed hmethod hsome hrefused =>
      have hkeyless := not_keys_of_not_discloses hmethod fun _ _ _ hdiscloses =>
        hrefused _ _ (Option.some.inj (hsome.symm.trans hdiscloses.name) ▸ hdiscloses)
      exact ⟨rfl, by simp [latest_concat_iff, names_iff hmethod, hsome],
        by simpa [latest_concat_iff, hkeyless] using hkeys⟩
  | @disclosed d name key vector hmethod hdiscloses =>
      have hgives : ∀ material, Keys r.method m material ↔ (key, vector) = material := by
        intro material
        rw [keys_iff hmethod]
        exact ⟨fun ⟨_, h⟩ => (hdiscloses.unique h).2, fun h => ⟨name, h ▸ hdiscloses⟩⟩
      exact ⟨rfl, by simp [latest_concat_iff, names_iff hmethod, hdiscloses.name, loaded],
        by simp [latest_concat_iff, hgives, loaded]⟩

end Remembers

/-- Whatever the modules, what is known in the end is what they have given. -/
theorem remembers_loadAll (method : Token) (history : List Module) :
    Remembers method history ((ofHandler method).loadAll history) := by
  induction history using List.reverseRecOn with
  | nil => exact .ofHandler method
  | append_singleton history m ih =>
      rw [loadAll_concat]
      exact ih.reading (load_reading m _)

/-! ### Decryption -/

theorem decrypt_eq_ok_iff {r : SealedResource} {text : List UInt8} :
    r.decrypt m = .ok text ↔ ∃ name resource, r.resourceName = some name ∧
      m.resource? name = some resource ∧
      Cipher.decrypt? r.key r.vector resource.data = some text := by
  constructor
  · intro h
    cases hname : r.resourceName with
    | none =>
        rw [decrypt, hname] at h
        cases h
    | some name =>
        obtain ⟨resource, hresource, htext⟩ := decrypt_eq_ok hname h
        exact ⟨name, resource, rfl, hresource, htext⟩
  · rintro ⟨name, resource, hname, hresource, htext⟩
    simp only [decrypt, hname, hresource, htext]

/-- Nothing is decrypted without a key. -/
theorem ne_nil_of_decrypt? {key vector cipher text : List UInt8}
    (h : Cipher.decrypt? key vector cipher = some text) : key ≠ [] := by
  rintro rfl
  have hnone := (Cipher.decrypt?_eq_none_iff [] vector cipher).mpr (.inl (by decide))
  cases hnone.symm.trans h

/-- After a load that ended without an error, a decryption goes by what that load has read. -/
theorem decrypt_of_load_eq_ok {r r' : SealedResource} {last : Module} (h : load last r = .ok () r')
    {text : List UInt8} :
    r'.decrypt m = .ok text ↔ ∃ d name key vector resource, last.method? r.method = some d ∧
      Discloses last d.code name key vector ∧ m.resource? name = some resource ∧
      Cipher.decrypt? key vector resource.data = some text := by
  rw [decrypt_eq_ok_iff]
  have hreading := load_reading last r
  rw [h] at hreading
  cases hreading with
  | nameless hmethod hnone =>
      -- no resource is named, so there is nothing on either side
      constructor
      · rintro ⟨name, resource, hname, -⟩
        cases hname
      · rintro ⟨d, name, key, vector, resource, hd, hdiscloses, -⟩
        cases hmethod.symm.trans hd
        cases hnone.symm.trans hdiscloses.name
  | @disclosed d name key vector hmethod hdiscloses =>
      constructor
      · rintro ⟨name', resource, hname, hresource, htext⟩
        cases hname
        exact ⟨d, name, key, vector, resource, hmethod, hdiscloses, hresource, htext⟩
      · rintro ⟨d', name', key', vector', resource, hd, hdiscloses', hresource, htext⟩
        cases hmethod.symm.trans hd
        obtain ⟨rfl, hmaterial⟩ := hdiscloses.unique hdiscloses'
        cases hmaterial
        exact ⟨name, resource, rfl, hresource, htext⟩

/-- After any history of loads, a resource is decrypted under the last name that the handler had for
it and with the last key and vector that were disclosed, for whatever resource that was.  If the
last load ended without an error, then all three are what that load has read. -/
theorem decrypt_loadAll_iff (method : Token) (history : List Module) (m : Module)
    (text : List UInt8) :
    (((ofHandler method).loadAll history).decrypt m = .ok text ↔
        ∃ name key vector resource, Latest (Names method) history (some name) ∧
          Latest (Keys method) history (key, vector) ∧ m.resource? name = some resource ∧
          Cipher.decrypt? key vector resource.data = some text) ∧
      ∀ before last r, history = before ++ [last] →
        load last ((ofHandler method).loadAll before) = .ok () r →
        (((ofHandler method).loadAll history).decrypt m = .ok text ↔
          ∃ d name key vector resource, last.method? method = some d ∧
            Discloses last d.code name key vector ∧ m.resource? name = some resource ∧
            Cipher.decrypt? key vector resource.data = some text) := by
  constructor
  · obtain ⟨-, hname, hkeys⟩ := remembers_loadAll method history
    rw [decrypt_eq_ok_iff]
    constructor
    · rintro ⟨name, resource, hsome, hresource, htext⟩
      have hmaterial := (hkeys _ _ (ne_nil_of_decrypt? htext)).mp ⟨rfl, rfl⟩
      exact ⟨name, _, _, resource, (hname name).mp hsome, hmaterial, hresource, htext⟩
    · rintro ⟨name, key, vector, resource, hlatest, hmaterial, hresource, htext⟩
      obtain ⟨rfl, rfl⟩ := (hkeys _ _ (ne_nil_of_decrypt? htext)).mpr hmaterial
      exact ⟨name, resource, (hname name).mpr hlatest, hresource, htext⟩
  · rintro before last r rfl hload
    rw [loadAll_concat, hload, finalState_ok, decrypt_of_load_eq_ok hload,
      (remembers_loadAll method before).handler]

end SealedResource

/-! ### Two resources and one key -/

namespace Engine.Sample

/-- The sample with a second resource, which has the same ciphertext. -/
def twofold : Module := module.addResource ⟨"other", 1, ciphertext⟩

/-- Names the second resource, and loads neither key nor vector. -/
def resolveOther : Body where
  code := [⟨0, .ldstr, .literal "other"⟩, ⟨5, .ret, .none⟩]
  locals := resolve.locals

/-- The handler of `twofold` rewritten. -/
def renamed : Module := twofold.setBody (.methodDef 3) resolveOther

theorem twofold_discloses :
    SealedResource.Discloses twofold resolve.code "hidden" key vector where
  name := by decide +kernel
  arrays := by
    obtain ⟨rest, hrest⟩ := resolve_discloses.arrays
    refine ⟨rest, ?_⟩
    -- the types are those of the sample, and filler loads no array
    rw [← hrest]
    simp [SealedResource.arraysIn, Body.strip, resolve, twofold, Module.resolveField?,
      Module.addResource]
  key := resolve_discloses.key
  vector := resolve_discloses.vector

theorem load_twofold :
    SealedResource.load twofold (.ofHandler (.methodDef 3)) =
      .ok () ((SealedResource.ofHandler (.methodDef 3)).loaded "hidden" key vector) :=
  twofold_discloses.load_eq (by decide +kernel)

end Engine.Sample

namespace SealedResource

/-- The load of a resource that is disclosed is followed by its decryption. -/
theorem decrypt_loadAll_iff_twofold :
    ∃ r, load Sample.twofold ((ofHandler (.methodDef 3)).loadAll []) = .ok () r ∧
      ((ofHandler (.methodDef 3)).loadAll [Sample.twofold]).decrypt Sample.twofold =
        .ok [12, 5, 2, 104, 105] := by
  refine ⟨_, Sample.load_twofold, ?_⟩
  have hlast := (decrypt_loadAll_iff (.methodDef 3) [Sample.twofold] Sample.twofold
    [12, 5, 2, 104, 105]).2 [] Sample.twofold _ rfl Sample.load_twofold
  exact hlast.mpr ⟨⟨.methodDef 3, "Resolve", .typeDef 1, staticFlag.bit,
    ⟨WellKnown.assembly, [WellKnown.object, WellKnown.object]⟩, some Sample.resolve⟩, "hidden",
    Sample.key, Sample.vector, ⟨"hidden", 5, Sample.ciphertext⟩, by decide +kernel,
    Sample.twofold_discloses, by decide +kernel, Sample.decrypt?_ciphertext⟩

/-- A load that names a resource without disclosing a key for it fails, and leaves the key in place
that was disclosed for another resource.  The new resource is decrypted with it. -/
theorem decrypt_renamed :
    ∃ r r', load Sample.twofold (ofHandler (.methodDef 3)) = .ok () r ∧
      load Sample.renamed r = .error (.decryption (.noKey "other")) r' ∧
      r'.decrypt Sample.renamed = .ok [12, 5, 2, 104, 105] := by
  have hbody : (Sample.renamed.method? (.methodDef 3)).bind MethodDecl.body =
      some Sample.resolveOther := by decide +kernel
  have hname : nameIn? Sample.renamed Sample.resolveOther.code = some "other" := by decide +kernel
  have hmaterial : keyMaterial "other" (arraysIn Sample.renamed Sample.resolveOther.code) =
      .error (.noKey "other") := rfl
  refine ⟨_, _, Sample.load_twofold, load_eq_error hbody hname hmaterial, ?_⟩
  rw [decrypt_eq_ok_iff]
  exact ⟨"other", ⟨"other", 1, Sample.ciphertext⟩, rfl, by decide +kernel,
    Sample.decrypt?_ciphertext⟩

end SealedResource

end ResolverRecovery
