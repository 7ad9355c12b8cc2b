import ResolverRecovery.Proofs.Cil.Padding
import ResolverRecovery.Proofs.Cil.Scanning

/-!
# Scanning code that is padded anew

The same code comes with other padding from build to build: filler is put in at some places and left
out at others.  A pattern without filler is found in each of the builds as often as in any other, in
the same order and made up of the same instructions.  Where all filler is left out, a match is a run
of instructions that follow one another.

## Main definitions

* `Repads`: code with filler put in and left out.
* `Scanner.Match.IsRun`: a match has no gaps.

## Main statements

* `repads_iff`: code can be padded anew to other code if and only if both are the same without
  filler.
* `Scanner.findAll_repads`: what is found does not depend on the padding.
-/

namespace ResolverRecovery

variable {filler : List Opcode}

/-! ### Code with other padding -/

/-- The second code has filler that the first one lacks, and lacks filler that the first one has, at
any positions. -/
inductive Repads (filler : List Opcode) : List Instruction → List Instruction → Prop
  | nil : Repads filler [] []
  | keep (i : Instruction) {code code' : List Instruction} (h : Repads filler code code') :
      Repads filler (i :: code) (i :: code')
  | insert {i : Instruction} (hi : i.opcode ∈ filler) {code code' : List Instruction}
      (h : Repads filler code code') : Repads filler code (i :: code')
  | remove {i : Instruction} (hi : i.opcode ∈ filler) {code code' : List Instruction}
      (h : Repads filler code code') : Repads filler (i :: code) code'

namespace Repads

variable {code code' : List Instruction}

theorem unpadded_eq (h : Repads filler code code') :
    Scanner.unpadded ⟨filler⟩ code' = Scanner.unpadded ⟨filler⟩ code := by
  induction h with
  | nil => rfl
  | keep i h ih =>
      rw [Scanner.unpadded, Scanner.unpadded, List.filter_cons, List.filter_cons,
        ← Scanner.unpadded, ← Scanner.unpadded, ih]
  | insert hi h ih =>
      rw [Scanner.unpadded_cons_of_filler (List.contains_iff_mem.mpr hi), ih]
  | remove hi h ih =>
      rw [Scanner.unpadded_cons_of_filler (List.contains_iff_mem.mpr hi), ih]

/-- Code that begins with an instruction when its filler is left out can be padded anew to any code
that begins with that instruction and goes on in the same way. -/
theorem keep_of_unpadded_eq_cons {i : Instruction} {rest : List Instruction}
    (hrest : ∀ code', Scanner.unpadded ⟨filler⟩ code' = Scanner.unpadded ⟨filler⟩ rest →
      Repads filler rest code')
    (h : Scanner.unpadded ⟨filler⟩ code' = i :: Scanner.unpadded ⟨filler⟩ rest) :
    Repads filler (i :: rest) code' := by
  induction code' with
  | nil => cases h
  | cons j rest' ih =>
      cases hfiller : Scanner.isFiller ⟨filler⟩ j.opcode with
      | true =>
          rw [Scanner.unpadded_cons_of_filler hfiller] at h
          exact .insert (List.contains_iff_mem.mp hfiller) (ih h)
      | false =>
          rw [Scanner.unpadded_cons hfiller] at h
          obtain ⟨rfl, htail⟩ := List.cons.inj h
          exact .keep j (hrest rest' htail)

end Repads

/-- Code can be padded anew to other code if and only if both are the same without filler. -/
theorem repads_iff {code code' : List Instruction} :
    Repads filler code code' ↔
      Scanner.unpadded ⟨filler⟩ code' = Scanner.unpadded ⟨filler⟩ code := by
  refine ⟨Repads.unpadded_eq, fun h => ?_⟩
  induction code generalizing code' with
  | nil =>
      -- all that is left is filler
      induction code' with
      | nil => exact .nil
      | cons j rest ih =>
          cases hfiller : Scanner.isFiller ⟨filler⟩ j.opcode with
          | true =>
              rw [Scanner.unpadded_cons_of_filler hfiller] at h
              exact .insert (List.contains_iff_mem.mp hfiller) (ih h)
          | false =>
              rw [Scanner.unpadded_cons hfiller] at h
              cases h
  | cons i rest ih =>
      cases hfiller : Scanner.isFiller ⟨filler⟩ i.opcode with
      | true =>
          rw [Scanner.unpadded_cons_of_filler hfiller] at h
          exact .remove (List.contains_iff_mem.mp hfiller) (ih h)
      | false =>
          rw [Scanner.unpadded_cons hfiller] at h
          exact .keep_of_unpadded_eq_cons (fun _ => ih) h

namespace Scanner

variable {s : Scanner} {code : List Instruction} {ops pattern : List Opcode} {p : Nat} {m : Match}

/-! ### Matches without gaps -/

/-- The match is made up of instructions of the code that follow one another and spell the
pattern. -/
structure Match.IsRun (code : List Instruction) (pattern : List Opcode) (m : Match) : Prop where
  positions : m.placed.map Placed.position = List.range' m.start pattern.length
  stop : m.stop = m.start + pattern.length
  code : m.code = (code.drop m.start).take pattern.length
  spells : m.code.map Instruction.opcode = pattern

theorem isFiller_of_mem_unpadded {i : Instruction} (h : i ∈ s.unpadded code) :
    s.isFiller i.opcode = false := by
  have hkept := (List.mem_filter.mp h).2
  rwa [Bool.not_eq_true'] at hkept

/-- Without filler, the rest of a pattern is taken from the instructions that come next. -/
theorem follow_of_unfilled (hcode : ∀ i ∈ code, s.isFiller i.opcode = false)
    {placed : List Placed} (h : s.follow ops code p = some placed) :
    placed.map Placed.position = List.range' p ops.length ∧
      placed.map Placed.instruction = code.take ops.length ∧
      (placed.map Placed.instruction).map Instruction.opcode = ops := by
  induction code generalizing ops p placed with
  | nil =>
      cases ops with
      | nil =>
          cases h
          exact ⟨rfl, rfl, rfl⟩
      | cons op ops => cases h
  | cons i rest ih =>
      obtain ⟨hi, hrest⟩ := List.forall_mem_cons.mp hcode
      cases ops with
      | nil =>
          cases h
          exact ⟨rfl, rfl, rfl⟩
      | cons op ops =>
          simp only [follow, hi, Bool.false_eq_true, if_false] at h
          split at h
          · rename_i hspells
            obtain ⟨tail, htail, rfl⟩ := Option.map_eq_some_iff.mp h
            obtain ⟨hpositions, hinstructions, hops⟩ := ih hrest htail
            refine ⟨?_, ?_, ?_⟩
            · rw [List.map_cons, hpositions, List.length_cons, List.range'_succ]
            · rw [List.map_cons, hinstructions, List.length_cons, List.take_succ_cons]
            · rw [List.map_cons, List.map_cons, hops, hspells]
          · cases h

theorem isRun_of_matchHere? (hcode : ∀ i ∈ code, s.isFiller i.opcode = false)
    (h : s.matchHere? pattern (code.drop p) p = some m) : m.IsRun code pattern := by
  unfold matchHere? at h
  split at h
  · rename_i op ops i rest hdrop
    split at h
    · rename_i hspells
      obtain ⟨placed, hfollow, rfl⟩ := Option.map_eq_some_iff.mp h
      have hrest : ∀ j ∈ rest, s.isFiller j.opcode = false := by
        intro j hj
        exact hcode j (List.mem_of_mem_drop (hdrop ▸ List.mem_cons_of_mem i hj))
      obtain ⟨hpositions, hinstructions, hops⟩ := follow_of_unfilled hrest hfollow
      refine ⟨?_, ?_, ?_, ?_⟩
      · rw [List.map_cons, hpositions, List.length_cons, List.range'_succ]
      · show (placed.getLast?.map Placed.position).getD p + 1 = p + (ops.length + 1)
        rw [← List.getLast?_map, hpositions, List.getLast?_range']
        split
        · rename_i hnil
          rw [hnil, Option.getD_none]
        · rw [Option.getD_some]
          omega
      · rw [Match.code, List.map_cons, hinstructions, hdrop, List.length_cons,
          List.take_succ_cons]
      · rw [Match.code, List.map_cons, List.map_cons, hops, hspells]
    · cases h
  · cases h

/-- In code without its filler every match is a run of instructions that follow one another. -/
theorem isRun_of_mem_findAll (h : m ∈ s.findAll (s.unpadded code) pattern) :
    m.IsRun (s.unpadded code) pattern :=
  isRun_of_matchHere? (fun _ => isFiller_of_mem_unpadded) (mem_findAll_iff.mp h)

/-! ### What is found -/

/-- A pattern without filler is found in code as it is found in the code without filler, where the
matches are runs of instructions: the matches are as many, in the same order and made up of the same
instructions.  So they are the same in code that is padded anew. -/
theorem findAll_repads (hpattern : ∀ op ∈ pattern, op ∉ s.filler) (code : List Instruction) :
    (s.findAll code pattern).map Match.code =
        (s.findAll (s.unpadded code) pattern).map Match.code ∧
      (∀ m ∈ s.findAll (s.unpadded code) pattern, m.IsRun (s.unpadded code) pattern) ∧
      ∀ code', Repads s.filler code code' →
        (s.findAll code' pattern).map Match.code = (s.findAll code pattern).map Match.code := by
  have hkept : ∀ op ∈ pattern, s.isFiller op = false := by
    intro op hop
    rw [isFiller, ← Bool.not_eq_true, List.contains_iff_mem]
    exact hpattern op hop
  refine ⟨(findAll_unpadded hkept code).symm, fun m => isRun_of_mem_findAll, fun code' h => ?_⟩
  rw [← findAll_unpadded hkept code', ← findAll_unpadded hkept code]
  exact congrArg (fun code => (s.findAll code pattern).map Match.code) h.unpadded_eq

namespace Sample

/-- Three loads of a null with a call among them. -/
def nulls : List Instruction :=
  [⟨0, .ldnull, .none⟩, ⟨1, .ldnull, .none⟩, ⟨2, .ldnull, .none⟩, ⟨3, .call, .none⟩,
    ⟨8, .ldnull, .none⟩]

/-- The same with filler within the pairs and around them. -/
def paddedNulls : List Instruction :=
  [⟨0, .nop, .none⟩, ⟨0, .ldnull, .none⟩, ⟨1, .nop, .none⟩, ⟨2, .br, .integer 0⟩,
    ⟨1, .ldnull, .none⟩, ⟨2, .br, .integer 0⟩, ⟨2, .ldnull, .none⟩, ⟨3, .call, .none⟩,
    ⟨8, .nop, .none⟩, ⟨8, .ldnull, .none⟩, ⟨9, .nop, .none⟩]

end Sample

/-- Pairs that overlap are found with and without padding. -/
theorem findAll_repads_overlapping :
    (∀ op ∈ [Opcode.ldnull, .ldnull], op ∉ [Opcode.nop, .br]) ∧
      Repads [.nop, .br] Sample.nulls Sample.paddedNulls ∧
      ((⟨[.nop, .br]⟩ : Scanner).findAll Sample.paddedNulls [.ldnull, .ldnull]).map Match.code =
        [[⟨0, .ldnull, .none⟩, ⟨1, .ldnull, .none⟩],
          [⟨1, .ldnull, .none⟩, ⟨2, .ldnull, .none⟩]] := by
  have hpattern : ∀ op ∈ [Opcode.ldnull, .ldnull], op ∉ [Opcode.nop, .br] := by decide
  have hrepads : Repads [.nop, .br] Sample.nulls Sample.paddedNulls :=
    repads_iff.mpr (by decide +kernel)
  refine ⟨hpattern, hrepads, ?_⟩
  rw [(findAll_repads (s := ⟨[.nop, .br]⟩) hpattern Sample.nulls).2.2 _ hrepads]
  decide +kernel

end Scanner

end ResolverRecovery
