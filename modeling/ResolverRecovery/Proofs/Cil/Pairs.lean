import ResolverRecovery.Proofs.Cil.Scanning

/-!
# Looking for two operations in a row

A pattern of two operations is found where the first one stands and the second one follows, with
nothing but filler in between.  The second one may be filler itself: it is taken all the same where
it comes first, which is why what is passed over is not just filler but free of it.

If more is asked of a match than its operations, a match that does not have it is passed over, and
the search goes on with the next one.

## Main definitions

* `Scanner.Passes`: what is passed over on the way to an operation.

## Main statements

* `Scanner.matchHere?_pair_iff`: where a pattern of two operations is found.
* `Scanner.findSome?_findAll_eq_some_iff`: the first match that something comes of.
-/

namespace ResolverRecovery.Scanner

variable {s : Scanner} {code rest : List Instruction} {op next : Opcode} {pattern : List Opcode}
  {i : Instruction} {p q : Nat} {placed : List Placed} {m : Match}

/-! ### Pairs -/

/-- From position `p` up to `q` there is only filler, and none of it is the operation `op`. -/
def Passes (s : Scanner) (code : List Instruction) (op : Opcode) (p q : Nat) : Prop :=
  ∀ k i, p ≤ k → k < q → code[k]? = some i → s.isFiller i.opcode = true ∧ i.opcode ≠ op

/-- No operation is passed over that is looked for. -/
theorem Passes.le (h : s.Passes code op p q) {q' : Nat} (hle : p ≤ q') (hhere : code[q']? = some i)
    (hspells : i.opcode = op) : q ≤ q' := by
  by_contra hlt
  exact (h q' i hle (Nat.lt_of_not_le hlt) hhere).2 hspells

theorem passes_of_follow_singleton (hdrop : code.drop p = rest)
    (h : s.follow [op] rest p = some placed) :
    ∃ q i, p ≤ q ∧ s.Passes code op p q ∧ code[q]? = some i ∧ i.opcode = op ∧
      placed = [⟨q, i⟩] := by
  obtain ⟨hfollows, hplaced⟩ := follows_of_follow hdrop h
  generalize hpositions : placed.map Placed.position = positions at hfollows
  cases hfollows with
  | cons hreached hpassed hhere hspells hrest =>
      cases hrest
      obtain ⟨x, rfl, rfl⟩ := List.map_eq_singleton_iff.mp hpositions
      have hx := hplaced x List.mem_cons_self
      cases hhere.symm.trans hx
      refine ⟨x.position, x.instruction, hreached, fun k j hk hlt hj => ?_, hx, hspells, rfl⟩
      refine ⟨hpassed k j hk hlt hj, fun hsame => ?_⟩
      -- an earlier one would have been taken
      have hearlier : s.Follows code p [op] [k] :=
        .cons hk (fun k' j' hk' hlt' => hpassed k' j' hk' (Nat.lt_trans hlt' hlt)) hj hsame (.nil _)
      obtain ⟨placed', hplaced', hle⟩ := exists_follow hdrop hearlier
      cases h.symm.trans hplaced'
      cases hle with
      | cons hle _ => exact Nat.not_lt_of_le hle hlt

/-- An operation is taken where it comes first, if only filler is passed over until then. -/
theorem follow_singleton_iff (hdrop : code.drop p = rest) :
    s.follow [op] rest p = some placed ↔
      ∃ q i, p ≤ q ∧ s.Passes code op p q ∧ code[q]? = some i ∧ i.opcode = op ∧
        placed = [⟨q, i⟩] := by
  refine ⟨passes_of_follow_singleton hdrop, ?_⟩
  rintro ⟨q, i, hreached, hpassed, hhere, hspells, rfl⟩
  have hfollows : s.Follows code p [op] [q] :=
    .cons hreached (fun k j hk hlt hj => (hpassed k j hk hlt hj).1) hhere hspells (.nil _)
  obtain ⟨placed, hplaced, -⟩ := exists_follow hdrop hfollows
  obtain ⟨q', i', hreached', hpassed', hhere', hspells', rfl⟩ :=
    passes_of_follow_singleton hdrop hplaced
  obtain rfl : q' = q := Nat.le_antisymm (hpassed'.le hreached hhere hspells)
    (hpassed.le hreached' hhere' hspells')
  cases hhere.symm.trans hhere'
  exact hplaced

/-- Two operations are found where the first one stands, with the second one where it comes first
behind that. -/
theorem matchHere?_pair_iff :
    s.matchHere? [op, next] (code.drop p) p = some m ↔
      ∃ q i j, code[p]? = some i ∧ i.opcode = op ∧ p < q ∧ s.Passes code next (p + 1) q ∧
        code[q]? = some j ∧ j.opcode = next ∧ m = ⟨p, q + 1, [⟨p, i⟩, ⟨q, j⟩]⟩ := by
  cases hdrop : code.drop p with
  | nil =>
      refine ⟨fun h => (nomatch h), ?_⟩
      rintro ⟨q, i, j, hi, -⟩
      rw [List.getElem?_eq_none (List.drop_eq_nil_iff.mp hdrop)] at hi
      cases hi
  | cons i rest =>
      have hi := getElem?_of_drop_eq_cons hdrop
      have hnext := drop_succ_of_drop_eq_cons hdrop
      rw [matchHere?]
      constructor
      · intro h
        split at h
        · rename_i hspells
          obtain ⟨placed, hfollow, rfl⟩ := Option.map_eq_some_iff.mp h
          obtain ⟨q, j, hreached, hpassed, hj, hspells', rfl⟩ :=
            (follow_singleton_iff hnext).mp hfollow
          exact ⟨q, i, j, hi, hspells, hreached, hpassed, hj, hspells', rfl⟩
        · cases h
      · rintro ⟨q, i', j, hi', hspells, hreached, hpassed, hj, hspells', rfl⟩
        cases hi.symm.trans hi'
        have hfollow : s.follow [next] rest (p + 1) = some [⟨q, j⟩] :=
          (follow_singleton_iff hnext).mpr ⟨q, j, hreached, hpassed, hj, hspells', rfl⟩
        rw [if_pos hspells, hfollow]
        rfl

/-! ### The first match that something comes of -/

variable {α : Type} {f : Match → Option α} {a : α}

/-- What comes of the matches of a pattern comes of the first one that anything comes of. -/
theorem findSome?_findAll_eq_some_iff :
    (s.findAll code pattern).findSome? f = some a ↔
      ∃ p, (s.matchHere? pattern (code.drop p) p).bind f = some a ∧
        ∀ p' < p, (s.matchHere? pattern (code.drop p') p').bind f = none := by
  have hordered := pairwise_findAllFrom s pattern code 0
  constructor
  · intro h
    obtain ⟨before, m, after, hsplit, hm, hbefore⟩ := List.findSome?_eq_some_iff.mp h
    rw [← findAll, hsplit, List.pairwise_append, List.pairwise_cons] at hordered
    have hmem : m ∈ s.findAll code pattern :=
      hsplit ▸ List.mem_append_right before List.mem_cons_self
    refine ⟨m.start, by rw [mem_findAll_iff.mp hmem, Option.bind_some, hm], fun p' hlt => ?_⟩
    rw [Option.bind_eq_none_iff]
    intro m' hm'
    obtain rfl := start_of_matchHere? hm'
    -- a match that begins before this one is among those that nothing came of
    have hmem' := hsplit ▸ mem_findAll_iff.mpr hm'
    rcases List.mem_append.mp hmem' with hearlier | hlater
    · exact hbefore m' hearlier
    · rcases List.mem_cons.mp hlater with rfl | hafter
      · exact absurd hlt (Nat.lt_irrefl _)
      · exact absurd hlt (Nat.lt_asymm (hordered.2.1.1 m' hafter))
  · rintro ⟨p, hmatch, hnone⟩
    obtain ⟨m, hm, hf⟩ := Option.bind_eq_some_iff.mp hmatch
    obtain rfl := start_of_matchHere? hm
    obtain ⟨before, after, hsplit⟩ := List.append_of_mem (mem_findAll_iff.mpr hm)
    rw [← findAll, hsplit, List.pairwise_append] at hordered
    refine List.findSome?_eq_some_iff.mpr ⟨before, m, after, hsplit, hf, fun m' hm' => ?_⟩
    have hmem' : m' ∈ s.findAll code pattern := hsplit ▸ List.mem_append_left _ hm'
    have hlt := hordered.2.2 m' hm' m List.mem_cons_self
    have hnothing := hnone m'.start hlt
    rwa [mem_findAll_iff.mp hmem', Option.bind_some] at hnothing

/-- Something comes of the matches of a pattern if anything comes of one of them. -/
theorem isSome_findSome?_findAll_iff :
    ((s.findAll code pattern).findSome? f).isSome = true ↔
      ∃ p a, (s.matchHere? pattern (code.drop p) p).bind f = some a := by
  rw [List.findSome?_isSome_iff]
  constructor
  · rintro ⟨m, hmem, hsome⟩
    obtain ⟨a, ha⟩ := Option.isSome_iff_exists.mp hsome
    refine ⟨m.start, a, ?_⟩
    rw [mem_findAll_iff.mp hmem, Option.bind_some, ha]
  · rintro ⟨p, a, ha⟩
    obtain ⟨m, hm, hf⟩ := Option.bind_eq_some_iff.mp ha
    obtain rfl := start_of_matchHere? hm
    exact ⟨m, mem_findAll_iff.mpr hm, Option.isSome_iff_exists.mpr ⟨a, hf⟩⟩

end ResolverRecovery.Scanner
