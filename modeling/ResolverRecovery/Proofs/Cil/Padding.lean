import ResolverRecovery.Cil.Scanner

/-!
# Scanning padded code

A scanner whose pattern has no filler in it finds in padded code what it finds in the code without
its filler: as many matches, in the same order, made up of the same instructions.  Only the
positions differ.

## Main definitions

* `Scanner.unpadded`: code without filler.
* `Scanner.Match.code`: the instructions that make up a match.

## Main statements

* `Scanner.findAll_unpadded`: the matches in code and in the code without its filler.
-/

namespace ResolverRecovery.Scanner

/-- The code without its filler. -/
def unpadded (s : Scanner) (code : List Instruction) : List Instruction :=
  code.filter fun i => !s.isFiller i.opcode

/-- The instructions that make up the match. -/
def Match.code (m : Match) : List Instruction := m.placed.map Placed.instruction

variable {s : Scanner} {i : Instruction}

theorem unpadded_cons_of_filler (h : s.isFiller i.opcode = true) (rest : List Instruction) :
    s.unpadded (i :: rest) = s.unpadded rest :=
  List.filter_cons_of_neg (by rw [h]; exact Bool.false_ne_true)

theorem unpadded_cons (h : s.isFiller i.opcode = false) (rest : List Instruction) :
    s.unpadded (i :: rest) = i :: s.unpadded rest :=
  List.filter_cons_of_pos (by rw [h]; rfl)

/-- Filler is none of the elements of a pattern without filler. -/
theorem opcode_ne_of_filler {op : Opcode} (hop : s.isFiller op = false)
    (h : s.isFiller i.opcode = true) : i.opcode ≠ op := by
  rintro rfl
  exact Bool.false_ne_true (hop.symm.trans h)

/-- The rest of a pattern is made up of the same instructions, wherever the stream begins. -/
theorem follow_unpadded {ops : List Opcode} (hops : ∀ op ∈ ops, s.isFiller op = false)
    (code : List Instruction) (p p' : Nat) :
    (s.follow ops (s.unpadded code) p').map (List.map Placed.instruction) =
      (s.follow ops code p).map (List.map Placed.instruction) := by
  -- an instruction of the code is taken, passed over or the end of the attempt
  induction code generalizing ops p p' with
  | nil => cases ops <;> rfl
  | cons i rest ih =>
      cases ops with
      | nil => simp only [follow, Option.map_some]
      | cons op ops =>
          have hop := hops op List.mem_cons_self
          have hrest : ∀ op ∈ ops, s.isFiller op = false :=
            fun op hmem => hops op (List.mem_cons_of_mem _ hmem)
          cases hfiller : s.isFiller i.opcode with
          | true =>
              rw [unpadded_cons_of_filler hfiller, ih hops (p + 1) p']
              simp only [follow, if_neg (opcode_ne_of_filler hop hfiller), hfiller, if_true]
          | false =>
              rw [unpadded_cons hfiller]
              simp only [follow, hfiller, Bool.false_eq_true, if_false]
              split
              · have htail := ih hrest (p + 1) (p' + 1)
                have hcons : ∀ q : Nat,
                    List.map Placed.instruction ∘ (Placed.mk q i :: ·) =
                      (i :: ·) ∘ List.map Placed.instruction := fun _ => rfl
                rw [Option.map_map, Option.map_map, hcons, hcons, ← Option.map_map,
                  ← Option.map_map, htail]
              · rfl

/-- A match at the first instruction is made up of the same instructions, if that one stays. -/
theorem matchHere?_unpadded {pattern : List Opcode}
    (hpattern : ∀ op ∈ pattern, s.isFiller op = false) (hi : s.isFiller i.opcode = false)
    (rest : List Instruction) (p p' : Nat) :
    (s.matchHere? pattern (s.unpadded (i :: rest)) p').map Match.code =
      (s.matchHere? pattern (i :: rest) p).map Match.code := by
  rw [unpadded_cons hi]
  cases pattern with
  | nil => rfl
  | cons op ops =>
      have hrest : ∀ op ∈ ops, s.isFiller op = false :=
        fun op hmem => hpattern op (List.mem_cons_of_mem _ hmem)
      have htail := congrArg (Option.map (i :: ·)) (follow_unpadded hrest rest (p + 1) (p' + 1))
      rw [Option.map_map, Option.map_map] at htail
      simp only [matchHere?]
      split
      · rw [Option.map_map, Option.map_map]
        exact htail
      · rfl

theorem findAllFrom_unpadded {pattern : List Opcode}
    (hpattern : ∀ op ∈ pattern, s.isFiller op = false) (code : List Instruction) (p p' : Nat) :
    (s.findAllFrom pattern (s.unpadded code) p').map Match.code =
      (s.findAllFrom pattern code p).map Match.code := by
  induction code generalizing p p' with
  | nil => rfl
  | cons i rest ih =>
      cases hfiller : s.isFiller i.opcode with
      | true =>
          -- no match begins with filler
          have hnone : s.matchHere? pattern (i :: rest) p = none := by
            cases pattern with
            | nil => rfl
            | cons op ops =>
                exact if_neg (opcode_ne_of_filler (hpattern op List.mem_cons_self) hfiller)
          rw [unpadded_cons_of_filler hfiller, ih (p + 1) p', findAllFrom, hnone]
          rfl
      | false =>
          have hhere := matchHere?_unpadded hpattern hfiller rest p p'
          have hlist := congrArg Option.toList hhere
          rw [unpadded_cons hfiller] at hlist ⊢
          simp only [Option.toList_map] at hlist
          simp only [findAllFrom, List.map_append]
          rw [hlist, ih (p + 1) (p' + 1)]

/-- In code there are the matches that there are without its filler. -/
theorem findAll_unpadded {pattern : List Opcode}
    (hpattern : ∀ op ∈ pattern, s.isFiller op = false) (code : List Instruction) :
    (s.findAll (s.unpadded code) pattern).map Match.code =
      (s.findAll code pattern).map Match.code :=
  findAllFrom_unpadded hpattern code 0 0

end ResolverRecovery.Scanner
