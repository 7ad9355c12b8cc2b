import Mathlib.Data.List.Forall2
import ResolverRecovery.Cil.Scanner

/-!
# What a scanner finds

A scanner takes every element of a pattern where it comes to it first, and never goes back.  Nothing
is lost by this, not even if elements of the pattern are filler themselves: between an element and
the one that another alignment takes in its place there is nothing but filler, so that all later
elements stay within reach.

## Main definitions

* `Scanner.Follows`: an alignment of the rest of a pattern, from a position on.
* `Scanner.Match.IsLeast`: a match is made up of the least alignment at its start.

## Main statements

* `Scanner.follows_of_follow`, `Scanner.exists_follow`: the rest of a pattern is found if and only
  if it can be aligned, and then at the least positions.
* `Scanner.findAll_leastAlignments`: the matches are the least alignments, one for each start.
-/

namespace ResolverRecovery.Scanner

variable {s : Scanner} {code rest : List Instruction} {i : Instruction} {op : Opcode}
  {ops pattern : List Opcode} {p start : Nat} {positions : List Nat}

/-! ### Alignments of the rest of a pattern -/

/-- The operations stand at the given positions in ascending order, and from position `p` on nothing
but filler is passed over on the way to each of them. -/
inductive Follows (s : Scanner) (code : List Instruction) : Nat → List Opcode → List Nat → Prop
  | nil (p : Nat) : Follows s code p [] []
  | cons {op : Opcode} {ops : List Opcode} {p after : Nat} {positions : List Nat} {i : Instruction}
      (reached : p ≤ after)
      (passed : ∀ k j, p ≤ k → k < after → code[k]? = some j → s.isFiller j.opcode = true)
      (here : code[after]? = some i) (spells : i.opcode = op)
      (rest : Follows s code (after + 1) ops positions) :
      Follows s code p (op :: ops) (after :: positions)

/-- If all that was passed over is filler, an alignment can be looked for earlier. -/
theorem Follows.of_le {p' : Nat} (h : s.Follows code p' ops positions) (hle : p ≤ p')
    (hfiller : ∀ k j, p ≤ k → k < p' → code[k]? = some j → s.isFiller j.opcode = true) :
    s.Follows code p ops positions := by
  cases h with
  | nil => exact .nil p
  | cons reached passed here spells rest =>
      refine .cons (Nat.le_trans hle reached) (fun k j hk hlt hj => ?_) here spells rest
      by_cases hbefore : k < p'
      · exact hfiller k j hk hbefore hj
      · exact passed k j (Nat.le_of_not_lt hbefore) hlt hj

/-- Filler may stand before an alignment. -/
theorem Follows.of_filler (h : s.Follows code (p + 1) ops positions) (hi : code[p]? = some i)
    (hfiller : s.isFiller i.opcode = true) : s.Follows code p ops positions := by
  refine h.of_le (Nat.le_succ p) fun k j hk hlt hj => ?_
  obtain rfl : k = p := by omega
  cases hi.symm.trans hj
  exact hfiller

/-- An alignment of a pattern is its first element, and an alignment of the rest behind that. -/
theorem alignment_cons_iff :
    Alignment s code (op :: ops) (p :: positions) ↔
      (∃ i, code[p]? = some i ∧ i.opcode = op) ∧ s.Follows code (p + 1) ops positions := by
  induction ops generalizing op p positions with
  | nil =>
      constructor
      · rintro (⟨here, spells⟩ | _)
        exact ⟨⟨_, here, spells⟩, .nil _⟩
      · rintro ⟨⟨i, here, spells⟩, hrest⟩
        cases hrest
        exact .single here spells
  | cons next ops ih =>
      constructor
      · rintro (_ | ⟨here, spells, before, between, rest⟩)
        obtain ⟨⟨j, hj, hnext⟩, hrest⟩ := ih.mp rest
        exact ⟨⟨_, here, spells⟩, .cons before (fun k j hk => between k j hk) hj hnext hrest⟩
      · rintro ⟨⟨i, here, spells⟩, hrest⟩
        cases hrest with
        | cons reached passed hj hnext rest =>
            exact .step here spells reached (fun k j hk => passed k j hk)
              (ih.mpr ⟨⟨_, hj, hnext⟩, rest⟩)

/-! ### Following a pattern -/

theorem getElem?_of_drop_eq_cons (h : code.drop p = i :: rest) : code[p]? = some i := by
  rw [← List.head?_drop, h, List.head?_cons]

theorem drop_succ_of_drop_eq_cons (h : code.drop p = i :: rest) : code.drop (p + 1) = rest := by
  rw [← List.drop_drop, h, List.drop_succ_cons, List.drop_zero]

/-- What is found for the rest of a pattern is an alignment of it, with the instructions that stand
there. -/
theorem follows_of_follow {placed : List Placed} (hdrop : code.drop p = rest)
    (h : s.follow ops rest p = some placed) :
    s.Follows code p ops (placed.map Placed.position) ∧
      ∀ x ∈ placed, code[x.position]? = some x.instruction := by
  -- an instruction of the code is taken, passed over or the end of the attempt
  induction rest generalizing ops p placed with
  | nil =>
      cases ops with
      | nil =>
          cases h
          exact ⟨.nil p, List.forall_mem_nil _⟩
      | cons op ops => cases h
  | cons i rest ih =>
      have hi := getElem?_of_drop_eq_cons hdrop
      have hnext := drop_succ_of_drop_eq_cons hdrop
      cases ops with
      | nil =>
          cases h
          exact ⟨.nil p, List.forall_mem_nil _⟩
      | cons op ops =>
          rw [follow] at h
          split at h
          · rename_i hspells
            obtain ⟨tail, htail, rfl⟩ := Option.map_eq_some_iff.mp h
            obtain ⟨hfollows, hplaced⟩ := ih hnext htail
            have hnone : ∀ k j, p ≤ k → k < p → code[k]? = some j →
                s.isFiller j.opcode = true :=
              fun k _ hk hlt => absurd hk (Nat.not_le_of_lt hlt)
            exact ⟨.cons (Nat.le_refl p) hnone hi hspells hfollows,
              List.forall_mem_cons.mpr ⟨hi, hplaced⟩⟩
          · split at h
            · rename_i hfiller
              obtain ⟨hfollows, hplaced⟩ := ih hnext h
              exact ⟨hfollows.of_filler hi hfiller, hplaced⟩
            · cases h

/-- If there is an alignment of the rest of a pattern, one is found, none of whose elements stands
behind that of the other. -/
theorem exists_follow (hdrop : code.drop p = rest) (h : s.Follows code p ops positions) :
    ∃ placed, s.follow ops rest p = some placed ∧
      List.Forall₂ (· ≤ ·) (placed.map Placed.position) positions := by
  induction rest generalizing ops p positions with
  | nil =>
      cases h with
      | nil => exact ⟨[], rfl, .nil⟩
      | cons reached passed here spells tail =>
          have hlength := List.drop_eq_nil_iff.mp hdrop
          have hlt := (List.getElem?_eq_some_iff.mp here).1
          omega
  | cons i rest ih =>
      have hi := getElem?_of_drop_eq_cons hdrop
      have hnext := drop_succ_of_drop_eq_cons hdrop
      cases h with
      | nil => exact ⟨[], rfl, .nil⟩
      | @cons op ops _ after positions j reached passed here spells tail =>
          rw [follow]
          by_cases htaken : i.opcode = op
          · -- the element is taken here: all up to where it stood before is filler, itself included
            have hfiller : ∀ k j', p + 1 ≤ k → k < after + 1 → code[k]? = some j' →
                s.isFiller j'.opcode = true := by
              intro k j' hk hlt hj'
              rcases Nat.eq_or_lt_of_le (Nat.le_of_lt_succ hlt) with rfl | hbefore
              · cases here.symm.trans hj'
                rw [spells, ← htaken]
                exact passed p i (Nat.le_refl p) (by omega) hi
              · exact passed k j' (by omega) hbefore hj'
            obtain ⟨placed, hfollow, hle⟩ := ih hnext (tail.of_le (by omega) hfiller)
            refine ⟨⟨p, i⟩ :: placed, ?_, .cons reached hle⟩
            rw [if_pos htaken, hfollow, Option.map_some]
          · -- another operation stands here, so that it was passed over
            have hpast : p < after := by
              rcases Nat.eq_or_lt_of_le reached with rfl | hpast
              · cases hi.symm.trans here
                exact absurd spells htaken
              · exact hpast
            have hfiller := passed p i (Nat.le_refl p) hpast hi
            rw [if_neg htaken, if_pos hfiller]
            exact ih hnext (.cons hpast (fun k j' hk => passed k j' (by omega)) here spells tail)

/-! ### Matches at a position -/

/-- The match is made up of the instructions at an alignment of the pattern, and of all alignments
that begin where it does this is the least one, element by element. -/
structure Match.IsLeast (s : Scanner) (code : List Instruction) (pattern : List Opcode)
    (m : Match) : Prop where
  placed : ∀ x ∈ m.placed, code[x.position]? = some x.instruction
  aligned : Alignment s code pattern (m.placed.map Placed.position)
  start : m.placed.head?.map Placed.position = some m.start
  stop : m.placed.getLast?.map (fun x => x.position + 1) = some m.stop
  least : ∀ positions, Alignment s code pattern (m.start :: positions) →
    List.Forall₂ (· ≤ ·) (m.placed.map Placed.position) (m.start :: positions)

/-- A match begins where it is looked for. -/
theorem start_of_matchHere? {m : Match} (h : s.matchHere? pattern rest p = some m) :
    m.start = p := by
  unfold matchHere? at h
  split at h
  · split at h
    · obtain ⟨placed, -, rfl⟩ := Option.map_eq_some_iff.mp h
      rfl
    · cases h
  · cases h

theorem isLeast_of_matchHere? {m : Match}
    (h : s.matchHere? pattern (code.drop p) p = some m) : m.IsLeast s code pattern := by
  unfold matchHere? at h
  split at h
  · rename_i op ops i rest hdrop
    split at h
    · rename_i hspells
      obtain ⟨placed, hfollow, rfl⟩ := Option.map_eq_some_iff.mp h
      have hi := getElem?_of_drop_eq_cons hdrop
      have hnext := drop_succ_of_drop_eq_cons hdrop
      obtain ⟨hfollows, hplaced⟩ := follows_of_follow hnext hfollow
      refine ⟨List.forall_mem_cons.mpr ⟨hi, hplaced⟩,
        alignment_cons_iff.mpr ⟨⟨i, hi, hspells⟩, hfollows⟩, rfl, ?_, fun positions hother => ?_⟩
      · rw [List.getLast?_cons]
        cases placed.getLast? <;> rfl
      · obtain ⟨least, hleast, hle⟩ := exists_follow hnext (alignment_cons_iff.mp hother).2
        cases hfollow.symm.trans hleast
        exact .cons (Nat.le_refl p) hle
    · cases h
  · cases h

/-- Where a pattern can be aligned there is a match. -/
theorem exists_matchHere? (h : Alignment s code pattern (p :: positions)) :
    ∃ m, s.matchHere? pattern (code.drop p) p = some m := by
  cases pattern with
  | nil => cases h
  | cons op ops =>
      obtain ⟨⟨i, hi, hspells⟩, hfollows⟩ := alignment_cons_iff.mp h
      obtain ⟨placed, hfollow, -⟩ := exists_follow rfl hfollows
      have hdrop : code.drop p = i :: code.drop (p + 1) := by
        obtain ⟨hlt, rfl⟩ := List.getElem?_eq_some_iff.mp hi
        exact List.drop_eq_getElem_cons hlt
      rw [hdrop]
      simp only [matchHere?, if_pos hspells, hfollow, Option.map_some]
      exact ⟨_, rfl⟩

/-! ### All matches -/

theorem mem_findAllFrom_iff {m : Match} (hdrop : code.drop p = rest) :
    m ∈ s.findAllFrom pattern rest p ↔
      p ≤ m.start ∧ s.matchHere? pattern (code.drop m.start) m.start = some m := by
  induction rest generalizing p with
  | nil =>
      rw [findAllFrom, List.mem_nil_iff, false_iff]
      rintro ⟨hle, hmatch⟩
      have hend : code.drop m.start = [] :=
        List.drop_eq_nil_iff.mpr (Nat.le_trans (List.drop_eq_nil_iff.mp hdrop) hle)
      rw [hend] at hmatch
      cases pattern <;> cases hmatch
  | cons i rest ih =>
      rw [findAllFrom, List.mem_append, Option.mem_toList, ih (drop_succ_of_drop_eq_cons hdrop),
        ← hdrop]
      constructor
      · rintro (hhere | ⟨hle, hmatch⟩)
        · obtain rfl := start_of_matchHere? hhere
          exact ⟨Nat.le_refl _, hhere⟩
        · exact ⟨Nat.le_of_succ_le hle, hmatch⟩
      · rintro ⟨hle, hmatch⟩
        rcases Nat.eq_or_lt_of_le hle with rfl | hlt
        · exact .inl hmatch
        · exact .inr ⟨hlt, hmatch⟩

/-- Every match is found where it begins. -/
theorem mem_findAll_iff {m : Match} :
    m ∈ s.findAll code pattern ↔ s.matchHere? pattern (code.drop m.start) m.start = some m := by
  have hdrop : code.drop 0 = code := List.drop_zero
  exact (mem_findAllFrom_iff hdrop).trans (and_iff_right (Nat.zero_le _))

theorem le_start_of_mem {m : Match} (h : m ∈ s.findAllFrom pattern rest p) : p ≤ m.start := by
  induction rest generalizing p with
  | nil => cases h
  | cons i rest ih =>
      rw [findAllFrom, List.mem_append, Option.mem_toList] at h
      rcases h with hhere | hlater
      · exact Nat.le_of_eq (start_of_matchHere? hhere).symm
      · exact Nat.le_of_succ_le (ih hlater)

/-- No two matches begin at the same position, and earlier ones come first. -/
theorem pairwise_findAllFrom (s : Scanner) (pattern : List Opcode) (rest : List Instruction)
    (p : Nat) : (s.findAllFrom pattern rest p).Pairwise fun m m' => m.start < m'.start := by
  induction rest generalizing p with
  | nil => exact .nil
  | cons i rest ih =>
      rw [findAllFrom]
      cases hhere : s.matchHere? pattern (i :: rest) p with
      | none => exact ih (p + 1)
      | some m =>
          refine .cons (fun m' hm' => ?_) (ih (p + 1))
          rw [start_of_matchHere? hhere]
          exact le_start_of_mem hm'

/-- The first match is the first of all. -/
theorem findFrom?_eq_head? (s : Scanner) (pattern : List Opcode) (rest : List Instruction)
    (p : Nat) : s.findFrom? pattern rest p = (s.findAllFrom pattern rest p).head? := by
  induction rest generalizing p with
  | nil => rfl
  | cons i rest ih =>
      rw [findFrom?, findAllFrom]
      cases s.matchHere? pattern (i :: rest) p with
      | none => exact ih (p + 1)
      | some m => rfl

/-- The first match that begins at `start` or later is the first of those that do. -/
theorem find?_findAllFrom (hdrop : code.drop p = rest) (hle : p ≤ start) :
    (s.findAllFrom pattern rest p).find? (fun m => decide (start ≤ m.start)) =
      s.findFrom? pattern (code.drop start) start := by
  induction rest generalizing p with
  | nil =>
      have hend : code.drop start = [] :=
        List.drop_eq_nil_iff.mpr (Nat.le_trans (List.drop_eq_nil_iff.mp hdrop) hle)
      rw [hend]
      rfl
  | cons i rest ih =>
      rcases Nat.eq_or_lt_of_le hle with rfl | hlt
      · -- all matches from here on begin late enough
        rw [findFrom?_eq_head?, hdrop]
        cases hall : s.findAllFrom pattern (i :: rest) p with
        | nil => rfl
        | cons m ms =>
            have hm : p ≤ m.start := le_start_of_mem (hall ▸ List.mem_cons_self)
            rw [List.find?_cons, decide_eq_true hm, List.head?_cons]
      · rw [findAllFrom, List.find?_append, ih (drop_succ_of_drop_eq_cons hdrop) hlt]
        cases hhere : s.matchHere? pattern (i :: rest) p with
        | none => rfl
        | some m =>
            have hm : ¬start ≤ m.start := by
              rw [start_of_matchHere? hhere]
              exact Nat.not_le_of_lt hlt
            rw [Option.toList_some, List.find?_singleton, if_neg (by simpa using hm),
              Option.none_or]

/-- The matches of a pattern are, by ascending start, the least alignments at the positions where it
can be aligned, and a search from a position on finds the first of those that begin there or
later. -/
theorem findAll_leastAlignments (s : Scanner) (code : List Instruction) (pattern : List Opcode) :
    ((s.findAll code pattern).map Match.start).Pairwise (· < ·) ∧
      (∀ start, start ∈ (s.findAll code pattern).map Match.start ↔
        ∃ positions, Alignment s code pattern (start :: positions)) ∧
      (∀ m ∈ s.findAll code pattern, m.IsLeast s code pattern) ∧
      ∀ start, s.find? code start pattern =
        (s.findAll code pattern).find? fun m => decide (start ≤ m.start) := by
  have hmem : ∀ m, m ∈ s.findAll code pattern ↔
      s.matchHere? pattern (code.drop m.start) m.start = some m := by
    intro m
    have hdrop : code.drop 0 = code := List.drop_zero
    exact (mem_findAllFrom_iff hdrop).trans (and_iff_right (Nat.zero_le _))
  refine ⟨List.pairwise_map.mpr (pairwise_findAllFrom s pattern code 0), fun start => ?_,
    fun m hm => isLeast_of_matchHere? ((hmem m).mp hm), fun start => ?_⟩
  · rw [List.mem_map]
    constructor
    · rintro ⟨m, hm, rfl⟩
      have hleast := isLeast_of_matchHere? ((hmem m).mp hm)
      obtain ⟨x, hx, hstart⟩ := Option.map_eq_some_iff.mp hleast.start
      obtain ⟨placed, hplaced⟩ := List.head?_eq_some_iff.mp hx
      have haligned := hleast.aligned
      rw [hplaced, List.map_cons, hstart] at haligned
      exact ⟨_, haligned⟩
    · rintro ⟨positions, haligned⟩
      obtain ⟨m, hm⟩ := exists_matchHere? haligned
      obtain rfl := start_of_matchHere? hm
      exact ⟨m, (hmem m).mpr hm, rfl⟩
  · exact (find?_findAllFrom rfl (Nat.zero_le start)).symm

/-- Filler that an element asks for is taken as that element where it comes first, and passed over
behind that. -/
example : ((⟨[.nop]⟩ : Scanner).findAll [⟨0, .nop, .none⟩, ⟨1, .nop, .none⟩, ⟨2, .ret, .none⟩]
    [.nop, .ret]).map (fun m => m.placed.map Placed.position) = [[0, 2], [1, 2]] := by
  decide

end ResolverRecovery.Scanner
