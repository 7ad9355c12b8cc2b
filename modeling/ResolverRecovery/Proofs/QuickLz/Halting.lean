import Mathlib.Logic.Function.Iterate
import ResolverRecovery.Proofs.QuickLz.Bounds

/-!
# How long decoding takes

The decoder goes around in loops: one over literals and matches, and within it one over the bytes of
a match, one over the positions that are entered into buckets, and one over the literals at the end
of the data.  That the outermost loop comes to an end is not plain to see.  A match of level 1 can
have length zero, so that nothing is written; a control word can be zero or lack the one above its
flags, so that it is never used up; and the cursor moves on past the end of the stream.

Here the loops are taken apart into single passes.  A pass knows nothing of how many are to follow,
and passes can be made as often as one likes.  They end all the same, with the answer of a run, and
after a number of passes that is linear in the size of the stream and the size of the data.

## Main definitions

* `Loop`, `Config`: where the decoder is in its loops.
* `Frame.pass`, `Frame.advance`: a single pass, and the same once the decoder has ended.
* `Frame.Steady`, `Frame.potential`: the invariant, and a bound on the passes that are left.
* `Frame.Leads`: some passes lead from here to there.

## Main statements

* `Frame.pass_descends`: a pass keeps the invariant and uses up some of the potential.
* `Frame.leads_run`: pass by pass the decoder comes to what a run comes to.
* `decoder_halts`: it does so after a number of passes that is known beforehand.
-/

namespace ResolverRecovery.Codec.QuickLz

/-- The loop of which a pass is to be made next. -/
inductive Loop where
  /-- Over literals and matches. -/
  | body
  /-- Over the bytes of a match, of which some have been copied. -/
  | copy (source length copied : Nat)
  /-- Over the positions up to `last` that are entered into buckets, behind a match or a literal. -/
  | enter (matched : Bool) (last : Nat)
  /-- Over the literals at the end of the data. -/
  | tail

/-- Where the decoder is in its loops. -/
structure Config where
  loop : Loop
  state : State

/-- The decoder is in one of its loops, or it has ended. -/
inductive Progress where
  | running (c : Config)
  | ended (result : EStateM.Result Fault State Unit)

@[simp] theorem State.entered_shift (s : State) : s.shift.entered = s.entered := rfl

namespace Frame

/-! ### Single passes -/

/-- The state when the positions behind a match or a literal have been entered. -/
def settled (f : Frame) (matched : Bool) (s : State) : State :=
  if matched then { s with entered := s.written, lookahead := f.peek s.cursor }
  else { s with lookahead := f.shiftedLookahead s }

/-- Begins with a match, unless something is wrong with it. -/
def matchPass (f : Frame) (s : State) : Progress :=
  match f.matchFault? s with
  | some fault => .ended (.error fault (f.pastMatch s))
  | none => .running ⟨.copy (f.matchSource s) (f.matchLength s) 0, f.pastMatch s⟩

/-- Goes on behind a literal of the body. -/
def literalPass (f : Frame) (s : State) : Progress :=
  if f.level = .one ∧ 3 ≤ s.written then .running ⟨.enter false (s.written - 3), s⟩
  else .running ⟨.body, f.settled false s⟩

/-- Takes a match, a literal or the literals at the end of the data. -/
def itemPass (f : Frame) (s : State) : Progress :=
  if s.control % 2 = 1 then
    f.matchPass s.shift
  else if f.inBody s then
    match f.literal s with
    | .error fault t => .ended (.error fault t)
    | .ok _ t => f.literalPass t.shift
  else
    .running ⟨.tail, s⟩

/-- Reads a control word if one is due, and then takes what comes next. -/
def bodyPass (f : Frame) (s : State) : Progress :=
  match f.refill s with
  | .error fault t => .ended (.error fault t)
  | .ok _ t => f.itemPass t

/-- Copies a byte of a match, unless all are copied. -/
def copyPass (f : Frame) (source length copied : Nat) (s : State) : Progress :=
  if copied < length then
    .running ⟨.copy source length (copied + 1), { s with
      output :=
        s.output.setIfInBounds (s.written + copied) (s.output.getD (source + copied) 0) }⟩
  else
    let t := { s with written := s.written + length }
    match f.level with
    | .one => .running ⟨.enter true s.written, t⟩
    | .three => .running ⟨.body, { t with lookahead := f.peek t.cursor }⟩

/-- Enters a position, unless all are entered. -/
def enterPass (f : Frame) (matched : Bool) (last : Nat) (s : State) : Progress :=
  if s.entered ≤ last then .running ⟨.enter matched last, s.enter 1⟩
  else .running ⟨.body, f.settled matched s⟩

/-- Writes a literal at the end of the data, unless all are written. -/
def tailPass (f : Frame) (s : State) : Progress :=
  if s.written < f.size then
    match f.literal s.passControl with
    | .error fault t => .ended (.error fault t)
    | .ok _ t => .running ⟨.tail, t.shift⟩
  else
    .ended (.ok () s)

/-- A single pass of the loop that the decoder is in. -/
def pass (f : Frame) (c : Config) : Progress :=
  match c.loop with
  | .body => f.bodyPass c.state
  | .copy source length copied => f.copyPass source length copied c.state
  | .enter matched last => f.enterPass matched last c.state
  | .tail => f.tailPass c.state

/-- A single pass, unless the decoder has ended. -/
def advance (f : Frame) : Progress → Progress
  | .running c => f.pass c
  | .ended result => .ended result

variable {f : Frame} {s t u : State}

theorem iterate_advance_ended (f : Frame) (n : Nat) (result : EStateM.Result Fault State Unit) :
    f.advance^[n] (.ended result) = .ended result :=
  Function.iterate_fixed rfl n

/-- The decoder ends in one way at most. -/
theorem ended_unique {p : Progress} {m n : Nat} {result result' : EStateM.Result Fault State Unit}
    (h : f.advance^[m] p = .ended result) (h' : f.advance^[n] p = .ended result') :
    result = result' := by
  have hlater : f.advance^[n + m] p = .ended result := by
    rw [Function.iterate_add_apply, h, iterate_advance_ended]
  have hlater' : f.advance^[m + n] p = .ended result' := by
    rw [Function.iterate_add_apply, h', iterate_advance_ended]
  rw [Nat.add_comm, hlater'] at hlater
  injection hlater with hsame
  exact hsame.symm

/-! ### A pass uses up some of the potential -/

/-- Behind the write position is room, and no position behind it has been entered. -/
def Steady (f : Frame) (c : Config) : Prop :=
  match c.loop with
  | .body => c.state.entered ≤ c.state.written ∧ c.state.written ≤ f.size
  | .copy _ length copied =>
    copied ≤ length ∧ c.state.entered ≤ c.state.written ∧ c.state.written + length ≤ f.size
  | .enter matched last =>
    last < c.state.written + matched.toNat ∧
      c.state.entered ≤ c.state.written + matched.toNat ∧ c.state.written ≤ f.size
  | .tail => True

/-- A bound on the number of passes that are left.  Bytes to be written and positions to be entered
take a pass each.  A bit of the budget pays for the pass that uses it up, for one or two passes that
end a loop, and for a position that is entered twice because the match behind it is empty. -/
def potential (f : Frame) (c : Config) : Nat :=
  let ahead := 4 * f.budget c.state + (f.size + 1 - c.state.entered)
  match c.loop with
  | .body => ahead + (f.size - c.state.written) + 2
  | .copy _ _ copied => ahead + (f.size - (c.state.written + copied)) + 5
  | .enter _ _ => ahead + (f.size - c.state.written) + 4
  | .tail => f.size - c.state.written + 1

theorem entered_of_refill {a : Unit} (h : f.refill s = .ok a t) : t.entered = s.entered := by
  rcases refill_eq_ok h with ⟨-, rfl⟩ | ⟨-, -, rfl⟩ <;> rfl

/-- What a pass leads to is steady, and its potential is smaller. -/
def Descends (f : Frame) (c : Config) (p : Progress) : Prop :=
  ∀ c', p = .running c' → f.Steady c' ∧ f.potential c' < f.potential c

/-- A bit of the control word is used up by a match. -/
theorem matchPass_descends {a : Unit} (hsteady : f.Steady ⟨.body, s⟩)
    (hrefill : f.refill s = .ok a t) (hodd : t.control % 2 = 1) :
    f.Descends ⟨.body, s⟩ (f.matchPass t.shift) := by
  intro c' hpass
  change s.entered ≤ s.written ∧ s.written ≤ f.size at hsteady
  have hwritten := written_of_refill hrefill
  have hentered := entered_of_refill hrefill
  unfold matchPass at hpass
  split at hpass
  · cases hpass
  · rename_i hfault
    cases hpass
    have hroom := (matchFault?_eq_none hfault).2
    have hbudget : f.budget (f.pastMatch t.shift) < f.budget s :=
      budget_lt hrefill (Nat.le_add_right _ _) rfl (.inl hodd)
    simp only [Steady, potential, pastMatch, State.written_shift, State.entered_shift] at *
    omega

/-- A bit of the control word is used up by a literal. -/
theorem literalPass_descends {a b : Unit} (hsteady : f.Steady ⟨.body, s⟩)
    (hrefill : f.refill s = .ok a t) (hbody : f.inBody t = true)
    (hliteral : f.literal t = .ok b u) : f.Descends ⟨.body, s⟩ (f.literalPass u.shift) := by
  intro c' hpass
  change s.entered ≤ s.written ∧ s.written ≤ f.size at hsteady
  have hwritten := written_of_refill hrefill
  have hentered := entered_of_refill hrefill
  obtain ⟨hlt, -, hu⟩ := literal_eq_ok hliteral
  have hnext : u.written = t.written + 1 := by rw [hu, State.write]
  have hsame : u.entered = t.entered := by rw [hu, State.write]
  have hbudget : f.budget u.shift < f.budget s := by
    rw [hu]
    exact budget_lt hrefill (Nat.le_succ _) rfl (.inr ⟨Nat.lt_succ_self _, hlt⟩)
  have hroom : t.written + tailLength ≤ f.size := decide_eq_true_iff.mp hbody
  rw [tailLength] at hroom
  unfold literalPass at hpass
  split at hpass
  · cases hpass
    simp only [Steady, potential, State.written_shift, State.entered_shift, Bool.toNat_false]
    omega
  · cases hpass
    -- the look-ahead is of no concern
    change f.Steady ⟨.body, u.shift⟩ ∧ f.potential ⟨.body, u.shift⟩ < _
    simp only [Steady, potential, State.written_shift, State.entered_shift]
    omega

theorem bodyPass_descends (h : f.Steady ⟨.body, s⟩) : f.Descends ⟨.body, s⟩ (f.bodyPass s) := by
  unfold bodyPass
  cases hrefill : f.refill s with
  | error fault t => exact fun c' hpass => nomatch hpass
  | ok a t =>
      dsimp only
      unfold itemPass
      split
      · rename_i hodd
        exact matchPass_descends h hrefill hodd
      · split
        · rename_i hbody
          cases hliteral : f.literal t with
          | error fault u => exact fun c' hpass => nomatch hpass
          | ok b u => exact literalPass_descends h hrefill hbody hliteral
        · intro c' hpass
          cases hpass
          have hwritten := written_of_refill hrefill
          refine ⟨trivial, ?_⟩
          simp only [potential, hwritten]
          omega

theorem copyPass_descends {source length copied : Nat}
    (h : f.Steady ⟨.copy source length copied, s⟩) :
    f.Descends ⟨.copy source length copied, s⟩ (f.copyPass source length copied s) := by
  intro c' hpass
  change copied ≤ length ∧ s.entered ≤ s.written ∧ s.written + length ≤ f.size at h
  unfold copyPass at hpass
  split at hpass
  · cases hpass
    simp only [Steady, potential, budget]
    omega
  · split at hpass
    all_goals
      cases hpass
      simp only [Steady, potential, budget, Bool.toNat_true]
      omega

theorem enterPass_descends {matched : Bool} {last : Nat} (h : f.Steady ⟨.enter matched last, s⟩) :
    f.Descends ⟨.enter matched last, s⟩ (f.enterPass matched last s) := by
  intro c' hpass
  change last < s.written + matched.toNat ∧ s.entered ≤ s.written + matched.toNat ∧
    s.written ≤ f.size at h
  unfold enterPass at hpass
  split at hpass
  · cases hpass
    have hextra := Bool.toNat_le matched
    simp only [Steady, potential, budget, State.enter]
    omega
  · cases hpass
    cases matched with
    | false =>
        simp only [Steady, potential, budget, settled, Bool.toNat_false, Bool.false_eq_true,
          if_false] at h ⊢
        omega
    | true =>
        simp only [Steady, potential, budget, settled, Bool.toNat_true, if_true] at h ⊢
        omega

theorem tailPass_descends : f.Descends ⟨.tail, s⟩ (f.tailPass s) := by
  intro c' hpass
  unfold tailPass at hpass
  split at hpass
  · split at hpass
    · cases hpass
    · rename_i u hliteral
      have hnext := written_of_literal hliteral
      rw [State.written_passControl] at hnext
      cases hpass
      refine ⟨trivial, ?_⟩
      simp only [potential, State.shift]
      omega
  · cases hpass

/-- A pass keeps the decoder steady and uses up some of its potential. -/
theorem pass_descends {c : Config} (h : f.Steady c) : f.Descends c (f.pass c) := by
  obtain ⟨loop, s⟩ := c
  cases loop with
  | body => exact bodyPass_descends h
  | copy source length copied => exact copyPass_descends h
  | enter matched last => exact enterPass_descends h
  | tail => exact tailPass_descends

theorem potential_pos (f : Frame) (c : Config) : 0 < f.potential c := by
  obtain ⟨loop, s⟩ := c
  cases loop <;> exact Nat.succ_pos _

/-- The decoder ends before its potential is used up. -/
theorem exists_ended {c : Config} (h : f.Steady c) :
    ∃ n ≤ f.potential c, ∃ result, f.advance^[n] (.running c) = .ended result := by
  induction hpotential : f.potential c using Nat.strongRecOn generalizing c with
  | _ p ih =>
      subst hpotential
      cases hpass : f.pass c with
      | ended result => exact ⟨1, f.potential_pos c, result, hpass⟩
      | running c' =>
          obtain ⟨hsteady, hless⟩ := pass_descends h c' hpass
          obtain ⟨n, hn, result, hend⟩ := ih _ hless hsteady rfl
          refine ⟨n + 1, by omega, result, ?_⟩
          rw [Function.iterate_succ_apply, advance, hpass, hend]

/-! ### What the passes come to -/

/-- Some passes lead from one progress to the other. -/
def Leads (f : Frame) (p q : Progress) : Prop := ∃ n, f.advance^[n] p = q

namespace Leads

variable {p q r : Progress} {c c' : Config}

theorem refl (f : Frame) (p : Progress) : f.Leads p p := ⟨0, rfl⟩

theorem trans (h : f.Leads p q) (h' : f.Leads q r) : f.Leads p r := by
  obtain ⟨m, rfl⟩ := h
  obtain ⟨n, rfl⟩ := h'
  exact ⟨n + m, Function.iterate_add_apply _ _ _ _⟩

theorem of_pass (h : f.pass c = p) : f.Leads (.running c) p := ⟨1, h⟩

end Leads

/-- The loop over the bytes of a match copies what is left of it. -/
theorem leads_copy {source length copied : Nat} (hcopied : copied ≤ length) :
    f.Leads (.running ⟨.copy source length copied, s⟩)
      (.running ⟨.copy source length length, { s with
        output :=
          copyForward (length - copied) (source + copied) (s.written + copied) s.output }⟩) := by
  induction hleft : length - copied generalizing copied s with
  | zero =>
      obtain rfl : copied = length := by omega
      exact .refl f _
  | succ n ih =>
      have hpass : f.pass ⟨.copy source length copied, s⟩ =
          .running ⟨.copy source length (copied + 1), { s with
            output :=
              s.output.setIfInBounds (s.written + copied) (s.output.getD (source + copied) 0) }⟩ :=
        if_pos (by omega)
      exact (Leads.of_pass hpass).trans (ih (by omega) (by omega))

/-- The loop over the positions up to `last` enters all of them. -/
theorem leads_enter (matched : Bool) (last : Nat) :
    f.Leads (.running ⟨.enter matched last, s⟩)
      (.running ⟨.body, f.settled matched (s.enterThrough last)⟩) := by
  rw [State.enterThrough]
  induction hleft : last + 1 - s.entered generalizing s with
  | zero =>
      have hdone : ¬s.entered ≤ last := by omega
      exact .of_pass (if_neg hdone)
  | succ n ih =>
      have hdue : s.entered ≤ last := by omega
      have hpass : f.pass ⟨.enter matched last, s⟩ = .running ⟨.enter matched last, s.enter 1⟩ :=
        if_pos hdue
      have hless : last + 1 - (s.enter 1).entered = n := by
        simp only [State.enter]
        omega
      exact (Leads.of_pass hpass).trans (ih hless)

/-- The loop at the end of the data comes to what is said of the literals that are left. -/
theorem leads_tail :
    f.Leads (.running ⟨.tail, s⟩) (.ended (f.literals (f.size - s.written) s)) := by
  induction hleft : f.size - s.written generalizing s with
  | zero =>
      have hdone : ¬s.written < f.size := by omega
      exact .of_pass (if_neg hdone)
  | succ n ih =>
      have hdue : s.written < f.size := by omega
      have hpass : f.pass ⟨.tail, s⟩ =
          match f.literal s.passControl with
          | .error fault t => .ended (.error fault t)
          | .ok _ t => .running ⟨.tail, t.shift⟩ := if_pos hdue
      rw [literals_succ]
      cases hliteral : f.literal s.passControl with
      | error fault t =>
          rw [hliteral] at hpass
          exact .of_pass hpass
      | ok _ t =>
          rw [hliteral] at hpass
          have hnext := written_of_literal hliteral
          rw [State.written_passControl] at hnext
          have hless : f.size - t.shift.written = n := by
            rw [State.written_shift]
            omega
          exact (Leads.of_pass hpass).trans (ih hless)

/-- A match that is copied is followed by another pass over literals and matches. -/
theorem leads_copied :
    f.Leads (.running ⟨.copy (f.matchSource s) (f.matchLength s) 0, f.pastMatch s⟩)
      (.running ⟨.body, { f.afterMatch s with lookahead := f.peek (f.afterMatch s).cursor }⟩) := by
  refine (leads_copy (Nat.zero_le _)).trans ?_
  have hcopied : ¬f.matchLength s < f.matchLength s := Nat.lt_irrefl _
  have hpass : f.pass ⟨.copy (f.matchSource s) (f.matchLength s) (f.matchLength s),
      { f.pastMatch s with output := (f.copied s).output }⟩ =
        match f.level with
        | .one => .running ⟨.enter true s.written, f.copied s⟩
        | .three => .running ⟨.body, { f.copied s with lookahead := f.peek (f.copied s).cursor }⟩ :=
    if_neg hcopied
  cases hlevel : f.level with
  | one =>
      rw [hlevel] at hpass
      refine (Leads.of_pass hpass).trans ((leads_enter true s.written).trans ?_)
      have hsettled : f.settled true ((f.copied s).enterThrough s.written) =
          { f.afterMatch s with lookahead := f.peek (f.afterMatch s).cursor } := by
        simp only [settled, afterMatch, hlevel, if_true, State.enterThrough, State.written_enter,
          State.cursor_enter]
        rfl
      rw [hsettled]
      exact .refl f _
  | three =>
      rw [hlevel] at hpass
      refine (Leads.of_pass hpass).trans ?_
      rw [afterMatch, hlevel]
      exact .refl f _

/-- Behind a literal of the body another pass over literals and matches follows. -/
theorem leads_literalPass :
    f.Leads (f.literalPass s) (.running ⟨.body, f.afterLiteral s⟩) := by
  unfold literalPass afterLiteral
  by_cases hdue : f.level = .one ∧ 3 ≤ s.written
  · rw [if_pos hdue, if_pos hdue]
    exact leads_enter false (s.written - 3)
  · rw [if_neg hdue, if_neg hdue]
    exact .refl f _

/-- What the progress of the decoder is when a step has ended. -/
def Progress.ofStep : EStateM.Result Fault State Bool → Progress
  | .error fault t => .ended (.error fault t)
  | .ok true t => .ended (.ok () t)
  | .ok false t => .running ⟨.body, t⟩

/-- A step is some passes. -/
theorem leads_step (f : Frame) (s : State) :
    f.Leads (.running ⟨.body, s⟩) (Progress.ofStep (f.step s)) := by
  rw [step_eq]
  cases hrefill : f.refill s with
  | error fault t =>
      have hpass : f.pass ⟨.body, s⟩ = .ended (.error fault t) := by
        show f.bodyPass s = _
        rw [bodyPass, hrefill]
      exact .of_pass hpass
  | ok _ t =>
      have hpass : f.pass ⟨.body, s⟩ = f.itemPass t := by
        show f.bodyPass s = _
        rw [bodyPass, hrefill]
      refine (Leads.of_pass hpass).trans ?_
      unfold itemPass
      dsimp only [andThen]
      by_cases hodd : t.control % 2 = 1
      · rw [if_pos hodd, if_pos hodd, copyMatch_eq, matchPass]
        cases f.matchFault? t.shift with
        | some fault => exact .refl f _
        | none => exact leads_copied
      · rw [if_neg hodd, if_neg hodd]
        by_cases hbody : f.inBody t
        · rw [if_pos hbody, if_pos hbody]
          cases f.literal t with
          | error fault u => exact .refl f _
          | ok _ u => exact leads_literalPass
        · rw [if_neg hbody, if_neg hbody]
          refine leads_tail.trans ?_
          cases f.literals (f.size - t.written) t with
          | error fault u => exact .refl f _
          | ok _ u => exact .refl f _

/-- A run is some passes. -/
theorem leads_run (f : Frame) (s : State) :
    f.Leads (.running ⟨.body, s⟩) (.ended (f.run s)) := by
  have hstep := leads_step f s
  fun_induction f.run s with
  | case1 s fault t heq =>
      rw [heq] at hstep
      exact hstep
  | case2 s t heq =>
      rw [heq] at hstep
      exact hstep
  | case3 s t heq ih =>
      rw [heq] at hstep
      exact hstep.trans (ih (leads_step f t))

/-- From any state with room behind its write position and with no position behind it entered, the
decoder ends with the answer of a run before the potential is used up. -/
theorem run_halts_of_steady (h : f.Steady ⟨.body, s⟩) :
    ∃ n ≤ f.potential ⟨.body, s⟩,
      f.advance^[n] (.running ⟨.body, s⟩) = .ended (f.run s) := by
  obtain ⟨n, hn, result, hend⟩ := exists_ended h
  obtain ⟨m, hrun⟩ := leads_run f s
  rw [ended_unique hrun hend]
  exact ⟨n, hn, hend⟩

end Frame

/-- Whatever the stream and whatever size is announced, the decoder ends, with the answer of a run,
after a number of passes through its loops that is linear in the two sizes. -/
theorem decoder_halts (h : Header) (level : Level) (data : List UInt8) :
    ∃ n ≤ 132 * (data.length - h.length) + 2 * h.dataSize + 3,
      (h.frame level data).advance^[n]
          (.running ⟨.body, (h.frame level data).start h.length⟩) =
        .ended ((h.frame level data).run ((h.frame level data).start h.length)) := by
  have hsteady : (h.frame level data).Steady ⟨.body, (h.frame level data).start h.length⟩ :=
    ⟨Nat.le_refl _, Nat.zero_le _⟩
  obtain ⟨n, hn, hend⟩ := Frame.run_halts_of_steady hsteady
  have hbudget : (h.frame level data).budget ((h.frame level data).start h.length) =
      33 * (data.length - h.length) := rfl
  have hpotential : (h.frame level data).potential ⟨.body, (h.frame level data).start h.length⟩ =
      4 * (33 * (data.length - h.length)) + (h.dataSize + 1 - 0) + (h.dataSize - 0) + 2 := by
    rw [← hbudget]
    rfl
  exact ⟨n, by omega, hend⟩

end ResolverRecovery.Codec.QuickLz
