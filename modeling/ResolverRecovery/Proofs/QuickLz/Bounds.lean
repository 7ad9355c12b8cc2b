import ResolverRecovery.Proofs.QuickLz.Decoding

/-!
# Where the decoder writes and copies

Whatever the stream, the decoder stays within its output: the write position never passes the size
that was announced, no bucket holds a position behind the write position, and a match is copied from
before the write position to where there is room for it.  A match of level 1 can be so short that
its own start is entered before it is written; the buckets then hold the write position itself, from
which nothing is copied.

## Main definitions

* `andThen`, `Ends`: one part of the decoding after the other, and a property of the state in which
  a part ends.
* `State.InBounds`: the invariant.
* `Frame.Reaches`: the states that steps lead to.
* `Frame.matchSource`, `Frame.matchLength`: what the match at the cursor asks for.

## Main statements

* `Frame.copyMatch_cases`: a match is refused or copied as it asks for.
* `Frame.step_inBounds`, `Frame.Reaches.inBounds`, `Frame.run_inBounds`: the invariant is kept by a
  step and a run.
* `Frame.written_of_run`: a run without a fault writes all that was announced.
-/

namespace ResolverRecovery.Codec.QuickLz

/-! ### One part after the other -/

/-- A part of the decoding has ended, and is followed by another unless there was a fault. -/
def andThen {α β : Type} (first : EStateM.Result Fault State α)
    (second : State → EStateM.Result Fault State β) : EStateM.Result Fault State β :=
  match first with
  | .error fault s => .error fault s
  | .ok _ s => second s

theorem andThen_eq_ok_iff {α β : Type} {first : EStateM.Result Fault State α}
    {second : State → EStateM.Result Fault State β} {b : β} {t : State} :
    andThen first second = .ok b t ↔ ∃ a s, first = .ok a s ∧ second s = .ok b t := by
  cases first with
  | error fault s =>
      constructor
      · intro h
        cases h
      · rintro ⟨a, v, ⟨⟩, -⟩
  | ok a s =>
      constructor
      · intro h
        exact ⟨a, s, rfl, h⟩
      · rintro ⟨_, _, ⟨⟩, h⟩
        exact h

/-- The state in which a part of the decoding ends has the property, with a fault or without. -/
def Ends {α : Type} (P : State → Prop) : EStateM.Result Fault State α → Prop
  | .ok _ s => P s
  | .error _ s => P s

theorem Ends.of_eq_ok {α : Type} {P : State → Prop} {result : EStateM.Result Fault State α} {a : α}
    {s : State} (h : Ends P result) (hok : result = .ok a s) : P s := by
  rw [hok] at h
  exact h

theorem Ends.imp {α : Type} {P Q : State → Prop} {result : EStateM.Result Fault State α}
    (h : Ends P result) (himp : ∀ s, P s → Q s) : Ends Q result := by
  cases result with
  | error fault s => exact himp s h
  | ok a s => exact himp s h

theorem Ends.andThen {α β : Type} {P : State → Prop} {first : EStateM.Result Fault State α}
    {second : State → EStateM.Result Fault State β} (hfirst : Ends P first)
    (hsecond : ∀ s, P s → Ends P (second s)) : Ends P (andThen first second) := by
  cases first with
  | error fault s => exact hfirst
  | ok _ s => exact hsecond s hfirst

/-- The state behind a control word that is passed over, if one is due. -/
def State.passControl (s : State) : State :=
  if s.control = 1 then
    { s with cursor := s.cursor + controlLength, control := literalControl }
  else s

@[simp] theorem State.written_passControl (s : State) : s.passControl.written = s.written := by
  unfold passControl
  split <;> rfl

@[simp] theorem State.output_passControl (s : State) : s.passControl.output = s.output := by
  unfold passControl
  split <;> rfl

@[simp] theorem State.buckets_passControl (s : State) : s.passControl.buckets = s.buckets := by
  unfold passControl
  split <;> rfl

theorem State.cursor_le_cursor_passControl (s : State) : s.cursor ≤ s.passControl.cursor := by
  unfold passControl
  split
  · exact Nat.le_add_right _ _
  · exact Nat.le_refl _

@[simp] theorem State.written_shift (s : State) : s.shift.written = s.written := rfl

@[simp] theorem State.output_shift (s : State) : s.shift.output = s.output := rfl

namespace Frame

theorem literals_succ (f : Frame) (n : Nat) (s : State) :
    f.literals (n + 1) s =
      andThen (f.literal s.passControl) fun t => f.literals n t.shift := by
  rw [literals, State.passControl]
  split <;> rename_i h <;> simp only [h] <;> rfl

theorem step_eq (f : Frame) (s : State) :
    f.step s = andThen (f.refill s) fun t =>
      if t.control % 2 = 1 then
        andThen (f.copyMatch t.shift) fun u => .ok false { u with lookahead := f.peek u.cursor }
      else if f.inBody t then
        andThen (f.literal t) fun u => .ok false (f.afterLiteral u.shift)
      else
        andThen (f.literals (f.size - t.written) t) fun u => .ok true u := by
  unfold step
  cases f.refill s with
  | error fault t => rfl
  | ok _ t =>
      dsimp only [andThen]
      congr 1
      · cases f.copyMatch t.shift <;> rfl
      · congr 1
        · cases f.literal t <;> rfl
        · cases f.literals (f.size - t.written) t <;> rfl

end Frame

/-! ### The invariant -/

namespace State

/-- The decoder stays within its output and its buckets. -/
structure InBounds (f : Frame) (s : State) : Prop where
  written_le : s.written ≤ f.size
  /-- The output has its final size. -/
  size_output : s.output.size = f.size
  /-- There is a place for every bucket. -/
  size_buckets : s.buckets.size = bucketCount
  /-- No bucket holds a position behind the write position. -/
  bucket_le : ∀ p ∈ s.buckets, p ≤ s.written

namespace InBounds

variable {f : Frame} {s t : State}

theorem start (f : Frame) (cursor : Nat) : (f.start cursor).InBounds f where
  written_le := Nat.zero_le f.size
  size_output := Array.size_replicate
  size_buckets := Array.size_replicate
  bucket_le _ hp := Nat.le_of_eq (Array.eq_of_mem_replicate hp)

/-- Cursor, control word and look-ahead are of no concern. -/
theorem congr (h : s.InBounds f) (hwritten : t.written = s.written) (houtput : t.output = s.output)
    (hbuckets : t.buckets = s.buckets) : t.InBounds f where
  written_le := hwritten ▸ h.written_le
  size_output := houtput ▸ h.size_output
  size_buckets := hbuckets ▸ h.size_buckets
  bucket_le := by
    rw [hwritten, hbuckets]
    exact h.bucket_le

/-- More is written, within the output. -/
theorem extend (h : s.InBounds f) (hwritten : s.written ≤ t.written) (hsize : t.written ≤ f.size)
    (houtput : t.output.size = s.output.size) (hbuckets : t.buckets = s.buckets) :
    t.InBounds f where
  written_le := hsize
  size_output := houtput.trans h.size_output
  size_buckets := hbuckets ▸ h.size_buckets
  bucket_le p hp := Nat.le_trans (h.bucket_le p (hbuckets ▸ hp)) hwritten

/-- Positions can be entered as far as the write position. -/
theorem enter (h : s.InBounds f) (n : Nat)
    (hlast : ∀ p, s.entered ≤ p → p < s.entered + n → p ≤ s.written) : (s.enter n).InBounds f := by
  induction n generalizing s with
  | zero => exact h
  | succ n ih =>
      rw [State.enter]
      refine ih ⟨h.written_le, h.size_output, ?_, fun p hp => ?_⟩ fun p hge hlt => ?_
      · rw [Array.size_setIfInBounds, h.size_buckets]
      · rcases Array.mem_or_eq_of_mem_setIfInBounds hp with hold | rfl
        · exact h.bucket_le p hold
        · exact hlast _ (Nat.le_refl _) (by omega)
      · simp only at hge hlt
        exact hlast p (by omega) (by omega)

theorem enterThrough (h : s.InBounds f) {last : Nat} (hlast : last ≤ s.written) :
    (s.enterThrough last).InBounds f :=
  h.enter _ fun p hge hlt => by omega

end InBounds

end State

namespace Frame

variable {f : Frame} {s t : State}

/-! ### What a match asks for -/

/-- The number of bytes of the stream that the match takes. -/
def matchSize (f : Frame) (s : State) : Nat :=
  match f.level with
  | .one => if s.lookahead % 16 ≠ 0 then 2 else 3
  | .three => (Form.ofWord s.lookahead).size

/-- The number of bytes that the match stands for. -/
def matchLength (f : Frame) (s : State) : Nat :=
  match f.level with
  | .one => if s.lookahead % 16 ≠ 0 then s.lookahead % 16 + 2 else f.byte (s.cursor + 2)
  | .three => (Form.ofWord s.lookahead).length s.lookahead

/-- The position of the output from which the match copies. -/
def matchSource (f : Frame) (s : State) : Nat :=
  match f.level with
  | .one => s.buckets.getD (s.lookahead / 16 % bucketCount) 0
  | .three => s.written - (Form.ofWord s.lookahead).offset s.lookahead

/-- The state behind the bytes of the match. -/
def pastMatch (f : Frame) (s : State) : State := { s with cursor := s.cursor + f.matchSize s }

/-- The state when the match has been copied. -/
def copied (f : Frame) (s : State) : State :=
  { f.pastMatch s with
    output := copyForward (f.matchLength s) (f.matchSource s) s.written s.output
    written := s.written + f.matchLength s }

/-- The state behind the match.  At level 1 every position up to its start is entered, and those
within it are passed over. -/
def afterMatch (f : Frame) (s : State) : State :=
  match f.level with
  | .one => { (f.copied s).enterThrough s.written with entered := s.written + f.matchLength s }
  | .three => f.copied s

/-- At level 1 it is all left to the copy. -/
theorem copyMatch_of_one (hlevel : f.level = .one) :
    f.copyMatch s =
      andThen (f.copyWithin (f.matchSource s) (f.matchLength s) (f.pastMatch s)) fun t =>
        .ok () { t.enterThrough (t.written - f.matchLength s) with entered := t.written } := by
  simp only [copyMatch, bucketMatch, matchSource, matchLength, pastMatch, matchSize, hlevel,
    andThen]
  generalize f.copyWithin _ _ _ = copy
  cases copy <;> rfl

/-- At level 3 the distance is looked at before the copy. -/
theorem copyMatch_of_three (hlevel : f.level = .three) :
    f.copyMatch s =
      if (Form.ofWord s.lookahead).offset s.lookahead = 0 ∨
          s.written < (Form.ofWord s.lookahead).offset s.lookahead then
        .error (.badOffset ((Form.ofWord s.lookahead).offset s.lookahead) s.written) (f.pastMatch s)
      else
        f.copyWithin (f.matchSource s) (f.matchLength s) (f.pastMatch s) := by
  simp only [copyMatch, offsetMatch, matchSource, matchLength, pastMatch, matchSize, hlevel]

/-- What is wrong with the range of the match: there is nothing to copy from, or no room to copy
to. -/
def rangeFault? (f : Frame) (s : State) : Option Fault :=
  if s.written ≤ f.matchSource s ∨ f.size < s.written + f.matchLength s then
    some (.copyOutOfRange (f.matchLength s) s.written)
  else
    none

/-- What is wrong with the match.  At level 3 its distance is looked at first. -/
def matchFault? (f : Frame) (s : State) : Option Fault :=
  match f.level with
  | .one => f.rangeFault? s
  | .three =>
    let offset := (Form.ofWord s.lookahead).offset s.lookahead
    if offset = 0 ∨ s.written < offset then some (.badOffset offset s.written)
    else f.rangeFault? s

theorem rangeFault?_eq_none (h : f.rangeFault? s = none) :
    f.matchSource s < s.written ∧ s.written + f.matchLength s ≤ f.size := by
  unfold rangeFault? at h
  split at h
  · cases h
  · omega

theorem matchFault?_eq_none (h : f.matchFault? s = none) :
    f.matchSource s < s.written ∧ s.written + f.matchLength s ≤ f.size := by
  unfold matchFault? at h
  split at h
  · exact rangeFault?_eq_none h
  · dsimp only at h
    split at h
    · cases h
    · exact rangeFault?_eq_none h

/-- A match with which something is wrong is refused, which changes nothing but the cursor, and any
other is copied as it asks for. -/
theorem copyMatch_eq (f : Frame) (s : State) :
    f.copyMatch s =
      match f.matchFault? s with
      | some fault => .error fault (f.pastMatch s)
      | none => .ok () (f.afterMatch s) := by
  have hcopy : f.copyWithin (f.matchSource s) (f.matchLength s) (f.pastMatch s) =
      match f.rangeFault? s with
      | some fault => .error fault (f.pastMatch s)
      | none => .ok () (f.copied s) := by
    rw [copyWithin, rangeFault?, pastMatch]
    by_cases hrange : s.written ≤ f.matchSource s ∨ f.size < s.written + f.matchLength s
    · rw [if_pos hrange, if_pos hrange]
    · rw [if_neg hrange, if_neg hrange]
      rfl
  cases hlevel : f.level with
  | one =>
      rw [copyMatch_of_one hlevel, hcopy, matchFault?, afterMatch, hlevel]
      cases f.rangeFault? s with
      | some fault => rfl
      | none => simp only [andThen, copied, Nat.add_sub_cancel]
  | three =>
      rw [copyMatch_of_three hlevel, hcopy, matchFault?, afterMatch, hlevel]
      dsimp only
      split <;> rfl

/-- A match is copied as it asks for if it leads from before the write position to where there is
room for it, and refused otherwise.  That it is refused changes nothing but the cursor. -/
theorem copyMatch_cases (f : Frame) (s : State) :
    (∃ fault, f.copyMatch s = .error fault (f.pastMatch s)) ∨
      f.matchSource s < s.written ∧ s.written + f.matchLength s ≤ f.size ∧
        f.copyMatch s = .ok () (f.afterMatch s) := by
  rw [copyMatch_eq]
  cases hfault : f.matchFault? s with
  | some fault => exact .inl ⟨fault, rfl⟩
  | none =>
      obtain ⟨hsource, hroom⟩ := matchFault?_eq_none hfault
      exact .inr ⟨hsource, hroom, rfl⟩

theorem eq_afterMatch {u : Unit} (h : f.copyMatch s = .ok u t) : t = f.afterMatch s := by
  rcases copyMatch_cases f s with ⟨fault, hrefused⟩ | ⟨-, -, hcopied⟩
  · cases h.symm.trans hrefused
  · cases h.symm.trans hcopied
    rfl

theorem cursor_afterMatch (f : Frame) (s : State) :
    (f.afterMatch s).cursor = s.cursor + f.matchSize s := by
  unfold afterMatch
  split
  · exact State.cursor_enterThrough _ _
  · rfl

theorem written_afterMatch (f : Frame) (s : State) :
    (f.afterMatch s).written = s.written + f.matchLength s := by
  unfold afterMatch
  split
  · exact State.written_enter _ _
  · rfl

theorem output_afterMatch (f : Frame) (s : State) :
    (f.afterMatch s).output =
      copyForward (f.matchLength s) (f.matchSource s) s.written s.output := by
  unfold afterMatch
  split
  · exact State.output_enter _ _
  · rfl

theorem written_afterLiteral (f : Frame) (s : State) :
    (f.afterLiteral s).written = s.written := by
  unfold afterLiteral
  split
  · exact State.written_enter _ _
  · rfl

theorem output_afterLiteral (f : Frame) (s : State) : (f.afterLiteral s).output = s.output := by
  unfold afterLiteral
  split
  · exact State.output_enter _ _
  · rfl

/-! ### The parts of a step -/

theorem refill_inBounds (h : s.InBounds f) : Ends (State.InBounds f) (f.refill s) := by
  rcases f.refill_cases s with ⟨-, hsame⟩ | ⟨-, -, hcut⟩ | ⟨-, -, hread⟩
  · rw [hsame]
    exact h
  · rw [hcut]
    exact h
  · rw [hread]
    exact h.congr rfl rfl rfl

theorem literal_inBounds (h : s.InBounds f) : Ends (State.InBounds f) (f.literal s) := by
  rcases f.literal_cases s with ⟨-, hend⟩ | ⟨-, -, hfull⟩ | ⟨-, hroom, hread⟩
  · rw [hend]
    exact h
  · rw [hfull]
    exact h
  · rw [hread]
    rw [h.size_output] at hroom
    exact h.extend (Nat.le_succ _) hroom Array.size_setIfInBounds rfl

theorem afterLiteral_inBounds (h : s.InBounds f) : (f.afterLiteral s).InBounds f := by
  unfold afterLiteral
  by_cases hentered : f.level = .one ∧ 3 ≤ s.written
  · rw [if_pos hentered]
    exact (h.enterThrough (Nat.sub_le s.written 3)).congr rfl rfl rfl
  · rw [if_neg hentered]
    exact h.congr rfl rfl rfl

theorem afterMatch_inBounds (h : s.InBounds f) (hroom : s.written + f.matchLength s ≤ f.size) :
    (f.afterMatch s).InBounds f := by
  have hcopied : (f.copied s).InBounds f :=
    h.extend (Nat.le_add_right _ _) hroom (size_copyForward _ _ _ _) rfl
  unfold afterMatch
  split
  · exact (hcopied.enterThrough (Nat.le_add_right _ _)).congr rfl rfl rfl
  · exact hcopied

theorem copyMatch_inBounds (h : s.InBounds f) : Ends (State.InBounds f) (f.copyMatch s) := by
  rcases copyMatch_cases f s with ⟨fault, hrefused⟩ | ⟨-, hroom, hcopied⟩
  · rw [hrefused]
    exact h.congr rfl rfl rfl
  · rw [hcopied]
    exact afterMatch_inBounds h hroom

theorem literals_inBounds (h : s.InBounds f) (n : Nat) :
    Ends (State.InBounds f) (f.literals n s) := by
  induction n generalizing s with
  | zero => exact h
  | succ n ih =>
      rw [literals_succ]
      have hpassed : s.passControl.InBounds f :=
        h.congr s.written_passControl s.output_passControl s.buckets_passControl
      exact (literal_inBounds hpassed).andThen fun t ht => ih (ht.congr rfl rfl rfl)

/-! ### Steps and runs -/

/-- A step keeps the decoder within its output and its buckets, also if it meets a fault. -/
theorem step_inBounds (h : s.InBounds f) : Ends (State.InBounds f) (f.step s) := by
  rw [step_eq]
  refine (refill_inBounds h).andThen fun t ht => ?_
  split
  · exact (copyMatch_inBounds (s := t.shift) (ht.congr rfl rfl rfl)).andThen fun u hu =>
      hu.congr rfl rfl rfl
  · split
    · exact (literal_inBounds ht).andThen fun u hu =>
        afterLiteral_inBounds (s := u.shift) (hu.congr rfl rfl rfl)
    · exact (literals_inBounds ht _).andThen fun u hu => hu

/-- Steps that do not complete the output lead from one state to the other. -/
inductive Reaches (f : Frame) (s : State) : State → Prop
  | refl : Reaches f s s
  | step {t u : State} (h : Reaches f s t) (hstep : f.step t = .ok false u) : Reaches f s u

theorem Reaches.inBounds (h : f.Reaches s t) (hs : s.InBounds f) : t.InBounds f := by
  induction h with
  | refl => exact hs
  | step _ hstep ih => exact (step_inBounds ih).of_eq_ok hstep

/-- A run stays within output and buckets to its end, also if it meets a fault. -/
theorem run_inBounds (h : s.InBounds f) : Ends (State.InBounds f) (f.run s) := by
  have hend := step_inBounds h
  fun_induction f.run s with
  | case1 s fault t hstep =>
      rw [hstep] at hend
      exact hend
  | case2 s t hstep =>
      rw [hstep] at hend
      exact hend
  | case3 s t hstep ih =>
      have ht := hend.of_eq_ok hstep
      exact ih ht (step_inBounds ht)

/-! ### What is written -/

/-- A control word is read without anything being written. -/
theorem written_of_refill (h : f.refill s = .ok () t) : t.written = s.written := by
  rcases refill_eq_ok h with ⟨-, rfl⟩ | ⟨-, -, rfl⟩ <;> rfl

theorem written_of_literal {u : Unit} (h : f.literal s = .ok u t) : t.written = s.written + 1 := by
  obtain ⟨-, -, rfl⟩ := literal_eq_ok h
  rfl

theorem written_of_literals {n : Nat} {u : Unit} (h : f.literals n s = .ok u t) :
    t.written = s.written + n := by
  induction n generalizing s with
  | zero =>
      cases h
      rfl
  | succ n ih =>
      obtain ⟨_, v, hliteral, hrest⟩ := andThen_eq_ok_iff.mp (literals_succ f n s ▸ h)
      have hwritten := written_of_literal hliteral
      rw [ih hrest, State.shift, hwritten, State.written_passControl]
      omega

/-- The step that completes the output writes all that is left. -/
theorem written_of_step (hs : s.InBounds f) (h : f.step s = .ok true t) : t.written = f.size := by
  rw [step_eq] at h
  obtain ⟨_, v, hrefill, h⟩ := andThen_eq_ok_iff.mp h
  split at h
  · obtain ⟨_, w, -, hw⟩ := andThen_eq_ok_iff.mp h
    cases hw
  · split at h
    · obtain ⟨_, w, -, hw⟩ := andThen_eq_ok_iff.mp h
      cases hw
    · obtain ⟨_, w, hliterals, hw⟩ := andThen_eq_ok_iff.mp h
      cases hw
      have hroom := ((refill_inBounds hs).of_eq_ok hrefill).written_le
      rw [written_of_literals hliterals]
      omega

/-- When a run ends without a fault, all that was announced is written. -/
theorem written_of_run {u : Unit} (hs : s.InBounds f) (h : f.run s = .ok u t) :
    t.written = f.size := by
  fun_induction f.run s with
  | case1 s fault v hstep => cases h
  | case2 s v hstep =>
      cases h
      exact written_of_step hs hstep
  | case3 s v hstep ih => exact ih ((step_inBounds hs).of_eq_ok hstep) h

end Frame

end ResolverRecovery.Codec.QuickLz
