import ResolverRecovery.Proofs.QuickLz.Bounds

/-!
# Looking ahead

A match is read from the look-ahead, a number that holds the bytes at the cursor.  The decoder
brings it up to date in three ways.  Behind a match it looks at the stream anew.  Behind a literal
of the body it drops the byte that was read and takes in what comes into view.  Behind a control
word it looks anew as well, but only within the body: a control word that is read outside leaves
the look-ahead as it was.

Whatever the stream, each match is therefore read from the bytes at the cursor, unless it is the
first item behind a control word that was read outside the body.

## Main definitions

* `Frame.ahead`: the bytes of the stream that a match may take.
* `Frame.TakesMatch`: a step takes a match.
* `Frame.RefillsOutside`: a step reads a control word outside the body.
* `State.LooksAhead`: the invariant.

## Main statements

* `Frame.lookahead_of_step`: behind a step the look-ahead is what a new look at the stream gives.
* `Frame.Reaches.looksAhead`: steps keep the invariant.
* `Frame.lookahead_agrees`: every match of the body is read from the bytes at the cursor, and what
  others are read from.
-/

namespace ResolverRecovery.Codec.QuickLz

/-- Unless a control word is due, the look-ahead is what a new look at the stream gives. -/
def State.LooksAhead (f : Frame) (s : State) : Prop :=
  s.control ≠ 1 → s.lookahead = f.peek s.cursor

namespace Frame

variable {f : Frame} {s t u : State}

/-! ### Looking at the stream -/

/-- The bytes of the stream that a match at a position may take; there are zeros past the end. -/
def ahead (f : Frame) (position : Nat) : List UInt8 :=
  (List.range' position f.level.window).map fun p => f.source.getD p 0

theorem peekWord_eq_littleEndian (f : Frame) (n position : Nat) :
    f.peekWord n position =
      littleEndian ((List.range' position n).map fun p => f.source.getD p 0) := by
  induction n generalizing position with
  | zero => rfl
  | succ n ih => rw [peekWord, ih, List.range'_succ, List.map_cons, littleEndian, byte]

/-- A look at the stream gives the number that the bytes there write. -/
theorem peek_eq_littleEndian (f : Frame) (position : Nat) :
    f.peek position = littleEndian (f.ahead position) :=
  f.peekWord_eq_littleEndian f.level.window position

/-! ### Taking a match -/

/-- The step from `s` takes the match that is read in `t`: behind a control word, if one was due,
the lowest bit is a one, and it has been used up. -/
def TakesMatch (f : Frame) (s t : State) : Prop :=
  ∃ v, f.refill s = .ok () v ∧ v.control % 2 = 1 ∧ t = v.shift

/-- The step from `s` begins with a control word, and does so outside the body. -/
def RefillsOutside (f : Frame) (s : State) : Prop :=
  s.control = 1 ∧ f.inBody s = false

/-- The step is the match, followed by a new look at the stream. -/
theorem step_of_takesMatch (h : f.TakesMatch s t) :
    f.step s =
      andThen (f.copyMatch t) fun u => .ok false { u with lookahead := f.peek u.cursor } := by
  obtain ⟨v, hrefill, hodd, rfl⟩ := h
  rw [step_eq, hrefill]
  show ite _ _ _ = _
  rw [if_pos hodd]

theorem inBody_congr (hwritten : t.written = s.written) : f.inBody t = f.inBody s := by
  rw [inBody, inBody, hwritten]

theorem inBody_of_takesMatch (h : f.TakesMatch s t) : f.inBody t = f.inBody s := by
  obtain ⟨v, hrefill, -, rfl⟩ := h
  exact (inBody_congr v.written_shift).trans (inBody_congr (written_of_refill hrefill))

/-! ### The parts of a step -/

/-- A control word that is read in the body is followed by a new look, and where none is read
nothing changes. -/
theorem lookahead_of_refill (hs : s.LooksAhead f) (h : f.refill s = .ok () t) :
    t.lookahead = f.peek t.cursor ∨ f.RefillsOutside s := by
  rcases refill_eq_ok h with ⟨hleft, rfl⟩ | ⟨hdue, -, rfl⟩
  · exact .inl (hs hleft)
  · cases hbody : f.inBody s with
    | false => exact .inr ⟨hdue, hbody⟩
    | true => exact .inl (if_pos hbody)

theorem lookahead_afterLiteral (f : Frame) (s : State) :
    (f.afterLiteral s).lookahead = f.shiftedLookahead s := by
  unfold afterLiteral
  split
  · simp only [shiftedLookahead, State.enterThrough, State.lookahead_enter, State.cursor_enter]
  · rfl

/-! ### Steps and runs -/

/-- Behind a match the decoder looks at the stream anew, and behind a literal of the body the
look-ahead is shifted, which is as good. -/
theorem lookahead_of_step (hs : s.LooksAhead f) (h : f.step s = .ok false u) :
    u.lookahead = f.peek u.cursor := by
  rw [step_eq] at h
  obtain ⟨_, t, hrefill, h⟩ := andThen_eq_ok_iff.mp h
  split at h
  · obtain ⟨_, v, -, hlast⟩ := andThen_eq_ok_iff.mp h
    cases hlast
    rfl
  · split at h
    · rename_i hbody
      obtain ⟨_, v, hliteral, hlast⟩ := andThen_eq_ok_iff.mp h
      cases hlast
      -- nothing of the body follows a control word that was read outside
      have hread : t.lookahead = f.peek t.cursor := by
        rcases lookahead_of_refill hs hrefill with hread | ⟨-, houtside⟩
        · exact hread
        · rw [inBody_congr (written_of_refill hrefill), houtside] at hbody
          exact absurd hbody Bool.false_ne_true
      obtain ⟨-, -, rfl⟩ := literal_eq_ok hliteral
      rw [lookahead_afterLiteral, cursor_afterLiteral]
      exact shiftedLookahead_eq_peek (s := State.shift _) rfl hread
    · obtain ⟨_, v, -, hlast⟩ := andThen_eq_ok_iff.mp h
      cases hlast

theorem start_looksAhead (f : Frame) (cursor : Nat) : (f.start cursor).LooksAhead f :=
  fun hleft => absurd rfl hleft

theorem Reaches.looksAhead (h : f.Reaches s t) (hs : s.LooksAhead f) : t.LooksAhead f := by
  induction h with
  | refl => exact hs
  | step _ hstep ih => exact fun _ => lookahead_of_step ih hstep

/-- Whatever the stream, every match that the decoder takes is read from the bytes at the cursor,
unless it is the first item behind a control word that was read outside the body.  In the body there
is no exception. -/
theorem lookahead_agrees (f : Frame) (cursor : Nat) {s t : State}
    (hreaches : f.Reaches (f.start cursor) s) (htakes : f.TakesMatch s t) :
    (f.step s =
        andThen (f.copyMatch t) fun u => .ok false { u with lookahead := f.peek u.cursor }) ∧
      (t.lookahead = littleEndian (f.ahead t.cursor) ∨ f.RefillsOutside s) ∧
      (f.inBody t = true → t.lookahead = littleEndian (f.ahead t.cursor)) := by
  have hread : t.lookahead = littleEndian (f.ahead t.cursor) ∨ f.RefillsOutside s := by
    rw [← peek_eq_littleEndian]
    obtain ⟨v, hrefill, -, rfl⟩ := htakes
    show v.lookahead = f.peek v.cursor ∨ f.RefillsOutside s
    exact lookahead_of_refill (hreaches.looksAhead (f.start_looksAhead cursor)) hrefill
  refine ⟨step_of_takesMatch htakes, hread, ?_⟩
  intro hbody
  rcases hread with hread | ⟨-, houtside⟩
  · exact hread
  · rw [inBody_of_takesMatch htakes, houtside] at hbody
    exact absurd hbody Bool.false_ne_true

/-- Fourteen bytes of data.  The first is a literal, and a match in the body copies it three
times. -/
def earlyMatch : Frame :=
  ⟨#[0x0D, 19, 14, 0x02, 0x00, 0x00, 0x80, 0x61, 0x04] ++ Array.replicate 10 0x62, .three, 14⟩

/-- Too little data for a body, and a match that comes first. -/
def bodilessMatch : Frame := ⟨#[0x0D, 8, 5, 0x01, 0x00, 0x00, 0x80, 0x04], .three, 5⟩

/-- Either match has the byte 4 at the cursor.  The one in the body is read from it, and the other
one from the zeros of the start. -/
theorem lookahead_agrees_earlyMatch :
    (∃ s t, earlyMatch.Reaches (earlyMatch.start 3) s ∧ earlyMatch.TakesMatch s t ∧
        earlyMatch.inBody t = true ∧ earlyMatch.ahead t.cursor = [0x04, 0x62, 0x62, 0x62] ∧
        t.lookahead = littleEndian [0x04, 0x62, 0x62, 0x62]) ∧
      ∃ s t, bodilessMatch.Reaches (bodilessMatch.start 3) s ∧ bodilessMatch.TakesMatch s t ∧
        bodilessMatch.ahead t.cursor = [0x04, 0, 0, 0] ∧ t.lookahead = 0 ∧
        bodilessMatch.RefillsOutside s := by
  constructor
  · obtain ⟨s, t, hreaches, htakes, hbody, hahead⟩ :
        ∃ s t, earlyMatch.Reaches (earlyMatch.start 3) s ∧ earlyMatch.TakesMatch s t ∧
          earlyMatch.inBody t = true ∧ earlyMatch.ahead t.cursor = [0x04, 0x62, 0x62, 0x62] :=
      ⟨_, _, .step .refl rfl, ⟨_, rfl, rfl, rfl⟩, rfl, rfl⟩
    have hread := (lookahead_agrees earlyMatch 3 hreaches htakes).2.2 hbody
    rw [hahead] at hread
    exact ⟨s, t, hreaches, htakes, hbody, hahead, hread⟩
  · obtain ⟨t, htakes, hahead, hzero⟩ :
        ∃ t, bodilessMatch.TakesMatch (bodilessMatch.start 3) t ∧
          bodilessMatch.ahead t.cursor = [0x04, 0, 0, 0] ∧ t.lookahead = 0 :=
      ⟨_, ⟨_, rfl, rfl, rfl⟩, rfl, rfl⟩
    refine ⟨_, t, .refl, htakes, hahead, hzero, ?_⟩
    rcases (lookahead_agrees bodilessMatch 3 .refl htakes).2.1 with hread | houtside
    · rw [hahead, hzero] at hread
      cases hread
    · exact houtside

end Frame

end ResolverRecovery.Codec.QuickLz
