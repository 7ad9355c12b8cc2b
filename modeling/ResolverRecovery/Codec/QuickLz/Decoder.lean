import ResolverRecovery.Codec.QuickLz.Match
import ResolverRecovery.Codec.Error

/-!
# Decoding the body of a QuickLZ stream

The body is a sequence of literals and matches, in groups of 31 behind a control word that says
which is which.  The decoder is a machine whose state shows everything that it knows; a step reads
one literal or one match, and the last bytes of the output, which are literals without exception,
are read in one step.

## Main definitions

* `Frame`: what stays fixed while a body is decoded.
* `State`: the machine's state.
* `Frame.literal`, `Frame.copyMatch`, `Frame.step`: the transitions.
* `Frame.run`: steps until the output is complete or a fault is met.

## Main statements

* `Frame.refill_cases`, `Frame.literal_cases`: all that reading a control word or a literal can do.
* `Frame.step_decreases`: a step that does not complete the output uses up some of the budget.

## Design notes

Reading runs in `EStateM`, so the state is there to look at after a fault as well.  Words are
natural numbers: bits are taken from them with quotients and remainders.

A run ends because a step either moves the cursor forward within the input or uses up a bit of the
control word, so that the number of steps is bounded by `Frame.budget`.
-/

namespace ResolverRecovery.Codec.QuickLz

/-- What stays fixed while a body is decoded. -/
structure Frame where
  /-- The whole stream, header included. -/
  source : Array UInt8
  level : Level
  size : Nat

/-- The state of the decoder. -/
structure State where
  /-- The position in the stream of the next byte to read. -/
  cursor : Nat
  /-- The number of bytes written so far. -/
  written : Nat
  /-- The output: what is written, and zeros behind it. -/
  output : Array UInt8
  /-- The control word, lowest bit first, with a one above the bits that are left. -/
  control : Nat
  /-- The bytes at the cursor as one number. -/
  lookahead : Nat
  /-- The next position of the output to enter into the buckets. -/
  entered : Nat
  /-- For every bucket the last position that was entered into it. -/
  buckets : Array Nat

/-- A part of the decoding, which may meet a fault. -/
abbrev Decode := EStateM Fault State

/-- The number of bytes at the end of the output that are never part of a match, and are written
without regard to the control word. -/
def tailLength : Nat := 11

/-- The number of bytes of a control word. -/
def controlLength : Nat := 4

/-- A control word of which all 31 flags are zero. -/
def literalControl : Nat := 0x80000000

/-! ### Entering positions into the buckets -/

/-- The three bytes at a position of the output as one number; there are zeros past the end. -/
def outputWord (output : Array UInt8) (position : Nat) : Nat :=
  let byte := fun i => (output.getD i 0).toNat
  byte position + 256 * byte (position + 1) + 65536 * byte (position + 2)

namespace State

/-- Uses up the lowest bit of the control word. -/
def shift (s : State) : State := { s with control := s.control / 2 }

/-- The state after a byte has been read and written. -/
def write (s : State) (byte : UInt8) : State :=
  { s with
    output := s.output.setIfInBounds s.written byte
    written := s.written + 1
    cursor := s.cursor + 1 }

/-- Enters the next `n` positions into their buckets. -/
def enter : Nat → State → State
  | 0, s => s
  | n + 1, s =>
    enter n { s with
      buckets := s.buckets.setIfInBounds (bucketOf (outputWord s.output s.entered)) s.entered
      entered := s.entered + 1 }

/-- Enters every position up to `last`, that one included, which has not been entered yet. -/
def enterThrough (last : Nat) (s : State) : State :=
  s.enter (last + 1 - s.entered)

end State

/-! ### Copying within the output -/

/-- Copies `n` bytes one by one, so that a copy may read what it wrote itself. -/
def copyForward : Nat → Nat → Nat → Array UInt8 → Array UInt8
  | 0, _, _, output => output
  | n + 1, source, target, output =>
    copyForward n (source + 1) (target + 1)
      (output.setIfInBounds target (output.getD source 0))

namespace Frame

/-! ### Looking at the stream -/

/-- The byte of the stream at a position; there are zeros past the end. -/
def byte (f : Frame) (position : Nat) : Nat := (f.source.getD position 0).toNat

/-- The number that `n` bytes of the stream write from a position on. -/
def peekWord (f : Frame) : Nat → Nat → Nat
  | 0, _ => 0
  | n + 1, position => f.byte position + 256 * peekWord f n (position + 1)

/-- The bytes at a position that a match there may take. -/
def peek (f : Frame) (position : Nat) : Nat := f.peekWord f.level.window position

/-- The write position has not reached the tail. -/
def inBody (f : Frame) (s : State) : Bool := s.written + tailLength ≤ f.size

/-- The state before the first step.  The control word is used up, so that the first step reads
one. -/
def start (f : Frame) (cursor : Nat) : State where
  cursor := cursor
  written := 0
  output := Array.replicate f.size 0
  control := 1
  lookahead := 0
  entered := 0
  buckets := Array.replicate bucketCount 0

/-! ### The parts of a step -/

/-- Reads the next control word if the last one is used up.  Outside the body the look-ahead is left
as it is. -/
def refill (f : Frame) : Decode Unit := fun s =>
  if s.control = 1 then
    if f.source.size < s.cursor + controlLength then
      .error .controlPastInput s
    else
      let control := f.peekWord controlLength s.cursor
      let s := { s with control := control, cursor := s.cursor + controlLength }
      .ok () (if f.inBody s then { s with lookahead := f.peek s.cursor } else s)
  else
    .ok () s

/-- Writes the byte at the cursor. -/
def literal (f : Frame) : Decode Unit := fun s =>
  match f.source[s.cursor]? with
  | none => .error .literalPastInput s
  | some b =>
    if h : s.written < s.output.size then
      .ok () { s with
        output := s.output.set s.written b h
        written := s.written + 1
        cursor := s.cursor + 1 }
    else
      .error .literalPastOutput s

/-- The look-ahead after a literal: the byte that was read drops out and new ones come in on top. -/
def shiftedLookahead (f : Frame) (s : State) : Nat :=
  let kept := s.lookahead / 256 % 65536
  match f.level with
  | .one => kept + 65536 * f.byte (s.cursor + 2)
  | .three => kept + 65536 * f.byte (s.cursor + 2) + 16777216 * f.byte (s.cursor + 3)

/-- Brings buckets and look-ahead up to date after a literal.  At level 1 a position is entered as
soon as its three bytes are written. -/
def afterLiteral (f : Frame) (s : State) : State :=
  let s :=
    if f.level = .one ∧ 3 ≤ s.written then s.enterThrough (s.written - 3) else s
  { s with lookahead := f.shiftedLookahead s }

/-- Copies `length` bytes from position `source` of the output to its end.  The source has to lie
before the write position and the copy within the output. -/
def copyWithin (f : Frame) (source length : Nat) : Decode Unit := fun s =>
  if s.written ≤ source ∨ f.size < s.written + length then
    .error (.copyOutOfRange length s.written) s
  else
    .ok () { s with
      output := copyForward length source s.written s.output
      written := s.written + length }

/-- Reads a match of level 1: four bits of length, with the bucket above them.  If the four bits are
zero the length is the byte behind. -/
def bucketMatch (f : Frame) : Decode Unit := fun s =>
  let source := s.buckets.getD (s.lookahead / 16 % bucketCount) 0
  let short := s.lookahead % 16
  let length := if short ≠ 0 then short + 2 else f.byte (s.cursor + 2)
  let s := { s with cursor := s.cursor + if short ≠ 0 then 2 else 3 }
  match f.copyWithin source length s with
  | .error fault s => .error fault s
  | .ok _ s =>
    .ok () { s.enterThrough (s.written - length) with entered := s.written }

/-- Reads a match of level 3, packed in one of five forms.  The distance has to lead to a byte of
the output so far. -/
def offsetMatch (f : Frame) : Decode Unit := fun s =>
  let form := Form.ofWord s.lookahead
  let offset := form.offset s.lookahead
  let s' := { s with cursor := s.cursor + form.size }
  if offset = 0 ∨ s.written < offset then
    .error (.badOffset offset s.written) s'
  else
    f.copyWithin (s.written - offset) (form.length s.lookahead) s'

/-- Reads the match that the look-ahead holds and copies what it stands for. -/
def copyMatch (f : Frame) : Decode Unit := fun s =>
  match f.level with
  | .one => f.bucketMatch s
  | .three => f.offsetMatch s

/-- Writes `n` literals, and passes over a control word whenever the last one is used up: nothing
but literals can follow. -/
def literals (f : Frame) : Nat → Decode Unit
  | 0, s => .ok () s
  | n + 1, s =>
    let s :=
      if s.control = 1 then
        { s with cursor := s.cursor + controlLength, control := literalControl }
      else s
    match f.literal s with
    | .error fault s => .error fault s
    | .ok _ s => literals f n s.shift

/-! ### Steps and runs -/

/-- Reads one literal or one match, or all that is left once the tail is reached.  Tells whether the
output is complete. -/
def step (f : Frame) : Decode Bool := fun s =>
  match f.refill s with
  | .error fault s => .error fault s
  | .ok _ s =>
    if s.control % 2 = 1 then
      match f.copyMatch s.shift with
      | .error fault s => .error fault s
      | .ok _ s => .ok false { s with lookahead := f.peek s.cursor }
    else if f.inBody s then
      match f.literal s with
      | .error fault s => .error fault s
      | .ok _ s => .ok false (f.afterLiteral s.shift)
    else
      match f.literals (f.size - s.written) s with
      | .error fault s => .error fault s
      | .ok _ s => .ok true s

end Frame

/-! ### What the parts of a step do -/

namespace State

@[simp] theorem cursor_enter (n : Nat) (s : State) : (s.enter n).cursor = s.cursor := by
  induction n generalizing s with
  | zero => rfl
  | succ n ih => rw [enter, ih]

@[simp] theorem control_enter (n : Nat) (s : State) : (s.enter n).control = s.control := by
  induction n generalizing s with
  | zero => rfl
  | succ n ih => rw [enter, ih]

@[simp] theorem cursor_enterThrough (last : Nat) (s : State) :
    (s.enterThrough last).cursor = s.cursor := cursor_enter _ s

@[simp] theorem control_enterThrough (last : Nat) (s : State) :
    (s.enterThrough last).control = s.control := control_enter _ s

end State

namespace Frame

@[simp] theorem cursor_afterLiteral (f : Frame) (s : State) :
    (f.afterLiteral s).cursor = s.cursor := by
  unfold afterLiteral
  split <;> simp

@[simp] theorem control_afterLiteral (f : Frame) (s : State) :
    (f.afterLiteral s).control = s.control := by
  unfold afterLiteral
  split <;> simp

theorem byte_lt (f : Frame) (position : Nat) : f.byte position < 256 :=
  UInt8.toNat_lt _

/-- A control word has at most 32 bits. -/
theorem log2_peekWord_lt (f : Frame) (position : Nat) :
    (f.peekWord controlLength position).log2 < 32 := by
  have h₀ := f.byte_lt position
  have h₁ := f.byte_lt (position + 1)
  have h₂ := f.byte_lt (position + 1 + 1)
  have h₃ := f.byte_lt (position + 1 + 1 + 1)
  by_cases hzero : f.peekWord controlLength position = 0
  · simp [hzero]
  · rw [Nat.log2_lt hzero]
    simp only [controlLength, peekWord]
    omega

/-- The state behind a control word. -/
def refilled (f : Frame) (s : State) : State :=
  { s with
    cursor := s.cursor + controlLength
    control := f.peekWord controlLength s.cursor
    lookahead := if f.inBody s then f.peek (s.cursor + controlLength) else s.lookahead }

/-- Nothing changes as long as the control word has bits left.  Otherwise the next one is read if it
lies within the input. -/
theorem refill_cases (f : Frame) (s : State) :
    s.control ≠ 1 ∧ f.refill s = .ok () s ∨
      s.control = 1 ∧ f.source.size < s.cursor + controlLength ∧
        f.refill s = .error .controlPastInput s ∨
      s.control = 1 ∧ s.cursor + controlLength ≤ f.source.size ∧
        f.refill s = .ok () (f.refilled s) := by
  unfold refill
  by_cases hdue : s.control = 1
  · rw [if_pos hdue]
    by_cases hcut : f.source.size < s.cursor + controlLength
    · exact .inr (.inl ⟨hdue, hcut, if_pos hcut⟩)
    · refine .inr (.inr ⟨hdue, Nat.le_of_not_lt hcut, ?_⟩)
      rw [if_neg hcut, refilled]
      by_cases hbody : f.inBody s = true
      · rw [if_pos hbody]
        exact congrArg (EStateM.Result.ok ()) (if_pos hbody)
      · rw [if_neg hbody]
        exact congrArg (EStateM.Result.ok ()) (if_neg hbody)
  · exact .inl ⟨hdue, if_neg hdue⟩

theorem refill_eq_ok {f : Frame} {s t : State} {u : Unit} (h : f.refill s = .ok u t) :
    s.control ≠ 1 ∧ t = s ∨
      s.control = 1 ∧ s.cursor + controlLength ≤ f.source.size ∧ t = f.refilled s := by
  rcases f.refill_cases s with ⟨hleft, hsame⟩ | ⟨-, -, hcut⟩ | ⟨hdue, hroom, hread⟩
  · cases hsame.symm.trans h
    exact .inl ⟨hleft, rfl⟩
  · cases hcut.symm.trans h
  · cases hread.symm.trans h
    exact .inr ⟨hdue, hroom, rfl⟩

/-- The byte at the cursor is written if there is one, and room for it. -/
theorem literal_cases (f : Frame) (s : State) :
    f.source.size ≤ s.cursor ∧ f.literal s = .error .literalPastInput s ∨
      s.cursor < f.source.size ∧ s.output.size ≤ s.written ∧
        f.literal s = .error .literalPastOutput s ∨
      s.cursor < f.source.size ∧ s.written < s.output.size ∧
        f.literal s = .ok () (s.write (f.source.getD s.cursor 0)) := by
  unfold literal
  by_cases hcursor : s.cursor < f.source.size
  · rw [Array.getElem?_eq_getElem hcursor]
    by_cases hroom : s.written < s.output.size
    · refine .inr (.inr ⟨hcursor, hroom, ?_⟩)
      rw [← Array.getElem_eq_getD (h := hcursor), State.write, Array.setIfInBounds_def,
        dif_pos hroom]
      exact dif_pos hroom
    · exact .inr (.inl ⟨hcursor, Nat.le_of_not_lt hroom, dif_neg hroom⟩)
  · have hend := Nat.le_of_not_lt hcursor
    rw [Array.getElem?_eq_none hend]
    exact .inl ⟨hend, rfl⟩

theorem literal_eq_ok {f : Frame} {s t : State} {u : Unit} (h : f.literal s = .ok u t) :
    s.cursor < f.source.size ∧ s.written < s.output.size ∧
      t = s.write (f.source.getD s.cursor 0) := by
  rcases f.literal_cases s with ⟨-, hend⟩ | ⟨-, -, hfull⟩ | ⟨hcursor, hroom, hread⟩
  · cases hend.symm.trans h
  · cases hfull.symm.trans h
  · cases hread.symm.trans h
    exact ⟨hcursor, hroom, rfl⟩

/-- A copy reads nothing. -/
theorem copyWithin_eq_ok {f : Frame} {source length : Nat} {s t : State} {u : Unit}
    (h : f.copyWithin source length s = .ok u t) :
    t = { s with
      output := copyForward length source s.written s.output
      written := s.written + length } := by
  unfold copyWithin at h
  split at h
  · cases h
  · cases h
    rfl

/-- A match moves the cursor forward, if at all, and leaves the control word alone. -/
theorem copyMatch_eq_ok {f : Frame} {s t : State} {u : Unit} (h : f.copyMatch s = .ok u t) :
    s.cursor ≤ t.cursor ∧ t.control = s.control := by
  unfold copyMatch at h
  split at h
  · unfold bucketMatch at h
    dsimp only at h
    split at h
    · cases h
    · rename_i hcopy
      cases h
      obtain rfl := copyWithin_eq_ok hcopy
      simp
  · unfold offsetMatch at h
    dsimp only at h
    split at h
    · cases h
    · obtain rfl := copyWithin_eq_ok h
      simp

/-- The number of steps that can follow at most: one for every bit of the control word that is left,
and for every byte of input one and a control word's worth of bits. -/
def budget (f : Frame) (s : State) : Nat :=
  33 * (f.source.size - s.cursor) + s.control.log2

/-- With a control word read if one was due, the budget shrinks when the lowest bit is used up:
either the bit is a one, or a byte of input is read along with it. -/
theorem budget_lt {f : Frame} {s t u : State} {a : Unit} (hrefill : f.refill s = .ok a t)
    (hcursor : t.cursor ≤ u.cursor) (hcontrol : u.control = t.control / 2)
    (hused : t.control % 2 = 1 ∨ t.cursor < u.cursor ∧ t.cursor < f.source.size) :
    f.budget u < f.budget s := by
  have hlog := Nat.log2_def t.control
  have hlow : (t.control / 2).log2 ≤ t.control.log2 := by
    rw [hlog]
    split
    · omega
    · rw [show t.control / 2 = 0 by omega]
      exact Nat.zero_le _
  simp only [budget, hcontrol]
  rcases refill_eq_ok hrefill with ⟨hleft, rfl⟩ | ⟨-, hroom, rfl⟩
  · rcases hused with hodd | hread
    · rw [if_pos (by omega)] at hlog
      omega
    · omega
  · -- the input has become shorter by more than the bits of a control word can weigh
    have hword := f.log2_peekWord_lt s.cursor
    simp only [refilled, controlLength] at *
    omega

/-- A step that does not complete the output uses up some of the budget: it moves the cursor forward
within the input, or it uses up a bit of the control word. -/
theorem step_decreases {f : Frame} {s t : State} (h : f.step s = .ok false t) :
    f.budget t < f.budget s := by
  unfold step at h
  split at h
  · cases h
  · rename_i v hrefill
    split at h
    · split at h
      · cases h
      · rename_i hodd _ _ _ hmatch
        cases h
        obtain ⟨hcursor, hcontrol⟩ := copyMatch_eq_ok hmatch
        exact budget_lt hrefill hcursor hcontrol (.inl hodd)
    · split at h
      · split at h
        · cases h
        · rename_i w hliteral
          cases h
          obtain ⟨hlt, -, rfl⟩ := literal_eq_ok hliteral
          refine budget_lt hrefill ?_ ?_ (.inr ⟨?_, hlt⟩)
          · rw [cursor_afterLiteral]
            exact Nat.le_succ v.cursor
          · rw [control_afterLiteral]
            rfl
          · rw [cursor_afterLiteral]
            exact Nat.lt_succ_self v.cursor
      · split at h <;> cases h

/-- Steps until the output is complete or a fault is met. -/
def run (f : Frame) : Decode Unit := fun s =>
  match _h : f.step s with
  | .error fault t => .error fault t
  | .ok true t => .ok () t
  | .ok false t => run f t
termination_by s => f.budget s
decreasing_by exact step_decreases _h

end Frame

end ResolverRecovery.Codec.QuickLz
