import ResolverRecovery.Proofs.QuickLz.Format

/-!
# Where the decoder is in a stream

The decoder meets the items in the order in which they were written.  Where it is in the stream is
told by the items that are left and by the number of flags that its control word has left for them.

## Main definitions

* `Scheme.left`: what is left of the stream.
* `State.Reads`: the decoder is where the items that are left begin.

## Main statements

* `Frame.peekWord_of_drop_eq`, `Frame.peekWord_add`: numbers in the stream.
* `Frame.shiftedLookahead_eq_peek`: shifting the look-ahead is as good as looking again.
* `State.Reads.next`, `State.Reads.regroup`: passing over an item and over a control word.
-/

namespace ResolverRecovery.Codec.QuickLz

/-! ### Looking at the stream -/

namespace Frame

variable {f : Frame}

theorem getElem?_of_drop_eq_cons {position : Nat} {b : UInt8} {rest : List UInt8}
    (h : f.source.toList.drop position = b :: rest) : f.source[position]? = some b := by
  have hhead := congrArg List.head? h
  rwa [List.head?_drop, List.head?_cons, Array.getElem?_toList] at hhead

theorem byte_of_drop_eq_cons {position : Nat} {b : UInt8} {rest : List UInt8}
    (h : f.source.toList.drop position = b :: rest) : f.byte position = b.toNat := by
  rw [byte, Array.getD_eq_getD_getElem?, getElem?_of_drop_eq_cons h, Option.getD_some]

theorem drop_succ_of_drop_eq_cons {position : Nat} {b : UInt8} {rest : List UInt8}
    (h : f.source.toList.drop position = b :: rest) :
    f.source.toList.drop (position + 1) = rest := by
  rw [← List.drop_drop, h, List.drop_succ_cons, List.drop_zero]

/-- The number that bytes of the stream write is read from them. -/
theorem peekWord_of_drop_eq {position : Nat} {bytes rest : List UInt8}
    (h : f.source.toList.drop position = bytes ++ rest) :
    f.peekWord bytes.length position = littleEndian bytes := by
  induction bytes generalizing position with
  | nil => rfl
  | cons b bytes ih =>
      rw [List.length_cons, peekWord, littleEndian, byte_of_drop_eq_cons h,
        ih (drop_succ_of_drop_eq_cons h)]

theorem peekWord_lt (f : Frame) (n position : Nat) : f.peekWord n position < byteCapacity n := by
  induction n generalizing position with
  | zero => exact Nat.one_pos
  | succ n ih =>
      have hbyte := f.byte_lt position
      have hrest := ih (position + 1)
      rw [peekWord, byteCapacity]
      omega

/-- A number of several bytes splits into a lower and an upper part. -/
theorem peekWord_add (m n position : Nat) :
    f.peekWord (m + n) position =
      f.peekWord m position + byteCapacity m * f.peekWord n (position + m) := by
  induction m generalizing position with
  | zero => rw [Nat.zero_add, peekWord, byteCapacity, Nat.one_mul, Nat.zero_add, Nat.add_zero]
  | succ m ih =>
      have hposition : position + 1 + m = position + (m + 1) := by omega
      rw [Nat.succ_add, peekWord, ih, peekWord, byteCapacity, Nat.mul_add, ← Nat.mul_assoc,
        hposition, ← Nat.add_assoc]

/-- The look-ahead that is shifted behind a literal agrees with a new look at the stream. -/
theorem shiftedLookahead_eq_peek {s : State} {position : Nat} (hcursor : s.cursor = position + 1)
    (hlookahead : s.lookahead = f.peek position) : f.shiftedLookahead s = f.peek s.cursor := by
  -- two bytes of the look-ahead are kept, and those above them are read again
  have h₀ := f.byte_lt position
  have h₁ := f.byte_lt (position + 1)
  have h₂ := f.byte_lt (position + 2)
  have h₃ := f.byte_lt (position + 3)
  cases hlevel : f.level with
  | one =>
      simp only [shiftedLookahead, hcursor, hlookahead, peek, hlevel, Level.window, peekWord,
        Nat.add_assoc, Nat.reduceAdd]
      omega
  | three =>
      simp only [shiftedLookahead, hcursor, hlookahead, peek, hlevel, Level.window, peekWord,
        Nat.add_assoc, Nat.reduceAdd]
      omega

end Frame

/-! ### Where the decoder is in the stream -/

variable {μ : Type}

/-- What is left of the stream when `k` flags of the control word are left. -/
def Scheme.left (S : Scheme μ) (k : Nat) (items : List (Item μ)) : List UInt8 :=
  (items.take k).flatMap S.itemBytes ++ S.body (items.drop k)

theorem Scheme.left_zero (S : Scheme μ) (items : List (Item μ)) :
    S.left 0 items = S.body items := rfl

theorem Scheme.left_succ_cons (S : Scheme μ) (k : Nat) (i : Item μ) (rest : List (Item μ)) :
    S.left (k + 1) (i :: rest) = S.itemBytes i ++ S.left k rest := by
  rw [left, left, List.take_succ_cons, List.drop_succ_cons, List.flatMap_cons, List.append_assoc]

/-- Items begin with a control word. -/
theorem Scheme.body_eq (S : Scheme μ) {items : List (Item μ)} (h : items ≠ []) :
    S.body items = littleEndianBytes controlLength (controlOf groupSize (flagsOf items)) ++
      S.left groupSize items := by
  cases items with
  | nil => exact absurd rfl h
  | cons i rest =>
      have hflags : controlOf groupSize (flagsOf ((i :: rest).take groupSize)) =
          controlOf groupSize (flagsOf (i :: rest)) := by
        rw [flagsOf, List.map_take, controlOf_take, flagsOf]
      rw [Scheme.body, hflags, Scheme.left]

theorem controlOf_groupSize_lt (flags : List Bool) :
    controlOf groupSize flags < byteCapacity controlLength :=
  controlOf_lt groupSize flags

namespace State

/-- The decoder is where the items that are left begin, with `k` flags of its control word left. -/
structure Reads (f : Frame) (S : Scheme μ) (k : Nat) (items : List (Item μ)) (s : State) :
    Prop where
  /-- The flags fit a control word. -/
  flags_le : k ≤ groupSize
  /-- The control word holds the flags of the items. -/
  control : s.control = controlOf k (flagsOf items)
  /-- The items are what is left of the stream. -/
  left : f.source.toList.drop s.cursor = S.left k items

namespace Reads

variable {f : Frame} {S : Scheme μ} {k : Nat} {items rest : List (Item μ)} {i : Item μ}
variable {s t : State}

/-- With a flag left the next item is at the cursor. -/
theorem item (h : s.Reads f S (k + 1) (i :: rest)) :
    f.source.toList.drop s.cursor = S.itemBytes i ++ S.left k rest := by
  rw [h.left, Scheme.left_succ_cons]

/-- The lowest flag is that of the next item. -/
theorem control_mod (h : s.Reads f S (k + 1) (i :: rest)) :
    s.control % 2 = 1 ↔ i.isLiteral = false := by
  rw [h.control, flagsOf, List.map_cons, controlOf]
  cases i.isLiteral <;> simp [Nat.add_mod]

/-- Behind an item, with its flag used up, the decoder is at the next one. -/
theorem next (h : s.Reads f S (k + 1) (i :: rest))
    (hcursor : t.cursor = s.cursor + (S.itemBytes i).length)
    (hcontrol : t.control = s.control / 2) : t.Reads f S k rest where
  flags_le := Nat.le_of_succ_le h.flags_le
  control := by
    have hflag : (!i.isLiteral).toNat ≤ 1 := Bool.toNat_le _
    rw [hcontrol, h.control, flagsOf, List.map_cons, controlOf, flagsOf]
    omega
  left := by
    rw [hcursor, ← List.drop_drop, h.item, List.drop_left]

/-- Without a flag left the control word is used up. -/
theorem control_eq_one_iff (h : s.Reads f S k items) : s.control = 1 ↔ k = 0 := by
  rw [h.control]
  cases k with
  | zero => exact iff_of_true rfl rfl
  | succ k => exact iff_of_false (controlOf_succ_ne_one k _) (Nat.succ_ne_zero k)

/-- Without a flag left the next control word is at the cursor. -/
theorem word (h : s.Reads f S 0 items) (hne : items ≠ []) :
    f.source.toList.drop s.cursor =
      littleEndianBytes controlLength (controlOf groupSize (flagsOf items)) ++
        S.left groupSize items := by
  rw [h.left, Scheme.left_zero, S.body_eq hne]

/-- Behind a control word the decoder is at the first item of the group. -/
theorem regroup (h : s.Reads f S 0 items) (hne : items ≠ [])
    (hcursor : t.cursor = s.cursor + controlLength)
    (hcontrol : t.control = controlOf groupSize (flagsOf items)) :
    t.Reads f S groupSize items where
  flags_le := Nat.le_refl _
  control := hcontrol
  left := by
    rw [hcursor, ← List.drop_drop, h.word hne, List.drop_left' (length_littleEndianBytes _ _)]

end Reads

end State

end ResolverRecovery.Codec.QuickLz
