import ResolverRecovery.Codec.QuickLz

/-!
# The format of QuickLZ streams

A stream describes its data as a list of items, each a literal byte or a match.  This module says
what a list of items stands for and how it is written, at any level: the levels differ in how a
match is packed and in how it names the position that it copies from, which a `Scheme` records.

## Main definitions

* `Item`, `History`: what a stream lists, and what is known when an item is reached.
* `Scheme`, with `Scheme.expand?`: the data that a list of items stands for.
* `Scheme.Describes`: a list of items is fit to be written for some data.
* `Scheme.body`, `Scheme.stream`: how a list of items is written.

## Design notes

The flags of a control word are kept with the one above them that marks its end (`controlOf`), so
that the word with all its flags and the word of which some are used up are the same thing.
-/

namespace ResolverRecovery.Codec

/-! ### Numbers and their bytes -/

/-- The lowest `width` bytes of a number, least significant byte first. -/
def littleEndianBytes : Nat → Nat → List UInt8
  | 0, _ => []
  | width + 1, n => UInt8.ofNat n :: littleEndianBytes width (n / 256)

/-- The number of numbers that can be written in `width` bytes. -/
def byteCapacity : Nat → Nat
  | 0 => 1
  | width + 1 => 256 * byteCapacity width

@[simp] theorem length_littleEndianBytes (width n : Nat) :
    (littleEndianBytes width n).length = width := by
  induction width generalizing n with
  | zero => rfl
  | succ width ih => rw [littleEndianBytes, List.length_cons, ih]

theorem littleEndian_littleEndianBytes {width n : Nat} (h : n < byteCapacity width) :
    littleEndian (littleEndianBytes width n) = n := by
  induction width generalizing n with
  | zero =>
      rw [byteCapacity] at h
      rw [littleEndianBytes, littleEndian]
      omega
  | succ width ih =>
      rw [byteCapacity] at h
      rw [littleEndianBytes, littleEndian, ih (by omega), UInt8.toNat_ofNat']
      omega

namespace QuickLz

/-! ### Items and what they stand for -/

/-- A stretch of the data: a byte as it is, or a match. -/
inductive Item (μ : Type) where
  | literal (byte : UInt8)
  | copy (m : μ)
  deriving DecidableEq

namespace Item

variable {μ : Type}

/-- The item is a byte as it is. -/
def isLiteral : Item μ → Bool
  | literal _ => true
  | copy _ => false

end Item

/-- What is known when an item is reached. -/
structure History where
  output : List UInt8
  /-- The positions at which the items so far start, the latest one first. -/
  starts : List Nat
  deriving DecidableEq

/-- Appends `n` bytes one by one, each of them equal to the byte `distance` before the end. -/
def repeatBack (distance : Nat) : Nat → List UInt8 → List UInt8
  | 0, output => output
  | n + 1, output => repeatBack distance n (output ++ [output.getD (output.length - distance) 0])

namespace History

def empty : History := ⟨[], []⟩

/-- What is known after a literal. -/
def append (h : History) (byte : UInt8) : History :=
  ⟨h.output ++ [byte], h.output.length :: h.starts⟩

/-- What is known after `length` bytes have been copied from a position of the data, byte by byte,
so that a copy may go on with what it has written itself. -/
def copy (h : History) (source length : Nat) : History :=
  ⟨repeatBack (h.output.length - source) length h.output, h.output.length :: h.starts⟩

end History

/-- How the matches of a level are written, and where they copy from. -/
structure Scheme (μ : Type) where
  level : Level
  /-- The number of bytes that a match stands for. -/
  length : μ → Nat
  /-- The position that a match copies from, if it names one. -/
  source? : History → μ → Option Nat
  /-- The match fits the form in which it is to be written. -/
  admits : μ → Bool
  /-- The match as it is written. -/
  bytes : μ → List UInt8

namespace Scheme

variable {μ : Type} (S : Scheme μ)

/-- What is known after an item; a match that names no position has no meaning. -/
def extend? (h : History) : Item μ → Option History
  | .literal byte => some (h.append byte)
  | .copy m => (S.source? h m).map fun source => h.copy source (S.length m)

/-- What is known after a list of items. -/
def extendAll? : History → List (Item μ) → Option History
  | h, [] => some h
  | h, i :: rest => (S.extend? h i).bind fun h => extendAll? h rest

/-- The data that a list of items stands for. -/
def expand? (items : List (Item μ)) : Option (List UInt8) :=
  (S.extendAll? .empty items).map History.output

/-- Every match fits its form, is at least three bytes long and starts outside of the last bytes of
the data, of which there are `size`; the first item starts at `position`. -/
def fits (size : Nat) : Nat → List (Item μ) → Bool
  | _, [] => true
  | position, .literal _ :: rest => fits size (position + 1) rest
  | position, .copy m :: rest =>
    S.admits m && decide (3 ≤ S.length m) && decide (position + tailLength ≤ size) &&
      fits size (position + S.length m) rest

/-- The items stand for the data, their matches fit, and the last of them is a literal. -/
structure Describes (items : List (Item μ)) (data : List UInt8) : Prop where
  /-- The items stand for the data. -/
  expands : S.expand? items = some data
  /-- The matches can be written, and leave the end of the data alone. -/
  fits : S.fits data.length 0 items = true
  /-- The last item is a literal. -/
  ends : items.getLast?.any Item.isLiteral = true

/-! ### How items are written -/

/-- An item as it is written. -/
def itemBytes : Item μ → List UInt8
  | .literal byte => [byte]
  | .copy m => S.bytes m

end Scheme

/-- A control word with `k` flags left, lowest bit first, and a one above them.  Flags that nothing
is said of are zero. -/
def controlOf : Nat → List Bool → Nat
  | 0, _ => 1
  | k + 1, [] => 2 * controlOf k []
  | k + 1, flag :: rest => flag.toNat + 2 * controlOf k rest

/-- Bit by bit: the flags in order, zeros where there is no flag, and a one above them. -/
theorem testBit_controlOf (k : Nat) (flags : List Bool) (i : Nat) :
    (controlOf k flags).testBit i = if i < k then flags.getD i false else decide (i = k) := by
  induction k generalizing flags i with
  | zero => cases i <;> simp [controlOf, Nat.testBit_succ]
  | succ k ih =>
      cases flags with
      | nil =>
          cases i with
          | zero => simp [controlOf]
          | succ i => simp [controlOf, Nat.testBit_succ, ih]
      | cons flag rest =>
          have hhalf : (flag.toNat + 2 * controlOf k rest) / 2 = controlOf k rest := by
            have := Bool.toNat_le flag
            omega
          cases i with
          | zero => cases flag <;> simp [controlOf, Nat.testBit_zero, Nat.add_mod]
          | succ i => simp [controlOf, Nat.testBit_succ, hhalf, ih]

theorem controlOf_pos (k : Nat) (flags : List Bool) : 0 < controlOf k flags := by
  induction k generalizing flags with
  | zero => exact Nat.one_pos
  | succ k ih =>
      cases flags with
      | nil => simpa [controlOf] using ih []
      | cons flag rest =>
          have := ih rest
          rw [controlOf]
          omega

/-- The one that marks the end is the highest bit, so that twice the word without flags is more than
any word. -/
theorem controlOf_lt (k : Nat) (flags : List Bool) : controlOf k flags < 2 * controlOf k [] := by
  induction k generalizing flags with
  | zero => exact Nat.one_lt_two
  | succ k ih =>
      cases flags with
      | nil =>
          have := controlOf_pos k []
          rw [controlOf]
          omega
      | cons flag rest =>
          have := ih rest
          have := Bool.toNat_le flag
          rw [controlOf, controlOf]
          omega

/-- As long as a flag is left there is a bit below the one that marks the end. -/
theorem controlOf_succ_ne_one (k : Nat) (flags : List Bool) : controlOf (k + 1) flags ≠ 1 := by
  cases flags with
  | nil =>
      have := controlOf_pos k []
      rw [controlOf]
      omega
  | cons flag rest =>
      have := controlOf_pos k rest
      rw [controlOf]
      omega

/-- Flags beyond those that fit are not looked at. -/
theorem controlOf_take (k : Nat) (flags : List Bool) :
    controlOf k (flags.take k) = controlOf k flags := by
  induction k generalizing flags with
  | zero => rfl
  | succ k ih =>
      cases flags with
      | nil => rfl
      | cons flag rest => rw [List.take_succ_cons, controlOf, controlOf, ih]

/-- The number of items that share a control word. -/
def groupSize : Nat := 31

/-- The flags of items: a match has a one. -/
def flagsOf {μ : Type} (items : List (Item μ)) : List Bool := items.map fun i => !i.isLiteral

/-- The number of bytes of either size in a header. -/
def sizeWidth (wide : Bool) : Nat := if wide then 4 else 1

/-- The number of bytes of a header. -/
def headerLength (wide : Bool) : Nat := 1 + 2 * sizeWidth wide

/-- The number by which a stream names its level. -/
def Level.number : Level → Nat
  | .one => 1
  | .three => 3

/-- The flags of the header of a compressed stream.  The upper four bits are not used. -/
def headerFlags (wide : Bool) (level : Level) (upper : Nat) : Nat :=
  1 + 2 * wide.toNat + 4 * level.number + 16 * upper

namespace Scheme

variable {μ : Type} (S : Scheme μ)

/-- Items in groups, each group behind its control word. -/
def body : List (Item μ) → List UInt8
  | [] => []
  | i :: rest =>
    littleEndianBytes controlLength (controlOf groupSize (flagsOf ((i :: rest).take groupSize))) ++
      (((i :: rest).take groupSize).flatMap S.itemBytes ++ body ((i :: rest).drop groupSize))
termination_by items => items.length
decreasing_by
  rw [List.length_drop, List.length_cons, groupSize]
  omega

def header (wide : Bool) (upper streamSize dataSize : Nat) : List UInt8 :=
  UInt8.ofNat (headerFlags wide S.level upper) ::
    (littleEndianBytes (sizeWidth wide) streamSize ++ littleEndianBytes (sizeWidth wide) dataSize)

/-- The size of the stream for a list of items. -/
def streamSize (wide : Bool) (items : List (Item μ)) : Nat :=
  headerLength wide + (S.body items).length

/-- The stream for a list of items that stand for `dataSize` bytes. -/
def stream (wide : Bool) (upper : Nat) (items : List (Item μ)) (dataSize : Nat) : List UInt8 :=
  S.header wide upper (S.streamSize wide items) dataSize ++ S.body items

end Scheme

end QuickLz

end ResolverRecovery.Codec
