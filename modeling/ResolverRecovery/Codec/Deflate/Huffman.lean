import ResolverRecovery.Codec.Deflate.Bits

/-!
# Canonical prefix codes

A prefix code is given by the length of each symbol's code word.  Code words of one length are
consecutive numbers in the order of their symbols, and shorter ones come before longer ones; a
symbol of length zero has no code word.

## Main definitions

* `Tree`: a prefix code as a binary tree.
* `Tree.ofCompleteLengths`: the canonical code of lengths that fill the tree exactly.
* `Tree.ofLengths`: the same, and also the code of no symbol and the code of one bit for one symbol.
* `Tree.symbol`: reads a code word.

## Design notes

Lengths are fit for a code if the code words fill the tree exactly.  A message in which at most one
symbol occurs has no such code, and so two codes that leave room are let through where a message may
be like that: the code without code words, and the code whose only code word is a single bit.  A bit
that leads to no symbol is a fault when it is read.
-/

namespace ResolverRecovery.Codec.Deflate

/-- A prefix code: the bits of a code word lead from the root to the leaf of its symbol. -/
inductive Tree where
  | empty
  | leaf (symbol : Nat)
  | node (zero one : Tree)

namespace Tree

/-- The length of the longest code words. -/
def maxLength : Nat := 15

/-- The tree with a leaf put at the end of a path. -/
def insert (symbol : Nat) : List Bool → Tree → Tree
  | [], _ => leaf symbol
  | false :: path, node zero one => node (insert symbol path zero) one
  | true :: path, node zero one => node zero (insert symbol path one)
  | false :: path, _ => node (insert symbol path empty) empty
  | true :: path, _ => node empty (insert symbol path empty)

/-- The lowest `length` bits of `code`, highest first. -/
def path (length code : Nat) : List Bool :=
  (List.range length).reverse.map code.testBit

/-- The symbols that have a code word, each with its length, shorter ones first and otherwise in
order. -/
def coded (lengths : List Nat) : List (Nat × Nat) :=
  (List.range maxLength).flatMap fun n =>
    (lengths.zipIdx.filter fun p => p.1 == n + 1).map fun p => (p.2, p.1)

/-- The number of paths of the greatest length that begin with a path of the given length: the room
that a code word takes. -/
def room (length : Nat) : Nat := 1 <<< (maxLength - length)

/-- Puts the symbols into the tree one after the other.  The code words so far take up the room
`used`, and so the next one is the number of code words of its length that fit in there. -/
def place : List (Nat × Nat) → Nat → Tree → Tree
  | [], _, t => t
  | (symbol, length) :: rest, used, t =>
    place rest (used + room length) (t.insert symbol (path length (used / room length)))

/-- The canonical code of a list of lengths, the symbols being the positions in the list.  The code
words must fill the tree exactly. -/
def ofCompleteLengths (lengths : List Nat) : Except Fault Tree :=
  let symbols := coded lengths
  if symbols.foldl (fun used p => used + room p.2) 0 = room 0 then
    .ok (place symbols 0 empty)
  else
    .error .corrupt

/-- The canonical code of a list of lengths that may also be all zero, or all zero but for a one. -/
def ofLengths (lengths : List Nat) : Except Fault Tree :=
  match coded lengths with
  | [] => .ok (node empty empty)
  | [(symbol, 1)] => .ok (node (leaf symbol) empty)
  | _ => ofCompleteLengths lengths

/-- Reads a code word: a bit for every node on the way to a leaf. -/
def symbol : Tree → Read Nat
  | empty => throw .corrupt
  | leaf s => return s
  | node zero one => do
    if ← Bits.bit then symbol one else symbol zero

end Tree

end ResolverRecovery.Codec.Deflate
