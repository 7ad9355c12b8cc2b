import ResolverRecovery.Codec.Deflate.Huffman

/-!
# Deflate streams

A deflate stream is a sequence of blocks; the last one is marked.  A block holds its data as it is,
or as literals and matches in a prefix code, which is fixed or described at the start of the block.
What comes behind the last block is not looked at.

## Main definitions

* `Block`: the data of one block.
* `Deflate.decompress`: the data in a stream.

## Design notes

A recovery leaves deflate streams to the decoder of a library that is not part of it.  This decoder
stands for that one.  It follows the format, and in what the format leaves open, or forbids, it does
what has been observed of that decoder.  Nothing that is proved of a recovery depends on this: any
function that takes a stream to its data, or refuses it, would do in its place.

One observation is that a match may reach back before the start of the data, which the format
forbids.  The window that it reaches into starts out filled with zeros, so that it copies zeros from
there.

Every round of the loops over symbols and over blocks uses up at least one bit.  They are bounded by
the number of bits that are left, and a round that finds no bit reports the stream as incomplete.
-/

namespace ResolverRecovery.Codec.Deflate

/-! ### Lengths and distances -/

/-- A range of numbers: the least one, and how many bits are read and added to it. -/
structure Span where
  least : Nat
  /-- The number of bits that tell the numbers apart. -/
  extra : Nat

/-- Reads a number of a range. -/
def Span.read (r : Span) : Read Nat := return r.least + (← Bits.number r.extra)

/-- Consecutive ranges from a least number on, given by their bits. -/
def spansFrom : Nat → List Nat → List Span
  | _, [] => []
  | least, extra :: rest => ⟨least, extra⟩ :: spansFrom (least + 1 <<< extra) rest

/-- The lengths of matches by symbol, from symbol 257 on.  The greatest length has a symbol of its
own. -/
def lengthSpans : List Span :=
  spansFrom 3 [0, 0, 0, 0, 0, 0, 0, 0, 1, 1, 1, 1, 2, 2, 2, 2, 3, 3, 3, 3, 4, 4, 4, 4, 5, 5, 5,
    5] ++ [⟨258, 0⟩]

/-- The distances of matches by symbol. -/
def distanceSpans : List Span :=
  spansFrom 1 [0, 0, 0, 0, 1, 1, 2, 2, 3, 3, 4, 4, 5, 5, 6, 6, 7, 7, 8, 8, 9, 9, 10, 10, 11, 11, 12,
    12, 13, 13]

/-- Reads the number that belongs to a symbol.  A symbol without a range is a fault. -/
def readSpan (spans : List Span) (symbol : Nat) : Read Nat :=
  match spans[symbol]? with
  | some r => r.read
  | none => throw .corrupt

/-! ### Prefix codes of a block -/

/-- The two prefix codes that a compressed block is written in. -/
structure Codes where
  /-- The code of literals, of the end of the block and of lengths. -/
  literals : Tree
  /-- The code of distances. -/
  distances : Tree

/-- The codes of lists of lengths. -/
def Codes.ofLengths (literals distances : List Nat) : Except Fault Codes := do
  return ⟨← Tree.ofLengths literals, ← Tree.ofLengths distances⟩

/-- The lengths of the fixed code of literals. -/
def fixedLiteralLengths : List Nat :=
  List.replicate 144 8 ++ List.replicate 112 9 ++ List.replicate 24 7 ++ List.replicate 8 8

/-- The lengths of the fixed code of distances. -/
def fixedDistanceLengths : List Nat := List.replicate 32 5

/-- The order in which a block gives the lengths of the code for code lengths. -/
def lengthOrder : List Nat :=
  [16, 17, 18, 0, 8, 7, 9, 6, 10, 5, 11, 4, 12, 3, 13, 2, 14, 1, 15]

/-- Reads `n` numbers of three bits. -/
def tripleBits : Nat → Read (List Nat)
  | 0 => return []
  | n + 1 => return (← Bits.number 3) :: (← tripleBits n)

/-- What a symbol of the code for code lengths adds to the lengths that were read before it, the
latest of which comes first: a length, or a run of some length. -/
def lengthRun (symbol : Nat) (latestFirst : List Nat) : Read (List Nat) := do
  if symbol < 16 then
    return [symbol]
  else if symbol = 16 then
    match latestFirst with
    | [] => throw .corrupt
    | latest :: _ => return List.replicate (3 + (← Bits.number 2)) latest
  else if symbol = 17 then
    return List.replicate (3 + (← Bits.number 3)) 0
  else
    return List.replicate (11 + (← Bits.number 7)) 0

/-- Reads code lengths until there are `wanted`; a run must not go past that number.  At most
`rounds` symbols are read. -/
def codeLengths (code : Tree) (wanted : Nat) : Nat → List Nat → Read (List Nat)
  | 0, latestFirst => return latestFirst.reverse
  | rounds + 1, latestFirst => do
    if wanted ≤ latestFirst.length then
      if wanted < latestFirst.length then throw .corrupt
      return latestFirst.reverse
    let run ← lengthRun (← code.symbol) latestFirst
    codeLengths code wanted rounds (run.reverse ++ latestFirst)

/-- Reads the description of a block's codes.  The code for code lengths has to be complete. -/
def describedCodes : Read Codes := do
  let literalCount := 257 + (← Bits.number 5)
  let distanceCount := 1 + (← Bits.number 5)
  let lengthCount := 4 + (← Bits.number 4)
  if 286 < literalCount ∨ 30 < distanceCount then throw .corrupt
  let given := lengthOrder.zip (← tripleBits lengthCount)
  let code ← Tree.ofCompleteLengths
    ((List.range 19).map fun symbol => (given.lookup symbol).getD 0)
  let wanted := literalCount + distanceCount
  let lengths ← codeLengths code wanted (wanted + 1) []
  Codes.ofLengths (lengths.take literalCount) (lengths.drop literalCount)

/-! ### Blocks -/

/-- Appends `n` bytes, each of which repeats the one `distance` before it, or is zero where there is
none. -/
def repeatBack (distance : Nat) : Nat → Array UInt8 → Array UInt8
  | 0, data => data
  | n + 1, data =>
    let source := if distance ≤ data.size then data.getD (data.size - distance) 0 else 0
    repeatBack distance n (data.push source)

/-- Appends `n` bytes of the stream. -/
def storedBytes : Nat → Array UInt8 → Read (Array UInt8)
  | 0, data => return data
  | n + 1, data => do storedBytes n (data.push (← Bits.byte))

/-- Appends the data of a block that is stored as it is.  The size is given twice, the second time
with all bits changed. -/
def storedBlock (data : Array UInt8) : Read (Array UInt8) := do
  Bits.align
  let size ← Bits.number 16
  let inverted ← Bits.number 16
  if size + inverted ≠ 65535 then throw .corrupt
  storedBytes size data

/-- Appends the data of a compressed block, which has at most `rounds` symbols. -/
def compressedBlock (codes : Codes) : Nat → Array UInt8 → Read (Array UInt8)
  | 0, _ => throw .incomplete
  | rounds + 1, data => do
    let symbol ← codes.literals.symbol
    if symbol < 256 then
      compressedBlock codes rounds (data.push (UInt8.ofNat symbol))
    else if symbol = 256 then
      return data
    else
      let length ← readSpan lengthSpans (symbol - 257)
      let distance ← readSpan distanceSpans (← codes.distances.symbol)
      compressedBlock codes rounds (repeatBack distance length data)

/-- Appends the data of a block of the given kind. -/
def block (kind : Nat) (data : Array UInt8) : Read (Array UInt8) := do
  let bound := (← get).length + 1
  match kind with
  | 0 => storedBlock data
  | 1 => compressedBlock (← Codes.ofLengths fixedLiteralLengths fixedDistanceLengths) bound data
  | 2 => compressedBlock (← describedCodes) bound data
  | _ => throw .corrupt

/-- Appends the data of all blocks up to the one that is marked as the last, of at most `rounds`. -/
def blocks : Nat → Array UInt8 → Read (Array UInt8)
  | 0, _ => throw .incomplete
  | rounds + 1, data => do
    let last ← Bits.bit
    let data ← block (← Bits.number 2) data
    if last then return data else blocks rounds data

/-- The data in a stream. -/
def decompress (data : List UInt8) : Except Error (List UInt8) :=
  let bits := Bits.ofBytes data
  match blocks (bits.length + 1) #[] bits with
  | .ok (output, _) => .ok output.toList
  | .error fault => .error (.deflate fault)

end ResolverRecovery.Codec.Deflate
