import ResolverRecovery.Cil.Instruction

/-!
# Looking for operation sequences among filler

Generated code is padded with instructions that do nothing, and the padding differs from build to
build.  A scanner looks for a sequence of operations and passes over filler between two of them,
never before the first.

## Main definitions

* `Scanner`: the set of filler operations.
* `Scanner.Match`: where a sequence was found, and the instructions that make it up.
* `Scanner.matchHere?`: a match that begins with the first instruction of a stream.
* `Scanner.find?`, `Scanner.findAll`: the first match from some position on, and all matches.
* `Alignment`: what a match is, said without the search.

## Design notes

The search walks over suffixes of the stream and counts the position on the side, so all of it is
structural recursion.  An element of the pattern that is itself filler is matched before it could be
passed over.
-/

namespace ResolverRecovery

/-- An instruction together with its position in the stream. -/
structure Placed where
  position : Nat
  instruction : Instruction
  deriving DecidableEq

/-- Passes over some operations while looking for others. -/
structure Scanner where
  /-- The operations that may stand between two elements of a pattern. -/
  filler : List Opcode

namespace Scanner

/-- Passes over `nop`. -/
def standard : Scanner := ⟨[.nop]⟩

/-- The operation is filler. -/
def isFiller (s : Scanner) (op : Opcode) : Bool := s.filler.contains op

/-- A run of instructions that spells a pattern. -/
structure Match where
  /-- The position of the first instruction of the run. -/
  start : Nat
  /-- The position after its last instruction. -/
  stop : Nat
  /-- The instructions that the elements of the pattern stand for, without the filler. -/
  placed : List Placed
  deriving DecidableEq

/-- Takes the rest of a pattern from a stream whose first instruction sits at `position`: the next
instruction either spells the next element, or is filler and passed over, or ends the attempt. -/
def follow (s : Scanner) : List Opcode → List Instruction → Nat → Option (List Placed)
  | [], _, _ => some []
  | _ :: _, [], _ => none
  | op :: ops, i :: rest, position =>
    if i.opcode = op then
      (follow s ops rest (position + 1)).map (⟨position, i⟩ :: ·)
    else if s.isFiller i.opcode then
      follow s (op :: ops) rest (position + 1)
    else
      none

/-- The match of a pattern that begins with the first instruction of the stream, which sits at
`position`.  The empty pattern has no match. -/
def matchHere? (s : Scanner) (pattern : List Opcode) (code : List Instruction) (position : Nat) :
    Option Match :=
  match pattern, code with
  | op :: ops, i :: rest =>
    if i.opcode = op then
      (follow s ops rest (position + 1)).map fun placed =>
        let last := (placed.getLast?.map Placed.position).getD position
        ⟨position, last + 1, ⟨position, i⟩ :: placed⟩
    else
      none
  | _, _ => none

/-- All matches in a stream whose first instruction sits at `position`. -/
def findAllFrom (s : Scanner) (pattern : List Opcode) : List Instruction → Nat → List Match
  | [], _ => []
  | i :: rest, position =>
    (s.matchHere? pattern (i :: rest) position).toList ++
      findAllFrom s pattern rest (position + 1)

/-- The first match in a stream whose first instruction sits at `position`. -/
def findFrom? (s : Scanner) (pattern : List Opcode) : List Instruction → Nat → Option Match
  | [], _ => none
  | i :: rest, position =>
    match s.matchHere? pattern (i :: rest) position with
    | some m => some m
    | none => findFrom? s pattern rest (position + 1)

/-- The first match that begins at `start` or later. -/
def find? (s : Scanner) (code : List Instruction) (start : Nat) (pattern : List Opcode) :
    Option Match :=
  s.findFrom? pattern (code.drop start) start

/-- Every match of the pattern, by ascending start. -/
def findAll (s : Scanner) (code : List Instruction) (pattern : List Opcode) : List Match :=
  s.findAllFrom pattern code 0

end Scanner

/-- An alignment of a pattern with a stream: a strictly ascending list of positions, one for each
element, at which the operations of the pattern stand, and between two of which there is nothing but
filler. -/
inductive Alignment (s : Scanner) (code : List Instruction) : List Opcode → List Nat → Prop where
  /-- A single element stands wherever its operation does. -/
  | single {op : Opcode} {position : Nat} {i : Instruction} (here : code[position]? = some i)
      (spells : i.opcode = op) : Alignment s code [op] [position]
  /-- An element stands before the rest of an alignment if only filler lies in between. -/
  | step {op next : Opcode} {ops : List Opcode} {position after : Nat} {positions : List Nat}
      {i : Instruction} (here : code[position]? = some i) (spells : i.opcode = op)
      (before : position < after)
      (between : ∀ k j, position < k → k < after → code[k]? = some j → s.isFiller j.opcode = true)
      (rest : Alignment s code (next :: ops) (after :: positions)) :
      Alignment s code (op :: next :: ops) (position :: after :: positions)

end ResolverRecovery
