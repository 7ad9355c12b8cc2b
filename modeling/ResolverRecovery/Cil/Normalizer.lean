import ResolverRecovery.Cil.Instruction
import ResolverRecovery.Error

/-!
# Normalizers

Before a body is read, a normalizer takes the padding out of it and, in a second step, puts the
plain text in place of encrypted literals.  Either step may fail.

## Main definitions

* `Normalizer`: the two steps.
* `Normalizer.stripping`: removes filler operations and leaves literals alone.
* `Normalizer.identity`: changes nothing.
* `Normalizer.tabulated`: works by tables, and may be told to fail.
-/

namespace ResolverRecovery

/-- How bodies are made readable. -/
structure Normalizer where
  /-- Takes out what does not belong to a body. -/
  normalize : Body → Except Error Body
  /-- Puts plain text in place of encrypted literals. -/
  decryptStrings : Body → Except Error Body

namespace Normalizer

/-- Removes the given operations and leaves literals alone. -/
def stripping (filler : List Opcode) : Normalizer where
  normalize b := .ok (b.strip filler)
  decryptStrings b := .ok b

/-- Removes `nop`. -/
def standard : Normalizer := stripping [.nop]

/-- Changes nothing. -/
def identity : Normalizer where
  normalize b := .ok b
  decryptStrings b := .ok b

/-- The tables of a tabulated normalizer. -/
structure Table where
  /-- The operations that are removed. -/
  dropped : List Opcode
  /-- The literals that are replaced, with what takes their place. -/
  strings : List (String × String)
  /-- The words with which the first step fails, if it is to fail. -/
  normalizeFailure : Option String
  /-- The words with which the second step fails, if it is to fail. -/
  stringsFailure : Option String
  /-- If given, the steps fail only for bodies that have this literal as an operand. -/
  failsOn : Option String

namespace Table

/-- The table fails on this body. -/
def concerns (t : Table) (b : Body) : Bool :=
  match t.failsOn with
  | none => true
  | some value => b.code.any fun i => i.literal? == some value

/-- Fails with the given words if there are any and the table fails on this body. -/
def guard (t : Table) (failure : Option String) (b : Body) (result : Body) : Except Error Body :=
  match failure with
  | some message => if t.concerns b then .error (.collaborator message) else .ok result
  | none => .ok result

/-- What takes the place of a literal. -/
def image (t : Table) (value : String) : String := (t.strings.lookup value).getD value

end Table

/-- Removes some operations, replaces some literals, and fails if told to. -/
def tabulated (t : Table) : Normalizer where
  normalize b := t.guard t.normalizeFailure b (b.strip t.dropped)
  decryptStrings b := t.guard t.stringsFailure b (b.mapLoadedStrings t.image)

end Normalizer

end ResolverRecovery
