import ResolverRecovery.Cil.Opcode
import ResolverRecovery.Metadata.Reference

/-!
# Instructions and method bodies

An instruction carries an operation, an operand that was resolved to a literal or a reference, and
its offset within the body.  Which operand goes with which operation is not fixed here.

## Main definitions

* `Operand`, `Instruction`, `Body`.
* `Instruction.literal?`, `Instruction.method?`, `Instruction.field?`: the operand, if of that kind.
* `Body.strip`: a body without the instructions of some operations.
-/

namespace ResolverRecovery

/-- What an operation is applied to. -/
inductive Operand where
  | none
  | literal (value : String)
  | integer (value : Int)
  | field (reference : FieldRef)
  | method (reference : MethodRef)
  | type (reference : TypeRef)
  deriving DecidableEq

/-- The written form, with the blank that separates it from the operation. -/
def Operand.text : Operand → String
  | .none => ""
  | .literal value => " \"" ++ value ++ "\""
  | .integer value => " " ++ toString value
  | .field r => " " ++ r.fieldType ++ " " ++ r.owner.fullName ++ "::" ++ r.name
  | .method r => " " ++ r.text
  | .type r => " " ++ r.fullName

/-- One instruction of a method body. -/
structure Instruction where
  offset : UInt32
  opcode : Opcode
  operand : Operand
  deriving DecidableEq

namespace Instruction

/-- The operand as a string literal. -/
def literal? (i : Instruction) : Option String :=
  match i.operand with
  | .literal value => some value
  | _ => none

/-- The operand as a method reference. -/
def method? (i : Instruction) : Option MethodRef :=
  match i.operand with
  | .method r => some r
  | _ => none

/-- The operand as a field reference. -/
def field? (i : Instruction) : Option FieldRef :=
  match i.operand with
  | .field r => some r
  | _ => none

/-- The literal that a load of a string loads. -/
def loadedString? (i : Instruction) : Option String :=
  if i.opcode = .ldstr then i.literal? else none

/-- A line of a listing: the offset, the operation and the operand. -/
def text (i : Instruction) : String :=
  "IL_" ++ Text.hex 4 i.offset.toNat ++ ": " ++ i.opcode.text ++ i.operand.text

end Instruction

/-- The body of a method. -/
structure Body where
  /-- The instructions in layout order. -/
  code : List Instruction
  /-- The types of the local variables, by full name. -/
  locals : List String
  deriving DecidableEq

namespace Body

/-- The body without the instructions whose operation is in `filler`.  The locals stay. -/
def strip (filler : List Opcode) (b : Body) : Body :=
  { b with code := b.code.filter fun i => !filler.contains i.opcode }

/-- The body with every literal that a string load loads replaced by its image. -/
def mapLoadedStrings (f : String → String) (b : Body) : Body :=
  { b with
    code := b.code.map fun i =>
      match i.loadedString? with
      | some value => { i with operand := .literal (f value) }
      | none => i }

end Body

end ResolverRecovery
