import ResolverRecovery.Text.Hex

/-!
# Operation codes

Only the operations that resolvers are recognised by have a constructor of their own.  Any other
one is kept by its number.

## Main definitions

* `Opcode`, with `Opcode.named`: all operations that have a name.
* `Opcode.mnemonic`, `Opcode.text`: the assembler's name, and the form written in listings.
* `Opcode.label`: the name in capitalised words, as configurations list it.
-/

namespace ResolverRecovery

/-- An operation of the intermediate language. -/
inductive Opcode where
  | nop
  | breakpoint
  | ldarg
  | ldloc
  | stloc
  | ldnull
  | ldcI4
  | ldcI8
  | ldstr
  | dup
  | pop
  | call
  | callvirt
  | newobj
  | newarr
  | ldtoken
  | ldsfld
  | stsfld
  | ldfld
  | stfld
  | br
  | brtrue
  | brfalse
  | ret
  | throw
  /-- An operation known by its number only. -/
  | other (code : UInt16)
  deriving DecidableEq

namespace Opcode

/-- The operations with a name, in the order of declaration. -/
def named : List Opcode :=
  [nop, breakpoint, ldarg, ldloc, stloc, ldnull, ldcI4, ldcI8, ldstr, dup, pop, call, callvirt,
    newobj, newarr, ldtoken, ldsfld, stsfld, ldfld, stfld, br, brtrue, brfalse, ret, throw]

/-- The assembler's name of the operation. -/
def mnemonic : Opcode → String
  | nop => "nop"
  | breakpoint => "break"
  | ldarg => "ldarg"
  | ldloc => "ldloc"
  | stloc => "stloc"
  | ldnull => "ldnull"
  | ldcI4 => "ldc.i4"
  | ldcI8 => "ldc.i8"
  | ldstr => "ldstr"
  | dup => "dup"
  | pop => "pop"
  | call => "call"
  | callvirt => "callvirt"
  | newobj => "newobj"
  | newarr => "newarr"
  | ldtoken => "ldtoken"
  | ldsfld => "ldsfld"
  | stsfld => "stsfld"
  | ldfld => "ldfld"
  | stfld => "stfld"
  | br => "br"
  | brtrue => "brtrue"
  | brfalse => "brfalse"
  | ret => "ret"
  | throw => "throw"
  | other _ => "<other>"

/-- The operation that the assembler calls by this name. -/
def ofMnemonic? (name : String) : Option Opcode :=
  named.find? fun op => op.mnemonic == name

/-- The form written in listings: the mnemonic, or the number in angle brackets. -/
def text : Opcode → String
  | other code => "<0x" ++ Text.hex 4 code.toNat ++ ">"
  | op => op.mnemonic

/-- The dot-separated words of a mnemonic joined with a capital letter each; an operation without a
name shows its decimal number. -/
def label : Opcode → String
  | other code => "Other(" ++ toString code.toNat ++ ")"
  | op => String.join ((op.mnemonic.splitOn ".").map String.capitalize)

/-- The operations that hand control to another method. -/
def isCall : Opcode → Bool
  | call | callvirt | newobj => true
  | _ => false

end Opcode

end ResolverRecovery
