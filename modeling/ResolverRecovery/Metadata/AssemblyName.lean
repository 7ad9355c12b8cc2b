import ResolverRecovery.Text.Blank

/-!
# Display names of assemblies

A display name starts with the simple name of an assembly and goes on with qualifiers after a comma,
such as the version.  A simple name that holds a comma itself is put in quotation marks.

## Main definitions

* `AssemblyName.simple`: the simple name that a display name starts with.
-/

namespace ResolverRecovery.AssemblyName

/-- The text between a quotation mark at the start and the next one. -/
def quoted? : List Char → Option (List Char)
  | '"' :: rest => if rest.contains '"' then some (rest.takeWhile (· != '"')) else none
  | _ => none

/-- The text up to the first comma without the blanks before it, or the whole text if there is no
comma. -/
def unqualified (s : List Char) : List Char :=
  if s.contains ',' then Text.trimEnd (s.takeWhile (· != ',')) else s

/-- The simple name in characters.  Blanks around the display name do not count. -/
def simpleChars (s : List Char) : List Char :=
  let trimmed := Text.trim s
  (quoted? trimmed).getD (unqualified trimmed)

/-- The simple name that a display name starts with. -/
def simple (displayName : String) : String :=
  String.ofList (simpleChars displayName.toList)

end ResolverRecovery.AssemblyName
