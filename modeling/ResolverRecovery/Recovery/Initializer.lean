import ResolverRecovery.Cil.Normalizer
import ResolverRecovery.Recovery.Workbench

/-!
# Initializers of resolver types

Before its handler can run, a resolver type is set up by a static method without parameters and
result, which raises a flag of the type and constructs an instance of it.  The method is found by
these two uses alone.

## Main definitions

* `InitializerLocator`: how bodies are normalized, and how many locals an initializer may have.
* `InitializerLocator.constructor?`: the constructor that the initializer calls.
* `InitializerLocator.candidates`: the methods that may be the initializer.
* `InitializerLocator.qualifies`: the two uses that make a method the initializer.
* `InitializerLocator.locate`: the first of the candidates that qualifies.
-/

namespace ResolverRecovery

/-- How initializers are looked for. -/
structure InitializerLocator where
  /-- Makes bodies readable. -/
  normalizer : Normalizer
  /-- The greatest number of local variables that an initializer may have. -/
  maxLocals : Nat

namespace InitializerLocator

/-- The first instance constructor of the type behind a token. -/
def constructor? (m : Module) (type : Token) : Option MethodRef := do
  let owner ← m.type? type
  let d ← (m.methodsOf owner).find? MethodDecl.isConstructor
  m.reference? d.token

/-- The static methods of a type that have a body, neither parameters nor a result, and few enough
local variables. -/
def candidates (l : InitializerLocator) (m : Module) (owner : TypeDecl) : List Token :=
  ((m.methodsOf owner).filter fun d =>
    d.isStaticWithBody && d.signature == Signature.void &&
      decide (d.locals.length ≤ l.maxLocals)).map MethodDecl.token

/-- The instruction stores to a truth value of the type. -/
def raisesFlag (owner : TypeRef) (i : Instruction) : Bool :=
  i.opcode == .stsfld &&
    i.field?.any fun r => r.fieldType == WellKnown.boolean && r.owner.denotes owner

/-- The instruction constructs an instance by the given constructor. -/
def constructs (constructor : MethodRef) (i : Instruction) : Bool :=
  i.opcode == .newobj && i.method?.any fun r => r.denotes constructor

/-- The code raises a flag of the type and constructs an instance of it. -/
def qualifies (owner : TypeRef) (constructor : MethodRef) (code : List Instruction) : Bool :=
  code.any (raisesFlag owner) && code.any (constructs constructor)

/-- Walks through candidates, normalizing one after the other, up to the first that qualifies. -/
def firstQualified (l : InitializerLocator) (owner : TypeRef) (constructor : MethodRef) :
    List Token → Work (Option Token)
  | [], w => .ok none w
  | t :: rest, w =>
    match (w.module.method? t).bind MethodDecl.body with
    | none => firstQualified l owner constructor rest w
    | some body =>
      match l.normalizer.normalize body with
      | .error e => .error e w
      | .ok normalized =>
        let w := w.storeNormalized t body normalized
          ("normalized initializer candidate " ++ t.text)
        if qualifies owner constructor normalized.code then
          .ok (some t) w
        else
          firstQualified l owner constructor rest w

/-- The first method of a type that qualifies as its initializer.  It is for the caller to judge
whether there has to be one. -/
def locate (l : InitializerLocator) (type : Token) (constructor : MethodRef) :
    Work (Option Token) := fun w =>
  match w.module.type? type with
  | none => .error (.malformed (.unknownType type)) w
  | some owner =>
    l.firstQualified owner.reference constructor (l.candidates w.module owner) w

/-- The written form, which shows the limit alone. -/
def describe (l : InitializerLocator) : String :=
  "InitializerLocator \x7b max_locals: " ++ toString l.maxLocals ++ ", .. \x7d"

end InitializerLocator

end ResolverRecovery
