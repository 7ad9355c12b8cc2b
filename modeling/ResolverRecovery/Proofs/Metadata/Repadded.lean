import ResolverRecovery.Proofs.Metadata.Reworked

/-!
# Modules that differ in filler

Filler does nothing, so that whoever reads a module should find the same in it however its bodies
are padded.  What is read of methods is the same in two modules that differ in filler if it is the
same of every method and of that method without its filler.

## Main definitions

* `MethodDecl.stripped`: a method without the filler in its body.
* `Module.Repadded`: two modules that differ in filler alone.

## Main statements

* `Module.Reworked.repadded`: taking filler out leaves a module that differs in filler alone.
* `Module.Repadded.map_find?_methodsOf`, `Module.Repadded.map_filter_methodsOf`,
  `Module.Repadded.findSome?_methodsOf`: reading the methods of a type.
* `Module.Repadded.read_method?`: reading the method behind a token.
-/

namespace ResolverRecovery

theorem Body.strip_strip (filler : List Opcode) (b : Body) :
    (b.strip filler).strip filler = b.strip filler := by
  simp only [strip, List.filter_filter, Bool.and_self]

/-! ### Methods without filler -/

namespace MethodDecl

variable {filler : List Opcode} {d : MethodDecl}

/-- The method without the filler in its body. -/
def stripped (filler : List Opcode) (d : MethodDecl) : MethodDecl := d.mapBody (Body.strip filler)

@[simp]
theorem token_stripped : (d.stripped filler).token = d.token := rfl

@[simp]
theorem signature_stripped : (d.stripped filler).signature = d.signature := rfl

@[simp]
theorem isStatic_stripped : (d.stripped filler).isStatic = d.isStatic := rfl

@[simp]
theorem body_stripped : (d.stripped filler).body = d.body.map (Body.strip filler) := rfl

@[simp]
theorem isStaticWithBody_stripped :
    (d.stripped filler).isStaticWithBody = d.isStaticWithBody := by
  simp only [isStaticWithBody, isStatic_stripped, body_stripped, Option.isSome_map]

@[simp]
theorem locals_stripped : (d.stripped filler).locals = d.locals := by
  simp only [locals, body_stripped, Option.map_map]
  rfl

@[simp]
theorem stripped_stripped : (d.stripped filler).stripped filler = d.stripped filler := by
  have htwice : Body.strip filler ∘ Body.strip filler = Body.strip filler :=
    funext (Body.strip_strip filler)
  simp only [stripped, mapBody, Option.map_map, htwice]

/-- What is read without regard to filler does not tell a method from the stripped one. -/
theorem comp_stripped {α : Type} {f : MethodDecl → α} (hf : ∀ d, f (d.stripped filler) = f d) :
    f ∘ stripped filler = f :=
  funext hf

end MethodDecl

namespace Module

/-- The modules have the same types and resources, and their methods are the same without filler. -/
structure Repadded (filler : List Opcode) (m m' : Module) : Prop where
  types : m'.types = m.types
  resources : m'.resources = m.resources
  method : ∀ t, (m'.method? t).map (MethodDecl.stripped filler) =
    (m.method? t).map (MethodDecl.stripped filler)

variable {filler : List Opcode} {m m' : Module}

/-- Taking filler out leaves a module that differs in filler alone. -/
theorem Reworked.repadded {touched : Token → Prop}
    (h : m.Reworked (Body.strip filler) touched m') : m.Repadded filler m' where
  types := h.types
  resources := h.resources
  method := by
    intro t
    rcases h.method t with hsame | ⟨-, hstripped⟩
    · rw [hsame]
    · rw [hstripped, Option.map_map]
      exact congrArg (Option.map · (m.method? t))
        (MethodDecl.comp_stripped fun d => MethodDecl.stripped_stripped)

namespace Repadded

variable (h : m.Repadded filler m')
include h

theorem type?_eq (t : Token) : m'.type? t = m.type? t := by
  simp only [type?, typeIndex?, h.types]

theorem resource?_eq (name : String) : m'.resource? name = m.resource? name := by
  simp only [resource?, h.resources]

theorem methodsOf_eq (t : TypeDecl) : (m'.methodsOf t).map (MethodDecl.stripped filler) =
    (m.methodsOf t).map (MethodDecl.stripped filler) := by
  simp only [methodsOf, List.map_filterMap, h.method]

section Reading

variable {α : Type} {p : MethodDecl → Bool}

/-- A method that is looked for without regard to filler is found in both modules, and the same is
read of it. -/
theorem map_find?_methodsOf {f : MethodDecl → α} (hp : ∀ d, p (d.stripped filler) = p d)
    (hf : ∀ d, f (d.stripped filler) = f d) (t : TypeDecl) :
    ((m'.methodsOf t).find? p).map f = ((m.methodsOf t).find? p).map f := by
  have hstripped : ∀ methods : List MethodDecl,
      ((methods.map (MethodDecl.stripped filler)).find? p).map f = (methods.find? p).map f := by
    intro methods
    rw [List.find?_map, MethodDecl.comp_stripped hp, Option.map_map, MethodDecl.comp_stripped hf]
  rw [← hstripped, h.methodsOf_eq, hstripped]

theorem map_filter_methodsOf {f : MethodDecl → α} (hp : ∀ d, p (d.stripped filler) = p d)
    (hf : ∀ d, f (d.stripped filler) = f d) (t : TypeDecl) :
    ((m'.methodsOf t).filter p).map f = ((m.methodsOf t).filter p).map f := by
  have hstripped : ∀ methods : List MethodDecl,
      ((methods.map (MethodDecl.stripped filler)).filter p).map f = (methods.filter p).map f := by
    intro methods
    rw [List.filter_map, MethodDecl.comp_stripped hp, List.map_map, MethodDecl.comp_stripped hf]
  rw [← hstripped, h.methodsOf_eq, hstripped]

theorem findSome?_methodsOf {f : MethodDecl → Option α} (hf : ∀ d, f (d.stripped filler) = f d)
    (t : TypeDecl) : (m'.methodsOf t).findSome? f = (m.methodsOf t).findSome? f := by
  have hstripped : ∀ methods : List MethodDecl,
      (methods.map (MethodDecl.stripped filler)).findSome? f = methods.findSome? f := by
    intro methods
    rw [List.findSome?_map, MethodDecl.comp_stripped hf]
  rw [← hstripped, h.methodsOf_eq, hstripped]

end Reading

/-- What is read of the method behind a token without regard to its filler is the same in both
modules. -/
theorem read_method? {α : Type} {f : MethodDecl → Option α}
    (hf : ∀ d, f (d.stripped filler) = f d) (t : Token) :
    (m'.method? t).bind f = (m.method? t).bind f := by
  have hstripped : ∀ found : Option MethodDecl,
      (found.map (MethodDecl.stripped filler)).bind f = found.bind f := by
    intro found
    rw [Option.bind_map, MethodDecl.comp_stripped hf]
  rw [← hstripped, h.method, hstripped]

theorem reference?_eq (t : Token) : m'.reference? t = m.reference? t := by
  have hread := h.read_method?
    (f := fun d => (m.type? d.owner).bind fun owner => some (d.reference owner.reference))
    (fun d => rfl) t
  simp only [reference?, h.type?_eq]
  exact hread

end Repadded

end Module

end ResolverRecovery
