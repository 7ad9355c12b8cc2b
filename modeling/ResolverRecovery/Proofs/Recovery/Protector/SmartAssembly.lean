import ResolverRecovery.Proofs.Cil.Pairs
import ResolverRecovery.Recovery.Protector.SmartAssembly

/-!
# Which types are taken for resolvers that load an assembly

A type is taken for a resolver of this family if it keeps an assembly in a static field and one of
its methods names an embedded assembly: it loads the display name as a string and hands it to the
next call.  Strings that name nothing, and loads and calls whose operands are of another kind, do
not keep a later pair from being found.

## Main definitions

* `SmartAssembly.NamesAt`: code names an embedded assembly at a position.
* `SmartAssembly.KeepsAssembly`: the type looks like that of a resolver, its methods aside.
* `SmartAssembly.Loads`: the method looks like a handler.

## Main statements

* `SmartAssembly.loadedAssembly?_eq_some_iff`: the assembly that code names is the first one.
* `SmartAssembly.classify_firstLoader`: which types are candidates, and which candidates they are.
-/

namespace ResolverRecovery

theorem TypeDecl.isSome_staticFieldOfType?_iff {t : TypeDecl} {fieldType : String} :
    (t.staticFieldOfType? fieldType).isSome = true ↔
      ∃ f ∈ t.fields, f.isStatic = true ∧ f.fieldType = fieldType := by
  simp only [staticFieldOfType?, List.find?_isSome, Bool.and_eq_true, beq_iff_eq]

namespace SmartAssembly

/-! ### Code that names an assembly -/

/-- The code loads a string at position `p` and hands it to the call that comes first behind that,
with nothing but filler in between, and the simple name in the string is that of a known
assembly. -/
def NamesAt (s : SmartAssembly) (code : List Instruction) (p : Nat) (info : EmbeddedAssembly) :
    Prop :=
  ∃ q offset offset' displayName callee,
    code[p]? = some ⟨offset, .ldstr, .literal displayName⟩ ∧
      p < q ∧ s.scanner.Passes code .call (p + 1) q ∧
      code[q]? = some ⟨offset', .call, .method callee⟩ ∧
      s.assemblies (AssemblyName.simple displayName) = some info

/-- The code names the assembly at some position, and none at any position before. -/
def NamesFirst (s : SmartAssembly) (code : List Instruction) (info : EmbeddedAssembly) : Prop :=
  ∃ p, s.NamesAt code p info ∧ ∀ p' < p, ∀ info', ¬s.NamesAt code p' info'

/-- The type has a static field for an assembly. -/
def KeepsAssembly (t : TypeDecl) : Prop :=
  ∃ f ∈ t.fields, f.isStatic = true ∧ f.fieldType = WellKnown.assembly

/-- The method is static and has a body, the code of which names an embedded assembly. -/
def Loads (s : SmartAssembly) (d : MethodDecl) : Prop :=
  d.isStatic = true ∧ ∃ b, d.body = some b ∧ ∃ p info, s.NamesAt b.code p info

variable {s : SmartAssembly} {code : List Instruction} {info : EmbeddedAssembly} {p : Nat}

/-- A load and a call name an assembly if their operands are a string, which names it, and a
method. -/
theorem namedAssembly?_pair_eq_some_iff {start stop : Nat} {load call : Placed} :
    s.namedAssembly? ⟨start, stop, [load, call]⟩ = some info ↔
      ∃ displayName callee, load.instruction.operand = .literal displayName ∧
        call.instruction.operand = .method callee ∧
        s.assemblies (AssemblyName.simple displayName) = some info := by
  obtain ⟨position, offset, opcode, operand⟩ := load
  obtain ⟨position', offset', opcode', operand'⟩ := call
  cases operand <;> cases operand' <;>
    simp [namedAssembly?, Instruction.literal?, Instruction.method?]

/-- A match at a position names an assembly if and only if the code does so there. -/
theorem namesAt_iff :
    s.NamesAt code p info ↔
      (s.scanner.matchHere? loadPattern (code.drop p) p).bind s.namedAssembly? = some info := by
  rw [Option.bind_eq_some_iff]
  constructor
  · rintro ⟨q, offset, offset', displayName, callee, hload, hlt, hpassed, hcall, hknown⟩
    exact ⟨_, Scanner.matchHere?_pair_iff.mpr ⟨q, _, _, hload, rfl, hlt, hpassed, hcall, rfl, rfl⟩,
      namedAssembly?_pair_eq_some_iff.mpr ⟨displayName, callee, rfl, rfl, hknown⟩⟩
  · rintro ⟨m, hmatch, hnamed⟩
    obtain ⟨q, ⟨offset, opcode, operand⟩, ⟨offset', opcode', operand'⟩, hload, rfl, hlt, hpassed,
      hcall, rfl, rfl⟩ := Scanner.matchHere?_pair_iff.mp hmatch
    obtain ⟨displayName, callee, rfl, rfl, hknown⟩ := namedAssembly?_pair_eq_some_iff.mp hnamed
    exact ⟨q, offset, offset', displayName, callee, hload, hlt, hpassed, hcall, hknown⟩

/-- The assembly that code names is the one that it names first. -/
theorem loadedAssembly?_eq_some_iff :
    s.loadedAssembly? code = some info ↔ s.NamesFirst code info := by
  simp only [loadedAssembly?, NamesFirst, Scanner.findSome?_findAll_eq_some_iff, namesAt_iff,
    Option.eq_none_iff_forall_ne_some]

-- a load without a string and a call without a method are passed over
example :
    let load : MethodRef :=
      ⟨⟨"System.Reflection", "Assembly", "mscorlib"⟩, "Load", ⟨WellKnown.assembly, []⟩⟩
    (SmartAssembly.mk (AssemblyRegistry.empty.register (.ofDisplayName "Lib" "lib")).find? ⟨[.nop]⟩
      ⟨.identity, 0⟩).loadedAssembly?
        [⟨0, .ldstr, .none⟩, ⟨5, .call, .method load⟩, ⟨10, .ldstr, .literal "Lib"⟩,
          ⟨15, .call, .none⟩, ⟨20, .ldstr, .literal "Lib, Version=1"⟩, ⟨25, .nop, .none⟩,
          ⟨26, .call, .method load⟩] =
      some (.ofDisplayName "Lib" "lib") := by decide +kernel

/-- Code names an assembly if it does so anywhere. -/
theorem isSome_loadedAssembly?_iff :
    (s.loadedAssembly? code).isSome = true ↔ ∃ p info, s.NamesAt code p info := by
  simp only [loadedAssembly?, Scanner.isSome_findSome?_findAll_iff, namesAt_iff]

/-! ### Methods and types -/

variable {m : Module} {t : TypeDecl} {d : MethodDecl} {c : Candidate}

theorem candidateOf?_eq_some_iff :
    s.candidateOf? t d = some c ↔ ∃ info, d.isStaticWithBody = true ∧
      s.loadedAssembly? d.code = some info ∧
      c = .ofType .smartAssembly t d.token (.assembly info) := by
  rw [candidateOf?]
  constructor
  · intro h
    split at h
    · rename_i hmethod
      obtain ⟨info, hinfo, rfl⟩ := Option.map_eq_some_iff.mp h
      exact ⟨info, hmethod, hinfo, rfl⟩
    · cases h
  · rintro ⟨info, hmethod, hinfo, rfl⟩
    rw [if_pos hmethod, hinfo, Option.map_some]

/-- A method is the handler of a candidate with the assembly that its code names first. -/
theorem candidateOf?_eq_some_iff_namesFirst :
    s.candidateOf? t d = some c ↔ d.isStatic = true ∧ ∃ b info, d.body = some b ∧
      s.NamesFirst b.code info ∧ c = .ofType .smartAssembly t d.token (.assembly info) := by
  simp only [candidateOf?_eq_some_iff, ← loadedAssembly?_eq_some_iff, MethodDecl.isStaticWithBody,
    Bool.and_eq_true, Option.isSome_iff_exists]
  constructor
  · rintro ⟨info, ⟨hstatic, b, hbody⟩, hinfo, hc⟩
    rw [MethodDecl.code, hbody] at hinfo
    exact ⟨hstatic, b, info, hbody, hinfo, hc⟩
  · rintro ⟨hstatic, b, info, hbody, hinfo, hc⟩
    refine ⟨info, ⟨hstatic, b, hbody⟩, ?_, hc⟩
    rw [MethodDecl.code, hbody]
    exact hinfo

theorem isSome_candidateOf?_iff : (s.candidateOf? t d).isSome = true ↔ s.Loads d := by
  simp only [Option.isSome_iff_exists, candidateOf?_eq_some_iff_namesFirst, Loads,
    ← isSome_loadedAssembly?_iff, ← loadedAssembly?_eq_some_iff]
  constructor
  · rintro ⟨c, hstatic, b, info, hbody, hinfo, -⟩
    exact ⟨hstatic, b, hbody, info, hinfo⟩
  · rintro ⟨hstatic, b, hbody, info, hinfo⟩
    exact ⟨_, hstatic, b, info, hbody, hinfo, rfl⟩

theorem classify_of_keepsAssembly (h : KeepsAssembly t) :
    s.classify m t = (m.methodsOf t).findSome? (s.candidateOf? t) := by
  rw [classify, if_pos (TypeDecl.isSome_staticFieldOfType?_iff.mpr h)]

theorem keepsAssembly_of_classify (h : s.classify m t = some c) : KeepsAssembly t := by
  rw [classify] at h
  split at h
  · rename_i hkeeps
    exact TypeDecl.isSome_staticFieldOfType?_iff.mp hkeeps
  · cases h

theorem isSome_classify_iff :
    (s.classify m t).isSome = true ↔ KeepsAssembly t ∧ ∃ d ∈ m.methodsOf t, s.Loads d := by
  constructor
  · intro h
    obtain ⟨c, hc⟩ := Option.isSome_iff_exists.mp h
    have hkeeps := keepsAssembly_of_classify hc
    rw [classify_of_keepsAssembly hkeeps, List.findSome?_isSome_iff] at h
    obtain ⟨d, hd, hsome⟩ := h
    exact ⟨hkeeps, d, hd, isSome_candidateOf?_iff.mp hsome⟩
  · rintro ⟨hkeeps, d, hd, hloads⟩
    rw [classify_of_keepsAssembly hkeeps, List.findSome?_isSome_iff]
    exact ⟨d, hd, isSome_candidateOf?_iff.mpr hloads⟩

theorem candidateOf?_eq_none_iff : s.candidateOf? t d = none ↔ ¬s.Loads d := by
  rw [← isSome_candidateOf?_iff (t := t), Option.not_isSome_iff_eq_none]

theorem classify_eq_some_iff :
    s.classify m t = some c ↔ KeepsAssembly t ∧
      ∃ before d after b info, m.methodsOf t = before ++ d :: after ∧
        (∀ d' ∈ before, ¬s.Loads d') ∧ d.isStatic = true ∧ d.body = some b ∧
        s.NamesFirst b.code info ∧ c = .ofType .smartAssembly t d.token (.assembly info) := by
  constructor
  · intro h
    have hkeeps := keepsAssembly_of_classify h
    rw [classify_of_keepsAssembly hkeeps, List.findSome?_eq_some_iff] at h
    obtain ⟨before, d, after, hsplit, hcandidate, hbefore⟩ := h
    obtain ⟨hstatic, b, info, hbody, hnames, rfl⟩ :=
      candidateOf?_eq_some_iff_namesFirst.mp hcandidate
    exact ⟨hkeeps, before, d, after, b, info, hsplit,
      fun d' hd' => candidateOf?_eq_none_iff.mp (hbefore d' hd'), hstatic, hbody, hnames, rfl⟩
  · rintro ⟨hkeeps, before, d, after, b, info, hsplit, hbefore, hstatic, hbody, hnames, rfl⟩
    rw [classify_of_keepsAssembly hkeeps, List.findSome?_eq_some_iff]
    exact ⟨before, d, after, hsplit,
      candidateOf?_eq_some_iff_namesFirst.mpr ⟨hstatic, b, info, hbody, hnames, rfl⟩,
      fun d' hd' => candidateOf?_eq_none_iff.mpr (hbefore d' hd')⟩

/-- A type is a candidate if and only if it has a static field for an assembly and one of its
methods names an embedded assembly, at whatever position.  The handler is the first such method, and
what it leads to is the assembly that it names first. -/
theorem classify_firstLoader (s : SmartAssembly) (m : Module) (t : TypeDecl) :
    ((s.classify m t).isSome = true ↔ KeepsAssembly t ∧ ∃ d ∈ m.methodsOf t, s.Loads d) ∧
      ∀ c, s.classify m t = some c ↔ KeepsAssembly t ∧
        ∃ before d after b info, m.methodsOf t = before ++ d :: after ∧
          (∀ d' ∈ before, ¬s.Loads d') ∧ d.isStatic = true ∧ d.body = some b ∧
          s.NamesFirst b.code info ∧ c = .ofType .smartAssembly t d.token (.assembly info) :=
  ⟨isSome_classify_iff, fun _ => classify_eq_some_iff⟩

end SmartAssembly

end ResolverRecovery
