import Mathlib.Data.Finset.Card
import Mathlib.Data.List.DropRight
import ResolverRecovery.Metadata.EmbeddedAssembly

/-!
# The spellings of an assembly's name

An assembly is registered under the simple name that its display name starts with, and it is looked
up by the simple name of whatever display name refers to it.  The two may be spelled in different
ways: with blanks around them, with qualifiers or without, and in quotation marks, which a simple
name with a comma in it needs.  All spellings of a simple name come down to that name, so that they
meet in the registry.

## Main definitions

* `AssemblyName.IsBare`: a simple name that needs no quotation marks.
* `AssemblyName.Spells`: the display names of a simple name.
* `AssemblyRegistry.ofCalls`: the registry after assemblies have been registered.

## Main statements

* `AssemblyName.simpleChars_of_spells`: a spelling comes down to the simple name.
* `AssemblyRegistry.find?_ofCalls`, `AssemblyRegistry.size_ofCalls`: what has been registered.
* `AssemblyRegistry.spellings_meet`: the last assembly of a simple name is found by all spellings.
-/

namespace ResolverRecovery

/-! ### Blanks -/

namespace Text

variable {blanks s : List Char} {c : Char}

theorem trimEnd_append_blanks (s : List Char) (h : ∀ c ∈ blanks, isBlank c = true) :
    trimEnd (s ++ blanks) = trimEnd s := by
  rw [trimEnd, List.reverse_append, List.dropWhile_append_of_pos, trimEnd]
  intro c hc
  exact h c (List.mem_reverse.mp hc)

/-- What stands before a character that is not blank stays, and so does the character. -/
theorem trimEnd_append_cons (s t : List Char) (hc : isBlank c = false) :
    trimEnd (s ++ c :: t) = s ++ c :: trimEnd t := by
  rw [trimEnd, List.reverse_append, List.reverse_cons, List.append_assoc, List.dropWhile_append,
    trimEnd]
  split
  · rename_i hblank
    rw [List.isEmpty_iff.mp hblank]
    simp [hc]
  · simp

theorem trimEnd_eq_self (h : ∀ c ∈ s.getLast?, isBlank c = false) : trimEnd s = s := by
  refine List.rdropWhile_eq_self_iff.mpr fun hne => ?_
  rw [h _ (List.getLast?_eq_some_getLast hne)]
  exact Bool.false_ne_true

theorem trim_blanks_append (s : List Char) (h : ∀ c ∈ blanks, isBlank c = true) :
    trim (blanks ++ s) = trim s := by
  rw [trim, List.dropWhile_append_of_pos h, trim]

theorem trim_append_blanks (s : List Char) (h : ∀ c ∈ blanks, isBlank c = true) :
    trim (s ++ blanks) = trim s := by
  rw [trim, trim, List.dropWhile_append]
  split
  · rename_i hblank
    rw [List.isEmpty_iff.mp hblank, List.dropWhile_eq_nil_iff.mpr h]
  · exact trimEnd_append_blanks _ h

theorem trim_of_head (h : ∀ c ∈ s.head?, isBlank c = false) : trim s = trimEnd s := by
  cases s with
  | nil => rfl
  | cons c s => rw [trim, List.dropWhile_cons_of_neg (by rw [h c rfl]; exact Bool.false_ne_true)]

end Text

namespace AssemblyName

variable {s t : List Char}

/-! ### The parts of a display name -/

/-- What stands before a character is all up to its first occurrence, if it is not in it. -/
theorem takeWhile_ne_append_cons {c : Char} (t : List Char) (h : c ∉ s) :
    (s ++ c :: t).takeWhile (· != c) = s := by
  have hbefore : ∀ b ∈ s, (b != c) = true := by
    intro b hb
    exact bne_iff_ne.mpr (ne_of_mem_of_not_mem hb h)
  rw [List.takeWhile_append_of_pos hbefore, List.takeWhile_cons_of_neg (by simp), List.append_nil]

theorem quoted?_append_quote (t : List Char) (h : '"' ∉ s) :
    quoted? ('"' :: (s ++ '"' :: t)) = some s := by
  rw [quoted?, if_pos (by simp), takeWhile_ne_append_cons t h]

theorem quoted?_eq_none (h : s.head? ≠ some '"') : quoted? s = none := by
  unfold quoted?
  split
  · exact absurd rfl h
  · rfl

theorem unqualified_append_comma (t : List Char) (h : ',' ∉ s) :
    unqualified (s ++ ',' :: t) = Text.trimEnd s := by
  rw [unqualified, if_pos (by simp), takeWhile_ne_append_cons t h]

theorem unqualified_eq_self (h : ',' ∉ s) : unqualified s = s := by
  rw [unqualified, if_neg (by simpa using h)]

/-! ### Spellings -/

/-- A simple name that can be written without quotation marks. -/
structure IsBare (s : List Char) : Prop where
  no_comma : ',' ∉ s
  no_quote : s.head? ≠ some '"'
  first : ∀ c ∈ s.head?, Text.isBlank c = false
  last : ∀ c ∈ s.getLast?, Text.isBlank c = false

theorem IsBare.trim_eq_self (h : IsBare s) : Text.trim s = s := by
  rw [Text.trim_of_head h.first, Text.trimEnd_eq_self h.last]

/-- Blanks and a comma behind the name are taken off it. -/
theorem IsBare.simpleChars_eq (h : IsBare s) {displayName : List Char} (behind : List Char)
    (hbehind : ∀ c ∈ behind, Text.isBlank c = true)
    (htrim : Text.trim displayName = s ++ (behind ++ ',' :: t)) : simpleChars displayName = s := by
  have hcomma : ',' ∉ s ++ behind := by
    rw [List.mem_append, not_or]
    exact ⟨h.no_comma, fun hmem => absurd (hbehind _ hmem) (by decide)⟩
  have hunquoted : (s ++ (behind ++ ',' :: t)).head? ≠ some '"' := by
    cases s with
    | cons c s => exact h.no_quote
    | nil =>
        cases behind with
        | cons c behind =>
            rintro ⟨⟩
            exact absurd (hbehind _ List.mem_cons_self) (by decide)
        | nil => exact nofun
  rw [simpleChars, htrim, quoted?_eq_none hunquoted, ← List.append_assoc]
  show unqualified _ = s
  rw [unqualified_append_comma _ hcomma, Text.trimEnd_append_blanks _ hbehind,
    Text.trimEnd_eq_self h.last]

/-- The display names of a simple name. -/
inductive Spells (s : List Char) : List Char → Prop
  /-- In quotation marks, with blanks before them and any text behind. -/
  | quoted {before : List Char} (rest : List Char) (hbefore : ∀ c ∈ before, Text.isBlank c = true)
      (hs : '"' ∉ s) : Spells s (before ++ '"' :: (s ++ '"' :: rest))
  /-- With blanks around it. -/
  | bare {before behind : List Char} (hbefore : ∀ c ∈ before, Text.isBlank c = true)
      (hbehind : ∀ c ∈ behind, Text.isBlank c = true) (hs : IsBare s) :
      Spells s (before ++ (s ++ behind))
  /-- With blanks around it, and any text behind a comma. -/
  | qualified {before behind : List Char} (rest : List Char)
      (hbefore : ∀ c ∈ before, Text.isBlank c = true)
      (hbehind : ∀ c ∈ behind, Text.isBlank c = true) (hs : IsBare s) :
      Spells s (before ++ (s ++ (behind ++ ',' :: rest)))

theorem simpleChars_of_spells {displayName : List Char} (h : Spells s displayName) :
    simpleChars displayName = s := by
  cases h with
  | quoted rest hbefore hs =>
      have hquote : Text.isBlank '"' = false := by decide
      rw [simpleChars, Text.trim_blanks_append _ hbefore, Text.trim_of_head (by simpa using hquote),
        ← List.cons_append, Text.trimEnd_append_cons _ _ hquote, List.cons_append,
        quoted?_append_quote _ hs]
      rfl
  | bare hbefore hbehind hs =>
      rw [simpleChars, Text.trim_blanks_append _ hbefore, Text.trim_append_blanks _ hbehind,
        hs.trim_eq_self, quoted?_eq_none hs.no_quote]
      exact unqualified_eq_self hs.no_comma
  | @qualified before behind rest hbefore hbehind hs =>
      have hcomma : Text.isBlank ',' = false := by decide
      cases s with
      | nil =>
          -- the blanks on both sides of an empty name are one row of blanks before the comma
          refine hs.simpleChars_eq [] nofun (t := Text.trimEnd rest) ?_
          rw [Text.trim_blanks_append _ hbefore, List.nil_append, Text.trim_blanks_append _ hbehind,
            Text.trim_of_head (by simpa using hcomma)]
          exact Text.trimEnd_append_cons [] rest hcomma
      | cons c s =>
          refine hs.simpleChars_eq behind hbehind (t := Text.trimEnd rest) ?_
          have hfirst : ∀ x ∈ (c :: s ++ (behind ++ ',' :: rest)).head?, Text.isBlank x = false :=
            hs.first
          rw [Text.trim_blanks_append _ hbefore, Text.trim_of_head hfirst, ← List.append_assoc,
            Text.trimEnd_append_cons _ _ hcomma, List.append_assoc]

end AssemblyName

/-! ### The registry -/

namespace AssemblyRegistry

variable {r : AssemblyRegistry} {a : EmbeddedAssembly} {name : String}

/-- The simple names of the assemblies. -/
def names (r : AssemblyRegistry) : List String := r.entries.map EmbeddedAssembly.simpleName

/-- An assembly that is registered is found under its simple name from then on, and what is found
under any other name stays. -/
theorem find?_register (r : AssemblyRegistry) (a : EmbeddedAssembly) (name : String) :
    (r.register a).find? name = if a.simpleName = name then some a else r.find? name := by
  have hold : (r.entries.filter fun b => b.simpleName != a.simpleName).find?
      (fun b => b.simpleName == name) = if a.simpleName = name then none else r.find? name := by
    rw [List.find?_filter]
    by_cases hname : a.simpleName = name
    · rw [if_pos hname, List.find?_eq_none]
      intro b _
      simp [hname]
    · have hother : (fun b : EmbeddedAssembly => decide ((b.simpleName != a.simpleName) = true ∧
          (b.simpleName == name) = true)) = fun b => b.simpleName == name := by
        funext b
        by_cases hb : b.simpleName = name
        · simp [hb, Ne.symm hname]
        · simp [hb]
      rw [if_neg hname, hother, find?]
  rw [find?, register, List.find?_append, hold, List.find?_singleton]
  by_cases hname : a.simpleName = name
  · simp [hname]
  · simp [hname]

/-- The name of the assembly is taken away from the others and put at the end. -/
theorem names_register (r : AssemblyRegistry) (a : EmbeddedAssembly) :
    (r.register a).names = (r.names.filter (· != a.simpleName)) ++ [a.simpleName] := by
  rw [names, register, List.map_append, names, List.filter_map]
  rfl

theorem mem_names_register :
    name ∈ (r.register a).names ↔ name ∈ r.names ∨ name = a.simpleName := by
  rw [names_register, List.mem_append, List.mem_filter, List.mem_singleton]
  by_cases hname : name = a.simpleName
  · simp [hname]
  · simp [hname]

theorem nodup_names_register (h : r.names.Nodup) : (r.register a).names.Nodup := by
  rw [names_register, List.nodup_append]
  refine ⟨h.sublist List.filter_sublist, List.nodup_singleton _, ?_⟩
  intro other hother name hname
  rw [List.mem_singleton.mp hname]
  exact bne_iff_ne.mp (List.mem_filter.mp hother).2

/-- The registry after assemblies have been registered one after the other, each by its display name
and the name of its resource. -/
def ofCalls (calls : List (String × String)) : AssemblyRegistry :=
  calls.foldl (fun r c => r.register (.ofDisplayName c.1 c.2)) empty

theorem ofCalls_concat (calls : List (String × String)) (c : String × String) :
    ofCalls (calls ++ [c]) = (ofCalls calls).register (.ofDisplayName c.1 c.2) := by
  rw [ofCalls, List.foldl_append, ofCalls]
  rfl

/-- Of the assemblies that were registered under a name, the last one is found. -/
theorem find?_ofCalls (calls : List (String × String)) (name : String) :
    (ofCalls calls).find? name =
      (calls.reverse.find? fun c => AssemblyName.simple c.1 == name).map fun c =>
        .ofDisplayName c.1 c.2 := by
  induction calls using List.reverseRecOn with
  | nil => rfl
  | append_singleton calls c ih =>
      rw [ofCalls_concat, find?_register, ih, List.reverse_concat, List.find?_cons]
      show (if AssemblyName.simple c.1 = name then _ else _) = _
      by_cases hname : AssemblyName.simple c.1 = name
      · rw [if_pos hname, beq_iff_eq.mpr hname]
        rfl
      · rw [if_neg hname, beq_eq_false_iff_ne.mpr hname]

theorem mem_names_ofCalls {calls : List (String × String)} :
    name ∈ (ofCalls calls).names ↔ name ∈ calls.map fun c => AssemblyName.simple c.1 := by
  induction calls using List.reverseRecOn with
  | nil => exact Iff.rfl
  | append_singleton calls c ih =>
      rw [ofCalls_concat, mem_names_register, ih, List.map_append, List.mem_append]
      exact or_congr_right List.mem_singleton.symm

theorem nodup_names_ofCalls (calls : List (String × String)) : (ofCalls calls).names.Nodup := by
  induction calls using List.reverseRecOn with
  | nil => exact List.nodup_nil
  | append_singleton calls c ih =>
      rw [ofCalls_concat]
      exact nodup_names_register ih

/-- There is one assembly for every simple name. -/
theorem size_ofCalls (calls : List (String × String)) :
    (ofCalls calls).size = (calls.map fun c => AssemblyName.simple c.1).toFinset.card := by
  have hsame : (ofCalls calls).names.toFinset =
      (calls.map fun c => AssemblyName.simple c.1).toFinset := by
    ext name
    rw [List.mem_toFinset, List.mem_toFinset, mem_names_ofCalls]
  rw [← hsame, List.toFinset_card_of_nodup (nodup_names_ofCalls calls), names, List.length_map,
    size]

/-- All spellings of a simple name meet.  They come down to it, and so the assembly that is found
under the simple name of a display name is the last one that was registered under a display name of
the same simple name, if there is one.  The registry holds one assembly for each simple name. -/
theorem spellings_meet :
    (∀ simpleName displayName : String,
      AssemblyName.Spells simpleName.toList displayName.toList →
        AssemblyName.simple displayName = simpleName) ∧
      ∀ calls : List (String × String),
        (∀ displayName : String,
          (ofCalls calls).find? (AssemblyName.simple displayName) =
            (calls.reverse.find? fun c =>
              AssemblyName.simple c.1 == AssemblyName.simple displayName).map fun c =>
                .ofDisplayName c.1 c.2) ∧
          (ofCalls calls).size = (calls.map fun c => AssemblyName.simple c.1).toFinset.card := by
  refine ⟨fun simpleName displayName hspells => ?_, fun calls => ⟨fun displayName => ?_, ?_⟩⟩
  · rw [AssemblyName.simple, AssemblyName.simpleChars_of_spells hspells, String.ofList_toList]
  · exact find?_ofCalls calls (AssemblyName.simple displayName)
  · exact size_ofCalls calls

end AssemblyRegistry

end ResolverRecovery
