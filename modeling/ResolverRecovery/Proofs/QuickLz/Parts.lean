import Mathlib.Data.List.Basic
import ResolverRecovery.Codec.QuickLz

/-!
# Which parts of a stream are read

From the header on, the decoder reads a stream part by part: control words, literals and matches.
Control words and literals are looked for within the stream.  Matches are not: their bytes come out
of the look-ahead, which has zeros past the end.

A stream that can be decoded is therefore read within its bounds up to the last control word or
literal, and only matches behind that can lie outside.  There are streams of which the last match
does, so that a stream may be decoded although it has been cut.

## Main definitions

* `Part`: a part of a stream, and what it is taken for.
* `Adjoining`: parts that follow one another without a gap.
* `Frame.parts`: the parts that are read until the output is complete.
* `Header.ReadsBody`: the parts of a body, split where the stream ends.

## Main statements

* `Frame.step_eq_ok`: what a step that goes well reads.
* `Frame.run_passes`: parts adjoin, and control words and literals lie within the stream.
* `decompress_parts`: only matches at the end can lie outside, at level 3 the last one alone.
-/

namespace ResolverRecovery.Codec.QuickLz

/-- What a part of a stream is taken for. -/
inductive PartKind where
  | control
  | literal
  | copy
  deriving DecidableEq

/-- A part of a stream. -/
structure Part where
  kind : PartKind
  /-- The position of the first byte. -/
  start : Nat
  /-- The position behind the last byte. -/
  stop : Nat
  deriving DecidableEq

/-! ### Parts that follow one another -/

/-- The parts follow one another without a gap, from one position to another. -/
inductive Adjoining : Nat → List Part → Nat → Prop
  | nil (position : Nat) : Adjoining position [] position
  | cons (kind : PartKind) {start stop last : Nat} (hle : start ≤ stop) {parts : List Part}
      (rest : Adjoining stop parts last) : Adjoining start (⟨kind, start, stop⟩ :: parts) last

namespace Adjoining

variable {start middle stop size : Nat} {parts parts' : List Part}

theorem single (kind : PartKind) (hle : start ≤ stop) :
    Adjoining start [⟨kind, start, stop⟩] stop :=
  .cons kind hle (.nil stop)

theorem append (h : Adjoining start parts middle) (h' : Adjoining middle parts' stop) :
    Adjoining start (parts ++ parts') stop := by
  induction h with
  | nil position => exact h'
  | cons kind hle rest ih => exact .cons kind hle (ih h')

theorem le (h : Adjoining start parts stop) : start ≤ stop := by
  induction h with
  | nil position => exact Nat.le_refl position
  | cons kind hle rest ih => exact Nat.le_trans hle ih

/-- No part ends behind the position where the last one does. -/
theorem stop_le (h : Adjoining start parts stop) {p : Part} (hp : p ∈ parts) : p.stop ≤ stop := by
  induction h with
  | nil position => cases hp
  | cons kind hle rest ih =>
      rcases List.mem_cons.mp hp with rfl | hp
      · exact rest.le
      · exact ih hp

/-- No part ends before the position where the first one begins. -/
theorem le_stop (h : Adjoining start parts stop) {p : Part} (hp : p ∈ parts) : start ≤ p.stop := by
  induction h with
  | nil position => cases hp
  | cons kind hle rest ih =>
      rcases List.mem_cons.mp hp with rfl | hp
      · exact hle
      · exact Nat.le_trans hle (ih hp)

theorem le_of_inside (h : Adjoining start parts stop) (hstart : start ≤ size)
    (hinside : ∀ p ∈ parts, p.stop ≤ size) : stop ≤ size := by
  induction h with
  | nil position => exact hstart
  | cons kind hle rest ih =>
      obtain ⟨hfirst, hrest⟩ := List.forall_mem_cons.mp hinside
      exact ih hfirst hrest

/-- Where the parts stop is within the stream if and only if all of them are. -/
theorem le_iff {inside outside : List Part} (h : Adjoining start (inside ++ outside) stop)
    (hstart : start ≤ size) (hinside : ∀ p ∈ inside, p.stop ≤ size)
    (houtside : ∀ p ∈ outside, size < p.stop) : stop ≤ size ↔ outside = [] := by
  constructor
  · intro hsize
    refine List.eq_nil_iff_forall_not_mem.mpr fun p hp => ?_
    have hstop := h.stop_le (List.mem_append_right _ hp)
    exact absurd (houtside p hp) (Nat.not_lt_of_le (Nat.le_trans hstop hsize))
  · rintro rfl
    rw [List.append_nil] at h
    exact h.le_of_inside hstart hinside

/-- What does not lie within the stream is at the end. -/
theorem exists_inside (h : Adjoining start parts stop) (size : Nat) :
    ∃ inside outside, parts = inside ++ outside ∧ (∀ p ∈ inside, p.stop ≤ size) ∧
      ∀ p ∈ outside, size < p.stop := by
  induction h with
  | nil position => exact ⟨[], [], rfl, nofun, nofun⟩
  | @cons kind start stop last hle parts rest ih =>
      by_cases hstop : stop ≤ size
      · obtain ⟨inside, outside, rfl, hinside, houtside⟩ := ih
        exact ⟨⟨kind, start, stop⟩ :: inside, outside, rfl,
          List.forall_mem_cons.mpr ⟨hstop, hinside⟩, houtside⟩
      · have hlt : size < stop := Nat.lt_of_not_le hstop
        exact ⟨[], _, rfl, nofun, List.forall_mem_cons.mpr
          ⟨hlt, fun p hp => Nat.lt_of_lt_of_le hlt (rest.le_stop hp)⟩⟩

end Adjoining

/-! ### The parts of a run -/

/-- The control word at the cursor, if the last one is used up. -/
def State.controlPart (s : State) : List Part :=
  if s.control = 1 then [⟨.control, s.cursor, s.cursor + controlLength⟩] else []

/-- The literals at a position, and the control words that are passed over between them. -/
def literalParts : Nat → Nat → Nat → List Part
  | 0, _, _ => []
  | n + 1, control, cursor =>
    if control = 1 then
      ⟨.control, cursor, cursor + controlLength⟩ ::
        ⟨.literal, cursor + controlLength, cursor + controlLength + 1⟩ ::
          literalParts n (literalControl / 2) (cursor + controlLength + 1)
    else
      ⟨.literal, cursor, cursor + 1⟩ :: literalParts n (control / 2) (cursor + 1)

theorem kind_ne_of_mem_controlPart {s : State} {p : Part} (hp : p ∈ s.controlPart) :
    p.kind ≠ .copy := by
  rw [State.controlPart] at hp
  split at hp
  · rw [List.mem_singleton.mp hp]
    exact nofun
  · cases hp

theorem kind_ne_of_mem_literalParts {n control cursor : Nat} {p : Part}
    (hp : p ∈ literalParts n control cursor) : p.kind ≠ .copy := by
  induction n generalizing control cursor with
  | zero => cases hp
  | succ n ih =>
      rw [literalParts] at hp
      split at hp
      · rcases List.mem_cons.mp hp with rfl | hp
        · exact nofun
        · rcases List.mem_cons.mp hp with rfl | hp
          · exact nofun
          · exact ih hp
      · rcases List.mem_cons.mp hp with rfl | hp
        · exact nofun
        · exact ih hp

namespace Frame

/-- The parts that a step reads. -/
def stepParts (f : Frame) (s : State) : List Part :=
  match f.refill s with
  | .error _ _ => []
  | .ok _ t =>
    s.controlPart ++
      if t.control % 2 = 1 then
        match f.copyMatch t.shift with
        | .error _ _ => []
        | .ok _ u => [⟨.copy, t.cursor, u.cursor⟩]
      else if f.inBody t then
        [⟨.literal, t.cursor, t.cursor + 1⟩]
      else
        literalParts (f.size - t.written) t.control t.cursor

/-- The parts that are read until the output is complete. -/
def parts (f : Frame) (s : State) : List Part :=
  match _h : f.step s with
  | .error _ _ => []
  | .ok true _ => f.stepParts s
  | .ok false t => f.stepParts s ++ parts f t
termination_by f.budget s
decreasing_by exact step_decreases _h

/-- Reading the parts moves the cursor from one position to the other, and control words and
literals lie within the stream. -/
structure Passes (f : Frame) (start : Nat) (parts : List Part) (stop : Nat) : Prop where
  adjoining : Adjoining start parts stop
  inside : ∀ p ∈ parts, p.kind ≠ .copy → p.stop ≤ f.source.size

variable {f : Frame} {s t : State} {u : Unit}

namespace Passes

variable {start middle stop : Nat} {parts parts' : List Part}

theorem nil (f : Frame) (position : Nat) : f.Passes position [] position :=
  ⟨.nil position, nofun⟩

theorem append (h : f.Passes start parts middle) (h' : f.Passes middle parts' stop) :
    f.Passes start (parts ++ parts') stop :=
  ⟨h.adjoining.append h'.adjoining, List.forall_mem_append.mpr ⟨h.inside, h'.inside⟩⟩

theorem single (kind : PartKind) (hle : start ≤ stop) (hstop : stop ≤ f.source.size) :
    f.Passes start [⟨kind, start, stop⟩] stop :=
  ⟨.single kind hle, List.forall_mem_singleton.mpr fun _ => hstop⟩

theorem copy (f : Frame) (hle : start ≤ stop) : f.Passes start [⟨.copy, start, stop⟩] stop :=
  ⟨.single .copy hle, List.forall_mem_singleton.mpr fun hne => absurd rfl hne⟩

end Passes

/-! ### What a step reads -/

theorem refill_passes (h : f.refill s = .ok u t) : f.Passes s.cursor s.controlPart t.cursor := by
  rcases refill_eq_ok h with ⟨hleft, rfl⟩ | ⟨hdue, hroom, rfl⟩
  · rw [State.controlPart, if_neg hleft]
    exact .nil f _
  · rw [State.controlPart, if_pos hdue]
    exact .single _ (Nat.le_add_right _ _) hroom

theorem literal_passes (h : f.literal s = .ok u t) :
    f.Passes s.cursor [⟨.literal, s.cursor, s.cursor + 1⟩] t.cursor := by
  obtain ⟨hlt, -, rfl⟩ := literal_eq_ok h
  exact .single _ (Nat.le_succ _) hlt

theorem literals_passes {n : Nat} (h : f.literals n s = .ok u t) :
    f.Passes s.cursor (literalParts n s.control s.cursor) t.cursor := by
  induction n generalizing s with
  | zero =>
      cases h
      exact .nil f _
  | succ n ih =>
      by_cases hdue : s.control = 1
      · rw [literals, if_pos hdue] at h
        split at h
        · cases h
        · rename_i v hliteral
          have hrest := ih h
          obtain ⟨hlt, -, rfl⟩ := literal_eq_ok hliteral
          -- the control word is followed by a literal, which lies within the stream
          have hcontrolPart : f.Passes s.cursor
              [⟨.control, s.cursor, s.cursor + controlLength⟩] (s.cursor + controlLength) :=
            .single _ (Nat.le_add_right _ _) (Nat.le_of_lt hlt)
          rw [literalParts, if_pos hdue]
          exact hcontrolPart.append (.append (.single _ (Nat.le_succ _) hlt) hrest)
      · rw [literals, if_neg hdue] at h
        split at h
        · cases h
        · rename_i v hliteral
          have hrest := ih h
          obtain ⟨hlt, -, rfl⟩ := literal_eq_ok hliteral
          rw [literalParts, if_neg hdue]
          exact .append (.single _ (Nat.le_succ _) hlt) hrest

/-- A step that goes well reads a control word if one is due, and then a match, a literal of the
body, or all literals that are left. -/
theorem step_eq_ok {complete : Bool} (h : f.step s = .ok complete t) :
    ∃ v, f.refill s = .ok () v ∧
      ((∃ w, f.copyMatch v.shift = .ok () w ∧ complete = false ∧
          t = { w with lookahead := f.peek w.cursor } ∧
          f.stepParts s = s.controlPart ++ [⟨.copy, v.cursor, w.cursor⟩]) ∨
        (∃ w, f.literal v = .ok () w ∧ complete = false ∧ t = f.afterLiteral w.shift ∧
          f.stepParts s = s.controlPart ++ [⟨.literal, v.cursor, v.cursor + 1⟩]) ∨
        f.literals (f.size - v.written) v = .ok () t ∧ complete = true ∧
          f.stepParts s =
            s.controlPart ++ literalParts (f.size - v.written) v.control v.cursor) := by
  unfold step at h
  cases hrefill : f.refill s with
  | error fault v =>
      simp only [hrefill] at h
      cases h
  | ok _ v =>
      refine ⟨v, rfl, ?_⟩
      simp only [stepParts, hrefill] at h ⊢
      by_cases hodd : v.control % 2 = 1
      · rw [if_pos hodd] at h ⊢
        cases hcopy : f.copyMatch v.shift with
        | error fault w =>
            simp only [hcopy] at h
            cases h
        | ok _ w =>
            simp only [hcopy] at h
            cases h
            exact .inl ⟨w, rfl, rfl, rfl, rfl⟩
      · rw [if_neg hodd] at h ⊢
        by_cases hbody : f.inBody v
        · rw [if_pos hbody] at h ⊢
          cases hliteral : f.literal v with
          | error fault w =>
              simp only [hliteral] at h
              cases h
          | ok _ w =>
              simp only [hliteral] at h
              cases h
              exact .inr (.inl ⟨w, rfl, rfl, rfl, rfl⟩)
        · rw [if_neg hbody] at h ⊢
          cases hliterals : f.literals (f.size - v.written) v with
          | error fault w =>
              simp only [hliterals] at h
              cases h
          | ok _ w =>
              simp only [hliterals] at h
              cases h
              exact .inr (.inr ⟨rfl, rfl, rfl⟩)

theorem step_passes {complete : Bool} (h : f.step s = .ok complete t) :
    f.Passes s.cursor (f.stepParts s) t.cursor := by
  obtain ⟨v, hrefill, ⟨w, hcopy, -, rfl, hparts⟩ | ⟨w, hliteral, -, rfl, hparts⟩ |
    ⟨hliterals, -, hparts⟩⟩ := step_eq_ok h
  · rw [hparts]
    exact (refill_passes hrefill).append (.copy f (copyMatch_eq_ok hcopy).1)
  · have hpasses := (refill_passes hrefill).append (literal_passes hliteral)
    rw [hparts, cursor_afterLiteral]
    exact hpasses
  · rw [hparts]
    exact (refill_passes hrefill).append (literals_passes hliterals)

/-! ### What a run reads -/

theorem parts_of_complete (h : f.step s = .ok true t) : f.parts s = f.stepParts s := by
  rw [parts]
  split <;> simp_all

theorem parts_of_incomplete (h : f.step s = .ok false t) :
    f.parts s = f.stepParts s ++ f.parts t := by
  rw [parts]
  split <;> simp_all

/-- Parts adjoin, and control words and literals lie within the stream. -/
theorem run_passes (h : f.run s = .ok u t) : f.Passes s.cursor (f.parts s) t.cursor := by
  fun_induction f.run s with
  | case1 s fault v hstep => cases h
  | case2 s v hstep =>
      cases h
      rw [parts_of_complete hstep]
      exact step_passes hstep
  | case3 s v hstep ih =>
      rw [parts_of_incomplete hstep]
      exact (step_passes hstep).append (ih h)

/-! ### Past the end of the stream -/

theorem byte_eq_zero {position : Nat} (h : f.source.size ≤ position) : f.byte position = 0 := by
  rw [byte, Array.getD_eq_getD_getElem?, Array.getElem?_eq_none h]
  rfl

theorem peekWord_eq_zero {n position : Nat} (h : f.source.size ≤ position) :
    f.peekWord n position = 0 := by
  induction n generalizing position with
  | zero => rfl
  | succ n ih => rw [peekWord, byte_eq_zero h, ih (Nat.le_succ_of_le h)]

/-- Only matches are read past the end of the stream. -/
theorem Passes.eq_nil {start stop : Nat} {parts : List Part} (h : f.Passes start parts stop)
    (hstart : f.source.size < start) (hkind : ∀ p ∈ parts, p.kind ≠ .copy) : parts = [] := by
  refine List.eq_nil_iff_forall_not_mem.mpr fun p hp => ?_
  have hstop := h.inside p hp (hkind p hp)
  have hbehind := h.adjoining.le_stop hp
  omega

/-- At level 3 there is no match that consists of zeros. -/
theorem copyMatch_zero (hlevel : f.level = .three) (hlookahead : s.lookahead = 0) :
    f.copyMatch s ≠ .ok u t := by
  have hoffset : (Form.ofWord 0).offset 0 = 0 := by decide
  rw [copyMatch, hlevel]
  simp [offsetMatch, hlookahead, hoffset]

/-- Past the end of the stream and with nothing but zeros ahead, a step of level 3 reads nothing,
and goes well only if the output is complete. -/
theorem step_pastEnd (hlevel : f.level = .three) (hcursor : f.source.size < s.cursor)
    (hlookahead : s.lookahead = 0) {complete : Bool} (h : f.step s = .ok complete t) :
    complete = true ∧ f.stepParts s = [] := by
  obtain ⟨v, hrefill, hread⟩ := step_eq_ok h
  rcases refill_eq_ok hrefill with ⟨hleft, rfl⟩ | ⟨-, hroom, -⟩
  · rcases hread with ⟨w, hcopy, -⟩ | ⟨w, hliteral, -⟩ | ⟨hliterals, hcomplete, hparts⟩
    · exact absurd hcopy (copyMatch_zero hlevel hlookahead)
    · exact absurd (literal_eq_ok hliteral).1 (Nat.not_lt_of_lt hcursor)
    · refine ⟨hcomplete, ?_⟩
      rw [hparts, State.controlPart, if_neg hleft, List.nil_append]
      exact (literals_passes hliterals).eq_nil hcursor fun p => kind_ne_of_mem_literalParts
  · omega

theorem parts_pastEnd (hlevel : f.level = .three) (hcursor : f.source.size < s.cursor)
    (hlookahead : s.lookahead = 0) (h : f.run s = .ok u t) : f.parts s = [] := by
  rw [run] at h
  split at h
  · cases h
  · rename_i v hstep
    rw [parts_of_complete hstep]
    exact (step_pastEnd hlevel hcursor hlookahead hstep).2
  · rename_i v hstep
    cases (step_pastEnd hlevel hcursor hlookahead hstep).1

/-- A step that leads past the end of the stream has nothing but zeros ahead. -/
theorem lookahead_pastEnd (h : f.step s = .ok false t) (hcursor : f.source.size < t.cursor) :
    t.lookahead = 0 := by
  obtain ⟨v, -, ⟨w, -, -, rfl, -⟩ | ⟨w, hliteral, -, rfl, -⟩ | ⟨-, hcomplete, -⟩⟩ := step_eq_ok h
  · exact peekWord_eq_zero (Nat.le_of_lt hcursor)
  · obtain ⟨hlt, -, rfl⟩ := literal_eq_ok hliteral
    rw [cursor_afterLiteral] at hcursor
    exact absurd hlt (Nat.not_lt_of_le (Nat.le_of_lt_succ hcursor))
  · cases hcomplete

/-- All that a step reads before its last part lies within the stream. -/
theorem stepParts_dropLast {complete : Bool} (h : f.step s = .ok complete t) :
    ∀ p ∈ (f.stepParts s).dropLast, p.stop ≤ f.source.size := by
  intro p hp
  have hinside := (step_passes h).inside p (List.dropLast_subset _ hp)
  obtain ⟨v, hrefill, hread⟩ := step_eq_ok h
  rcases hread with ⟨w, -, -, -, hparts⟩ | ⟨w, -, -, -, hparts⟩ | ⟨-, -, hparts⟩
  · rw [hparts, List.dropLast_concat] at hp
    exact (refill_passes hrefill).inside p hp (kind_ne_of_mem_controlPart hp)
  · rw [hparts, List.dropLast_concat] at hp
    exact hinside (kind_ne_of_mem_controlPart hp)
  · have hmem := List.dropLast_subset _ hp
    rw [hparts] at hmem
    rcases List.mem_append.mp hmem with hcontrol | hliteral
    · exact hinside (kind_ne_of_mem_controlPart hcontrol)
    · exact hinside (kind_ne_of_mem_literalParts hliteral)

/-- At level 3 all that is read before the last part lies within the stream. -/
theorem parts_dropLast (hlevel : f.level = .three) (h : f.run s = .ok u t) :
    ∀ p ∈ (f.parts s).dropLast, p.stop ≤ f.source.size := by
  fun_induction f.run s with
  | case1 s fault v hstep => cases h
  | case2 s v hstep =>
      rw [parts_of_complete hstep]
      exact stepParts_dropLast hstep
  | case3 s v hstep ih =>
      rw [parts_of_incomplete hstep]
      by_cases hnil : f.parts v = []
      · rw [hnil, List.append_nil]
        exact stepParts_dropLast hstep
      · have hcursor : v.cursor ≤ f.source.size := by
          by_contra hpast
          have hcursor := Nat.lt_of_not_le hpast
          exact hnil (parts_pastEnd hlevel hcursor (lookahead_pastEnd hstep hcursor) h)
        rw [List.dropLast_append_of_ne_nil hnil]
        refine List.forall_mem_append.mpr ⟨fun p hp => ?_, ih h⟩
        exact Nat.le_trans ((step_passes hstep).adjoining.stop_le hp) hcursor

end Frame

/-! ### What is read of a stream -/

/-- The parts of a stream behind its header. -/
def Header.bodyParts (h : Header) (level : Level) (data : List UInt8) : List Part :=
  (h.frame level data).parts ((h.frame level data).start h.length)

/-- A body that can be decoded is decoded by a run. -/
theorem run_of_decodeBody {data out : List UInt8} {h : Header} {level : Level}
    (hbody : decodeBody h level data = .ok out) :
    ∃ s, (h.frame level data).run ((h.frame level data).start h.length) = .ok () s ∧
      out = s.output.toList := by
  unfold decodeBody at hbody
  cases hrun : (h.frame level data).run ((h.frame level data).start h.length) with
  | ok u s =>
      simp only [hrun] at hbody
      cases hbody
      exact ⟨s, rfl, rfl⟩
  | error fault s =>
      simp only [hrun] at hbody
      cases hbody

/-- A compressed stream that can be decoded is decoded by a run on its body. -/
theorem run_of_decompress {data out : List UInt8} {h : Header} (hread : Header.read data = .ok h)
    (hcompressed : h.compressed = true) (hok : decompress data = .ok out) :
    ∃ level s, Level.ofNat? h.level = some level ∧ h.fits data = true ∧
      (h.frame level data).run ((h.frame level data).start h.length) = .ok () s ∧
      out = s.output.toList := by
  simp only [decompress, hread, hcompressed] at hok
  split at hok
  · cases hok
  · rename_i level hlevel
    split at hok
    · cases hok
    · split at hok
      · contradiction
      · split at hok
        · cases hok
        · rename_i hfits
          obtain ⟨s, hrun, rfl⟩ := run_of_decodeBody hok
          exact ⟨level, s, hlevel, by simpa using hfits, hrun, rfl⟩

/-- How the body of a stream is read, until the cursor is where it stops: first what lies within
the stream, and then what does not. -/
structure Header.ReadsBody (h : Header) (level : Level) (data : List UInt8) (cursor : Nat)
    (inside outside : List Part) : Prop where
  parts_eq : h.bodyParts level data = inside ++ outside
  adjoining : Adjoining h.length (inside ++ outside) cursor
  stop_le : ∀ p ∈ inside, p.stop ≤ data.length
  /-- Control words and literals never lie outside. -/
  lt_stop : ∀ p ∈ outside, p.kind = .copy ∧ data.length < p.stop
  cursor_le_iff : cursor ≤ data.length ↔ outside = []
  /-- At level 3 it is the last match alone that can lie outside. -/
  length_outside : level = .three → outside.length ≤ 1

/-- If everything before the last part lies inside, there is one part outside at most. -/
theorem length_outside_le_one {inside outside : List Part} {size : Nat}
    (hlast : ∀ p ∈ (inside ++ outside).dropLast, p.stop ≤ size)
    (houtside : ∀ p ∈ outside, size < p.stop) : outside.length ≤ 1 := by
  match outside with
  | [] => exact Nat.zero_le 1
  | [p] => exact Nat.le_refl 1
  | p :: q :: rest =>
      have hmem : p ∈ (inside ++ p :: q :: rest).dropLast := by
        rw [List.dropLast_append_of_ne_nil (List.cons_ne_nil _ _)]
        exact List.mem_append_right _ List.mem_cons_self
      exact absurd (hlast p hmem) (Nat.not_le_of_lt (houtside p List.mem_cons_self))

/-- A stream that can be decoded is read without a gap from its header on, and within its bounds
except for matches at the end: the decoder does not check that the bytes of a match are there. -/
theorem decompress_parts {data out : List UInt8} {h : Header} (hread : Header.read data = .ok h)
    (hcompressed : h.compressed = true) (hok : decompress data = .ok out) :
    ∃ level s inside outside, Level.ofNat? h.level = some level ∧
      (h.frame level data).run ((h.frame level data).start h.length) = .ok () s ∧
      out = s.output.toList ∧ h.ReadsBody level data s.cursor inside outside := by
  obtain ⟨level, s, hlevel, hfits, hrun, rfl⟩ := run_of_decompress hread hcompressed hok
  obtain ⟨hadjoining, hwithin⟩ := Frame.run_passes hrun
  have hsize : (h.frame level data).source.size = data.length := List.size_toArray
  rw [hsize] at hwithin
  obtain ⟨inside, outside, hparts, hinside, houtside⟩ := hadjoining.exists_inside data.length
  rw [hparts] at hadjoining hwithin
  refine ⟨level, s, inside, outside, hlevel, hrun, rfl, hparts, hadjoining, hinside, ?_, ?_, ?_⟩
  · intro p hp
    refine ⟨?_, houtside p hp⟩
    by_contra hne
    exact absurd (hwithin p (List.mem_append_right _ hp) hne) (Nat.not_le_of_lt (houtside p hp))
  · have hstart : h.length ≤ data.length := by
      simp only [Header.fits, Bool.and_eq_true, beq_iff_eq, decide_eq_true_eq] at hfits
      omega
    exact hadjoining.le_iff hstart hinside houtside
  · intro hthree
    have hlast := Frame.parts_dropLast (f := h.frame level data) hthree hrun
    rw [hsize, hparts] at hlast
    exact length_outside_le_one hlast houtside

/-- A stream of level 3 that has been cut within its last match.  It announces eleven bytes of data,
which are one literal and a match of length ten. -/
def cutStream : List UInt8 := [0x0D, 9, 11, 0x02, 0x00, 0x00, 0x80, 0x61, 0x5E]

/-- The header of the stream, which fits it. -/
def cutHeader : Header := ⟨3, 9, 11, 3, true⟩

theorem read_cutStream : Header.read cutStream = .ok cutHeader := by
  decide +kernel

theorem decoded_cutStream : decompress cutStream = .ok (List.replicate 11 0x61) := by
  decide +kernel

theorem decompress_parts_cutStream :
    Header.read cutStream = .ok cutHeader ∧ cutHeader.compressed = true ∧
      decompress cutStream = .ok (List.replicate 11 0x61) ∧
      ∃ level s inside outside, Level.ofNat? cutHeader.level = some level ∧
        (cutHeader.frame level cutStream).run
          ((cutHeader.frame level cutStream).start cutHeader.length) = .ok () s ∧
        List.replicate 11 0x61 = s.output.toList ∧
        cutHeader.ReadsBody level cutStream s.cursor inside outside :=
  ⟨read_cutStream, rfl, decoded_cutStream,
    decompress_parts read_cutStream rfl decoded_cutStream⟩

/-- The stream is decoded although the second byte of its match is missing, and the cursor is left
behind the end. -/
theorem decompress_cutStream :
    Header.read cutStream = .ok cutHeader ∧ cutHeader.compressed = true ∧
      decompress cutStream = .ok (List.replicate 11 0x61) ∧
      cutHeader.bodyParts .three cutStream =
        [⟨.control, 3, 7⟩, ⟨.literal, 7, 8⟩, ⟨.copy, 8, 10⟩] ∧
      ∃ s, (cutHeader.frame .three cutStream).run
          ((cutHeader.frame .three cutStream).start cutHeader.length) = .ok () s ∧
        cutStream.length < s.cursor := by
  have hparts : cutHeader.bodyParts .three cutStream =
      [⟨.control, 3, 7⟩, ⟨.literal, 7, 8⟩, ⟨.copy, 8, 10⟩] := by decide +kernel
  obtain ⟨level, s, hlevel, -, hrun, -⟩ := run_of_decompress read_cutStream rfl decoded_cutStream
  obtain rfl : Level.three = level := Option.some.inj hlevel
  refine ⟨read_cutStream, rfl, decoded_cutStream, hparts, s, hrun, ?_⟩
  -- the cursor is where the last part stops
  refine (Frame.run_passes hrun).adjoining.stop_le (p := ⟨.copy, 8, 10⟩) ?_
  rw [← Header.bodyParts, hparts]
  exact List.mem_cons_of_mem _ (List.mem_cons_of_mem _ List.mem_cons_self)

end ResolverRecovery.Codec.QuickLz
