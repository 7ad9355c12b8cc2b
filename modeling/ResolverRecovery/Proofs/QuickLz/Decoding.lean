import ResolverRecovery.Proofs.QuickLz.Buckets
import ResolverRecovery.Proofs.QuickLz.Cursor

/-!
# Decoding what was written

The decoder follows a list of items through the stream that it was written to.  A state is tied to
the items that are left by where it is in the stream, by what it knows of the data so far, and by
the look-ahead, which is what the bytes at the cursor say as long as a match can follow.  Every step
passes over one item and keeps these ties, up to the last bytes, which are read in one step.

What is particular to a level, namely that a match is read as it was written, is asked of the scheme
of that level (`Scheme.Sound`).

## Main definitions

* `State.Knows`: the decoder knows the history so far.
* `Scheme.Sound`: the decoder reads the matches of a level.
* `State.Tracks`: the decoder is at the items that are left and knows what came before.

## Main statements

* `State.Tracks.step_item`, `State.Tracks.step_tail`: what a step does in the body and behind it.
* `State.Tracks.run`: a run completes the data.
-/

namespace ResolverRecovery.Codec.QuickLz

variable {μ : Type}

/-! ### What is known of the data -/

namespace State

theorem Entered.congr {h : History} {s t : State} (hentered : s.Entered h)
    (hbuckets : t.buckets = s.buckets) (hnext : t.entered = s.entered) : t.Entered h where
  room := hbuckets ▸ hentered.room
  starts_lt := hentered.starts_lt
  entered_le := hnext ▸ hentered.entered_le
  pending := hnext ▸ hentered.pending
  entered_iff := hnext ▸ hentered.entered_iff
  latest := hbuckets ▸ hentered.latest

/-- The decoder has written the data so far, and at level 1 its buckets are up to date. -/
structure Knows (f : Frame) (h : History) (s : State) : Prop where
  hasWritten : s.HasWritten f h.output
  entered : f.level = .one → s.Entered h

namespace Knows

variable {f : Frame} {h : History} {s t : State}

theorem congr (hknows : s.Knows f h) (hwritten : t.written = s.written)
    (houtput : t.output = s.output) (hbuckets : t.buckets = s.buckets)
    (hnext : t.entered = s.entered) : t.Knows f h where
  hasWritten := hknows.hasWritten.congr hwritten houtput
  entered := fun hlevel => (hknows.entered hlevel).congr hbuckets hnext

theorem start (f : Frame) (cursor : Nat) : (f.start cursor).Knows f .empty where
  hasWritten := ⟨rfl, Array.size_replicate, List.nil_prefix⟩
  entered := fun _ => .start f cursor

/-- Behind a literal in the body buckets and output are up to date. -/
theorem literal (hknows : s.Knows f h) (hroom : h.output.length < f.size) (byte : UInt8) :
    (f.afterLiteral (s.write byte).shift).Knows f (h.append byte) := by
  have hwritten := (hknows.hasWritten.write hroom byte).congr (t := (s.write byte).shift) rfl rfl
  refine ⟨?_, fun hlevel => ?_⟩
  · refine hwritten.congr ?_ ?_
    all_goals
      rw [Frame.afterLiteral]
      split <;> simp [enterThrough]
  · have hposition : (s.write byte).shift.written = h.output.length + 1 := by
      rw [hwritten.written, List.length_append, List.length_singleton]
    by_cases hthree : 3 ≤ (s.write byte).shift.written
    · have hstep : State.Entered (h.append byte)
          ((s.write byte).shift.enter (h.output.length - 1 - s.entered)) :=
        (hknows.entered hlevel).append hwritten rfl rfl (by omega)
      refine hstep.congr ?_ ?_
      all_goals
        rw [Frame.afterLiteral, if_pos ⟨hlevel, hthree⟩]
        simp only [enterThrough, hposition]
        congr 2
        show h.output.length + 1 - 3 + 1 - s.entered = _
        omega
    · -- no position has three bytes yet, and there is none to enter
      have hstep : State.Entered (h.append byte) ((s.write byte).shift.enter 0) :=
        (hknows.entered hlevel).append hwritten rfl rfl (by omega)
      refine hstep.congr ?_ ?_
      all_goals
        rw [Frame.afterLiteral, if_neg fun hboth => hthree hboth.2]
        rfl

end Knows

end State

/-- The decoder reads the matches of a level as they are written. -/
structure Scheme.Sound (S : Scheme μ) : Prop where
  /-- The bytes of a match stand for no more data than the decoder allows for. -/
  expansion : ∀ m, S.admits m = true → S.length m ≤ maxExpansion * (S.bytes m).length
  /-- A match at the cursor is read, and what it stands for is copied. -/
  copyMatch : ∀ {f : Frame} {h : History} {s : State} {m : μ} {source : Nat} {rest : List UInt8},
    f.level = S.level → s.Knows f h → S.admits m = true → 3 ≤ S.length m →
      S.source? h m = some source → h.output.length + S.length m ≤ f.size →
      f.source.toList.drop s.cursor = S.bytes m ++ rest → s.lookahead = f.peek s.cursor →
      ∃ t, f.copyMatch s = .ok () t ∧ t.Knows f (h.copy source (S.length m)) ∧
        t.cursor = s.cursor + (S.bytes m).length ∧ t.control = s.control

/-- A copy from within the data to its end is made as it is asked for. -/
theorem Frame.copyWithin_eq {f : Frame} {s : State} {source length : Nat}
    (hsource : source < s.written) (hroom : s.written + length ≤ f.size) :
    f.copyWithin source length s = .ok () { s with
      output := copyForward length source s.written s.output
      written := s.written + length } := by
  rw [copyWithin, if_neg (by omega)]

/-! ### What items say of the data -/

namespace Scheme

variable {S : Scheme μ}

theorem prefix_of_extendAll? {h h' : History} {items : List (Item μ)}
    (hexpand : S.extendAll? h items = some h') : h.output <+: h'.output := by
  induction items generalizing h with
  | nil =>
      cases hexpand
      exact List.prefix_refl _
  | cons i rest ih =>
      obtain ⟨hnext, hextend, hrest⟩ := Option.bind_eq_some_iff.mp hexpand
      refine List.IsPrefix.trans ?_ (ih hrest)
      cases i with
      | literal byte =>
          cases hextend
          exact List.prefix_append _ _
      | copy m =>
          obtain ⟨source, -, rfl⟩ := Option.map_eq_some_iff.mp hextend
          exact prefix_repeatBack _ _ _

theorem output_of_extendAll?_literals {h h' : History} {bytes : List UInt8}
    (hexpand : S.extendAll? h (bytes.map .literal) = some h') : h'.output = h.output ++ bytes := by
  induction bytes generalizing h with
  | nil =>
      cases hexpand
      exact (List.append_nil _).symm
  | cons b bytes ih =>
      rw [ih hexpand, History.append, List.append_assoc, List.singleton_append]

/-- Behind the last place for a match there are literals only. -/
theorem exists_literals_of_fits {size position : Nat} {items : List (Item μ)}
    (hfits : S.fits size position items = true) (htail : size < position + tailLength) :
    ∃ bytes : List UInt8, items = bytes.map .literal := by
  induction items generalizing position with
  | nil => exact ⟨[], rfl⟩
  | cons i rest ih =>
      cases i with
      | literal byte =>
          obtain ⟨bytes, rfl⟩ := ih hfits (by omega)
          exact ⟨byte :: bytes, rfl⟩
      | copy m =>
          simp only [fits, Bool.and_eq_true, decide_eq_true_iff] at hfits
          omega

/-- An item that starts in the body is not the last one if the last one is a literal, which would
end far from the end of the data. -/
theorem ends_of_cons {h next h' : History} {i : Item μ} {rest : List (Item μ)}
    (hextend : S.extend? h i = some next) (hexpand : S.extendAll? next rest = some h')
    (hbody : h.output.length + tailLength ≤ h'.output.length)
    (hends : (i :: rest).getLast?.any Item.isLiteral = true) :
    rest.getLast?.any Item.isLiteral = true := by
  have hnonempty : rest ≠ [] := by
    rintro rfl
    cases hexpand
    cases i with
    | literal byte =>
        cases hextend
        rw [tailLength, History.length_append] at hbody
        omega
    | copy m => exact Bool.noConfusion hends
  rwa [List.getLast?_cons_of_ne_nil hnonempty] at hends

end Scheme

/-! ### Literals -/

namespace Frame

variable {f : Frame} {S : Scheme μ} {s : State}

theorem literal_eq {b : UInt8} {rest : List UInt8}
    (hleft : f.source.toList.drop s.cursor = b :: rest) (hroom : s.written < s.output.size) :
    f.literal s = .ok () (s.write b) := by
  rw [literal, getElem?_of_drop_eq_cons hleft]
  simp only [dif_pos hroom, State.write, Array.setIfInBounds]

end Frame

/-- The flags of literals are zeros, like those that nothing is said of. -/
theorem controlOf_flagsOf_literals (k : Nat) (bytes : List UInt8) :
    controlOf k (flagsOf (bytes.map (Item.literal (μ := μ)))) = controlOf k [] := by
  induction k generalizing bytes with
  | zero => rfl
  | succ k ih =>
      cases bytes with
      | nil => rfl
      | cons b bytes =>
          show controlOf (k + 1) (false :: flagsOf (bytes.map Item.literal)) = _
          rw [controlOf, controlOf, ih, Bool.toNat_false, Nat.zero_add]

namespace State

variable {f : Frame} {S : Scheme μ} {h : History} {k : Nat} {s : State}

/-- Literals at the end of the data are read one after the other, past any control word. -/
theorem Reads.literals {bytes out : List UInt8} (hreads : s.Reads f S k (bytes.map .literal))
    (hwritten : s.HasWritten f out) (hroom : out.length + bytes.length ≤ f.size) :
    ∃ t, f.literals bytes.length s = .ok () t ∧ t.HasWritten f (out ++ bytes) := by
  induction bytes generalizing s k out with
  | nil => exact ⟨s, rfl, by rwa [List.append_nil]⟩
  | cons b bytes ih =>
      rw [List.length_cons] at hroom
      -- a control word is passed over without a look, since only literals can follow it
      have hskip : ∃ j, State.Reads f S (j + 1) (.literal b :: bytes.map .literal)
          (if s.control = 1 then
            { s with cursor := s.cursor + controlLength, control := literalControl }
          else s) := by
        by_cases hused : s.control = 1
        · obtain rfl := hreads.control_eq_one_iff.mp hused
          rw [if_pos hused]
          refine ⟨30, hreads.regroup (List.cons_ne_nil _ _) rfl ?_⟩
          exact (controlOf_flagsOf_literals groupSize (b :: bytes)).symm
        · rw [if_neg hused]
          cases k with
          | zero => exact absurd (hreads.control_eq_one_iff.mpr rfl) hused
          | succ k => exact ⟨k, hreads⟩
      rw [List.length_cons, Frame.literals]
      generalize hs' : (if s.control = 1 then
        { s with cursor := s.cursor + controlLength, control := literalControl }
        else s) = s' at hskip
      obtain ⟨j, hreads'⟩ := hskip
      have hwritten' : s'.HasWritten f out := by
        refine hwritten.congr ?_ ?_
        all_goals
          rw [← hs']
          split <;> rfl
      have hliteral := Frame.literal_eq hreads'.item (by
        rw [hwritten'.written, hwritten'.size]
        omega)
      obtain ⟨t, hrun, ht⟩ := ih (s := (s'.write b).shift) (hreads'.next rfl rfl)
        ((hwritten'.write (by omega) b).congr rfl rfl) (by
          rw [List.length_append, List.length_singleton]
          omega)
      refine ⟨t, ?_, by rwa [List.append_assoc] at ht⟩
      simp only [hliteral]
      exact hrun

/-! ### Steps -/

/-- The decoder is at the items that are left and knows what came before, and as long as a match can
follow its look-ahead is up to date. -/
structure Tracks (f : Frame) (S : Scheme μ) (h : History) (k : Nat) (items : List (Item μ))
    (s : State) : Prop where
  reads : s.Reads f S k items
  knows : s.Knows f h
  /-- The look-ahead is up to date, unless a control word comes first. -/
  lookahead : k ≠ 0 → f.inBody s = true → s.lookahead = f.peek s.cursor

namespace Tracks

variable {items rest : List (Item μ)}

/-- At the start of the body all items are left. -/
theorem start {position : Nat} (hbody : f.source.toList.drop position = S.body items) :
    (f.start position).Tracks f S .empty 0 items where
  reads := ⟨Nat.zero_le _, rfl, hbody⟩
  knows := .start f position
  lookahead := fun hk => absurd rfl hk

/-- The decoder is in the body as long as the data so far is not too long. -/
theorem inBody_iff (htracks : s.Tracks f S h k items) :
    f.inBody s = true ↔ h.output.length + tailLength ≤ f.size := by
  rw [Frame.inBody, htracks.knows.hasWritten.written, decide_eq_true_iff]

/-- If there are items left, the next control word is read where it is due. -/
theorem refill (htracks : s.Tracks f S h k items) (hne : items ≠ []) :
    ∃ j t, f.refill s = .ok () t ∧ t.Tracks f S h (j + 1) items := by
  cases k with
  | succ k =>
      have hleft : s.control ≠ 1 := by
        rw [ne_eq, htracks.reads.control_eq_one_iff]
        exact Nat.succ_ne_zero k
      exact ⟨k, s, by rw [Frame.refill, if_neg hleft], htracks⟩
  | zero =>
      -- the control word is due, and being followed by items it is complete
      have hused := htracks.reads.control_eq_one_iff.mpr rfl
      have hword := htracks.reads.word hne
      have hlength := congrArg List.length hword
      rw [List.length_drop, List.length_append, length_littleEndianBytes, Array.length_toList]
        at hlength
      have hcontrol : f.peekWord controlLength s.cursor =
          controlOf groupSize (flagsOf items) := by
        have hpeek := Frame.peekWord_of_drop_eq hword
        rwa [length_littleEndianBytes,
          littleEndian_littleEndianBytes (controlOf_groupSize_lt _)] at hpeek
      have hread : f.refill s = .ok () (f.refilled s) := by
        rcases f.refill_cases s with ⟨hleft, -⟩ | ⟨-, hcut, -⟩ | ⟨-, -, hread⟩
        · exact absurd hused hleft
        · rw [controlLength] at hlength hcut
          omega
        · exact hread
      exact ⟨30, _, hread, htracks.reads.regroup hne rfl hcontrol,
        htracks.knows.congr rfl rfl rfl rfl, fun _ hbody => if_pos hbody⟩

/-- A literal in the body is passed over in a step. -/
theorem step_literal {b : UInt8} (htracks : s.Tracks f S h k (.literal b :: rest))
    (hbody : h.output.length + tailLength ≤ f.size) :
    ∃ j t, f.step s = .ok false t ∧ t.Tracks f S (h.append b) j rest := by
  obtain ⟨j, t, hrefill, ht⟩ := htracks.refill (List.cons_ne_nil _ _)
  have hroom : h.output.length < f.size := by
    rw [tailLength] at hbody
    omega
  have hflag : ¬t.control % 2 = 1 := by
    rw [ht.reads.control_mod]
    exact Bool.noConfusion
  have hliteral := Frame.literal_eq ht.reads.item (by
    rw [ht.knows.hasWritten.written, ht.knows.hasWritten.size]
    exact hroom)
  have hin := ht.inBody_iff.mpr hbody
  refine ⟨j, f.afterLiteral (t.write b).shift, ?_, ?_, ht.knows.literal hroom b, ?_⟩
  · rw [Frame.step, hrefill]
    simp only [if_neg hflag, if_pos hin, hliteral]
  · exact ht.reads.next (Frame.cursor_afterLiteral f _) (Frame.control_afterLiteral f _)
  · intro _ _
    rw [Frame.cursor_afterLiteral]
    refine Eq.trans ?_ (Frame.shiftedLookahead_eq_peek (s := (t.write b).shift) rfl
      (ht.lookahead (Nat.succ_ne_zero j) hin))
    rw [Frame.afterLiteral]
    split <;> simp [Frame.shiftedLookahead, enterThrough]

/-- A match is passed over in a step. -/
theorem step_copy (hsound : S.Sound) (hlevel : f.level = S.level) {m : μ} {source : Nat}
    (htracks : s.Tracks f S h k (.copy m :: rest))
    (hbody : h.output.length + tailLength ≤ f.size) (hadmits : S.admits m = true)
    (hlong : 3 ≤ S.length m) (hsource : S.source? h m = some source)
    (hroom : h.output.length + S.length m ≤ f.size) :
    ∃ j t, f.step s = .ok false t ∧ t.Tracks f S (h.copy source (S.length m)) j rest := by
  obtain ⟨j, t, hrefill, ht⟩ := htracks.refill (List.cons_ne_nil _ _)
  have hflag : t.control % 2 = 1 := ht.reads.control_mod.mpr rfl
  have hlookahead := ht.lookahead (Nat.succ_ne_zero j) (ht.inBody_iff.mpr hbody)
  obtain ⟨u, hcopy, hknows, hcursor, hcontrol⟩ :=
    hsound.copyMatch (s := t.shift) hlevel (ht.knows.congr rfl rfl rfl rfl) hadmits hlong hsource
      hroom ht.reads.item hlookahead
  refine ⟨j, { u with lookahead := f.peek u.cursor }, ?_, ?_, ?_, fun _ _ => rfl⟩
  · rw [Frame.step, hrefill]
    simp only [if_pos hflag, hcopy]
  · exact ht.reads.next hcursor hcontrol
  · exact hknows.congr rfl rfl rfl rfl

/-- An item in the body is passed over in a step, and the items behind it still fit. -/
theorem step_item (hsound : S.Sound) (hlevel : f.level = S.level) {i : Item μ} {next : History}
    (htracks : s.Tracks f S h k (i :: rest)) (hbody : h.output.length + tailLength ≤ f.size)
    (hextend : S.extend? h i = some next) (hroom : next.output.length ≤ f.size)
    (hfits : S.fits f.size h.output.length (i :: rest) = true) :
    ∃ j t, f.step s = .ok false t ∧ t.Tracks f S next j rest ∧
      S.fits f.size next.output.length rest = true := by
  cases i with
  | literal byte =>
      cases hextend
      obtain ⟨j, t, hstep, ht⟩ := htracks.step_literal hbody
      refine ⟨j, t, hstep, ht, ?_⟩
      rwa [History.length_append]
  | copy m =>
      obtain ⟨source, hsource, rfl⟩ := Option.map_eq_some_iff.mp hextend
      simp only [Scheme.fits, Bool.and_eq_true, decide_eq_true_iff] at hfits
      obtain ⟨⟨⟨hadmits, hlong⟩, -⟩, hfits⟩ := hfits
      rw [History.length_copy] at hroom
      obtain ⟨j, t, hstep, ht⟩ :=
        htracks.step_copy hsound hlevel hbody hadmits hlong hsource hroom
      refine ⟨j, t, hstep, ht, ?_⟩
      rwa [History.length_copy]

/-- The literals at the end of the data are read in one step, which is the last. -/
theorem step_tail {bytes : List UInt8} (htracks : s.Tracks f S h k (bytes.map .literal))
    (hne : bytes ≠ []) (htail : f.size < h.output.length + tailLength)
    (hsize : h.output.length + bytes.length = f.size) :
    ∃ t, f.step s = .ok true t ∧ t.HasWritten f (h.output ++ bytes) := by
  obtain ⟨j, t, hrefill, ht⟩ := htracks.refill (by simpa using hne)
  have hflag : ¬t.control % 2 = 1 := by
    cases bytes with
    | nil => exact absurd rfl hne
    | cons b bytes =>
        rw [ht.reads.control_mod]
        exact Bool.noConfusion
  have hout : ¬f.inBody t = true := by
    rw [ht.inBody_iff]
    omega
  have hcount : f.size - t.written = bytes.length := by
    rw [ht.knows.hasWritten.written]
    omega
  obtain ⟨u, hliterals, hu⟩ := ht.reads.literals ht.knows.hasWritten (Nat.le_of_eq hsize)
  refine ⟨u, ?_, hu⟩
  rw [Frame.step, hrefill]
  simp only [if_neg hflag, if_neg hout, hcount, hliterals]

end Tracks

/-! ### Runs -/

theorem run_of_step_false {t : State} (hstep : f.step s = .ok false t) : f.run s = f.run t := by
  rw [Frame.run]
  split <;> simp_all

theorem run_of_step_true {t : State} (hstep : f.step s = .ok true t) : f.run s = .ok () t := by
  rw [Frame.run]
  split <;> simp_all

/-- A run passes over all items that are left, and writes what they stand for. -/
theorem Tracks.run (hsound : S.Sound) (hlevel : f.level = S.level) {h' : History}
    {items : List (Item μ)} (htracks : s.Tracks f S h k items)
    (hexpand : S.extendAll? h items = some h') (hsize : h'.output.length = f.size)
    (hfits : S.fits f.size h.output.length items = true)
    (hends : items.getLast?.any Item.isLiteral = true) :
    ∃ t, f.run s = .ok () t ∧ t.HasWritten f h'.output := by
  -- every item of the body is a step, and what is left behind the body is one step more
  induction items generalizing s h k with
  | nil => exact Bool.noConfusion hends
  | cons i rest ih =>
      by_cases hbody : h.output.length + tailLength ≤ f.size
      · obtain ⟨next, hextend, hrest⟩ := Option.bind_eq_some_iff.mp hexpand
        have hroom : next.output.length ≤ f.size :=
          hsize ▸ (Scheme.prefix_of_extendAll? hrest).length_le
        have hends' := Scheme.ends_of_cons hextend hrest (hsize.symm ▸ hbody) hends
        obtain ⟨j, t, hstep, ht, hfits'⟩ :=
          htracks.step_item hsound hlevel hbody hextend hroom hfits
        obtain ⟨u, hrun, hu⟩ := ih ht hrest hfits' hends'
        exact ⟨u, (run_of_step_false hstep).trans hrun, hu⟩
      · obtain ⟨bytes, hbytes⟩ := Scheme.exists_literals_of_fits hfits (by omega)
        rw [hbytes] at htracks hexpand
        have houtput := Scheme.output_of_extendAll?_literals hexpand
        have hnonempty : bytes ≠ [] := by
          rintro rfl
          exact List.cons_ne_nil _ _ hbytes
        obtain ⟨t, hstep, ht⟩ := htracks.step_tail hnonempty (by omega) (by
          rw [← hsize, houtput, List.length_append])
        exact ⟨t, run_of_step_true hstep, houtput ▸ ht⟩

end State

end ResolverRecovery.Codec.QuickLz
