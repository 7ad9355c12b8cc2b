import ResolverRecovery.Proofs.QuickLz.Writing

/-!
# What a match leaves in the output

A match is copied byte by byte, from a position of the output to the write position.  Where it is
longer than the distance between the two, it reads what it has written itself.  That repeats the
window, which is what the output holds between the two positions when the match begins: every byte
behind it is the byte of the window at the index modulo the distance.

The bytes of a copy are known from `State.Appends` only in terms of the output that the copy leaves.
An induction on the index leads them back, one distance at a time, into the window, where the output
is still that from before.

## Main definitions

* `State.RepeatsWindow`: the match is copied, and the output behind the write position is the window
  over and over.

## Main statements

* `eq_window_of_shifted`: a sequence that agrees with itself a distance before repeats a window.
* `Frame.repeatsWindow_of_copyMatch`: what a match that is copied does.
* `Frame.copyMatch_repeats_window`: the same, and that a match that is refused changes nothing.
-/

namespace ResolverRecovery.Codec.QuickLz

/-- A sequence is the same as another one before `target`, and from there on, for `n` indices, the
same as it is itself from `source` on.  Then it repeats what the other one holds between the two. -/
theorem eq_window_of_shifted {α : Type} {before after : Nat → α} {source target n : Nat}
    (hsource : source < target) (hkept : ∀ i < target, after i = before i)
    (hshifted : ∀ i < n, after (target + i) = after (source + i)) :
    ∀ i < n, after (target + i) = before (source + i % (target - source)) := by
  intro i hi
  induction i using Nat.strongRecOn with
  | ind i ih =>
      rw [hshifted i hi]
      by_cases hwindow : i < target - source
      · rw [Nat.mod_eq_of_lt hwindow]
        exact hkept _ (by omega)
      · -- the byte is itself a copy, of an index that is smaller by the distance
        have hback : source + i = target + (i - (target - source)) := by omega
        rw [hback, ih _ (by omega) (by omega), Nat.mod_eq_sub_mod (Nat.le_of_not_lt hwindow)]

theorem mem_copyWrites {n source target i : Nat} (hi : i < n) :
    ⟨target + i, .output (source + i)⟩ ∈ copyWrites n source target := by
  induction n generalizing source target i with
  | zero => exact absurd hi (Nat.not_lt_zero i)
  | succ n ih =>
      cases i with
      | zero => exact List.mem_cons_self
      | succ i =>
          have hrest : ⟨target + 1 + i, .output (source + 1 + i)⟩ ∈
              copyWrites n (source + 1) (target + 1) := ih (Nat.lt_of_succ_lt_succ hi)
          rw [Nat.add_right_comm target, Nat.add_right_comm source] at hrest
          exact List.mem_cons_of_mem _ hrest

/-- The match is copied.  It leads from before the write position to where there is room for it,
fills the output with its window from the write position on, and changes nothing else there. -/
structure State.RepeatsWindow (f : Frame) (s t : State) : Prop where
  source_lt : f.matchSource s < s.written
  written_eq : t.written = s.written + f.matchLength s
  room : t.written ≤ s.output.size
  size_eq : t.output.size = s.output.size
  window : ∀ i < f.matchLength s, t.output[s.written + i]? =
    s.output[f.matchSource s + i % (s.written - f.matchSource s)]?
  kept : ∀ i, i < s.written ∨ s.written + f.matchLength s ≤ i → t.output[i]? = s.output[i]?

namespace Frame

variable {f : Frame} {s t : State}

/-- A match is copied only where there is room for it, from a position that is written. -/
theorem range_of_copyMatch (h : f.copyMatch s = .ok () t) :
    f.matchSource s < s.written ∧ s.written + f.matchLength s ≤ f.size := by
  rcases copyMatch_cases f s with ⟨_, hrefused⟩ | ⟨hsource, hroom, -⟩
  · cases hrefused.symm.trans h
  · exact ⟨hsource, hroom⟩

theorem repeatsWindow_of_copyMatch (hsize : s.output.size = f.size)
    (h : f.copyMatch s = .ok () t) : s.RepeatsWindow f t := by
  obtain ⟨hsource, hroom⟩ := range_of_copyMatch h
  have happends := (f.copyMatch_appends s).of_eq_ok h
  rw [matchWrites, h] at happends
  have hwritten : t.written = s.written + f.matchLength s := by
    rw [happends.written_eq, length_copyWrites]
  have hsame : t.output.size = s.output.size := by
    rw [eq_afterMatch h, output_afterMatch, size_copyForward]
  have hplace : t.written ≤ s.output.size := by
    rw [hwritten, hsize]
    exact hroom
  have hshifted : ∀ i < f.matchLength s,
      t.output[s.written + i]? = t.output[f.matchSource s + i]? := by
    intro i hi
    have hthere : f.matchSource s + i < t.output.size := by omega
    rw [happends.getElem?_target hplace (mem_copyWrites hi), Array.getElem?_eq_getElem hthere]
    exact congrArg some (Array.getElem_eq_getD 0).symm
  refine ⟨hsource, hwritten, hplace, hsame, ?_, ?_⟩
  · exact eq_window_of_shifted hsource (fun i hi => happends.getElem?_eq (.inl hi)) hshifted
  · intro i hi
    rw [← hwritten] at hi
    exact happends.getElem?_eq hi

/-- From any state of the decoder, which has an output of the declared size, a match that is copied
repeats its window, at either level, and one that is refused leaves output and write position as
they were. -/
theorem copyMatch_repeats_window (f : Frame) (s : State) (hsize : s.output.size = f.size) :
    (∀ t, f.copyMatch s = .ok () t → s.RepeatsWindow f t) ∧
      ∀ fault t, f.copyMatch s = .error fault t → t.output = s.output ∧ t.written = s.written := by
  refine ⟨fun t hcopied => repeatsWindow_of_copyMatch hsize hcopied, ?_⟩
  intro fault t hrefused
  rcases copyMatch_cases f s with ⟨_, hpast⟩ | ⟨-, -, hcopied⟩
  · cases hpast.symm.trans hrefused
    exact ⟨rfl, rfl⟩
  · cases hcopied.symm.trans hrefused

/-- Room for eight bytes of data. -/
def eightBytes : Frame := ⟨#[], .three, 8⟩

/-- Two of them are written. -/
def pairWritten (lookahead : Nat) : State :=
  { eightBytes.start 0 with
    written := 2
    output := #[1, 2, 0, 0, 0, 0, 0, 0]
    lookahead := lookahead }

/-- A match of length five at distance two repeats the pair, and one at distance zero is refused. -/
theorem copyMatch_repeats_window_pair :
    (pairWritten 138).output.size = eightBytes.size ∧
      (∃ t, eightBytes.copyMatch (pairWritten 138) = .ok () t ∧
        (pairWritten 138).RepeatsWindow eightBytes t ∧ t.output = #[1, 2, 1, 2, 1, 2, 1, 0]) ∧
      (pairWritten 0).output.size = eightBytes.size ∧
      ∃ fault t, eightBytes.copyMatch (pairWritten 0) = .error fault t ∧
        t.output = #[1, 2, 0, 0, 0, 0, 0, 0] ∧ t.written = 2 := by
  have hcopied : eightBytes.copyMatch (pairWritten 138) =
      .ok () (eightBytes.afterMatch (pairWritten 138)) := rfl
  have hrefused : eightBytes.copyMatch (pairWritten 0) =
      .error (.badOffset 0 2) (eightBytes.pastMatch (pairWritten 0)) := rfl
  exact ⟨rfl, ⟨_, hcopied, (copyMatch_repeats_window _ _ rfl).1 _ hcopied, rfl⟩,
    rfl, _, _, hrefused, (copyMatch_repeats_window _ _ rfl).2 _ _ hrefused⟩

end Frame

end ResolverRecovery.Codec.QuickLz
