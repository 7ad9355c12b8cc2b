import ResolverRecovery.Proofs.QuickLz.Stream

/-!
# Level 3

At level 3 a match says how far back it copies from.  Distance and length are packed in one of five
forms, of which each has room for some of the pairs only.

## Main definitions

* `OffsetMatch`: a match of level 3.
* `Form.holds`, `Form.pack`: the pairs that a form has room for, and how it packs them.
* `levelThree`: the scheme of level 3.

## Main statements

* `Form.unpack_pack`: form, distance and length are taken from the bytes ahead as they were packed.
* `levelThree_sound`: the decoder reads the matches of level 3.
* `decompress_levelThree`: decoding undoes the format of level 3.
-/

namespace ResolverRecovery.Codec.QuickLz

/-- A match of level 3. -/
structure OffsetMatch where
  /-- The form in which the match is written. -/
  form : Form
  offset : Nat
  length : Nat
  deriving DecidableEq

namespace Form

/-- The form has room for a distance and a length. -/
def holds (offset length : Nat) : Form → Bool
  | tiny => decide (offset < 64 ∧ length = 3)
  | distant => decide (offset < 16384 ∧ length = 3)
  | medium => decide (offset < 1024 ∧ 3 ≤ length ∧ length ≤ 18)
  | wide => decide (offset < 131072 ∧ 3 ≤ length ∧ length ≤ 33)
  | long => decide (offset < 131072 ∧ 3 ≤ length ∧ length ≤ 258)

/-- Distance and length as one number, with the tag of the form in the lowest bits. -/
def pack (offset length : Nat) : Form → Nat
  | tiny => 4 * offset
  | distant => 4 * offset + 1
  | medium => 64 * offset + 4 * (length - 3) + 2
  | wide => 128 * offset + 4 * (length - 2) + 3
  | long => 32768 * offset + 128 * (length - 3) + 3

theorem pack_lt {form : Form} {offset length : Nat} (h : form.holds offset length = true) :
    form.pack offset length < byteCapacity form.size := by
  cases form <;> simp only [holds, decide_eq_true_eq] at h <;>
    simp only [pack, size, byteCapacity] <;> omega

/-- Form, distance and length are taken from the bytes ahead as they were packed, whatever follows
within the window. -/
theorem unpack_pack {form : Form} {offset length above word : Nat}
    (h : form.holds offset length = true)
    (hword : word = form.pack offset length + byteCapacity form.size * above)
    (habove : above < byteCapacity (4 - form.size)) :
    ofWord word = form ∧ form.offset word = offset ∧ form.length word = length := by
  cases form with
  | tiny =>
      simp only [holds, decide_eq_true_eq, pack, size, byteCapacity] at h hword
      simp only [ofWord, Form.offset, Form.length]
      refine ⟨if_pos ?_, ?_, ?_⟩
      all_goals omega
  | distant =>
      simp only [holds, decide_eq_true_eq, pack, size, byteCapacity] at h hword
      simp only [ofWord, Form.offset, Form.length]
      rw [if_neg (by omega), if_pos (by omega)]
      refine ⟨rfl, ?_, ?_⟩
      all_goals omega
  | medium =>
      simp only [holds, decide_eq_true_eq, pack, size, byteCapacity] at h hword
      simp only [ofWord, Form.offset, Form.length]
      rw [if_neg (by omega), if_neg (by omega), if_pos (by omega)]
      refine ⟨rfl, ?_, ?_⟩
      all_goals omega
  | wide =>
      simp only [holds, decide_eq_true_eq, pack, size, byteCapacity] at h hword
      simp only [ofWord, Form.offset, Form.length]
      rw [if_neg (by omega), if_neg (by omega), if_neg (by omega), if_pos (by omega)]
      refine ⟨rfl, ?_, ?_⟩
      all_goals omega
  | long =>
      simp only [holds, decide_eq_true_eq, pack, size, byteCapacity, Nat.sub_self] at h hword habove
      simp only [ofWord, Form.offset, Form.length]
      rw [if_neg (by omega), if_neg (by omega), if_neg (by omega), if_neg (by omega)]
      refine ⟨rfl, ?_, ?_⟩
      all_goals omega

end Form

/-- A match of level 3 that leads to a byte of the data is copied. -/
theorem Frame.offsetMatch_eq {f : Frame} {s : State} {form : Form} {offset length : Nat}
    (hform : Form.ofWord s.lookahead = form) (hoffset : form.offset s.lookahead = offset)
    (hlength : form.length s.lookahead = length) (hpos : 1 ≤ offset) (hle : offset ≤ s.written)
    (hroom : s.written + length ≤ f.size) :
    f.offsetMatch s = .ok () { s with
      cursor := s.cursor + form.size
      output := copyForward length (s.written - offset) s.written s.output
      written := s.written + length } := by
  subst hform hoffset hlength
  rw [offsetMatch, if_neg (by omega)]
  exact copyWithin_eq (show s.written - _ < s.written by omega) hroom

/-- The scheme of level 3: a match copies from as far back as it says, which has to be within the
data. -/
def levelThree : Scheme OffsetMatch where
  level := .three
  length m := m.length
  source? h m :=
    if 1 ≤ m.offset ∧ m.offset ≤ h.output.length then some (h.output.length - m.offset) else none
  admits m := m.form.holds m.offset m.length
  bytes m := littleEndianBytes m.form.size (m.form.pack m.offset m.length)

/-- The look-ahead at a match of level 3 holds what its form packs, below what follows. -/
theorem lookahead_eq_of_levelThree {f : Frame} {s : State} {m : OffsetMatch} {rest : List UInt8}
    (hlevel : f.level = .three) (hadmits : levelThree.admits m = true)
    (hleft : f.source.toList.drop s.cursor = levelThree.bytes m ++ rest)
    (hlookahead : s.lookahead = f.peek s.cursor) :
    s.lookahead = m.form.pack m.offset m.length +
      byteCapacity m.form.size * f.peekWord (4 - m.form.size) (s.cursor + m.form.size) := by
  have hwindow : Level.window .three = m.form.size + (4 - m.form.size) := by
    cases m.form <;> rfl
  have hpacked : f.peekWord m.form.size s.cursor = m.form.pack m.offset m.length := by
    have hpeek := Frame.peekWord_of_drop_eq hleft
    rw [show (levelThree.bytes m).length = m.form.size from length_littleEndianBytes _ _] at hpeek
    exact hpeek.trans (littleEndian_littleEndianBytes (Form.pack_lt hadmits))
  rw [hlookahead, Frame.peek, hlevel, hwindow, Frame.peekWord_add, hpacked]

theorem levelThree_sound : levelThree.Sound where
  expansion := by
    intro m hadmits
    obtain ⟨form, offset, length⟩ := m
    simp only [levelThree, length_littleEndianBytes, maxExpansion] at hadmits ⊢
    cases form <;> simp only [Form.holds, decide_eq_true_eq] at hadmits <;>
      simp only [Form.size] <;> omega
  copyMatch := by
    intro f h s m source rest hlevel hknows hadmits _ hsource hroom hleft hlookahead
    have hlevel : f.level = .three := hlevel
    have hword := lookahead_eq_of_levelThree hlevel hadmits hleft hlookahead
    obtain ⟨hform, hoffset, hlength⟩ := Form.unpack_pack hadmits hword (f.peekWord_lt _ _)
    have hwritten := hknows.hasWritten.written
    simp only [levelThree, Option.ite_none_right_eq_some, Option.some.injEq] at hsource
    obtain ⟨⟨hpos, hle⟩, rfl⟩ := hsource
    have hmatch := Frame.offsetMatch_eq (f := f) hform hoffset hlength hpos (hwritten ▸ hle)
      (hwritten ▸ hroom)
    refine ⟨_, Eq.trans ?_ hmatch, ⟨?_, fun hone => ?_⟩, ?_, rfl⟩
    · rw [Frame.copyMatch, hlevel]
    · have hsource : h.output.length - m.offset < h.output.length := by omega
      refine hknows.hasWritten.copyForward hsource hroom rfl ?_
      simp only [hwritten]
      rfl
    · -- buckets are kept at level 1 only
      rw [hlevel] at hone
      exact Level.noConfusion hone
    · exact congrArg (s.cursor + ·) (length_littleEndianBytes _ _).symm

/-- Decoding undoes the format of level 3: the stream for a list of literals and matches, each match
in any form that has room for it, decompresses to the data that the list stands for. -/
theorem decompress_levelThree {items : List (Item OffsetMatch)} {data : List UInt8}
    (hdescribes : levelThree.Describes items data) {wide : Bool} {upper : Nat} (hupper : upper < 16)
    (hstream : levelThree.streamSize wide items < byteCapacity (sizeWidth wide))
    (hdata : data.length < byteCapacity (sizeWidth wide)) :
    decompress (levelThree.stream wide upper items data.length) = .ok data :=
  hdescribes.decompress_eq levelThree_sound hupper hstream hdata

/-- Two matches that overlap what they copy, and a second control word that is due in the tail. -/
theorem decompress_levelThree_overlapping :
    decompress (levelThree.stream false 0
      ([.literal 97, .literal 98, .copy ⟨.tiny, 2, 3⟩, .copy ⟨.wide, 1, 20⟩] ++
        (List.replicate 30 120).map .literal) 55) =
      .ok ([97, 98, 97, 98, 97] ++ List.replicate 20 97 ++ List.replicate 30 120) := by
  have hdescribes : levelThree.Describes
      ([.literal 97, .literal 98, .copy ⟨.tiny, 2, 3⟩, .copy ⟨.wide, 1, 20⟩] ++
        (List.replicate 30 120).map .literal)
      ([97, 98, 97, 98, 97] ++ List.replicate 20 97 ++ List.replicate 30 120) :=
    ⟨by decide +kernel, by decide +kernel, by decide +kernel⟩
  exact decompress_levelThree hdescribes (by decide) (by decide +kernel) (by decide +kernel)

end ResolverRecovery.Codec.QuickLz
