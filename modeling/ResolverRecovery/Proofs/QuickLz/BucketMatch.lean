import ResolverRecovery.Proofs.QuickLz.Stream

/-!
# Level 1

At level 1 a match names a bucket.  It copies from the latest item start of which the first three
bytes belong to that bucket, three bytes or more before the end of the data.  The position itself is
not in the stream: the decoder finds it in its buckets.

## Main definitions

* `BucketMatch`: a match of level 1.
* `levelOne`: the scheme of level 1.

## Main statements

* `levelOne_source?_eq_some_iff`: which position a match copies from.
* `levelOne_sound`: the decoder reads the matches of level 1.
* `decompress_levelOne`: decoding undoes the format of level 1.
-/

namespace ResolverRecovery.Codec.QuickLz

/-- A match of level 1. -/
structure BucketMatch where
  /-- The bucket of the bytes that are copied. -/
  bucket : Nat
  length : Nat
  /-- The match is written in two bytes and not in three. -/
  short : Bool
  deriving DecidableEq

namespace BucketMatch

/-- There is such a bucket, and the length can be written. -/
def holds (m : BucketMatch) : Bool :=
  decide (m.bucket < bucketCount ∧ 3 ≤ m.length ∧ m.length ≤ if m.short then 17 else 255)

/-- The bucket above four bits of length, which are zero if the length has a byte of its own. -/
def pack (m : BucketMatch) : Nat :=
  16 * m.bucket + if m.short then m.length - 2 else 0

/-- The match as it is written. -/
def bytes (m : BucketMatch) : List UInt8 :=
  littleEndianBytes 2 m.pack ++ if m.short then [] else [UInt8.ofNat m.length]

end BucketMatch

/-- The scheme of level 1: a match copies from the latest position of its bucket. -/
def levelOne : Scheme BucketMatch where
  level := .one
  length m := m.length
  source? h m :=
    (h.starts.filter fun p =>
      decide (p + 3 ≤ h.output.length) && h.bucketAt p == m.bucket).max?
  admits m := m.holds
  bytes m := m.bytes

/-- A match copies from the latest item start that belongs to its bucket. -/
theorem levelOne_source?_eq_some_iff {h : History} {m : BucketMatch} {source : Nat} :
    levelOne.source? h m = some source ↔
      (h.IsSource source ∧ h.bucketAt source = m.bucket) ∧
        ∀ p, h.IsSource p → h.bucketAt p = m.bucket → p ≤ source := by
  simp only [levelOne, List.max?_eq_some_iff, List.mem_filter, Bool.and_eq_true, decide_eq_true_eq,
    beq_iff_eq, History.IsSource, and_imp, and_assoc]

/-- A match of level 1 that copies from before the end of the data is copied, and positions are
entered up to its start. -/
theorem Frame.bucketMatch_eq {f : Frame} {s : State} {source length : Nat} {short : Bool}
    (hsource : s.buckets.getD (s.lookahead / 16 % bucketCount) 0 = source)
    (hshort : s.lookahead % 16 = if short then length - 2 else 0) (hlong : 3 ≤ length)
    (hbyte : short = false → f.byte (s.cursor + 2) = length)
    (hbefore : source < s.written) (hroom : s.written + length ≤ f.size) :
    f.bucketMatch s = .ok ()
      { State.enterThrough s.written { s with
          cursor := s.cursor + if short then 2 else 3
          output := copyForward length source s.written s.output
          written := s.written + length } with
        entered := s.written + length } := by
  have hlength : (if s.lookahead % 16 ≠ 0 then s.lookahead % 16 + 2 else f.byte (s.cursor + 2)) =
      length := by
    cases short with
    | true =>
        rw [hshort, if_pos rfl, if_pos (by omega)]
        omega
    | false =>
        rw [hshort]
        exact hbyte rfl
  have hsize : (if s.lookahead % 16 ≠ 0 then 2 else 3) = if short then 2 else 3 := by
    cases short with
    | true =>
        rw [hshort, if_pos rfl, if_pos (by omega)]
        rfl
    | false =>
        rw [hshort]
        rfl
  have hcopy := copyWithin_eq (f := f)
    (s := { s with cursor := s.cursor + if short then 2 else 3 }) hbefore hroom
  simp only [bucketMatch, hsource, hlength, hsize, hcopy, Nat.add_sub_cancel, State.enterThrough,
    State.written_enter]

/-- The look-ahead at a match of level 1 holds the bucket above four bits of length. -/
theorem lookahead_eq_of_levelOne {f : Frame} {s : State} {m : BucketMatch} {rest : List UInt8}
    (hlevel : f.level = .one) (hadmits : m.holds = true)
    (hleft : f.source.toList.drop s.cursor = m.bytes ++ rest)
    (hlookahead : s.lookahead = f.peek s.cursor) :
    s.lookahead / 16 % bucketCount = m.bucket ∧
      s.lookahead % 16 = if m.short then m.length - 2 else 0 := by
  simp only [BucketMatch.holds, decide_eq_true_eq] at hadmits
  obtain ⟨hbucket, hlong, hbound⟩ := hadmits
  rw [bucketCount] at hbucket
  have hbits : (if m.short then m.length - 2 else 0) < 16 := by
    split at hbound <;> rename_i hshort
    · rw [if_pos hshort]
      omega
    · rw [if_neg hshort]
      decide
  have hpacked : f.peekWord 2 s.cursor = m.pack := by
    rw [BucketMatch.bytes, List.append_assoc] at hleft
    have hpeek := Frame.peekWord_of_drop_eq hleft
    rw [length_littleEndianBytes] at hpeek
    refine hpeek.trans (littleEndian_littleEndianBytes ?_)
    rw [BucketMatch.pack]
    simp only [byteCapacity]
    omega
  have hword : s.lookahead = m.pack + byteCapacity 2 * f.peekWord 1 (s.cursor + 2) := by
    rw [hlookahead, Frame.peek, hlevel, Level.window, Frame.peekWord_add 2 1, hpacked]
  rw [BucketMatch.pack] at hword
  simp only [byteCapacity, bucketCount] at hword ⊢
  omega

theorem levelOne_sound : levelOne.Sound where
  expansion := by
    intro m hadmits
    obtain ⟨bucket, length, short⟩ := m
    have hbound : length ≤ if short then 17 else 255 := by
      simp only [levelOne, BucketMatch.holds, decide_eq_true_eq] at hadmits
      exact hadmits.2.2
    simp only [levelOne, BucketMatch.bytes, List.length_append, length_littleEndianBytes,
      maxExpansion]
    split at hbound <;> omega
  copyMatch := by
    intro f h s m source rest hlevel hknows hadmits hlong hsource hroom hleft hlookahead
    have hlevel : f.level = .one := hlevel
    have hentered := hknows.entered hlevel
    have hwritten := hknows.hasWritten.written
    obtain ⟨hbucket, hshort⟩ := lookahead_eq_of_levelOne hlevel hadmits hleft hlookahead
    obtain ⟨⟨hstart, hsame⟩, hlatest⟩ := levelOne_source?_eq_some_iff.mp hsource
    have hfound : s.buckets.getD (s.lookahead / 16 % bucketCount) 0 = source := by
      rw [hbucket, ← hsame]
      exact hentered.latest source hstart fun p hp hp' => hlatest p hp (hp'.trans hsame)
    have hbefore : source < h.output.length := by
      have := hstart.2
      omega
    have hbyte : m.short = false → f.byte (s.cursor + 2) = m.length := by
      intro hnot
      have hbytes : levelOne.bytes m = littleEndianBytes 2 m.pack ++ [UInt8.ofNat m.length] := by
        simp only [levelOne, BucketMatch.bytes, hnot, Bool.false_eq_true, if_false]
      have hdrop : f.source.toList.drop (s.cursor + 2) = UInt8.ofNat m.length :: rest := by
        rw [← List.drop_drop, hleft, hbytes, List.append_assoc,
          List.drop_left' (length_littleEndianBytes _ _), List.singleton_append]
      have hbound : m.length ≤ 255 := by
        simp only [levelOne, BucketMatch.holds, decide_eq_true_eq, hnot] at hadmits
        exact hadmits.2.2
      rw [Frame.byte_of_drop_eq_cons hdrop, UInt8.toNat_ofNat', Nat.mod_eq_of_lt (by omega)]
    have hmatch := Frame.bucketMatch_eq (f := f) hfound hshort hlong hbyte (hwritten ▸ hbefore)
      (hwritten ▸ hroom)
    have hcopied := hknows.hasWritten.copyForward (n := m.length) (t := { s with
        cursor := s.cursor + if m.short then 2 else 3
        output := copyForward m.length source s.written s.output
        written := s.written + m.length }) hbefore hroom rfl rfl
    refine ⟨_, Eq.trans ?_ hmatch, ⟨?_, fun _ => ?_⟩, ?_, ?_⟩
    · rw [Frame.copyMatch, hlevel]
    · refine hcopied.congr ?_ ?_
      all_goals simp [State.enterThrough]
    · have hle := hentered.entered_le
      refine hentered.copy hlong hcopied rfl rfl (n := s.written + 1 - s.entered) ?_
      omega
    · simp only [State.cursor_enterThrough, levelOne, BucketMatch.bytes, List.length_append,
        length_littleEndianBytes]
      cases m.short <;> rfl
    · exact State.control_enterThrough _ _

/-- Decoding undoes the format of level 1: the stream for a list of literals and matches, each match
copying from the latest item start of its bucket, decompresses to the data that the list stands
for. -/
theorem decompress_levelOne {items : List (Item BucketMatch)} {data : List UInt8}
    (hdescribes : levelOne.Describes items data) {wide : Bool} {upper : Nat} (hupper : upper < 16)
    (hstream : levelOne.streamSize wide items < byteCapacity (sizeWidth wide))
    (hdata : data.length < byteCapacity (sizeWidth wide)) :
    decompress (levelOne.stream wide upper items data.length) = .ok data :=
  hdescribes.decompress_eq levelOne_sound hupper hstream hdata

/-- The second match copies from where the first one starts, which belongs to the same bucket as the
start of the data. -/
theorem decompress_levelOne_latest :
    decompress (levelOne.stream false 0
      ([.literal 97, .literal 98, .literal 99, .copy ⟨1111, 7, true⟩, .copy ⟨1111, 20, false⟩] ++
        (List.replicate 30 120).map .literal) 60) =
      .ok ([97, 98, 99, 97, 98, 99, 97, 98, 99, 97] ++
        [97, 98, 99, 97, 98, 99, 97, 97, 98, 99, 97, 98, 99, 97, 97, 98, 99, 97, 98, 99] ++
        List.replicate 30 120) := by
  have hdescribes : levelOne.Describes
      ([.literal 97, .literal 98, .literal 99, .copy ⟨1111, 7, true⟩, .copy ⟨1111, 20, false⟩] ++
        (List.replicate 30 120).map .literal)
      ([97, 98, 99, 97, 98, 99, 97, 98, 99, 97] ++
        [97, 98, 99, 97, 98, 99, 97, 97, 98, 99, 97, 98, 99, 97, 97, 98, 99, 97, 98, 99] ++
        List.replicate 30 120) :=
    ⟨by decide +kernel, by decide +kernel, by decide +kernel⟩
  exact decompress_levelOne hdescribes (by decide) (by decide +kernel) (by decide +kernel)

end ResolverRecovery.Codec.QuickLz
