import ResolverRecovery.Proofs.QuickLz.Checked
import ResolverRecovery.Proofs.QuickLz.Parts

/-!
# Streams that nobody vouches for

Whatever a stream says of its sizes, its matches and its buckets, decoding it accesses nothing
outside of stream, output and buckets, and it ends with the data or with an error.  What is not
refused is as it should be, except for one thing: matches at the end of the stream may want bytes
that it does not have.

## Main definitions

* `State.Safe`: what is known of a step of the decoder.
* `Accepted`: what is known of a stream that is not refused.

## Main statements

* `Frame.Reaches.safe`: every step of every run is safe.
* `decompress_safe`: the same for a stream as a whole, and what an answer says of it.
* `decompress_cutBucketStream`: a stream of level 1 that is cut and not refused.
-/

namespace ResolverRecovery.Codec.QuickLz

/-- The step from a state stays within output and buckets, on every way and to its end. -/
structure State.Safe (f : Frame) (s : State) : Prop where
  inBounds : s.InBounds f
  /-- No access is outside an array, and no difference is below zero. -/
  checked : Checked.step f s = .ok (f.step s)
  ends : Ends (State.InBounds f) (f.step s)
  /-- A match is copied from before the write position to where there is room for it. -/
  copies : ∀ t u, f.refill s = .ok () t → f.copyMatch t.shift = .ok () u →
    f.matchSource t.shift < s.written ∧ s.written + f.matchLength t.shift ≤ f.size

namespace Frame

variable {f : Frame} {s t : State}

theorem Reaches.safe (h : f.Reaches s t) (hs : s.InBounds f) : t.Safe f where
  inBounds := h.inBounds hs
  checked := Checked.step_eq (h.inBounds hs)
  ends := step_inBounds (h.inBounds hs)
  copies u v hrefill hcopy := by
    rw [← written_of_refill hrefill]
    rcases copyMatch_cases f u.shift with ⟨fault, hrefused⟩ | ⟨hsource, hroom, -⟩
    · cases hrefused.symm.trans hcopy
    · exact ⟨hsource, hroom⟩

end Frame

/-- What is known of a stream that is not refused, and of the data in it. -/
inductive Accepted (data : List UInt8) : List UInt8 → Prop
  /-- The data is stored, and all of it is there. -/
  | stored {h : Header} {level : Level} (hread : Header.read data = .ok h)
      (hlevel : Level.ofNat? h.level = some level) (hstored : h.compressed = false)
      (hsize : h.streamSize ≤ data.length) (hroom : h.length + h.dataSize ≤ data.length) :
      Accepted data ((data.drop h.length).take h.dataSize)
  /-- The data is compressed.  From the header on the parts adjoin, every control word and every
  literal lies within the stream, and all of the data is written. -/
  | compressed {h : Header} {level : Level} {s : State} (hread : Header.read data = .ok h)
      (hlevel : Level.ofNat? h.level = some level) (hcompressed : h.compressed = true)
      (hfits : h.fits data = true)
      (hrun : (h.frame level data).run ((h.frame level data).start h.length) = .ok () s)
      (hpasses : (h.frame level data).Passes h.length (h.bodyParts level data) s.cursor)
      (hcomplete : s.written = h.dataSize) (hsize : s.output.size = h.dataSize) :
      Accepted data s.output.toList

/-- A stream that is not refused is accepted for what it holds. -/
theorem accepted_of_decompress {data out : List UInt8} (hok : decompress data = .ok out) :
    Accepted data out := by
  have hanswer := hok
  unfold decompress at hok
  split at hok
  · cases hok
  · rename_i h hread
    split at hok
    · cases hok
    · rename_i level hlevel
      split at hok
      · cases hok
      · rename_i hsize
        split at hok
        · rename_i hstored
          unfold stored at hok
          split at hok
          · cases hok
          · rename_i hroom
            cases hok
            exact .stored hread hlevel (by simpa using hstored) (by omega) (by omega)
        · rename_i hcompressed
          have hcompressed : h.compressed = true := by simpa using hcompressed
          obtain ⟨level', s, hlevel', hfits, hrun, rfl⟩ :=
            run_of_decompress hread hcompressed hanswer
          have hstart := State.InBounds.start (h.frame level' data) h.length
          have hend := (Frame.run_inBounds hstart).of_eq_ok hrun
          exact .compressed hread hlevel' hcompressed hfits hrun (Frame.run_passes hrun)
            (Frame.written_of_run hstart hrun) hend.size_output

/-- Decoding any stream accesses nothing outside of stream, output and buckets and subtracts nothing
below zero: all accesses can be checked, and the answer is the same.  Every step stays within its
bounds.  And what is not refused has a header that fits it, and control words and literals that lie
within it, so that only matches at its end can reach past it. -/
theorem decompress_safe (data : List UInt8) :
    Checked.decompress data = .ok (decompress data) ∧
      (∀ (h : Header) (level : Level) (s : State),
        (h.frame level data).Reaches ((h.frame level data).start h.length) s →
          s.Safe (h.frame level data)) ∧
      ∀ out, decompress data = .ok out → Accepted data out := by
  refine ⟨Checked.decompress_eq data, ?_, fun out => accepted_of_decompress⟩
  intro h level s hreaches
  exact hreaches.safe (State.InBounds.start (h.frame level data) h.length)

/-! ### A stream of level 1 that is cut -/

/-- A stream of level 1 that has been cut within its match.  It announces eleven bytes of data,
which are one literal and a match of length ten. -/
def cutBucketStream : List UInt8 := [0x05, 9, 11, 0x02, 0x00, 0x00, 0x80, 0x61, 0x08]

/-- The match takes two bytes from the last position of the stream, and the stream is not
refused. -/
theorem decompress_cutBucketStream :
    ∃ h, Header.read cutBucketStream = .ok h ∧ cutBucketStream.length = 9 ∧
      h.bodyParts .one cutBucketStream =
        [⟨.control, 3, 7⟩, ⟨.literal, 7, 8⟩, ⟨.copy, 8, 10⟩] ∧
      decompress cutBucketStream = .ok (List.replicate 11 0x61) :=
  ⟨⟨3, 9, 11, 1, true⟩, by decide +kernel, rfl, by decide +kernel, by decide +kernel⟩

end ResolverRecovery.Codec.QuickLz
