import ResolverRecovery.Proofs.QuickLz.Decoding

/-!
# Whole streams

The header of a stream is read as it was written, and the sizes in it pass the checks that are made
before the body is decoded.

## Main statements

* `Scheme.read_stream`: the header of a stream is read back.
* `Scheme.Sound.length_le`: the data is within reach of the size of the stream.
* `Scheme.Describes.decompress_eq`: the stream for some items holds the data they stand for.
-/

namespace ResolverRecovery.Codec.QuickLz

variable {μ : Type} {S : Scheme μ}

/-! ### Headers -/

theorem Level.ofNat?_number (level : Level) : Level.ofNat? level.number = some level := by
  cases level <;> rfl

/-- The flags fit a byte, and each of them is where it is looked for. -/
theorem headerFlags_spec (wide : Bool) (level : Level) {upper : Nat} (h : upper < 16) :
    headerFlags wide level upper < 256 ∧ headerFlags wide level upper % 2 = 1 ∧
      headerFlags wide level upper / 2 % 2 = wide.toNat ∧
      headerFlags wide level upper / 4 % 4 = level.number := by
  have hwide : wide.toNat ≤ 1 := Bool.toNat_le wide
  have hlevel : level.number < 4 := by cases level <;> decide
  rw [headerFlags]
  omega

namespace Scheme

/-- The header of the stream for some items that stand for `dataSize` bytes. -/
def headerOf (S : Scheme μ) (wide : Bool) (items : List (Item μ)) (dataSize : Nat) : Header where
  length := headerLength wide
  streamSize := S.streamSize wide items
  dataSize := dataSize
  level := S.level.number
  compressed := true

theorem length_header (S : Scheme μ) (wide : Bool) (upper streamSize dataSize : Nat) :
    (S.header wide upper streamSize dataSize).length = headerLength wide := by
  rw [header, headerLength, List.length_cons, List.length_append, length_littleEndianBytes,
    length_littleEndianBytes]
  omega

theorem length_stream (S : Scheme μ) (wide : Bool) (upper : Nat) (items : List (Item μ))
    (dataSize : Nat) : (S.stream wide upper items dataSize).length = S.streamSize wide items := by
  rw [stream, List.length_append, length_header, streamSize]

/-- The header of a stream is read back if its sizes can be written. -/
theorem read_stream {wide : Bool} {upper dataSize : Nat} {items : List (Item μ)}
    (hupper : upper < 16) (hstream : S.streamSize wide items < byteCapacity (sizeWidth wide))
    (hdata : dataSize < byteCapacity (sizeWidth wide)) :
    Header.read (S.stream wide upper items dataSize) = .ok (S.headerOf wide items dataSize) := by
  obtain ⟨hbyte, hcompressed, hwide, hlevel⟩ := headerFlags_spec wide S.level hupper
  have hflags : (UInt8.ofNat (headerFlags wide S.level upper)).toNat =
      headerFlags wide S.level upper := by
    rw [UInt8.toNat_ofNat', Nat.mod_eq_of_lt hbyte]
  have hwidth : (if headerFlags wide S.level upper / 2 % 2 = 1 then 4 else 1) =
      sizeWidth wide := by
    rw [hwide]
    cases wide <;> rfl
  have hroom : ¬(littleEndianBytes (sizeWidth wide) (S.streamSize wide items) ++
      littleEndianBytes (sizeWidth wide) dataSize ++ S.body items).length <
        2 * sizeWidth wide := by
    rw [List.length_append, List.length_append, length_littleEndianBytes,
      length_littleEndianBytes]
    omega
  rw [stream, header, List.cons_append, Header.read]
  simp only [hflags, hwidth, if_neg hroom]
  rw [List.append_assoc, List.take_left' (length_littleEndianBytes _ _),
    List.drop_left' (length_littleEndianBytes _ _),
    List.take_left' (length_littleEndianBytes _ _), littleEndian_littleEndianBytes hstream,
    littleEndian_littleEndianBytes hdata, hlevel, hcompressed]
  rfl

/-! ### Sizes -/

/-- The items are written within the body. -/
theorem length_flatMap_le_length_body (S : Scheme μ) (items : List (Item μ)) :
    (items.flatMap S.itemBytes).length ≤ (S.body items).length := by
  -- group by group, as the body is written
  fun_induction S.body items with
  | case1 => exact Nat.le_refl _
  | case2 i rest ih =>
      have hsplit : (i :: rest).flatMap S.itemBytes =
          ((i :: rest).take groupSize).flatMap S.itemBytes ++
            ((i :: rest).drop groupSize).flatMap S.itemBytes := by
        rw [← List.flatMap_append, List.take_append_drop]
      rw [hsplit, List.length_append, List.length_append, List.length_append]
      omega

/-- No byte of an item stands for more data than the decoder allows for. -/
theorem Sound.length_le (hsound : S.Sound) {h h' : History} {size : Nat} {items : List (Item μ)}
    (hexpand : S.extendAll? h items = some h')
    (hfits : S.fits size h.output.length items = true) :
    h'.output.length ≤ h.output.length + maxExpansion * (items.flatMap S.itemBytes).length := by
  induction items generalizing h with
  | nil =>
      cases hexpand
      exact Nat.le_add_right _ _
  | cons i rest ih =>
      obtain ⟨hnext, hextend, hrest⟩ := Option.bind_eq_some_iff.mp hexpand
      rw [List.flatMap_cons, List.length_append, Nat.mul_add, ← Nat.add_assoc]
      cases i with
      | literal byte =>
          cases hextend
          have hbyte : 1 ≤ maxExpansion * (S.itemBytes (.literal byte)).length :=
            show 1 ≤ maxExpansion * 1 by decide
          have hnext := ih hrest (by rwa [History.length_append])
          rw [History.length_append] at hnext
          omega
      | copy m =>
          obtain ⟨source, -, rfl⟩ := Option.map_eq_some_iff.mp hextend
          simp only [fits, Bool.and_eq_true, decide_eq_true_iff] at hfits
          have hmatch : S.length m ≤ maxExpansion * (S.itemBytes (.copy m)).length :=
            hsound.expansion m hfits.1.1.1
          have hnext := ih hrest (by rw [History.length_copy]; exact hfits.2)
          rw [History.length_copy] at hnext
          omega

/-- The sizes in the header of a stream pass their check: there is a control word behind the header,
and the data is no longer than the stream allows for. -/
theorem Describes.fits_header (hsound : S.Sound) {items : List (Item μ)} {data : List UInt8}
    (hdescribes : S.Describes items data) (wide : Bool) (upper : Nat) :
    (S.headerOf wide items data.length).fits (S.stream wide upper items data.length) = true := by
  obtain ⟨hexpands, hfits, hends⟩ := hdescribes
  obtain ⟨h', hexpand, rfl⟩ := Option.map_eq_some_iff.mp hexpands
  have hne : items ≠ [] := by
    rintro rfl
    exact Bool.noConfusion hends
  have hbody := congrArg List.length (S.body_eq hne)
  rw [List.length_append, length_littleEndianBytes] at hbody
  have hcontrol : headerLength wide + controlLength ≤ S.streamSize wide items := by
    rw [streamSize, hbody]
    omega
  have hitems : (items.flatMap S.itemBytes).length ≤ S.streamSize wide items :=
    Nat.le_trans (S.length_flatMap_le_length_body items) (Nat.le_add_left _ _)
  have hreach := hsound.length_le hexpand hfits
  rw [History.empty, List.length_nil, Nat.zero_add] at hreach
  have hexpansion : h'.output.length ≤ S.streamSize wide items * maxExpansion := by
    rw [Nat.mul_comm]
    exact Nat.le_trans hreach (Nat.mul_le_mul_left maxExpansion hitems)
  simp only [Header.fits, headerOf, length_stream, beq_self_eq_true, Bool.and_eq_true, true_and]
  exact ⟨decide_eq_true hcontrol, decide_eq_true hexpansion⟩

/-! ### Streams -/

theorem decodeBody_of_run {h : Header} {level : Level} {stream : List UInt8} {t : State}
    (hrun : (h.frame level stream).run ((h.frame level stream).start h.length) = .ok () t) :
    decodeBody h level stream = .ok t.output.toList := by
  simp only [decodeBody, hrun]

/-- Behind a header whose sizes pass, the body decides. -/
theorem decompress_eq_decodeBody {h : Header} {level : Level} {stream : List UInt8}
    (hread : Header.read stream = .ok h) (hlevel : Level.ofNat? h.level = some level)
    (hwhole : h.streamSize ≤ stream.length) (hcompressed : h.compressed = true)
    (hfits : h.fits stream = true) : decompress stream = decodeBody h level stream := by
  unfold decompress
  simp only [hread, hlevel, hcompressed, hfits, if_neg (Nat.not_lt.mpr hwhole)]
  rfl

/-- The stream for some items holds the data they stand for. -/
theorem Describes.decompress_eq (hsound : S.Sound) {items : List (Item μ)} {data : List UInt8}
    (hdescribes : S.Describes items data) {wide : Bool} {upper : Nat} (hupper : upper < 16)
    (hstream : S.streamSize wide items < byteCapacity (sizeWidth wide))
    (hdata : data.length < byteCapacity (sizeWidth wide)) :
    decompress (S.stream wide upper items data.length) = .ok data := by
  have hheader := hdescribes.fits_header hsound wide upper
  obtain ⟨hexpands, hfits, hends⟩ := hdescribes
  obtain ⟨h', hexpand, rfl⟩ := Option.map_eq_some_iff.mp hexpands
  let header := S.headerOf wide items h'.output.length
  let stream := S.stream wide upper items h'.output.length
  have hlevel : Level.ofNat? header.level = some S.level := Level.ofNat?_number S.level
  have hwhole : header.streamSize ≤ stream.length :=
    Nat.le_of_eq (S.length_stream wide upper items _).symm
  have hdrop : (header.frame S.level stream).source.toList.drop header.length = S.body items :=
    List.drop_left' (S.length_header wide upper _ _)
  -- The decoder starts on the body in step with the empty history, and the run keeps it so.
  obtain ⟨t, hrun, ht⟩ := (State.Tracks.start hdrop).run hsound rfl hexpand rfl hfits hends
  rw [decompress_eq_decodeBody (read_stream hupper hstream hdata) hlevel hwhole rfl hheader,
    decodeBody_of_run hrun, ht.toList_output rfl]

end Scheme

end ResolverRecovery.Codec.QuickLz
