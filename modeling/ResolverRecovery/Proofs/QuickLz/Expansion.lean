import ResolverRecovery.Proofs.QuickLz.Bounds
import ResolverRecovery.Proofs.QuickLz.Parts

/-!
# How much data a stream can stand for

A literal stands for itself, and no byte of a match stands for more than 85 bytes of data.  What is
written is therefore paid for by what is read, as long as the cursor is within the stream.  The
decoder can leave the stream with a single match, of which the last bytes are missing or which is
taken from a look-ahead that is out of date.  From there on it finds nothing but zeros, and zeros
are either no match at all or one of length zero.

So the data of a stream that can be decoded is much shorter than the check of the sizes in its
header allows for, and the check refuses no stream that could be decoded.

## Main definitions

* `State.Paid`: the invariant.
* `decompressUnlimited`: decompression without a limit on the size of the data.

## Main statements

* `Frame.matchLength_le`: what a match stands for.
* `Frame.step_paid`, `Frame.run_paid`: the invariant is kept by a step and a run.
* `decompress_limit_idle`: the limit refuses nothing that could be decoded.
-/

namespace ResolverRecovery.Codec.QuickLz

/-! ### What a match stands for -/

/-- No byte of a match stands for more bytes of data than this. -/
def matchYield : Nat := 85

/-- No match stands for more bytes of data than this. -/
def maxMatchLength : Nat := 258

namespace Frame

variable {f : Frame} {s t : State} {u : Unit}

/-- A match stands for a limited number of bytes, and none of its own bytes for too many of them. -/
theorem matchLength_le (f : Frame) (s : State) :
    f.matchLength s ≤ matchYield * f.matchSize s ∧ f.matchLength s ≤ maxMatchLength := by
  have hbyte := f.byte_lt (s.cursor + 2)
  unfold matchLength matchSize matchYield maxMatchLength
  cases f.level with
  | one =>
      dsimp only
      split <;> omega
  | three =>
      cases Form.ofWord s.lookahead <;> simp only [Form.length, Form.size] <;> omega

/-- Past the end of the stream and with zeros ahead there is no match but an empty one. -/
theorem matchLength_pastEnd (hcursor : f.source.size < s.cursor) (hlookahead : s.lookahead = 0)
    (h : f.copyMatch s = .ok u t) : f.matchLength s = 0 := by
  cases hlevel : f.level with
  | one =>
      have hmissing : f.byte (s.cursor + 2) = 0 := byte_eq_zero (by omega)
      simp [matchLength, hlevel, hlookahead, hmissing]
  | three => exact absurd h (copyMatch_zero hlevel hlookahead)

end Frame

/-! ### What is written is paid for -/

/-- What is written is paid for by what is read, and past the end of the stream, where the stream as
a whole and a last match have paid for it, there are zeros ahead. -/
def State.Paid (f : Frame) (s : State) : Prop :=
  s.cursor ≤ f.source.size ∧ s.written ≤ matchYield * s.cursor ∨
    f.source.size < s.cursor ∧ s.lookahead = 0 ∧
      s.written ≤ matchYield * f.source.size + maxMatchLength

theorem State.Paid.of_cursor_le {f : Frame} {s : State} (h : s.Paid f)
    (hcursor : s.cursor ≤ f.source.size) : s.written ≤ matchYield * s.cursor := by
  rcases h with ⟨-, hpaid⟩ | ⟨hpast, -⟩
  · exact hpaid
  · exact absurd hcursor (Nat.not_le_of_lt hpast)

theorem State.Paid.written_le {f : Frame} {s : State} (h : s.Paid f) :
    s.written ≤ matchYield * f.source.size + maxMatchLength := by
  rcases h with ⟨hinside, hpaid⟩ | ⟨-, -, hpaid⟩
  · have hyield := Nat.mul_le_mul_left matchYield hinside
    exact Nat.le_add_right_of_le (Nat.le_trans hpaid hyield)
  · exact hpaid

namespace Frame

variable {f : Frame} {s t : State} {u : Unit}

theorem refill_paid (hs : s.Paid f) (h : f.refill s = .ok () t) : t.Paid f := by
  rcases refill_eq_ok h with ⟨-, rfl⟩ | ⟨-, hroom, rfl⟩
  · exact hs
  · simp only [State.Paid, refilled, controlLength, matchYield] at *
    omega

theorem copyMatch_paid (hs : s.Paid f) (h : f.copyMatch s = .ok u t) :
    State.Paid f { t with lookahead := f.peek t.cursor } := by
  obtain ⟨hyield, hlength⟩ := f.matchLength_le s
  have hempty := fun hcursor hlookahead => matchLength_pastEnd (f := f) hcursor hlookahead h
  obtain rfl := eq_afterMatch h
  have hpeek : f.source.size < (f.afterMatch s).cursor → f.peek (f.afterMatch s).cursor = 0 :=
    fun hpast => peekWord_eq_zero (Nat.le_of_lt hpast)
  simp only [State.Paid, cursor_afterMatch, written_afterMatch, matchYield] at *
  rcases hs with ⟨hinside, hpaid⟩ | ⟨hpast, hlookahead, hpaid⟩
  · by_cases hnext : s.cursor + f.matchSize s ≤ f.source.size
    · exact .inl ⟨hnext, by omega⟩
    · exact .inr ⟨by omega, hpeek (by omega), by omega⟩
  · have hzero := hempty hpast hlookahead
    exact .inr ⟨by omega, hpeek (by omega), by omega⟩

/-- A literal is read within the stream, and pays for itself. -/
theorem literal_paid (hs : s.cursor < f.source.size → s.written ≤ matchYield * s.cursor)
    (h : f.literal s = .ok u t) :
    t.cursor ≤ f.source.size ∧ t.written ≤ matchYield * t.cursor := by
  obtain ⟨hlt, -, rfl⟩ := literal_eq_ok h
  have hpaid := hs hlt
  simp only [State.write, matchYield] at *
  omega

theorem literals_paid {n : Nat} (hs : s.Paid f) (h : f.literals n s = .ok u t) : t.Paid f := by
  induction n generalizing s with
  | zero =>
      cases h
      exact hs
  | succ n ih =>
      obtain ⟨_, v, hliteral, hrest⟩ := andThen_eq_ok_iff.mp (literals_succ f n s ▸ h)
      have hpaid := literal_paid (fun hlt => ?_) hliteral
      · exact ih (s := v.shift) (.inl hpaid) hrest
      · -- a control word that is passed over pays for nothing
        have hpassed := s.cursor_le_cursor_passControl
        have hyield := Nat.mul_le_mul_left matchYield hpassed
        have hinside := hs.of_cursor_le (Nat.le_of_lt (Nat.lt_of_le_of_lt hpassed hlt))
        rw [State.written_passControl]
        exact Nat.le_trans hinside hyield

/-- A step keeps what is written paid for. -/
theorem step_paid {complete : Bool} (hs : s.Paid f) (h : f.step s = .ok complete t) : t.Paid f := by
  obtain ⟨v, hrefill, ⟨w, hcopy, -, rfl, -⟩ | ⟨w, hliteral, -, rfl, -⟩ | ⟨hliterals, -, -⟩⟩ :=
    step_eq_ok h
  · have hv := refill_paid hs hrefill
    exact copyMatch_paid (s := v.shift) hv hcopy
  · have hv := refill_paid hs hrefill
    have hpaid := literal_paid (fun hlt => hv.of_cursor_le (Nat.le_of_lt hlt)) hliteral
    rw [State.Paid, cursor_afterLiteral, written_afterLiteral]
    exact .inl hpaid
  · exact literals_paid (refill_paid hs hrefill) hliterals

/-- What a run has written is paid for. -/
theorem run_paid (hs : s.Paid f) (h : f.run s = .ok u t) : t.Paid f := by
  fun_induction f.run s with
  | case1 s fault v hstep => cases h
  | case2 s v hstep =>
      cases h
      exact step_paid hs hstep
  | case3 s v hstep ih => exact ih (step_paid hs hstep) h

end Frame

/-! ### The limit on the size of the data -/

/-- The header of a compressed stream fits the stream, the size of the data left aside. -/
def Header.spans (h : Header) (data : List UInt8) : Bool :=
  h.streamSize == data.length && h.length + controlLength ≤ h.streamSize

/-- The data in a stream, however much of it is announced. -/
def decompressUnlimited (data : List UInt8) : Except Error (List UInt8) :=
  match Header.read data with
  | .error e => .error e
  | .ok h =>
    match Level.ofNat? h.level with
    | none => .error (.unsupportedLevel h.level)
    | some level =>
      if data.length < h.streamSize then .error .inputTooShort
      else if !h.compressed then stored h data
      else if !h.spans data then .error .invalidHeader
      else decodeBody h level data

/-- The data that a body is decoded to is within the limit. -/
theorem dataSize_le_of_decodeBody {h : Header} {level : Level} {data out : List UInt8}
    (hsize : h.streamSize = data.length) (hroom : h.length + controlLength ≤ h.streamSize)
    (hbody : decodeBody h level data = .ok out) : h.dataSize ≤ h.streamSize * maxExpansion := by
  obtain ⟨s, hrun, -⟩ := run_of_decodeBody hbody
  have hstart : State.Paid (h.frame level data) ((h.frame level data).start h.length) := by
    refine .inl ⟨?_, Nat.zero_le _⟩
    show h.length ≤ data.length
    omega
  have hpaid := (Frame.run_paid hstart hrun).written_le
  rw [Frame.written_of_run (.start _ _) hrun] at hpaid
  change h.dataSize ≤ matchYield * data.length + maxMatchLength at hpaid
  simp only [matchYield, maxMatchLength, maxExpansion, controlLength] at *
  omega

/-- Where the limit makes a difference, the body could not be decoded anyway. -/
theorem decodeBody_ne_ok {h : Header} {level : Level} {data out : List UInt8}
    (hspans : h.spans data = true) (hrefused : h.fits data = false) :
    decodeBody h level data ≠ .ok out := by
  intro hbody
  have hfits : h.fits data =
    (h.spans data && decide (h.dataSize ≤ h.streamSize * maxExpansion)) := rfl
  rw [hspans, Bool.true_and, hrefused] at hfits
  simp only [Header.spans, Bool.and_eq_true, beq_iff_eq, decide_eq_true_eq] at hspans
  have hlimit := dataSize_le_of_decodeBody hspans.1 hspans.2 hbody
  exact absurd hlimit (of_decide_eq_false hfits.symm)

theorem spans_of_fits {h : Header} {data : List UInt8} (hfits : h.fits data = true) :
    h.spans data = true :=
  (Bool.and_eq_true_iff.mp hfits).1

/-- The limit on the size of the data is of no concern to a stream that can be decoded: a body is
never decoded to more data than the limit allows, and decompression without the limit has the same
data. -/
theorem decompress_limit_idle (data : List UInt8) :
    (∀ (h : Header) (level : Level) (out : List UInt8), Header.read data = .ok h →
      h.compressed = true → Level.ofNat? h.level = some level → h.streamSize = data.length →
      h.length + controlLength ≤ h.streamSize → decodeBody h level data = .ok out →
        h.dataSize ≤ h.streamSize * maxExpansion) ∧
      ∀ out, decompressUnlimited data = .ok out ↔ decompress data = .ok out := by
  refine ⟨fun h level out _ _ _ hsize hroom hbody => dataSize_le_of_decodeBody hsize hroom hbody,
    fun out => ?_⟩
  unfold decompressUnlimited decompress
  cases Header.read data with
  | error e => exact Iff.rfl
  | ok h =>
      dsimp only
      cases Level.ofNat? h.level with
      | none => exact Iff.rfl
      | some level =>
          dsimp only
          split
          · exact Iff.rfl
          · split
            · exact Iff.rfl
            · cases hfits : h.fits data with
              | true => rw [spans_of_fits hfits]
              | false =>
                  cases hspans : h.spans data with
                  | false => exact Iff.rfl
                  | true => simp [decodeBody_ne_ok hspans hfits]

/-- A stream that has been cut within its last match, but can be decoded. -/
theorem decompress_limit_idle_cutStream :
    Header.read cutStream = .ok cutHeader ∧ cutHeader.compressed = true ∧
      Level.ofNat? cutHeader.level = some .three ∧
      cutHeader.streamSize = cutStream.length ∧
      cutHeader.length + controlLength ≤ cutHeader.streamSize ∧
      decodeBody cutHeader .three cutStream = .ok (List.replicate 11 0x61) ∧
      cutHeader.dataSize ≤ cutHeader.streamSize * maxExpansion ∧
      decompressUnlimited cutStream = .ok (List.replicate 11 0x61) := by
  have hbody : decodeBody cutHeader .three cutStream = .ok (List.replicate 11 0x61) := by
    decide +kernel
  obtain ⟨hlimit, hsame⟩ := decompress_limit_idle cutStream
  exact ⟨read_cutStream, rfl, rfl, rfl, by decide, hbody,
    hlimit cutHeader .three _ read_cutStream rfl rfl rfl (by decide) hbody,
    (hsame _).mpr decoded_cutStream⟩

end ResolverRecovery.Codec.QuickLz
