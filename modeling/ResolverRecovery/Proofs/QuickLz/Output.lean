import ResolverRecovery.Proofs.QuickLz.Format

/-!
# What the decoder has written

While a body is decoded, the output holds what is written so far and is not looked at behind that.
Literals and copies extend what is written, and a copy does so byte by byte in the way in which a
match is read.

## Main definitions

* `State.HasWritten`: the data so far is what the decoder has written.

## Main statements

* `State.HasWritten.write`: a literal extends the data by a byte.
* `State.HasWritten.copyForward`: a copy extends the data by the bytes `distance` before.
* `State.HasWritten.outputWord_eq`: three bytes of the data are read as they are.
-/

namespace ResolverRecovery.Codec.QuickLz

theorem length_repeatBack (distance n : Nat) (output : List UInt8) :
    (repeatBack distance n output).length = output.length + n := by
  induction n generalizing output with
  | zero => rfl
  | succ n ih =>
      rw [repeatBack, ih, List.length_append, List.length_singleton]
      omega

/-- What is there stays in front of what is appended. -/
theorem prefix_repeatBack (distance n : Nat) (output : List UInt8) :
    output <+: repeatBack distance n output := by
  induction n generalizing output with
  | zero => exact List.prefix_refl output
  | succ n ih => exact (List.prefix_append output _).trans (ih _)

namespace History

variable (h : History)

@[simp] theorem length_append (byte : UInt8) :
    (h.append byte).output.length = h.output.length + 1 := by
  rw [append, List.length_append, List.length_singleton]

@[simp] theorem length_copy (source length : Nat) :
    (h.copy source length).output.length = h.output.length + length :=
  length_repeatBack _ _ _

theorem mem_starts_append {byte : UInt8} {p : Nat} :
    p ∈ (h.append byte).starts ↔ p = h.output.length ∨ p ∈ h.starts :=
  List.mem_cons

theorem mem_starts_copy {source length p : Nat} :
    p ∈ (h.copy source length).starts ↔ p = h.output.length ∨ p ∈ h.starts :=
  List.mem_cons

end History

/-! ### Lists at the start of an array -/

theorem getD_of_isPrefixOf {out : List UInt8} {output : Array UInt8} (h : out <+: output.toList)
    {i : Nat} (hi : i < out.length) : output.getD i 0 = out.getD i 0 := by
  obtain ⟨tail, htail⟩ := h
  have hget : output[i]? = out[i]? := by
    rw [← Array.getElem?_toList, ← htail, List.getElem?_append_left hi]
  rw [Array.getD_eq_getD_getElem?, List.getD_eq_getElem?_getD, hget]

/-- The byte behind the list joins it when it is overwritten. -/
theorem prefix_setIfInBounds {out : List UInt8} {output : Array UInt8} (h : out <+: output.toList)
    (hroom : out.length < output.size) (byte : UInt8) :
    out ++ [byte] <+: (output.setIfInBounds out.length byte).toList := by
  obtain ⟨tail, htail⟩ := h
  cases tail with
  | nil =>
      have hlength : out.length = output.size := by simpa using congrArg List.length htail
      omega
  | cons old tail =>
      refine ⟨tail, ?_⟩
      rw [Array.toList_setIfInBounds, ← htail, List.set_append_right _ _ (Nat.le_refl _),
        Nat.sub_self, List.set_cons_zero, List.append_assoc, List.singleton_append]

theorem size_copyForward (n source target : Nat) (output : Array UInt8) :
    (copyForward n source target output).size = output.size := by
  induction n generalizing source target output with
  | zero => rfl
  | succ n ih => rw [copyForward, ih, Array.size_setIfInBounds]

/-- A copy within the array appends to the list bytes that lie a fixed distance before. -/
theorem prefix_copyForward {out : List UInt8} {output : Array UInt8} {n source : Nat}
    (h : out <+: output.toList) (hsource : source < out.length)
    (hroom : out.length + n ≤ output.size) :
    repeatBack (out.length - source) n out <+:
      (copyForward n source out.length output).toList := by
  induction n generalizing out output source with
  | zero => exact h
  | succ n ih =>
      have hbyte : output.getD source 0 = out.getD (out.length - (out.length - source)) 0 := by
        rw [getD_of_isPrefixOf h hsource]
        congr 1
        omega
      have hnext := prefix_setIfInBounds h (by omega) (output.getD source 0)
      have hlength : (out ++ [output.getD source 0]).length = out.length + 1 := by simp
      -- source and target move on together, so the distance stays the same
      have hstep := ih hnext (show source + 1 < _ by omega) (by
        rw [hlength, Array.size_setIfInBounds]
        omega)
      rw [hlength, Nat.add_sub_add_right] at hstep
      rw [repeatBack, copyForward, ← hbyte]
      exact hstep

/-! ### The state of the decoder -/

namespace State

/-- The data so far is what the decoder has written, and the output is as long as it is to be. -/
structure HasWritten (f : Frame) (out : List UInt8) (s : State) : Prop where
  /-- The write position is behind the data. -/
  written : s.written = out.length
  /-- The output has its final size. -/
  size : s.output.size = f.size
  /-- The output starts with the data. -/
  agrees : out <+: s.output.toList

namespace HasWritten

variable {f : Frame} {out : List UInt8} {s t : State}

theorem congr (h : s.HasWritten f out) (hwritten : t.written = s.written)
    (houtput : t.output = s.output) : t.HasWritten f out :=
  ⟨hwritten.trans h.written, houtput ▸ h.size, houtput ▸ h.agrees⟩

theorem write (h : s.HasWritten f out) (hroom : out.length < f.size) (byte : UInt8) :
    (s.write byte).HasWritten f (out ++ [byte]) where
  written := by simp [State.write, h.written]
  size := by simp [State.write, h.size]
  agrees := by
    rw [State.write, h.written]
    exact prefix_setIfInBounds h.agrees (by rw [h.size]; exact hroom) byte

/-- A copy from a position of the data appends to the data. -/
theorem copyForward (h : s.HasWritten f out) {source n : Nat} (hsource : source < out.length)
    (hroom : out.length + n ≤ f.size) (hwritten : t.written = s.written + n)
    (houtput : t.output = QuickLz.copyForward n source s.written s.output) :
    t.HasWritten f (repeatBack (out.length - source) n out) where
  written := by rw [hwritten, h.written, length_repeatBack]
  size := by rw [houtput, size_copyForward, h.size]
  agrees := by
    rw [houtput, h.written]
    exact prefix_copyForward h.agrees hsource (by rw [h.size]; exact hroom)

theorem toList_output (h : s.HasWritten f out) (hsize : out.length = f.size) :
    s.output.toList = out := by
  have hlength : out.length = s.output.toList.length := by
    simpa [h.size] using hsize
  exact (h.agrees.eq_of_length hlength).symm

/-- Three bytes of the data are read as they are. -/
theorem outputWord_eq (h : s.HasWritten f out) {p : Nat} (hp : p + 3 ≤ out.length) :
    outputWord s.output p = littleEndian ((out.drop p).take 3) := by
  have hbytes : (out.drop p).take 3 = [out.getD p 0, out.getD (p + 1) 0, out.getD (p + 2) 0] := by
    rw [List.drop_eq_getElem_cons (by omega), List.drop_eq_getElem_cons (by omega),
      List.drop_eq_getElem_cons (by omega)]
    simp only [List.take_succ_cons, List.take_zero, List.getD_eq_getElem?_getD]
    rw [List.getElem?_eq_getElem, List.getElem?_eq_getElem, List.getElem?_eq_getElem]
    rfl
  have h₀ := getD_of_isPrefixOf h.agrees (show p < out.length by omega)
  have h₁ := getD_of_isPrefixOf h.agrees (show p + 1 < out.length by omega)
  have h₂ := getD_of_isPrefixOf h.agrees (show p + 2 < out.length by omega)
  simp only [hbytes, outputWord, littleEndian, h₀, h₁, h₂]
  omega

end HasWritten

end State

end ResolverRecovery.Codec.QuickLz
