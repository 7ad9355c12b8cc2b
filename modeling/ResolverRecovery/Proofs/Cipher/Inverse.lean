import ResolverRecovery.Cipher.Block

/-!
# The inverse cipher undoes the cipher

Both directions of every part of a round are inverse to each other, hence the rounds and the cipher
on a block are, whatever the round keys.

Substitution is a matter of the two tables.  Mixing is linear over the field and commutes with the
rotation of a column, so that it is enough to look at columns with a single byte that is not zero.

## Main statements

* `Column.unmix_mix`, `Column.mix_unmix`: the two matrices are inverse to each other.
* `Block.unround_round`, `Block.round_unround`: a round in the middle is undone.
* `KeySchedule.decrypt_encrypt`, `KeySchedule.encrypt_decrypt`: so is the cipher on a block.
-/

namespace ResolverRecovery.Cipher

/-! ### Bytes -/

/-- What holds of the 256 numbers holds of the bytes. -/
theorem forall_byte {p : UInt8 → Prop} (h : ∀ n : Fin 256, p (UInt8.ofFin n)) (b : UInt8) :
    p b := by
  simpa using h b.toFin

/-- The second table undoes the first one entry by entry. -/
def TableUndoneBy (s t : Array UInt8) : Prop :=
  s.toList.map (fun b => (t.toList.getD b.toNat 0).toNat) = List.range 256

instance (s t : Array UInt8) : Decidable (TableUndoneBy s t) :=
  inferInstanceAs (Decidable (_ = _))

theorem TableUndoneBy.getD_getD {s t : Array UInt8} (h : TableUndoneBy s t) (b : UInt8) :
    t.getD (s.getD b.toNat 0).toNat 0 = b := by
  have hb := b.toNat_lt
  have hsize : s.size = 256 := by simpa using congrArg List.length h
  have hentry := congrArg (fun l : List Nat => l[b.toNat]?) h
  apply UInt8.toNat_inj.mp
  simpa [hb, hsize, List.getElem?_range] using hentry

theorem substitutionTable_undone : TableUndoneBy substitutionTable unsubstitutionTable := by
  decide +kernel

theorem unsubstitutionTable_undone : TableUndoneBy unsubstitutionTable substitutionTable := by
  decide +kernel

theorem unsubstitute_substitute (b : UInt8) : unsubstitute (substitute b) = b :=
  substitutionTable_undone.getD_getD b

theorem substitute_unsubstitute (b : UInt8) : substitute (unsubstitute b) = b :=
  unsubstitutionTable_undone.getD_getD b

/-- The bit that drops out decides on the reduction. -/
theorem double_eq_msb (b : UInt8) :
    double b = (b <<< 1) ^^^ (if b.toBitVec.msb then 0x1B else 0) := by
  have hmsb : b < 0x80 ↔ b.toBitVec.msb = false := by
    rw [BitVec.msb_eq_false_iff_two_mul_lt, UInt8.lt_iff_toNat_lt, UInt8.toNat_toBitVec]
    show b.toNat < 128 ↔ _
    omega
  unfold double
  by_cases h : b < 0x80
  · rw [if_pos h, hmsb.mp h]
    rfl
  · have htrue : b.toBitVec.msb = true := by simpa using mt hmsb.mpr h
    rw [if_neg h, htrue]
    rfl

/-- Multiplication by `x` distributes over the sum in the field, since the reduction depends on a
single bit. -/
theorem double_xor (a b : UInt8) : double (a ^^^ b) = double a ^^^ double b := by
  have hmask : ∀ p q : Bool, (if (p ^^ q) then (0x1B : UInt8) else 0) =
      (if p then 0x1B else 0) ^^^ (if q then 0x1B else 0) := by decide
  simp only [double_eq_msb, UInt8.shiftLeft_xor, UInt8.toBitVec_xor, BitVec.msb_xor, hmask]
  ac_rfl

/-! ### Columns -/

namespace Column

theorem add_add_cancel (c d : Column) : (c.add d).add d = c := by
  simp only [add, UInt8.xor_assoc, UInt8.xor_self, UInt8.xor_zero]

/-- The column of one byte, with zeros below it. -/
def single (b : UInt8) : Column := ⟨b, 0, 0, 0⟩

/-- A column is the sum of columns of one byte, each moved to its place. -/
theorem eq_sum_single (c : Column) :
    c = (single c.b0).add ((single c.b1).rotate.rotate.rotate.add
      ((single c.b2).rotate.rotate.add (single c.b3).rotate)) := by
  simp [single, add, rotate]

/-- An additive map that commutes with the rotation is the identity if it is the identity on the
columns of one byte.  There are 256 of these, so that the last condition can be evaluated. -/
theorem eq_self_of_single {f : Column → Column} (hadd : ∀ c d, f (c.add d) = (f c).add (f d))
    (hrotate : ∀ c, f c.rotate = (f c).rotate) (hsingle : ∀ b, f (single b) = single b)
    (c : Column) : f c = c := by
  have hsum := congrArg f (eq_sum_single c)
  simp only [hadd, hrotate, hsingle] at hsum
  exact hsum.trans (eq_sum_single c).symm

theorem mixed_xor (a b c d a' b' c' d' : UInt8) :
    mixed (a ^^^ a') (b ^^^ b') (c ^^^ c') (d ^^^ d') =
      mixed a b c d ^^^ mixed a' b' c' d' := by
  simp only [mixed, double_xor]
  ac_rfl

theorem unmixed_xor (a b c d a' b' c' d' : UInt8) :
    unmixed (a ^^^ a') (b ^^^ b') (c ^^^ c') (d ^^^ d') =
      unmixed a b c d ^^^ unmixed a' b' c' d' := by
  simp only [unmixed, quadruple, octuple, double_xor]
  ac_rfl

theorem mix_add (c d : Column) : (c.add d).mix = c.mix.add d.mix := by
  simp only [mix, add, mixed_xor]

theorem unmix_add (c d : Column) : (c.add d).unmix = c.unmix.add d.unmix := by
  simp only [unmix, add, unmixed_xor]

theorem mix_rotate (c : Column) : c.rotate.mix = c.mix.rotate := rfl

theorem unmix_rotate (c : Column) : c.rotate.unmix = c.unmix.rotate := rfl

theorem unmix_mix (c : Column) : c.mix.unmix = c := by
  refine eq_self_of_single (f := fun c => c.mix.unmix) ?_ ?_ ?_ c
  · intro c d
    rw [mix_add, unmix_add]
  · intro c
    rw [mix_rotate, unmix_rotate]
  · exact forall_byte (by decide +kernel)

theorem mix_unmix (c : Column) : c.unmix.mix = c := by
  refine eq_self_of_single (f := fun c => c.unmix.mix) ?_ ?_ ?_ c
  · intro c d
    rw [unmix_add, mix_add]
  · intro c
    rw [unmix_rotate, mix_rotate]
  · exact forall_byte (by decide +kernel)

theorem map_map_cancel {f g : UInt8 → UInt8} (h : ∀ b, g (f b) = b) (c : Column) :
    (c.map f).map g = c := by
  simp only [map, h]

end Column

/-! ### Blocks and rounds -/

namespace Block

theorem add_add_cancel (a b : Block) : (a.add b).add b = a := by
  simp only [add, Column.add_add_cancel]

theorem map_map_cancel {f g : Column → Column} (h : ∀ c, g (f c) = c) (b : Block) :
    (b.map f).map g = b := by
  simp only [map, h]

theorem unshiftRows_shiftRows (b : Block) : b.shiftRows.unshiftRows = b := rfl

theorem shiftRows_unshiftRows (b : Block) : b.unshiftRows.shiftRows = b := rfl

theorem unscramble_scramble (b : Block) : b.scramble.unscramble = b := by
  rw [scramble, unscramble, unshiftRows_shiftRows,
    map_map_cancel (Column.map_map_cancel unsubstitute_substitute)]

theorem scramble_unscramble (b : Block) : b.unscramble.scramble = b := by
  rw [scramble, unscramble, map_map_cancel (Column.map_map_cancel substitute_unsubstitute),
    shiftRows_unshiftRows]

theorem unround_round (b key : Block) : (b.round key).unround key = b := by
  rw [round, unround, add_add_cancel, map_map_cancel Column.unmix_mix, unscramble_scramble]

theorem round_unround (b key : Block) : (b.unround key).round key = b := by
  rw [round, unround, scramble_unscramble, map_map_cancel Column.mix_unmix, add_add_cancel]

/-- Rounds in the middle are undone from the last one to the first. -/
theorem foldr_unround_foldl_round (keys : List Block) (b : Block) :
    keys.foldr (fun key b => b.unround key) (keys.foldl round b) = b := by
  -- the first round is outermost on the way back, so the block has to vary
  induction keys generalizing b with
  | nil => rfl
  | cons key rest ih => rw [List.foldl_cons, List.foldr_cons, ih, unround_round]

theorem foldl_round_foldr_unround (keys : List Block) (b : Block) :
    keys.foldl round (keys.foldr (fun key b => b.unround key) b) = b := by
  induction keys with
  | nil => rfl
  | cons key rest ih => rw [List.foldr_cons, List.foldl_cons, round_unround, ih]

end Block

namespace KeySchedule

theorem decrypt_encrypt (k : KeySchedule) (b : Block) : k.decrypt (k.encrypt b) = b := by
  rw [encrypt, decrypt, Block.add_add_cancel, Block.unscramble_scramble,
    Block.foldr_unround_foldl_round, Block.add_add_cancel]

theorem encrypt_decrypt (k : KeySchedule) (b : Block) : k.encrypt (k.decrypt b) = b := by
  rw [encrypt, decrypt, Block.add_add_cancel, Block.foldl_round_foldr_unround,
    Block.scramble_unscramble, Block.add_add_cancel]

end KeySchedule

end ResolverRecovery.Cipher
