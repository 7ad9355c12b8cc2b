import ResolverRecovery.Cipher.Chaining
import ResolverRecovery.Proofs.Cipher.Inverse

/-!
# Encryption and decryption of texts

Decryption accepts exactly what encryption produces, and gives back the text that it was produced
from.  Three facts carry this: the two directions of a chain of blocks are inverse to each other,
bytes and blocks determine each other, and the padding of whole blocks can be told in one way only.

## Main definitions

* `IsPadded`: bytes that end in a padding.
* `chainText?`: what a ciphertext stands for, the padding included.

## Main statements

* `decryptBlocks_encryptBlocks`, `encryptBlocks_decryptBlocks`: chains are undone.
* `blocksOfBytes?_eq_some_iff`: blocks are read exactly from their bytes.
* `unpad?_eq_some_iff_eq_pad`: of whole blocks exactly the padding of a text is removed.
* `decrypt?_eq_some_iff`, `decrypt?_eq_none_iff`: what is accepted, and what is rejected.
* `decrypt?_iff_encrypt?`: the two directions on texts of any length, with all that is rejected.
-/

namespace ResolverRecovery.Cipher

/-! ### Chains -/

theorem decryptBlocks_encryptBlocks (k : KeySchedule) (previous : Block) (blocks : List Block) :
    decryptBlocks k previous (encryptBlocks k previous blocks) = blocks := by
  induction blocks generalizing previous with
  | nil => rfl
  | cons plain rest ih =>
      rw [encryptBlocks, decryptBlocks, ih, k.decrypt_encrypt, Block.add_add_cancel]

theorem encryptBlocks_decryptBlocks (k : KeySchedule) (previous : Block) (blocks : List Block) :
    encryptBlocks k previous (decryptBlocks k previous blocks) = blocks := by
  induction blocks generalizing previous with
  | nil => rfl
  | cons cipher rest ih =>
      rw [decryptBlocks, encryptBlocks, Block.add_add_cancel, k.encrypt_decrypt, ih]

/-! ### Blocks and their bytes -/

@[simp] theorem Block.length_bytes (b : Block) : b.bytes.length = 16 := rfl

theorem length_bytesOfBlocks (blocks : List Block) :
    (bytesOfBlocks blocks).length = 16 * blocks.length := by
  induction blocks with
  | nil => rfl
  | cons b rest ih =>
      rw [bytesOfBlocks, List.flatMap_cons, List.length_append, ← bytesOfBlocks, ih,
        Block.length_bytes, List.length_cons]
      omega

theorem blocksOfBytes?_bytesOfBlocks (blocks : List Block) :
    blocksOfBytes? (bytesOfBlocks blocks) = some blocks := by
  induction blocks with
  | nil => rfl
  | cons b rest ih =>
      show (blocksOfBytes? (bytesOfBlocks rest)).map (b :: ·) = some (b :: rest)
      rw [ih, Option.map_some]

theorem eq_bytesOfBlocks {bytes : List UInt8} {blocks : List Block}
    (h : blocksOfBytes? bytes = some blocks) : bytes = bytesOfBlocks blocks := by
  fun_induction blocksOfBytes? bytes generalizing blocks with
  | case1 =>
      cases h
      rfl
  | case2 a0 a1 a2 a3 b0 b1 b2 b3 c0 c1 c2 c3 d0 d1 d2 d3 rest ih =>
      obtain ⟨tail, htail, rfl⟩ := Option.map_eq_some_iff.mp h
      rw [ih htail]
      rfl
  | case3 => cases h

/-- Blocks are read from their own bytes and from nothing else. -/
theorem blocksOfBytes?_eq_some_iff {bytes : List UInt8} {blocks : List Block} :
    blocksOfBytes? bytes = some blocks ↔ bytes = bytesOfBlocks blocks := by
  constructor
  · exact eq_bytesOfBlocks
  · rintro rfl
    exact blocksOfBytes?_bytesOfBlocks blocks

/-- Whole blocks can be read, and nothing else can. -/
theorem exists_blocksOfBytes?_iff (bytes : List UInt8) :
    (∃ blocks, blocksOfBytes? bytes = some blocks) ↔ bytes.length % 16 = 0 := by
  constructor
  · rintro ⟨blocks, h⟩
    rw [eq_bytesOfBlocks h, length_bytesOfBlocks]
    omega
  · intro h
    fun_induction blocksOfBytes? bytes with
    | case1 => exact ⟨[], rfl⟩
    | case2 a0 a1 a2 a3 b0 b1 b2 b3 c0 c1 c2 c3 d0 d1 d2 d3 rest ih =>
        simp only [List.length_cons] at h
        obtain ⟨tail, htail⟩ := ih (by omega)
        exact ⟨_, by rw [htail, Option.map_some]⟩
    | case3 bytes hnil hlong =>
        -- a list that neither is empty nor has sixteen bytes has from one to fifteen
        exfalso
        iterate 16
          rcases bytes with _ | ⟨_, bytes⟩
          · first
              | exact hnil rfl
              | simp at h
        exact hlong _ _ _ _ _ _ _ _ _ _ _ _ _ _ _ _ _ rfl

/-! ### Padding -/

/-- The bytes end in `n` bytes of value `n`, for some `n` from one to sixteen, with `text` before
them. -/
def PadsTo (text padded : List UInt8) : Prop :=
  ∃ n, 1 ≤ n ∧ n ≤ 16 ∧ padded = text ++ List.replicate n (UInt8.ofNat n)

def IsPadded (padded : List UInt8) : Prop := ∃ text, PadsTo text padded

theorem toNat_ofNat_of_le {n : Nat} (h : n ≤ 16) : (UInt8.ofNat n).toNat = n := by
  rw [UInt8.toNat_ofNat']
  omega

/-- The padding that is removed is the one that the bytes end in. -/
theorem unpad?_eq_some_iff {padded text : List UInt8} :
    unpad? padded = some text ↔ PadsTo text padded := by
  constructor
  · intro h
    unfold unpad? at h
    split at h
    · cases h
    · rename_i last hlast
      dsimp only at h
      split at h
      · rename_i hfit
        obtain ⟨hpos, hle, -, hdrop⟩ := hfit
        cases h
        refine ⟨last.toNat, hpos, hle, ?_⟩
        rw [UInt8.ofNat_toNat, ← hdrop, List.take_append_drop]
      · cases h
  · rintro ⟨n, hpos, hle, rfl⟩
    have hlast : (text ++ List.replicate n (UInt8.ofNat n)).getLast? = some (UInt8.ofNat n) := by
      rw [List.getLast?_append, List.getLast?_replicate, if_neg (by omega)]
      rfl
    unfold unpad?
    simp only [hlast, toNat_ofNat_of_le hle]
    rw [if_pos (by simp [hpos, hle])]
    simp

theorem length_pad_mod (text : List UInt8) : (pad text).length % 16 = 0 := by
  simp only [pad, List.length_append, List.length_replicate]
  omega

/-- Of whole blocks exactly the padding of a text is removed: the length of the text leaves no
choice of how many bytes there are. -/
theorem unpad?_eq_some_iff_eq_pad {padded text : List UInt8} (h : padded.length % 16 = 0) :
    unpad? padded = some text ↔ padded = pad text := by
  rw [unpad?_eq_some_iff]
  constructor
  · rintro ⟨n, hpos, hle, rfl⟩
    simp only [List.length_append, List.length_replicate] at h
    have hn : 16 - text.length % 16 = n := by omega
    simp only [pad, hn]
  · intro hpad
    exact ⟨16 - text.length % 16, by omega, by omega, hpad⟩

theorem isPadded_iff_isSome (padded : List UInt8) :
    IsPadded padded ↔ (unpad? padded).isSome := by
  simp only [IsPadded, ← unpad?_eq_some_iff, Option.isSome_iff_exists]

/-! ### Keys and vectors -/

theorem KeySchedule.exists_ofKey?_iff (key : List UInt8) :
    (∃ k, KeySchedule.ofKey? key = some k) ↔ KeySchedule.isKeyLength key.length = true := by
  unfold KeySchedule.ofKey?
  split <;> simp_all

theorem exists_chainStart?_iff (vector : List UInt8) :
    (∃ start, chainStart? vector = some start) ↔ 16 ≤ vector.length := by
  unfold chainStart? Block.size
  split
  · rename_i h
    have htake : (vector.take 16).length = 16 := by
      rw [List.length_take]
      omega
    obtain ⟨blocks, hblocks⟩ := (exists_blocksOfBytes?_iff (vector.take 16)).mpr (by omega)
    have hone := congrArg List.length (eq_bytesOfBlocks hblocks)
    rw [htake, length_bytesOfBlocks] at hone
    obtain ⟨b, rfl⟩ := List.length_eq_one_iff.mp (show blocks.length = 1 by omega)
    simp [hblocks, h]
  · simp_all

/-! ### Texts -/

/-- What a ciphertext stands for, the padding included. -/
def chainText? (key vector cipher : List UInt8) : Option (List UInt8) := do
  let k ← KeySchedule.ofKey? key
  let start ← chainStart? vector
  let blocks ← blocksOfBytes? cipher
  return bytesOfBlocks (decryptBlocks k start blocks)

/-- Decryption removes the padding of what the ciphertext stands for. -/
theorem decrypt?_eq_bind (key vector cipher : List UInt8) :
    decrypt? key vector cipher = (chainText? key vector cipher).bind unpad? := by
  simp only [decrypt?, chainText?, Option.bind_eq_bind, Option.bind_assoc, Option.pure_def,
    Option.bind_some]

theorem chainText?_eq_some_iff {key vector cipher padded : List UInt8} :
    chainText? key vector cipher = some padded ↔
      ∃ k start blocks, KeySchedule.ofKey? key = some k ∧ chainStart? vector = some start ∧
        cipher = bytesOfBlocks blocks ∧
          padded = bytesOfBlocks (decryptBlocks k start blocks) := by
  simp only [chainText?, Option.bind_eq_bind, Option.bind_eq_some_iff, Option.pure_def,
    Option.some.injEq, blocksOfBytes?_eq_some_iff, eq_comm (b := padded)]
  constructor
  · rintro ⟨k, hk, start, hstart, blocks, hblocks, h⟩
    exact ⟨k, start, blocks, hk, hstart, hblocks, h⟩
  · rintro ⟨k, start, blocks, hk, hstart, hblocks, h⟩
    exact ⟨k, hk, start, hstart, blocks, hblocks, h⟩

/-- Encryption is the inverse of the chain on the padded text. -/
theorem encrypt?_eq_some_iff {key vector text cipher : List UInt8} :
    encrypt? key vector text = some cipher ↔ chainText? key vector cipher = some (pad text) := by
  rw [chainText?_eq_some_iff]
  simp only [encrypt?, Option.bind_eq_bind, Option.bind_eq_some_iff, Option.pure_def,
    Option.some.injEq, blocksOfBytes?_eq_some_iff]
  constructor
  · rintro ⟨k, hk, start, hstart, blocks, hblocks, rfl⟩
    refine ⟨k, start, encryptBlocks k start blocks, hk, hstart, rfl, ?_⟩
    rw [decryptBlocks_encryptBlocks, hblocks]
  · rintro ⟨k, start, blocks, hk, hstart, rfl, hpad⟩
    refine ⟨k, hk, start, hstart, decryptBlocks k start blocks, hpad, ?_⟩
    rw [encryptBlocks_decryptBlocks]

theorem length_mod_of_chainText? {key vector cipher padded : List UInt8}
    (h : chainText? key vector cipher = some padded) : padded.length % 16 = 0 := by
  obtain ⟨k, start, blocks, -, -, -, rfl⟩ := chainText?_eq_some_iff.mp h
  rw [length_bytesOfBlocks]
  omega

/-- What is encrypted can be decrypted, and nothing else can. -/
theorem decrypt?_eq_some_iff {key vector text cipher : List UInt8} :
    decrypt? key vector cipher = some text ↔ encrypt? key vector text = some cipher := by
  rw [decrypt?_eq_bind, encrypt?_eq_some_iff, Option.bind_eq_some_iff]
  constructor
  · rintro ⟨padded, hchain, hunpad⟩
    rw [hchain, (unpad?_eq_some_iff_eq_pad (length_mod_of_chainText? hchain)).mp hunpad]
  · intro hchain
    exact ⟨pad text, hchain,
      (unpad?_eq_some_iff_eq_pad (length_mod_of_chainText? hchain)).mpr rfl⟩

/-- A ciphertext stands for something if the key has one of three lengths, the vector is long enough
and the ciphertext consists of whole blocks. -/
theorem exists_chainText?_iff (key vector cipher : List UInt8) :
    (∃ padded, chainText? key vector cipher = some padded) ↔
      (key.length = 16 ∨ key.length = 24 ∨ key.length = 32) ∧ 16 ≤ vector.length ∧
        cipher.length % 16 = 0 := by
  have hkey : (key.length = 16 ∨ key.length = 24 ∨ key.length = 32) ↔
      ∃ k, KeySchedule.ofKey? key = some k := by
    rw [KeySchedule.exists_ofKey?_iff]
    simp [KeySchedule.isKeyLength, or_assoc]
  rw [hkey, ← exists_chainStart?_iff, ← exists_blocksOfBytes?_iff]
  simp only [chainText?_eq_some_iff, blocksOfBytes?_eq_some_iff]
  constructor
  · rintro ⟨-, k, start, blocks, hk, hstart, hblocks, -⟩
    exact ⟨⟨k, hk⟩, ⟨start, hstart⟩, ⟨blocks, hblocks⟩⟩
  · rintro ⟨⟨k, hk⟩, ⟨start, hstart⟩, ⟨blocks, hblocks⟩⟩
    exact ⟨_, k, start, blocks, hk, hstart, hblocks, rfl⟩

/-- Every text can be encrypted if key and vector are fit for use. -/
theorem isSome_encrypt?_iff (key vector text : List UInt8) :
    (encrypt? key vector text).isSome ↔
      (key.length = 16 ∨ key.length = 24 ∨ key.length = 32) ∧ 16 ≤ vector.length := by
  rw [Option.isSome_iff_exists]
  constructor
  · rintro ⟨cipher, hcipher⟩
    have hchain := encrypt?_eq_some_iff.mp hcipher
    have hfit := (exists_chainText?_iff key vector cipher).mp ⟨_, hchain⟩
    exact ⟨hfit.1, hfit.2.1⟩
  · rintro ⟨hkey, hvector⟩
    obtain ⟨-, k, start, -, hk, hstart, -, -⟩ :=
      ((exists_chainText?_iff key vector []).mpr ⟨hkey, hvector, rfl⟩).imp
        fun _ h => chainText?_eq_some_iff.mp h
    obtain ⟨blocks, hblocks⟩ := (exists_blocksOfBytes?_iff (pad text)).mpr (length_pad_mod text)
    refine ⟨bytesOfBlocks (encryptBlocks k start blocks), encrypt?_eq_some_iff.mpr ?_⟩
    refine chainText?_eq_some_iff.mpr ⟨k, start, _, hk, hstart, rfl, ?_⟩
    rw [decryptBlocks_encryptBlocks, eq_bytesOfBlocks hblocks]

/-- An empty ciphertext stands for nothing, which does not end in a padding. -/
theorem not_isPadded_of_chainText?_nil {key vector padded : List UInt8}
    (h : chainText? key vector [] = some padded) : ¬IsPadded padded := by
  obtain ⟨k, start, blocks, -, -, hblocks, rfl⟩ := chainText?_eq_some_iff.mp h
  have hlength := congrArg List.length hblocks
  rw [length_bytesOfBlocks, List.length_nil] at hlength
  obtain rfl : blocks = [] := List.length_eq_zero_iff.mp (by omega)
  rw [isPadded_iff_isSome]
  exact Bool.noConfusion

/-- Decryption is refused for one of five reasons, the last of which needs a look at what the
ciphertext stands for. -/
theorem decrypt?_eq_none_iff (key vector cipher : List UInt8) :
    decrypt? key vector cipher = none ↔
      ¬(key.length = 16 ∨ key.length = 24 ∨ key.length = 32) ∨ vector.length < 16 ∨
        cipher = [] ∨ cipher.length % 16 ≠ 0 ∨
          ∃ padded, chainText? key vector cipher = some padded ∧ ¬IsPadded padded := by
  have hchain := exists_chainText?_iff key vector cipher
  rw [decrypt?_eq_bind]
  cases h : chainText? key vector cipher with
  | none =>
      -- there is nothing to remove a padding from, so one of the first conditions fails
      have hunfit : ¬((key.length = 16 ∨ key.length = 24 ∨ key.length = 32) ∧
          16 ≤ vector.length ∧ cipher.length % 16 = 0) := by
        rw [← hchain, h]
        simp
      simp only [Option.bind_none, true_iff]
      by_cases hkey : key.length = 16 ∨ key.length = 24 ∨ key.length = 32
      · by_cases hvector : vector.length < 16
        · exact .inr (.inl hvector)
        · exact .inr (.inr (.inr (.inl fun hmod => hunfit ⟨hkey, by omega, hmod⟩)))
      · exact .inl hkey
  | some padded =>
      -- key, vector and length are in order, so only the padding can be at fault
      obtain ⟨hkey, hvector, hmod⟩ := hchain.mp ⟨padded, h⟩
      rw [Option.bind_some, ← Option.not_isSome_iff_eq_none, ← isPadded_iff_isSome]
      constructor
      · intro hpadded
        exact .inr (.inr (.inr (.inr ⟨padded, rfl, hpadded⟩)))
      · rintro (hbad | hshort | rfl | hpart | ⟨padded', hsame, hpadded⟩)
        · exact absurd hkey hbad
        · omega
        · exact not_isPadded_of_chainText?_nil h
        · exact absurd hmod hpart
        · cases hsame
          exact hpadded

/-- Decryption and encryption are inverse to each other on their whole domain.  Every text has a
ciphertext under a key of 16, 24 or 32 bytes and a vector of at least one block; and there is no
text for any other key, for a shorter vector, for a ciphertext that is empty or not made of whole
blocks, or if what the ciphertext stands for does not end in a padding. -/
theorem decrypt?_iff_encrypt? (key vector text cipher : List UInt8) :
    (decrypt? key vector cipher = some text ↔ encrypt? key vector text = some cipher) ∧
      ((encrypt? key vector text).isSome ↔
        (key.length = 16 ∨ key.length = 24 ∨ key.length = 32) ∧ 16 ≤ vector.length) ∧
      (decrypt? key vector cipher = none ↔
        ¬(key.length = 16 ∨ key.length = 24 ∨ key.length = 32) ∨ vector.length < 16 ∨
          cipher = [] ∨ cipher.length % 16 ≠ 0 ∨
            ∃ padded, chainText? key vector cipher = some padded ∧ ¬IsPadded padded) :=
  ⟨decrypt?_eq_some_iff, isSome_encrypt?_iff key vector text,
    decrypt?_eq_none_iff key vector cipher⟩

end ResolverRecovery.Cipher
