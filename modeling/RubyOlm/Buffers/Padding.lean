import RubyOlm.Buffers.Cipher

/-!
# Padding

Which ciphertexts `_olm_crypto_aes_decrypt_cbc` takes, beside those that `_olm_crypto_aes_encrypt_cbc` makes: it
compares a single byte with the length of the whole input.
-/

namespace RubyOlm

namespace Aes

variable (aes : Aes) (key : Block 32)

/-! ### Ciphertexts -/

/-- The last block of the input, decrypted, with the block before it or the IV xored away. -/
def lastBlock (iv : Block 16) (input : Bytes) : Block 16 :=
  xorBlock (aes.decrypt key (Block.load 16 (input.drop (input.length - 16))))
    (Block.load 16 ((iv.val ++ input).drop (input.length - 16)))

/-- A ciphertext with the padding of PKCS#7. -/
structure WellPadded (iv : Block 16) (input : Bytes) : Prop where
  some : 0 < input.length
  whole : input.length % 16 = 0
  padded : ∃ padding, 1 ≤ padding ∧ padding ≤ 16 ∧
    (lastBlock aes key iv input).val.drop (16 - padding) = List.replicate padding (UInt8.ofNat padding)

/-- What encryption makes of some plaintext. -/
def Encrypted (iv : Block 16) (input : Bytes) : Prop := ∃ plaintext, encryptCbc aes key iv plaintext = input

variable {aes key}

theorem xorBlock_comm (a b : Block 16) : xorBlock a b = xorBlock b a := by
  apply Subtype.ext
  apply List.ext_getElem (by simp [xorBlock])
  intro i _ _
  simp only [xorBlock, List.getElem_zipWith]
  exact UInt8.xor_comm _ _

theorem load_append_drop {input : Bytes} (long : 16 ≤ input.length) :
    (Block.load 16 input).val ++ input.drop 16 = input := by
  rw [load_take long, List.take_append_drop]

theorem drop_decryptBlocks (count : Nat) (block1 : Block 16) {input : Bytes} (long : 16 * (count + 1) ≤ input.length) :
    (decryptBlocks aes key (count + 1) block1 input).drop (16 * count) =
      (xorBlock (aes.decrypt key (Block.load 16 (input.drop (16 * count))))
        (Block.load 16 ((block1.val ++ input).drop (16 * count)))).val := by
  induction count generalizing block1 input with
  | zero =>
    rw [Nat.mul_zero, List.drop_zero, List.drop_zero, List.drop_zero, Block.load_append, decryptBlocks, decryptBlocks,
      List.append_nil]
  | succ count ih =>
    have behind := ih (Block.load 16 input) (show _ ≤ (input.drop 16).length by rw [List.length_drop]; omega)
    rw [load_append_drop (by omega), List.drop_drop] at behind
    have past (block : Block 16) (rest : Bytes) : (block.val ++ rest).drop (16 * (count + 1)) = rest.drop (16 * count) := by
      rw [Nat.mul_succ, Nat.add_comm, ← List.drop_drop, List.drop_left' (Block.length_val _)]
    have place : 16 * (count + 1) = 16 + 16 * count := by omega
    rw [decryptBlocks, past, past, behind, place]

theorem lastBlock_eq (iv : Block 16) {input : Bytes} {count : Nat} (length : input.length = 16 * (count + 1)) :
    (lastBlock aes key iv input).val = (decryptBlocks aes key (count + 1) iv input).drop (16 * count) := by
  have last : input.length - 16 = 16 * count := by omega
  rw [drop_decryptBlocks count iv (Nat.le_of_eq length.symm), lastBlock, last]

theorem encrypt_decrypted (perm : aes.Permutation) (iv block : Block 16) :
    aes.encrypt key (xorBlock iv (xorBlock (aes.decrypt key block) iv)) = block := by
  rw [xorBlock_comm (aes.decrypt key block), xorBlock_comm iv, xorBlock_cancel, perm.encrypt_decrypt]

/-- Blocks that are decrypted to a padded text are those of the text. -/
theorem encryptBlocks_decryptBlocks (perm : aes.Permutation) (count : Nat) (iv : Block 16) {input plaintext : Bytes}
    {padding : Nat} (length : input.length = 16 * (count + 1)) (short : 1 ≤ padding ∧ padding ≤ 16)
    (opened : decryptBlocks aes key (count + 1) iv input =
      plaintext ++ List.replicate padding (UInt8.ofNat padding)) :
    encryptBlocks aes key count iv plaintext = input := by
  have lengths := congrArg List.length opened
  rw [length_decryptBlocks, List.length_append, List.length_replicate] at lengths
  induction count generalizing iv input plaintext with
  | zero =>
    have last : padBlock plaintext = xorBlock (aes.decrypt key (Block.load 16 input)) iv := by
      apply Subtype.ext
      have missing : 16 - plaintext.length = padding := by omega
      rw [padBlock_val (by omega), missing, ← opened, decryptBlocks, decryptBlocks, List.append_nil]
    rw [encryptBlocks, last, encrypt_decrypted perm, load_take (Nat.le_of_eq length.symm),
      List.take_of_length_le (Nat.le_of_eq length)]
  | succ count ih =>
    rw [decryptBlocks] at opened
    have front := congrArg (List.take 16) opened
    have behind := congrArg (List.drop 16) opened
    rw [List.take_left' (Block.length_val _), List.take_append_of_le_length (by omega)] at front
    rw [List.drop_left' (Block.length_val _), List.drop_append_of_le_length (by omega)] at behind
    have first : Block.load 16 plaintext = xorBlock (aes.decrypt key (Block.load 16 input)) iv := by
      apply Subtype.ext
      rw [load_take (by omega), front]
    have rest := ih (Block.load 16 input) (show (input.drop 16).length = _ by rw [List.length_drop]; omega) behind
      (by rw [List.length_drop]; omega)
    rw [encryptBlocks, first, encrypt_decrypted perm, rest, load_append_drop (by omega)]

/-- The encryption of some plaintext is told by its padding. -/
theorem encrypted_iff (perm : aes.Permutation) {iv : Block 16} {input : Bytes} :
    Encrypted aes key iv input ↔ WellPadded aes key iv input := by
  constructor
  · rintro ⟨plaintext, rfl⟩
    have length : (encryptCbc aes key iv plaintext).length = 16 * (plaintext.length / 16 + 1) :=
      length_encryptBlocks ..
    have opened := decryptBlocks_encryptBlocks key perm (plaintext.length / 16) iv plaintext [] rfl
    rw [List.append_nil] at opened
    refine ⟨by omega, by omega, 16 - plaintext.length % 16, by omega, by omega, ?_⟩
    rw [lastBlock_eq iv length, encryptCbc, opened, List.drop_drop]
    exact List.drop_left' (by omega)
  · rintro ⟨some, whole, padding, positive, small, padded⟩
    obtain ⟨count, length⟩ : ∃ count, input.length = 16 * (count + 1) := ⟨input.length / 16 - 1, by omega⟩
    rw [lastBlock_eq iv length, List.drop_drop] at padded
    obtain ⟨decrypted, hdecrypted⟩ : ∃ decrypted, decryptBlocks aes key (count + 1) iv input = decrypted := ⟨_, rfl⟩
    have decrypted_length : decrypted.length = 16 * (count + 1) := by
      rw [← hdecrypted, length_decryptBlocks]
    rw [hdecrypted] at padded
    have text_length : (decrypted.take (16 * count + (16 - padding))).length = 16 * count + (16 - padding) := by
      rw [List.length_take]
      omega
    refine ⟨decrypted.take (16 * count + (16 - padding)), ?_⟩
    have blocks : (decrypted.take (16 * count + (16 - padding))).length / 16 = count := by
      rw [text_length]
      omega
    rw [encryptCbc, blocks]
    apply encryptBlocks_decryptBlocks perm count iv length ⟨positive, small⟩
    rw [hdecrypted, ← padded, List.take_append_drop]

/-! ### What is rejected -/

variable {B : Type}

variable (aes key) in
/-- The byte that is taken for the length of the padding: where the input ends in its last block, which may lie partly
behind the input, or before the output when there is no block. -/
def paddingByte (iv : Block 16) (memory : Memory B) (input : Pointer B) (inputLength : Nat) (output : Pointer B) : UInt8 :=
  if inputLength = 0 then memory (output - 1)
  else (lastBlock aes key iv (memory.read input (16 * ((inputLength + 15) / 16)))).val.getD ((inputLength - 1) % 16) 0

variable [DecidableEq B] {iv : Block 16} {memory : Memory B} {input output : Pointer B} {inputLength : Nat}

/-- The one test that is made. -/
theorem decryptCbcAt_eq_none_iff (clear : Clear 16 16 ((inputLength + 15) / 16) 0 input output) :
    (decryptCbcAt aes key iv input inputLength output memory).value = none ↔
      inputLength < (paddingByte aes key iv memory input inputLength output).toNat := by
  have byte : (decryptBlocks aes key ((inputLength + 15) / 16) iv
      (memory.read input (16 * ((inputLength + 15) / 16)))).getD (inputLength - 1)
        ((aes.around memory input inputLength output).overread 15) =
      paddingByte aes key iv memory input inputLength output := by
    unfold paddingByte
    cases inputLength with
    | zero => rfl
    | succ before =>
      have count : (before + 1 + 15) / 16 = before / 16 + 1 := by omega
      have place : before = 16 * (before / 16) + before % 16 := by omega
      rw [if_neg (Nat.succ_ne_zero before), Nat.add_sub_cancel, count,
        lastBlock_eq iv (Memory.length_read memory input _), List.getD_eq_getElem?_getD, List.getD_eq_getElem?_getD,
        List.getElem?_drop, ← place, List.getElem?_eq_getElem (by rw [length_decryptBlocks]; omega)]
      rfl
  rw [decryptCbcAt_value aes key iv input output inputLength memory clear, byte]
  dsimp only
  split
  · rename_i larger
    exact ⟨fun _ => larger, fun _ => rfl⟩
  · rename_i small
    exact ⟨fun impossible => (nomatch impossible), fun larger => absurd larger small⟩

omit [DecidableEq B] in
/-- A padding of at most 16 bytes is no larger than the block that it ends. -/
theorem WellPadded.paddingByte_le (padded : WellPadded aes key iv (memory.read input inputLength)) :
    (paddingByte aes key iv memory input inputLength output).toNat ≤ inputLength := by
  obtain ⟨some, whole, padding, positive, small, pads⟩ := padded
  rw [Memory.length_read] at some whole
  have blocks : 16 * ((inputLength + 15) / 16) = inputLength := by omega
  have last : (inputLength - 1) % 16 = 16 - padding + (padding - 1) := by omega
  have byte := congrArg (fun block : Bytes => block[padding - 1]?) pads
  rw [List.getElem?_drop, ← last, List.getElem?_replicate, if_pos (by omega)] at byte
  have value : (UInt8.ofNat padding).toNat = padding := UInt8.toNat_ofNat_of_lt' (by simp only [UInt8.size]; omega)
  rw [paddingByte, if_neg (by omega), blocks, List.getD_eq_getElem?_getD, byte, Option.getD_some, value]
  omega

/-- For every key, IV and input: exactly what was not encrypted is rejected, or what is not padded as encryption pads,
if and only if the input is so padded or the byte that is taken for the padding is larger than the whole input. -/
theorem padding_rejected_iff (perm : aes.Permutation)
    (placed : input = output ∨ Memory.Apart input (16 * ((inputLength + 15) / 16)) output
      (16 * ((inputLength + 15) / 16))) :
    (((decryptCbcAt aes key iv input inputLength output memory).value = none ↔
          ¬ Encrypted aes key iv (memory.read input inputLength)) ∧
        ((decryptCbcAt aes key iv input inputLength output memory).value = none ↔
          ¬ WellPadded aes key iv (memory.read input inputLength))) ↔
      WellPadded aes key iv (memory.read input inputLength) ∨
        inputLength < (paddingByte aes key iv memory input inputLength output).toNat := by
  have clear : Clear 16 16 ((inputLength + 15) / 16) 0 input output :=
    clear_placed (Nat.le_refl _) (by rwa [Nat.add_zero])
  rw [encrypted_iff perm, and_self, decryptCbcAt_eq_none_iff clear]
  constructor
  · intro exact'
    by_cases padded : WellPadded aes key iv (memory.read input inputLength)
    · exact .inl padded
    · exact .inr (exact'.mpr padded)
  · intro either
    have sound (padded : WellPadded aes key iv (memory.read input inputLength)) :
        ¬ inputLength < (paddingByte aes key iv memory input inputLength output).toNat :=
      Nat.not_lt.mpr padded.paddingByte_le
    rcases either with padded | larger
    · exact ⟨fun larger => absurd larger (sound padded), fun invalid => absurd padded invalid⟩
    · exact ⟨fun _ padded => absurd larger (sound padded), fun _ => larger⟩

/-- A block that is what the encryption of nothing is. -/
theorem padding_rejected_iff_nothing :
    let memory : Memory Unit := fun _ => 16
    let start := Pointer.start ()
    (((decryptCbcAt Crypto.plain.aes (Block.zero 32) (Block.zero 16) start 16 start memory).value = none ↔
          ¬ Encrypted Crypto.plain.aes (Block.zero 32) (Block.zero 16) (memory.read start 16)) ∧
        ((decryptCbcAt Crypto.plain.aes (Block.zero 32) (Block.zero 16) start 16 start memory).value = none ↔
          ¬ WellPadded Crypto.plain.aes (Block.zero 32) (Block.zero 16) (memory.read start 16))) :=
  (padding_rejected_iff Crypto.plain_permutation (.inl rfl)).mpr
    (.inl ⟨by decide, by decide, 16, by decide, by decide, by decide⟩)

/-- A block that is decrypted to zeros passes for sixteen bytes of text, though none are encrypted to it. -/
theorem zero_padding_accepted :
    let memory : Memory Unit := fun _ => 0
    let start := Pointer.start ()
    (decryptCbcAt Crypto.plain.aes (Block.zero 32) (Block.zero 16) start 16 start memory).value = some 16 ∧
      ¬ ((decryptCbcAt Crypto.plain.aes (Block.zero 32) (Block.zero 16) start 16 start memory).value = none ↔
        ¬ Encrypted Crypto.plain.aes (Block.zero 32) (Block.zero 16) (memory.read start 16)) := by
  dsimp only
  have accepted : (decryptCbcAt Crypto.plain.aes (Block.zero 32) (Block.zero 16) (Pointer.start ()) 16
      (Pointer.start ()) fun _ => 0).value = some 16 := by decide
  refine ⟨accepted, ?_⟩
  rw [accepted, encrypted_iff Crypto.plain_permutation]
  intro exact'
  have padded := not_not.mp (mt exact'.mpr nofun)
  obtain ⟨-, -, padding, positive, small, zeros⟩ := padded
  have block : (lastBlock Crypto.plain.aes (Block.zero 32) (Block.zero 16)
      (Memory.read (fun _ => 0) (Pointer.start ()) 16)).val = List.replicate 16 0 := by decide
  rw [block, List.drop_replicate, Nat.sub_sub_self small] at zeros
  have byte := List.eq_of_mem_replicate (zeros ▸ List.mem_replicate.mpr ⟨by omega, rfl⟩ : (0 : UInt8) ∈ _)
  have value : (UInt8.ofNat padding).toNat = padding := UInt8.toNat_ofNat_of_lt' (by simp only [UInt8.size]; omega)
  rw [← byte] at value
  have zero : (0 : UInt8).toNat = 0 := rfl
  omega

end Aes

end RubyOlm
