import Mathlib.Tactic.Tauto
import RubyOlm.Cipher
import RubyOlm.Theory.Memory

/-!
# The cipher in buffers

CBC mode of `crypto.cpp` and `_olm_cipher_aes_sha_256` of `cipher.cpp` over pointers. Plaintext and ciphertext may
be one buffer. Decryption works on whole blocks: of an input that does not end with one it reads on behind the
input, and writes as much behind the output.
-/

namespace RubyOlm

open Prog

variable {B : Type} [DecidableEq B]

/-! ### CBC -/

namespace Aes

variable (aes : Aes) (key : Block 32)

/-- The body of the `while` loop of `_olm_crypto_aes_encrypt_cbc`. -/
def encryptCbcBlock (inputBlock : Block 16) (input output : Pointer B) : Prog B (Block 16) := do
  let inputBlock := xorBlock inputBlock (Block.load 16 (← loadBytes input 16))
  storeBytes output (aes.encrypt key inputBlock).val
  return Block.load 16 (← loadBytes output 16)

def encryptCbcAt (iv : Block 16) (input : Pointer B) (inputLength : Nat) (output : Pointer B) : Prog B Unit := do
  let whole := inputLength / 16
  let inputBlock ← groups (encryptCbcBlock aes key) 16 16 whole iv input output
  let rest ← loadBytes (input + 16 * whole) (inputLength % 16)
  storeBytes (output + 16 * whole) (aes.encrypt key (xorBlock inputBlock (padBlock rest))).val

/-- The body of the `for` loop of `_olm_crypto_aes_decrypt_cbc`. -/
def decryptCbcBlock (block1 : Block 16) (input output : Pointer B) : Prog B (Block 16) := do
  let block2 := Block.load 16 (← loadBytes input 16)
  let block := Block.load 16 (← loadBytes input 16)
  storeBytes output (aes.decrypt key block).val
  let decrypted := Block.load 16 (← loadBytes output 16)
  storeBytes output (xorBlock decrypted block1).val
  return block2

/-- `_olm_crypto_aes_decrypt_cbc`; `none` is `size_t(-1)`. -/
def decryptCbcAt (iv : Block 16) (input : Pointer B) (inputLength : Nat) (output : Pointer B) :
    Prog B (Option Nat) := do
  let _ ← groups (decryptCbcBlock aes key) 16 16 ((inputLength + 15) / 16) iv input output
  let padding := (← load (output + inputLength - 1)).toNat
  return if padding > inputLength then none else some (inputLength - padding)

def encryptCbcTurn : Turn (Block 16) where
  next inputBlock bytes := aes.encrypt key (xorBlock inputBlock (Block.load 16 bytes))
  put inputBlock bytes := (aes.encrypt key (xorBlock inputBlock (Block.load 16 bytes))).val

def decryptCbcTurn : Turn (Block 16) where
  next _ bytes := Block.load 16 bytes
  put block1 bytes := (xorBlock (aes.decrypt key (Block.load 16 bytes)) block1).val

variable {P : Access B → Prop}

theorem encryptCbcBlock_within (inputBlock : Block 16) (input output : Pointer B) (memory : Memory B) :
    (encryptCbcBlock aes key inputBlock input output).Within memory P ↔
      Covers P .read input 16 ∧ Covers P .write output 16 ∧ Covers P .read output 16 := by
  simp only [encryptCbcBlock, within_bind, within_loadBytes, within_storeBytes, within_pure, Block.length_val,
    and_true]

theorem decryptCbcBlock_within (block1 : Block 16) (input output : Pointer B) (memory : Memory B) :
    (decryptCbcBlock aes key block1 input output).Within memory P ↔
      Covers P .read input 16 ∧ Covers P .write output 16 ∧ Covers P .read output 16 := by
  simp only [decryptCbcBlock, within_bind, within_loadBytes, within_storeBytes, within_pure, Block.length_val,
    and_true]
  tauto

theorem read_write_block (memory : Memory B) (p : Pointer B) (block : Block 16) :
    (memory.write p block.val).read p 16 = block.val := by
  have read := Memory.read_write memory p block.val
  rwa [Block.length_val] at read

theorem encryptCbcBlock_does :
    Does (B := B) (encryptCbcBlock aes key) 16 16 (encryptCbcTurn aes key) where
  value inputBlock input output memory := by
    simp only [encryptCbcBlock, value_bind, value_loadBytes, memory_loadBytes, memory_storeBytes,
      run_pure, read_write_block, Block.load_val]
    rfl
  memory _ _ _ _ := rfl
  length _ _ _ := Block.length_val _

theorem decryptCbcBlock_does :
    Does (B := B) (decryptCbcBlock aes key) 16 16 (decryptCbcTurn aes key) where
  value _ _ _ _ := rfl
  memory block1 input output memory := by
    simp only [decryptCbcBlock, memory_bind, value_loadBytes, memory_loadBytes, memory_storeBytes,
      run_pure, read_write_block, Block.load_val]
    rw [Memory.write_write _ _ (by rw [Block.length_val, Block.length_val])]
    rfl
  length _ _ _ := Block.length_val _

theorem load_append_of_le {whole : Bytes} (long : 16 ≤ whole.length) (rest : Bytes) :
    Block.load 16 (whole ++ rest) = Block.load 16 whole := by
  apply Subtype.ext
  rw [load_take long, load_take (by rw [List.length_append]; omega), List.take_append_of_le_length long]

theorem encryptBlocks_append {whole : Bytes} {count : Nat} (length : whole.length = 16 * count)
    (inputBlock : Block 16) (rest : Bytes) :
    encryptBlocks aes key count inputBlock (whole ++ rest) =
      (encryptCbcTurn aes key).outputs 16 count inputBlock whole ++
        (aes.encrypt key (xorBlock ((encryptCbcTurn aes key).final 16 count inputBlock whole) (padBlock rest))).val := by
  induction count generalizing whole inputBlock with
  | zero =>
    obtain rfl := List.length_eq_zero_iff.mp length
    rfl
  | succ count ih =>
    have long : 16 ≤ whole.length := by omega
    have shorter : (whole.drop 16).length = 16 * count := by
      rw [List.length_drop]
      omega
    rw [encryptBlocks, Turn.outputs, Turn.final, List.append_assoc, ← ih shorter,
      List.drop_append_of_le_length long, load_append_of_le long]
    simp only [encryptCbcTurn, Block.load_take_self]

theorem outputs_decryptCbcTurn (count : Nat) (block1 : Block 16) (input : Bytes) :
    (decryptCbcTurn aes key).outputs 16 count block1 input = decryptBlocks aes key count block1 input := by
  induction count generalizing block1 input with
  | zero => rfl
  | succ count ih =>
    rw [Turn.outputs, decryptBlocks, ih]
    simp only [decryptCbcTurn, Block.load_take_self]

/-- Only the blocks that are counted are decrypted. -/
theorem decryptBlocks_append {whole : Bytes} {count : Nat} (length : whole.length = 16 * count)
    (block1 : Block 16) (rest : Bytes) :
    decryptBlocks aes key count block1 (whole ++ rest) = decryptBlocks aes key count block1 whole := by
  induction count generalizing whole block1 with
  | zero => rfl
  | succ count ih =>
    have long : 16 ≤ whole.length := by omega
    have shorter : (whole.drop 16).length = 16 * count := by
      rw [List.length_drop]
      omega
    rw [decryptBlocks, decryptBlocks, List.drop_append_of_le_length long, load_append_of_le long, ih shorter]

theorem length_decryptBlocks (count : Nat) (block1 : Block 16) (input : Bytes) :
    (decryptBlocks aes key count block1 input).length = 16 * count := by
  induction count generalizing block1 input with
  | zero => rfl
  | succ count ih =>
    rw [decryptBlocks, List.length_append, Block.length_val, ih]
    omega

omit [DecidableEq B] in
theorem trails_blocks {input output : Pointer B} (behind : input.block = output.block → output.index ≤ input.index)
    (count : Nat) : Trails 16 16 count input output := by
  intro same turn lt
  have left := behind same
  omega

omit [DecidableEq B] in
theorem clear_blocks {input output : Pointer B} (behind : input.block = output.block → output.index ≤ input.index)
    (count rest : Nat) : Clear 16 16 count rest input output :=
  (trails_blocks behind count).clear rest

omit [DecidableEq B] in
theorem clear_other {input output : Pointer B} (other : input.block ≠ output.block) (count rest : Nat) :
    Clear 16 16 count rest input output :=
  clear_blocks (fun same => absurd same other) count rest

omit [DecidableEq B] in
/-- One buffer for both, or two with no place in common. -/
theorem clear_placed {input output : Pointer B} {count rest length : Nat} (whole : 16 * count ≤ length)
    (placed : input = output ∨ Memory.Apart input (16 * count + rest) output length) :
    Clear 16 16 count rest input output := by
  rcases placed with rfl | apart
  · exact clear_blocks (fun _ => Int.le_refl _) count rest
  · exact clear_of_apart (apart.front whole)

theorem encryptCbcAt_within (iv : Block 16) (input output : Pointer B) (inputLength : Nat) (memory : Memory B) :
    (encryptCbcAt aes key iv input inputLength output).Within memory P ↔
      Covers P .read input inputLength ∧ Covers P .write output (encryptCbcLength inputLength) ∧
        Covers P .read output (16 * (inputLength / 16)) := by
  have length : 16 * (inputLength / 16) + inputLength % 16 = inputLength := Nat.div_add_mod _ _
  have padded : encryptCbcLength inputLength = 16 * (inputLength / 16) + 16 := by
    unfold encryptCbcLength
    omega
  have reads : Covers P .read input inputLength ↔ Covers P .read input (16 * (inputLength / 16)) ∧
      Covers P .read (input + 16 * (inputLength / 16)) (inputLength % 16) := by
    rw [← covers_add, length]
  rw [encryptCbcAt, within_bind, groups_within (encryptCbcBlock_within aes key), within_bind, within_loadBytes,
    within_storeBytes, Block.length_val, forall₂_and, forall₂_and, covers_mul, covers_mul, covers_mul, reads,
    padded, covers_add]
  tauto

/-- Whatever `input` and `output` are, as long as no block is put over what is still to be encrypted. -/
theorem encryptCbcAt_memory (iv : Block 16) (input output : Pointer B) (inputLength : Nat) (memory : Memory B)
    (clear : Clear 16 16 (inputLength / 16) (inputLength % 16) input output) :
    (encryptCbcAt aes key iv input inputLength output memory).memory =
      memory.write output (encryptCbc aes key iv (memory.read input inputLength)) := by
  have length : 16 * (inputLength / 16) + inputLength % 16 = inputLength := Nat.div_add_mod _ _
  have does : Does (B := B) (encryptCbcBlock aes key) 16 16 (encryptCbcTurn aes key) := encryptCbcBlock_does aes key
  obtain ⟨final, grouped, unread⟩ := does.groups_clear (inputLength / 16) _ iv input output memory clear
  rw [encryptCbc, Memory.length_read]
  have parts := Memory.read_add memory input (16 * (inputLength / 16)) (inputLength % 16)
  rw [length] at parts
  rw [encryptCbcAt, memory_bind, memory_bind, value_loadBytes, memory_loadBytes, memory_storeBytes, unread, final,
    grouped, parts, encryptBlocks_append aes key (Memory.length_read ..), Memory.write_append,
    does.length_outputs _ _ _ (Memory.length_read ..)]

theorem decryptCbcAt_within (iv : Block 16) (input output : Pointer B) (inputLength : Nat) (memory : Memory B) :
    (decryptCbcAt aes key iv input inputLength output).Within memory P ↔
      Covers P .read input (16 * ((inputLength + 15) / 16)) ∧
        Covers P .write output (16 * ((inputLength + 15) / 16)) ∧
        Covers P .read output (16 * ((inputLength + 15) / 16)) ∧ P ⟨.read, output + inputLength - 1⟩ := by
  rw [decryptCbcAt, within_bind, groups_within (decryptCbcBlock_within aes key), within_bind, within_load,
    forall₂_and, forall₂_and, covers_mul, covers_mul, covers_mul]
  simp only [within_pure]
  tauto

theorem decryptCbcAt_memory (iv : Block 16) (input output : Pointer B) (inputLength : Nat) (memory : Memory B)
    (clear : Clear 16 16 ((inputLength + 15) / 16) 0 input output) :
    (decryptCbcAt aes key iv input inputLength output memory).memory =
      memory.write output (decryptBlocks aes key ((inputLength + 15) / 16) iv
        (memory.read input (16 * ((inputLength + 15) / 16)))) := by
  obtain ⟨-, grouped, -⟩ := (decryptCbcBlock_does aes key).groups_clear _ 0 iv input output memory clear
  rw [decryptCbcAt, memory_bind, memory_bind, memory_load, grouped, outputs_decryptCbcTurn]
  rfl

/-- The same block cipher, in surroundings where a read outside the buffers finds what memory holds there. -/
def around (memory : Memory B) (input : Pointer B) (inputLength : Nat) (output : Pointer B) : Aes :=
  { aes with
    overread := fun i =>
      if i < 15 then memory (input + inputLength + i) else memory (output - 1) }

theorem decryptBlocks_congr (aes aes' : Aes) (same : aes.decrypt = aes'.decrypt) (count : Nat) (block1 : Block 16)
    (input : Bytes) : decryptBlocks aes key count block1 input = decryptBlocks aes' key count block1 input := by
  induction count generalizing block1 input with
  | zero => rfl
  | succ count ih => rw [decryptBlocks, decryptBlocks, ih, same]

theorem encryptBlocks_congr (aes aes' : Aes) (same : aes.encrypt = aes'.encrypt) (count : Nat) (inputBlock : Block 16)
    (input : Bytes) : encryptBlocks aes key count inputBlock input = encryptBlocks aes' key count inputBlock input := by
  induction count generalizing inputBlock input with
  | zero => rw [encryptBlocks, encryptBlocks, same]
  | succ count ih => rw [encryptBlocks, encryptBlocks, ih, same]

/-- The last byte that was decrypted, or the byte before the output when there is none. -/
theorem padding_eq (memory : Memory B) (input output : Pointer B) (inputLength : Nat) (decrypted : Bytes)
    (length : decrypted.length = 16 * ((inputLength + 15) / 16)) :
    memory.write output decrypted (output + inputLength - 1) =
      decrypted.getD (inputLength - 1) ((aes.around memory input inputLength output).overread 15) := by
  cases inputLength with
  | zero =>
    obtain rfl := List.length_eq_zero_iff.mp length
    rw [Memory.write_nil, Pointer.add_zero]
    rfl
  | succ inputLength =>
    rw [Pointer.add_sub output (by omega), Memory.write_add, Nat.add_sub_cancel,
      List.getD_eq_getElem _ _ (by omega), List.getD_eq_getElem _ _ (by omega)]

/-- What is returned depends on one byte of what was decrypted, or on the one before it when that is nothing. -/
theorem decryptCbcAt_value (iv : Block 16) (input output : Pointer B) (inputLength : Nat) (memory : Memory B)
    (clear : Clear 16 16 ((inputLength + 15) / 16) 0 input output) :
    (decryptCbcAt aes key iv input inputLength output memory).value =
      let padding := (decryptBlocks aes key ((inputLength + 15) / 16) iv
        (memory.read input (16 * ((inputLength + 15) / 16)))).getD (inputLength - 1)
          ((aes.around memory input inputLength output).overread 15)
      if padding.toNat > inputLength then none else some (inputLength - padding.toNat) := by
  have left := decryptCbcAt_memory aes key iv input output inputLength memory clear
  have value : (decryptCbcAt aes key iv input inputLength output memory).value =
      let padding := (decryptCbcAt aes key iv input inputLength output memory).memory (output + inputLength - 1)
      if padding.toNat > inputLength then none else some (inputLength - padding.toNat) := rfl
  rw [value, left]
  dsimp only
  rw [padding_eq aes memory input output inputLength _ (length_decryptBlocks ..)]

theorem decryptCbcAt_eq (iv : Block 16) (input output : Pointer B) (inputLength : Nat) (memory : Memory B)
    (clear : Clear 16 16 ((inputLength + 15) / 16) 0 input output) :
    (decryptCbcAt aes key iv input inputLength output memory).value =
        (decryptCbc (aes.around memory input inputLength output) key iv (memory.read input inputLength)).map
          List.length ∧
      ∀ plaintext, decryptCbc (aes.around memory input inputLength output) key iv
          (memory.read input inputLength) = some plaintext →
        (decryptCbcAt aes key iv input inputLength output memory).memory.read output plaintext.length =
          plaintext := by
  obtain ⟨count, hcount⟩ : ∃ count, (inputLength + 15) / 16 = count := ⟨_, rfl⟩
  obtain ⟨decrypted, hdecrypted⟩ :
    ∃ decrypted, decryptBlocks aes key count iv (memory.read input (16 * count)) = decrypted := ⟨_, rfl⟩
  have length : decrypted.length = 16 * count := by
    rw [← hdecrypted, length_decryptBlocks]
  have left : (decryptCbcAt aes key iv input inputLength output memory).memory = memory.write output decrypted := by
    rw [decryptCbcAt_memory aes key iv input output inputLength memory clear, hcount, hdecrypted]
  have behind_input : (List.ofFn fun i : Fin 15 => (aes.around memory input inputLength output).overread i) =
      memory.read (input + inputLength) 15 := rfl
  have all : memory.read input (inputLength + 15) =
      memory.read input (16 * count) ++ memory.read (input + 16 * count) (inputLength + 15 - 16 * count) := by
    rw [← Memory.read_add, Nat.add_sub_cancel' (by omega)]
  have blocks : decryptBlocks (aes.around memory input inputLength output) key count iv
      (memory.read input inputLength ++
        List.ofFn fun i : Fin 15 => (aes.around memory input inputLength output).overread i) = decrypted := by
    rw [behind_input, ← Memory.read_add, all, decryptBlocks_append _ _ (Memory.length_read ..), ← hdecrypted]
    exact decryptBlocks_congr key (aes.around memory input inputLength output) aes rfl count iv _
  have value := decryptCbcAt_value aes key iv input output inputLength memory clear
  rw [hcount, hdecrypted] at value
  rw [value, left, decryptCbc, Memory.length_read, hcount, blocks]
  dsimp only
  by_cases refused : (decrypted.getD (inputLength - 1)
      ((aes.around memory input inputLength output).overread 15)).toNat > inputLength
  · rw [if_pos refused, if_pos refused]
    exact ⟨rfl, fun plaintext none => absurd none (by simp)⟩
  · rw [if_neg refused, if_neg refused, Option.map_some, List.length_take, Nat.min_eq_left (by omega)]
    refine ⟨rfl, ?_⟩
    rintro plaintext opened
    obtain rfl := Option.some.inj opened
    have whole := Memory.read_write memory output decrypted
    rw [List.length_take, Nat.min_eq_left (by omega), ← Memory.take_read _ _ (show _ ≤ decrypted.length by omega),
      whole]

end Aes

/-! ### AES-256 with HMAC-SHA-256 -/

section AesSha256

variable (kdf : Kdf) (aes : Aes) (kdfInfo key : Bytes)

/-- `aes_sha_256_cipher_encrypt`; `none` is `size_t(-1)`. -/
def aesSha256EncryptAt (plaintext : Pointer B) (plaintextLength : Nat) (ciphertext : Pointer B)
    (ciphertextLength : Nat) (output : Pointer B) (outputLength : Nat) : Prog B (Option Nat) :=
  if ciphertextLength < Aes.encryptCbcLength plaintextLength ∨ outputLength < cipherMacLength then pure none
  else do
    let keys := deriveKeys kdf kdfInfo key
    aes.encryptCbcAt keys.aesKey keys.aesIv plaintext plaintextLength ciphertext
    let authenticated ← loadBytes output (outputLength - cipherMacLength)
    storeBytes (output + (outputLength - cipherMacLength)) (truncatedMac kdf keys authenticated)
    return some outputLength

/-- `aes_sha_256_cipher_decrypt`. -/
def aesSha256DecryptAt (input : Pointer B) (inputLength : Nat) (ciphertext : Pointer B) (ciphertextLength : Nat)
    (plaintext : Pointer B) (maxPlaintextLength : Nat) : Prog B (Option Nat) :=
  if maxPlaintextLength < ciphertextLength ∨ inputLength < cipherMacLength then pure none
  else do
    let keys := deriveKeys kdf kdfInfo key
    let authenticated ← loadBytes input (inputLength - cipherMacLength)
    let inputMac ← loadBytes (input + (inputLength - cipherMacLength)) cipherMacLength
    if inputMac = truncatedMac kdf keys authenticated then
      aes.decryptCbcAt keys.aesKey keys.aesIv ciphertext ciphertextLength plaintext
    else return none

/-- The input ends with the MAC of what comes before. -/
def Authentic (input : Bytes) : Prop :=
  input.drop (input.length - cipherMacLength) =
    truncatedMac kdf (deriveKeys kdf kdfInfo key) (input.take (input.length - cipherMacLength))

variable {P : Access B → Prop}

theorem aesSha256EncryptAt_within (plaintext ciphertext output : Pointer B)
    {plaintextLength ciphertextLength outputLength : Nat} (memory : Memory B)
    (ciphertext_room : Aes.encryptCbcLength plaintextLength ≤ ciphertextLength)
    (mac_room : cipherMacLength ≤ outputLength) :
    (aesSha256EncryptAt kdf aes kdfInfo key plaintext plaintextLength ciphertext ciphertextLength output
        outputLength).Within memory P ↔
      (Covers P .read plaintext plaintextLength ∧
        Covers P .write ciphertext (Aes.encryptCbcLength plaintextLength) ∧
        Covers P .read ciphertext (16 * (plaintextLength / 16))) ∧
      Covers P .read output (outputLength - cipherMacLength) ∧
      Covers P .write (output + (outputLength - cipherMacLength)) cipherMacLength := by
  rw [aesSha256EncryptAt, if_neg (by omega), within_bind, within_bind, within_bind, within_loadBytes,
    within_storeBytes, length_truncatedMac, Aes.encryptCbcAt_within]
  simp only [within_pure, and_true]

theorem aesSha256EncryptAt_eq (plaintext ciphertext output : Pointer B)
    {plaintextLength ciphertextLength outputLength : Nat} (memory : Memory B)
    (ciphertext_room : Aes.encryptCbcLength plaintextLength ≤ ciphertextLength)
    (mac_room : cipherMacLength ≤ outputLength)
    (clear : Clear 16 16 (plaintextLength / 16) (plaintextLength % 16) plaintext ciphertext) :
    (aesSha256EncryptAt kdf aes kdfInfo key plaintext plaintextLength ciphertext ciphertextLength output
        outputLength memory).value = some outputLength ∧
      (aesSha256EncryptAt kdf aes kdfInfo key plaintext plaintextLength ciphertext ciphertextLength output
          outputLength memory).memory =
        let encrypted := memory.write ciphertext
          (sealedCiphertext kdf aes kdfInfo key (memory.read plaintext plaintextLength))
        encrypted.write (output + (outputLength - cipherMacLength))
          (truncatedMac kdf (deriveKeys kdf kdfInfo key) (encrypted.read output (outputLength - cipherMacLength))) := by
  rw [aesSha256EncryptAt, if_neg (by omega), value_bind, memory_bind, memory_bind, memory_bind, value_loadBytes,
    memory_loadBytes, memory_storeBytes, Aes.encryptCbcAt_memory _ _ _ _ _ _ _ clear]
  exact ⟨rfl, rfl⟩

/-- Behind a header, with just as much room as the ciphertext and the MAC need. -/
theorem aesSha256EncryptAt_sealed (plaintext output : Pointer B) (header text : Bytes) {memory : Memory B}
    (held : memory.read output header.length = header) (holds : memory.read plaintext text.length = text)
    (clear : Clear 16 16 (text.length / 16) (text.length % 16) plaintext (output + header.length)) :
    (aesSha256EncryptAt kdf aes kdfInfo key plaintext text.length (output + header.length)
        (Aes.encryptCbcLength text.length) output (header.length + Aes.encryptCbcLength text.length + cipherMacLength)
        memory).memory =
      memory.write (output + header.length)
        (sealedCiphertext kdf aes kdfInfo key text ++ sealedMac kdf aes kdfInfo key text header) := by
  obtain ⟨ciphertext, hciphertext⟩ : ∃ ciphertext, sealedCiphertext kdf aes kdfInfo key text = ciphertext := ⟨_, rfl⟩
  have length : ciphertext.length = Aes.encryptCbcLength text.length := by
    rw [← hciphertext, length_sealedCiphertext]
  obtain ⟨-, left⟩ := aesSha256EncryptAt_eq kdf aes kdfInfo key plaintext (output + header.length) output memory
    (Nat.le_refl (Aes.encryptCbcLength text.length))
    (Nat.le_add_left cipherMacLength (header.length + Aes.encryptCbcLength text.length)) clear
  -- the MAC is over the header and what was just encrypted behind it
  have front : (memory.write (output + header.length) ciphertext).read output header.length = header := by
    rw [Memory.read_write_apart _ fun _ => .inr (by rw [Pointer.index_add]), held]
  have authenticated : (memory.write (output + header.length) ciphertext).read output
      (header.length + Aes.encryptCbcLength text.length) = header ++ ciphertext := by
    rw [Memory.read_add, front, Memory.read_write_of_length _ _ _ length]
  dsimp only at left
  rw [Nat.add_sub_cancel, holds, hciphertext, authenticated, ← Pointer.add_add, ← length, ← Memory.write_append] at left
  rw [sealedMac, hciphertext, ← length, left]

omit [DecidableEq B] in
theorem authentic_read (memory : Memory B) (input : Pointer B) {inputLength : Nat}
    (long : cipherMacLength ≤ inputLength) :
    Authentic kdf kdfInfo key (memory.read input inputLength) ↔
      memory.read (input + (inputLength - cipherMacLength)) cipherMacLength =
        truncatedMac kdf (deriveKeys kdf kdfInfo key) (memory.read input (inputLength - cipherMacLength)) := by
  rw [Authentic, Memory.length_read, Memory.drop_read, Memory.take_read _ _ (by omega), Nat.sub_sub_self long]

/-- Nothing is decrypted without the MAC. -/
theorem aesSha256DecryptAt_within (input ciphertext plaintext : Pointer B)
    {inputLength ciphertextLength maxPlaintextLength : Nat} (memory : Memory B)
    (plaintext_room : ciphertextLength ≤ maxPlaintextLength) (long : cipherMacLength ≤ inputLength) :
    (aesSha256DecryptAt kdf aes kdfInfo key input inputLength ciphertext ciphertextLength plaintext
        maxPlaintextLength).Within memory P ↔
      Covers P .read input inputLength ∧
        (Authentic kdf kdfInfo key (memory.read input inputLength) →
          Covers P .read ciphertext (16 * ((ciphertextLength + 15) / 16)) ∧
            Covers P .write plaintext (16 * ((ciphertextLength + 15) / 16)) ∧
            Covers P .read plaintext (16 * ((ciphertextLength + 15) / 16)) ∧
            P ⟨.read, plaintext + ciphertextLength - 1⟩) := by
  have reads : Covers P .read input inputLength ↔ Covers P .read input (inputLength - cipherMacLength) ∧
      Covers P .read (input + (inputLength - cipherMacLength)) cipherMacLength := by
    rw [← covers_add, Nat.sub_add_cancel long]
  rw [aesSha256DecryptAt, if_neg (by omega), within_bind, within_bind, within_loadBytes, within_loadBytes, within_ite,
    Aes.decryptCbcAt_within, reads, and_assoc, authentic_read kdf kdfInfo key memory input long]
  simp only [value_loadBytes, memory_loadBytes, within_pure, implies_true, and_true]

/-- What is returned and what is left at `plaintext` are the results of the cipher. -/
theorem aesSha256DecryptAt_eq (input ciphertext plaintext : Pointer B)
    (inputLength ciphertextLength maxPlaintextLength : Nat) (memory : Memory B)
    (clear : Clear 16 16 ((ciphertextLength + 15) / 16) 0 ciphertext plaintext) :
    let surrounded := aes.around memory ciphertext ciphertextLength plaintext
    let left := aesSha256DecryptAt kdf aes kdfInfo key input inputLength ciphertext ciphertextLength plaintext
      maxPlaintextLength memory
    let result := (aesSha256 kdf surrounded kdfInfo).decrypt key (memory.read input inputLength)
      (memory.read ciphertext ciphertextLength) maxPlaintextLength
    left.value = result.map List.length ∧
      ∀ text, result = some text → left.memory.read plaintext text.length = text := by
  dsimp only
  simp only [aesSha256DecryptAt, aesSha256, Memory.length_read]
  by_cases refused : maxPlaintextLength < ciphertextLength ∨ inputLength < cipherMacLength
  · rw [if_pos refused, if_pos refused]
    exact ⟨rfl, fun text none => absurd none (by simp)⟩
  · have long : cipherMacLength ≤ inputLength := by omega
    have authentic := authentic_read kdf kdfInfo key memory input long
    rw [Authentic, Memory.length_read] at authentic
    rw [if_neg refused, if_neg refused, value_bind, value_bind, memory_bind, memory_bind]
    simp only [authentic]
    split
    · rename_i same
      rw [value_loadBytes, value_loadBytes, memory_loadBytes] at same
      rw [if_pos same]
      exact Aes.decryptCbcAt_eq aes _ _ ciphertext plaintext ciphertextLength memory clear
    · rename_i differs
      rw [value_loadBytes, value_loadBytes, memory_loadBytes] at differs
      rw [if_neg differs]
      exact ⟨rfl, fun text none => absurd none (by simp)⟩

/-- What opens a message fits its MAC, is no longer than the ciphertext, and nothing but the plaintext is changed. -/
theorem aesSha256DecryptAt_opens (input ciphertext plaintext : Pointer B)
    {inputLength ciphertextLength maxPlaintextLength : Nat} (memory : Memory B)
    (long : cipherMacLength ≤ inputLength) {length : Nat}
    (opened : (aesSha256DecryptAt kdf aes kdfInfo key input inputLength ciphertext ciphertextLength plaintext
      maxPlaintextLength memory).value = some length) :
    Authentic kdf kdfInfo key (memory.read input inputLength) ∧ length ≤ ciphertextLength := by
  rw [authentic_read kdf kdfInfo key memory input long]
  unfold aesSha256DecryptAt at opened
  split at opened
  · cases opened
  rw [value_bind, value_bind] at opened
  split at opened
  · rename_i authentic
    refine ⟨authentic, ?_⟩
    simp only [Aes.decryptCbcAt, value_bind, run_pure] at opened
    split at opened
    · cases opened
    · have length := Option.some.inj opened
      omega
  · cases opened

theorem aesSha256DecryptAt_keeps (input ciphertext plaintext : Pointer B)
    (inputLength ciphertextLength maxPlaintextLength : Nat) (memory : Memory B)
    (apart : ciphertext.block ≠ plaintext.block) {p : Pointer B}
    (outside : p.block = plaintext.block → p.index < plaintext.index) :
    (aesSha256DecryptAt kdf aes kdfInfo key input inputLength ciphertext ciphertextLength plaintext
      maxPlaintextLength memory).memory p = memory p := by
  unfold aesSha256DecryptAt
  split
  · rfl
  rw [memory_bind, memory_bind]
  split
  · rw [Aes.decryptCbcAt_memory _ _ _ _ _ _ _ (Aes.clear_other apart _ _)]
    exact Memory.write_apart _ fun same => .inr (by have := outside same.symm; omega)
  · rfl

/-! ### The cipher undone -/

variable {aes}

omit [DecidableEq B] in
theorem permutation_around (perm : aes.Permutation) (memory : Memory B) (input : Pointer B) (inputLength : Nat)
    (output : Pointer B) : (aes.around memory input inputLength output).Permutation :=
  ⟨perm.decrypt_encrypt, perm.encrypt_decrypt⟩

/-- A sealed message that lies at `input` is opened, into the ciphertext or apart from it. -/
theorem aesSha256DecryptAt_sealed (perm : aes.Permutation) (header text : Bytes) {received : Memory B}
    {input opened : Pointer B} {maxPlaintextLength : Nat}
    (holds : received.read input (header.length + Aes.encryptCbcLength text.length + cipherMacLength) =
      header ++ sealedCiphertext kdf aes kdfInfo key text ++ sealedMac kdf aes kdfInfo key text header)
    (placed : input + header.length = opened ∨
      Memory.Apart (input + header.length) (Aes.encryptCbcLength text.length) opened (Aes.encryptCbcLength text.length))
    (room : Aes.encryptCbcLength text.length ≤ maxPlaintextLength) :
    let left := aesSha256DecryptAt kdf aes kdfInfo key input
      (header.length + Aes.encryptCbcLength text.length + cipherMacLength) (input + header.length)
      (Aes.encryptCbcLength text.length) opened maxPlaintextLength received
    left.value = some text.length ∧ left.memory.read opened text.length = text := by
  have blocks : 16 * ((Aes.encryptCbcLength text.length + 15) / 16) = Aes.encryptCbcLength text.length := by
    unfold Aes.encryptCbcLength
    omega
  have clear : Clear 16 16 ((Aes.encryptCbcLength text.length + 15) / 16) 0 (input + header.length) opened := by
    apply Aes.clear_placed (Nat.le_of_eq blocks)
    rwa [blocks]
  have ciphertext : received.read (input + header.length) (Aes.encryptCbcLength text.length) =
      sealedCiphertext kdf aes kdfInfo key text := by
    rw [Nat.add_assoc, Memory.read_add, Memory.read_add, List.append_assoc] at holds
    have behind := (List.append_inj holds (Memory.length_read ..)).2
    exact (List.append_inj behind (by rw [Memory.length_read, length_sealedCiphertext])).1
  have found := aesSha256DecryptAt_eq kdf aes kdfInfo key input (input + header.length) opened
    (header.length + Aes.encryptCbcLength text.length + cipherMacLength) (Aes.encryptCbcLength text.length)
    maxPlaintextLength received clear
  dsimp only at found ⊢
  rw [holds, ciphertext] at found
  have around := permutation_around perm received (input + header.length) (Aes.encryptCbcLength text.length) opened
  obtain ⟨surrounded, hsurrounded⟩ : ∃ surrounded, aes.around received (input + header.length)
    (Aes.encryptCbcLength text.length) opened = surrounded := ⟨_, rfl⟩
  have same : sealedCiphertext kdf aes kdfInfo key text = sealedCiphertext kdf surrounded kdfInfo key text := by
    rw [← hsurrounded]
    exact Aes.encryptBlocks_congr _ aes (aes.around received _ _ opened) rfl _ _ _
  have same_mac : sealedMac kdf aes kdfInfo key text header = sealedMac kdf surrounded kdfInfo key text header := by
    rw [sealedMac, sealedMac, same]
  rw [hsurrounded] at found around
  rw [same, same_mac, aesSha256_decrypt kdf kdfInfo key text header around room] at found
  exact ⟨found.1, found.2 text rfl⟩

/-- Whatever lies before the ciphertext, and whether the text is encrypted in its place or apart from the ciphertext:
where the message arrives, the same key opens it again, in place or apart. -/
theorem cipher_round_trip (perm : aes.Permutation) (memory received : Memory B) {plaintext output input opened : Pointer B}
    (headerLength plaintextLength : Nat) {maxPlaintextLength : Nat}
    (encrypts : plaintext = output + headerLength ∨ Memory.Apart plaintext plaintextLength (output + headerLength)
      (Aes.encryptCbcLength plaintextLength))
    (arrived : received.read input (headerLength + Aes.encryptCbcLength plaintextLength + cipherMacLength) =
      (aesSha256EncryptAt kdf aes kdfInfo key plaintext plaintextLength (output + headerLength)
        (Aes.encryptCbcLength plaintextLength) output
        (headerLength + Aes.encryptCbcLength plaintextLength + cipherMacLength) memory).memory.read output
          (headerLength + Aes.encryptCbcLength plaintextLength + cipherMacLength))
    (decrypts : input + headerLength = opened ∨ Memory.Apart (input + headerLength)
      (Aes.encryptCbcLength plaintextLength) opened (Aes.encryptCbcLength plaintextLength))
    (room : Aes.encryptCbcLength plaintextLength ≤ maxPlaintextLength) :
    let outputLength := headerLength + Aes.encryptCbcLength plaintextLength + cipherMacLength
    let encrypted := aesSha256EncryptAt kdf aes kdfInfo key plaintext plaintextLength (output + headerLength)
      (Aes.encryptCbcLength plaintextLength) output outputLength memory
    let decrypted := aesSha256DecryptAt kdf aes kdfInfo key input outputLength (input + headerLength)
      (Aes.encryptCbcLength plaintextLength) opened maxPlaintextLength received
    encrypted.value = some outputLength ∧ decrypted.value = some plaintextLength ∧
      decrypted.memory.read opened plaintextLength = memory.read plaintext plaintextLength := by
  obtain ⟨text, htext⟩ : ∃ text, memory.read plaintext plaintextLength = text := ⟨_, rfl⟩
  obtain ⟨header, hheader⟩ : ∃ header, memory.read output headerLength = header := ⟨_, rfl⟩
  obtain rfl : text.length = plaintextLength := by rw [← htext, Memory.length_read]
  obtain rfl : header.length = headerLength := by rw [← hheader, Memory.length_read]
  have length : 16 * (text.length / 16) + text.length % 16 = text.length := Nat.div_add_mod _ _
  have clear : Clear 16 16 (text.length / 16) (text.length % 16) plaintext (output + header.length) := by
    apply Aes.clear_placed (Aes.whole_blocks_le text.length)
    rwa [length]
  have encrypted := aesSha256EncryptAt_sealed kdf aes kdfInfo key plaintext output header text hheader htext clear
  have returned := (aesSha256EncryptAt_eq kdf aes kdfInfo key plaintext (output + header.length) output memory
    (Nat.le_refl (Aes.encryptCbcLength text.length))
    (Nat.le_add_left cipherMacLength (header.length + Aes.encryptCbcLength text.length)) clear).1
  have sealed_length : (sealedCiphertext kdf aes kdfInfo key text ++ sealedMac kdf aes kdfInfo key text header).length =
      Aes.encryptCbcLength text.length + cipherMacLength := by
    rw [List.length_append, length_sealedCiphertext, length_sealedMac]
  have front : (memory.write (output + header.length) (sealedCiphertext kdf aes kdfInfo key text ++
      sealedMac kdf aes kdfInfo key text header)).read output header.length = header := by
    rw [Memory.read_write_apart _ fun _ => .inr (by rw [Pointer.index_add]), hheader]
  have message := Memory.read_add (memory.write (output + header.length) (sealedCiphertext kdf aes kdfInfo key text ++
    sealedMac kdf aes kdfInfo key text header)) output header.length
    (Aes.encryptCbcLength text.length + cipherMacLength)
  rw [front, Memory.read_write_of_length _ _ _ sealed_length, ← Nat.add_assoc, ← List.append_assoc] at message
  rw [encrypted, message] at arrived
  rw [htext]
  exact ⟨returned, aesSha256DecryptAt_sealed kdf kdfInfo key perm header text arrived decrypts room⟩

/-- Three bytes behind a header of two, encrypted and decrypted in place. -/
theorem cipher_round_trip_in_place :
    let memory : Memory Unit := fun _ => 5
    let encrypted := aesSha256EncryptAt Crypto.plain.kdf Crypto.plain.aes [] [] (Pointer.start () + 2) 3
      (Pointer.start () + 2) 16 (Pointer.start ()) 26 memory
    let decrypted := aesSha256DecryptAt Crypto.plain.kdf Crypto.plain.aes [] [] (Pointer.start ()) 26
      (Pointer.start () + 2) 16 (Pointer.start () + 2) 16 encrypted.memory
    encrypted.value = some 26 ∧ decrypted.value = some 3 ∧
      decrypted.memory.read (Pointer.start () + 2) 3 = memory.read (Pointer.start () + 2) 3 :=
  cipher_round_trip Crypto.plain.kdf [] [] Crypto.plain_permutation (fun _ => 5) _ 2 3 (.inl rfl) rfl (.inl rfl)
    (Nat.le_refl 16)

end AesSha256

end RubyOlm
