import Mathlib.Data.List.GetD
import RubyOlm.Crypto

/-!
# Ciphers

The cipher interface of `cipher.h` and its one implementation, `_olm_cipher_aes_sha_256`: AES-256 in
CBC mode with PKCS#7 padding from `crypto.cpp` under a truncated HMAC from `cipher.cpp`.
-/

namespace RubyOlm

/-! ### CBC -/

namespace Aes

variable (aes : Aes) (key : Block 32)

def xorBlock (block input : Block 16) : Block 16 :=
  ⟨List.zipWith (· ^^^ ·) block.val input.val, by simp⟩

/-- The last, short block of the input, filled up with the number of bytes that were missing. -/
def padBlock (input : Bytes) : Block 16 :=
  ⟨(input ++ List.replicate 16 (UInt8.ofNat (16 - input.length))).take 16, by simp⟩

def encryptCbcLength (inputLength : Nat) : Nat := inputLength + 16 - inputLength % 16

/-- The `while` loop over the whole blocks, and the padded block after it. -/
def encryptBlocks : (blocks : Nat) → (inputBlock : Block 16) → (input : Bytes) → Bytes
  | 0, inputBlock, input => (aes.encrypt key (xorBlock inputBlock (padBlock input))).val
  | blocks + 1, inputBlock, input =>
    let output := aes.encrypt key (xorBlock inputBlock (Block.load 16 input))
    output.val ++ encryptBlocks blocks output (input.drop 16)

def encryptCbc (iv : Block 16) (input : Bytes) : Bytes :=
  encryptBlocks aes key (input.length / 16) iv input

/-- The `for` loop of `_olm_crypto_aes_decrypt_cbc` over the memory at the input. -/
def decryptBlocks : (blocks : Nat) → (block1 : Block 16) → (memory : Bytes) → Bytes
  | 0, _, _ => []
  | blocks + 1, block1, memory =>
    let block2 := Block.load 16 memory
    (xorBlock (aes.decrypt key block2) block1).val ++ decryptBlocks blocks block2 (memory.drop 16)

/-- `_olm_crypto_aes_decrypt_cbc`. The last byte of the output, whatever it is, is taken for the
length of the padding; only one larger than the whole input is refused. -/
def decryptCbc (iv : Block 16) (input : Bytes) : Option Bytes :=
  let memory := input ++ List.ofFn fun i : Fin 15 => aes.overread i
  let output := decryptBlocks aes key ((input.length + 15) / 16) iv memory
  let padding := (output.getD (input.length - 1) (aes.overread 15)).toNat
  if padding > input.length then none else some (output.take (input.length - padding))

end Aes

/-! ### The interface -/

/-- `struct _olm_cipher_ops`, over the type of keys the caller passes. `encrypt` is given where in the
output buffer the ciphertext goes (`none` when it goes somewhere else) and returns the ciphertext and
the output buffer; `none` in place of a result is `size_t(-1)`. -/
structure CipherOps (Key : Type) where
  macLength : Nat
  encryptCiphertextLength : (plaintextLength : Nat) → Nat
  encrypt : Key → (plaintext : Bytes) → (ciphertextPos : Option Nat) → (ciphertextLength : Nat) →
    (output : Bytes) → Option (Bytes × Bytes)
  decryptMaxPlaintextLength : (ciphertextLength : Nat) → Nat
  decrypt : Key → (input ciphertext : Bytes) → (maxPlaintextLength : Nat) → Option Bytes

/-- The same cipher with its key bytes read off another type. -/
def CipherOps.withKey {Key Key' : Type} (ops : CipherOps Key) (bytes : Key' → Key) : CipherOps Key' where
  macLength := ops.macLength
  encryptCiphertextLength := ops.encryptCiphertextLength
  encrypt key := ops.encrypt (bytes key)
  decryptMaxPlaintextLength := ops.decryptMaxPlaintextLength
  decrypt key := ops.decrypt (bytes key)

/-! ### AES-256 with HMAC-SHA-256 -/

structure DerivedKeys where
  aesKey : Block 32
  macKey : Block 32
  aesIv : Block 16

def deriveKeys (kdf : Kdf) (kdfInfo key : Bytes) : DerivedKeys :=
  let derivedSecrets := (kdf.hkdf key none kdfInfo (32 + 32 + 16)).val
  { aesKey := Block.load 32 derivedSecrets
    macKey := Block.load 32 (derivedSecrets.drop 32)
    aesIv := Block.load 16 (derivedSecrets.drop 64) }

def cipherMacLength : Nat := 8

/-- The first bytes of the HMAC, as many as a message carries. -/
def truncatedMac (kdf : Kdf) (keys : DerivedKeys) (authenticated : Bytes) : Bytes :=
  (kdf.hmac keys.macKey.val authenticated).val.take cipherMacLength

/-- `_olm_cipher_aes_sha_256_ops` for a given `kdf_info`. -/
def aesSha256 (kdf : Kdf) (aes : Aes) (kdfInfo : Bytes) : CipherOps Bytes where
  macLength := cipherMacLength
  encryptCiphertextLength := Aes.encryptCbcLength
  encrypt key plaintext ciphertextPos ciphertextLength output :=
    if ciphertextLength < Aes.encryptCbcLength plaintext.length ∨ output.length < cipherMacLength then none
    else
      let keys := deriveKeys kdf kdfInfo key
      let ciphertext := aes.encryptCbc keys.aesKey keys.aesIv plaintext
      let output := match ciphertextPos with
        | some pos => writeAt output pos ciphertext
        | none => output
      let authenticated := output.take (output.length - cipherMacLength)
      some (ciphertext, writeAt output (output.length - cipherMacLength) (truncatedMac kdf keys authenticated))
  decryptMaxPlaintextLength ciphertextLength := ciphertextLength
  decrypt key input ciphertext maxPlaintextLength :=
    if maxPlaintextLength < ciphertext.length ∨ input.length < cipherMacLength then none
    else
      let keys := deriveKeys kdf kdfInfo key
      let authenticated := input.take (input.length - cipherMacLength)
      if input.drop (input.length - cipherMacLength) = truncatedMac kdf keys authenticated then
        aes.decryptCbc keys.aesKey keys.aesIv ciphertext
      else none

@[simp] theorem length_truncatedMac (kdf : Kdf) (keys : DerivedKeys) (authenticated : Bytes) :
    (truncatedMac kdf keys authenticated).length = cipherMacLength := by
  simp [truncatedMac, cipherMacLength]

/-! ### CBC undone -/

namespace Aes

variable {aes : Aes} (key : Block 32)

theorem le_encryptCbcLength (inputLength : Nat) : inputLength ≤ encryptCbcLength inputLength := by
  unfold encryptCbcLength
  omega

/-- There is always a last block that is padded. -/
theorem whole_blocks_le (inputLength : Nat) : 16 * (inputLength / 16) ≤ encryptCbcLength inputLength := by
  unfold encryptCbcLength
  omega

theorem padBlock_val {input : Bytes} (short : input.length < 16) :
    (padBlock input).val =
      input ++ List.replicate (16 - input.length) (UInt8.ofNat (16 - input.length)) := by
  show (input ++ List.replicate 16 (UInt8.ofNat (16 - input.length))).take 16 = _
  rw [List.take_append, List.take_of_length_le (Nat.le_of_lt short), List.take_replicate,
    Nat.min_eq_left (Nat.sub_le _ _)]

@[simp] theorem xorBlock_cancel (a b : Block 16) : xorBlock (xorBlock a b) a = b := by
  apply Subtype.ext
  apply List.ext_getElem (by simp)
  intro i _ _
  simp only [xorBlock, List.getElem_zipWith]
  rw [UInt8.xor_comm, ← UInt8.xor_assoc, UInt8.xor_self, UInt8.zero_xor]

theorem length_encryptBlocks (blocks : Nat) (inputBlock : Block 16) (input : Bytes) :
    (encryptBlocks aes key blocks inputBlock input).length = 16 * (blocks + 1) := by
  induction blocks generalizing inputBlock input with
  | zero => simp [encryptBlocks]
  | succ blocks ih => simp [encryptBlocks, ih]; omega

@[simp] theorem length_encryptCbc (iv : Block 16) (input : Bytes) :
    (encryptCbc aes key iv input).length = encryptCbcLength input.length := by
  rw [encryptCbc, length_encryptBlocks, encryptCbcLength]
  omega

theorem load_take {n : Nat} {input : Bytes} (long : n ≤ input.length) :
    (Block.load n input).val = input.take n := by
  simp [Block.load, List.take_append_of_le_length long]

/-- Each block comes back because the block before it is still there to be xored away. -/
theorem decryptBlocks_encryptBlocks (perm : aes.Permutation) (blocks : Nat) (iv : Block 16)
    (input rest : Bytes) (whole : input.length / 16 = blocks) :
    decryptBlocks aes key (blocks + 1) iv (encryptBlocks aes key blocks iv input ++ rest) =
      input ++ List.replicate (16 - input.length % 16) (UInt8.ofNat (16 - input.length % 16)) := by
  induction blocks generalizing iv input with
  | zero =>
    have short : input.length < 16 := by omega
    rw [encryptBlocks, decryptBlocks, decryptBlocks, Block.load_append, perm.decrypt_encrypt,
      xorBlock_cancel, List.append_nil, padBlock_val short, Nat.mod_eq_of_lt short]
  | succ blocks ih =>
    have long : 16 ≤ input.length := by omega
    have next := ih (aes.encrypt key (xorBlock iv (Block.load 16 input))) (input.drop 16)
      (by rw [List.length_drop]; omega)
    have same : (input.length - 16) % 16 = input.length % 16 := by omega
    rw [encryptBlocks, List.append_assoc, decryptBlocks, Block.load_append, perm.decrypt_encrypt,
      xorBlock_cancel, load_take long, List.drop_append_of_le_length (by simp), List.drop_of_length_le (by simp),
      List.nil_append, next, List.length_drop, same, ← List.append_assoc, List.take_append_drop]

theorem decryptCbc_encryptCbc (perm : aes.Permutation) (iv : Block 16) (input : Bytes) :
    decryptCbc aes key iv (encryptCbc aes key iv input) = some input := by
  have blocks : (encryptCbcLength input.length + 15) / 16 = input.length / 16 + 1 := by
    rw [encryptCbcLength]; omega
  have length : encryptCbcLength input.length = input.length + (16 - input.length % 16) := by
    rw [encryptCbcLength]; omega
  have output := decryptBlocks_encryptBlocks key perm (input.length / 16) iv input
    (List.ofFn fun i : Fin 15 => aes.overread i) rfl
  rw [decryptCbc, length_encryptCbc, blocks, encryptCbc, output, length]
  obtain ⟨padding, hpadding⟩ : ∃ padding, 16 - input.length % 16 = padding + 1 :=
    ⟨15 - input.length % 16, by omega⟩
  have small : (UInt8.ofNat (padding + 1)).toNat = padding + 1 :=
    UInt8.toNat_ofNat_of_lt' (by simp only [UInt8.size]; omega)
  have last : ((input ++ List.replicate (padding + 1) (UInt8.ofNat (padding + 1))).getD
      (input.length + (padding + 1) - 1) (aes.overread 15)).toNat = padding + 1 := by
    rw [List.getD_append_right _ _ _ _ (by omega), List.getD_replicate _ (by omega), small]
  rw [hpadding]
  simp only [last]
  rw [if_neg (by omega), Nat.add_sub_cancel, List.take_left]

end Aes

/-! ### The cipher undone -/

section Sealed

variable (kdf : Kdf) (aes : Aes) (kdfInfo key plaintext header : Bytes)

def sealedCiphertext : Bytes :=
  aes.encryptCbc (deriveKeys kdf kdfInfo key).aesKey (deriveKeys kdf kdfInfo key).aesIv plaintext

def sealedMac : Bytes :=
  truncatedMac kdf (deriveKeys kdf kdfInfo key) (header ++ sealedCiphertext kdf aes kdfInfo key plaintext)

@[simp] theorem length_sealedCiphertext : (sealedCiphertext kdf aes kdfInfo key plaintext).length =
    Aes.encryptCbcLength plaintext.length := Aes.length_encryptCbc _ _ _

@[simp] theorem length_sealedMac : (sealedMac kdf aes kdfInfo key plaintext header).length = cipherMacLength :=
  length_truncatedMac _ _ _

/-- The message is laid out as header, ciphertext and MAC, whatever was in the buffer behind the header. -/
theorem aesSha256_encrypt (ciphertextHole macHole : Bytes)
    (ciphertext_room : ciphertextHole.length = Aes.encryptCbcLength plaintext.length)
    (mac_room : macHole.length = cipherMacLength) :
    (aesSha256 kdf aes kdfInfo).encrypt key plaintext (some header.length) ciphertextHole.length
        (header ++ ciphertextHole ++ macHole) =
      some (sealedCiphertext kdf aes kdfInfo key plaintext,
        header ++ sealedCiphertext kdf aes kdfInfo key plaintext ++
          sealedMac kdf aes kdfInfo key plaintext header) := by
  obtain ⟨ciphertext, hciphertext⟩ :
    ∃ ciphertext, sealedCiphertext kdf aes kdfInfo key plaintext = ciphertext := ⟨_, rfl⟩
  have length : ciphertext.length = ciphertextHole.length := by
    rw [← hciphertext, length_sealedCiphertext, ciphertext_room]
  have front : (header ++ ciphertext ++ macHole).length - cipherMacLength = (header ++ ciphertext).length := by
    rw [List.length_append, mac_room, Nat.add_sub_cancel]
  have room : ¬ (ciphertextHole.length < Aes.encryptCbcLength plaintext.length ∨
      (header ++ ciphertextHole ++ macHole).length < cipherMacLength) := by
    simp only [List.length_append, ciphertext_room, mac_room]
    omega
  have mac := writeAt_replace (header ++ ciphertext) macHole
    (truncatedMac kdf (deriveKeys kdf kdfInfo key) (header ++ ciphertext)) [] (by simp [mac_room])
  rw [List.append_nil, List.append_nil] at mac
  unfold sealedMac
  rw [hciphertext]
  unfold sealedCiphertext at hciphertext
  simp only [aesSha256, if_neg room, hciphertext]
  rw [writeAt_replace header ciphertextHole ciphertext macHole length, front, List.take_left, mac]

variable {aes}

/-- And it is opened by the key that sealed it. -/
theorem aesSha256_decrypt (perm : aes.Permutation) {maxPlaintextLength : Nat}
    (fits : Aes.encryptCbcLength plaintext.length ≤ maxPlaintextLength) :
    (aesSha256 kdf aes kdfInfo).decrypt key
        (header ++ sealedCiphertext kdf aes kdfInfo key plaintext ++ sealedMac kdf aes kdfInfo key plaintext header)
        (sealedCiphertext kdf aes kdfInfo key plaintext) maxPlaintextLength = some plaintext := by
  obtain ⟨ciphertext, hciphertext⟩ :
    ∃ ciphertext, sealedCiphertext kdf aes kdfInfo key plaintext = ciphertext := ⟨_, rfl⟩
  have length : ciphertext.length = Aes.encryptCbcLength plaintext.length := by
    rw [← hciphertext, length_sealedCiphertext]
  obtain ⟨mac, hmac⟩ : ∃ mac, sealedMac kdf aes kdfInfo key plaintext header = mac := ⟨_, rfl⟩
  have mac_length : mac.length = cipherMacLength := by rw [← hmac, length_sealedMac]
  have front : (header ++ ciphertext ++ mac).length - cipherMacLength = (header ++ ciphertext).length := by
    rw [List.length_append, mac_length, Nat.add_sub_cancel]
  have room : ¬ (maxPlaintextLength < ciphertext.length ∨ (header ++ ciphertext ++ mac).length < cipherMacLength) := by
    rw [List.length_append, mac_length]
    omega
  have authentic : mac = truncatedMac kdf (deriveKeys kdf kdfInfo key) (header ++ ciphertext) := by
    rw [← hmac, sealedMac, hciphertext]
  rw [hmac, hciphertext]
  unfold sealedCiphertext at hciphertext
  simp only [aesSha256, if_neg room]
  rw [front, List.take_left, List.drop_left, if_pos authentic, ← hciphertext, Aes.decryptCbc_encryptCbc _ perm]

end Sealed

end RubyOlm
