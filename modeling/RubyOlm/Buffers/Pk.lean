import RubyOlm.Buffers.Base64
import RubyOlm.Buffers.Cipher
import RubyOlm.Pk

/-!
# Public-key encryption in buffers

`olm_pk_encrypt` and `olm_pk_decrypt` over pointers. The length of the MAC is compared with that of eight bytes,
not of their text, when it is written and with nothing when it is read; the length of the ephemeral key is not
looked at when it is read; and a ciphertext with the right MAC may have any length.
-/

namespace RubyOlm

open Prog

/-- The buffers of the callers, and the local arrays `ephemeral_keypair.public_key`, `ephemeral` and `raw_mac`. -/
inductive PkBuffer where
  | plaintext
  | ciphertext
  | mac
  | ephemeralKey
  | publicKey
  | ephemeral
  | rawMac
  deriving DecidableEq

namespace PkEncryption

open Pointer

variable (crypto : Crypto) (encryption : PkEncryption) (plaintextLength ciphertextSize macSize ephemeralKeySize : Nat)
  (random : Bytes)

/-- `olm_pk_encrypt`; `none` is `size_t(-1)`. -/
def encryptAt : Prog PkBuffer (PkEncryption × Option Nat) :=
  if ciphertextSize < ciphertextLength crypto plaintextLength ∨ macSize < (pkCipher crypto).macLength ∨
      ephemeralKeySize < pkKeyLength then
    pure ({ encryption with lastError := .outputBufferTooSmall }, none)
  else if random.length < 32 then pure ({ encryption with lastError := .notEnoughRandom }, none)
  else do
    let ephemeralKeypair := generateKey crypto.curve25519 (Block.load 32 random)
    storeBytes (start .publicKey) ephemeralKeypair.publicKey.val
    let _ ← encodeBase64At (start .publicKey) 32 (start .ephemeralKey)
    let secret := sharedSecret crypto.curve25519 ephemeralKeypair encryption.recipientKey
    let rawCiphertextLength := (pkCipher crypto).encryptCiphertextLength plaintextLength
    let ciphertextPos := start .ciphertext + (ciphertextSize - rawCiphertextLength)
    let result ← aesSha256EncryptAt crypto.kdf crypto.aes (ascii "") secret.val (start .plaintext) plaintextLength
      ciphertextPos rawCiphertextLength (start .rawMac) cipherMacLength
    if result.isSome then
      let _ ← encodeBase64At (start .rawMac) cipherMacLength (start .mac)
      let _ ← encodeBase64At ciphertextPos rawCiphertextLength (start .ciphertext)
      return (encryption, result)
    else return (encryption, result)

/-- The lengths pass the checks. -/
def Proceeds : Prop :=
  ciphertextLength crypto plaintextLength ≤ ciphertextSize ∧ (pkCipher crypto).macLength ≤ macSize ∧
    pkKeyLength ≤ ephemeralKeySize ∧ 32 ≤ random.length

instance : Decidable (Proceeds crypto plaintextLength ciphertextSize macSize ephemeralKeySize random) :=
  inferInstanceAs (Decidable (_ ∧ _))

variable {crypto plaintextLength ciphertextSize macSize ephemeralKeySize random} {P : Access PkBuffer → Prop}

/-- Everything that is touched: the public key goes to the ephemeral key, the plaintext to the end of the ciphertext
and from there, as text, to its start, and the MAC to its buffer. -/
theorem encryptAt_within (proceeds : Proceeds crypto plaintextLength ciphertextSize macSize ephemeralKeySize random)
    (memory : Memory PkBuffer) :
    (encryptAt crypto encryption plaintextLength ciphertextSize macSize ephemeralKeySize random).Within memory P ↔
      Covers P .write (start .publicKey) 32 ∧ Covers P .read (start .publicKey) 32 ∧
      Covers P .write (start .ephemeralKey) pkKeyLength ∧
      Covers P .read (start .plaintext) plaintextLength ∧
      Covers P .write (start .ciphertext + (ciphertextSize - Aes.encryptCbcLength plaintextLength))
        (Aes.encryptCbcLength plaintextLength) ∧
      Covers P .read (start .ciphertext + (ciphertextSize - Aes.encryptCbcLength plaintextLength))
        (Aes.encryptCbcLength plaintextLength) ∧
      Covers P .write (start .ciphertext) (encodeBase64Length (Aes.encryptCbcLength plaintextLength)) ∧
      Covers P .write (start .rawMac) 8 ∧ Covers P .read (start .rawMac) 8 ∧
      Covers P .write (start .mac) (encodeBase64Length 8) := by
  obtain ⟨ciphertext_room, mac_room, key_room, random_room⟩ := proceeds
  have encrypted (secret : Bytes) (memory : Memory PkBuffer) :=
    aesSha256EncryptAt_eq crypto.kdf crypto.aes (ascii "") secret (start .plaintext)
      (start .ciphertext + (ciphertextSize - Aes.encryptCbcLength plaintextLength)) (start .rawMac) memory
      (Nat.le_refl (Aes.encryptCbcLength plaintextLength)) (Nat.le_refl cipherMacLength)
      (Aes.clear_other (by simp) _ _)
  have raw_length : (pkCipher crypto).encryptCiphertextLength plaintextLength = Aes.encryptCbcLength plaintextLength :=
    rfl
  have whole := Aes.whole_blocks_le plaintextLength
  have nothing : cipherMacLength - cipherMacLength = 0 := rfl
  rw [encryptAt, if_neg (by omega), if_neg (by omega)]
  simp only [within_bind, within_storeBytes, encodeBase64At_within, Block.length_val, raw_length,
    aesSha256EncryptAt_within crypto.kdf crypto.aes (ascii "") _ (start PkBuffer.plaintext) _
      (start PkBuffer.rawMac) _ (Nat.le_refl _) (Nat.le_refl _), encrypted, Option.isSome_some, if_true, within_pure, and_true, nothing,
    covers_zero, true_and, Pointer.add_zero]
  constructor
  · rintro ⟨stored, ⟨readKey, writeKey⟩, ⟨⟨text, raw, -⟩, mac⟩, ⟨readMac, writeMac⟩, readRaw, write⟩
    exact ⟨stored, readKey, writeKey, text, raw, readRaw, write, mac, readMac, writeMac⟩
  · rintro ⟨stored, readKey, writeKey, text, raw, readRaw, write, mac, readMac, writeMac⟩
    exact ⟨stored, ⟨readKey, writeKey⟩, ⟨⟨text, raw, readRaw.mono whole⟩, mac⟩, ⟨readMac, writeMac⟩, readRaw, write⟩

/-- Writes into the buffers of the caller stay inside them. -/
def Contained (ciphertextSize macSize ephemeralKeySize : Nat) (access : Access PkBuffer) : Prop :=
  Inside .write .ciphertext ciphertextSize access ∧ Inside .write .mac macSize access ∧
    Inside .write .ephemeralKey ephemeralKeySize access

/-- Only the MAC can leave its buffer, and does so when there is no room for its text. -/
theorem encryptAt_contained_iff
    (proceeds : Proceeds crypto plaintextLength ciphertextSize macSize ephemeralKeySize random)
    (memory : Memory PkBuffer) :
    (encryptAt crypto encryption plaintextLength ciphertextSize macSize ephemeralKeySize random).Within memory
        (Contained ciphertextSize macSize ephemeralKeySize) ↔ encodeBase64Length 8 ≤ macSize := by
  have room : encodeBase64Length (Aes.encryptCbcLength plaintextLength) ≤ ciphertextSize := proceeds.1
  have longer := le_encodeBase64Length (Aes.encryptCbcLength plaintextLength)
  have behind : ciphertextSize - Aes.encryptCbcLength plaintextLength + Aes.encryptCbcLength plaintextLength ≤
      ciphertextSize := by omega
  have key_room : pkKeyLength ≤ ephemeralKeySize := proceeds.2.2.1
  unfold Contained
  rw [within_and, within_and, encryptAt_within encryption proceeds, encryptAt_within encryption proceeds,
    encryptAt_within encryption proceeds]
  simp [covers_inside, covers_inside_add, room, behind, key_room]

/-- What is written when the lengths pass: the texts of the ciphertext, of the MAC of nothing and of the key. -/
theorem encrypt_eq (proceeds : Proceeds crypto plaintextLength ciphertextSize macSize ephemeralKeySize random)
    {plaintext : Bytes} (length : plaintext.length = plaintextLength) (stack : Block 8) :
    let pair := generateKey crypto.curve25519 (Block.load 32 random)
    let secret := sharedSecret crypto.curve25519 pair encryption.recipientKey
    encryption.encrypt crypto plaintext ciphertextSize macSize ephemeralKeySize random stack =
      (encryption, some
        { ciphertext := encodeBase64 (sealedCiphertext crypto.kdf crypto.aes (ascii "") secret.val plaintext)
          mac := encodeBase64 (PkDecryption.emptyMac crypto secret)
          ephemeralKey := encodeBase64 pair.publicKey.val }) := by
  obtain ⟨ciphertext_room, mac_room, key_room, random_room⟩ := proceeds
  dsimp only
  rw [PkDecryption.encrypt_eq, length, if_neg (by omega), if_neg (by omega)]

/-- What is returned, and what is left in the buffers of the caller. -/
theorem encryptAt_eq (memory : Memory PkBuffer) :
    let left := encryptAt crypto encryption plaintextLength ciphertextSize macSize ephemeralKeySize random memory
    let result := encryption.encrypt crypto (memory.read (start .plaintext) plaintextLength) ciphertextSize macSize
      ephemeralKeySize random (Block.load 8 (memory.read (start .rawMac) 8))
    left.value = (result.1, result.2.map fun _ => cipherMacLength) ∧
      ∀ encrypted, result.2 = some encrypted →
        left.memory.read (start .ciphertext) encrypted.ciphertext.length = encrypted.ciphertext ∧
        left.memory.read (start .mac) encrypted.mac.length = encrypted.mac ∧
        left.memory.read (start .ephemeralKey) encrypted.ephemeralKey.length = encrypted.ephemeralKey := by
  dsimp only
  by_cases small : ciphertextSize < ciphertextLength crypto plaintextLength ∨ macSize < (pkCipher crypto).macLength ∨
      ephemeralKeySize < pkKeyLength
  · rw [encryptAt, encrypt, Memory.length_read, if_pos small, if_pos small]
    refine ⟨rfl, ?_⟩
    intro encrypted none
    cases none
  by_cases short : random.length < 32
  · rw [encryptAt, encrypt, Memory.length_read, if_neg small, if_neg small, if_pos short, if_pos short]
    refine ⟨rfl, ?_⟩
    intro encrypted none
    cases none
  have proceeds : Proceeds crypto plaintextLength ciphertextSize macSize ephemeralKeySize random := by
    unfold Proceeds
    omega
  have room : encodeBase64Length (Aes.encryptCbcLength plaintextLength) ≤ ciphertextSize := proceeds.1
  have longer := le_encodeBase64Length (Aes.encryptCbcLength plaintextLength)
  have raw_length : (pkCipher crypto).encryptCiphertextLength plaintextLength = Aes.encryptCbcLength plaintextLength :=
    rfl
  rw [encrypt_eq encryption proceeds (Memory.length_read ..), encryptAt, if_neg small, if_neg short]
  obtain ⟨pair, hpair⟩ : ∃ pair, generateKey crypto.curve25519 (Block.load 32 random) = pair := ⟨_, rfl⟩
  rw [hpair]
  obtain ⟨secret, hsecret⟩ : ∃ secret, sharedSecret crypto.curve25519 pair encryption.recipientKey = secret := ⟨_, rfl⟩
  rw [hsecret]
  have encrypted (memory : Memory PkBuffer) :=
    aesSha256EncryptAt_eq crypto.kdf crypto.aes (ascii "") secret.val (start .plaintext)
      (start .ciphertext + (ciphertextSize - Aes.encryptCbcLength plaintextLength)) (start .rawMac) memory
      (Nat.le_refl (Aes.encryptCbcLength plaintextLength)) (Nat.le_refl cipherMacLength)
      (Aes.clear_other (by simp) _ _)
  have key_text (memory : Memory PkBuffer) := encodeBase64At_eq (start .publicKey) (start .ephemeralKey) 32 memory
    (by rintro ⟨⟩)
  have mac_text (memory : Memory PkBuffer) := encodeBase64At_eq (start .rawMac) (start .mac) cipherMacLength memory
    (by rintro ⟨⟩)
  have text (memory : Memory PkBuffer) := encodeBase64At_eq
    (start .ciphertext + (ciphertextSize - Aes.encryptCbcLength plaintextLength)) (start .ciphertext)
    (Aes.encryptCbcLength plaintextLength) memory (fun _ => by
      show (0 : Int) + _ ≤ 0 + _ + _
      omega)
  simp only [value_bind, memory_bind, memory_storeBytes, raw_length, encrypted, key_text, Option.isSome_some, if_true,
    mac_text, text, run_pure]
  refine ⟨rfl, ?_⟩
  rintro encrypted same
  obtain rfl := Option.some.inj same
  have mac_length : (PkDecryption.emptyMac crypto secret).length = 8 := length_truncatedMac _ _ _
  have mac_text_length : (encodeBase64 (PkDecryption.emptyMac crypto secret)).length = encodeBase64Length 8 := by
    rw [length_encodeBase64, mac_length]
  have nothing : cipherMacLength - cipherMacLength = 0 := rfl
  simp only [nothing, Pointer.add_zero, Memory.read_zero]
  simp [Memory.read_write_other, Memory.read_write_of_length, mac_length]
  exact Memory.read_write_of_length _ _ (encodeBase64 (PkDecryption.emptyMac crypto secret)) mac_text_length

end PkEncryption

namespace PkDecryption

open Pointer

variable (crypto : Crypto) (decryption : PkDecryption) (ephemeralKeyLength ciphertextLength maxPlaintextLength : Nat)

/-- `olm_pk_decrypt`, which never looks at the length of the MAC. The ciphertext is decoded in place. -/
def decryptAt : Prog PkBuffer (PkDecryption × Option Nat) :=
  match decodeBase64Length ciphertextLength with
  | none => pure ({ decryption with lastError := .outputBufferTooSmall }, none)
  | some rawCiphertextLength =>
    if maxPlaintextLength < (pkCipher crypto).decryptMaxPlaintextLength rawCiphertextLength then
      pure ({ decryption with lastError := .outputBufferTooSmall }, none)
    else do
      let _ ← decodeBase64At (start .ephemeralKey) ephemeralKeyLength (start .ephemeral)
      let theirKey := Block.load 32 (← loadBytes (start .ephemeral) 32)
      let secret := sharedSecret crypto.curve25519 decryption.keyPair theirKey
      let _ ← decodeBase64At (start .mac) (encodeBase64Length cipherMacLength) (start .rawMac)
      let _ ← decodeBase64At (start .ciphertext) ciphertextLength (start .ciphertext)
      let result ← aesSha256DecryptAt crypto.kdf crypto.aes (ascii "") secret.val (start .rawMac) cipherMacLength
        (start .ciphertext) rawCiphertextLength (start .plaintext) maxPlaintextLength
      return match result with
        | none => ({ decryption with lastError := .badMessageMac }, none)
        | some length => (decryption, some length)

/-- The surroundings of a call that starts from `memory`. -/
def surroundings (macLength : Nat) (memory : Memory PkBuffer) : PkSurroundings where
  ephemeral := Block.load 32 (memory.read (start .ephemeral) 32)
  afterEphemeralKey := memory (start .ephemeralKey + ephemeralKeyLength)
  afterMac := Block.load 11 (memory.read (start .mac + macLength) 11)

variable {crypto ephemeralKeyLength ciphertextLength maxPlaintextLength} (macLength : Nat) (memory : Memory PkBuffer)

theorem load_read (n : Nat) (p : Pointer PkBuffer) : (Block.load n (memory.read p n)).val = memory.read p n := by
  have loaded := Block.load_val ⟨memory.read p n, Memory.length_read memory p n⟩
  exact congrArg Subtype.val loaded

/-- The array behind the pointer holds what was decoded into it, and behind that what it held before. -/
theorem ephemeral_surroundings :
    PkDecryption.ephemeral (surroundings ephemeralKeyLength macLength memory)
        (memory.read (start .ephemeralKey) ephemeralKeyLength) =
      Block.load 32 ((memory.write (start .ephemeral) (decodeBase64
        (memory.read (start .ephemeralKey) (decodeBase64Reads ephemeralKeyLength)))).read (start .ephemeral) 32) := by
  have chars : (if (memory.read (start .ephemeralKey) ephemeralKeyLength).length % 4 = 1 then
      memory.read (start .ephemeralKey) ephemeralKeyLength ++ [memory (start .ephemeralKey + ephemeralKeyLength)]
      else memory.read (start .ephemeralKey) ephemeralKeyLength) =
      memory.read (start .ephemeralKey) (decodeBase64Reads ephemeralKeyLength) := by
    unfold decodeBase64Reads
    rw [Memory.length_read]
    split
    · rw [Memory.read_add, Memory.read_one]
    · rfl
  simp only [PkDecryption.ephemeral, surroundings, chars, load_read, writeAt, List.take_zero, List.nil_append,
    Nat.zero_add, Memory.read_write_take, Block.load_take_self]

theorem rawMac_surroundings :
    (PkDecryption.rawMac (surroundings ephemeralKeyLength macLength memory)
        (memory.read (start .mac) macLength)).val =
      decodeBase64 (memory.read (start .mac) (encodeBase64Length cipherMacLength)) := by
  have chars : (memory.read (start .mac) macLength ++ memory.read (start .mac + macLength) 11).take
      (encodeBase64Length 8) = memory.read (start .mac) (encodeBase64Length 8) := by
    rw [← Memory.read_add, Memory.take_read _ _ (show encodeBase64Length 8 ≤ macLength + 11 from Nat.le_add_left ..)]
  have length := length_decodeBase64 (memory.read (start .mac) (encodeBase64Length 8)) (n := 8)
    (by rw [Memory.length_read, decodeBase64Length_encode])
  simp only [PkDecryption.rawMac, surroundings, load_read, chars]
  rw [Aes.load_take (Nat.le_of_eq length.symm), List.take_of_length_le (Nat.le_of_eq length)]
  rfl

/-- The ciphertext can be decoded, and the plaintext has room for all of it. -/
def Proceeds (ciphertextLength maxPlaintextLength raw : Nat) : Prop :=
  decodeBase64Length ciphertextLength = some raw ∧ raw ≤ maxPlaintextLength

instance (raw : Nat) : Decidable (Proceeds ciphertextLength maxPlaintextLength raw) :=
  inferInstanceAs (Decidable (_ ∧ _))

/-- The MAC that is read is the one of an empty message under the secret. -/
def Verifies (crypto : Crypto) (decryption : PkDecryption) (around : PkSurroundings) (ephemeralKey mac : Bytes) :
    Prop :=
  (PkDecryption.rawMac around mac).val = emptyMac crypto (decryption.secret crypto around ephemeralKey)

/-- Memory when the cipher is called. -/
def decoded (ephemeralKeyLength ciphertextLength : Nat) (memory : Memory PkBuffer) : Memory PkBuffer :=
  ((memory.write (start .ephemeral) (decodeBase64 (memory.read (start .ephemeralKey)
      (decodeBase64Reads ephemeralKeyLength)))).write
    (start .rawMac) (decodeBase64 (memory.read (start .mac) (encodeBase64Length cipherMacLength)))).write
    (start .ciphertext) (decodeBase64 (memory.read (start .ciphertext) ciphertextLength))

variable {raw : Nat} {P : Access PkBuffer → Prop}

theorem decodeKey_memory : (decodeBase64At (start .ephemeralKey) ephemeralKeyLength (start .ephemeral) memory).memory =
    memory.write (start PkBuffer.ephemeral) (decodeBase64 (memory.read (start .ephemeralKey)
      (decodeBase64Reads ephemeralKeyLength))) :=
  decodeBase64At_memory _ _ _ _ fun same => nomatch same

theorem decodeMac_memory : (decodeBase64At (start .mac) (encodeBase64Length cipherMacLength) (start .rawMac)
    memory).memory = memory.write (start PkBuffer.rawMac)
      (decodeBase64 (memory.read (start .mac) (encodeBase64Length cipherMacLength))) :=
  decodeBase64At_memory _ _ _ _ fun same => nomatch same

theorem decodeCiphertext_memory (decodes : decodeBase64Length ciphertextLength = some raw) :
    (decodeBase64At (start .ciphertext) ciphertextLength (start .ciphertext) memory).memory =
      memory.write (start PkBuffer.ciphertext) (decodeBase64 (memory.read (start .ciphertext) ciphertextLength)) := by
  rw [decodeBase64At_memory _ _ _ _ fun _ => Int.le_refl _, (decodeBase64Length_eq decodes).1]

/-- The secret that comes of the decoded array. -/
theorem secret_decoded :
    sharedSecret crypto.curve25519 decryption.keyPair (Block.load 32
      ((memory.write (start .ephemeral) (decodeBase64 (memory.read (start .ephemeralKey)
        (decodeBase64Reads ephemeralKeyLength)))).read (start .ephemeral) 32)) =
      decryption.secret crypto (surroundings ephemeralKeyLength macLength memory)
        (memory.read (start .ephemeralKey) ephemeralKeyLength) := by
  rw [PkDecryption.secret, ephemeral_surroundings]

theorem decoded_writes :
    ((memory.write (start .ephemeral) (decodeBase64 (memory.read (start .ephemeralKey)
      (decodeBase64Reads ephemeralKeyLength)))).write (start .rawMac) (decodeBase64
        ((memory.write (start .ephemeral) (decodeBase64 (memory.read (start .ephemeralKey)
          (decodeBase64Reads ephemeralKeyLength)))).read (start .mac) (encodeBase64Length cipherMacLength)))).write
      (start .ciphertext) (decodeBase64
        (((memory.write (start .ephemeral) (decodeBase64 (memory.read (start .ephemeralKey)
          (decodeBase64Reads ephemeralKeyLength)))).write (start .rawMac) (decodeBase64
            ((memory.write (start .ephemeral) (decodeBase64 (memory.read (start .ephemeralKey)
              (decodeBase64Reads ephemeralKeyLength)))).read (start .mac) (encodeBase64Length cipherMacLength)))).read
          (start .ciphertext) ciphertextLength)) =
      decoded ephemeralKeyLength ciphertextLength memory := by
  unfold decoded
  simp [Memory.read_write_other]

theorem read_rawMac : (decoded ephemeralKeyLength ciphertextLength memory).read (start .rawMac) cipherMacLength =
    decodeBase64 (memory.read (start .mac) (encodeBase64Length cipherMacLength)) := by
  have length := length_decodeBase64 (memory.read (start .mac) (encodeBase64Length cipherMacLength))
    (n := cipherMacLength) (by rw [Memory.length_read, decodeBase64Length_encode])
  unfold decoded
  rw [Memory.read_write_other _ _ _ (by simp), Memory.read_write_of_length _ _ _ length]

theorem authentic_iff : Authentic crypto.kdf (ascii "") (decryption.secret crypto
      (surroundings ephemeralKeyLength macLength memory) (memory.read (start .ephemeralKey) ephemeralKeyLength)).val
      ((decoded ephemeralKeyLength ciphertextLength memory).read (start .rawMac) cipherMacLength) ↔
    Verifies crypto decryption (surroundings ephemeralKeyLength macLength memory)
      (memory.read (start .ephemeralKey) ephemeralKeyLength) (memory.read (start .mac) macLength) := by
  have length : (decodeBase64 (memory.read (start .mac) (encodeBase64Length cipherMacLength))).length =
      cipherMacLength :=
    length_decodeBase64 _ (by rw [Memory.length_read, decodeBase64Length_encode])
  rw [read_rawMac, Authentic, length, Nat.sub_self, List.drop_zero, List.take_zero, Verifies, rawMac_surroundings]
  rfl

/-- Everything that is touched. -/
theorem decryptAt_within (proceeds : Proceeds ciphertextLength maxPlaintextLength raw) :
    (decryptAt crypto decryption ephemeralKeyLength ciphertextLength maxPlaintextLength).Within memory P ↔
      (Covers P .read (start .ephemeralKey) (decodeBase64Reads ephemeralKeyLength) ∧
        Covers P .write (start .ephemeral) (decodeBase64Writes ephemeralKeyLength)) ∧
      Covers P .read (start .ephemeral) 32 ∧
      (Covers P .read (start .mac) 11 ∧ Covers P .write (start .rawMac) 8) ∧
      (Covers P .read (start .ciphertext) ciphertextLength ∧ Covers P .write (start .ciphertext) raw) ∧
      Covers P .read (start .rawMac) 8 ∧
      (Verifies crypto decryption (surroundings ephemeralKeyLength macLength memory)
          (memory.read (start .ephemeralKey) ephemeralKeyLength) (memory.read (start .mac) macLength) →
        Covers P .read (start .ciphertext) (16 * ((raw + 15) / 16)) ∧
          Covers P .write (start .plaintext) (16 * ((raw + 15) / 16)) ∧
          Covers P .read (start .plaintext) (16 * ((raw + 15) / 16)) ∧ P ⟨.read, start .plaintext + raw - 1⟩) := by
  obtain ⟨decodes, room⟩ := proceeds
  obtain ⟨reads, writes⟩ := decodeBase64Length_eq decodes
  have passes : ¬ maxPlaintextLength < (pkCipher crypto).decryptMaxPlaintextLength raw := Nat.not_lt.mpr room
  have cipher (secret : Bytes) (memory : Memory PkBuffer) :=
    aesSha256DecryptAt_within crypto.kdf crypto.aes (ascii "") secret (P := P) (start PkBuffer.rawMac)
      (start PkBuffer.ciphertext) (start PkBuffer.plaintext) memory room (Nat.le_refl cipherMacLength)
  rw [decryptAt, decodes]
  dsimp only
  rw [if_neg passes]
  simp only [within_bind, decodeBase64At_within, within_loadBytes, value_loadBytes, memory_loadBytes, cipher,
    within_pure, and_true, decodeKey_memory, decodeMac_memory, decodeCiphertext_memory _ decodes, reads, writes]
  rw [secret_decoded decryption macLength memory, decoded_writes, authentic_iff]
  rfl

/-- Reads of the caller's strings and writes into the arrays and the plaintext stay inside them. -/
def Contained (ephemeralKeyLength macLength ciphertextLength maxPlaintextLength : Nat) (access : Access PkBuffer) :
    Prop :=
  Inside .read .ephemeralKey ephemeralKeyLength access ∧ Inside .read .mac macLength access ∧
    Inside .read .ciphertext ciphertextLength access ∧ Inside .write .ephemeral 32 access ∧
    Inside .write .rawMac 8 access ∧ Inside .write .plaintext maxPlaintextLength access

/-- An ephemeral key has to fit its array and end with a whole byte, a MAC must not be short, and a ciphertext that
comes with the right MAC needs room for whole blocks on both sides. -/
theorem decryptAt_contained_iff (proceeds : Proceeds ciphertextLength maxPlaintextLength raw) :
    (decryptAt crypto decryption ephemeralKeyLength ciphertextLength maxPlaintextLength).Within memory
        (Contained ephemeralKeyLength macLength ciphertextLength maxPlaintextLength) ↔
      (ephemeralKeyLength % 4 ≠ 1 ∧ ephemeralKeyLength ≤ encodeBase64Length 32) ∧
      encodeBase64Length 8 ≤ macLength ∧
      (Verifies crypto decryption (surroundings ephemeralKeyLength macLength memory)
          (memory.read (start .ephemeralKey) ephemeralKeyLength) (memory.read (start .mac) macLength) →
        16 * ((raw + 15) / 16) ≤ ciphertextLength ∧ 16 * ((raw + 15) / 16) ≤ maxPlaintextLength) := by
  have key : decodeBase64Reads ephemeralKeyLength ≤ ephemeralKeyLength ∧ decodeBase64Writes ephemeralKeyLength ≤ 32 ↔
      ephemeralKeyLength % 4 ≠ 1 ∧ ephemeralKeyLength ≤ encodeBase64Length 32 := by
    rw [show encodeBase64Length 32 = 43 from rfl]
    unfold decodeBase64Reads decodeBase64Writes
    split <;> omega
  have eleven : encodeBase64Length 8 = 11 := rfl
  unfold Contained
  rw [within_and, within_and, within_and, within_and, within_and, ← key, eleven]
  simp only [decryptAt_within decryption macLength memory proceeds]
  simp [covers_inside, Inside]
  tauto

/-- What is returned, and what is left in the plaintext, are the results of `decrypt` in these surroundings. -/
theorem decryptAt_eq :
    let around := crypto.aes.around (decoded ephemeralKeyLength ciphertextLength memory) (start .ciphertext)
      (decodeBase64Writes ciphertextLength) (start .plaintext)
    let result := decryption.decrypt { crypto with aes := around } (surroundings ephemeralKeyLength macLength memory)
      (memory.read (start .ephemeralKey) ephemeralKeyLength) (memory.read (start .mac) macLength)
      (memory.read (start .ciphertext) ciphertextLength) maxPlaintextLength
    let left := decryptAt crypto decryption ephemeralKeyLength ciphertextLength maxPlaintextLength memory
    left.value = (result.1, result.2.map List.length) ∧
      ∀ text, result.2 = some text → left.memory.read (start .plaintext) text.length = text := by
  dsimp only
  unfold decryptAt decrypt
  rw [Memory.length_read]
  cases decodes : decodeBase64Length ciphertextLength with
  | none =>
    refine ⟨rfl, ?_⟩
    intro text none
    cases none
  | some raw =>
    obtain ⟨-, writes⟩ := decodeBase64Length_eq decodes
    have max (crypto : Crypto) : (pkCipher crypto).decryptMaxPlaintextLength raw = raw := rfl
    simp only [max, writes]
    by_cases small : maxPlaintextLength < raw
    · rw [if_pos small, if_pos small]
      refine ⟨rfl, ?_⟩
      intro text none
      cases none
    rw [if_neg small, if_neg small]
    simp only [value_bind, memory_bind, value_loadBytes, memory_loadBytes, decodeKey_memory, decodeMac_memory,
      decodeCiphertext_memory _ decodes, run_pure]
    rw [secret_decoded decryption macLength memory, decoded_writes]
    have opened := aesSha256DecryptAt_eq crypto.kdf crypto.aes (ascii "") (decryption.secret crypto
      (surroundings ephemeralKeyLength macLength memory) (memory.read (start .ephemeralKey) ephemeralKeyLength)).val
      (start PkBuffer.rawMac) (start PkBuffer.ciphertext) (start PkBuffer.plaintext) cipherMacLength raw
      maxPlaintextLength (decoded ephemeralKeyLength ciphertextLength memory)
      (Aes.clear_other (by simp) _ _)
    have text : (decoded ephemeralKeyLength ciphertextLength memory).read (start .ciphertext) raw =
        decodeBase64 (memory.read (start .ciphertext) ciphertextLength) :=
      Memory.read_write_of_length _ _ _ (length_decodeBase64 _ (by rw [Memory.length_read, decodes]))
    rw [read_rawMac, ← @rawMac_surroundings ephemeralKeyLength macLength memory, text] at opened
    obtain ⟨value, left⟩ := opened
    -- the surroundings of the cipher do not change the secret
    have secret_eq (aes : Aes) (around : PkSurroundings) (ephemeralKey : Bytes) :
        decryption.secret { crypto with aes := aes } around ephemeralKey =
          decryption.secret crypto around ephemeralKey := rfl
    simp only [pkCipher, CipherOps.withKey, value, secret_eq]
    revert left
    generalize (aesSha256 crypto.kdf _ (ascii "")).decrypt _ _ _ maxPlaintextLength = result
    intro left
    cases result with
    | none =>
      refine ⟨rfl, ?_⟩
      intro text none
      cases none
    | some plaintext => exact ⟨rfl, left⟩

end PkDecryption

/-! ### Which buffers are large enough -/

/-- For every key and all lengths: where the checks let a call proceed, encryption stays inside the buffers exactly when
the one of the MAC has room for its text, and decryption when the ephemeral key fits its array and ends with a whole
byte, the MAC is not short, and a ciphertext with the right MAC has room for whole blocks. -/
theorem pk_contained_iff (crypto : Crypto) (encryption : PkEncryption) (decryption : PkDecryption)
    (plaintextLength ciphertextSize macSize ephemeralKeySize : Nat) (random : Bytes)
    (ephemeralKeyLength macLength ciphertextLength maxPlaintextLength : Nat) (memory : Memory PkBuffer) :
    ((PkEncryption.Proceeds crypto plaintextLength ciphertextSize macSize ephemeralKeySize random →
        (encryption.encryptAt crypto plaintextLength ciphertextSize macSize ephemeralKeySize random).Within memory
          (PkEncryption.Contained ciphertextSize macSize ephemeralKeySize)) ↔
      (PkEncryption.Proceeds crypto plaintextLength ciphertextSize macSize ephemeralKeySize random →
        encodeBase64Length 8 ≤ macSize)) ∧
    ((∀ raw, PkDecryption.Proceeds ciphertextLength maxPlaintextLength raw →
        (decryption.decryptAt crypto ephemeralKeyLength ciphertextLength maxPlaintextLength).Within memory
          (PkDecryption.Contained ephemeralKeyLength macLength ciphertextLength maxPlaintextLength)) ↔
      ∀ raw, PkDecryption.Proceeds ciphertextLength maxPlaintextLength raw →
        (ephemeralKeyLength % 4 ≠ 1 ∧ ephemeralKeyLength ≤ encodeBase64Length 32) ∧
        encodeBase64Length 8 ≤ macLength ∧
        (PkDecryption.Verifies crypto decryption (PkDecryption.surroundings ephemeralKeyLength macLength memory)
            (memory.read (Pointer.start .ephemeralKey) ephemeralKeyLength)
            (memory.read (Pointer.start .mac) macLength) →
          16 * ((raw + 15) / 16) ≤ ciphertextLength ∧ 16 * ((raw + 15) / 16) ≤ maxPlaintextLength)) := by
  constructor
  · exact imp_congr_right fun proceeds => encryption.encryptAt_contained_iff proceeds memory
  · exact forall_congr' fun raw => imp_congr_right fun proceeds =>
      decryption.decryptAt_contained_iff macLength memory proceeds

/-- A MAC of eight bytes passes the check of `olm_pk_encrypt` and gets eleven characters; an ephemeral key of 44
characters passes that of `olm_pk_decrypt` and gives 33 bytes. -/
theorem pk_not_contained :
    (¬ ∀ (crypto : Crypto) (encryption : PkEncryption) (plaintextLength ciphertextSize macSize ephemeralKeySize : Nat)
        (random : Bytes) (memory : Memory PkBuffer),
      PkEncryption.Proceeds crypto plaintextLength ciphertextSize macSize ephemeralKeySize random →
        (encryption.encryptAt crypto plaintextLength ciphertextSize macSize ephemeralKeySize random).Within memory
          (PkEncryption.Contained ciphertextSize macSize ephemeralKeySize)) ∧
    ¬ ∀ (crypto : Crypto) (decryption : PkDecryption)
        (ephemeralKeyLength macLength ciphertextLength maxPlaintextLength raw : Nat) (memory : Memory PkBuffer),
      PkDecryption.Proceeds ciphertextLength maxPlaintextLength raw →
        (decryption.decryptAt crypto ephemeralKeyLength ciphertextLength maxPlaintextLength).Within memory
          (PkDecryption.Contained ephemeralKeyLength macLength ciphertextLength maxPlaintextLength) := by
  constructor
  · intro contained
    have proceeds : PkEncryption.Proceeds Crypto.plain 0 22 8 43 (List.replicate 32 0) := by decide
    have inside := contained Crypto.plain ⟨.success, Block.zero 32⟩ 0 22 8 43 (List.replicate 32 0) (fun _ => 0) proceeds
    rw [PkEncryption.encryptAt_contained_iff _ proceeds] at inside
    exact absurd inside (by decide)
  · intro contained
    have proceeds : PkDecryption.Proceeds 0 0 0 := by decide
    have inside := contained Crypto.plain PkDecryption.zeroDecryption 44 11 0 0 0 (fun _ => 0) proceeds
    rw [PkDecryption.decryptAt_contained_iff _ 11 _ proceeds] at inside
    exact absurd inside.1.2 (by decide)

end RubyOlm
