import RubyOlm.Base64
import RubyOlm.Cipher

/-!
# Public-key encryption

`pk.cpp`, whose functions go by their names without `olm_pk_`. Both directions hand the cipher an
output or input of eight bytes, the MAC alone, so what is authenticated is the empty string: whatever
ciphertext comes with the right MAC is decrypted.
-/

namespace RubyOlm

def pkCipher (crypto : Crypto) : CipherOps (Block 32) :=
  (aesSha256 crypto.kdf crypto.aes (ascii "")).withKey Subtype.val

def pkKeyLength : Nat := encodeBase64Length 32

/-! ### Encryption -/

structure PkEncryption where
  lastError : OlmErrorCode
  recipientKey : PublicKey

structure PkEncrypted where
  ciphertext : Bytes
  mac : Bytes
  ephemeralKey : Bytes

namespace PkEncryption

def ciphertextLength (crypto : Crypto) (plaintextLength : Nat) : Nat :=
  encodeBase64Length ((pkCipher crypto).encryptCiphertextLength plaintextLength)

/-- `olm_pk_encrypt`, into buffers of the given lengths. `rawMac` is what the stack held. -/
def encrypt (crypto : Crypto) (encryption : PkEncryption) (plaintext : Bytes)
    (ciphertextSize macSize ephemeralKeySize : Nat) (random : Bytes) (rawMac : Block 8) :
    PkEncryption × Option PkEncrypted :=
  if ciphertextSize < ciphertextLength crypto plaintext.length ∨ macSize < (pkCipher crypto).macLength ∨
      ephemeralKeySize < pkKeyLength then
    ({ encryption with lastError := .outputBufferTooSmall }, none)
  else if random.length < 32 then ({ encryption with lastError := .notEnoughRandom }, none)
  else
    let ephemeralKeypair := generateKey crypto.curve25519 (Block.load 32 random)
    let secret := sharedSecret crypto.curve25519 ephemeralKeypair encryption.recipientKey
    let rawCiphertextLength := (pkCipher crypto).encryptCiphertextLength plaintext.length
    match (pkCipher crypto).encrypt secret plaintext none rawCiphertextLength rawMac.val with
    | none => (encryption, none)
    | some (rawCiphertext, rawMac) =>
      (encryption, some
        { ciphertext := encodeBase64 rawCiphertext
          mac := encodeBase64 rawMac
          ephemeralKey := encodeBase64 ephemeralKeypair.publicKey.val })

end PkEncryption

/-! ### Decryption -/

structure PkDecryption where
  lastError : OlmErrorCode
  keyPair : Curve25519KeyPair

/-- What a call of `olm_pk_decrypt` finds outside the strings it is given: the old contents of the
decoded ephemeral key, the byte that follows an ephemeral key with a single character left at the end,
and the memory that follows a MAC of less than eleven characters. -/
structure PkSurroundings where
  ephemeral : Block 32
  afterEphemeralKey : UInt8
  afterMac : Block 11

namespace PkDecryption

variable (crypto : Crypto)

/-- The decoded ephemeral key, whose length nothing checks. -/
def ephemeral (around : PkSurroundings) (ephemeralKey : Bytes) : PublicKey :=
  let chars := if ephemeralKey.length % 4 = 1 then ephemeralKey ++ [around.afterEphemeralKey] else ephemeralKey
  Block.load 32 (writeAt around.ephemeral.val 0 (decodeBase64 chars))

/-- The decoded MAC: eleven characters are read, whatever the length of the MAC. -/
def rawMac (around : PkSurroundings) (mac : Bytes) : Block 8 :=
  Block.load 8 (decodeBase64 ((mac ++ around.afterMac.val).take (encodeBase64Length 8)))

def secret (decryption : PkDecryption) (around : PkSurroundings) (ephemeralKey : Bytes) : Block 32 :=
  sharedSecret crypto.curve25519 decryption.keyPair (ephemeral around ephemeralKey)

/-- `olm_pk_decrypt`. A ciphertext whose length decodes to `size_t(-1)` needs a larger buffer than
there is. -/
def decrypt (decryption : PkDecryption) (around : PkSurroundings) (ephemeralKey mac ciphertext : Bytes)
    (maxPlaintextLength : Nat) : PkDecryption × Option Bytes :=
  match decodeBase64Length ciphertext.length with
  | none => ({ decryption with lastError := .outputBufferTooSmall }, none)
  | some rawCiphertextLength =>
    if maxPlaintextLength < (pkCipher crypto).decryptMaxPlaintextLength rawCiphertextLength then
      ({ decryption with lastError := .outputBufferTooSmall }, none)
    else
      match (pkCipher crypto).decrypt (decryption.secret crypto around ephemeralKey) (rawMac around mac).val
          (decodeBase64 ciphertext) maxPlaintextLength with
      | none => ({ decryption with lastError := .badMessageMac }, none)
      | some plaintext => (decryption, some plaintext)

/-! ### Integrity -/

/-- A ciphertext that some buffer is large enough for to be decrypted. -/
def Accepted (decryption : PkDecryption) (around : PkSurroundings) (ephemeralKey mac ciphertext : Bytes) :
    Prop :=
  ∃ maxPlaintextLength, (decryption.decrypt crypto around ephemeralKey mac ciphertext
    maxPlaintextLength).2.isSome

/-- What the MAC is for: with this ephemeral key and MAC at most one ciphertext is accepted, the one
that they were produced with, and all others are rejected as not authentic. -/
structure Integrity (decryption : PkDecryption) (around : PkSurroundings) (ephemeralKey mac : Bytes) :
    Prop where
  unique : ∀ {ciphertext ciphertext'},
    decryption.Accepted crypto around ephemeralKey mac ciphertext →
    decryption.Accepted crypto around ephemeralKey mac ciphertext' →
    decodeBase64 ciphertext = decodeBase64 ciphertext'
  produced : ∀ {ciphertext}, decryption.Accepted crypto around ephemeralKey mac ciphertext →
    ∃ plaintext ciphertextSize macSize ephemeralKeySize random stack encrypted,
      (PkEncryption.encrypt crypto ⟨.success, decryption.keyPair.publicKey⟩ plaintext ciphertextSize macSize
        ephemeralKeySize random stack).2 = some encrypted ∧
      encrypted.ephemeralKey = ephemeralKey ∧ encrypted.mac = mac ∧
      decodeBase64 encrypted.ciphertext = decodeBase64 ciphertext
  rejected : ∀ {ciphertext length maxPlaintextLength}, decodeBase64Length ciphertext.length = some length →
    length ≤ maxPlaintextLength → ¬ decryption.Accepted crypto around ephemeralKey mac ciphertext →
    (decryption.decrypt crypto around ephemeralKey mac ciphertext maxPlaintextLength).1.lastError =
      .badMessageMac

def keys (secret : Block 32) : DerivedKeys := deriveKeys crypto.kdf (ascii "") secret.val

def emptyMac (secret : Block 32) : Bytes := truncatedMac crypto.kdf (keys crypto secret) []

variable {crypto}

/-- What is written when nothing is refused: the texts of the ciphertext, of the MAC of nothing and of the key. -/
theorem encrypt_eq (encryption : PkEncryption) (plaintext : Bytes) (ciphertextSize macSize ephemeralKeySize : Nat)
    (random : Bytes) (stack : Block 8) :
    encryption.encrypt crypto plaintext ciphertextSize macSize ephemeralKeySize random stack =
      if ciphertextSize < PkEncryption.ciphertextLength crypto plaintext.length ∨
          macSize < (pkCipher crypto).macLength ∨ ephemeralKeySize < pkKeyLength then
        ({ encryption with lastError := .outputBufferTooSmall }, none)
      else if random.length < 32 then ({ encryption with lastError := .notEnoughRandom }, none)
      else
        let pair := generateKey crypto.curve25519 (Block.load 32 random)
        let secret := sharedSecret crypto.curve25519 pair encryption.recipientKey
        (encryption, some
          { ciphertext := encodeBase64 (sealedCiphertext crypto.kdf crypto.aes (ascii "") secret.val plaintext)
            mac := encodeBase64 (emptyMac crypto secret)
            ephemeralKey := encodeBase64 pair.publicKey.val }) := by
  have nothing_before : stack.val.length - cipherMacLength = 0 := by
    rw [Block.length_val, cipherMacLength]
  have fits : ¬ (Aes.encryptCbcLength plaintext.length < Aes.encryptCbcLength plaintext.length ∨
      stack.val.length < cipherMacLength) := by
    rw [Block.length_val, cipherMacLength]
    omega
  have overwritten (mac : Bytes) (length : mac.length = 8) : writeAt stack.val 0 mac = mac := by
    rw [writeAt, List.take_zero, List.nil_append, length, Nat.zero_add,
      List.drop_of_length_le (Nat.le_of_eq stack.property), List.append_nil]
  simp only [PkEncryption.encrypt, pkCipher, CipherOps.withKey, aesSha256, if_neg fits, nothing_before, List.take_zero,
    overwritten _ (length_truncatedMac _ _ _)]
  rfl

/-- What `olm_pk_encrypt` writes as the MAC depends on the two keys alone. -/
theorem encrypt_mac {encryption : PkEncryption} {plaintext random : Bytes}
    {ciphertextSize macSize ephemeralKeySize : Nat} {stack : Block 8} {encrypted : PkEncrypted}
    (written : (encryption.encrypt crypto plaintext ciphertextSize macSize ephemeralKeySize random stack).2 =
      some encrypted) :
    encrypted.mac = encodeBase64 (emptyMac crypto (sharedSecret crypto.curve25519
      (generateKey crypto.curve25519 (Block.load 32 random)) encryption.recipientKey)) := by
  rw [encrypt_eq] at written
  split at written
  · cases written
  split at written
  · cases written
  obtain rfl := Option.some.inj written
  rfl

/-- What decides: the MAC, and then only the padding. -/
theorem decrypt_eq (decryption : PkDecryption) (around : PkSurroundings)
    (ephemeralKey mac ciphertext : Bytes) {length maxPlaintextLength : Nat}
    (decodes : decodeBase64Length ciphertext.length = some length) (room : length ≤ maxPlaintextLength) :
    decryption.decrypt crypto around ephemeralKey mac ciphertext maxPlaintextLength =
      let secret := decryption.secret crypto around ephemeralKey
      if (rawMac around mac).val = emptyMac crypto secret then
        match crypto.aes.decryptCbc (keys crypto secret).aesKey (keys crypto secret).aesIv
            (decodeBase64 ciphertext) with
        | none => ({ decryption with lastError := .badMessageMac }, none)
        | some plaintext => (decryption, some plaintext)
      else ({ decryption with lastError := .badMessageMac }, none) := by
  have max : ¬ maxPlaintextLength < (pkCipher crypto).decryptMaxPlaintextLength length := Nat.not_lt.mpr room
  have fits : ¬ (maxPlaintextLength < (decodeBase64 ciphertext).length ∨
      (rawMac around mac).val.length < cipherMacLength) := by
    rw [length_decodeBase64 _ decodes, Block.length_val, cipherMacLength]
    omega
  have nothing_before : (rawMac around mac).val.length - cipherMacLength = 0 := by
    rw [Block.length_val, cipherMacLength]
  rw [decrypt, decodes]
  dsimp only
  rw [if_neg max]
  simp only [pkCipher, CipherOps.withKey, aesSha256, if_neg fits, nothing_before, List.take_zero, List.drop_zero]
  unfold emptyMac
  rw [keys]
  by_cases authentic : (rawMac around mac).val =
      truncatedMac crypto.kdf (deriveKeys crypto.kdf (ascii "") (decryption.secret crypto around ephemeralKey).val) []
  · rw [if_pos authentic, if_pos authentic]
  · rw [if_neg authentic, if_neg authentic]

/-- Without the MAC of the empty string nothing is accepted. -/
theorem not_accepted (decryption : PkDecryption) (around : PkSurroundings) {ephemeralKey mac : Bytes}
    (differs : (rawMac around mac).val ≠ emptyMac crypto (decryption.secret crypto around ephemeralKey))
    (ciphertext : Bytes) : ¬ decryption.Accepted crypto around ephemeralKey mac ciphertext := by
  rintro ⟨maxPlaintextLength, accepted⟩
  cases decodes : decodeBase64Length ciphertext.length with
  | none =>
    rw [decrypt, decodes] at accepted
    cases accepted
  | some length =>
    by_cases room : length ≤ maxPlaintextLength
    · rw [decrypt_eq decryption around _ _ _ decodes room] at accepted
      dsimp only at accepted
      rw [if_neg differs] at accepted
      cases accepted
    · have small : maxPlaintextLength < (pkCipher crypto).decryptMaxPlaintextLength length := Nat.not_le.mp room
      rw [decrypt, decodes] at accepted
      dsimp only at accepted
      rw [if_pos small] at accepted
      cases accepted

/-- With it, every ciphertext made by CBC encryption is accepted, whatever its plaintext. -/
theorem accepted_of_emptyMac (perm : crypto.aes.Permutation) (decryption : PkDecryption)
    (around : PkSurroundings) {ephemeralKey mac : Bytes} {secret : Block 32}
    (agreed : decryption.secret crypto around ephemeralKey = secret)
    (same : (rawMac around mac).val = emptyMac crypto secret) (plaintext : Bytes) :
    decryption.Accepted crypto around ephemeralKey mac
      (encodeBase64 (crypto.aes.encryptCbc (keys crypto secret).aesKey (keys crypto secret).aesIv plaintext)) := by
  refine ⟨(crypto.aes.encryptCbc (keys crypto secret).aesKey (keys crypto secret).aesIv plaintext).length, ?_⟩
  rw [decrypt_eq decryption around _ _ _ (by rw [length_encodeBase64, decodeBase64Length_encode])
    (Nat.le_refl _)]
  dsimp only
  rw [agreed, if_pos same, decode_encodeBase64, Aes.decryptCbc_encryptCbc _ perm]
  rfl

/-- The MAC protects a ciphertext exactly when it is one that nothing is accepted with. -/
theorem integrity_iff (perm : crypto.aes.Permutation) (decryption : PkDecryption) (around : PkSurroundings)
    (ephemeralKey mac : Bytes) :
    decryption.Integrity crypto around ephemeralKey mac ↔
      (rawMac around mac).val ≠ emptyMac crypto (decryption.secret crypto around ephemeralKey) := by
  constructor
  · intro integrity same
    have one := integrity.unique (accepted_of_emptyMac perm decryption around rfl same [])
      (accepted_of_emptyMac perm decryption around rfl same [0])
    rw [decode_encodeBase64, decode_encodeBase64] at one
    have opened := Aes.decryptCbc_encryptCbc (keys crypto (decryption.secret crypto around ephemeralKey)).aesKey perm
      (keys crypto (decryption.secret crypto around ephemeralKey)).aesIv []
    rw [one, Aes.decryptCbc_encryptCbc _ perm] at opened
    cases opened
  · intro differs
    have refused := not_accepted decryption around differs
    refine { unique := ?_, produced := ?_, rejected := ?_ }
    · exact fun accepted => absurd accepted (refused _)
    · exact fun accepted => absurd accepted (refused _)
    · intro ciphertext length maxPlaintextLength decodes room _
      rw [decrypt_eq decryption around _ _ _ decodes room]
      dsimp only
      rw [if_neg differs]

theorem rawMac_emptyMac (around : PkSurroundings) (secret : Block 32) :
    (rawMac around (encodeBase64 (emptyMac crypto secret))).val = emptyMac crypto secret := by
  have length : (emptyMac crypto secret).length = 8 := length_truncatedMac _ _ _
  have text : (encodeBase64 (emptyMac crypto secret)).length = encodeBase64Length 8 := by
    rw [length_encodeBase64, length]
  rw [rawMac, ← text, List.take_left, decode_encodeBase64, Aes.load_take (Nat.le_of_eq length.symm),
    List.take_of_length_le (Nat.le_of_eq length)]

/-! ### Zero keys -/

def zeroSurroundings : PkSurroundings := ⟨Block.zero 32, 0, Block.zero 11⟩

def zeroDecryption : PkDecryption := ⟨.success, ⟨Block.zero 32, Block.zero 32⟩⟩

theorem integrity_iff_zero :
    zeroDecryption.Integrity Crypto.plain zeroSurroundings [] (List.replicate 11 0x41) ↔
      (rawMac zeroSurroundings (List.replicate 11 0x41)).val ≠
        emptyMac Crypto.plain (zeroDecryption.secret Crypto.plain zeroSurroundings []) :=
  integrity_iff Crypto.plain_permutation zeroDecryption zeroSurroundings [] (List.replicate 11 0x41)

/-- With the MAC that every encryption for these keys writes, the ciphertexts of the empty plaintext and
of one zero byte are both accepted. -/
theorem two_ciphertexts_accepted :
    ¬ ∀ (crypto : Crypto) (decryption : PkDecryption) (around : PkSurroundings) (ephemeralKey mac : Bytes),
      crypto.kdf.CollisionFree 30 → decryption.Integrity crypto around ephemeralKey mac := by
  intro integrity
  have agreed : zeroDecryption.secret Crypto.plain zeroSurroundings [] = Block.zero 32 := rfl
  have accepted := accepted_of_emptyMac Crypto.plain_permutation zeroDecryption zeroSurroundings agreed
    (rawMac_emptyMac _ _)
  have one := (integrity Crypto.plain zeroDecryption zeroSurroundings [] _ Crypto.plain_collisionFree).unique
    (accepted []) (accepted [0])
  rw [decode_encodeBase64, decode_encodeBase64] at one
  exact absurd one (by decide)

end PkDecryption

end RubyOlm
