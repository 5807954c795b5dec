import RubyOlm.DoubleRatchet.Ratchet
import RubyOlm.Message.RoundTrip

/-!
# The messages of the library's ratchet

Normal messages of `message.cpp` under a cipher, and the operations of a ratchet over byte strings.
-/

namespace RubyOlm

/-- `encode_message` and `decode_message` around a cipher. `stack` is what a reader held before. -/
def Wire.olm {Key : Type} (cipher : CipherOps Key) (stack : MessageReader) : Wire Key Bytes where
  outputLength counter plaintextLength :=
    encodeMessageLength counter 32 (cipher.encryptCiphertextLength plaintextLength) cipher.macLength
  write key counter ratchetKey plaintext output :=
    let ciphertextLength := cipher.encryptCiphertextLength plaintext.length
    let writer := encodeMessage Ratchet.protocolVersion counter 32 ciphertextLength output
    let output := writeAt writer.output writer.ratchetKey ratchetKey.val
    -- `encrypt` does not look at what the cipher returns
    match cipher.encrypt key plaintext (some writer.ciphertext) ciphertextLength output with
    | some (_, output) => output
    | none => output
  read input :=
    let reader := decodeMessage stack input cipher.macLength
    { version := reader.version
      counter := reader.counter
      ratchetKey := reader.ratchetKey.map fun span => span.read input
      ciphertext := reader.ciphertext.map fun span => span.read input }
  maxPlaintextLength := cipher.decryptMaxPlaintextLength
  decrypt := cipher.decrypt

def Kdf.sharedKeys (kdf : Kdf) : KeyAlgebra (Block 32) Bytes Bytes Bytes where
  hmac key input := kdf.hmac key.val input
  hkdf input salt info :=
    let derived := (kdf.hkdf input (salt.map Subtype.val) info (2 * 32)).val
    (Block.load 32 derived, Block.load 32 (derived.drop 32))

def olmKdfInfo : KdfInfo := ⟨ascii "OLM_ROOT", ascii "OLM_RATCHET"⟩

def olmCipher (crypto : Crypto) : CipherOps (Block 32) :=
  (aesSha256 crypto.kdf crypto.aes (ascii "OLM_KEYS")).withKey Subtype.val

def olmRatchet (crypto : Crypto) (stack : MessageReader) : RatchetOps (Block 32) Bytes where
  toKeyAlgebra := crypto.kdf.sharedKeys
  zeroKey := Block.zero 32
  curve25519 := crypto.curve25519
  kdfInfo := olmKdfInfo
  wire := Wire.olm (olmCipher crypto) stack

/-! ### What it writes -/

def olmMessage (crypto : Crypto) (key : Block 32) (counter : UInt32) (ratchetKey : PublicKey) (plaintext : Bytes) :
    Bytes :=
  let header := messageHeader Ratchet.protocolVersion counter ratchetKey.val (Aes.encryptCbcLength plaintext.length)
  header ++ sealedCiphertext crypto.kdf crypto.aes (ascii "OLM_KEYS") key.val plaintext ++
    sealedMac crypto.kdf crypto.aes (ascii "OLM_KEYS") key.val plaintext header

theorem length_olmMessage (crypto : Crypto) (key : Block 32) (counter : UInt32) (ratchetKey : PublicKey)
    (plaintext : Bytes) (stack : MessageReader) : (olmMessage crypto key counter ratchetKey plaintext).length =
    (Wire.olm (olmCipher crypto) stack).outputLength counter plaintext.length := by
  have length := encodeMessageLength_eq Ratchet.protocolVersion counter ratchetKey.val
    (Aes.encryptCbcLength plaintext.length) cipherMacLength
  rw [Block.length_val] at length
  simp only [olmMessage, List.length_append, length_sealedCiphertext, length_sealedMac]
  exact length.symm

variable {crypto : Crypto} {key : Block 32} {counter : UInt32} {ratchetKey : PublicKey} {plaintext output : Bytes}

theorem Wire.olm_write {stack : MessageReader}
    (room : output.length = (Wire.olm (olmCipher crypto) stack).outputLength counter plaintext.length) :
    (Wire.olm (olmCipher crypto) stack).write key counter ratchetKey plaintext output =
      olmMessage crypto key counter ratchetKey plaintext := by
  obtain ⟨ctLength, hct⟩ : ∃ n, Aes.encryptCbcLength plaintext.length = n := ⟨_, rfl⟩
  obtain ⟨header, hheader⟩ :
    ∃ header, messageHeader Ratchet.protocolVersion counter ratchetKey.val ctLength = header := ⟨_, rfl⟩
  have room : output.length = header.length + ctLength + cipherMacLength := by
    rw [room, ← length_olmMessage crypto key counter ratchetKey plaintext stack, olmMessage, hct, hheader]
    simp only [List.length_append, length_sealedCiphertext, length_sealedMac, hct]
  have written := encodeMessage_eq Ratchet.protocolVersion counter ratchetKey.val ctLength
    (show _ ≤ output.length by rw [hheader]; omega)
  rw [hheader, Block.length_val] at written
  obtain ⟨rest, rest_length, ciphertext_pos, filled⟩ := written
  -- the buffer behind the header falls into a hole for each of ciphertext and MAC
  obtain ⟨ctHole, macHole, rfl, ct_room, mac_room⟩ : ∃ ctHole macHole : Bytes,
      rest = ctHole ++ macHole ∧ ctHole.length = ctLength ∧ macHole.length = cipherMacLength := by
    refine ⟨rest.take ctLength, rest.drop ctLength, (List.take_append_drop _ _).symm, ?_, ?_⟩
    · rw [List.length_take]
      omega
    · rw [List.length_drop]
      omega
  have encrypted := aesSha256_encrypt crypto.kdf crypto.aes (ascii "OLM_KEYS") key.val plaintext header ctHole macHole
    (ct_room.trans hct.symm) mac_room
  rw [ct_room, List.append_assoc] at encrypted
  have cipher_length : (olmCipher crypto).encryptCiphertextLength plaintext.length = ctLength := hct
  have encrypted : (olmCipher crypto).encrypt key plaintext (some header.length) ctLength
      (header ++ (ctHole ++ macHole)) = _ := encrypted
  simp only [Wire.olm, cipher_length, ciphertext_pos, filled, encrypted]
  simp only [olmMessage, hct, hheader]

/-- A message of the library reads back as what was written, and opens under the key that sealed it. -/
theorem Wire.olm_correct (perm : crypto.aes.Permutation) (stack : MessageReader) :
    (Wire.olm (olmCipher crypto) stack).Correct where
  reads := by
    rintro key counter ratchetKey plaintext message ⟨⟨output, short⟩, room, rfl⟩
    have length := room.trans (length_olmMessage crypto key counter ratchetKey plaintext stack).symm
    have opens (maxPlaintextLength : Nat) (fits : Aes.encryptCbcLength plaintext.length ≤ maxPlaintextLength) :=
      aesSha256_decrypt crypto.kdf (ascii "OLM_KEYS") key.val plaintext
        (messageHeader Ratchet.protocolVersion counter ratchetKey.val (Aes.encryptCbcLength plaintext.length)) perm fits
    rw [olm_write room]
    rw [olmMessage] at length ⊢
    have mac_length := length_sealedMac crypto.kdf crypto.aes (ascii "OLM_KEYS") key.val plaintext
      (messageHeader Ratchet.protocolVersion counter ratchetKey.val (Aes.encryptCbcLength plaintext.length))
    generalize sealedMac crypto.kdf crypto.aes (ascii "OLM_KEYS") key.val plaintext
      (messageHeader Ratchet.protocolVersion counter ratchetKey.val (Aes.encryptCbcLength plaintext.length)) = mac
      at length opens mac_length ⊢
    have text_length := length_sealedCiphertext crypto.kdf crypto.aes (ascii "OLM_KEYS") key.val plaintext
    generalize sealedCiphertext crypto.kdf crypto.aes (ascii "OLM_KEYS") key.val plaintext = text
      at length opens text_length ⊢
    rw [← text_length] at length opens ⊢
    obtain ⟨keySpan, textSpan, decoded, key_read, text_read⟩ := decodeMessage_eq stack Ratchet.protocolVersion counter
      ratchetKey.val text mac (by rw [Block.length_val]; decide)
      (by simp only [List.length_append] at length; omega) rfl
    rw [mac_length] at decoded
    refine ⟨text, ?_, opens⟩
    show Reading.mk _ _ _ _ = _
    have mac_eq : (olmCipher crypto).macLength = cipherMacLength := rfl
    simp only [mac_eq, decoded, Option.map_some, key_read, text_read]

end RubyOlm
