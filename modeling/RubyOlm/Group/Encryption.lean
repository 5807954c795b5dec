import RubyOlm.Group.Outbound
import RubyOlm.Message.RoundTrip

/-!
# What a group session encrypts to

A header, the ciphertext, the MAC and the signature of all these, as long together as was announced.
-/

namespace RubyOlm.OutboundGroupSession

variable (crypto : Crypto) (session : OutboundGroupSession)

def messageParts (plaintext : Bytes) : List Bytes :=
  let header := groupHeader protocolVersion session.ratchet.counter (Aes.encryptCbcLength plaintext.length)
  let key := session.ratchet.getData.val
  let ciphertext := sealedCiphertext crypto.kdf crypto.aes (ascii "MEGOLM_KEYS") key plaintext
  let mac := sealedMac crypto.kdf crypto.aes (ascii "MEGOLM_KEYS") key plaintext header
  [header, ciphertext, mac, (crypto.ed25519.sign session.signingKey (header ++ ciphertext ++ mac)).val]

/-- The session after a message was made of it. -/
def sent : OutboundGroupSession := { session with ratchet := Megolm.advance (megolmHash crypto) session.ratchet }

theorem length_messageParts (plaintext : Bytes) :
    (session.messageParts crypto plaintext).flatten.length = session.rawMessageLength crypto plaintext.length := by
  have announced := encodeGroupMessageLength_eq session.ratchet.counter protocolVersion
    (Aes.encryptCbcLength plaintext.length) cipherMacLength signatureLength
  simp only [messageParts, List.flatten_cons, List.flatten_nil, List.append_nil, List.length_append,
    length_sealedCiphertext, length_sealedMac, Block.length_val, ← Nat.add_assoc]
  exact announced.symm

theorem length_text (plaintext : Bytes) :
    (encodeBase64 (session.messageParts crypto plaintext).flatten).length =
      session.encryptMessageLength crypto plaintext.length := by
  rw [length_encodeBase64, length_messageParts]
  rfl

/-- A text that fits into memory has a length that fits into `size_t`. -/
theorem encryptMessageLength_lt {plaintextLength : Nat} (fits : plaintextLength < 2 ^ 63) :
    session.encryptMessageLength crypto plaintextLength < 2 ^ 64 := by
  have ciphertext : Aes.encryptCbcLength plaintextLength ≤ plaintextLength + 16 := Nat.sub_le ..
  have index : varintLength session.ratchet.counter.toNat ≤ 5 :=
    varintLength_le (Nat.lt_trans session.ratchet.counter.toNat_lt (by decide))
  have ciphertext_prefix : varintLength (Aes.encryptCbcLength plaintextLength) ≤ 10 :=
    varintLength_le (Nat.lt_of_le_of_lt ciphertext (by omega))
  have raw : session.rawMessageLength crypto plaintextLength = encodeGroupMessageLength session.ratchet.counter
      (Aes.encryptCbcLength plaintextLength) cipherMacLength signatureLength := rfl
  rw [encryptMessageLength, raw, encodeBase64Length, encodeGroupMessageLength, varstringLength, cipherMacLength,
    signatureLength]
  omega

variable {crypto session}

/-- With the announced room, a session in any state encrypts. -/
theorem encryptRaw_eq_messageParts {plaintext buffer : Bytes}
    (room : buffer.length = session.rawMessageLength crypto plaintext.length) :
    session.encryptRaw crypto plaintext buffer =
      (session.sent crypto, some (session.messageParts crypto plaintext).flatten) := by
  obtain ⟨ctLength, hct⟩ : ∃ n, Aes.encryptCbcLength plaintext.length = n := ⟨_, rfl⟩
  obtain ⟨header, hheader⟩ :
    ∃ header, groupHeader protocolVersion session.ratchet.counter ctLength = header := ⟨_, rfl⟩
  have raw_length : (megolmCipher crypto).encryptCiphertextLength plaintext.length = ctLength := hct
  rw [rawMessageLength, encodeGroupMessageLength_eq _ protocolVersion, raw_length, hheader] at room
  have mac_length : (megolmCipher crypto).macLength = cipherMacLength := rfl
  -- the buffer behind the header falls into a hole for each of ciphertext, MAC and signature
  obtain ⟨ctHole, macHole, signatureHole, holes, ct_room, mac_room, signature_room⟩ :
      ∃ ctHole macHole signatureHole : Bytes,
        buffer.drop header.length = ctHole ++ macHole ++ signatureHole ∧ ctHole.length = ctLength ∧
        macHole.length = cipherMacLength ∧ signatureHole.length = signatureLength := by
    refine ⟨(buffer.drop header.length).take ctLength,
      ((buffer.drop header.length).drop ctLength).take cipherMacLength,
      ((buffer.drop header.length).drop ctLength).drop cipherMacLength, ?_, ?_, ?_, ?_⟩
    · rw [List.append_assoc, List.take_append_drop, List.take_append_drop]
    all_goals
      simp only [List.length_take, List.length_drop]
      omega
  have encrypted := aesSha256_encrypt crypto.kdf crypto.aes (ascii "MEGOLM_KEYS") session.ratchet.getData.val
    plaintext header ctHole macHole (ct_room.trans hct.symm) mac_room
  have ct_length := length_sealedCiphertext crypto.kdf crypto.aes (ascii "MEGOLM_KEYS") session.ratchet.getData.val
    plaintext
  have sealed_length := length_sealedMac crypto.kdf crypto.aes (ascii "MEGOLM_KEYS") session.ratchet.getData.val
    plaintext header
  simp only [messageParts, hct, hheader]
  generalize sealedMac crypto.kdf crypto.aes (ascii "MEGOLM_KEYS") session.ratchet.getData.val plaintext header = mac
    at encrypted sealed_length ⊢
  generalize sealedCiphertext crypto.kdf crypto.aes (ascii "MEGOLM_KEYS") session.ratchet.getData.val plaintext =
    ciphertext at encrypted ct_length ⊢
  rw [hct] at ct_length
  have front : (header ++ ctHole ++ macHole).length = header.length + ctLength + cipherMacLength := by
    rw [List.length_append, List.length_append, ct_room, mac_room]
  have front' : (header ++ ciphertext ++ mac).length = header.length + ctLength + cipherMacLength := by
    rw [List.length_append, List.length_append, ct_length, sealed_length]
  have output : header ++ buffer.drop header.length = header ++ ctHole ++ macHole ++ signatureHole := by
    rw [holes]
    simp only [List.append_assoc]
  have encrypted' : (megolmCipher crypto).encrypt session.ratchet plaintext (some header.length) ctLength
      (header ++ ctHole ++ macHole) = some (ciphertext, header ++ ciphertext ++ mac) := by
    rw [← ct_room]
    exact encrypted
  have signature := writeAt_append (header ++ ciphertext ++ mac) signatureHole
    (crypto.ed25519.sign session.signingKey (header ++ ciphertext ++ mac)).val
  rw [front', Block.length_val, List.drop_of_length_le (by rw [signature_room]; exact le_refl _),
    List.append_nil] at signature
  simp only [encryptRaw, raw_length, encodeGroupMessage_eq, hheader, mac_length, output, ← front, List.take_left,
    encrypted', List.drop_left]
  rw [front, signature]
  simp only [List.flatten_cons, List.flatten_nil, List.append_nil, List.append_assoc]
  rfl

theorem encrypt_eq_messageParts {plaintext message : Bytes}
    (room : session.encryptMessageLength crypto plaintext.length ≤ message.length) :
    session.encrypt crypto plaintext message =
      (session.sent crypto, some (encodeBase64 (session.messageParts crypto plaintext).flatten)) := by
  have fits := le_encodeBase64Length (session.rawMessageLength crypto plaintext.length)
  unfold encryptMessageLength at room
  have raw_room : ((message.drop (encodeBase64Length (session.rawMessageLength crypto plaintext.length) -
      session.rawMessageLength crypto plaintext.length)).take
      (session.rawMessageLength crypto plaintext.length)).length = session.rawMessageLength crypto plaintext.length := by
    rw [List.length_take, List.length_drop]
    omega
  have encrypted := encryptRaw_eq_messageParts raw_room
  simp only [encrypt, if_neg (Nat.not_lt.mpr room), encrypted]

end RubyOlm.OutboundGroupSession
