import RubyOlm.Session.Session

/-!
# What a session encrypts to

The length of a message is announced before a sender chain is started and before the index moves on. The message has
that length for any session, and consists of a header around the body, the header of the body, the ciphertext and
the MAC.
-/

namespace RubyOlm

namespace Ratchet

section Chain

variable {Key Msg : Type} (ops : RatchetOps Key Msg) (ratchet : Ratchet Key)

/-- The ratchet with the sender chain that `encrypt` goes on from, which it starts if there is none. -/
def withSenderChain (random : Bytes) : Ratchet Key :=
  if ratchet.senderChain.empty then ratchet.startSenderChain ops (Block.load 32 random) else ratchet

/-- `advance_chain_key` of the sender chain. -/
def advanceSender : Ratchet Key :=
  { ratchet with
    senderChain := ratchet.senderChain.set 0
      { ratchet.sender with chainKey := advanceChainKey ops ratchet.sender.chainKey } }

/-- A new chain starts where the length was announced for: at zero. -/
theorem encryptOutputLength_eq (random : Bytes) (plaintextLength : Nat) :
    ratchet.encryptOutputLength ops plaintextLength =
      ops.wire.outputLength (ratchet.withSenderChain ops random).sender.chainKey.index plaintextLength := by
  unfold encryptOutputLength withSenderChain
  by_cases empty : ratchet.senderChain.empty
  · have live := startSenderChain_live ops ((OlmList.empty_iff _).mp empty) (Block.load 32 random)
    rw [if_pos empty, if_pos empty, sender, OlmList.data_zero_eq (by decide) live]
    rfl
  · rw [if_neg empty, if_neg empty]

theorem encrypt_withSenderChain {plaintext random output : Bytes} (enough : ratchet.encryptRandomLength ≤ random.length)
    (room : output.length = ratchet.encryptOutputLength ops plaintext.length) :
    ratchet.encrypt ops plaintext random output =
      let chained := ratchet.withSenderChain ops random
      let keys := createMessageKeys ops chained.sender.chainKey
      (chained.advanceSender ops,
        some (ops.wire.write keys.key keys.index chained.sender.ratchetKey.publicKey plaintext output)) := by
  have taken : output.take (ratchet.encryptOutputLength ops plaintext.length) = output := by
    rw [← room, List.take_length]
  simp only [encrypt, if_neg (Nat.not_lt.mpr enough), if_neg (Nat.not_lt.mpr (Nat.le_of_eq room.symm)), taken]
  rfl

end Chain

variable (crypto : Crypto) (stack : MessageReader) (ratchet : Ratchet (Block 32))

/-- What a ratchet that has a sender chain makes of a text: the header, the ciphertext and the MAC. -/
def messageParts (plaintext : Bytes) : List Bytes :=
  let chain := ratchet.sender
  let keys := createMessageKeys (olmRatchet crypto stack) chain.chainKey
  let header := messageHeader protocolVersion keys.index chain.ratchetKey.publicKey.val
    (Aes.encryptCbcLength plaintext.length)
  [header, sealedCiphertext crypto.kdf crypto.aes (ascii "OLM_KEYS") keys.key.val plaintext,
    sealedMac crypto.kdf crypto.aes (ascii "OLM_KEYS") keys.key.val plaintext header]

theorem flatten_messageParts (plaintext : Bytes) :
    let keys := createMessageKeys (olmRatchet crypto stack) ratchet.sender.chainKey
    (ratchet.messageParts crypto stack plaintext).flatten =
      olmMessage crypto keys.key keys.index ratchet.sender.ratchetKey.publicKey plaintext := by
  simp [messageParts, olmMessage]

theorem length_messageParts (random plaintext : Bytes) :
    ((ratchet.withSenderChain (olmRatchet crypto stack) random).messageParts crypto stack plaintext).flatten.length =
      ratchet.encryptOutputLength (olmRatchet crypto stack) plaintext.length := by
  rw [flatten_messageParts, length_olmMessage crypto _ _ _ _ stack,
    encryptOutputLength_eq (olmRatchet crypto stack) ratchet random]
  rfl

variable {crypto stack ratchet}

/-- With enough random and the announced room, a ratchet in any state encrypts. -/
theorem encrypt_eq_messageParts {plaintext random output : Bytes} (enough : ratchet.encryptRandomLength ≤ random.length)
    (room : output.length = ratchet.encryptOutputLength (olmRatchet crypto stack) plaintext.length) :
    ratchet.encrypt (olmRatchet crypto stack) plaintext random output =
      let chained := ratchet.withSenderChain (olmRatchet crypto stack) random
      (chained.advanceSender (olmRatchet crypto stack), some (chained.messageParts crypto stack plaintext).flatten) := by
  have parts := (ratchet.withSenderChain (olmRatchet crypto stack) random).flatten_messageParts crypto stack plaintext
  rw [encrypt_withSenderChain (olmRatchet crypto stack) ratchet enough room]
  rw [encryptOutputLength_eq (olmRatchet crypto stack) ratchet random] at room
  dsimp only at parts ⊢
  rw [parts]
  exact congrArg (fun message => (_, some message)) (Wire.olm_write room)

end Ratchet

namespace Session

variable (crypto : Crypto) (stack : MessageReader) (session : Session (Block 32))

/-- `encrypt_message_length`, for the text of the message. -/
def olmEncryptMessageLength (plaintextLength : Nat) : Nat :=
  encodeBase64Length (session.encryptMessageLength (olmRatchet crypto stack) plaintextLength)

/-- What goes around a body, until an answer has come. -/
def outerHeader (bodyLength : Nat) : Bytes :=
  if session.receivedMessage then []
  else
    preKeyHeader protocolVersion session.bobOneTimeKey.val session.aliceBaseKey.val session.aliceIdentityKey.val
      bodyLength

def messageParts (random plaintext : Bytes) : List Bytes :=
  let body := (session.ratchet.withSenderChain (olmRatchet crypto stack) random).messageParts crypto stack plaintext
  session.outerHeader body.flatten.length :: body

/-- The session after a message was made of it. -/
def sent (random : Bytes) : Session (Block 32) :=
  { session with
    ratchet := (session.ratchet.withSenderChain (olmRatchet crypto stack) random).advanceSender
      (olmRatchet crypto stack) }

theorem encryptMessageLength_eq (plaintextLength : Nat) :
    let bodyLength := session.ratchet.encryptOutputLength (olmRatchet crypto stack) plaintextLength
    session.encryptMessageLength (olmRatchet crypto stack) plaintextLength =
      (session.outerHeader bodyLength).length + bodyLength := by
  unfold encryptMessageLength outerHeader
  dsimp only
  split
  · rw [List.length_nil, Nat.zero_add]
  · rw [← encodeOneTimeKeyMessageLength_eq, Block.length_val, Block.length_val, Block.length_val]

theorem length_messageParts (random plaintext : Bytes) :
    (session.messageParts crypto stack random plaintext).flatten.length =
      session.encryptMessageLength (olmRatchet crypto stack) plaintext.length := by
  rw [messageParts, List.flatten_cons, List.length_append, session.ratchet.length_messageParts crypto stack,
    encryptMessageLength_eq]

theorem length_text (random plaintext : Bytes) :
    (encodeBase64 (session.messageParts crypto stack random plaintext).flatten).length =
      session.olmEncryptMessageLength crypto stack plaintext.length := by
  rw [length_encodeBase64, length_messageParts]
  rfl

/-- A text that fits into memory has a length that fits into `size_t`. -/
theorem olmEncryptMessageLength_lt {plaintextLength : Nat} (fits : plaintextLength < 2 ^ 63) :
    session.olmEncryptMessageLength crypto stack plaintextLength < 2 ^ 64 := by
  obtain ⟨counter, hcounter⟩ : ∃ counter, (if session.ratchet.senderChain.empty then 0
    else session.ratchet.sender.chainKey.index) = counter := ⟨_, rfl⟩
  have ciphertext : Aes.encryptCbcLength plaintextLength ≤ plaintextLength + 16 := Nat.sub_le ..
  have index : varintLength counter.toNat ≤ 5 := varintLength_le (Nat.lt_trans counter.toNat_lt (by decide))
  have ciphertext_prefix : varintLength (Aes.encryptCbcLength plaintextLength) ≤ 10 :=
    varintLength_le (Nat.lt_of_le_of_lt ciphertext (by omega))
  have key_prefix : varintLength 32 = 1 := rfl
  have body : session.ratchet.encryptOutputLength (olmRatchet crypto stack) plaintextLength =
      encodeMessageLength counter 32 (Aes.encryptCbcLength plaintextLength) cipherMacLength := by
    rw [← hcounter]
    rfl
  obtain ⟨bodyLength, hbodyLength⟩ :
    ∃ n, session.ratchet.encryptOutputLength (olmRatchet crypto stack) plaintextLength = n := ⟨_, rfl⟩
  rw [hbodyLength] at body
  simp only [encodeMessageLength, varstringLength, key_prefix, cipherMacLength] at body
  have body_prefix : varintLength bodyLength ≤ 10 := varintLength_le (by omega)
  unfold olmEncryptMessageLength encryptMessageLength encodeBase64Length
  simp only [hbodyLength, encodeOneTimeKeyMessageLength, varstringLength, key_prefix]
  split <;> omega

variable {crypto stack session}

theorem writeHeader_eq {bodyLength : Nat} {message : Bytes}
    (room : message.length = (session.outerHeader bodyLength).length + bodyLength) :
    ∃ rest, rest.length = bodyLength ∧ session.writeHeader bodyLength message =
      (session.outerHeader bodyLength ++ rest, (session.outerHeader bodyLength).length) := by
  unfold writeHeader outerHeader at *
  cases received : session.receivedMessage with
  | true =>
    rw [received, if_pos rfl, List.length_nil, Nat.zero_add] at room
    exact ⟨message, room, rfl⟩
  | false =>
    rw [received, if_neg Bool.false_ne_true] at room
    obtain ⟨rest, rest_length, message_pos, filled⟩ := encodeOneTimeKeyMessage_eq protocolVersion
      session.bobOneTimeKey.val session.aliceBaseKey.val session.aliceIdentityKey.val bodyLength
      (Nat.le_trans (Nat.le_add_right _ _) (Nat.le_of_eq room.symm))
    rw [Block.length_val, Block.length_val, Block.length_val] at message_pos filled
    refine ⟨rest, by omega, ?_⟩
    simp only [Bool.false_eq_true, if_false, message_pos, filled]

/-- With enough random and the announced room, a session in any state encrypts. -/
theorem encrypt_eq_messageParts {plaintext random message : Bytes}
    (enough : session.encryptRandomLength ≤ random.length)
    (room : message.length = session.encryptMessageLength (olmRatchet crypto stack) plaintext.length) :
    session.encrypt (olmRatchet crypto stack) plaintext random message =
      (session.sent crypto stack random,
        some (session.ratchet.encryptOutputLength (olmRatchet crypto stack) plaintext.length,
          (session.messageParts crypto stack random plaintext).flatten)) := by
  have fits : ¬ message.length < session.encryptMessageLength (olmRatchet crypto stack) plaintext.length :=
    Nat.not_lt.mpr (Nat.le_of_eq room.symm)
  have body_length := session.ratchet.length_messageParts crypto stack random plaintext
  rw [encryptMessageLength_eq] at room
  obtain ⟨rest, rest_length, written⟩ := writeHeader_eq room
  have encrypted := Ratchet.encrypt_eq_messageParts enough rest_length
  have placed := writeAt_append (session.outerHeader rest.length) rest
    ((session.ratchet.withSenderChain (olmRatchet crypto stack) random).messageParts crypto stack plaintext).flatten
  rw [body_length, ← rest_length, List.drop_length, List.append_nil] at placed
  rw [encrypt, if_neg fits]
  dsimp only
  rw [written]
  dsimp only
  rw [List.drop_left, ← rest_length, List.take_length, encrypted]
  dsimp only
  rw [placed, messageParts, List.flatten_cons, body_length, rest_length]
  rfl

theorem olmEncrypt_eq_messageParts {plaintext random message : Bytes}
    (enough : session.encryptRandomLength ≤ random.length)
    (room : session.olmEncryptMessageLength crypto stack plaintext.length ≤ message.length) :
    session.olmEncrypt (olmRatchet crypto stack) plaintext random message =
      (session.sent crypto stack random,
        some (encodeBase64 (session.messageParts crypto stack random plaintext).flatten)) := by
  have fits := le_encodeBase64Length (session.encryptMessageLength (olmRatchet crypto stack) plaintext.length)
  unfold olmEncryptMessageLength at room
  have raw_room : ((message.drop (encodeBase64Length (session.encryptMessageLength (olmRatchet crypto stack)
      plaintext.length) - session.encryptMessageLength (olmRatchet crypto stack) plaintext.length)).take
      (session.encryptMessageLength (olmRatchet crypto stack) plaintext.length)).length =
      session.encryptMessageLength (olmRatchet crypto stack) plaintext.length := by
    rw [List.length_take, List.length_drop]
    omega
  have encrypted := encrypt_eq_messageParts enough raw_room
  simp only [olmEncrypt, if_neg (Nat.not_lt.mpr room), encrypted]

end Session

end RubyOlm
