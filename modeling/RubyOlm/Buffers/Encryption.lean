import RubyOlm.Buffers.Base64
import RubyOlm.Buffers.Cipher
import RubyOlm.Buffers.Encoding
import RubyOlm.Group.Agreement
import RubyOlm.Session.Establishment

/-!
# Encryption in buffers

`olm_encrypt` and `olm_group_encrypt` over pointers. Each layer writes its header, leaves the rest to the layer below,
and goes by a length that was worked out before.
-/

namespace RubyOlm

open Prog

variable {B : Type} [DecidableEq B]

/-! ### The cipher -/

section Cipher

variable (kdf : Kdf) (aes : Aes) (kdfInfo key : Bytes)

/-- With a header in front of it, and a text that has no place in common with the message. -/
theorem aesSha256EncryptAt_lays {plaintext output : Pointer B} (header : Bytes) {text : Bytes} {memory : Memory B}
    (holds : memory.read plaintext text.length = text)
    (apart : Memory.Apart plaintext text.length output
      (header.length + Aes.encryptCbcLength text.length + cipherMacLength)) :
    (aesSha256EncryptAt kdf aes kdfInfo key plaintext text.length (output + header.length)
        (Aes.encryptCbcLength text.length) output
        (header.length + Aes.encryptCbcLength text.length + cipherMacLength)).Lays (memory.write output header) output
      [(header.length, sealedCiphertext kdf aes kdfInfo key text ++ sealedMac kdf aes kdfInfo key text header)] where
  leaves := by
    have whole : 16 * (text.length / 16) + text.length % 16 = text.length := Nat.div_add_mod ..
    have same : (memory.write output header).read plaintext text.length = text := by
      rw [Memory.read_write_apart _ (apart.front (by omega)).symm, holds]
    have room : Memory.Apart plaintext text.length (output + header.length) (Aes.encryptCbcLength text.length) :=
      apart.behind (by omega)
    exact aesSha256EncryptAt_sealed kdf aes kdfInfo key plaintext output header text (Memory.read_write ..) same
      (Aes.clear_placed (Aes.whole_blocks_le text.length) (.inr (by rwa [whole])))
  within {P} reads := by
    have parts : Covers P .write (output + header.length) (_ + cipherMacLength) ↔ _ :=
      covers_add (Aes.encryptCbcLength text.length) cipherMacLength
    rw [Pointer.add_add] at parts
    rw [aesSha256EncryptAt_within kdf aes kdfInfo key plaintext _ output _ (Nat.le_refl _) (Nat.le_add_left ..),
      Nat.add_sub_cancel, List.forall_mem_singleton, List.length_append, length_sealedCiphertext,
      length_sealedMac, parts]
    simp only [covers_read reads, true_and, and_true]

theorem aesSha256EncryptAt_value (plaintext ciphertext output : Pointer B)
    {plaintextLength ciphertextLength outputLength : Nat} (memory : Memory B)
    (ciphertext_room : Aes.encryptCbcLength plaintextLength ≤ ciphertextLength)
    (mac_room : cipherMacLength ≤ outputLength) :
    (aesSha256EncryptAt kdf aes kdfInfo key plaintext plaintextLength ciphertext ciphertextLength output outputLength
      memory).value = some outputLength := by
  rw [aesSha256EncryptAt, if_neg (by omega)]
  rfl

/-- Behind a header that was put at the front of the buffer piece by piece. -/
theorem aesSha256EncryptAt_behind {Result : Type} {x : Prog B Result} {plaintext output : Pointer B}
    {header text : Bytes} {memory : Memory B} {pieces : List (Nat × Bytes)}
    (front : x.Lays memory output pieces) (beside : SideBySide 0 pieces header)
    (holds : memory.read plaintext text.length = text)
    (apart : Memory.Apart plaintext text.length output
      (header.length + Aes.encryptCbcLength text.length + cipherMacLength)) :
    let body := sealedCiphertext kdf aes kdfInfo key text ++ sealedMac kdf aes kdfInfo key text header
    let length := header.length + Aes.encryptCbcLength text.length + cipherMacLength
    let encrypted := aesSha256EncryptAt kdf aes kdfInfo key plaintext text.length (output + header.length)
      (Aes.encryptCbcLength text.length) output length
    (encrypted (x memory).memory).value = some length ∧
      (encrypted (x memory).memory).memory = memory.write output (header ++ body) ∧
      encrypted.Lays (x memory).memory output [(header.length, body)] ∧
      SideBySide 0 (pieces ++ [(header.length, body)]) (header ++ body) := by
  have filled := front.fills beside
  have lays := aesSha256EncryptAt_lays kdf aes kdfInfo key header holds apart
  rw [← filled] at lays
  have all := beside.append (sideBySide_one _ (sealedCiphertext kdf aes kdfInfo key text ++
    sealedMac kdf aes kdfInfo key text header))
  rw [Nat.zero_add] at all
  refine ⟨?_, ?_, lays, all⟩
  · exact aesSha256EncryptAt_value kdf aes kdfInfo key plaintext _ output _ (Nat.le_refl _) (Nat.le_add_left ..)
  · rw [lays.leaves, filled, Memory.write_append]
    rfl

end Cipher

/-! ### The room for the text -/

omit [DecidableEq B] in
/-- The raw message lies in the room for its text. -/
theorem raw_inside (message : Pointer B) (rawLength : Nat) (place : Pointer B)
    (written : ∃ i < rawLength, place = message + encodeBase64Length rawLength - rawLength + i) :
    ∃ i < encodeBase64Length rawLength, place = message + i := by
  obtain ⟨i, lt, rfl⟩ := written
  have longer := le_encodeBase64Length rawLength
  refine ⟨encodeBase64Length rawLength - rawLength + i, by omega, ?_⟩
  rw [Pointer.add_sub message longer, Pointer.add_add]

omit [DecidableEq B] in
theorem apart_raw {p message : Pointer B} {length rawLength : Nat}
    (apart : Memory.Apart p length message (encodeBase64Length rawLength)) :
    Memory.Apart p length (message + encodeBase64Length rawLength - rawLength) rawLength := by
  have longer := le_encodeBase64Length rawLength
  rw [Pointer.add_sub message longer]
  exact apart.behind (by omega)

/-! ### The ratchet -/

namespace Ratchet

variable (crypto : Crypto) (stack : MessageReader) (ratchet : Ratchet (Block 32))

def withSenderChainAt (random : Pointer B) : Prog B (Ratchet (Block 32)) :=
  if ratchet.senderChain.empty then do
    let random ← loadBytes random 32
    return ratchet.startSenderChain (olmRatchet crypto stack) (Block.load 32 random)
  else pure ratchet

/-- The part of `encrypt` that has a sender chain to use. What the cipher returns is not looked at. -/
def encryptOnChainAt (plaintext : Pointer B) (plaintextLength : Nat) (output : Pointer B) (outputLength : Nat) :
    Prog B (Ratchet (Block 32) × Option Nat) := do
  let ops := olmRatchet crypto stack
  let chain := ratchet.sender
  let keys := createMessageKeys ops chain.chainKey
  let ratchet := ratchet.advanceSender ops
  let ciphertextLength := (olmCipher crypto).encryptCiphertextLength plaintextLength
  let writer ← encodeMessageAt protocolVersion keys.index 32 ciphertextLength output
  storeBytes writer.ratchetKey chain.ratchetKey.publicKey.val
  let _ ← aesSha256EncryptAt crypto.kdf crypto.aes (ascii "OLM_KEYS") keys.key.val plaintext plaintextLength
    writer.ciphertext ciphertextLength output outputLength
  return (ratchet, some outputLength)

/-- `encrypt`; `none` is `size_t(-1)`. -/
def encryptAt (plaintext : Pointer B) (plaintextLength : Nat) (random : Pointer B) (randomLength : Nat)
    (output : Pointer B) (maxOutputLength : Nat) : Prog B (Ratchet (Block 32) × Option Nat) :=
  let outputLength := ratchet.encryptOutputLength (olmRatchet crypto stack) plaintextLength
  if randomLength < ratchet.encryptRandomLength then pure ({ ratchet with lastError := .notEnoughRandom }, none)
  else if maxOutputLength < outputLength then pure ({ ratchet with lastError := .outputBufferTooSmall }, none)
  else do
    let ratchet ← ratchet.withSenderChainAt crypto stack random
    ratchet.encryptOnChainAt crypto stack plaintext plaintextLength output outputLength

omit [DecidableEq B] in
theorem withSenderChainAt_value (random : Pointer B) {randomLength : Nat}
    (enough : ratchet.encryptRandomLength ≤ randomLength) (memory : Memory B) :
    (ratchet.withSenderChainAt crypto stack random memory).value =
      ratchet.withSenderChain (olmRatchet crypto stack) (memory.read random randomLength) := by
  unfold withSenderChainAt withSenderChain
  unfold encryptRandomLength at enough
  split
  · rename_i empty
    rw [if_pos empty] at enough
    rw [← Block.load_take_self 32 (memory.read random randomLength), Memory.take_read _ _ enough]
    rfl
  · rfl

theorem withSenderChainAt_lays (random : Pointer B) (memory : Memory B) (p : Pointer B) :
    (ratchet.withSenderChainAt crypto stack random).Lays memory p [] := by
  unfold withSenderChainAt
  split
  · exact (lays_loadBytes random 32 memory p).then_pure _
  · exact lays_pure ratchet memory p

variable {crypto stack ratchet}

/-- The header with the key in it, and the ciphertext and the MAC behind it. -/
theorem encryptOnChainAt_tiles {plaintext output : Pointer B} (text : Bytes) {outputLength : Nat}
    (room : (ratchet.messageParts crypto stack text).flatten.length = outputLength)
    (apart : Memory.Apart plaintext text.length output outputLength) {memory : Memory B}
    (holds : memory.read plaintext text.length = text) :
    let encrypted := ratchet.encryptOnChainAt crypto stack plaintext text.length output outputLength
    (encrypted memory).value = (ratchet.advanceSender (olmRatchet crypto stack), some outputLength) ∧
      encrypted.Tiles memory output outputLength (ratchet.messageParts crypto stack text) := by
  obtain ⟨keys, hkeys⟩ :
    ∃ keys, createMessageKeys (olmRatchet crypto stack) ratchet.sender.chainKey = keys := ⟨_, rfl⟩
  obtain ⟨publicKey, hpublicKey⟩ : ∃ key, ratchet.sender.ratchetKey.publicKey.val = key := ⟨_, rfl⟩
  have key_length : publicKey.length = 32 := by rw [← hpublicKey, Block.length_val]
  obtain ⟨header, hheader⟩ : ∃ header, messageHeader protocolVersion keys.index publicKey
    (Aes.encryptCbcLength text.length) = header := ⟨_, rfl⟩
  obtain ⟨body, hbody⟩ : ∃ body, sealedCiphertext crypto.kdf crypto.aes (ascii "OLM_KEYS") keys.key.val text ++
    sealedMac crypto.kdf crypto.aes (ascii "OLM_KEYS") keys.key.val text header = body := ⟨_, rfl⟩
  have parts : (ratchet.messageParts crypto stack text).flatten = header ++ body := by
    rw [messageParts, hkeys, hpublicKey, hheader, ← hbody]
    simp only [List.flatten_cons, List.flatten_nil, List.append_nil]
  have length : outputLength = header.length + Aes.encryptCbcLength text.length + cipherMacLength := by
    rw [← room, parts, ← hbody, List.length_append, List.length_append, length_sealedCiphertext, length_sealedMac,
      Nat.add_assoc]
  obtain ⟨keyPos, pieces, writer, header_lays, beside⟩ := encodeMessageAt_lays protocolVersion keys.index publicKey
    (Aes.encryptCbcLength text.length) output memory
  rw [key_length] at writer header_lays
  rw [hheader] at writer beside
  have key_lays := lays_storeBytes (encodeMessageAt protocolVersion keys.index 32 (Aes.encryptCbcLength text.length) output
    memory).memory output keyPos publicKey
  have front : (encodeMessageAt protocolVersion keys.index 32 (Aes.encryptCbcLength text.length) output >>= fun _ =>
    storeBytes (output + keyPos) publicKey).Lays memory output _ := header_lays.bind key_lays
  rw [length] at apart
  obtain ⟨-, -, cipher_lays, all⟩ := aesSha256EncryptAt_behind crypto.kdf crypto.aes (ascii "OLM_KEYS") keys.key.val
    front beside holds apart
  rw [hbody, List.append_assoc] at all
  rw [hbody, memory_bind] at cipher_lays
  have lays : (ratchet.encryptOnChainAt crypto stack plaintext text.length output outputLength).Lays memory output
      (pieces ++ ([(keyPos, publicKey)] ++ [(header.length, body)])) := by
    unfold encryptOnChainAt
    dsimp only
    rw [hkeys, hpublicKey, length]
    refine header_lays.bind ?_
    rw [writer]
    exact key_lays.bind (cipher_lays.then_pure _)
  rw [← parts] at all
  exact ⟨rfl, lays.tiles all room⟩

/-- Whatever state the ratchet is in, its header, the ciphertext and the MAC fill what was announced. -/
theorem encryptAt_tiles {plaintext output : Pointer B} (random : Pointer B)
    {plaintextLength randomLength maxOutputLength : Nat}
    (enough : ratchet.encryptRandomLength ≤ randomLength)
    (room : ratchet.encryptOutputLength (olmRatchet crypto stack) plaintextLength ≤ maxOutputLength)
    (apart : Memory.Apart plaintext plaintextLength output
      (ratchet.encryptOutputLength (olmRatchet crypto stack) plaintextLength)) (memory : Memory B) :
    let encrypted := ratchet.encryptAt crypto stack plaintext plaintextLength random randomLength output maxOutputLength
    let outputLength := ratchet.encryptOutputLength (olmRatchet crypto stack) plaintextLength
    let chained := ratchet.withSenderChain (olmRatchet crypto stack) (memory.read random randomLength)
    (encrypted memory).value = (chained.advanceSender (olmRatchet crypto stack), some outputLength) ∧
      encrypted.Tiles memory output outputLength
        (chained.messageParts crypto stack (memory.read plaintext plaintextLength)) := by
  obtain ⟨text, htext⟩ : ∃ text, memory.read plaintext plaintextLength = text := ⟨_, rfl⟩
  obtain rfl : text.length = plaintextLength := by rw [← htext, Memory.length_read]
  have announced := ratchet.length_messageParts crypto stack (memory.read random randomLength) text
  have started := ratchet.withSenderChainAt_value crypto stack random enough memory
  obtain ⟨value, tiles⟩ := encryptOnChainAt_tiles text announced apart htext
  dsimp only
  rw [htext, encryptAt, if_neg (Nat.not_lt.mpr enough), if_neg (Nat.not_lt.mpr room)]
  constructor
  · rw [value_bind, started, (ratchet.withSenderChainAt_lays crypto stack random memory output).leaves]
    exact value
  · refine (ratchet.withSenderChainAt_lays crypto stack random memory output).then_tiles ?_
    rw [started]
    exact tiles

end Ratchet

/-! ### The session -/

namespace Session

variable (crypto : Crypto) (stack : MessageReader) (session : Session (Block 32))

/-- What `encrypt` writes around the message body, and where the body goes. -/
def writeHeaderAt (bodyLength : Nat) (message : Pointer B) : Prog B (Pointer B) :=
  if session.receivedMessage then pure message
  else do
    let writer ← encodeOneTimeKeyMessageAt protocolVersion 32 32 32 bodyLength message
    storeBytes writer.oneTimeKey session.bobOneTimeKey.val
    storeBytes writer.identityKey session.aliceIdentityKey.val
    storeBytes writer.baseKey session.aliceBaseKey.val
    return writer.message

/-- `encrypt`; `none` is `size_t(-1)`. -/
def encryptAt (plaintext : Pointer B) (plaintextLength : Nat) (random : Pointer B) (randomLength : Nat)
    (message : Pointer B) (messageLength : Nat) : Prog B (Session (Block 32) × Option Nat) :=
  let ops := olmRatchet crypto stack
  if messageLength < session.encryptMessageLength ops plaintextLength then
    pure ({ session with lastError := .outputBufferTooSmall }, none)
  else do
    let bodyLength := session.ratchet.encryptOutputLength ops plaintextLength
    let messageBody ← session.writeHeaderAt bodyLength message
    match ← session.ratchet.encryptAt crypto stack plaintext plaintextLength random randomLength messageBody
      bodyLength with
    | (ratchet, none) => return (session.takeError ratchet, none)
    | (ratchet, some length) => return ({ session with ratchet }, some length)

/-- `olm_encrypt`, which erases the random bytes. -/
def olmEncryptAt (plaintext : Pointer B) (plaintextLength : Nat) (random : Pointer B) (randomLength : Nat)
    (message : Pointer B) (messageLength : Nat) : Prog B (Session (Block 32) × Option Nat) :=
  let rawLength := session.encryptMessageLength (olmRatchet crypto stack) plaintextLength
  if messageLength < encodeBase64Length rawLength then
    pure ({ session with lastError := .outputBufferTooSmall }, none)
  else do
    let messagePos := message + encodeBase64Length rawLength - rawLength
    let (session, result) ← session.encryptAt crypto stack plaintext plaintextLength random randomLength messagePos
      rawLength
    storeBytes random (List.replicate randomLength 0)
    if result.isSome then
      let _ ← encodeBase64At messagePos rawLength message
      return (session, some (encodeBase64Length rawLength))
    else return (session, none)

theorem writeHeaderAt_lays (bodyLength : Nat) (message : Pointer B) (memory : Memory B) :
    ∃ pieces, (session.writeHeaderAt bodyLength message memory).value =
        message + (session.outerHeader bodyLength).length ∧
      (session.writeHeaderAt bodyLength message).Lays memory message pieces ∧
      SideBySide 0 pieces (session.outerHeader bodyLength) := by
  unfold writeHeaderAt outerHeader
  cases received : session.receivedMessage with
  | true => exact ⟨[], (Pointer.add_zero message).symm, lays_pure .., ⟨[], rfl, List.Perm.refl _⟩⟩
  | false =>
    obtain ⟨oneTimePos, identityPos, basePos, pieces, writer, lays, beside⟩ := encodeOneTimeKeyMessageAt_lays
      protocolVersion session.aliceIdentityKey.val session.aliceBaseKey.val session.bobOneTimeKey.val bodyLength
      message memory
    rw [Block.length_val, Block.length_val, Block.length_val] at writer lays
    simp only [Bool.false_eq_true, if_false]
    refine ⟨_, ?_, ?_, beside⟩
    · simp only [value_bind, run_pure, writer]
    · refine lays.bind ?_
      rw [writer]
      refine (lays_storeBytes _ message oneTimePos _).bind ((lays_storeBytes _ message identityPos _).bind ?_)
      exact (lays_storeBytes _ message basePos _).then_pure _

variable {crypto stack session}

/-- Whatever state the session is in, both headers, the ciphertext and the MAC fill what was announced. -/
theorem encryptAt_tiles {plaintext random message : Pointer B} {plaintextLength randomLength messageLength : Nat}
    (enough : session.encryptRandomLength ≤ randomLength)
    (room : session.encryptMessageLength (olmRatchet crypto stack) plaintextLength ≤ messageLength)
    (apart : Memory.Apart plaintext plaintextLength message
      (session.encryptMessageLength (olmRatchet crypto stack) plaintextLength))
    (random_apart : Memory.Apart random randomLength message
      (session.encryptMessageLength (olmRatchet crypto stack) plaintextLength)) (memory : Memory B) :
    let encrypted := session.encryptAt crypto stack plaintext plaintextLength random randomLength message messageLength
    let bodyLength := session.ratchet.encryptOutputLength (olmRatchet crypto stack) plaintextLength
    (encrypted memory).value = (session.sent crypto stack (memory.read random randomLength), some bodyLength) ∧
      encrypted.Tiles memory message (session.encryptMessageLength (olmRatchet crypto stack) plaintextLength)
        (session.messageParts crypto stack (memory.read random randomLength)
          (memory.read plaintext plaintextLength)) := by
  obtain ⟨text, htext⟩ : ∃ text, memory.read plaintext plaintextLength = text := ⟨_, rfl⟩
  obtain rfl : text.length = plaintextLength := by rw [← htext, Memory.length_read]
  obtain ⟨bodyLength, hbodyLength⟩ :
    ∃ n, session.ratchet.encryptOutputLength (olmRatchet crypto stack) text.length = n := ⟨_, rfl⟩
  have whole : session.encryptMessageLength (olmRatchet crypto stack) text.length =
      (session.outerHeader bodyLength).length + bodyLength := by
    rw [encryptMessageLength_eq, hbodyLength]
  have announced := session.length_messageParts crypto stack (memory.read random randomLength) text
  have body_announced := session.ratchet.length_messageParts crypto stack (memory.read random randomLength) text
  obtain ⟨pieces, body, header_lays, beside⟩ := session.writeHeaderAt_lays bodyLength message memory
  obtain ⟨after, hafter⟩ : ∃ after, (session.writeHeaderAt bodyLength message memory).memory = after := ⟨_, rfl⟩
  -- the header is in the buffer of the message, so the text and the random bytes are as they were
  have filled : after = memory.write message (session.outerHeader bodyLength) := by
    rw [← hafter, header_lays.fills beside]
  have same_text : after.read plaintext text.length = text := by
    rw [filled, Memory.read_write_apart _ (apart.front (by omega)).symm, htext]
  have same_random : after.read random randomLength = memory.read random randomLength := by
    rw [filled, Memory.read_write_apart _ (random_apart.front (by omega)).symm]
  obtain ⟨value, tiles⟩ := Ratchet.encryptAt_tiles random enough (Nat.le_of_eq hbodyLength)
    (apart.behind (k := (session.outerHeader bodyLength).length) (by omega)) after
  dsimp only at value tiles ⊢
  rw [hbodyLength, same_text, same_random] at tiles
  rw [hbodyLength, same_random] at value
  rw [hbodyLength] at body_announced ⊢
  rw [htext, encryptAt, if_neg (Nat.not_lt.mpr room), hbodyLength]
  constructor
  · rw [value_bind, value_bind, hafter, body, value]
    rfl
  · have parts : (session.messageParts crypto stack (memory.read random randomLength) text).flatten =
        session.outerHeader bodyLength ++ ((session.ratchet.withSenderChain (olmRatchet crypto stack)
          (memory.read random randomLength)).messageParts crypto stack text).flatten := by
      rw [messageParts, List.flatten_cons, body_announced]
    have behind := beside.append (sideBySide_one _ ((session.ratchet.withSenderChain (olmRatchet crypto stack)
      (memory.read random randomLength)).messageParts crypto stack text).flatten)
    rw [Nat.zero_add, ← parts] at behind
    refine Lays.tiles (header_lays.bind ?_) behind announced
    rw [body, hafter]
    refine tiles.lays.bind ?_
    rw [value]
    exact lays_pure ..

/-- Nothing is left of the raw message and of the random bytes, and the text of the message fills what was announced. -/
theorem olmEncryptAt_fills {plaintext random message : Pointer B} {plaintextLength randomLength messageLength : Nat}
    (enough : session.encryptRandomLength ≤ randomLength)
    (room : session.olmEncryptMessageLength crypto stack plaintextLength ≤ messageLength)
    (apart : Memory.Apart plaintext plaintextLength message
      (session.olmEncryptMessageLength crypto stack plaintextLength))
    (random_apart : Memory.Apart random randomLength message
      (session.olmEncryptMessageLength crypto stack plaintextLength)) (memory : Memory B) :
    let encrypted := session.olmEncryptAt crypto stack plaintext plaintextLength random randomLength message
      messageLength memory
    let announced := session.olmEncryptMessageLength crypto stack plaintextLength
    encrypted.value = (session.sent crypto stack (memory.read random randomLength), some announced) ∧
      encrypted.memory = (memory.write random (List.replicate randomLength 0)).write message
        (encodeBase64 (session.messageParts crypto stack (memory.read random randomLength)
          (memory.read plaintext plaintextLength)).flatten) ∧
      ∀ place, ⟨.write, place⟩ ∈ encrypted.accesses ↔
        (∃ i < announced, place = message + i) ∨ ∃ i < randomLength, place = random + i := by
  obtain ⟨raw, hraw⟩ : ∃ raw, (session.messageParts crypto stack (memory.read random randomLength)
    (memory.read plaintext plaintextLength)).flatten = raw := ⟨_, rfl⟩
  obtain ⟨rawLength, hrawLength⟩ :
    ∃ n, session.encryptMessageLength (olmRatchet crypto stack) plaintextLength = n := ⟨_, rfl⟩
  obtain ⟨pos, hpos⟩ : ∃ pos, message + encodeBase64Length rawLength - rawLength = pos := ⟨_, rfl⟩
  unfold olmEncryptMessageLength at room apart random_apart ⊢
  rw [hrawLength] at room apart random_apart ⊢
  have raw_apart := apart_raw apart
  have raw_random_apart := apart_raw random_apart
  rw [hpos, ← hrawLength] at raw_apart raw_random_apart
  obtain ⟨value, fits, left, writes⟩ := encryptAt_tiles enough (Nat.le_of_eq hrawLength) raw_apart raw_random_apart
    memory
  rw [hrawLength] at fits writes raw_random_apart
  rw [hraw] at fits left ⊢
  -- the random bytes are erased before the message is encoded, and are somewhere else
  have erased : (memory.write pos raw).write random (List.replicate randomLength 0) =
      (memory.write random (List.replicate randomLength 0)).write pos raw := by
    apply Memory.write_comm
    rw [fits, List.length_replicate]
    exact raw_random_apart.symm
  have encoded := encodeBase64At_end message raw (memory.write random (List.replicate randomLength 0))
  rw [fits, hpos] at encoded
  dsimp only
  rw [olmEncryptAt, hrawLength, if_neg (Nat.not_lt.mpr room), hpos]
  refine ⟨?value, ?left, fun place => ?writes⟩
  case value =>
    rw [value_bind, value]
    rfl
  case left =>
    rw [memory_bind, value, left]
    show (encodeBase64At pos rawLength message ((memory.write pos raw).write random _)).memory = _
    rw [erased, encoded]
  case writes =>
    have inside := raw_inside message rawLength place
    rw [hpos] at inside
    rw [mem_accesses_bind, writes place, value]
    show _ ∨ ⟨.write, place⟩ ∈ ((storeBytes random (List.replicate randomLength 0) >>= fun _ =>
      encodeBase64At pos rawLength message >>= fun _ => pure _) _).accesses ↔ _
    rw [mem_accesses_bind, mem_accesses_bind, storeBytes_writes random _ _ place, List.length_replicate,
      encodeBase64At_writes pos message rawLength _ place]
    simp only [run_pure, List.not_mem_nil, or_false]
    constructor
    · rintro (raw | erased | text)
      · exact .inl (inside raw)
      · exact .inr erased
      · exact .inl text
    · rintro (text | erased)
      · exact .inr (.inr text)
      · exact .inr (.inl erased)

/-- Over pointers and over byte strings it is the same function. -/
theorem olmEncryptAt_refines {plaintext random message : Pointer B}
    {plaintextLength randomLength messageLength : Nat} (enough : session.encryptRandomLength ≤ randomLength)
    (room : session.olmEncryptMessageLength crypto stack plaintextLength ≤ messageLength)
    (apart : Memory.Apart plaintext plaintextLength message
      (session.olmEncryptMessageLength crypto stack plaintextLength))
    (random_apart : Memory.Apart random randomLength message
      (session.olmEncryptMessageLength crypto stack plaintextLength)) (memory : Memory B) :
    let encrypted := session.olmEncryptAt crypto stack plaintext plaintextLength random randomLength message
      messageLength memory
    let result := session.olmEncrypt (olmRatchet crypto stack) (memory.read plaintext plaintextLength)
      (memory.read random randomLength) (memory.read message messageLength)
    encrypted.value = (result.1, result.2.map List.length) ∧
      result.2 = some (encrypted.memory.read message
        (session.olmEncryptMessageLength crypto stack plaintextLength)) := by
  obtain ⟨value, left, -⟩ := olmEncryptAt_fills enough room apart random_apart memory
  have length := session.length_text crypto stack (memory.read random randomLength)
    (memory.read plaintext plaintextLength)
  have same : session.olmEncrypt (olmRatchet crypto stack) (memory.read plaintext plaintextLength)
      (memory.read random randomLength) (memory.read message messageLength) = _ :=
    olmEncrypt_eq_messageParts (by rwa [Memory.length_read]) (by rwa [Memory.length_read, Memory.length_read])
  rw [Memory.length_read] at length
  dsimp only at value left ⊢
  rw [value, left, same, Memory.read_write_of_length _ _ _ length, Option.map_some, length]
  exact ⟨rfl, rfl⟩

end Session

/-- The buffers of `encrypt` in `ext_session.c`: two strings, and what `malloc` has returned. -/
inductive EncryptBuffer where
  | plain
  | random
  | ptr
  deriving DecidableEq

/-- `encrypt` of `ext_session.c`, after the checks of its argument; no result is an exception. -/
def Session.extEncryptAt (crypto : Crypto) (stack : MessageReader) (session : Session (Block 32)) (plainLength : Nat) :
    Prog EncryptBuffer (Session (Block 32) × Option Bytes) := do
  let cipherSize := session.olmEncryptMessageLength crypto stack plainLength
  let randomSize := session.encryptRandomLength
  match ← session.olmEncryptAt crypto stack (Pointer.start .plain) plainLength (Pointer.start .random) randomSize
      (Pointer.start .ptr) cipherSize with
  | (session, none) => return (session, none)
  | (session, some _) =>
    let cipher ← loadBytes (Pointer.start .ptr) cipherSize
    return (session, some cipher)

/-- It always succeeds, and what `malloc` left in the memory does not get into the string. -/
theorem Session.extEncryptAt_eq (crypto : Crypto) (stack : MessageReader) (session : Session (Block 32))
    (plainLength : Nat) (memory : Memory EncryptBuffer) :
    let random := memory.read (Pointer.start .random) session.encryptRandomLength
    (session.extEncryptAt crypto stack plainLength memory).value = (session.sent crypto stack random,
      some (encodeBase64 (session.messageParts crypto stack random
        (memory.read (Pointer.start .plain) plainLength)).flatten)) := by
  have plain_apart : Memory.Apart (Pointer.start EncryptBuffer.plain) plainLength (Pointer.start .ptr)
      (session.olmEncryptMessageLength crypto stack plainLength) := fun same => nomatch same
  have random_apart : Memory.Apart (Pointer.start EncryptBuffer.random) session.encryptRandomLength (Pointer.start .ptr)
      (session.olmEncryptMessageLength crypto stack plainLength) := fun same => nomatch same
  obtain ⟨value, left, -⟩ := olmEncryptAt_fills (Nat.le_refl _) (Nat.le_refl _) plain_apart random_apart memory
  have length := session.length_text crypto stack (memory.read (Pointer.start .random) session.encryptRandomLength)
    (memory.read (Pointer.start .plain) plainLength)
  rw [Memory.length_read] at length
  dsimp only at value left ⊢
  rw [extEncryptAt, value_bind, value]
  show (_, some (Memory.read (session.olmEncryptAt crypto stack _ _ _ _ _ _ memory).memory _ _)) = _
  rw [left, Memory.read_write_of_length _ _ _ length]

/-! ### The group session -/

namespace OutboundGroupSession

variable (crypto : Crypto) (session : OutboundGroupSession)

/-- `_encrypt`; `none` is `size_t(-1)`. -/
def encryptRawAt (plaintext : Pointer B) (plaintextLength : Nat) (buffer : Pointer B) :
    Prog B (OutboundGroupSession × Option Nat) := do
  let ciphertextLength := (megolmCipher crypto).encryptCiphertextLength plaintextLength
  let (encodedLength, ciphertext) ← encodeGroupMessageAt protocolVersion session.ratchet.counter ciphertextLength buffer
  let messageLength := encodedLength + (megolmCipher crypto).macLength
  match ← aesSha256EncryptAt crypto.kdf crypto.aes (ascii "MEGOLM_KEYS") session.ratchet.getData.val plaintext
      plaintextLength ciphertext ciphertextLength buffer messageLength with
  | none => return (session, none)
  | some result =>
    let message ← loadBytes buffer messageLength
    storeBytes (buffer + messageLength) (crypto.ed25519.sign session.signingKey message).val
    return ({ session with ratchet := Megolm.advance (megolmHash crypto) session.ratchet }, some result)

/-- `olm_group_encrypt`. -/
def encryptAt (plaintext : Pointer B) (plaintextLength : Nat) (message : Pointer B) (maxMessageLength : Nat) :
    Prog B (OutboundGroupSession × Option Nat) :=
  let rawLength := session.rawMessageLength crypto plaintextLength
  if maxMessageLength < encodeBase64Length rawLength then
    pure ({ session with lastError := .outputBufferTooSmall }, none)
  else do
    let messagePos := message + encodeBase64Length rawLength - rawLength
    match ← session.encryptRawAt crypto plaintext plaintextLength messagePos with
    | (session, none) => return (session, none)
    | (session, some _) =>
      let _ ← encodeBase64At messagePos rawLength message
      return (session, some (encodeBase64Length rawLength))

variable {crypto session}

/-- At any counter of the ratchet, the header, the ciphertext, the MAC and the signature fill what was announced. -/
theorem encryptRawAt_tiles {plaintext buffer : Pointer B} {plaintextLength : Nat}
    (apart : Memory.Apart plaintext plaintextLength buffer (session.rawMessageLength crypto plaintextLength))
    (memory : Memory B) :
    let encrypted := session.encryptRawAt crypto plaintext plaintextLength buffer
    let messageLength := session.rawMessageLength crypto plaintextLength - signatureLength
    (encrypted memory).value = (session.sent crypto, some messageLength) ∧
      encrypted.Tiles memory buffer (session.rawMessageLength crypto plaintextLength)
        (session.messageParts crypto (memory.read plaintext plaintextLength)) := by
  obtain ⟨text, htext⟩ : ∃ text, memory.read plaintext plaintextLength = text := ⟨_, rfl⟩
  obtain rfl : text.length = plaintextLength := by rw [← htext, Memory.length_read]
  have announced := session.length_messageParts crypto text
  obtain ⟨key, hkey⟩ : ∃ key, session.ratchet.getData.val = key := ⟨_, rfl⟩
  obtain ⟨header, hheader⟩ : ∃ header, groupHeader protocolVersion session.ratchet.counter
    (Aes.encryptCbcLength text.length) = header := ⟨_, rfl⟩
  obtain ⟨body, hbody⟩ : ∃ body, sealedCiphertext crypto.kdf crypto.aes (ascii "MEGOLM_KEYS") key text ++
    sealedMac crypto.kdf crypto.aes (ascii "MEGOLM_KEYS") key text header = body := ⟨_, rfl⟩
  obtain ⟨signature, hsignature⟩ :
    ∃ signature, (crypto.ed25519.sign session.signingKey (header ++ body)).val = signature := ⟨_, rfl⟩
  have body_length : body.length = Aes.encryptCbcLength text.length + cipherMacLength := by
    rw [← hbody, List.length_append, length_sealedCiphertext, length_sealedMac]
  have signature_length : signature.length = signatureLength := by rw [← hsignature, Block.length_val]; rfl
  have parts : (session.messageParts crypto text).flatten = header ++ body ++ signature := by
    rw [← hsignature, ← hbody]
    simp only [messageParts, hkey, hheader, List.flatten_cons, List.flatten_nil, List.append_nil, List.append_assoc]
  have length : header.length + Aes.encryptCbcLength text.length + cipherMacLength =
      session.rawMessageLength crypto text.length - signatureLength := by
    rw [← announced, parts, List.length_append, List.length_append, body_length, signature_length]
    omega
  have front_length : (header ++ body).length = header.length + Aes.encryptCbcLength text.length + cipherMacLength := by
    rw [List.length_append, body_length, Nat.add_assoc]
  have mac_length : (megolmCipher crypto).macLength = cipherMacLength := rfl
  obtain ⟨pieces, writer, header_lays, beside⟩ := encodeGroupMessageAt_lays protocolVersion session.ratchet.counter
    (Aes.encryptCbcLength text.length) buffer memory
  rw [hheader] at writer beside
  obtain ⟨returned, written, cipher_lays, front⟩ := aesSha256EncryptAt_behind crypto.kdf crypto.aes (ascii "MEGOLM_KEYS")
    key header_lays beside htext
    (apart.front (show header.length + Aes.encryptCbcLength text.length + cipherMacLength ≤ _ by omega))
  rw [hbody] at written cipher_lays front
  have lays : (session.encryptRawAt crypto plaintext text.length buffer).Lays memory buffer
      (pieces ++ ([(header.length, body)] ++ ([] ++ [((header ++ body).length, signature)]))) := by
    unfold encryptRawAt
    dsimp only
    refine header_lays.bind ?_
    rw [writer, hkey]
    refine cipher_lays.bind ?_
    rw [returned, written]
    dsimp only
    rw [mac_length, ← front_length]
    refine (lays_loadBytes buffer _ _ buffer).bind ?_
    rw [value_loadBytes, memory_loadBytes, Memory.read_write, hsignature]
    exact (lays_storeBytes _ buffer _ signature).then_pure _
  have all : SideBySide 0 (pieces ++ ([(header.length, body)] ++ ([] ++ [((header ++ body).length, signature)])))
      (session.messageParts crypto text).flatten := by
    have behind := front.append (sideBySide_one _ signature)
    rw [Nat.zero_add, List.append_assoc, ← parts] at behind
    exact behind
  rw [htext, ← length]
  refine ⟨?_, lays.tiles all announced⟩
  have ciphertext_length : (megolmCipher crypto).encryptCiphertextLength text.length =
      Aes.encryptCbcLength text.length := rfl
  rw [encryptRawAt, value_bind, ciphertext_length, writer, hkey, value_bind, mac_length, returned]
  rfl

theorem encryptAt_fills {plaintext message : Pointer B} {plaintextLength maxMessageLength : Nat}
    (room : session.encryptMessageLength crypto plaintextLength ≤ maxMessageLength)
    (apart : Memory.Apart plaintext plaintextLength message (session.encryptMessageLength crypto plaintextLength))
    (memory : Memory B) :
    let encrypted := session.encryptAt crypto plaintext plaintextLength message maxMessageLength
    let announced := session.encryptMessageLength crypto plaintextLength
    (encrypted memory).value = (session.sent crypto, some announced) ∧
      (encrypted memory).memory = memory.write message
        (encodeBase64 (session.messageParts crypto (memory.read plaintext plaintextLength)).flatten) ∧
      encrypted.Writes memory message announced := by
  obtain ⟨raw, hraw⟩ :
    ∃ raw, (session.messageParts crypto (memory.read plaintext plaintextLength)).flatten = raw := ⟨_, rfl⟩
  obtain ⟨rawLength, hrawLength⟩ : ∃ n, session.rawMessageLength crypto plaintextLength = n := ⟨_, rfl⟩
  obtain ⟨pos, hpos⟩ : ∃ pos, message + encodeBase64Length rawLength - rawLength = pos := ⟨_, rfl⟩
  unfold encryptMessageLength at room apart ⊢
  rw [hrawLength] at room apart ⊢
  have raw_apart := apart_raw apart
  rw [hpos, ← hrawLength] at raw_apart
  obtain ⟨value, fits, left, writes⟩ := encryptRawAt_tiles raw_apart memory
  rw [hrawLength] at fits writes
  rw [hraw] at fits left ⊢
  have encoded := encodeBase64At_end message raw memory
  rw [fits, hpos] at encoded
  dsimp only
  rw [encryptAt, hrawLength, if_neg (Nat.not_lt.mpr room), hpos]
  refine ⟨?value, ?left, fun place => ?writes⟩
  case value =>
    rw [value_bind, value]
    rfl
  case left =>
    rw [memory_bind, value, left]
    exact encoded
  case writes =>
    have inside := raw_inside message rawLength place
    rw [hpos] at inside
    rw [mem_accesses_bind, writes place, value]
    show _ ∨ ⟨.write, place⟩ ∈ ((encodeBase64At pos rawLength message >>= fun _ => pure _) _).accesses ↔ _
    rw [mem_accesses_bind, encodeBase64At_writes pos message rawLength _ place]
    simp only [run_pure, List.not_mem_nil, or_false]
    exact ⟨fun either => either.elim inside id, .inr⟩

/-- Over pointers and over byte strings it is the same function. -/
theorem encryptAt_refines {plaintext message : Pointer B} {plaintextLength maxMessageLength : Nat}
    (room : session.encryptMessageLength crypto plaintextLength ≤ maxMessageLength)
    (apart : Memory.Apart plaintext plaintextLength message (session.encryptMessageLength crypto plaintextLength))
    (memory : Memory B) :
    let encrypted := session.encryptAt crypto plaintext plaintextLength message maxMessageLength memory
    let result := session.encrypt crypto (memory.read plaintext plaintextLength) (memory.read message maxMessageLength)
    encrypted.value = (result.1, result.2.map List.length) ∧
      result.2 = some (encrypted.memory.read message (session.encryptMessageLength crypto plaintextLength)) := by
  obtain ⟨value, left, -⟩ := encryptAt_fills room apart memory
  have length := session.length_text crypto (memory.read plaintext plaintextLength)
  have same : session.encrypt crypto (memory.read plaintext plaintextLength)
      (memory.read message maxMessageLength) = _ :=
    encrypt_eq_messageParts (by rwa [Memory.length_read, Memory.length_read])
  rw [Memory.length_read] at length
  dsimp only at value left ⊢
  rw [value, left, same, Memory.read_write_of_length _ _ _ length, Option.map_some, length]
  exact ⟨rfl, rfl⟩

end OutboundGroupSession

/-! ### What was announced -/

/-- A session in any state, with enough random, and a group session at any counter fill what they have announced: the
parts of the raw message lie side by side at the end of the room, and then the text takes all of it. Nothing else is
written, but for the random bytes, which are erased. -/
theorem encryption_fills_announced (crypto : Crypto) (memory : Memory B) (plaintext : Pointer B) (plaintextLength : Nat)
    (message : Pointer B) (messageLength : Nat) :
    (∀ (stack : MessageReader) (session : Session (Block 32)) (random : Pointer B) (randomLength : Nat),
      let rawLength := session.encryptMessageLength (olmRatchet crypto stack) plaintextLength
      let announced := session.olmEncryptMessageLength crypto stack plaintextLength
      let messagePos := message + announced - rawLength
      let randomBytes := memory.read random randomLength
      let parts := session.messageParts crypto stack randomBytes (memory.read plaintext plaintextLength)
      let raw := session.encryptAt crypto stack plaintext plaintextLength random randomLength messagePos rawLength
      let encrypted := session.olmEncryptAt crypto stack plaintext plaintextLength random randomLength message
        messageLength
      session.encryptRandomLength ≤ randomLength → announced ≤ messageLength →
      Memory.Apart plaintext plaintextLength message announced → Memory.Apart random randomLength message announced →
      raw.Tiles memory messagePos rawLength parts ∧
        (encrypted memory).value = (session.sent crypto stack randomBytes, some announced) ∧
        (encrypted memory).memory =
          (memory.write random (List.replicate randomLength 0)).write message (encodeBase64 parts.flatten) ∧
        ∀ place, ⟨.write, place⟩ ∈ (encrypted memory).accesses ↔
          (∃ i < announced, place = message + i) ∨ ∃ i < randomLength, place = random + i) ∧
    ∀ session : OutboundGroupSession,
      let rawLength := session.rawMessageLength crypto plaintextLength
      let announced := session.encryptMessageLength crypto plaintextLength
      let messagePos := message + announced - rawLength
      let parts := session.messageParts crypto (memory.read plaintext plaintextLength)
      let raw := session.encryptRawAt crypto plaintext plaintextLength messagePos
      let encrypted := session.encryptAt crypto plaintext plaintextLength message messageLength
      announced ≤ messageLength → Memory.Apart plaintext plaintextLength message announced →
      raw.Tiles memory messagePos rawLength parts ∧
        (encrypted memory).value = (session.sent crypto, some announced) ∧
        (encrypted memory).memory = memory.write message (encodeBase64 parts.flatten) ∧
        encrypted.Writes memory message announced := by
  constructor
  · intro stack session random randomLength rawLength announced messagePos randomBytes parts raw encrypted enough room
      apart random_apart
    have tiles := (Session.encryptAt_tiles enough (Nat.le_refl rawLength) (apart_raw apart) (apart_raw random_apart)
      memory).2
    exact ⟨tiles, Session.olmEncryptAt_fills enough room apart random_apart memory⟩
  · intro session rawLength announced messagePos parts raw encrypted room apart
    have tiles := (OutboundGroupSession.encryptRawAt_tiles (apart_raw apart) memory).2
    exact ⟨tiles, OutboundGroupSession.encryptAt_fills room apart memory⟩

/-- Three bytes, in a first message and to a group. -/
theorem encryption_fills_announced_three :
    let session := { Session.clearSession with receivedMessage := false }
    let memory : Memory Nat := fun _ => 97
    (session.olmEncryptAt Crypto.plain ⟨0, ⟨0, false⟩, none, none⟩ (Pointer.start 0) 3 (Pointer.start 1) 32
        (Pointer.start 2) 224 memory).value.2 = some 224 ∧
      (zeroOutbound.encryptAt Crypto.plain (Pointer.start 0) 3 (Pointer.start 2) 124 memory).value.2 = some 124 := by
  have fills := encryption_fills_announced Crypto.plain (fun _ => 97) (Pointer.start 0) 3 (Pointer.start 2)
  have first := ((fills 224).1 ⟨0, ⟨0, false⟩, none, none⟩ { Session.clearSession with receivedMessage := false }
    (Pointer.start 1) 32 (Nat.le_refl 32) (Nat.le_refl 224) (fun same => nomatch same) (fun same => nomatch same)).2.1
  have second := ((fills 124).2 zeroOutbound (Nat.le_refl 124) (fun same => nomatch same)).2.1
  exact ⟨congrArg Prod.snd first, congrArg Prod.snd second⟩

end RubyOlm
