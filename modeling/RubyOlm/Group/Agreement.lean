import RubyOlm.Group.Cache
import RubyOlm.Group.Encryption

/-!
# Agreement of a group session

What an outbound session encrypts, every inbound session made from one of its keys decrypts from
that key's index on, whatever was delivered to it before.
-/

namespace RubyOlm

/-! ### One message -/

/-- A message as `olm_group_encrypt` makes it with the given ratchet. -/
structure Genuine (crypto : Crypto) (signingKey : Ed25519KeyPair) (ratchet : Megolm (Block 32))
    (plaintext message : Bytes) : Prop where
  layout : ∃ ciphertext mac,
    message = encodeBase64 (groupHeader protocolVersion ratchet.counter ciphertext.length ++ ciphertext ++ mac ++
      (crypto.ed25519.sign signingKey
        (groupHeader protocolVersion ratchet.counter ciphertext.length ++ ciphertext ++ mac)).val) ∧
    ciphertext.length = (megolmCipher crypto).encryptCiphertextLength plaintext.length ∧
    ciphertext.length < 2 ^ 64 ∧ mac.length = (megolmCipher crypto).macLength ∧
    ∀ maxPlaintextLength, ciphertext.length ≤ maxPlaintextLength →
      (megolmCipher crypto).decrypt ratchet
        (groupHeader protocolVersion ratchet.counter ciphertext.length ++ ciphertext ++ mac) ciphertext
        maxPlaintextLength = some plaintext

namespace OutboundGroupSession

variable {crypto : Crypto}

theorem genuine_messageParts (perm : crypto.aes.Permutation) (session : OutboundGroupSession) (plaintext : Bytes)
    (short : session.rawMessageLength crypto plaintext.length < 2 ^ 64) :
    Genuine crypto session.signingKey session.ratchet plaintext
      (encodeBase64 (session.messageParts crypto plaintext).flatten) := by
  have announced := session.length_messageParts crypto plaintext
  obtain ⟨header, hheader⟩ :
    ∃ header, groupHeader protocolVersion session.ratchet.counter (Aes.encryptCbcLength plaintext.length) = header :=
      ⟨_, rfl⟩
  have opens (maxPlaintextLength : Nat) (fits : Aes.encryptCbcLength plaintext.length ≤ maxPlaintextLength) :=
    aesSha256_decrypt crypto.kdf (ascii "MEGOLM_KEYS") session.ratchet.getData.val plaintext header perm fits
  have ct_length := length_sealedCiphertext crypto.kdf crypto.aes (ascii "MEGOLM_KEYS") session.ratchet.getData.val
    plaintext
  have mac_length := length_sealedMac crypto.kdf crypto.aes (ascii "MEGOLM_KEYS") session.ratchet.getData.val
    plaintext header
  simp only [messageParts, hheader] at announced ⊢
  generalize sealedMac crypto.kdf crypto.aes (ascii "MEGOLM_KEYS") session.ratchet.getData.val plaintext header = mac
    at announced opens mac_length ⊢
  generalize sealedCiphertext crypto.kdf crypto.aes (ascii "MEGOLM_KEYS") session.ratchet.getData.val plaintext =
    ciphertext at announced opens ct_length ⊢
  simp only [List.flatten_cons, List.flatten_nil, List.append_nil, List.length_append] at announced ⊢
  refine ⟨ciphertext, mac, ?_, ct_length, by omega, mac_length, fun maxPlaintextLength fits => ?_⟩
  · simp only [ct_length, hheader, List.append_assoc]
  · rw [ct_length] at fits ⊢
    rw [hheader]
    exact opens maxPlaintextLength fits

theorem encrypt_eq (perm : crypto.aes.Permutation) (session : OutboundGroupSession) (plaintext : Bytes)
    (buffer : Buffer) :
    (session.encrypt crypto plaintext buffer.val =
        ({ session with lastError := .outputBufferTooSmall }, none)) ∨
      ∃ message, session.encrypt crypto plaintext buffer.val =
          ({ session with ratchet := Megolm.advance (megolmHash crypto) session.ratchet }, some message) ∧
        Genuine crypto session.signingKey session.ratchet plaintext message := by
  by_cases small : buffer.val.length < encodeBase64Length (session.rawMessageLength crypto plaintext.length)
  · left
    unfold encrypt
    exact if_pos small
  · right
    have fits := le_encodeBase64Length (session.rawMessageLength crypto plaintext.length)
    have bound := buffer.property
    exact ⟨_, encrypt_eq_messageParts (Nat.not_lt.mp small), genuine_messageParts perm session plaintext (by omega)⟩

end OutboundGroupSession

theorem Genuine.parsed {crypto : Crypto} (complete : crypto.ed25519.Complete) {seed : Block 32}
    {ratchet : Megolm (Block 32)} {plaintext message : Bytes}
    (genuine : Genuine crypto (crypto.ed25519.createKeypair seed) ratchet plaintext message) :
    ∃ raw span,
      decodeBase64Length message.length = some raw.length ∧ decodeBase64 message = raw ∧
      (∀ stack, decodeGroupMessage stack raw (megolmCipher crypto).macLength signatureLength =
        ⟨protocolVersion, ratchet.counter, true, some span⟩) ∧
      crypto.ed25519.verify (Block.load 64 (raw.drop (raw.length - signatureLength)))
        (raw.take (raw.length - signatureLength)) (crypto.ed25519.createKeypair seed).publicKey = true ∧
      span.length = (megolmCipher crypto).encryptCiphertextLength plaintext.length ∧
      ∀ maxPlaintextLength, span.length ≤ maxPlaintextLength →
        (megolmCipher crypto).decrypt ratchet (raw.take (raw.length - signatureLength)) (span.read raw)
          maxPlaintextLength = some plaintext := by
  obtain ⟨ciphertext, mac, encoded, ct_length, short, mac_length, opens⟩ := genuine.layout
  obtain ⟨header, hheader⟩ :
    ∃ header, groupHeader protocolVersion ratchet.counter ciphertext.length = header := ⟨_, rfl⟩
  rw [hheader] at encoded opens
  obtain ⟨signature, hsignature⟩ : ∃ signature, crypto.ed25519.sign (crypto.ed25519.createKeypair seed)
    (header ++ ciphertext ++ mac) = signature := ⟨_, rfl⟩
  rw [hsignature] at encoded
  have front : (header ++ ciphertext ++ mac ++ signature.val).length - signatureLength =
      (header ++ ciphertext ++ mac).length := by
    rw [List.length_append, Block.length_val, signatureLength, Nat.add_sub_cancel]
  refine ⟨header ++ ciphertext ++ mac ++ signature.val, ⟨header.length, ciphertext.length⟩, ?_, ?_, ?_, ?_,
    ct_length, ?_⟩
  · rw [encoded, length_encodeBase64, decodeBase64Length_encode]
  · rw [encoded, decode_encodeBase64]
  · intro stack
    have trailer : (mac ++ signature.val).length = (megolmCipher crypto).macLength + signatureLength := by
      rw [List.length_append, mac_length, Block.length_val, signatureLength]
    have short_trailer : (mac ++ signature.val).length < 2 ^ 64 := by
      rw [trailer, signatureLength]
      show cipherMacLength + 64 < 2 ^ 64
      decide
    have decoded := decodeGroupMessage_eq stack protocolVersion ratchet.counter ciphertext _ trailer short_trailer short
    rw [hheader, ← List.append_assoc] at decoded
    exact decoded
  · rw [front, List.drop_left, List.take_left, Block.load_val, ← hsignature]
    exact complete seed _
  · intro maxPlaintextLength fits
    have read : (header ++ ciphertext ++ mac ++ signature.val).drop header.length =
        ciphertext ++ (mac ++ signature.val) := by
      rw [List.append_assoc, List.append_assoc, List.drop_left]
    rw [front, List.take_left, Span.read_of_drop read]
    exact opens maxPlaintextLength fits

namespace InboundGroupSession

variable {crypto : Crypto}

section Genuine

variable {session : InboundGroupSession} {seed : Block 32} {ratchet : Megolm (Block 32)}
  {plaintext message : Bytes} (complete : crypto.ed25519.Complete)
  (genuine : Genuine crypto (crypto.ed25519.createKeypair seed) ratchet plaintext message)
  (signingKey : session.signingKey = (crypto.ed25519.createKeypair seed).publicKey)
  (stack : GroupMessageResults)

include complete genuine signingKey

theorem lookup_genuine (maxPlaintextLength : Nat) :
    (Call.decrypt stack message maxPlaintextLength).lookup crypto session =
      if maxPlaintextLength < (megolmCipher crypto).encryptCiphertextLength plaintext.length then none
      else some ratchet.counter := by
  obtain ⟨raw, span, length, raw_eq, decoded, verified, span_length, -⟩ := genuine.parsed complete
  simp only [Call.lookup, length, raw_eq, decoded, signingKey, verified, span_length]
  rfl

/-- With room for the plaintext, only the ratchet lookup decides what becomes of a genuine message. -/
theorem decrypt_genuine {maxPlaintextLength : Nat} (room :
      (megolmCipher crypto).encryptCiphertextLength plaintext.length ≤ maxPlaintextLength) :
    (∀ after, session.getMegolm crypto ratchet.counter = (after, some ratchet) →
      session.decrypt crypto stack message maxPlaintextLength =
        ⟨{ after with signingKeyVerified := true }, some ratchet.counter, some plaintext⟩) ∧
    ∀ after, session.getMegolm crypto ratchet.counter = (after, none) →
      session.decrypt crypto stack message maxPlaintextLength = ⟨after, some ratchet.counter, none⟩ := by
  obtain ⟨raw, span, length, raw_eq, decoded, verified, span_length, opens⟩ := genuine.parsed complete
  have max (length : Nat) : (megolmCipher crypto).decryptMaxPlaintextLength length = length := rfl
  have fits : ¬ maxPlaintextLength < (megolmCipher crypto).encryptCiphertextLength plaintext.length := by
    omega
  have opened := opens maxPlaintextLength (by omega)
  constructor
  · intro after lookup
    simp only [decrypt, length, raw_eq, decryptRaw, decoded, signingKey, verified, span_length, max, if_neg fits,
      lookup, opened, ne_eq, not_true_eq_false, if_false]
  · intro after lookup
    simp only [decrypt, length, raw_eq, decryptRaw, decoded, signingKey, verified, span_length, max, if_neg fits,
      lookup, ne_eq, not_true_eq_false, if_false]

end Genuine

end InboundGroupSession

/-! ### The sender's run -/

namespace OutboundGroupSession

/-- `olm_group_encrypt` call after call. A call that fails sends nothing. -/
def encryptAll (crypto : Crypto) (session : OutboundGroupSession) :
    (calls : List (Bytes × Buffer)) → OutboundGroupSession × List Sent
  | [] => (session, [])
  | (plaintext, buffer) :: calls =>
    match session.encrypt crypto plaintext buffer.val with
    | (session, none) => session.encryptAll crypto calls
    | (session, some message) =>
      let (session, sent) := session.encryptAll crypto calls
      (session, ⟨plaintext, message⟩ :: sent)

variable {crypto : Crypto}

theorem length_encryptAll_single (session : OutboundGroupSession) {plaintext : Bytes} {buffer : Buffer}
    (room : session.encryptMessageLength crypto plaintext.length ≤ buffer.val.length) :
    (session.encryptAll crypto [(plaintext, buffer)]).2.length = 1 := by
  rw [encryptAll, encrypt_eq_messageParts room]
  rfl

/-- The `n`-th message sent carries the ratchet advanced `n` single steps. -/
theorem encryptAll_genuine (perm : crypto.aes.Permutation) (session : OutboundGroupSession)
    (calls : List (Bytes × Buffer)) :
    (session.encryptAll crypto calls).1.signingKey = session.signingKey ∧
    (session.encryptAll crypto calls).1.ratchet =
      (Megolm.advance (megolmHash crypto))^[(session.encryptAll crypto calls).2.length] session.ratchet ∧
    ∀ n sent, (session.encryptAll crypto calls).2[n]? = some sent →
      Genuine crypto session.signingKey ((Megolm.advance (megolmHash crypto))^[n] session.ratchet)
        sent.plaintext sent.message := by
  induction calls generalizing session with
  | nil => exact ⟨rfl, rfl, fun n sent found => by cases n <;> cases found⟩
  | cons call calls ih =>
    obtain ⟨plaintext, buffer⟩ := call
    rw [encryptAll]
    rcases encrypt_eq perm session plaintext buffer with failed | ⟨message, sent_message, genuine⟩
    · rw [failed]
      exact ih { session with lastError := .outputBufferTooSmall }
    · rw [sent_message]
      obtain ⟨signingKey, ratchet, later⟩ :=
        ih { session with ratchet := Megolm.advance (megolmHash crypto) session.ratchet }
      refine ⟨signingKey, ratchet, fun n sent found => ?_⟩
      cases n with
      | zero =>
        obtain rfl : _ = sent := Option.some.inj found
        exact genuine
      | succ n => exact later n sent found

end OutboundGroupSession

/-! ### The receiver's run -/

namespace InboundGroupSession

/-- The states that deliveries of sent messages lead to, in any order and any number of times. -/
inductive Delivered (crypto : Crypto) (sent : List Sent) (start : InboundGroupSession) :
    InboundGroupSession → Prop where
  | start : Delivered crypto sent start start
  | deliver {session : InboundGroupSession} {one : Sent} (stack : GroupMessageResults)
      (maxPlaintextLength : Nat) :
      Delivered crypto sent start session → one ∈ sent →
      Delivered crypto sent start (session.decrypt crypto stack one.message maxPlaintextLength).session

/-- The receiver's invariant while all indices stay in the lower half of the range. -/
structure InStep (crypto : Crypto) (start session : InboundGroupSession) : Prop where
  cached : Cached crypto start session
  signingKey : session.signingKey = start.signingKey
  low : session.latestRatchet.counter.toNat < 2 ^ 31

variable {crypto : Crypto}

variable (crypto) in
theorem getMegolm_fields (session : InboundGroupSession) (messageIndex : UInt32) :
    (session.getMegolm crypto messageIndex).1.signingKey = session.signingKey ∧
      ((session.getMegolm crypto messageIndex).1.latestRatchet = session.latestRatchet ∨
        (session.getMegolm crypto messageIndex).1.latestRatchet.counter = messageIndex) := by
  unfold getMegolm
  split
  · refine ⟨rfl, Or.inr ?_⟩
    dsimp only
    rw [Megolm.advanceTo_eq_iterate, advance_iterate_counter_sub]
  split
  · exact ⟨rfl, Or.inl rfl⟩
  · exact ⟨rfl, Or.inl rfl⟩

variable (crypto) in
theorem decrypt_signingKey (session : InboundGroupSession) (stack : GroupMessageResults) (message : Bytes)
    (maxPlaintextLength : Nat) :
    (session.decrypt crypto stack message maxPlaintextLength).session.signingKey = session.signingKey := by
  unfold decrypt
  split
  · rfl
  unfold decryptRaw
  dsimp only
  split
  · rfl
  split
  · split
    · rfl
    split
    · rfl
    have kept := (getMegolm_fields crypto session
      (decodeGroupMessage stack (decodeBase64 message) (megolmCipher crypto).macLength
        signatureLength).messageIndex).1
    split
    · rename_i lookup
      rw [lookup] at kept
      exact kept
    · rename_i lookup
      rw [lookup] at kept
      split <;> exact kept
  · rfl

theorem InStep.calm {start session : InboundGroupSession} (inStep : InStep crypto start session)
    (start_low : start.initialRatchet.counter.toNat < 2 ^ 31) {messageIndex : UInt32}
    (low : messageIndex.toNat < 2 ^ 31) : ¬ Overtakes session messageIndex := by
  rintro ⟨ahead, far⟩
  have near := UInt32.le_iff_toNat_le.mp inStep.cached.near
  have ahead := UInt32.lt_iff_toNat_lt.mp ahead
  have far := UInt32.lt_iff_toNat_lt.mp far
  rw [inStep.cached.initial] at far
  have latest_low := inStep.low
  rw [UInt32.toNat_sub, show (2 ^ 31 : UInt32).toNat = 2 ^ 31 by rfl] at near ahead far
  omega

theorem InStep.deliver {start session : InboundGroupSession} (inStep : InStep crypto start session)
    (start_low : start.initialRatchet.counter.toNat < 2 ^ 31) (complete : crypto.ed25519.Complete)
    {seed : Block 32} (signingKey : start.signingKey = (crypto.ed25519.createKeypair seed).publicKey)
    {ratchet : Megolm (Block 32)} {plaintext message : Bytes}
    (genuine : Genuine crypto (crypto.ed25519.createKeypair seed) ratchet plaintext message)
    (low : ratchet.counter.toNat < 2 ^ 31) (stack : GroupMessageResults) (maxPlaintextLength : Nat) :
    InStep crypto start (session.decrypt crypto stack message maxPlaintextLength).session := by
  have lookup := lookup_genuine complete genuine (inStep.signingKey.trans signingKey) stack maxPlaintextLength
  obtain ⟨initial, latest⟩ := (Call.decrypt stack message maxPlaintextLength).apply_ratchets
    crypto session
  rw [lookup] at initial latest
  have kept := decrypt_signingKey crypto session stack message maxPlaintextLength
  by_cases small : maxPlaintextLength < (megolmCipher crypto).encryptCiphertextLength plaintext.length
  · rw [if_pos small] at initial latest
    exact
      { cached := ⟨initial.trans inStep.cached.initial, latest ▸ inStep.cached.near,
          latest ▸ inStep.cached.latest⟩
        signingKey := kept.trans inStep.signingKey
        low := latest ▸ inStep.low }
  · rw [if_neg small] at initial latest
    have cached := getMegolm_cached inStep.cached (inStep.calm start_low low)
    refine
      { cached := ⟨initial.trans cached.initial, latest ▸ cached.near, latest ▸ cached.latest⟩
        signingKey := kept.trans inStep.signingKey
        low := ?_ }
    rw [show (session.decrypt crypto stack message maxPlaintextLength).session.latestRatchet =
      (session.getMegolm crypto ratchet.counter).1.latestRatchet from latest]
    rcases (getMegolm_fields crypto session ratchet.counter).2 with same | moved
    · rw [same]; exact inStep.low
    · rw [moved]; exact low

theorem Delivered.inStep {sent : List Sent} {start session : InboundGroupSession}
    (delivered : Delivered crypto sent start session) (loaded : start.latestRatchet = start.initialRatchet)
    (start_low : start.initialRatchet.counter.toNat < 2 ^ 31) (complete : crypto.ed25519.Complete)
    {seed : Block 32} (signingKey : start.signingKey = (crypto.ed25519.createKeypair seed).publicKey)
    (genuine : ∀ one ∈ sent, ∃ ratchet, ratchet.counter.toNat < 2 ^ 31 ∧
      Genuine crypto (crypto.ed25519.createKeypair seed) ratchet one.plaintext one.message) :
    InStep crypto start session := by
  induction delivered with
  | start =>
    refine ⟨⟨rfl, ?_, ?_⟩, rfl, loaded ▸ start_low⟩
    · rw [loaded, UInt32.sub_self]; decide
    · rw [loaded, UInt32.sub_self]; rfl
  | deliver stack max _ member ih =>
    obtain ⟨ratchet, low, one⟩ := genuine _ member
    exact ih.deliver start_low complete signingKey one low stack max

/-- A receiver in step finds the ratchet of every index it knows, and refuses every index before. -/
theorem InStep.getMegolm {start session : InboundGroupSession} (inStep : InStep crypto start session)
    (start_low : start.initialRatchet.counter.toNat < 2 ^ 31) (messageIndex : UInt32)
    (low : messageIndex.toNat < 2 ^ 31) :
    (start.initialRatchet.counter ≤ messageIndex →
      (session.getMegolm crypto messageIndex).2 =
        some ((Megolm.advance (megolmHash crypto))^[(messageIndex - start.initialRatchet.counter).toNat]
          start.initialRatchet)) ∧
    (messageIndex < start.initialRatchet.counter →
      session.getMegolm crypto messageIndex = ({ session with lastError := .unknownMessageIndex }, none)) := by
  constructor
  · intro known
    apply inStep.cached.transparent
    rw [UInt32.lt_iff_toNat_lt, UInt32.toNat_sub_of_le _ _ known]
    exact lt_of_le_of_lt (Nat.sub_le _ _) low
  · intro unknown
    have near := UInt32.le_iff_toNat_le.mp inStep.cached.near
    have unknown := UInt32.lt_iff_toNat_lt.mp unknown
    have latest_low := inStep.low
    rw [UInt32.toNat_sub, show (2 ^ 31 : UInt32).toNat = 2 ^ 31 by rfl] at near
    have behind : ¬ messageIndex - session.latestRatchet.counter < (1 : UInt32) <<< 31 := by
      rw [UInt32.lt_iff_toNat_lt, UInt32.toNat_sub, show ((1 : UInt32) <<< 31).toNat = 2 ^ 31 by rfl]
      omega
    have before : messageIndex - session.initialRatchet.counter ≥ (1 : UInt32) <<< 31 := by
      rw [inStep.cached.initial, ge_iff_le, UInt32.le_iff_toNat_le, UInt32.toNat_sub,
        show ((1 : UInt32) <<< 31).toNat = 2 ^ 31 by rfl]
      omega
    rw [InboundGroupSession.getMegolm, if_neg behind, if_pos before]

end InboundGroupSession

/-! ### The whole group session -/

open OutboundGroupSession InboundGroupSession

theorem OutboundGroupSession.init_eq {crypto : Crypto} {session outbound : OutboundGroupSession} {random : Bytes}
    (init : session.init crypto random = (outbound, some ())) :
    outbound.ratchet.counter = 0 ∧ ∃ seed, outbound.signingKey = crypto.ed25519.createKeypair seed := by
  unfold OutboundGroupSession.init at init
  split at init
  · cases init
  · cases init
    exact ⟨rfl, _, rfl⟩

theorem OutboundGroupSession.init_of_enough (crypto : Crypto) (session : OutboundGroupSession)
    (random : Bytes) (enough : initRandomLength ≤ random.length) :
    session.init crypto random = ((session.init crypto random).1, some ()) := by
  rw [OutboundGroupSession.init, if_neg (by omega)]

theorem OutboundGroupSession.sessionKey_eq {crypto : Crypto} {session session' : OutboundGroupSession}
    {keyLength : Nat} {key : Bytes} (h : session.sessionKey crypto keyLength = (session', some key)) :
    session' = session ∧ key = encodeBase64
      (sessionKeyLayout sessionKeyVersion session.ratchet session.signingKey.publicKey ++
        (crypto.ed25519.sign session.signingKey
          (sessionKeyLayout sessionKeyVersion session.ratchet session.signingKey.publicKey)).val) := by
  unfold sessionKey at h
  split at h
  · cases h
  · cases h
    exact ⟨rfl, rfl⟩

theorem OutboundGroupSession.sessionKey_of_room (crypto : Crypto) (session : OutboundGroupSession)
    {keyLength : Nat} (room : encodeBase64Length sessionKeyRawLength ≤ keyLength) :
    ∃ key, session.sessionKey crypto keyLength = (session, some key) :=
  ⟨_, if_neg (by omega)⟩

theorem encryptAll_twice {crypto : Crypto} (perm : crypto.aes.Permutation)
    (session : OutboundGroupSession) (before after : List (Bytes × Buffer)) {shared last : OutboundGroupSession}
    {early late : List Sent} (first : session.encryptAll crypto before = (shared, early))
    (second : shared.encryptAll crypto after = (last, late)) (n : Nat) (sent : Sent)
    (found : (early ++ late)[n]? = some sent) :
    Genuine crypto session.signingKey ((Megolm.advance (megolmHash crypto))^[n] session.ratchet)
      sent.plaintext sent.message := by
  have before_sent := encryptAll_genuine perm session before
  have after_sent := encryptAll_genuine perm shared after
  rw [first] at before_sent
  rw [second] at after_sent
  obtain ⟨signingKey, ratchet, before_genuine⟩ := before_sent
  obtain ⟨-, -, after_genuine⟩ := after_sent
  by_cases inside : n < early.length
  · rw [List.getElem?_append_left inside] at found
    exact before_genuine n sent found
  · rw [List.getElem?_append_right (by omega)] at found
    have genuine := after_genuine _ sent found
    dsimp only at signingKey ratchet
    rw [signingKey, ratchet, ← Function.iterate_add_apply, Nat.sub_add_cancel (by omega)] at genuine
    exact genuine

/-- One sender, one receiver. The session key is taken after the messages of `early` were sent; after
any deliveries, a message from then on is decrypted to its plaintext and index, and one from before
is refused as unknown. -/
theorem group_messages_agree {crypto : Crypto} (complete : crypto.ed25519.Complete)
    (perm : crypto.aes.Permutation) {outbound₀ outbound shared shared' last : OutboundGroupSession}
    {random sessionKey : Bytes} {before after : List (Bytes × Buffer)} {early late : List Sent}
    {keyLength : Nat} (inbound₀ : InboundGroupSession)
    (init : outbound₀.init crypto random = (outbound, some ()))
    (first : outbound.encryptAll crypto before = (shared, early))
    (key : shared.sessionKey crypto keyLength = (shared', some sessionKey))
    (second : shared'.encryptAll crypto after = (last, late)) (few : (early ++ late).length < 2 ^ 31) :
    ∃ inbound, inbound₀.init crypto sessionKey = (inbound, some ()) ∧
      ∀ session, Delivered crypto (early ++ late) inbound session →
        ∀ n sent, (early ++ late)[n]? = some sent → ∀ stack maxPlaintextLength,
          (megolmCipher crypto).encryptCiphertextLength sent.plaintext.length ≤ maxPlaintextLength →
          (early.length ≤ n →
            (session.decrypt crypto stack sent.message maxPlaintextLength).plaintext = some sent.plaintext ∧
            (session.decrypt crypto stack sent.message maxPlaintextLength).messageIndex =
              some (UInt32.ofNat n)) ∧
          (n < early.length →
            (session.decrypt crypto stack sent.message maxPlaintextLength).plaintext = none ∧
            (session.decrypt crypto stack sent.message maxPlaintextLength).session.lastError =
              .unknownMessageIndex) := by
  obtain ⟨zero, seed, signingKey⟩ := init_eq init
  obtain ⟨rfl, rfl⟩ := sessionKey_eq key
  have genuine := encryptAll_twice perm outbound before after first second
  have early_run := encryptAll_genuine perm outbound before
  rw [first] at early_run
  obtain ⟨shared_key, shared_ratchet, -⟩ := early_run
  dsimp only at shared_key shared_ratchet
  rw [signingKey] at genuine shared_key
  rw [List.length_append] at few
  have counter (n : Nat) : ((Megolm.advance (megolmHash crypto))^[n] outbound.ratchet).counter = UInt32.ofNat n := by
    rw [Megolm.iterate_counter, zero, UInt32.zero_add]
  have low (n : Nat) (lt : n < 2 ^ 31) : (UInt32.ofNat n).toNat = n :=
    UInt32.toNat_ofNat_of_lt' (lt.trans (by decide))
  have shared_counter : shared'.ratchet.counter = UInt32.ofNat early.length := by
    rw [shared_ratchet, counter]
  refine ⟨_, init_layout crypto inbound₀ shared'.ratchet shared'.signingKey.publicKey _
    (by rw [shared_key]; exact complete seed _), fun session delivered n sent found stack max room => ?_⟩
  have bound (n : Nat) (sent : Sent) (found : (early ++ late)[n]? = some sent) : n < 2 ^ 31 := by
    have inside := (List.getElem?_eq_some_iff.mp found).1
    rw [List.length_append] at inside
    omega
  have start_low : shared'.ratchet.counter.toNat < 2 ^ 31 := by
    rw [shared_counter, low _ (by omega)]
    omega
  have inStep := delivered.inStep rfl start_low complete
    (congrArg Ed25519KeyPair.publicKey shared_key) fun one member => by
    obtain ⟨m, at_m⟩ := List.mem_iff_getElem?.mp member
    refine ⟨_, ?_, genuine m one at_m⟩
    rw [counter, low m (bound m one at_m)]
    exact bound m one at_m
  have n_low := bound n sent found
  obtain ⟨known, unknown⟩ := inStep.getMegolm start_low (UInt32.ofNat n)
    (by rw [low n n_low]; exact n_low)
  dsimp only at known unknown
  rw [shared_counter, UInt32.le_iff_toNat_le, low n n_low, low _ (by omega)] at known
  rw [shared_counter, UInt32.lt_iff_toNat_lt, low n n_low, low _ (by omega)] at unknown
  obtain ⟨opened, refused⟩ := decrypt_genuine complete (genuine n sent found)
    (inStep.signingKey.trans (congrArg Ed25519KeyPair.publicKey shared_key)) stack room
  rw [counter] at opened refused
  constructor
  · intro later
    have ratchet := known later
    rw [UInt32.toNat_sub_of_le _ _ (by rw [UInt32.le_iff_toNat_le, low n n_low, low _ (by omega)]; exact later),
      low n n_low, low _ (by omega), shared_ratchet, ← Function.iterate_add_apply,
      Nat.sub_add_cancel later] at ratchet
    rw [opened _ (Prod.ext rfl ratchet)]
    exact ⟨rfl, rfl⟩
  · intro earlier
    rw [refused _ (unknown earlier)]
    exact ⟨rfl, rfl⟩

/-! ### One message on either side of the session key -/

def zeroBuffer : Buffer := ⟨List.replicate 300 0, by rw [List.length_replicate]; decide⟩

def zeroOutbound : OutboundGroupSession :=
  ⟨Megolm.init (Block.zero 128) 0, ⟨Block.zero 32, Block.zero 64⟩, .success⟩

theorem zeroBuffer_room (session : OutboundGroupSession) {plaintext : Bytes} (short : plaintext.length < 16) :
    session.encryptMessageLength Crypto.plain plaintext.length ≤ zeroBuffer.val.length := by
  have index : varintLength session.ratchet.counter.toNat ≤ 5 :=
    varintLength_le (Nat.lt_trans session.ratchet.counter.toNat_lt (by decide))
  have ciphertext : Aes.encryptCbcLength plaintext.length ≤ 16 := by
    rw [Aes.encryptCbcLength, Nat.mod_eq_of_lt short]
    omega
  have ciphertext_prefix : varintLength (Aes.encryptCbcLength plaintext.length) ≤ 1 :=
    varintLength_le (Nat.lt_of_le_of_lt ciphertext (by decide))
  have raw : session.rawMessageLength Crypto.plain plaintext.length = encodeGroupMessageLength session.ratchet.counter
      (Aes.encryptCbcLength plaintext.length) cipherMacLength signatureLength := rfl
  rw [zeroBuffer, List.length_replicate, encryptMessageLength, raw, encodeBase64Length, encodeGroupMessageLength,
    varstringLength, cipherMacLength, signatureLength]
  omega

theorem group_messages_agree_two :
    ∃ outbound shared last early late sessionKey, early.length = 1 ∧ late.length = 1 ∧
      zeroOutbound.init Crypto.plain (List.replicate 160 0) = (outbound, some ()) ∧
      outbound.encryptAll Crypto.plain [([7], zeroBuffer)] = (shared, early) ∧
      shared.sessionKey Crypto.plain 400 = (shared, some sessionKey) ∧
      shared.encryptAll Crypto.plain [([1, 2, 3], zeroBuffer)] = (last, late) ∧
      ∃ inbound, InboundGroupSession.clear.init Crypto.plain sessionKey = (inbound, some ()) ∧
        ∀ session, Delivered Crypto.plain (early ++ late) inbound session →
          ∀ n sent, (early ++ late)[n]? = some sent → ∀ stack maxPlaintextLength,
            (megolmCipher Crypto.plain).encryptCiphertextLength sent.plaintext.length ≤ maxPlaintextLength →
            (early.length ≤ n →
              (session.decrypt Crypto.plain stack sent.message maxPlaintextLength).plaintext =
                some sent.plaintext ∧
              (session.decrypt Crypto.plain stack sent.message maxPlaintextLength).messageIndex =
                some (UInt32.ofNat n)) ∧
            (n < early.length →
              (session.decrypt Crypto.plain stack sent.message maxPlaintextLength).plaintext = none ∧
              (session.decrypt Crypto.plain stack sent.message maxPlaintextLength).session.lastError =
                .unknownMessageIndex) := by
  have init := init_of_enough Crypto.plain zeroOutbound (List.replicate 160 0)
    (by rw [List.length_replicate]; decide)
  generalize (zeroOutbound.init Crypto.plain (List.replicate 160 0)).1 = outbound at init
  rcases first : outbound.encryptAll Crypto.plain [([7], zeroBuffer)] with ⟨shared, early⟩
  obtain ⟨sessionKey, key⟩ := sessionKey_of_room Crypto.plain shared
    (show encodeBase64Length sessionKeyRawLength ≤ 400 by decide)
  rcases second : shared.encryptAll Crypto.plain [([1, 2, 3], zeroBuffer)] with ⟨last, late⟩
  have early_one := length_encryptAll_single outbound (zeroBuffer_room outbound (by decide : [(7 : UInt8)].length < 16))
  have late_one := length_encryptAll_single shared (zeroBuffer_room shared (by decide : [(1 : UInt8), 2, 3].length < 16))
  rw [first] at early_one
  rw [second] at late_one
  dsimp only at early_one late_one
  have few : (early ++ late).length < 2 ^ 31 := by
    rw [List.length_append, early_one, late_one]
    decide
  exact ⟨outbound, shared, last, early, late, sessionKey, early_one, late_one, init, first, key, second,
    group_messages_agree Crypto.plain_complete Crypto.plain_permutation _ init first key second few⟩

end RubyOlm
