import RubyOlm.Session.FirstMessages

/-!
# How a session begins

A session is made from Bob's published keys and sends before it hears from him. From every one of its
messages Bob gets the session at the other end, which knows all the others for its own and decrypts those
that are not too far on.
-/

namespace RubyOlm.Session

open Exchange Ratchet

variable {crypto : Crypto} {reader : MessageReader} {secret : Bytes} {pair : Curve25519KeyPair}
  {session : Session (Block 32)}

/-! ### The two ends -/

/-- The shared secret, as the end computes it that makes the base key. -/
def openingSecret (crypto : Crypto) (account : Account) (base : Curve25519KeyPair)
    (identityKey oneTimeKey : PublicKey) : Bytes :=
  (sharedSecret crypto.curve25519 account.identityKeys.curve25519Key oneTimeKey).val ++
    (sharedSecret crypto.curve25519 base identityKey).val ++ (sharedSecret crypto.curve25519 base oneTimeKey).val

/-- What a session that was just made from `account` and two published keys holds. -/
structure Opens (crypto : Crypto) (reader : MessageReader) (account : Account) (identityKey oneTimeKey : PublicKey)
    (base pair : Curve25519KeyPair) (session : Session (Block 32)) : Prop where
  base_generated : base.Generated crypto.curve25519
  aliceIdentityKey : session.aliceIdentityKey = account.identityKeys.curve25519Key.publicKey
  aliceBaseKey : session.aliceBaseKey = base.publicKey
  bobOneTimeKey : session.bobOneTimeKey = oneTimeKey
  unanswered : Unanswered crypto reader (openingSecret crypto account base identityKey oneTimeKey) pair 0 session

theorem b64Key_encodeBase64 (key : PublicKey) : b64Key (encodeBase64 key.val) = some key := by
  have length : decodeBase64Length (encodeBase64 key.val).length = some 32 := by
    rw [length_encodeBase64, decodeBase64Length_encode, Block.length_val]
  rw [b64Key, if_pos length, decode_encodeBase64, Block.load_val]

theorem b64Input_encodeBase64 (input : Bytes) : b64Input (encodeBase64 input) = .ok input := by
  rw [b64Input, length_encodeBase64, decodeBase64Length_encode]
  simp only [decode_encodeBase64]

variable (crypto reader) in
theorem createOutboundSession_opens (memory : Session (Block 32)) (account : Account)
    (identityKey oneTimeKey : PublicKey) (random : Block 64) :
    let base := generateKey crypto.curve25519 (Block.load 32 random.val)
    let pair := generateKey crypto.curve25519 (Block.load 32 (random.val.drop 32))
    ∃ session,
      (new memory).createOutboundSession (olmRatchet crypto reader) account (encodeBase64 identityKey.val)
        (encodeBase64 oneTimeKey.val) random.val = (session, some ()) ∧
      Opens crypto reader account identityKey oneTimeKey base pair session := by
  have enough : ¬ random.val.length < newOutboundSessionRandomLength := by
    rw [Block.length_val]
    decide
  rcases made : (new memory).createOutboundSession (olmRatchet crypto reader) account (encodeBase64 identityKey.val)
    (encodeBase64 oneTimeKey.val) random.val with ⟨session, result⟩
  simp only [createOutboundSession, b64Key_encodeBase64, newOutboundSession, if_neg enough] at made
  obtain ⟨rfl, rfl⟩ := Prod.mk.inj made
  exact ⟨_, rfl, generateKey_generated _ _, rfl, rfl, rfl, rfl, represents_alice memory.ratchet _⟩

/-- The session at the other end. -/
def answering (crypto : Crypto) (reader : MessageReader) (secret : Bytes) (pair : Curve25519KeyPair)
    (memory session : Session (Block 32)) : Session (Block 32) :=
  { new memory with
    aliceIdentityKey := session.aliceIdentityKey
    aliceBaseKey := session.aliceBaseKey
    bobOneTimeKey := session.bobOneTimeKey
    ratchet := (Ratchet.new memory.ratchet).initialiseAsBob (olmRatchet crypto reader) secret pair.publicKey }

theorem answering_sameKeys (memory : Session (Block 32)) :
    SameKeys session (answering crypto reader secret pair memory session) := ⟨rfl, rfl, rfl⟩

/-- Whichever of its keys with the public key the other end finds, it computes the same secret. -/
theorem openingSecret_comm (commutes : Commutes crypto.curve25519) {a b : Account} (keyed_a : a.Keyed crypto.curve25519)
    (keyed_b : b.Keyed crypto.curve25519) {base : Curve25519KeyPair} (base_generated : base.Generated crypto.curve25519)
    {oneTimeKey : OneTimeKey} (held : oneTimeKey ∈ b.oneTimeKeys.toList) :
    openingSecret crypto a base b.identityKeys.curve25519Key.publicKey oneTimeKey.key.publicKey =
      (sharedSecret crypto.curve25519 oneTimeKey.key a.identityKeys.curve25519Key.publicKey).val ++
        (sharedSecret crypto.curve25519 b.identityKeys.curve25519Key base.publicKey).val ++
        (sharedSecret crypto.curve25519 oneTimeKey.key base.publicKey).val := by
  have oneTime := keyed_b.oneTime oneTimeKey held
  rw [openingSecret, sharedSecret_comm commutes keyed_a.identity oneTime,
    sharedSecret_comm commutes base_generated keyed_b.identity, sharedSecret_comm commutes base_generated oneTime]

theorem lookupKey_of_held {account : Account} {oneTimeKey : OneTimeKey}
    (held : oneTimeKey ∈ account.oneTimeKeys.toList) :
    ∃ found ∈ account.oneTimeKeys.toList, account.lookupKey oneTimeKey.key.publicKey = some found ∧
      found.key.publicKey = oneTimeKey.key.publicKey := by
  unfold Account.lookupKey
  rcases found : account.oneTimeKeys.toList.find? fun key => key.key.publicKey = oneTimeKey.key.publicKey with _ | key
  · have missing := List.find?_eq_none.mp found oneTimeKey held
    exact absurd (decide_eq_true rfl) missing
  · have same := List.find?_some found
    exact ⟨key, List.mem_of_find?_eq_some found, found, of_decide_eq_true same⟩

theorem sentAt_firstBody {position : Nat} {plaintext : Bytes}
    (short : (firstBody crypto reader secret pair position plaintext).length < 2 ^ 64) :
    SentAt (olmRatchet crypto reader) secret ⟨[pair], position⟩ plaintext
      (firstBody crypto reader secret pair position plaintext) := by
  obtain ⟨output, output_length⟩ : ∃ output : Bytes,
      output.length = (firstBody crypto reader secret pair position plaintext).length :=
    ⟨List.replicate _ 0, List.length_replicate⟩
  have length : output.length =
      (Wire.olm (olmCipher crypto) reader).outputLength (counterOf ⟨[pair], position⟩) plaintext.length := by
    rw [output_length, firstBody, length_olmMessage]
  refine ⟨⟨output, by rw [output_length]; exact short⟩, length, ?_⟩
  exact (Wire.olm_write length).symm

theorem receiveRatchetKey_firstBody (perm : crypto.aes.Permutation) {a b : Account} {oneTimeKey : OneTimeKey}
    {base : Curve25519KeyPair} {position : Nat} (keyed_a : a.Keyed crypto.curve25519) (keyed_b : b.Keyed crypto.curve25519)
    (held : oneTimeKey ∈ b.oneTimeKeys.toList) (commutes : Commutes crypto.curve25519)
    (opens : Opens crypto reader a b.identityKeys.curve25519Key.publicKey oneTimeKey.key.publicKey base pair session)
    (memory : Session (Block 32)) {plaintext : Bytes} (hsecret : openingSecret crypto a base
      b.identityKeys.curve25519Key.publicKey oneTimeKey.key.publicKey = secret)
    (short : (firstBody crypto reader secret pair position plaintext).length < 2 ^ 64) :
    { new memory with
        aliceIdentityKey := session.aliceIdentityKey
        aliceBaseKey := session.aliceBaseKey
        bobOneTimeKey := session.bobOneTimeKey }.receiveRatchetKey (olmRatchet crypto reader) b
        (firstBody crypto reader secret pair position plaintext) =
      (answering crypto reader secret pair memory session, some ()) := by
  obtain ⟨ciphertext, read, -⟩ := (Wire.olm_correct perm reader).reads (sentAt_firstBody short)
  obtain ⟨found, found_held, lookup, same⟩ := lookupKey_of_held held
  have secret_eq := openingSecret_comm commutes keyed_a keyed_b opens.base_generated found_held
  have wire : ((olmRatchet crypto reader).wire.read (firstBody crypto reader secret pair position plaintext)).ratchetKey =
      some pair.publicKey.val := by
    show ((Wire.olm (olmCipher crypto) reader).read _).ratchetKey = _
    rw [read]
    rfl
  rw [same] at secret_eq
  unfold receiveRatchetKey
  rw [wire]
  simp only [Block.length_val, ne_eq, not_true_eq_false, if_false, opens.bobOneTimeKey, lookup, Block.load_val]
  unfold answering
  rw [← hsecret, secret_eq, opens.aliceIdentityKey, opens.aliceBaseKey, opens.bobOneTimeKey]
  rfl

section Body

variable {Key : Type} (ops : RatchetOps Key Bytes) {stack : PreKeyMessageReader} {messageType : MessageType}
  {message body : Bytes} (session : Session Key) (found : messageBody stack messageType message = some body)
include found

theorem decryptMaxPlaintextLength_body : (session.decryptMaxPlaintextLength ops stack messageType message).2 =
    (session.ratchet.decryptMaxPlaintextLength ops body).2 := by
  simp only [decryptMaxPlaintextLength, found]
  rcases session.ratchet.decryptMaxPlaintextLength ops body with ⟨ratchet, _ | length⟩ <;> rfl

theorem decrypt_body (maxPlaintextLength : Nat) : (session.decrypt ops stack messageType message maxPlaintextLength).2 =
    (session.ratchet.decrypt ops body maxPlaintextLength).2 := by
  simp only [decrypt, found]
  rcases session.ratchet.decrypt ops body maxPlaintextLength with ⟨ratchet, _ | plaintext⟩ <;> rfl

end Body

/-- Not too far from the start, the other end decrypts whichever message comes first. -/
theorem answering_decrypts (perm : crypto.aes.Permutation) (memory : Session (Block 32)) {position : Nat}
    {plaintext : Bytes} (short : (firstBody crypto reader secret pair position plaintext).length < 2 ^ 64)
    (small : position < 2 ^ 32) (near : position ≤ maxMessageGap) {maxPlaintextLength : Nat}
    (room : ∀ length, ((answering crypto reader secret pair memory session).ratchet.decryptMaxPlaintextLength
      (olmRatchet crypto reader) (firstBody crypto reader secret pair position plaintext)).2 = some length →
      length ≤ maxPlaintextLength) :
    ((answering crypto reader secret pair memory session).ratchet.decrypt (olmRatchet crypto reader)
      (firstBody crypto reader secret pair position plaintext) maxPlaintextLength).2 = some plaintext := by
  have receivers : (answering crypto reader secret pair memory session).ratchet.receiverChains.toList =
      [receiverChainOf (olmRatchet crypto reader) secret ⟨[pair], 0⟩] :=
    (represents_bob memory.ratchet pair).receivers
  have found : findChain (ratchetKeyOf [pair])
      (answering crypto reader secret pair memory session).ratchet.receiverChains.toList =
        some (0, receiverChainOf (olmRatchet crypto reader) secret ⟨[pair], 0⟩) := by
    rw [receivers, findChain]
    exact if_pos rfl
  have near : position ≤ 0 + maxMessageGap := by
    rw [Nat.zero_add]
    exact near
  have sent := sentAt_firstBody short
  have same : (⟨[pair], 0⟩ : Place Curve25519KeyPair).chain = (⟨[pair], position⟩ : Place Curve25519KeyPair).chain := rfl
  exact liveChain_delivered (Wire.olm_correct perm reader) sent small room same found (Nat.zero_le _) near

theorem olmSessionId_eq {session' : Session (Block 32)} (same : SameKeys session session') (sha256 : Bytes → Block 32)
    (idLength : Nat) : (session'.olmSessionId sha256 idLength).2 = (session.olmSessionId sha256 idLength).2 := by
  simp only [olmSessionId, sessionId, same.aliceIdentityKey, same.aliceBaseKey, same.bobOneTimeKey]
  split <;> rfl

/-- The counter that a pre-key message carries. -/
def messageCounter (ops : RatchetOps (Block 32) Bytes) (stack : PreKeyMessageReader) (message : Bytes) :
    Option UInt32 :=
  (messageBody stack .preKey (decodeBase64 message)).map fun body => (ops.wire.read body).counter.value

theorem session_established (commutes : Commutes crypto.curve25519) (perm : crypto.aes.Permutation) {a b : Account}
    (keyed_a : a.Keyed crypto.curve25519) (keyed_b : b.Keyed crypto.curve25519) {oneTimeKey : OneTimeKey}
    (held : oneTimeKey ∈ b.oneTimeKeys.toList) (random : Block 64) (memory memory' : Session (Block 32))
    (reader : MessageReader) (stack : PreKeyMessageReader) (calls : List (Bytes × Bytes × Buffer)) :
    let ops := olmRatchet crypto reader
    let identityKey := encodeBase64 a.identityKeys.curve25519Key.publicKey.val
    ∃ start,
      (new memory).createOutboundSession ops a (encodeBase64 b.identityKeys.curve25519Key.publicKey.val)
        (encodeBase64 oneTimeKey.key.publicKey.val) random.val = (start, some ()) ∧
      ∀ i sent, (start.encryptAll ops calls).2[i]? = some sent →
        ∃ session,
          (new memory').createInboundSession ops stack b sent.message = some (session, some ()) ∧
          (new memory').createInboundSessionFrom ops stack b identityKey sent.message = some (session, some ()) ∧
          session.ratchet.rootKey = start.ratchet.rootKey ∧
          (∃ pair key, start.ratchet.senderChain.toList = [⟨pair, 0, key⟩] ∧
            session.ratchet.receiverChains.toList = [⟨pair.publicKey, 0, key⟩]) ∧
          (∀ idLength, (session.olmSessionId crypto.sha256 idLength).2 =
            ((start.encryptAll ops calls).1.olmSessionId crypto.sha256 idLength).2) ∧
          (∀ other ∈ (start.encryptAll ops calls).2,
            (session.olmMatchesInboundSession stack other.message).2 = some true ∧
              (session.olmMatchesInboundSessionFrom stack identityKey other.message).2 = some true) ∧
          (i < 2 ^ 32 → ∀ counter, messageCounter ops stack sent.message = some counter →
            counter.toNat ≤ maxMessageGap → ∀ maxPlaintextLength,
              (∀ length, (session.olmDecryptMaxPlaintextLength ops stack .preKey sent.message).2 = some length →
                length ≤ maxPlaintextLength) →
              (session.olmDecrypt ops stack .preKey sent.message maxPlaintextLength).2 = some sent.plaintext) := by
  intro ops identityKey
  obtain ⟨start, created, opens⟩ := createOutboundSession_opens crypto reader memory a
    b.identityKeys.curve25519Key.publicKey oneTimeKey.key.publicKey random
  generalize generateKey crypto.curve25519 (Block.load 32 random.val) = base at opens
  generalize generateKey crypto.curve25519 (Block.load 32 (random.val.drop 32)) = pair at opens
  obtain ⟨secret, hsecret⟩ : ∃ secret, openingSecret crypto a base b.identityKeys.curve25519Key.publicKey
    oneTimeKey.key.publicKey = secret := ⟨_, rfl⟩
  have unanswered := opens.unanswered
  rw [hsecret] at unanswered
  obtain ⟨after, first⟩ := unanswered.encryptAll_sent calls
  refine ⟨start, created, ?_⟩
  intro i sent found
  obtain ⟨message, short⟩ := first i sent found
  rw [Nat.zero_add] at message short
  have short_body : (firstBody crypto reader secret pair i sent.plaintext).length < 2 ^ 64 := by
    unfold preKeyMessage at short
    rw [List.length_append] at short
    omega
  have nobody : ∀ key ∈ (none : Option PublicKey), key = start.aliceIdentityKey := nofun
  have alice : ∀ key ∈ some a.identityKeys.curve25519Key.publicKey, key = start.aliceIdentityKey := by
    intro key same
    rw [← Option.mem_some.mp same, opens.aliceIdentityKey]
  have received := receiveRatchetKey_firstBody perm keyed_a keyed_b held commutes opens memory' hsecret short_body
  obtain ⟨session, hsession⟩ : ∃ session, answering crypto reader secret pair memory' start = session := ⟨_, rfl⟩
  have same : SameKeys start session := hsession ▸ answering_sameKeys memory'
  refine ⟨session, ?_, ?_, ?_, ?_, ?_, ?_, ?_⟩
  · rw [createInboundSession, message, b64Input_encodeBase64, ← hsession]
    simp only [newInboundSession_preKeyMessage short stack _ _ _ nobody, received, ops]
  · rw [createInboundSessionFrom, message, b64Key_encodeBase64, b64Input_encodeBase64, ← hsession]
    simp only [newInboundSession_preKeyMessage short stack _ _ _ alice, received, ops]
  · rw [unanswered.represents.root, ← hsession]
    rfl
  · refine ⟨pair, _, unanswered.represents.sender, ?_⟩
    rw [← hsession]
    exact (represents_bob memory'.ratchet pair).receivers
  · intro idLength
    rw [olmSessionId_eq same, olmSessionId_eq after]
  · intro other mem
    obtain ⟨j, at_j⟩ := List.mem_iff_getElem?.mp mem
    obtain ⟨message, short⟩ := first j other at_j
    rw [olmMatchesInboundSession, olmMatchesInboundSessionFrom, message, b64Input_encodeBase64, b64Key_encodeBase64]
    exact ⟨congrArg some (matches_preKeyMessage short stack same nobody),
      congrArg some (matches_preKeyMessage short stack same alice)⟩
  · intro small counter carried near maxPlaintextLength room
    have body := messageBody_preKeyMessage short stack
    obtain ⟨ciphertext, read, -⟩ := (Wire.olm_correct perm reader).reads (sentAt_firstBody short_body)
    rw [messageCounter, message, decode_encodeBase64, body] at carried
    have counter_eq : counterOf ⟨[pair], i⟩ = counter := by
      rw [← Option.some.inj carried]
      exact (congrArg (fun reading => reading.counter.value) read).symm
    rw [← counter_eq, toNat_counterOf small] at near
    rw [olmDecryptMaxPlaintextLength, message, b64Input_encodeBase64] at room
    rw [olmDecrypt, message, b64Input_encodeBase64]
    dsimp only at room ⊢
    rw [decryptMaxPlaintextLength_body ops session body, ← hsession] at room
    rw [decrypt_body ops session body, ← hsession]
    exact answering_decrypts perm memory' short_body small near room

/-! ### Past the last counter -/

def onesBlock : Block 32 := ⟨List.replicate 32 1, rfl⟩

/-- Every step of a chain leads to the same key, every other HMAC shows its key, and HKDF repeats its
input. -/
def steadyCrypto : Crypto :=
  { Crypto.plain with
    curve25519 := xorCurve
    kdf :=
      { hmac := fun key input => if input = chainKeySeed then onesBlock else Block.load 32 key
        hkdf := fun input _ _ length => Block.load length (input ++ input ++ input) } }

def steadyOps : RatchetOps (Block 32) Bytes := olmRatchet steadyCrypto ⟨0, ⟨0, false⟩, none, none⟩

def clearReader : PreKeyMessageReader := ⟨0, none, none, none, none⟩

def clearSession : Session (Block 32) where
  ratchet := clearedRatchet (Block.zero 32)
  lastError := .success
  receivedMessage := true
  aliceIdentityKey := Block.zero 32
  aliceBaseKey := Block.zero 32
  bobOneTimeKey := Block.zero 32

def steadyAlice : Account := ((Account.new clearAccount).newAccount steadyCrypto (List.replicate 64 1)).1

def steadyIdentity : Account := ((Account.new clearAccount).newAccount steadyCrypto (List.replicate 64 2)).1

def steadyBob : Account := steadyIdentity.generateOneTimeKey steadyCrypto (List.replicate 32 3)

def steadyOneTimeKey : OneTimeKey := ⟨1, false, generateKey xorCurve (Block.load 32 (List.replicate 32 3))⟩

theorem steady_commutes : Commutes steadyCrypto.curve25519 := xorCurve_commutes

theorem steady_permutation : steadyCrypto.aes.Permutation := Crypto.plain_permutation

theorem steadyAlice_made : steadyAlice.Made steadyCrypto :=
  .create (show (Account.new clearAccount).newAccount steadyCrypto (List.replicate 64 1) = (steadyAlice, some ()) from rfl)

theorem steadyBob_made : steadyBob.Made steadyCrypto := by
  have identity : steadyIdentity.Made steadyCrypto := .create
    (show (Account.new clearAccount).newAccount steadyCrypto (List.replicate 64 2) = (steadyIdentity, some ()) from rfl)
  exact .generate identity (show steadyIdentity.generateOneTimeKeys steadyCrypto 2 1 (List.replicate 32 3) =
    some (steadyBob, some 1) from rfl)

theorem steadyOneTimeKey_held : steadyOneTimeKey ∈ steadyBob.oneTimeKeys.toList := by
  rw [steadyBob, Account.generateOneTimeKey, OlmList.toList_pushFront _ _ (by decide)]
  exact List.mem_cons_self

theorem replicate_fits : (List.replicate 300 (0 : UInt8)).length < 2 ^ 64 := by
  rw [List.length_replicate]
  decide

def wideBuffer : Buffer := ⟨List.replicate 300 0, replicate_fits⟩

theorem Unanswered.wideBuffer_fits {count : Nat} (unanswered : Unanswered crypto reader secret pair count session) :
    encodeBase64Length (session.encryptMessageLength (olmRatchet crypto reader) 0) ≤ wideBuffer.val.length := by
  have output : session.ratchet.encryptOutputLength (olmRatchet crypto reader) 0 =
      encodeMessageLength (counterOf ⟨[pair], count⟩) 32 16 8 :=
    unanswered.represents.encryptOutputLength (List.cons_ne_nil _ _) rfl 0
  have counter : varintLength (counterOf ⟨[pair], count⟩).toNat ≤ 4 + 1 :=
    varintLength_le ((UInt32.toNat_lt _).trans (by decide))
  have body : encodeMessageLength (counterOf ⟨[pair], count⟩) 32 16 8 =
      62 + varintLength (counterOf ⟨[pair], count⟩).toNat := by
    unfold encodeMessageLength
    rw [show varstringLength 32 = 33 by rfl, show varstringLength 16 = 17 by rfl]
    omega
  have header : varintLength (encodeMessageLength (counterOf ⟨[pair], count⟩) 32 16 8) ≤ 0 + 1 :=
    varintLength_le (by omega)
  have message : session.encryptMessageLength (olmRatchet crypto reader) 0 ≤ 172 := by
    rw [encryptMessageLength, unanswered.receivedMessage, if_neg Bool.false_ne_true, output, encodeOneTimeKeyMessageLength,
      show varstringLength 32 = 33 by rfl, varstringLength]
    omega
  rw [wideBuffer, List.length_replicate, encodeBase64Length]
  omega

def steadyBaseKey : Curve25519KeyPair := generateKey xorCurve (Block.load 32 (List.replicate 64 4))

def steadyRatchetKey : Curve25519KeyPair := generateKey xorCurve (Block.load 32 ((List.replicate 64 4).drop 32))

def wrappedMessage : Bytes :=
  let body := olmMessage steadyCrypto onesBlock 0 steadyRatchetKey.publicKey []
  encodeBase64 (preKeyHeader protocolVersion steadyOneTimeKey.key.publicKey.val steadyBaseKey.publicKey.val
    steadyAlice.identityKeys.curve25519Key.publicKey.val body.length ++ body)

theorem steady_placeKey (secret : Bytes) (pair : Curve25519KeyPair) (position : Nat) :
    placeKey steadyOps secret ⟨[pair], position + 1⟩ = onesBlock := by
  unfold placeKey
  rw [chainKeyAt_succ]
  rfl

theorem wrappedMessage_sent :
    ∃ start, (new clearSession).createOutboundSession steadyOps steadyAlice
        (encodeBase64 steadyBob.identityKeys.curve25519Key.publicKey.val) (encodeBase64 steadyOneTimeKey.key.publicKey.val)
        (List.replicate 64 4) = (start, some ()) ∧
      (start.encryptAll steadyOps (List.replicate (2 ^ 32 + 1) ([], [], wideBuffer))).2[2 ^ 32]? =
        some ⟨[], wrappedMessage⟩ := by
  obtain ⟨start, created, opens⟩ := createOutboundSession_opens steadyCrypto ⟨0, ⟨0, false⟩, none, none⟩ clearSession
    steadyAlice steadyBob.identityKeys.curve25519Key.publicKey steadyOneTimeKey.key.publicKey ⟨List.replicate 64 4, rfl⟩
  refine ⟨start, created, ?_⟩
  have sent := Unanswered.encryptAll_replicate [] [] wideBuffer (fun unanswered => unanswered.wideBuffer_fits)
    opens.unanswered (2 ^ 32 + 1)
  have body : firstBody steadyCrypto ⟨0, ⟨0, false⟩, none, none⟩ (openingSecret steadyCrypto steadyAlice steadyBaseKey
      steadyBob.identityKeys.curve25519Key.publicKey steadyOneTimeKey.key.publicKey) steadyRatchetKey (2 ^ 32) [] =
      olmMessage steadyCrypto onesBlock 0 steadyRatchetKey.publicKey [] := by
    have key := steady_placeKey (openingSecret steadyCrypto steadyAlice steadyBaseKey
      steadyBob.identityKeys.curve25519Key.publicKey steadyOneTimeKey.key.publicKey) steadyRatchetKey (2 ^ 32 - 1)
    have counter : counterOf ⟨[steadyRatchetKey], 2 ^ 32⟩ = 0 := by decide
    rw [Nat.sub_add_cancel (Nat.one_le_two_pow)] at key
    unfold firstBody
    rw [counter, ← key]
    rfl
  rw [steadyOps, sent, List.getElem?_map, List.getElem?_range (Nat.lt_succ_self _), Option.map_some, Nat.zero_add]
  rw [wrappedMessage, ← body, preKeyMessage, opens.bobOneTimeKey, opens.aliceBaseKey, opens.aliceIdentityKey]
  rfl

/-- The last clause fails for a message past the last counter: it carries a counter of zero and is not decrypted. -/
theorem wrapped_counter_not_decrypted :
    (Commutes steadyCrypto.curve25519 ∧ steadyCrypto.aes.Permutation) ∧
    (steadyAlice.Made steadyCrypto ∧ steadyBob.Made steadyCrypto ∧ steadyOneTimeKey ∈ steadyBob.oneTimeKeys.toList) ∧
    ∃ start session,
      (new clearSession).createOutboundSession steadyOps steadyAlice
        (encodeBase64 steadyBob.identityKeys.curve25519Key.publicKey.val) (encodeBase64 steadyOneTimeKey.key.publicKey.val)
        (List.replicate 64 4) = (start, some ()) ∧
      (start.encryptAll steadyOps (List.replicate (2 ^ 32 + 1) ([], [], wideBuffer))).2[2 ^ 32]? =
        some ⟨[], wrappedMessage⟩ ∧
      (new clearSession).createInboundSession steadyOps clearReader steadyBob wrappedMessage =
        some (session, some ()) ∧
      messageCounter steadyOps clearReader wrappedMessage = some 0 ∧
      (session.olmDecryptMaxPlaintextLength steadyOps clearReader .preKey wrappedMessage).2 = some 16 ∧
      (session.olmDecrypt steadyOps clearReader .preKey wrappedMessage 16).2 = none := by
  obtain ⟨start, created, sent⟩ := wrappedMessage_sent
  have received : ((new clearSession).createInboundSession steadyOps clearReader steadyBob wrappedMessage).map
      (fun result => (result.2, (result.1.olmDecryptMaxPlaintextLength steadyOps clearReader .preKey wrappedMessage).2,
        (result.1.olmDecrypt steadyOps clearReader .preKey wrappedMessage 16).2)) =
      some (some (), some 16, none) := by
    decide +kernel
  obtain ⟨⟨session, result⟩, inbound, values⟩ := Option.map_eq_some_iff.mp received
  obtain ⟨rfl, rest⟩ := Prod.mk.inj values
  obtain ⟨length, failed⟩ := Prod.mk.inj rest
  exact ⟨⟨steady_commutes, steady_permutation⟩, ⟨steadyAlice_made, steadyBob_made, steadyOneTimeKey_held⟩,
    start, session, created, sent, inbound, by decide +kernel, length, failed⟩

theorem session_established_steady :
    ∃ start sent session,
      (new clearSession).createOutboundSession steadyOps steadyAlice
        (encodeBase64 steadyBob.identityKeys.curve25519Key.publicKey.val) (encodeBase64 steadyOneTimeKey.key.publicKey.val)
        (List.replicate 64 4) = (start, some ()) ∧
      (start.encryptAll steadyOps [([104], [], wideBuffer)]).2 = [sent] ∧
      (new clearSession).createInboundSession steadyOps clearReader steadyBob sent.message = some (session, some ()) ∧
      (session.olmMatchesInboundSession clearReader sent.message).2 = some true ∧
      ∀ maxPlaintextLength, (∀ length, (session.olmDecryptMaxPlaintextLength steadyOps clearReader .preKey
          sent.message).2 = some length → length ≤ maxPlaintextLength) →
        (session.olmDecrypt steadyOps clearReader .preKey sent.message maxPlaintextLength).2 = some [104] := by
  obtain ⟨start, created, established⟩ := session_established steady_commutes steady_permutation
    steadyAlice_made.keyed steadyBob_made.keyed steadyOneTimeKey_held ⟨List.replicate 64 4, rfl⟩ clearSession clearSession
    ⟨0, ⟨0, false⟩, none, none⟩ clearReader [([104], [], wideBuffer)]
  have run : ((new clearSession).createOutboundSession steadyOps steadyAlice
      (encodeBase64 steadyBob.identityKeys.curve25519Key.publicKey.val) (encodeBase64 steadyOneTimeKey.key.publicKey.val)
      (List.replicate 64 4)).1.encryptAll steadyOps [([104], [], wideBuffer)] |>.2.map
        (fun sent => (sent.plaintext, messageCounter steadyOps clearReader sent.message)) = [([104], some 0)] := by
    decide +kernel
  have created : (new clearSession).createOutboundSession steadyOps steadyAlice
      (encodeBase64 steadyBob.identityKeys.curve25519Key.publicKey.val) (encodeBase64 steadyOneTimeKey.key.publicKey.val)
      (List.replicate 64 4) = (start, some ()) := created
  rw [created] at run
  obtain ⟨sent, rest, whole, first, none_left⟩ := List.map_eq_cons_iff.mp run
  obtain rfl := List.map_eq_nil_iff.mp none_left
  obtain ⟨plaintext, counter⟩ := Prod.mk.inj first
  obtain ⟨session, inbound, -, -, -, -, known, decrypts⟩ := established 0 sent (by
    show (start.encryptAll steadyOps [([104], [], wideBuffer)]).2[0]? = some sent
    rw [whole]
    rfl)
  refine ⟨start, sent, session, created, whole, inbound, (known sent ?_).1, ?_⟩
  · show sent ∈ (start.encryptAll steadyOps [([104], [], wideBuffer)]).2
    rw [whole]
    exact List.mem_singleton_self _
  · intro maxPlaintextLength room
    rw [← plaintext]
    exact decrypts (by decide) 0 counter (by decide) maxPlaintextLength room

end RubyOlm.Session
