import RubyOlm.DoubleRatchet.Delivery
import RubyOlm.Session.Encryption

/-!
# The first messages of a session

What a session sends before it has an answer, and what the other end reads in it.
-/

namespace RubyOlm.Session

open Exchange Ratchet

variable {crypto : Crypto} {reader : MessageReader} {secret : Bytes} {pair : Curve25519KeyPair} {count : Nat}
  {session : Session (Block 32)}

/-! ### The first messages -/

/-- A session that has sent `count` messages and has had no answer. -/
structure Unanswered (crypto : Crypto) (reader : MessageReader) (secret : Bytes) (pair : Curve25519KeyPair)
    (count : Nat) (session : Session (Block 32)) : Prop where
  receivedMessage : session.receivedMessage = false
  represents : Represents (olmRatchet crypto reader) secret .alice session.ratchet
    { (Duo.start pair).party .alice with sending := count }

def firstBody (crypto : Crypto) (reader : MessageReader) (secret : Bytes) (pair : Curve25519KeyPair) (position : Nat)
    (plaintext : Bytes) : Bytes :=
  olmMessage crypto (placeKey (olmRatchet crypto reader) secret ⟨[pair], position⟩) (counterOf ⟨[pair], position⟩)
    pair.publicKey plaintext

def preKeyMessage (session : Session (Block 32)) (body : Bytes) : Bytes :=
  preKeyHeader protocolVersion session.bobOneTimeKey.val session.aliceBaseKey.val session.aliceIdentityKey.val
    body.length ++ body

theorem length_preKeyMessage (session : Session (Block 32)) (body : Bytes) :
    (session.preKeyMessage body).length = encodeOneTimeKeyMessageLength 32 32 32 body.length := by
  have length := encodeOneTimeKeyMessageLength_eq protocolVersion session.bobOneTimeKey.val session.aliceBaseKey.val
    session.aliceIdentityKey.val body.length
  rw [Block.length_val, Block.length_val, Block.length_val] at length
  unfold preKeyMessage
  rw [List.length_append, length]

theorem Unanswered.length_message (unanswered : Unanswered crypto reader secret pair count session)
    (plaintext : Bytes) : (session.preKeyMessage (firstBody crypto reader secret pair count plaintext)).length =
      session.encryptMessageLength (olmRatchet crypto reader) plaintext.length := by
  have output := unanswered.represents.encryptOutputLength (List.cons_ne_nil _ _) rfl plaintext.length
  rw [length_preKeyMessage, encryptMessageLength, unanswered.receivedMessage, if_neg Bool.false_ne_true,
    firstBody, length_olmMessage crypto _ _ _ _ reader, output]
  rfl

theorem Unanswered.random_length (unanswered : Unanswered crypto reader secret pair count session) (random : Bytes) :
    session.encryptRandomLength ≤ random.length := by
  obtain ⟨some, -⟩ := unanswered.represents.sender_index (List.cons_ne_nil _ _) rfl
  rw [encryptRandomLength, Ratchet.encryptRandomLength, some, if_neg Bool.false_ne_true]
  exact Nat.zero_le _

/-- Both accounts of what the ratchet does, by its chains and by its parts, are of the same call. -/
theorem Unanswered.sent_eq (unanswered : Unanswered crypto reader secret pair count session) (plaintext random : Bytes) :
    Unanswered crypto reader secret pair (count + 1) (session.sent crypto reader random) ∧
      (session.messageParts crypto reader random plaintext).flatten =
        session.preKeyMessage (firstBody crypto reader secret pair count plaintext) := by
  obtain ⟨output, output_length⟩ : ∃ output : Bytes, output.length =
      session.ratchet.encryptOutputLength (olmRatchet crypto reader) plaintext.length :=
    ⟨List.replicate _ 0, List.length_replicate⟩
  have announced := unanswered.represents.encryptOutputLength (List.cons_ne_nil _ _) rfl plaintext.length
  obtain ⟨ratchet, represents, encrypted⟩ := encrypt_onChain unanswered.represents (List.cons_ne_nil _ _) rfl plaintext
    random (Nat.le_of_eq output_length.symm)
  have body : (olmRatchet crypto reader).wire.write (placeKey (olmRatchet crypto reader) secret ⟨[pair], count⟩)
      (counterOf ⟨[pair], count⟩) pair.publicKey plaintext output =
      firstBody crypto reader secret pair count plaintext := by
    apply Wire.olm_write
    rw [output_length, announced]
    rfl
  have parts := Ratchet.encrypt_eq_messageParts (unanswered.random_length random) output_length
  rw [encrypted, ← output_length, List.take_length] at parts
  injection parts with same_ratchet same_body
  injection same_body with same_body
  refine ⟨⟨unanswered.receivedMessage, ?_⟩, ?_⟩
  · rw [same_ratchet] at represents
    exact represents
  · rw [messageParts, List.flatten_cons, ← same_body, outerHeader, unanswered.receivedMessage,
      if_neg Bool.false_ne_true, preKeyMessage, ← body]
    rfl

theorem Unanswered.olmEncrypt_eq (unanswered : Unanswered crypto reader secret pair count session)
    (plaintext random : Bytes) {message : Bytes} (room : encodeBase64Length
      (session.encryptMessageLength (olmRatchet crypto reader) plaintext.length) ≤ message.length) :
    ∃ ratchet, Unanswered crypto reader secret pair (count + 1) { session with ratchet } ∧
      session.olmEncrypt (olmRatchet crypto reader) plaintext random message = ({ session with ratchet },
        some (encodeBase64 (session.preKeyMessage (firstBody crypto reader secret pair count plaintext)))) := by
  obtain ⟨next, parts⟩ := unanswered.sent_eq plaintext random
  have encrypted := olmEncrypt_eq_messageParts (unanswered.random_length random) room
  rw [parts] at encrypted
  exact ⟨_, next, encrypted⟩

/-- `olm_encrypt` call after call. A call that fails sends nothing. -/
def encryptAll {Key : Type} (ops : RatchetOps Key Bytes) (session : Session Key) :
    (calls : List (Bytes × Bytes × Buffer)) → Session Key × List Sent
  | [] => (session, [])
  | (plaintext, random, message) :: calls =>
    match session.olmEncrypt ops plaintext random message.val with
    | (session, none) => session.encryptAll ops calls
    | (session, some message) =>
      let (session, sent) := session.encryptAll ops calls
      (session, ⟨plaintext, message⟩ :: sent)

theorem Unanswered.encryptAll_replicate (plaintext random : Bytes) (message : Buffer)
    (room : ∀ {count session}, Unanswered crypto reader secret pair count session →
      encodeBase64Length (session.encryptMessageLength (olmRatchet crypto reader) plaintext.length) ≤ message.val.length)
    (unanswered : Unanswered crypto reader secret pair count session) (calls : Nat) :
    (session.encryptAll (olmRatchet crypto reader) (List.replicate calls (plaintext, random, message))).2 =
      (List.range calls).map fun position => ⟨plaintext, encodeBase64 (session.preKeyMessage
        (firstBody crypto reader secret pair (count + position) plaintext))⟩ := by
  induction calls generalizing session count with
  | zero => rfl
  | succ calls ih =>
    obtain ⟨ratchet, next, encrypted⟩ := unanswered.olmEncrypt_eq plaintext random (room unanswered)
    rw [List.replicate_succ, encryptAll, encrypted, List.range_succ_eq_map, List.map_cons, List.map_map]
    simp only [ih next, Nat.add_zero, List.cons.injEq, true_and]
    apply List.map_congr_left
    intro position _
    simp only [Function.comp, Nat.succ_eq_add_one, Nat.add_assoc, Nat.add_comm 1]
    rfl

/-- A message of the session that was sent at a position of its first chain. -/
structure SentFirst (crypto : Crypto) (reader : MessageReader) (secret : Bytes) (pair : Curve25519KeyPair)
    (session : Session (Block 32)) (position : Nat) (sent : Sent) : Prop where
  message : sent.message =
    encodeBase64 (session.preKeyMessage (firstBody crypto reader secret pair position sent.plaintext))
  short : (session.preKeyMessage (firstBody crypto reader secret pair position sent.plaintext)).length < 2 ^ 64

/-- The session itself is changed in its ratchet and its error code only. -/
structure SameKeys (before after : Session (Block 32)) : Prop where
  aliceIdentityKey : after.aliceIdentityKey = before.aliceIdentityKey
  aliceBaseKey : after.aliceBaseKey = before.aliceBaseKey
  bobOneTimeKey : after.bobOneTimeKey = before.bobOneTimeKey

theorem Unanswered.olmEncrypt_cases (unanswered : Unanswered crypto reader secret pair count session)
    (plaintext random : Bytes) (message : Buffer) :
    session.olmEncrypt (olmRatchet crypto reader) plaintext random message.val =
        ({ session with lastError := .outputBufferTooSmall }, none) ∨
      ∃ ratchet sent, Unanswered crypto reader secret pair (count + 1) { session with ratchet } ∧
        session.olmEncrypt (olmRatchet crypto reader) plaintext random message.val =
          ({ session with ratchet }, some sent) ∧
        SentFirst crypto reader secret pair session count ⟨plaintext, sent⟩ := by
  by_cases small : message.val.length <
      encodeBase64Length (session.encryptMessageLength (olmRatchet crypto reader) plaintext.length)
  · left
    simp only [olmEncrypt, if_pos small]
  · right
    obtain ⟨ratchet, next, encrypted⟩ := unanswered.olmEncrypt_eq plaintext random (Nat.not_lt.mp small)
    have short : (session.preKeyMessage (firstBody crypto reader secret pair count plaintext)).length < 2 ^ 64 := by
      have fits := le_encodeBase64Length (session.encryptMessageLength (olmRatchet crypto reader) plaintext.length)
      have bound := message.property
      rw [unanswered.length_message]
      omega
    exact ⟨ratchet, _, next, encrypted, rfl, short⟩

theorem Unanswered.encryptAll_sent (unanswered : Unanswered crypto reader secret pair count session)
    (calls : List (Bytes × Bytes × Buffer)) :
    SameKeys session (session.encryptAll (olmRatchet crypto reader) calls).1 ∧
      ∀ i sent, (session.encryptAll (olmRatchet crypto reader) calls).2[i]? = some sent →
        SentFirst crypto reader secret pair session (count + i) sent := by
  induction calls generalizing session count with
  | nil => exact ⟨⟨rfl, rfl, rfl⟩, nofun⟩
  | cons call calls ih =>
    obtain ⟨plaintext, random, message⟩ := call
    rw [encryptAll]
    rcases unanswered.olmEncrypt_cases plaintext random message with failed | ⟨ratchet, sent, next, encrypted, first⟩
    · rw [failed]
      have same : Unanswered crypto reader secret pair count { session with lastError := .outputBufferTooSmall } :=
        ⟨unanswered.receivedMessage, unanswered.represents⟩
      obtain ⟨keys, later⟩ := ih same
      exact ⟨⟨keys.aliceIdentityKey, keys.aliceBaseKey, keys.bobOneTimeKey⟩,
        fun i sent found => ⟨(later i sent found).message, (later i sent found).short⟩⟩
    · rw [encrypted]
      obtain ⟨keys, later⟩ := ih next
      refine ⟨⟨keys.aliceIdentityKey, keys.aliceBaseKey, keys.bobOneTimeKey⟩, ?_⟩
      intro i one found
      cases i with
      | zero =>
        obtain rfl := Option.some.inj found
        exact first
      | succ i =>
        have := later i one found
        rw [Nat.add_assoc, Nat.add_comm 1] at this
        exact ⟨this.message, this.short⟩

/-! ### What is in them -/

section Decoded

variable {body : Bytes} (short : (session.preKeyMessage body).length < 2 ^ 64) (stack : PreKeyMessageReader)
include short

theorem decode_preKeyMessage :
    ∃ oneTime base identity span : Span,
      decodeOneTimeKeyMessage stack (session.preKeyMessage body) =
          ⟨protocolVersion, some oneTime, some base, some identity, some span⟩ ∧
        (oneTime.read (session.preKeyMessage body) = session.bobOneTimeKey.val ∧ oneTime.length = 32) ∧
        (base.read (session.preKeyMessage body) = session.aliceBaseKey.val ∧ base.length = 32) ∧
        (identity.read (session.preKeyMessage body) = session.aliceIdentityKey.val ∧ identity.length = 32) ∧
        span.read (session.preKeyMessage body) = body := by
  have short_body : body.length < 2 ^ 64 := by
    unfold preKeyMessage at short
    rw [List.length_append] at short
    omega
  have short_key (key : PublicKey) : key.val.length < 2 ^ 64 := by
    rw [Block.length_val]
    decide
  have decoded := decodeOneTimeKeyMessage_eq stack protocolVersion session.bobOneTimeKey.val session.aliceBaseKey.val
    session.aliceIdentityKey.val body (short_key _) (short_key _) (short_key _) short_body rfl
  simp only [Block.length_val] at decoded
  exact decoded

theorem messageBody_preKeyMessage : messageBody stack .preKey (session.preKeyMessage body) = some body := by
  obtain ⟨oneTime, base, identity, span, decoded, -, -, -, body_read⟩ := decode_preKeyMessage short stack
  simp only [messageBody, decoded, Option.map_some, body_read]

theorem matches_preKeyMessage {session' : Session (Block 32)} (same : SameKeys session session')
    {theirIdentityKey : Option PublicKey} (theirs : ∀ key ∈ theirIdentityKey, key = session.aliceIdentityKey) :
    session'.matchesInboundSession stack theirIdentityKey (session.preKeyMessage body) = true := by
  obtain ⟨oneTime, base, identity, span, decoded, oneTime_read, base_read, identity_read, -⟩ :=
    decode_preKeyMessage short stack
  have theirs : theirIdentityKey.all (fun key => key = session.aliceIdentityKey) = true := by
    rw [Option.all_eq_true_iff_get]
    intro given
    exact decide_eq_true (theirs _ (Option.get_mem given))
  simp only [matchesInboundSession, checkMessageFields, sameKey, isKey, decoded, same.aliceIdentityKey, same.aliceBaseKey,
    same.bobOneTimeKey, oneTime_read, base_read, identity_read, Block.load_val, theirs, Option.all_some, Option.any_some,
    Option.isSome_some, Option.isNone_some, decide_true, Bool.or_true, Bool.and_self]

theorem newInboundSession_preKeyMessage (memory : Session (Block 32)) (ops : RatchetOps (Block 32) Bytes)
    (account : Account) {theirIdentityKey : Option PublicKey}
    (theirs : ∀ key ∈ theirIdentityKey, key = session.aliceIdentityKey) :
    memory.newInboundSession ops stack account theirIdentityKey (session.preKeyMessage body) =
      some ({ memory with
        aliceIdentityKey := session.aliceIdentityKey
        aliceBaseKey := session.aliceBaseKey
        bobOneTimeKey := session.bobOneTimeKey }.receiveRatchetKey ops account body) := by
  obtain ⟨oneTime, base, identity, span, decoded, oneTime_read, base_read, identity_read, body_read⟩ :=
    decode_preKeyMessage short stack
  have theirs : theirIdentityKey.all (fun key => session.aliceIdentityKey = key) = true := by
    rw [Option.all_eq_true_iff_get]
    intro given
    exact decide_eq_true (theirs _ (Option.get_mem given)).symm
  simp only [newInboundSession, checkMessageFields, sameKey, isKey, decoded, oneTime_read, base_read, identity_read,
    body_read, Block.load_val, theirs, Option.all_some, Option.any_some, Option.isSome_some, Option.isNone_some,
    decide_true, Bool.or_true, Bool.and_self, Bool.not_true, Bool.false_eq_true, if_false]

end Decoded

end RubyOlm.Session
