import RubyOlm.Buffers.Pickle
import RubyOlm.DoubleRatchet.Unforged
import RubyOlm.Session.Atomic
import RubyOlm.Session.Establishment

/-!
# Conversations

Two sessions and the messages between them. Both ends encrypt and decrypt in any order, whatever the
memory of the readers holds, and a session may be pickled and unpickled between any two calls. Messages
are lost, and come late, out of order or again. Next to each session there is a record of what has
happened to its ratchet, which no call looks at.
-/

namespace RubyOlm

/-- What the readers of a call find in their memory. -/
structure Stack where
  reader : MessageReader
  preKeyReader : PreKeyMessageReader

/-- A message on its way, with the type that was announced for it. -/
structure Letter where
  sender : Side
  messageType : MessageType
  message : Bytes
  plaintext : Bytes

namespace Session

/-- What the ratchet is given of a message. -/
def ratchetInput (stack : PreKeyMessageReader) (messageType : MessageType) (message : Bytes) : Bytes :=
  (messageBody stack messageType (decodeBase64 message)).getD []

/-- `olm_pickle_session` into `buffer`, and `olm_unpickle_session` of it to another object. -/
def reload (crypto : Crypto) (session : Session (Block 32)) (key : Bytes) (buffer : Memory Unit)
    (memory : Session (Block 32)) : Session (Block 32) × Option Nat :=
  let length := pickleLength crypto session
  let pickled := pickleAt crypto key ⟨(), 0⟩ length session buffer
  (unpickleAt crypto key ⟨(), 0⟩ length (new memory) pickled.memory).value

end Session

/-- A session, and what has happened to its ratchet: the messages it has decrypted, the ratchet keys it has sent
under, those it has had a receiver chain for, and the messages whose keys it has put into its skipped list. -/
structure Correspondent where
  session : Session (Block 32)
  opened : List Bytes
  sentUnder : List PublicKey
  seen : List PublicKey
  passed : List (PublicKey × UInt32)

structure Conversation where
  correspondent : Side → Correspondent
  letters : List Letter

inductive Call where
  | encrypt (side : Side) (plaintext random : Bytes) (message : Buffer)
  | decrypt (side : Side) (stack : Stack) (messageType : MessageType) (message : Bytes) (maxPlaintextLength : Nat)
  | reload (side : Side) (key : Bytes) (buffer : Memory Unit) (memory : Session (Block 32))

namespace Letter

/-- What the ratchet of the sender has written. -/
def body (letter : Letter) : Bytes := Session.ratchetInput Session.clearReader letter.messageType letter.message

end Letter

namespace Correspondent

def start (session : Session (Block 32)) : Correspondent where
  session
  opened := []
  sentUnder := session.ratchet.senderKeys
  seen := session.ratchet.receiverKeys
  passed := []

def endpoint (correspondent : Correspondent) : Endpoint (Block 32) Bytes where
  ratchet := correspondent.session.ratchet
  opened := correspondent.opened
  sentUnder := correspondent.sentUnder
  seen := correspondent.seen
  passed := correspondent.passed

end Correspondent

namespace Conversation

/-- The memory of a reader that is not there, as no call to encrypt has one. -/
def noReader : MessageReader := ⟨0, ⟨0, false⟩, none, none⟩

variable (crypto : Crypto)

def start (alice bob : Session (Block 32)) : Conversation where
  correspondent
    | .alice => .start alice
    | .bob => .start bob
  letters := []

def set (conversation : Conversation) (side : Side) (correspondent : Correspondent) : Conversation :=
  { conversation with
    correspondent := fun other => if other = side then correspondent else conversation.correspondent other }

def encrypt (conversation : Conversation) (side : Side) (plaintext random message : Bytes) : Conversation :=
  let correspondent := conversation.correspondent side
  match correspondent.session.olmEncrypt (olmRatchet crypto noReader) plaintext random message with
  | (session, none) => conversation.set side { correspondent with session }
  | (session, some message) =>
    { conversation.set side
        { correspondent with session, sentUnder := session.ratchet.senderKeys ++ correspondent.sentUnder } with
      letters := ⟨side, correspondent.session.encryptMessageType, message, plaintext⟩ :: conversation.letters }

def decrypt (conversation : Conversation) (side : Side) (stack : Stack) (messageType : MessageType) (message : Bytes)
    (maxPlaintextLength : Nat) : Conversation :=
  let ops := olmRatchet crypto stack.reader
  let correspondent := conversation.correspondent side
  match correspondent.session.olmDecrypt ops stack.preKeyReader messageType message maxPlaintextLength with
  | (session, none) => conversation.set side { correspondent with session }
  | (session, some _) =>
    let body := Session.ratchetInput stack.preKeyReader messageType message
    let reader := ops.wire.read body
    let ratchetKey := Block.load 32 (reader.ratchetKey.getD [])
    conversation.set side
      { correspondent with
        session
        opened := body :: correspondent.opened
        seen := session.ratchet.receiverKeys ++ correspondent.seen
        passed := correspondent.session.ratchet.passedOver ratchetKey reader.counter.value ++ correspondent.passed }

def step (conversation : Conversation) : Call → Conversation
  | .encrypt side plaintext random message => conversation.encrypt crypto side plaintext random message.val
  | .decrypt side stack messageType message maxPlaintextLength =>
    conversation.decrypt crypto side stack messageType message maxPlaintextLength
  | .reload side key buffer memory =>
    let correspondent := conversation.correspondent side
    conversation.set side
      { correspondent with session := (correspondent.session.reload crypto key buffer memory).1 }

/-- A new ratchet key is one that neither end has sent under, and there are fewer than `2 ^ 32` messages on
a chain. What is accepted comes from the other end, and under a ratchet key whose chain is kept or that was
not seen before. -/
def Unforged (conversation : Conversation) : Call → Prop
  | .encrypt side _ random _ =>
    let ratchet := (conversation.correspondent side).session.ratchet
    if ratchet.senderChain.empty then
      ∀ other, (generateKey crypto.curve25519 (Block.load 32 random)).publicKey ∉
        (conversation.correspondent other).sentUnder
    else ratchet.sender.chainKey.index.toNat + 1 < 2 ^ 32
  | .decrypt side stack messageType message maxPlaintextLength =>
    let ops := olmRatchet crypto stack.reader
    let correspondent := conversation.correspondent side
    let body := Session.ratchetInput stack.preKeyReader messageType message
    let ratchetKey := Block.load 32 ((ops.wire.read body).ratchetKey.getD [])
    (correspondent.session.olmDecrypt ops stack.preKeyReader messageType message maxPlaintextLength).2 ≠ none →
      (∃ letter ∈ conversation.letters, letter.sender = side.peer ∧ letter.body = body) ∧
        (ratchetKey ∈ correspondent.session.ratchet.receiverKeys ∨ ratchetKey ∉ correspondent.seen)
  | .reload _ _ _ _ => True

inductive Run (conversation : Conversation) : Conversation → Prop
  | refl : Run conversation conversation
  | step {conversation' : Conversation} (call : Call) (run : Run conversation conversation')
      (unforged : conversation'.Unforged crypto call) : Run conversation (conversation'.step crypto call)

/-- The ratchets of a conversation and what has gone between them. -/
def world (conversation : Conversation) : World (Block 32) Bytes where
  endpoint side := (conversation.correspondent side).endpoint
  sent := conversation.letters.map fun letter => ⟨letter.sender, letter.body, letter.plaintext⟩

end Conversation

/-! ### Calls of a session and of its ratchet -/

namespace Session

variable {crypto : Crypto} {reader : MessageReader} {session session' : Session (Block 32)}

theorem olmEncrypt_none {plaintext random message : Bytes}
    (failed : session.olmEncrypt (olmRatchet crypto reader) plaintext random message = (session', none)) :
    session.Intact session' := by
  simp only [olmEncrypt] at failed
  split at failed
  · obtain ⟨rfl, -⟩ := Prod.mk.inj failed
    exact ⟨rfl, rfl, rfl, rfl, rfl, rfl, rfl, rfl⟩
  · split at failed
    · rename_i encrypted
      obtain ⟨rfl, -⟩ := Prod.mk.inj failed
      exact encrypt_failed_intact _ encrypted
    · cases failed

theorem olmEncrypt_random {plaintext random message text : Bytes}
    (done : session.olmEncrypt (olmRatchet crypto reader) plaintext random message = (session', some text)) :
    session.encryptRandomLength ≤ random.length ∧
      session.olmEncryptMessageLength crypto reader plaintext.length ≤ message.length := by
  simp only [olmEncrypt] at done
  split at done
  · cases done
  · rename_i room
    refine ⟨?_, Nat.le_of_not_lt room⟩
    split at done
    · cases done
    · rename_i encrypted
      simp only [encrypt] at encrypted
      split at encrypted
      · cases encrypted
      · split at encrypted
        · cases encrypted
        · rename_i ratchet body written
          by_contra enough
          have short : random.length < session.ratchet.encryptRandomLength := Nat.lt_of_not_le enough
          rw [Ratchet.encrypt, if_pos short] at written
          cases written

/-- A message that is sent is the ratchet's, behind the header of the session. -/
theorem olmEncrypt_some {plaintext random text : Bytes} {message : Buffer}
    (done : session.olmEncrypt (olmRatchet crypto reader) plaintext random message.val = (session', some text)) :
    ∃ (output : Buffer) (body : Bytes),
      session.ratchet.encrypt (olmRatchet crypto reader) plaintext random output.val = (session'.ratchet, some body) ∧
        session' = { session with ratchet := session'.ratchet } ∧
        text = encodeBase64 (session.outerHeader body.length ++ body) ∧
        (session.outerHeader body.length ++ body).length < 2 ^ 64 := by
  obtain ⟨enough, room⟩ := olmEncrypt_random done
  rw [olmEncrypt_eq_messageParts enough room] at done
  obtain ⟨rfl, same⟩ := Prod.mk.inj done
  obtain rfl := Option.some.inj same
  have length := session.length_messageParts crypto reader random plaintext
  have fits := le_encodeBase64Length (session.encryptMessageLength (olmRatchet crypto reader) plaintext.length)
  have short := message.property
  unfold olmEncryptMessageLength at room
  have announced := session.encryptMessageLength_eq crypto reader plaintext.length
  dsimp only at announced
  have output_length : (List.replicate (session.ratchet.encryptOutputLength (olmRatchet crypto reader)
      plaintext.length) (0 : UInt8)).length =
      session.ratchet.encryptOutputLength (olmRatchet crypto reader) plaintext.length := List.length_replicate
  refine ⟨⟨List.replicate (session.ratchet.encryptOutputLength (olmRatchet crypto reader) plaintext.length) 0, ?_⟩,
    _, Ratchet.encrypt_eq_messageParts enough output_length, rfl, rfl, ?_⟩
  · rw [output_length]
    omega
  · show (session.messageParts crypto reader random plaintext).flatten.length < 2 ^ 64
    rw [length]
    omega

theorem olmDecrypt_none {stack : PreKeyMessageReader} {messageType : MessageType} {message : Bytes}
    {maxPlaintextLength : Nat} (failed : session.olmDecrypt (olmRatchet crypto reader) stack messageType message
      maxPlaintextLength = (session', none)) : session.Intact session' := by
  simp only [olmDecrypt] at failed
  split at failed
  · obtain ⟨rfl, -⟩ := Prod.mk.inj failed
    exact ⟨rfl, rfl, rfl, rfl, rfl, rfl, rfl, rfl⟩
  · exact decrypt_failed_intact _ failed

theorem olmDecrypt_some {stack : PreKeyMessageReader} {messageType : MessageType} {message plaintext : Bytes}
    {maxPlaintextLength : Nat} (done : session.olmDecrypt (olmRatchet crypto reader) stack messageType message
      maxPlaintextLength = (session', some plaintext)) :
    session.ratchet.decrypt (olmRatchet crypto reader) (ratchetInput stack messageType message) maxPlaintextLength =
        (session'.ratchet, some plaintext) ∧
      session' = { session with ratchet := session'.ratchet, receivedMessage := true } := by
  simp only [olmDecrypt, b64Input] at done
  split at done
  · cases done
  · rename_i raw decoded
    split at decoded
    · cases decoded
    · obtain rfl := Except.ok.inj decoded
      simp only [decrypt] at done
      split at done
      · cases done
      · rename_i body found
        rw [ratchetInput, found, Option.getD_some]
        split at done
        · cases done
        · rename_i ratchet text opened
          obtain ⟨rfl, same⟩ := Prod.mk.inj done
          obtain rfl := Option.some.inj same
          exact ⟨opened, rfl⟩

theorem reload_restored (perm : crypto.aes.Permutation) (session : Session (Block 32)) (key : Bytes)
    (buffer : Memory Unit) (memory : Session (Block 32)) :
    session.Restored (session.reload crypto key buffer memory).1 := by
  have fresh : (new memory).ratchet.Fresh :=
    ⟨OlmList.toList_new _, OlmList.toList_new _, OlmList.toList_new _⟩
  have trips : Pickle.RoundTrips (B := Unit) (pickleLength crypto) (pickleAt crypto) (unpickleAt crypto) (new memory)
      Restored := Pickle.roundTrips_codec perm codec_restores _ fresh _ _ _
  obtain ⟨restored, read, same⟩ := trips.reads session key ⟨(), 0⟩ buffer
  have reloaded : session.reload crypto key buffer memory = (restored, some (pickleLength crypto session)) := read
  rw [reloaded]
  exact same

end Session

/-! ### Conversations as runs of two ratchets -/

/-- What a session writes around a body. -/
structure Letter.Sealed (start : Session (Block 32)) (letter : Letter) (raw : Bytes) : Prop where
  message : letter.message = encodeBase64 raw
  short : raw.length < 2 ^ 64
  wrapped : raw =
    match letter.messageType with
    | .preKey => start.preKeyMessage letter.body
    | .message => letter.body

namespace Conversation

open Exchange Ratchet Session

variable {crypto : Crypto} {secret : Bytes} {pair : Curve25519KeyPair} {alice bob : Session (Block 32)}
  {conversation : Conversation} {duo duo' : Duo Curve25519KeyPair} {side : Side}

/-- The operations without a reader. -/
def ops (crypto : Crypto) : RatchetOps (Block 32) Bytes := olmRatchet crypto noReader

/-- What holds throughout a conversation that the session `alice` began. -/
structure Held (crypto : Crypto) (secret : Bytes) (pair : Curve25519KeyPair) (alice : Session (Block 32))
    (conversation : Conversation) (duo : Duo Curve25519KeyPair) : Prop where
  sound : World.Sound (ops crypto) secret conversation.world duo
  keys : ∀ side, SameKeys alice (conversation.correspondent side).session
  letters : ∀ letter ∈ conversation.letters, ∃ raw, letter.Sealed alice raw
  first : (conversation.correspondent .alice).session.receivedMessage = false → duo.history .alice = [pair]
  firstLetters : ∀ letter ∈ conversation.letters, letter.sender = .alice → letter.messageType = .preKey →
    ((ops crypto).wire.read letter.body).ratchetKey = some pair.publicKey.val

/-! #### Readers -/

theorem derived_reader (reader reader' : MessageReader) (chain : List Curve25519KeyPair) :
    derived (olmRatchet crypto reader) secret chain = derived (olmRatchet crypto reader') secret chain := by
  induction chain with
  | nil => rfl
  | cons pair before ih =>
    cases before with
    | nil => rfl
    | cons last older =>
      rw [derived, derived, ih]
      rfl

theorem chainKeyAt_reader (reader reader' : MessageReader) (place : Place Curve25519KeyPair) :
    chainKeyAt (olmRatchet crypto reader) secret place = chainKeyAt (olmRatchet crypto reader') secret place := by
  rw [chainKeyAt, derived_reader reader reader']
  rfl

theorem placeKey_reader (reader reader' : MessageReader) (place : Place Curve25519KeyPair) :
    placeKey (olmRatchet crypto reader) secret place = placeKey (olmRatchet crypto reader') secret place := by
  rw [placeKey, chainKeyAt_reader reader reader']
  rfl

theorem sentAt_reader (reader reader' : MessageReader) (place : Place Curve25519KeyPair) (plaintext message : Bytes) :
    SentAt (olmRatchet crypto reader) secret place plaintext message ↔
      SentAt (olmRatchet crypto reader') secret place plaintext message := by
  rw [SentAt, placeKey_reader reader reader']
  rfl

theorem represents_reader {reader : MessageReader} (reader' : MessageReader) {ratchet : Ratchet (Block 32)}
    {party : Party Curve25519KeyPair} (represents : Represents (olmRatchet crypto reader) secret side ratchet party) :
    Represents (olmRatchet crypto reader') secret side ratchet party where
  root := by rw [represents.root, derived_reader reader reader']
  sender := by
    rw [represents.sender, senderChainOf, senderChainOf]
    simp only [chainKeyAt_reader reader reader']
  receivers := by
    rw [represents.receivers]
    exact List.map_congr_left fun next _ =>
      congrArg (fun key => ReceiverChain.mk _ (ChainKey.mk _ key)) (chainKeyAt_reader reader reader' next)
  skipped := by
    rw [represents.skipped]
    exact List.map_congr_left fun place _ =>
      congrArg (fun key => SkippedMessageKey.mk _ (MessageKey.mk _ key)) (placeKey_reader reader reader' place)

/-- What is known of a run does not depend on what readers hold. -/
theorem sound_reader {reader : MessageReader} (reader' : MessageReader) {world : World (Block 32) Bytes}
    (sound : World.Sound (olmRatchet crypto reader) secret world duo) :
    World.Sound (olmRatchet crypto reader') secret world duo where
  tracks :=
    { ok := sound.tracks.ok
      ends := fun side =>
        { represents := represents_reader reader' (sound.tracks.ends side).represents
          opened := by simpa only [sentAt_reader reader reader'] using (sound.tracks.ends side).opened
          opened_back := by simpa only [sentAt_reader reader reader'] using (sound.tracks.ends side).opened_back
          passed := (sound.tracks.ends side).passed }
      sent := by simpa only [sentAt_reader reader reader'] using sound.tracks.sent
      unique := by simpa only [sentAt_reader reader reader'] using sound.tracks.unique }
  order :=
    { ends := fun side =>
        let order := sound.order.ends side
        ⟨order.generated, order.sent_under, order.fresh, order.seen, order.receiving_small, order.sending_small⟩
      sent_small := sound.order.sent_small }
  separate := sound.separate
  opened := sound.opened

/-! #### Letters -/

theorem preKeyMessage_eq {session : Session (Block 32)} (same : SameKeys alice session) (body : Bytes) :
    session.preKeyMessage body = alice.preKeyMessage body := by
  rw [preKeyMessage, preKeyMessage, same.aliceIdentityKey, same.aliceBaseKey, same.bobOneTimeKey]

/-- Whatever a reader of it holds, a letter is read as it was written. -/
theorem sealed_body {letter : Letter} {raw : Bytes} (sealedLetter : letter.Sealed alice raw) (stack : PreKeyMessageReader) :
    messageBody stack letter.messageType raw = some letter.body := by
  obtain ⟨-, short, wrapped⟩ := sealedLetter
  cases type : letter.messageType with
  | preKey =>
    rw [type] at wrapped
    simp only at wrapped
    rw [wrapped] at short ⊢
    exact messageBody_preKeyMessage short stack
  | message =>
    rw [type] at wrapped
    exact congrArg some wrapped

theorem ratchetInput_encodeBase64 (stack : PreKeyMessageReader) (messageType : MessageType) (raw : Bytes) :
    ratchetInput stack messageType (encodeBase64 raw) = (messageBody stack messageType raw).getD [] := by
  rw [ratchetInput, decode_encodeBase64]

theorem sealed_of_header (side : Side) {session : Session (Block 32)} (same : SameKeys alice session) {body : Bytes}
    (short : (session.outerHeader body.length ++ body).length < 2 ^ 64) (plaintext : Bytes) :
    let letter : Letter :=
      ⟨side, session.encryptMessageType, encodeBase64 (session.outerHeader body.length ++ body), plaintext⟩
    letter.body = body ∧ letter.Sealed alice (session.outerHeader body.length ++ body) := by
  intro letter
  have read : letter.body =
      (messageBody clearReader letter.messageType (session.outerHeader body.length ++ body)).getD [] :=
    ratchetInput_encodeBase64 clearReader _ _
  cases received : session.receivedMessage with
  | true =>
    have type : letter.messageType = .message := if_pos received
    have header : session.outerHeader body.length = [] := if_pos received
    have same_body : letter.body = body := by
      rw [read, type, header]
      rfl
    refine ⟨same_body, rfl, short, ?_⟩
    rw [type, header, same_body]
    rfl
  | false =>
    have no : ¬session.receivedMessage = true := received ▸ Bool.false_ne_true
    have type : letter.messageType = .preKey := if_neg no
    have whole : session.outerHeader body.length ++ body = session.preKeyMessage body := by
      rw [outerHeader, if_neg no, preKeyMessage]
    have same_body : letter.body = body := by
      rw [whole] at short
      rw [read, type, whole, messageBody_preKeyMessage short clearReader, Option.getD_some]
    refine ⟨same_body, rfl, short, ?_⟩
    rw [type, same_body, whole]
    exact preKeyMessage_eq same body

/-! #### One call -/

theorem set_correspondent_self (side : Side) (correspondent : Correspondent) :
    (conversation.set side correspondent).correspondent side = correspondent := if_pos rfl

theorem set_correspondent_of_ne {other : Side} (correspondent : Correspondent) (different : other ≠ side) :
    (conversation.set side correspondent).correspondent other = conversation.correspondent other := if_neg different

theorem world_set (side : Side) (correspondent : Correspondent) :
    (conversation.set side correspondent).world = conversation.world.set side correspondent.endpoint := by
  have ends : (conversation.set side correspondent).world.endpoint =
      (conversation.world.set side correspondent.endpoint).endpoint := by
    funext other
    by_cases same : other = side
    · subst same
      rw [World.set_endpoint_self]
      exact congrArg Correspondent.endpoint (set_correspondent_self other correspondent)
    · rw [World.set_endpoint_of_ne _ same]
      exact congrArg Correspondent.endpoint (set_correspondent_of_ne correspondent same)
  exact congrArg (fun endpoint => World.mk endpoint conversation.world.sent) ends

theorem world_send (side : Side) (correspondent : Correspondent) (letter : Letter) :
    world { conversation.set side correspondent with letters := letter :: conversation.letters } =
      { conversation.world.set side correspondent.endpoint with
        sent := ⟨letter.sender, letter.body, letter.plaintext⟩ :: conversation.world.sent } :=
  congrArg (fun endpoint => World.mk endpoint (⟨letter.sender, letter.body, letter.plaintext⟩ :: conversation.world.sent))
    (congrArg World.endpoint (world_set side correspondent))

theorem keys_set (keys : ∀ other, SameKeys alice (conversation.correspondent other).session)
    {correspondent : Correspondent} (same : SameKeys alice correspondent.session) (other : Side) :
    SameKeys alice ((conversation.set side correspondent).correspondent other).session := by
  by_cases here : other = side
  · subst here
    rw [set_correspondent_self]
    exact same
  · rw [set_correspondent_of_ne _ here]
    exact keys other

/-- A call that leaves what the session stands for as it was. -/
theorem Held.keep (held : Held crypto secret pair alice conversation duo) {session' : Session (Block 32)}
    (represents : Represents (ops crypto) secret side session'.ratchet (duo.party side))
    (keys : SameKeys (conversation.correspondent side).session session')
    (received : session'.receivedMessage = (conversation.correspondent side).session.receivedMessage) :
    Held crypto secret pair alice
      (conversation.set side { conversation.correspondent side with session := session' }) duo := by
  have same := held.keys side
  refine ⟨?sound, keys_set held.keys ?keys, held.letters, ?first, held.firstLetters⟩
  case sound =>
    rw [world_set]
    exact held.sound.set_ratchet represents
  case keys =>
    exact ⟨keys.aliceIdentityKey.trans same.aliceIdentityKey, keys.aliceBaseKey.trans same.aliceBaseKey,
      keys.bobOneTimeKey.trans same.bobOneTimeKey⟩
  case first =>
    intro unanswered
    apply held.first
    by_cases here : Side.alice = side
    · subst here
      rw [set_correspondent_self] at unanswered
      rw [← received]
      exact unanswered
    · rw [set_correspondent_of_ne _ here] at unanswered
      exact unanswered

theorem Held.intact (held : Held crypto secret pair alice conversation duo) {session' : Session (Block 32)}
    (intact : (conversation.correspondent side).session.Intact session') :
    Held crypto secret pair alice
      (conversation.set side { conversation.correspondent side with session := session' }) duo := by
  refine held.keep ?_ ⟨intact.aliceIdentityKey, intact.aliceBaseKey, intact.bobOneTimeKey⟩ intact.receivedMessage
  exact Represents.of_lists (held.sound.tracks.ends side).represents intact.rootKey (congrArg _ intact.senderChain)
    (congrArg _ intact.receiverChains) (congrArg _ intact.skippedMessageKeys)

theorem Held.restored (held : Held crypto secret pair alice conversation duo) {session' : Session (Block 32)}
    (restored : (conversation.correspondent side).session.Restored session') :
    Held crypto secret pair alice
      (conversation.set side { conversation.correspondent side with session := session' }) duo := by
  refine held.keep ?_ ⟨restored.aliceIdentityKey, restored.aliceBaseKey, restored.bobOneTimeKey⟩
    restored.receivedMessage
  exact Represents.of_lists (held.sound.tracks.ends side).represents restored.ratchet.rootKey
    restored.ratchet.senderChain restored.ratchet.receiverChains restored.ratchet.skippedMessageKeys

theorem Held.encrypt (perm : crypto.aes.Permutation) (held : Held crypto secret pair alice conversation duo)
    {plaintext random : Bytes} {message : Buffer}
    (unforged : conversation.Unforged crypto (.encrypt side plaintext random message)) :
    ∃ duo', Held crypto secret pair alice (conversation.encrypt crypto side plaintext random message.val) duo' := by
  have correct : (ops crypto).wire.Correct := Wire.olm_correct perm noReader
  unfold Conversation.encrypt
  rcases done : (conversation.correspondent side).session.olmEncrypt (olmRatchet crypto noReader) plaintext random
    message.val with ⟨session', _ | text⟩
  · simp only [done]
    exact ⟨duo, held.intact (olmEncrypt_none done)⟩
  · simp only [done]
    obtain ⟨output, body, encrypted, only, rfl, short⟩ := olmEncrypt_some done
    obtain ⟨body_eq, wrapped⟩ := sealed_of_header side (held.keys side) short plaintext
    have tracks := held.sound.tracks
    obtain ⟨place, party', sends, represents, carries, history⟩ :=
      encrypt_sends (tracks.ends side).represents (tracks.ok.party side) encrypted
    have advances : World.Advances (ops crypto) secret conversation.world duo (.encrypt side plaintext random output) _ _ :=
      .send encrypted sends represents carries history
    have allowed : conversation.world.Unforged (ops crypto) (.encrypt side plaintext random output) := unforged
    have sound := held.sound.advances correct allowed advances
    have keys : SameKeys alice session' := only ▸ ⟨(held.keys side).aliceIdentityKey, (held.keys side).aliceBaseKey,
      (held.keys side).bobOneTimeKey⟩
    have first (unanswered : session'.receivedMessage = false) (mine : side = .alice) : party'.history = [pair] := by
      subst mine
      rw [only] at unanswered
      have start := held.first unanswered
      refine (history.resolve_right ?_).trans start
      intro turn
      rw [show (duo.party .alice).history = [pair] from start] at turn
      exact turn.1 rfl
    refine ⟨{ duo.set side party' with sent := place :: duo.sent }, ?sound, keys_set held.keys keys, ?letters, ?first,
      ?firstLetters⟩
    case sound =>
      rw [world_send, body_eq]
      exact sound
    case letters =>
      intro letter mem
      cases mem with
      | head => exact ⟨_, wrapped⟩
      | tail _ old => exact held.letters letter old
    case first =>
      intro unanswered
      by_cases mine : side = .alice
      · subst mine
        simp only [set_correspondent_self] at unanswered
        simp only [Duo.history, Duo.set_party_self]
        exact first unanswered rfl
      · have theirs : Side.alice ≠ side := fun same => mine same.symm
        simp only [set_correspondent_of_ne _ theirs] at unanswered
        simp only [Duo.history, Duo.set_party_of_ne _ theirs]
        exact held.first unanswered
    case firstLetters =>
      intro letter mem mine preKey
      cases mem with
      | head =>
        have unanswered : session'.receivedMessage = false := by
          rw [only]
          cases received : (conversation.correspondent side).session.receivedMessage with
          | true => simp [encryptMessageType, received] at preKey
          | false => rfl
        obtain ⟨key, -⟩ := World.read_sentAt correct carries
        rw [body_eq, key, sends.owner.1, first unanswered mine]
        rfl
      | tail _ old => exact held.firstLetters letter old mine preKey

/-- What a call to decrypt does to the exchange that the conversation stands for, it does to one party. -/
theorem history_of_decrypt {ops : RatchetOps (Block 32) Bytes} {world world' : World (Block 32) Bytes} {message : Bytes}
    {maxPlaintextLength : Nat} {other : Side} (different : other ≠ side)
    (advances : World.Advances ops secret world duo (.decrypt side message maxPlaintextLength) world' duo') :
    duo'.history other = duo.history other := by
  cases advances with
  | idle => rfl
  | receive => rw [Duo.history, Duo.set_party_of_ne _ different, Duo.history]

theorem Held.decrypt (perm : crypto.aes.Permutation) (commutes : Commutes crypto.curve25519)
    (held : Held crypto secret pair alice conversation duo) {stack : Stack} {messageType : MessageType} {message : Bytes}
    {maxPlaintextLength : Nat}
    (unforged : conversation.Unforged crypto (.decrypt side stack messageType message maxPlaintextLength)) :
    ∃ duo', Held crypto secret pair alice
      (conversation.decrypt crypto side stack messageType message maxPlaintextLength) duo' := by
  have correct : (olmRatchet crypto stack.reader).wire.Correct := Wire.olm_correct perm stack.reader
  unfold Conversation.decrypt
  rcases done : (conversation.correspondent side).session.olmDecrypt (olmRatchet crypto stack.reader)
    stack.preKeyReader messageType message maxPlaintextLength with ⟨session', _ | plaintext⟩
  · simp only [done]
    exact ⟨duo, held.intact (olmDecrypt_none done)⟩
  · have accepted : ((conversation.correspondent side).session.olmDecrypt (olmRatchet crypto stack.reader)
        stack.preKeyReader messageType message maxPlaintextLength).2 ≠ none := by
      rw [done]
      exact Option.some_ne_none _
    obtain ⟨⟨letter, mem, sender, same⟩, within⟩ := unforged accepted
    simp only [done]
    obtain ⟨decrypted, only⟩ := olmDecrypt_some done
    generalize ratchetInput stack.preKeyReader messageType message = body at same within decrypted ⊢
    have sound := sound_reader stack.reader held.sound
    have allowed : conversation.world.Unforged (olmRatchet crypto stack.reader) (.decrypt side body maxPlaintextLength) :=
      fun _ => ⟨⟨_, List.mem_map_of_mem mem, sender, same⟩, within⟩
    obtain ⟨duo', advances⟩ := sound.step correct commutes allowed
    have sound' := sound_reader noReader (sound.advances correct allowed advances)
    have opened : (conversation.world.endpoint side).ratchet.decrypt (olmRatchet crypto stack.reader) body
        maxPlaintextLength = (session'.ratchet, some plaintext) := decrypted
    simp only [World.step, World.decrypt, opened] at sound'
    have keys : SameKeys alice session' := only ▸ ⟨(held.keys side).aliceIdentityKey, (held.keys side).aliceBaseKey,
      (held.keys side).bobOneTimeKey⟩
    refine ⟨duo', ?sound, keys_set held.keys keys, held.letters, ?first, held.firstLetters⟩
    case sound =>
      rw [world_set]
      exact sound'
    case first =>
      intro unanswered
      by_cases mine : Side.alice = side
      · subst mine
        rw [set_correspondent_self, only] at unanswered
        cases unanswered
      · rw [set_correspondent_of_ne _ mine] at unanswered
        rw [history_of_decrypt mine advances]
        exact held.first unanswered

/-! #### All calls -/

theorem Held.step (perm : crypto.aes.Permutation) (commutes : Commutes crypto.curve25519)
    (held : Held crypto secret pair alice conversation duo) {call : Call} (unforged : conversation.Unforged crypto call) :
    ∃ duo', Held crypto secret pair alice (conversation.step crypto call) duo' := by
  cases call with
  | encrypt side plaintext random message => exact held.encrypt perm unforged
  | decrypt side stack messageType message maxPlaintextLength => exact held.decrypt perm commutes unforged
  | reload side key buffer memory => exact ⟨duo, held.restored (reload_restored perm _ key buffer memory)⟩

theorem Run.held (perm : crypto.aes.Permutation) (commutes : Commutes crypto.curve25519)
    (held : Held crypto secret pair alice conversation duo) {conversation' : Conversation}
    (run : Run crypto conversation conversation') : ∃ duo', Held crypto secret pair alice conversation' duo' := by
  induction run with
  | refl => exact ⟨duo, held⟩
  | step call _ unforged ih =>
    obtain ⟨duo', held'⟩ := ih
    exact held'.step perm commutes unforged

theorem start_held (memory : Side → Ratchet (Block 32)) (generated : pair.Generated crypto.curve25519)
    (same : SameKeys alice bob)
    (begun : alice.ratchet = (Ratchet.new (memory .alice)).initialiseAsAlice (ops crypto) secret pair)
    (answered : bob.ratchet = (Ratchet.new (memory .bob)).initialiseAsBob (ops crypto) secret pair.publicKey) :
    Held crypto secret pair alice (start alice bob) (Duo.start pair) where
  sound := by
    have ends : (start alice bob).world.endpoint = (World.start (ops crypto) memory secret pair).endpoint := by
      funext side
      cases side with
      | alice => exact congrArg (Endpoint.start Bytes) begun
      | bob => exact congrArg (Endpoint.start Bytes) answered
    have whole : (start alice bob).world = World.start (ops crypto) memory secret pair :=
      congrArg (fun endpoint => World.mk endpoint []) ends
    rw [whole]
    exact World.start_sound memory generated
  keys side := by
    cases side with
    | alice => exact ⟨rfl, rfl, rfl⟩
    | bob => exact same
  letters letter mem := absurd mem List.not_mem_nil
  first _ := rfl
  firstLetters letter mem := absurd mem List.not_mem_nil

/-! #### Letters -/

theorem Held.read (held : Held crypto secret pair alice conversation duo) {letter : Letter}
    (mem : letter ∈ conversation.letters) (stack : PreKeyMessageReader) :
    ∃ raw, b64Input letter.message = .ok raw ∧ letter.Sealed alice raw ∧
      messageBody stack letter.messageType raw = some letter.body := by
  obtain ⟨raw, wrapped⟩ := held.letters letter mem
  refine ⟨raw, ?_, wrapped, sealed_body wrapped stack⟩
  rw [wrapped.message, b64Input_encodeBase64]

theorem Held.delivered (perm : crypto.aes.Permutation) (commutes : Commutes crypto.curve25519)
    (held : Held crypto secret pair alice conversation duo) {letter : Letter} (mem : letter ∈ conversation.letters)
    (sender : letter.sender = side.peer) (stack : Stack) {maxPlaintextLength : Nat}
    (unopened : letter.body ∉ (conversation.correspondent side).opened)
    (room : ∀ length, ((conversation.correspondent side).session.olmDecryptMaxPlaintextLength
      (olmRatchet crypto stack.reader) stack.preKeyReader letter.messageType letter.message).2 = some length →
      length ≤ maxPlaintextLength)
    (readable : (conversation.correspondent side).endpoint.CanRead
      (Block.load 32 (((olmRatchet crypto stack.reader).wire.read letter.body).ratchetKey.getD []))
      ((olmRatchet crypto stack.reader).wire.read letter.body).counter.value) :
    ((conversation.correspondent side).session.olmDecrypt (olmRatchet crypto stack.reader) stack.preKeyReader
      letter.messageType letter.message maxPlaintextLength).2 = some letter.plaintext := by
  have correct : (olmRatchet crypto stack.reader).wire.Correct := Wire.olm_correct perm stack.reader
  have sound := sound_reader stack.reader held.sound
  obtain ⟨raw, decoded, -, body⟩ := held.read mem stack.preKeyReader
  rw [olmDecryptMaxPlaintextLength, decoded] at room
  rw [olmDecrypt, decoded]
  dsimp only at room ⊢
  rw [decryptMaxPlaintextLength_body _ _ body] at room
  rw [decrypt_body _ _ body]
  exact sound.delivered correct commutes (s := ⟨letter.sender, letter.body, letter.plaintext⟩)
    (List.mem_map_of_mem mem) sender unopened room readable

theorem Held.sessionId (held : Held crypto secret pair alice conversation duo) (side other : Side)
    (sha256 : Bytes → Block 32) (idLength : Nat) :
    ((conversation.correspondent side).session.olmSessionId sha256 idLength).2 =
      ((conversation.correspondent other).session.olmSessionId sha256 idLength).2 := by
  rw [olmSessionId_eq (held.keys side), olmSessionId_eq (held.keys other)]

theorem Held.matches_preKey (held : Held crypto secret pair alice conversation duo) {letter : Letter}
    (mem : letter ∈ conversation.letters) (preKey : letter.messageType = .preKey) (side : Side)
    (stack : PreKeyMessageReader) :
    ((conversation.correspondent side).session.olmMatchesInboundSession stack letter.message).2 = some true := by
  obtain ⟨raw, decoded, ⟨-, short, wrapped⟩, -⟩ := held.read mem stack
  rw [preKey] at wrapped
  simp only at wrapped
  rw [wrapped] at decoded short
  rw [olmMatchesInboundSession, decoded]
  exact congrArg some (matches_preKeyMessage short stack (held.keys side) (fun _ none => absurd none (Option.not_mem_none _)))

theorem Held.read_ratchetKey (perm : crypto.aes.Permutation) (held : Held crypto secret pair alice conversation duo)
    {letter : Letter} (mem : letter ∈ conversation.letters) (mine : letter.sender = .alice)
    (preKey : letter.messageType = .preKey) (reader : MessageReader) :
    ((olmRatchet crypto reader).wire.read letter.body).ratchetKey = some pair.publicKey.val := by
  obtain ⟨place, -, -, carries⟩ := held.sound.tracks.sent ⟨letter.sender, letter.body, letter.plaintext⟩
    (List.mem_map_of_mem mem)
  obtain ⟨key, -⟩ := World.read_sentAt (Wire.olm_correct perm noReader) carries
  obtain ⟨key', -⟩ := World.read_sentAt (Wire.olm_correct perm reader) ((sentAt_reader noReader reader _ _ _).mp carries)
  exact (key'.trans key.symm).trans (held.firstLetters letter mem mine preKey)

end Conversation

namespace Session

open Conversation Ratchet

variable {crypto : Crypto} {secret : Bytes} {pair : Curve25519KeyPair}

/-- From every message with the first ratchet key the other end makes the same session. -/
theorem receiveRatchetKey_answers {session : Session (Block 32)} {a b : Account} {oneTimeKey : OneTimeKey}
    {base : Curve25519KeyPair} {reader : MessageReader} (keyed_a : a.Keyed crypto.curve25519)
    (keyed_b : b.Keyed crypto.curve25519) (held : oneTimeKey ∈ b.oneTimeKeys.toList)
    (commutes : Commutes crypto.curve25519)
    (opens : Opens crypto noReader a b.identityKeys.curve25519Key.publicKey oneTimeKey.key.publicKey base pair session)
    (memory : Session (Block 32)) {body : Bytes} (hsecret : openingSecret crypto a base
      b.identityKeys.curve25519Key.publicKey oneTimeKey.key.publicKey = secret)
    (read : ((olmRatchet crypto reader).wire.read body).ratchetKey = some pair.publicKey.val) :
    { new memory with
        aliceIdentityKey := session.aliceIdentityKey
        aliceBaseKey := session.aliceBaseKey
        bobOneTimeKey := session.bobOneTimeKey }.receiveRatchetKey (olmRatchet crypto reader) b body =
      (answering crypto noReader secret pair memory session, some ()) := by
  obtain ⟨found, found_held, lookup, same⟩ := lookupKey_of_held held
  have secret_eq := openingSecret_comm commutes keyed_a keyed_b opens.base_generated found_held
  rw [same] at secret_eq
  unfold receiveRatchetKey
  rw [read]
  simp only [Block.length_val, ne_eq, not_true_eq_false, if_false, opens.bobOneTimeKey, lookup, Block.load_val]
  unfold answering
  rw [← hsecret, secret_eq, opens.aliceIdentityKey, opens.aliceBaseKey, opens.bobOneTimeKey]
  rfl

/-- The session that is made is the same whatever readers hold. -/
theorem createOutboundSession_begins (crypto : Crypto) (memory : Session (Block 32)) (account : Account)
    (identityKey oneTimeKey : PublicKey) (random : Block 64) :
    let base := generateKey crypto.curve25519 (Block.load 32 random.val)
    let pair := generateKey crypto.curve25519 (Block.load 32 (random.val.drop 32))
    ∃ session,
      (∀ reader, (new memory).createOutboundSession (olmRatchet crypto reader) account (encodeBase64 identityKey.val)
        (encodeBase64 oneTimeKey.val) random.val = (session, some ())) ∧
      Opens crypto noReader account identityKey oneTimeKey base pair session ∧
      session.ratchet = (Ratchet.new memory.ratchet).initialiseAsAlice (ops crypto)
        (openingSecret crypto account base identityKey oneTimeKey) pair := by
  intro base pair
  obtain ⟨session, created, opens⟩ :=
    createOutboundSession_opens crypto noReader memory account identityKey oneTimeKey random
  refine ⟨session, fun reader => created, opens, ?_⟩
  have enough : ¬random.val.length < newOutboundSessionRandomLength := by
    rw [Block.length_val]
    decide
  simp only [createOutboundSession, b64Key_encodeBase64, newOutboundSession, if_neg enough] at created
  obtain ⟨made, -⟩ := Prod.mk.inj created
  rw [← made]
  rfl

/-- Whatever way a conversation goes that began with the keys of two accounts: both ends have one session id, every
pre-key message of the first end makes the session of the other end, every pre-key message matches it, and a message
that an end can read and has not opened gives its plaintext. -/
theorem conversation_delivered (commutes : Commutes crypto.curve25519) (perm : crypto.aes.Permutation) {a b : Account}
    (keyed_a : a.Keyed crypto.curve25519) (keyed_b : b.Keyed crypto.curve25519) {oneTimeKey : OneTimeKey}
    (held : oneTimeKey ∈ b.oneTimeKeys.toList) (random : Block 64) (memory memory' : Session (Block 32)) :
    ∃ alice bob,
      (∀ reader, (new memory).createOutboundSession (olmRatchet crypto reader) a
        (encodeBase64 b.identityKeys.curve25519Key.publicKey.val) (encodeBase64 oneTimeKey.key.publicKey.val) random.val =
          (alice, some ())) ∧
      ∀ conversation, Run crypto (start alice bob) conversation →
        (∀ sha256 idLength, ((conversation.correspondent .alice).session.olmSessionId sha256 idLength).2 =
          ((conversation.correspondent .bob).session.olmSessionId sha256 idLength).2) ∧
        ∀ letter ∈ conversation.letters, ∀ stack : Stack,
          let ops := olmRatchet crypto stack.reader
          let receiver := conversation.correspondent letter.sender.peer
          let reading := ops.wire.read letter.body
          (letter.sender = .alice → letter.messageType = .preKey →
            (new memory').createInboundSession ops stack.preKeyReader b letter.message = some (bob, some ()) ∧
            (new memory').createInboundSessionFrom ops stack.preKeyReader b
              (encodeBase64 a.identityKeys.curve25519Key.publicKey.val) letter.message = some (bob, some ())) ∧
          (letter.messageType = .preKey →
            (receiver.session.olmMatchesInboundSession stack.preKeyReader letter.message).2 = some true) ∧
          ∀ maxPlaintextLength, letter.body ∉ receiver.opened →
            (∀ length, (receiver.session.olmDecryptMaxPlaintextLength ops stack.preKeyReader letter.messageType
              letter.message).2 = some length → length ≤ maxPlaintextLength) →
            receiver.endpoint.CanRead (Block.load 32 (reading.ratchetKey.getD [])) reading.counter.value →
            (receiver.session.olmDecrypt ops stack.preKeyReader letter.messageType letter.message
              maxPlaintextLength).2 = some letter.plaintext := by
  obtain ⟨alice, created, opens, begun⟩ := createOutboundSession_begins crypto memory a
    b.identityKeys.curve25519Key.publicKey oneTimeKey.key.publicKey random
  generalize generateKey crypto.curve25519 (Block.load 32 random.val) = base at opens begun
  have generated : (generateKey crypto.curve25519 (Block.load 32 (random.val.drop 32))).Generated crypto.curve25519 :=
    generateKey_generated _ _
  generalize generateKey crypto.curve25519 (Block.load 32 (random.val.drop 32)) = pair at opens begun generated
  obtain ⟨secret, hsecret⟩ : ∃ secret, openingSecret crypto a base b.identityKeys.curve25519Key.publicKey
    oneTimeKey.key.publicKey = secret := ⟨_, rfl⟩
  rw [hsecret] at begun
  refine ⟨alice, answering crypto noReader secret pair memory' alice, created, ?_⟩
  intro conversation run
  let before : Side → Ratchet (Block 32)
    | .alice => memory.ratchet
    | .bob => memory'.ratchet
  have started := start_held before generated (answering_sameKeys memory') begun rfl
  obtain ⟨duo, held'⟩ := run.held perm commutes started
  refine ⟨fun sha256 idLength => held'.sessionId .alice .bob sha256 idLength, ?_⟩
  intro letter mem stack
  refine ⟨?made, ?known, ?delivered⟩
  case made =>
    intro mine preKey
    obtain ⟨raw, decoded, ⟨-, short, wrapped⟩, -⟩ := held'.read mem stack.preKeyReader
    rw [preKey] at wrapped
    simp only at wrapped
    rw [wrapped] at decoded short
    have received := receiveRatchetKey_answers keyed_a keyed_b held commutes opens memory' hsecret
      (held'.read_ratchetKey perm mem mine preKey stack.reader)
    have nobody : ∀ key ∈ (none : Option PublicKey), key = alice.aliceIdentityKey :=
      fun _ none => absurd none (Option.not_mem_none _)
    have sender : ∀ key ∈ some a.identityKeys.curve25519Key.publicKey, key = alice.aliceIdentityKey := by
      intro key same
      rw [← Option.mem_some.mp same, opens.aliceIdentityKey]
    constructor
    · rw [createInboundSession, decoded]
      simp only [newInboundSession_preKeyMessage short stack.preKeyReader _ _ _ nobody, received]
    · rw [createInboundSessionFrom, b64Key_encodeBase64, decoded]
      simp only [newInboundSession_preKeyMessage short stack.preKeyReader _ _ _ sender, received]
  case known =>
    intro preKey
    exact held'.matches_preKey mem preKey _ stack.preKeyReader
  case delivered =>
    intro maxPlaintextLength unopened room readable
    exact held'.delivered perm commutes mem (Side.peer_peer _).symm stack unopened room readable

/-! ### A conversation of one message -/

def steadySession : Session (Block 32) :=
  ((new clearSession).createOutboundSession steadyOps steadyAlice
    (encodeBase64 steadyBob.identityKeys.curve25519Key.publicKey.val) (encodeBase64 steadyOneTimeKey.key.publicKey.val)
    (List.replicate 64 4)).1

def greeting : Bytes := (steadySession.olmEncrypt steadyOps [104] [] wideBuffer.val).2.getD []

def greetingLetter : Letter := ⟨.alice, .preKey, greeting, [104]⟩

theorem greeting_sent (bob : Session (Block 32)) :
    (start steadySession bob).Unforged steadyCrypto (.encrypt .alice [104] [] wideBuffer) ∧
      ∃ alice, (start steadySession bob).step steadyCrypto (.encrypt .alice [104] [] wideBuffer) =
        { (start steadySession bob).set .alice alice with letters := [greetingLetter] } := by
  have begun : steadySession.ratchet.senderChain.empty = false ∧
      steadySession.ratchet.sender.chainKey.index.toNat + 1 < 2 ^ 32 ∧ steadySession.encryptMessageType = .preKey := by
    decide +kernel
  have encrypted : (steadySession.olmEncrypt steadyOps [104] [] wideBuffer.val).2 = some greeting := by decide +kernel
  rcases done : steadySession.olmEncrypt steadyOps [104] [] wideBuffer.val with ⟨session, result⟩
  rw [done] at encrypted
  obtain rfl : result = some greeting := encrypted
  have done : (Correspondent.start steadySession).session.olmEncrypt (olmRatchet steadyCrypto noReader) [104] []
    wideBuffer.val = (session, some greeting) := done
  obtain ⟨began, small, type⟩ := begun
  constructor
  · simp only [Conversation.Unforged, start, Correspondent.start, began, Bool.false_eq_true, if_false]
    exact small
  · refine ⟨{ Correspondent.start steadySession with
      session, sentUnder := session.ratchet.senderKeys ++ (Correspondent.start steadySession).sentUnder }, ?_⟩
    simp only [Conversation.step, Conversation.encrypt, start, done]
    rw [greetingLetter, ← type]
    rfl

theorem conversation_delivered_steady :
    ∃ bob, Run steadyCrypto (start steadySession bob)
        ((start steadySession bob).step steadyCrypto (.encrypt .alice [104] [] wideBuffer)) ∧
      (new clearSession).createInboundSession steadyOps clearReader steadyBob greeting = some (bob, some ()) ∧
      (bob.olmMatchesInboundSession clearReader greeting).2 = some true ∧
      (bob.olmDecrypt steadyOps clearReader .preKey greeting 16).2 = some [104] := by
  obtain ⟨alice, bob, created, kept⟩ := conversation_delivered steady_commutes steady_permutation steadyAlice_made.keyed
    steadyBob_made.keyed steadyOneTimeKey_held ⟨List.replicate 64 4, rfl⟩ clearSession clearSession
  have same : steadySession = alice := congrArg Prod.fst (created noReader)
  rw [← same] at kept
  obtain ⟨unforged, after, sent⟩ := greeting_sent bob
  have run := Run.step _ Run.refl unforged
  obtain ⟨-, delivered⟩ := kept _ run
  rw [sent] at delivered
  obtain ⟨made, known, opens⟩ := delivered greetingLetter (List.mem_singleton_self _) ⟨noReader, clearReader⟩
  have ops_eq : olmRatchet steadyCrypto noReader = steadyOps := rfl
  simp only [ops_eq, show greetingLetter.message = greeting by rw [greetingLetter]] at made known opens
  have inbound : (new clearSession).createInboundSession steadyOps clearReader steadyBob greeting = some (bob, some ()) :=
    (made rfl rfl).1
  have read : ((new clearSession).createInboundSession steadyOps clearReader steadyBob greeting).map (fun made =>
      (decide (∃ chain ∈ made.1.ratchet.receiverChains.toList,
        chain.ratchetKey = Block.load 32 ((steadyOps.wire.read greetingLetter.body).ratchetKey.getD []) ∧
          chain.chainKey.index = 0 ∧ (steadyOps.wire.read greetingLetter.body).counter.value = 0),
        (made.1.olmDecryptMaxPlaintextLength steadyOps clearReader .preKey greeting).2)) = some (true, some 16) := by
    decide +kernel
  rw [inbound, Option.map_some] at read
  obtain ⟨keeps, length⟩ := Prod.mk.inj (Option.some.inj read)
  obtain ⟨chain, mem, key, index, counter⟩ := of_decide_eq_true keeps
  refine ⟨bob, run, inbound, known rfl, opens 16 List.not_mem_nil ?room (.known mem key ?near ?kept)⟩
  case room =>
    intro announced same
    exact Nat.le_of_eq (Option.some.inj (same.symm.trans length))
  case near =>
    rw [counter]
    exact Nat.zero_le _
  case kept =>
    intro before
    rw [counter, index] at before
    exact absurd before (UInt32.lt_irrefl 0)

end Session

end RubyOlm
