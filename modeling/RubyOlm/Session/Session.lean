import RubyOlm.Base64
import RubyOlm.Account
import RubyOlm.DoubleRatchet.OlmWire

/-!
# Sessions

`session.cpp`, and the functions of `olm.cpp` that decode and encode base64 around it. The ratchet of a
session is over byte strings; its cipher and its hash functions are those of `ops`. No result is
`size_t(-1)`.
-/

namespace RubyOlm

structure Session (Key : Type) where
  ratchet : Ratchet Key
  lastError : OlmErrorCode
  receivedMessage : Bool
  aliceIdentityKey : PublicKey
  aliceBaseKey : PublicKey
  bobOneTimeKey : PublicKey

inductive MessageType where
  | preKey
  | message
  deriving DecidableEq

namespace Session

def protocolVersion : UInt8 := 3

variable {Key : Type} (ops : RatchetOps Key Bytes)

/-- The constructor, over memory that already holds `memory`. -/
def new (memory : Session Key) : Session Key :=
  { memory with
    ratchet := Ratchet.new memory.ratchet
    lastError := .success
    receivedMessage := false }

/-! ### The start of a session -/

def newOutboundSessionRandomLength : Nat := 32 * 2

def newOutboundSession (session : Session Key) (localAccount : Account) (identityKey oneTimeKey : PublicKey)
    (random : Bytes) : Session Key × Option Unit :=
  if random.length < newOutboundSessionRandomLength then
    ({ session with lastError := .notEnoughRandom }, none)
  else
    let baseKey := generateKey ops.curve25519 (Block.load 32 random)
    let ratchetKey := generateKey ops.curve25519 (Block.load 32 (random.drop 32))
    let aliceIdentityKeyPair := localAccount.identityKeys.curve25519Key
    -- the shared secret, by three exchanges
    let secret := (sharedSecret ops.curve25519 aliceIdentityKeyPair oneTimeKey).val ++
      (sharedSecret ops.curve25519 baseKey identityKey).val ++
      (sharedSecret ops.curve25519 baseKey oneTimeKey).val
    ({ session with
        receivedMessage := false
        aliceIdentityKey := aliceIdentityKeyPair.publicKey
        aliceBaseKey := baseKey.publicKey
        bobOneTimeKey := oneTimeKey
        ratchet := session.ratchet.initialiseAsAlice ops secret ratchetKey }, some ())

def isKey (field : Option Span) : Bool := field.any fun span => span.length = 32

def checkMessageFields (reader : PreKeyMessageReader) (haveTheirIdentityKey : Bool) : Bool :=
  (haveTheirIdentityKey || reader.identityKey.isSome) && (reader.identityKey.isNone || isKey reader.identityKey) &&
    reader.message.isSome && isKey reader.baseKey && isKey reader.oneTimeKey

/-- `memcmp` of a key with a field, when the field is there. -/
def sameKey (input : Bytes) (field : Option Span) (key : PublicKey) : Bool :=
  field.all fun span => Block.load 32 (span.read input) = key

/-- The rest of `new_inbound_session`, once the session has the three keys of the message. -/
def receiveRatchetKey (session : Session Key) (localAccount : Account) (message : Bytes) :
    Session Key × Option Unit :=
  match (ops.wire.read message).ratchetKey with
  | none => ({ session with lastError := .badMessageFormat }, none)
  | some ratchetKey =>
    if ratchetKey.length ≠ 32 then ({ session with lastError := .badMessageFormat }, none)
    else
      match localAccount.lookupKey session.bobOneTimeKey with
      | none => ({ session with lastError := .badMessageKeyId }, none)
      | some ourOneTimeKey =>
        let bobIdentityKey := localAccount.identityKeys.curve25519Key
        let secret := (sharedSecret ops.curve25519 ourOneTimeKey.key session.aliceIdentityKey).val ++
          (sharedSecret ops.curve25519 bobIdentityKey session.aliceBaseKey).val ++
          (sharedSecret ops.curve25519 ourOneTimeKey.key session.aliceBaseKey).val
        ({ session with
            ratchet := session.ratchet.initialiseAsBob ops secret (Block.load 32 ratchetKey) }, some ())

/-- `new_inbound_session`. `none` is a read through a null pointer: the identity key is copied out of
the message also when only the caller supplied it. -/
def newInboundSession (stack : PreKeyMessageReader) (session : Session Key) (localAccount : Account)
    (theirIdentityKey : Option PublicKey) (oneTimeKeyMessage : Bytes) : Option (Session Key × Option Unit) :=
  let reader := decodeOneTimeKeyMessage stack oneTimeKeyMessage
  if !checkMessageFields reader theirIdentityKey.isSome then
    some ({ session with lastError := .badMessageFormat }, none)
  else if !theirIdentityKey.all fun key => sameKey oneTimeKeyMessage reader.identityKey key then
    some ({ session with lastError := .badMessageKeyId }, none)
  else
    match reader.identityKey, reader.baseKey, reader.oneTimeKey, reader.message with
    | some identityKey, some baseKey, some oneTimeKey, some message =>
      let session :=
        { session with
          aliceIdentityKey := Block.load 32 (identityKey.read oneTimeKeyMessage)
          aliceBaseKey := Block.load 32 (baseKey.read oneTimeKeyMessage)
          bobOneTimeKey := Block.load 32 (oneTimeKey.read oneTimeKeyMessage) }
      some (session.receiveRatchetKey ops localAccount (message.read oneTimeKeyMessage))
    | _, _, _, _ => none

/-! ### Identity of a session -/

def sessionIdLength : Nat := 32

def sessionId (sha256 : Bytes → Block 32) (session : Session Key) (idLength : Nat) :
    Session Key × Option (Block 32) :=
  if idLength < sessionIdLength then ({ session with lastError := .outputBufferTooSmall }, none)
  else
    (session, some (sha256 (session.aliceIdentityKey.val ++ session.aliceBaseKey.val ++
      session.bobOneTimeKey.val)))

def matchesInboundSession (stack : PreKeyMessageReader) (session : Session Key)
    (theirIdentityKey : Option PublicKey) (oneTimeKeyMessage : Bytes) : Bool :=
  let reader := decodeOneTimeKeyMessage stack oneTimeKeyMessage
  checkMessageFields reader theirIdentityKey.isSome &&
    (sameKey oneTimeKeyMessage reader.identityKey session.aliceIdentityKey &&
      theirIdentityKey.all (fun key => key = session.aliceIdentityKey) &&
      sameKey oneTimeKeyMessage reader.baseKey session.aliceBaseKey &&
      sameKey oneTimeKeyMessage reader.oneTimeKey session.bobOneTimeKey)

/-! ### Encryption and decryption -/

def encryptMessageType (session : Session Key) : MessageType :=
  if session.receivedMessage then .message else .preKey

def encryptMessageLength (session : Session Key) (plaintextLength : Nat) : Nat :=
  let messageLength := session.ratchet.encryptOutputLength ops plaintextLength
  if session.receivedMessage then messageLength else encodeOneTimeKeyMessageLength 32 32 32 messageLength

def encryptRandomLength (session : Session Key) : Nat := session.ratchet.encryptRandomLength

/-- What `encrypt` writes around the message body, and where the body goes. -/
def writeHeader (session : Session Key) (bodyLength : Nat) (message : Bytes) : Bytes × Nat :=
  if session.receivedMessage then (message, 0)
  else
    let writer := encodeOneTimeKeyMessage protocolVersion 32 32 32 bodyLength message
    let message := writeAt writer.output writer.oneTimeKey session.bobOneTimeKey.val
    let message := writeAt message writer.identityKey session.aliceIdentityKey.val
    (writeAt message writer.baseKey session.aliceBaseKey.val, writer.message)

/-- The end of `encrypt` and `decrypt` when the ratchet has failed. -/
def takeError (session : Session Key) (ratchet : Ratchet Key) : Session Key :=
  { session with ratchet := { ratchet with lastError := .success }, lastError := ratchet.lastError }

/-- `encrypt`, into a buffer that holds `message`: the length it returns and the buffer. -/
def encrypt (session : Session Key) (plaintext random message : Bytes) : Session Key × Option (Nat × Bytes) :=
  if message.length < session.encryptMessageLength ops plaintext.length then
    ({ session with lastError := .outputBufferTooSmall }, none)
  else
    let bodyLength := session.ratchet.encryptOutputLength ops plaintext.length
    let (message, bodyPos) := session.writeHeader bodyLength message
    match session.ratchet.encrypt ops plaintext random ((message.drop bodyPos).take bodyLength) with
    | (ratchet, none) => (session.takeError ratchet, none)
    | (ratchet, some body) => ({ session with ratchet }, some (bodyLength, writeAt message bodyPos body))

/-- The part of a message that the ratchet reads. -/
def messageBody (stack : PreKeyMessageReader) (messageType : MessageType) (message : Bytes) : Option Bytes :=
  match messageType with
  | .message => some message
  | .preKey => (decodeOneTimeKeyMessage stack message).message.map fun span => span.read message

def decryptMaxPlaintextLength (stack : PreKeyMessageReader) (session : Session Key) (messageType : MessageType)
    (message : Bytes) : Session Key × Option Nat :=
  match messageBody stack messageType message with
  | none => ({ session with lastError := .badMessageFormat }, none)
  | some body =>
    match session.ratchet.decryptMaxPlaintextLength ops body with
    | (ratchet, none) => (session.takeError ratchet, none)
    | (ratchet, some length) => ({ session with ratchet }, some length)

def decrypt (stack : PreKeyMessageReader) (session : Session Key) (messageType : MessageType) (message : Bytes)
    (maxPlaintextLength : Nat) : Session Key × Option Bytes :=
  match messageBody stack messageType message with
  | none => ({ session with lastError := .badMessageFormat }, none)
  | some body =>
    match session.ratchet.decrypt ops body maxPlaintextLength with
    | (ratchet, none) => (session.takeError ratchet, none)
    | (ratchet, some plaintext) => ({ session with ratchet, receivedMessage := true }, some plaintext)

/-! ### The functions of `olm.cpp`, through base64 -/

def b64Input (input : Bytes) : Except OlmErrorCode Bytes :=
  match decodeBase64Length input.length with
  | none => .error .invalidBase64
  | some _ => .ok (decodeBase64 input)

def b64Key (key : Bytes) : Option PublicKey :=
  if decodeBase64Length key.length = some 32 then some (Block.load 32 (decodeBase64 key)) else none

def createOutboundSession (session : Session Key) (account : Account) (theirIdentityKey theirOneTimeKey : Bytes)
    (random : Bytes) : Session Key × Option Unit :=
  match b64Key theirIdentityKey, b64Key theirOneTimeKey with
  | some identityKey, some oneTimeKey => session.newOutboundSession ops account identityKey oneTimeKey random
  | _, _ => ({ session with lastError := .invalidBase64 }, none)

def createInboundSession (stack : PreKeyMessageReader) (session : Session Key) (account : Account)
    (oneTimeKeyMessage : Bytes) : Option (Session Key × Option Unit) :=
  match b64Input oneTimeKeyMessage with
  | .error error => some ({ session with lastError := error }, none)
  | .ok raw => session.newInboundSession ops stack account none raw

def createInboundSessionFrom (stack : PreKeyMessageReader) (session : Session Key) (account : Account)
    (theirIdentityKey oneTimeKeyMessage : Bytes) : Option (Session Key × Option Unit) :=
  match b64Key theirIdentityKey with
  | none => some ({ session with lastError := .invalidBase64 }, none)
  | some identityKey =>
    match b64Input oneTimeKeyMessage with
    | .error error => some ({ session with lastError := error }, none)
    | .ok raw => session.newInboundSession ops stack account (some identityKey) raw

def olmSessionId (sha256 : Bytes → Block 32) (session : Session Key) (idLength : Nat) :
    Session Key × Option Bytes :=
  if idLength < encodeBase64Length sessionIdLength then
    ({ session with lastError := .outputBufferTooSmall }, none)
  else
    match session.sessionId sha256 sessionIdLength with
    | (session, none) => (session, none)
    | (session, some id) => (session, some (encodeBase64 id.val))

def olmMatchesInboundSession (stack : PreKeyMessageReader) (session : Session Key) (oneTimeKeyMessage : Bytes) :
    Session Key × Option Bool :=
  match b64Input oneTimeKeyMessage with
  | .error error => ({ session with lastError := error }, none)
  | .ok raw => (session, some (session.matchesInboundSession stack none raw))

def olmMatchesInboundSessionFrom (stack : PreKeyMessageReader) (session : Session Key)
    (theirIdentityKey oneTimeKeyMessage : Bytes) : Session Key × Option Bool :=
  match b64Key theirIdentityKey with
  | none => ({ session with lastError := .invalidBase64 }, none)
  | some identityKey =>
    match b64Input oneTimeKeyMessage with
    | .error error => ({ session with lastError := error }, none)
    | .ok raw => (session, some (session.matchesInboundSession stack (some identityKey) raw))

/-- `olm_encrypt`, into a buffer that holds `message`. -/
def olmEncrypt (session : Session Key) (plaintext random message : Bytes) : Session Key × Option Bytes :=
  let rawLength := session.encryptMessageLength ops plaintext.length
  if message.length < encodeBase64Length rawLength then
    ({ session with lastError := .outputBufferTooSmall }, none)
  else
    let messagePos := encodeBase64Length rawLength - rawLength
    match session.encrypt ops plaintext random ((message.drop messagePos).take rawLength) with
    | (session, none) => (session, none)
    | (session, some (_, raw)) => (session, some (encodeBase64 raw))

def olmDecryptMaxPlaintextLength (stack : PreKeyMessageReader) (session : Session Key) (messageType : MessageType)
    (message : Bytes) : Session Key × Option Nat :=
  match b64Input message with
  | .error error => ({ session with lastError := error }, none)
  | .ok raw => session.decryptMaxPlaintextLength ops stack messageType raw

def olmDecrypt (stack : PreKeyMessageReader) (session : Session Key) (messageType : MessageType)
    (message : Bytes) (maxPlaintextLength : Nat) : Session Key × Option Bytes :=
  match b64Input message with
  | .error error => ({ session with lastError := error }, none)
  | .ok raw => session.decrypt ops stack messageType raw maxPlaintextLength

end Session

end RubyOlm
