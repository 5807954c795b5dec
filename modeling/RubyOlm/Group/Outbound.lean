import RubyOlm.Message.Format
import RubyOlm.Pickle

/-!
# Outbound group sessions

`outbound_group_session.c`, whose functions go by their names without `olm_`, `group_` and the name of
the session. Every function takes the session and returns it with `lastError` set, next to its result;
no result is `size_t(-1)`.
-/

namespace RubyOlm

def protocolVersion : UInt8 := 3

def signatureLength : Nat := 64

def megolmCipher (crypto : Crypto) : CipherOps (Megolm (Block 32)) :=
  (aesSha256 crypto.kdf crypto.aes (ascii "MEGOLM_KEYS")).withKey fun megolm => megolm.getData.val

abbrev megolmHash (crypto : Crypto) : Fin 4 → Block 32 → Block 32 := Megolm.partHash crypto.kdf.hmac

structure OutboundGroupSession where
  ratchet : Megolm (Block 32)
  signingKey : Ed25519KeyPair
  lastError : OlmErrorCode

namespace OutboundGroupSession

def initRandomLength : Nat := 128 + 32

def init (crypto : Crypto) (session : OutboundGroupSession) (random : Bytes) :
    OutboundGroupSession × Option Unit :=
  if random.length < initRandomLength then ({ session with lastError := .notEnoughRandom }, none)
  else
    ({ session with
        ratchet := Megolm.init (Block.load 128 random) 0
        signingKey := crypto.ed25519.createKeypair (Block.load 32 (random.drop 128)) }, some ())

def rawMessageLength (crypto : Crypto) (session : OutboundGroupSession) (plaintextLength : Nat) : Nat :=
  encodeGroupMessageLength session.ratchet.counter
    ((megolmCipher crypto).encryptCiphertextLength plaintextLength) (megolmCipher crypto).macLength
    signatureLength

def encryptMessageLength (crypto : Crypto) (session : OutboundGroupSession) (plaintextLength : Nat) : Nat :=
  encodeBase64Length (session.rawMessageLength crypto plaintextLength)

/-- `_encrypt`, into a buffer that has room for the raw message. -/
def encryptRaw (crypto : Crypto) (session : OutboundGroupSession) (plaintext buffer : Bytes) :
    OutboundGroupSession × Option Bytes :=
  let ciphertextLength := (megolmCipher crypto).encryptCiphertextLength plaintext.length
  let writer := encodeGroupMessage protocolVersion session.ratchet.counter ciphertextLength buffer
  let messageLength := writer.length + (megolmCipher crypto).macLength
  match (megolmCipher crypto).encrypt session.ratchet plaintext (some writer.ciphertext) ciphertextLength
      (writer.output.take messageLength) with
  | none => (session, none)
  | some (_, message) =>
    let signature := crypto.ed25519.sign session.signingKey message
    ({ session with ratchet := Megolm.advance (megolmHash crypto) session.ratchet },
      some (writeAt (message ++ writer.output.drop messageLength) messageLength signature.val))

/-- `olm_group_encrypt`, into a message buffer that holds `message`. -/
def encrypt (crypto : Crypto) (session : OutboundGroupSession) (plaintext message : Bytes) :
    OutboundGroupSession × Option Bytes :=
  let rawLength := session.rawMessageLength crypto plaintext.length
  if message.length < encodeBase64Length rawLength then
    ({ session with lastError := .outputBufferTooSmall }, none)
  else
    let messagePos := encodeBase64Length rawLength - rawLength
    match session.encryptRaw crypto plaintext ((message.drop messagePos).take rawLength) with
    | (session, none) => (session, none)
    | (session, some raw) => (session, some (encodeBase64 raw))

def messageIndex (session : OutboundGroupSession) : UInt32 := session.ratchet.counter

def groupSessionIdLength : Nat := 32

/-- `olm_outbound_group_session_id`, into a buffer of `idLength` bytes. -/
def sessionId (session : OutboundGroupSession) (idLength : Nat) : OutboundGroupSession × Option Bytes :=
  if idLength < encodeBase64Length groupSessionIdLength then
    ({ session with lastError := .outputBufferTooSmall }, none)
  else (session, some (encodeBase64 session.signingKey.publicKey.val))

def sessionKeyVersion : UInt8 := 2

def sessionKeyBody (session : OutboundGroupSession) : Bytes :=
  sessionKeyVersion :: bigEndian session.ratchet.counter ++ session.ratchet.getData.val ++
    session.signingKey.publicKey.val

def sessionKeyRawLength : Nat := 1 + 4 + 128 + 32 + 64

/-- `olm_outbound_group_session_key`, into a buffer of `keyLength` bytes. -/
def sessionKey (crypto : Crypto) (session : OutboundGroupSession) (keyLength : Nat) :
    OutboundGroupSession × Option Bytes :=
  if keyLength < encodeBase64Length sessionKeyRawLength then
    ({ session with lastError := .outputBufferTooSmall }, none)
  else
    let body := session.sessionKeyBody
    (session, some (encodeBase64 (body ++ (crypto.ed25519.sign session.signingKey body).val)))

/-! ### Unpickling -/

def pickleVersion : UInt32 := 1

/-- `olm_unpickle_outbound_group_session` from the decrypted body on. -/
def unpickleBody (session : OutboundGroupSession) (body : Bytes) : OutboundGroupSession × Option Unit :=
  let (pos, version) := unpickleUint32 body
  if version ≠ pickleVersion then ({ session with lastError := .unknownPickleVersion }, none)
  else
    let (pos, ratchet) := Megolm.unpickle pos session.ratchet
    let (pos, signingKey) := Ed25519KeyPair.unpickle pos session.signingKey
    let session := { session with ratchet, signingKey }
    if pos ≠ [] then ({ session with lastError := .corruptedPickle }, none) else (session, some ())

/-- `olm_unpickle_outbound_group_session`; on success it returns the length it was given. -/
def unpickle (crypto : Crypto) (session : OutboundGroupSession) (key pickled : Bytes) :
    OutboundGroupSession × Option Nat :=
  match encInput crypto key pickled with
  | .error error => ({ session with lastError := error }, none)
  | .ok body =>
    let (session, result) := session.unpickleBody body
    (session, result.map fun _ => pickled.length)

end OutboundGroupSession

end RubyOlm
