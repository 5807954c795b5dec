import RubyOlm.Group.Outbound

/-!
# Inbound group sessions

`inbound_group_session.c`: two ratchets, the earliest one known and a cache of the latest one used. The
functions `_decrypt` and `_decrypt_max_plaintext_length`, which work below base64, end in `Raw` here.
-/

namespace RubyOlm

structure InboundGroupSession where
  initialRatchet : Megolm (Block 32)
  latestRatchet : Megolm (Block 32)
  signingKey : Block 32
  signingKeyVerified : Bool
  lastError : OlmErrorCode

namespace InboundGroupSession

def clear : InboundGroupSession where
  initialRatchet := Megolm.init (Block.zero 128) 0
  latestRatchet := Megolm.init (Block.zero 128) 0
  signingKey := Block.zero 32
  signingKeyVerified := false
  lastError := .success

def sessionExportVersion : UInt8 := 1

def sessionExportRawLength : Nat := 1 + 4 + 128 + 32

/-- `_init_group_session_keys`. The ratchets and the key are stored before the signature is
looked at. -/
def initGroupSessionKeys (crypto : Crypto) (session : InboundGroupSession) (keyBuf : Bytes)
    (exportFormat : Bool) : InboundGroupSession × Option Unit :=
  let expectedVersion :=
    if exportFormat then sessionExportVersion else OutboundGroupSession.sessionKeyVersion
  if keyBuf.getD 0 0 ≠ expectedVersion then ({ session with lastError := .badSessionKey }, none)
  else
    let counter := loadBigEndian ((keyBuf.drop 1).take 4)
    let ratchet := Megolm.init (Block.load 128 (keyBuf.drop 5)) counter
    let session := { session with
      initialRatchet := ratchet
      latestRatchet := ratchet
      signingKey := Block.load 32 (keyBuf.drop 133) }
    if exportFormat then (session, some ())
    else if crypto.ed25519.verify (Block.load 64 (keyBuf.drop 165)) (keyBuf.take 165) session.signingKey then
      ({ session with signingKeyVerified := true }, some ())
    else ({ session with lastError := .badSignature }, none)

/-- What `olm_init_inbound_group_session` and `olm_import_inbound_group_session` share. -/
def loadSessionKey (crypto : Crypto) (session : InboundGroupSession) (sessionKey : Bytes)
    (expectedLength : Nat) (exportFormat : Bool) : InboundGroupSession × Option Unit :=
  match decodeBase64Length sessionKey.length with
  | none => ({ session with lastError := .invalidBase64 }, none)
  | some rawLength =>
    if rawLength ≠ expectedLength then ({ session with lastError := .badSessionKey }, none)
    else session.initGroupSessionKeys crypto (decodeBase64 sessionKey) exportFormat

def init (crypto : Crypto) (session : InboundGroupSession) (sessionKey : Bytes) :
    InboundGroupSession × Option Unit :=
  session.loadSessionKey crypto sessionKey OutboundGroupSession.sessionKeyRawLength false

def importSession (crypto : Crypto) (session : InboundGroupSession) (sessionKey : Bytes) :
    InboundGroupSession × Option Unit :=
  session.loadSessionKey crypto sessionKey sessionExportRawLength true

def getMegolm (crypto : Crypto) (session : InboundGroupSession) (messageIndex : UInt32) :
    InboundGroupSession × Option (Megolm (Block 32)) :=
  if messageIndex - session.latestRatchet.counter < (1 : UInt32) <<< 31 then
    let latestRatchet := Megolm.advanceTo (megolmHash crypto) session.latestRatchet messageIndex
    ({ session with latestRatchet }, some latestRatchet)
  else if messageIndex - session.initialRatchet.counter ≥ (1 : UInt32) <<< 31 then
    -- the counter is before our initial ratchet
    ({ session with lastError := .unknownMessageIndex }, none)
  else
    (session, some (Megolm.advanceTo (megolmHash crypto) session.initialRatchet messageIndex))

def decryptMaxPlaintextLengthRaw (crypto : Crypto) (session : InboundGroupSession)
    (stack : GroupMessageResults) (message : Bytes) : InboundGroupSession × Option Nat :=
  let decoded := decodeGroupMessage stack message (megolmCipher crypto).macLength signatureLength
  if decoded.version ≠ protocolVersion then ({ session with lastError := .badMessageVersion }, none)
  else
    match decoded.ciphertext with
    | none => ({ session with lastError := .badMessageFormat }, none)
    | some ciphertext =>
      (session, some ((megolmCipher crypto).decryptMaxPlaintextLength ciphertext.length))

def decryptMaxPlaintextLength (crypto : Crypto) (session : InboundGroupSession)
    (stack : GroupMessageResults) (message : Bytes) : InboundGroupSession × Option Nat :=
  match decodeBase64Length message.length with
  | none => ({ session with lastError := .invalidBase64 }, none)
  | some _ => session.decryptMaxPlaintextLengthRaw crypto stack (decodeBase64 message)

/-- What a call of `olm_group_decrypt` leaves behind: `messageIndex` is the value stored through the
pointer, if one was. -/
structure Decrypted where
  session : InboundGroupSession
  messageIndex : Option UInt32
  plaintext : Option Bytes

def decryptRaw (crypto : Crypto) (session : InboundGroupSession) (stack : GroupMessageResults)
    (message : Bytes) (maxPlaintextLength : Nat) : Decrypted :=
  let decoded := decodeGroupMessage stack message (megolmCipher crypto).macLength signatureLength
  if decoded.version ≠ protocolVersion then ⟨{ session with lastError := .badMessageVersion }, none, none⟩
  else
    match decoded.hasMessageIndex, decoded.ciphertext with
    | true, some ciphertext =>
      let index := some decoded.messageIndex
      let messageLength := message.length - signatureLength
      let signed := message.take messageLength
      if ¬ crypto.ed25519.verify (Block.load 64 (message.drop messageLength)) signed session.signingKey then
        ⟨{ session with lastError := .badSignature }, index, none⟩
      else if maxPlaintextLength < (megolmCipher crypto).decryptMaxPlaintextLength ciphertext.length then
        ⟨{ session with lastError := .outputBufferTooSmall }, index, none⟩
      else
        match session.getMegolm crypto decoded.messageIndex with
        | (session, none) => ⟨session, index, none⟩
        | (session, some megolm) =>
          match (megolmCipher crypto).decrypt megolm signed (ciphertext.read message) maxPlaintextLength with
          | none => ⟨{ session with lastError := .badMessageMac }, index, none⟩
          | some plaintext => ⟨{ session with signingKeyVerified := true }, index, some plaintext⟩
    | _, _ => ⟨{ session with lastError := .badMessageFormat }, none, none⟩

def decrypt (crypto : Crypto) (session : InboundGroupSession) (stack : GroupMessageResults)
    (message : Bytes) (maxPlaintextLength : Nat) : Decrypted :=
  match decodeBase64Length message.length with
  | none => ⟨{ session with lastError := .invalidBase64 }, none, none⟩
  | some _ => session.decryptRaw crypto stack (decodeBase64 message) maxPlaintextLength

/-- `olm_export_inbound_group_session`, into a buffer of `keyLength` bytes. -/
def exportSession (crypto : Crypto) (session : InboundGroupSession) (keyLength : Nat)
    (messageIndex : UInt32) : InboundGroupSession × Option Bytes :=
  if keyLength < encodeBase64Length sessionExportRawLength then
    ({ session with lastError := .outputBufferTooSmall }, none)
  else
    match session.getMegolm crypto messageIndex with
    | (session, none) => (session, none)
    | (session, some megolm) =>
      (session, some (encodeBase64 (sessionExportVersion :: bigEndian messageIndex ++ megolm.getData.val ++
        session.signingKey.val)))

/-- `olm_inbound_group_session_first_known_index`. -/
def firstKnownIndex (session : InboundGroupSession) : UInt32 := session.initialRatchet.counter

/-- `olm_inbound_group_session_is_verified`. -/
def isVerified (session : InboundGroupSession) : Bool := session.signingKeyVerified

def groupSessionIdLength : Nat := 32

/-- `olm_inbound_group_session_id`, into a buffer of `idLength` bytes. -/
def sessionId (session : InboundGroupSession) (idLength : Nat) : InboundGroupSession × Option Bytes :=
  if idLength < encodeBase64Length groupSessionIdLength then
    ({ session with lastError := .outputBufferTooSmall }, none)
  else (session, some (encodeBase64 session.signingKey.val))

/-! ### Unpickling -/

def pickleVersion : UInt32 := 2

/-- `olm_unpickle_inbound_group_session` from the decrypted body on. -/
def unpickleBody (session : InboundGroupSession) (body : Bytes) : InboundGroupSession × Option Unit :=
  let (pos, version) := unpickleUint32 body
  if version < 1 ∨ version > pickleVersion then
    ({ session with lastError := .unknownPickleVersion }, none)
  else
    let (pos, initialRatchet) := Megolm.unpickle pos session.initialRatchet
    let (pos, latestRatchet) := Megolm.unpickle pos session.latestRatchet
    let (pos, signingKey) := unpickleBytes pos session.signingKey
    let (pos, signingKeyVerified) :=
      if version = 1 then (pos, true) else unpickleBool pos session.signingKeyVerified
    let session := { session with initialRatchet, latestRatchet, signingKey, signingKeyVerified }
    if pos ≠ [] then ({ session with lastError := .corruptedPickle }, none) else (session, some ())

/-- `olm_unpickle_inbound_group_session`; on success it returns the length it was given. -/
def unpickle (crypto : Crypto) (session : InboundGroupSession) (key pickled : Bytes) :
    InboundGroupSession × Option Nat :=
  match encInput crypto key pickled with
  | .error error => ({ session with lastError := error }, none)
  | .ok body =>
    let (session, result) := session.unpickleBody body
    (session, result.map fun _ => pickled.length)

end InboundGroupSession

end RubyOlm
