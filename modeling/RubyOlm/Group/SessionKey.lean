import RubyOlm.Group.Inbound

/-!
# Session keys

A session key and an export lay out a version byte, the counter, the four parts and the signing key.
Loading one gives these back.
-/

namespace RubyOlm

/-- The bytes a session key and an export have in common. -/
def sessionKeyLayout (version : UInt8) (ratchet : Megolm (Block 32)) (signingKey : Block 32) : Bytes :=
  version :: bigEndian ratchet.counter ++ ratchet.getData.val ++ signingKey.val

@[simp] theorem length_sessionKeyLayout (version : UInt8) (ratchet : Megolm (Block 32))
    (signingKey : Block 32) : (sessionKeyLayout version ratchet signingKey).length = 165 := by
  simp [sessionKeyLayout]

namespace InboundGroupSession

variable (crypto : Crypto) (session : InboundGroupSession)

theorem initGroupSessionKeys_layout (version : UInt8) (ratchet : Megolm (Block 32)) (signingKey : Block 32)
    (signature : Bytes) (exportFormat : Bool)
    (expected : version = if exportFormat then sessionExportVersion
      else OutboundGroupSession.sessionKeyVersion) :
    session.initGroupSessionKeys crypto (sessionKeyLayout version ratchet signingKey ++ signature)
        exportFormat =
      let session := { session with initialRatchet := ratchet, latestRatchet := ratchet, signingKey }
      if exportFormat then (session, some ())
      else if crypto.ed25519.verify (Block.load 64 signature) (sessionKeyLayout version ratchet signingKey)
          signingKey then
        ({ session with signingKeyVerified := true }, some ())
      else ({ session with lastError := .badSignature }, none) := by
  have first : (sessionKeyLayout version ratchet signingKey ++ signature).getD 0 0 = version := rfl
  have counter : ((sessionKeyLayout version ratchet signingKey ++ signature).drop 1).take 4 =
      bigEndian ratchet.counter := rfl
  have tail : (sessionKeyLayout version ratchet signingKey ++ signature).drop 5 =
      ratchet.getData.val ++ (signingKey.val ++ signature) := by
    rw [← List.append_assoc]
    rfl
  have key : (sessionKeyLayout version ratchet signingKey ++ signature).drop 133 =
      signingKey.val ++ signature := by
    rw [show 133 = 5 + 128 by rfl, ← List.drop_drop, tail,
      List.drop_append_of_le_length (by simp), List.drop_of_length_le (by simp), List.nil_append]
  have length := length_sessionKeyLayout version ratchet signingKey
  have body : (sessionKeyLayout version ratchet signingKey ++ signature).take 165 =
      sessionKeyLayout version ratchet signingKey := by
    rw [← length, List.take_left]
  have rest : (sessionKeyLayout version ratchet signingKey ++ signature).drop 165 = signature := by
    rw [← length, List.drop_left]
  rw [initGroupSessionKeys, first, if_neg fun differs => differs expected, counter,
    loadBigEndian_bigEndian, tail, Block.load_append, key, Block.load_append, body, rest]
  dsimp only
  rw [Megolm.init_getData]

theorem importSession_layout (ratchet : Megolm (Block 32)) (signingKey : Block 32) :
    session.importSession crypto (encodeBase64 (sessionKeyLayout sessionExportVersion ratchet signingKey)) =
      ({ session with initialRatchet := ratchet, latestRatchet := ratchet, signingKey }, some ()) := by
  have load := initGroupSessionKeys_layout crypto session sessionExportVersion ratchet signingKey [] true rfl
  rw [List.append_nil] at load
  unfold importSession
  rw [loadSessionKey, length_encodeBase64, decodeBase64Length_encode, decode_encodeBase64]
  dsimp only
  rw [if_neg fun differs => differs (length_sessionKeyLayout _ _ _), load]
  rfl

/-- A session key signed by its own signing key loads as it was written, and counts as verified. -/
theorem init_layout (ratchet : Megolm (Block 32)) (signingKey : Block 32) (signature : Block 64)
    (valid : crypto.ed25519.verify signature
      (sessionKeyLayout OutboundGroupSession.sessionKeyVersion ratchet signingKey) signingKey = true) :
    session.init crypto (encodeBase64
        (sessionKeyLayout OutboundGroupSession.sessionKeyVersion ratchet signingKey ++ signature.val)) =
      ({ session with initialRatchet := ratchet, latestRatchet := ratchet, signingKey,
                      signingKeyVerified := true }, some ()) := by
  have load := initGroupSessionKeys_layout crypto session OutboundGroupSession.sessionKeyVersion ratchet
    signingKey signature.val false rfl
  have length : (sessionKeyLayout OutboundGroupSession.sessionKeyVersion ratchet signingKey ++
      signature.val).length = OutboundGroupSession.sessionKeyRawLength := by
    rw [List.length_append, length_sessionKeyLayout, Block.length_val]
    rfl
  rw [Block.load_val] at load
  dsimp only at load
  rw [init, loadSessionKey, length_encodeBase64, decodeBase64Length_encode, decode_encodeBase64]
  dsimp only
  rw [if_neg fun differs => differs length, load, if_neg Bool.false_ne_true, if_pos valid]

/-! ### What loading does -/

/-- The string decodes to so many bytes, and the first one is `version`. -/
structure Decodes (sessionKey : Bytes) (length : Nat) (version : UInt8) : Prop where
  length : decodeBase64Length sessionKey.length = some length
  version : (decodeBase64 sessionKey).getD 0 0 = version

def sharedRatchet (raw : Bytes) : Megolm (Block 32) :=
  Megolm.init (Block.load 128 (raw.drop 5)) (loadBigEndian ((raw.drop 1).take 4))

def sharedKey (raw : Bytes) : Block 32 := Block.load 32 (raw.drop 133)

/-- `signingKey` verifies the signature at the end of a session key. -/
def keySigned (raw : Bytes) (signingKey : Block 32) : Bool :=
  crypto.ed25519.verify (Block.load 64 (raw.drop 165)) (raw.take 165) signingKey

def holding (raw : Bytes) : InboundGroupSession :=
  { session with
    initialRatchet := sharedRatchet raw
    latestRatchet := sharedRatchet raw
    signingKey := sharedKey raw }

theorem loadSessionKey_of_not_decodes {sessionKey : Bytes} {length : Nat} {exportFormat : Bool}
    (refused : ¬ Decodes sessionKey length
      (if exportFormat then sessionExportVersion else OutboundGroupSession.sessionKeyVersion)) :
    ∃ error, session.loadSessionKey crypto sessionKey length exportFormat =
      ({ session with lastError := error }, none) := by
  unfold loadSessionKey
  split
  · exact ⟨_, rfl⟩
  · rename_i rawLength known
    by_cases same : rawLength = length
    · rw [if_neg (not_not.mpr same), initGroupSessionKeys]
      rw [if_pos fun version => refused ⟨same ▸ known, version⟩]
      exact ⟨_, rfl⟩
    · rw [if_pos same]
      exact ⟨_, rfl⟩

theorem init_of_not_decodes {sessionKey : Bytes}
    (refused : ¬ Decodes sessionKey OutboundGroupSession.sessionKeyRawLength OutboundGroupSession.sessionKeyVersion) :
    ∃ error, session.init crypto sessionKey = ({ session with lastError := error }, none) :=
  loadSessionKey_of_not_decodes crypto session refused

theorem init_of_decodes {sessionKey : Bytes}
    (decodes : Decodes sessionKey OutboundGroupSession.sessionKeyRawLength OutboundGroupSession.sessionKeyVersion) :
    session.init crypto sessionKey =
      let raw := decodeBase64 sessionKey
      if keySigned crypto raw (sharedKey raw) then ({ session.holding raw with signingKeyVerified := true }, some ())
      else ({ session.holding raw with lastError := .badSignature }, none) := by
  simp only [init, loadSessionKey, decodes.length, initGroupSessionKeys, decodes.version, ne_eq, not_true_eq_false,
    if_false, Bool.false_eq_true]
  rfl

theorem importSession_of_not_decodes {sessionKey : Bytes}
    (refused : ¬ Decodes sessionKey sessionExportRawLength sessionExportVersion) :
    ∃ error, session.importSession crypto sessionKey = ({ session with lastError := error }, none) :=
  loadSessionKey_of_not_decodes crypto session refused

theorem importSession_of_decodes {sessionKey : Bytes}
    (decodes : Decodes sessionKey sessionExportRawLength sessionExportVersion) :
    session.importSession crypto sessionKey = (session.holding (decodeBase64 sessionKey), some ()) := by
  simp only [importSession, loadSessionKey, decodes.length, initGroupSessionKeys, decodes.version, ne_eq,
    not_true_eq_false, if_false, if_true]
  rfl

end InboundGroupSession

end RubyOlm
