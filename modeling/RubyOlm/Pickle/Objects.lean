import RubyOlm.Pickle.Codecs
import RubyOlm.Group.Inbound
import RubyOlm.Pk
import RubyOlm.Session.Session

/-!
# Pickled objects

`pickle_length`, `pickle` and `unpickle` of accounts, ratchets, sessions and decryption objects, and what the functions
of the two group sessions write between them. What is not pickled is `lastError`.
-/

namespace RubyOlm

open Pickle

/-! ### Accounts -/

namespace Pickle

def identityKeys : Codec UInt8 IdentityKeys where
  length value := ed25519KeyPair.length value.ed25519Key + curve25519KeyPair.length value.curve25519Key
  write value := ed25519KeyPair.write value.ed25519Key ++ curve25519KeyPair.write value.curve25519Key
  read rest value :=
    let (rest, ed25519Key) := ed25519KeyPair.read rest value.ed25519Key
    let (rest, curve25519Key) := curve25519KeyPair.read rest value.curve25519Key
    (rest, { ed25519Key, curve25519Key })

def oneTimeKey : Codec UInt8 OneTimeKey where
  length value := uint32.length value.id + bool.length value.published + curve25519KeyPair.length value.key
  write value := uint32.write value.id ++ bool.write value.published ++ curve25519KeyPair.write value.key
  read rest value :=
    let (rest, id) := uint32.read rest value.id
    let (rest, published) := bool.read rest value.published
    let (rest, key) := curve25519KeyPair.read rest value.key
    (rest, { id, published, key })

theorem identityKeys_lawful : identityKeys.Lawful where
  length_write value := by
    simp only [identityKeys, List.length_append, ed25519KeyPair_lawful.length_write,
      curve25519KeyPair_lawful.length_write]
  read_write value rest old := by
    simp only [identityKeys, List.append_assoc, ed25519KeyPair_lawful.read_write,
      curve25519KeyPair_lawful.read_write]

theorem oneTimeKey_lawful : oneTimeKey.Lawful where
  length_write value := by
    simp only [oneTimeKey, List.length_append, uint32_lawful.length_write, bool_lawful.length_write,
      curve25519KeyPair_lawful.length_write]
  read_write value rest old := by
    simp only [oneTimeKey, List.append_assoc, uint32_lawful.read_write, bool_lawful.read_write,
      curve25519KeyPair_lawful.read_write]

end Pickle

namespace Account

def pickleVersion : UInt32 := 2

/-- The reader. An unknown version ends it where the input ends. -/
def unpickleBody (rest : Bytes) (value : Account) : Bytes × Account :=
  let (rest, version) := uint32.read rest 0
  if version = pickleVersion then
    let (rest, identityKeys) := Pickle.identityKeys.read rest value.identityKeys
    let (rest, oneTimeKeys) := (list oneTimeKey).read rest value.oneTimeKeys
    let (rest, nextOneTimeKeyId) := uint32.read rest value.nextOneTimeKeyId
    (rest, { value with identityKeys, oneTimeKeys, nextOneTimeKeyId })
  else if version = 1 then ([], { value with lastError := .badLegacyAccountPickle })
  else ([], { value with lastError := .unknownPickleVersion })

def codec : Codec UInt8 Account where
  length value := uint32.length pickleVersion + Pickle.identityKeys.length value.identityKeys +
    (list oneTimeKey).length value.oneTimeKeys + uint32.length value.nextOneTimeKeyId
  write value := uint32.write pickleVersion ++ Pickle.identityKeys.write value.identityKeys ++
    (list oneTimeKey).write value.oneTimeKeys ++ uint32.write value.nextOneTimeKeyId
  read := unpickleBody

/-- Everything that is pickled, with the one-time keys in their order. -/
structure Restored (value restored : Account) : Prop where
  identityKeys : restored.identityKeys = value.identityKeys
  oneTimeKeys : restored.oneTimeKeys.toList = value.oneTimeKeys.toList
  nextOneTimeKeyId : restored.nextOneTimeKeyId = value.nextOneTimeKeyId

theorem oneTimeKeys_restores : (@list _ maxOneTimeKeys oneTimeKey).Restores (fun old => old.toList = [])
    (fun value restored => restored.toList = value.toList) :=
  list_restores oneTimeKey_lawful (fun _ => Nat.succ_pos _) (by decide)

theorem codec_restores : codec.Restores (fun old => old.oneTimeKeys.toList = []) Restored where
  length_write value := by
    simp only [codec, List.length_append, uint32_lawful.length_write, identityKeys_lawful.length_write,
      oneTimeKeys_restores.length_write]
  read_write {old} empty value rest := by
    obtain ⟨oneTimeKeys, read, same⟩ :=
      oneTimeKeys_restores.read_write empty value.oneTimeKeys (uint32.write value.nextOneTimeKeyId ++ rest)
    refine ⟨⟨value.identityKeys, oneTimeKeys, value.nextOneTimeKeyId, old.lastError⟩, ?_, ⟨rfl, same, rfl⟩⟩
    simp only [codec, unpickleBody, List.append_assoc, uint32_lawful.read_write, if_true,
      identityKeys_lawful.read_write, read]

end Account

/-! ### Ratchets -/

namespace Pickle

/-- A chain or a skipped message key: a ratchet key, a key and the index of the key. -/
def keyed {RatchetKey : Type} (ratchetKey : Codec UInt8 RatchetKey) : Codec UInt8 (RatchetKey × Block 32 × UInt32) :=
  ratchetKey.pair (sharedKey.pair uint32)

def senderChain : Codec UInt8 (SenderChain (Block 32)) :=
  (keyed curve25519KeyPair).via (fun value => (value.ratchetKey, value.chainKey.key, value.chainKey.index))
    fun (ratchetKey, key, index) => { ratchetKey, chainKey := { index, key } }

def receiverChain : Codec UInt8 (ReceiverChain (Block 32)) :=
  (keyed publicKey).via (fun value => (value.ratchetKey, value.chainKey.key, value.chainKey.index))
    fun (ratchetKey, key, index) => { ratchetKey, chainKey := { index, key } }

def skippedMessageKey : Codec UInt8 (SkippedMessageKey (Block 32)) :=
  (keyed publicKey).via (fun value => (value.ratchetKey, value.messageKey.key, value.messageKey.index))
    fun (ratchetKey, key, index) => { ratchetKey, messageKey := { index, key } }

theorem keyed_lawful {RatchetKey : Type} {ratchetKey : Codec UInt8 RatchetKey} (lawful : ratchetKey.Lawful) :
    (keyed ratchetKey).Lawful :=
  lawful.pair (sharedKey_lawful.pair uint32_lawful)

theorem senderChain_lawful : senderChain.Lawful := (keyed_lawful curve25519KeyPair_lawful).via fun _ => rfl

theorem receiverChain_lawful : receiverChain.Lawful := (keyed_lawful publicKey_lawful).via fun _ => rfl

theorem skippedMessageKey_lawful : skippedMessageKey.Lawful := (keyed_lawful publicKey_lawful).via fun _ => rfl

end Pickle

namespace Ratchet

def pickleLength (value : Ratchet (Block 32)) : Nat :=
  32 + (list Pickle.senderChain).length value.senderChain + (list receiverChain).length value.receiverChains +
    (list skippedMessageKey).length value.skippedMessageKeys

def pickle (value : Ratchet (Block 32)) : Bytes :=
  sharedKey.write value.rootKey ++ (list Pickle.senderChain).write value.senderChain ++
    (list receiverChain).write value.receiverChains ++ (list skippedMessageKey).write value.skippedMessageKeys

def unpickle (rest : Bytes) (value : Ratchet (Block 32)) (includesChainIndex : Bool) : Bytes × Ratchet (Block 32) :=
  let (rest, rootKey) := sharedKey.read rest value.rootKey
  let (rest, senderChain) := (list Pickle.senderChain).read rest value.senderChain
  let (rest, receiverChains) := (list receiverChain).read rest value.receiverChains
  let (rest, skippedMessageKeys) := (list skippedMessageKey).read rest value.skippedMessageKeys
  -- the chain index is read past
  let rest := if includesChainIndex then (uint32.read rest 0).1 else rest
  (rest, { value with rootKey, senderChain, receiverChains, skippedMessageKeys })

structure Fresh (ratchet : Ratchet (Block 32)) : Prop where
  senderChain : ratchet.senderChain.toList = []
  receiverChains : ratchet.receiverChains.toList = []
  skippedMessageKeys : ratchet.skippedMessageKeys.toList = []

structure Restored (value restored : Ratchet (Block 32)) : Prop where
  rootKey : restored.rootKey = value.rootKey
  senderChain : restored.senderChain.toList = value.senderChain.toList
  receiverChains : restored.receiverChains.toList = value.receiverChains.toList
  skippedMessageKeys : restored.skippedMessageKeys.toList = value.skippedMessageKeys.toList

theorem senderChains_restores : (@list _ 1 Pickle.senderChain).Restores (fun old => old.toList = [])
    (fun value restored => restored.toList = value.toList) :=
  list_restores senderChain_lawful (fun _ => Nat.succ_pos _) (by decide)

theorem receiverChains_restores : (@list _ maxReceiverChains receiverChain).Restores
    (fun old => old.toList = []) (fun value restored => restored.toList = value.toList) :=
  list_restores receiverChain_lawful (fun _ => Nat.succ_pos _) (by decide)

theorem skippedMessageKeys_restores : (@list _ maxSkippedMessageKeys skippedMessageKey).Restores
    (fun old => old.toList = []) (fun value restored => restored.toList = value.toList) :=
  list_restores skippedMessageKey_lawful (fun _ => Nat.succ_pos _) (by decide)

theorem length_pickle (value : Ratchet (Block 32)) : value.pickle.length = value.pickleLength := by
  simp only [pickle, pickleLength, List.length_append, sharedKey_lawful.length_write,
    senderChains_restores.length_write, receiverChains_restores.length_write,
    skippedMessageKeys_restores.length_write]
  rfl

theorem unpickle_pickle {old : Ratchet (Block 32)} (fresh : old.Fresh) (value : Ratchet (Block 32)) (rest : Bytes) :
    ∃ restored, unpickle (value.pickle ++ rest) old false = (rest, restored) ∧ value.Restored restored := by
  obtain ⟨skippedMessageKeys, skipped, same_skipped⟩ :=
    skippedMessageKeys_restores.read_write fresh.skippedMessageKeys value.skippedMessageKeys rest
  obtain ⟨receiverChains, receivers, same_receivers⟩ :=
    receiverChains_restores.read_write fresh.receiverChains value.receiverChains
      ((list skippedMessageKey).write value.skippedMessageKeys ++ rest)
  obtain ⟨senderChain, sender, same_sender⟩ :=
    senderChains_restores.read_write fresh.senderChain value.senderChain
      ((list receiverChain).write value.receiverChains ++
        ((list skippedMessageKey).write value.skippedMessageKeys ++ rest))
  refine ⟨⟨old.lastError, value.rootKey, senderChain, receiverChains, skippedMessageKeys⟩, ?_,
    ⟨rfl, same_sender, same_receivers, same_skipped⟩⟩
  simp only [unpickle, pickle, List.append_assoc, sharedKey_lawful.read_write, sender, receivers, skipped,
    Bool.false_eq_true, if_false]

end Ratchet

/-! ### Sessions -/

namespace Session

def pickleVersion : UInt32 := 1

/-- What `unpickle` reads behind the version. -/
def unpickleFields (rest : Bytes) (value : Session (Block 32)) (includesChainIndex : Bool) :
    Bytes × Session (Block 32) :=
  let (rest, receivedMessage) := bool.read rest value.receivedMessage
  let (rest, aliceIdentityKey) := publicKey.read rest value.aliceIdentityKey
  let (rest, aliceBaseKey) := publicKey.read rest value.aliceBaseKey
  let (rest, bobOneTimeKey) := publicKey.read rest value.bobOneTimeKey
  let (rest, ratchet) := Ratchet.unpickle rest value.ratchet includesChainIndex
  (rest, { value with receivedMessage, aliceIdentityKey, aliceBaseKey, bobOneTimeKey, ratchet })

/-- The reader, which knows a second version that is never written. -/
def unpickleBody (rest : Bytes) (value : Session (Block 32)) : Bytes × Session (Block 32) :=
  let (rest, version) := uint32.read rest 0
  if version = 1 then unpickleFields rest value false
  else if version = 0x80000001 then unpickleFields rest value true
  else ([], { value with lastError := .unknownPickleVersion })

def codec : Codec UInt8 (Session (Block 32)) where
  length value := uint32.length pickleVersion + bool.length value.receivedMessage +
    publicKey.length value.aliceIdentityKey + publicKey.length value.aliceBaseKey +
    publicKey.length value.bobOneTimeKey + value.ratchet.pickleLength
  write value := uint32.write pickleVersion ++ bool.write value.receivedMessage ++
    publicKey.write value.aliceIdentityKey ++ publicKey.write value.aliceBaseKey ++
    publicKey.write value.bobOneTimeKey ++ value.ratchet.pickle
  read := unpickleBody

structure Restored (value restored : Session (Block 32)) : Prop where
  receivedMessage : restored.receivedMessage = value.receivedMessage
  aliceIdentityKey : restored.aliceIdentityKey = value.aliceIdentityKey
  aliceBaseKey : restored.aliceBaseKey = value.aliceBaseKey
  bobOneTimeKey : restored.bobOneTimeKey = value.bobOneTimeKey
  ratchet : value.ratchet.Restored restored.ratchet

theorem codec_restores : codec.Restores (fun old => old.ratchet.Fresh) Restored where
  length_write value := by
    simp only [codec, List.length_append, uint32_lawful.length_write, bool_lawful.length_write,
      publicKey_lawful.length_write, Ratchet.length_pickle]
  read_write {old} fresh value rest := by
    obtain ⟨ratchet, read, same⟩ := Ratchet.unpickle_pickle fresh value.ratchet rest
    refine ⟨⟨ratchet, old.lastError, value.receivedMessage, value.aliceIdentityKey, value.aliceBaseKey,
      value.bobOneTimeKey⟩, ?_, ⟨rfl, rfl, rfl, rfl, same⟩⟩
    simp only [codec, unpickleBody, unpickleFields, List.append_assoc, uint32_lawful.read_write, pickleVersion,
      if_true, bool_lawful.read_write, publicKey_lawful.read_write, read]

end Session

/-! ### Decryption objects -/

namespace PkDecryption

def pickleVersion : UInt32 := 1

def unpickleBody (rest : Bytes) (value : PkDecryption) : Bytes × PkDecryption :=
  let (rest, version) := uint32.read rest 0
  if version = 1 then
    let (rest, keyPair) := curve25519KeyPair.read rest value.keyPair
    (rest, { value with keyPair })
  else ([], { value with lastError := .unknownPickleVersion })

def codec : Codec UInt8 PkDecryption where
  length value := uint32.length pickleVersion + curve25519KeyPair.length value.keyPair
  write value := uint32.write pickleVersion ++ curve25519KeyPair.write value.keyPair
  read := unpickleBody

theorem codec_restores :
    codec.Restores (fun _ => True) (fun value restored => restored.keyPair = value.keyPair) where
  length_write value := by
    simp only [codec, List.length_append, uint32_lawful.length_write, curve25519KeyPair_lawful.length_write]
  read_write {old} _ value rest := by
    refine ⟨{ old with keyPair := value.keyPair }, ?_, rfl⟩
    simp only [codec, unpickleBody, List.append_assoc, uint32_lawful.read_write, pickleVersion, if_true,
      curve25519KeyPair_lawful.read_write]

end PkDecryption

/-! ### Group sessions -/

namespace InboundGroupSession

def rawPickleLength (session : InboundGroupSession) : Nat :=
  uint32.length pickleVersion + megolm.length session.initialRatchet + megolm.length session.latestRatchet +
    publicKey.length session.signingKey + bool.length session.signingKeyVerified

/-- What `olm_pickle_inbound_group_session` writes before it is encrypted. -/
def pickleBody (session : InboundGroupSession) : Bytes :=
  uint32.write pickleVersion ++ megolm.write session.initialRatchet ++ megolm.write session.latestRatchet ++
    publicKey.write session.signingKey ++ bool.write session.signingKeyVerified

theorem length_pickleBody (session : InboundGroupSession) : session.pickleBody.length = session.rawPickleLength := by
  simp only [pickleBody, rawPickleLength, List.length_append, uint32_lawful.length_write, megolm_lawful.length_write,
    publicKey_lawful.length_write, bool_lawful.length_write]

theorem unpickleBody_pickleBody (old session : InboundGroupSession) :
    old.unpickleBody session.pickleBody = ({ session with lastError := old.lastError }, some ()) := by
  have flag : unpickleBool (pickleBool session.signingKeyVerified) old.signingKeyVerified =
      ([], session.signingKeyVerified) := by
    have read := bool_lawful.read_write session.signingKeyVerified [] old.signingKeyVerified
    rwa [List.append_nil] at read
  have known : ¬ (pickleVersion < 1 ∨ pickleVersion > pickleVersion) := by decide
  have second : ¬ pickleVersion = 1 := by decide
  have megolm (value old : Megolm (Block 32)) (rest : Bytes) :
      Megolm.unpickle (value.pickle ++ rest) old = (rest, value) := megolm_lawful.read_write value rest old
  simp only [unpickleBody, pickleBody, uint32, Pickle.megolm, publicKey, bytes, Pickle.bool, List.append_assoc,
    unpickleUint32_append, if_neg known, megolm, unpickleBytes_append, if_neg second, flag, ne_eq, not_true_eq_false,
    if_false]

end InboundGroupSession

namespace OutboundGroupSession

def rawPickleLength (session : OutboundGroupSession) : Nat :=
  uint32.length pickleVersion + megolm.length session.ratchet + ed25519KeyPair.length session.signingKey

/-- What `olm_pickle_outbound_group_session` writes before it is encrypted. -/
def pickleBody (session : OutboundGroupSession) : Bytes :=
  uint32.write pickleVersion ++ megolm.write session.ratchet ++ ed25519KeyPair.write session.signingKey

theorem length_pickleBody (session : OutboundGroupSession) : session.pickleBody.length = session.rawPickleLength := by
  simp only [pickleBody, rawPickleLength, List.length_append, uint32_lawful.length_write, megolm_lawful.length_write,
    ed25519KeyPair_lawful.length_write]

theorem unpickleBody_pickleBody (old session : OutboundGroupSession) :
    old.unpickleBody session.pickleBody = ({ session with lastError := old.lastError }, some ()) := by
  have megolm (rest : Bytes) : Megolm.unpickle (session.ratchet.pickle ++ rest) old.ratchet = (rest, session.ratchet) :=
    megolm_lawful.read_write session.ratchet rest old.ratchet
  have keys : Ed25519KeyPair.unpickle session.signingKey.pickle old.signingKey = ([], session.signingKey) := by
    have read := ed25519KeyPair_lawful.read_write session.signingKey [] old.signingKey
    rwa [List.append_nil] at read
  simp only [unpickleBody, pickleBody, uint32, Pickle.megolm, ed25519KeyPair, List.append_assoc,
    unpickleUint32_append, ne_eq, not_true_eq_false, if_false, megolm, keys]

end OutboundGroupSession

end RubyOlm
