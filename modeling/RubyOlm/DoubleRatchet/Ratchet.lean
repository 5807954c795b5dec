import RubyOlm.List
import RubyOlm.Cipher
import RubyOlm.Message.Format
import RubyOlm.Theory.KeyAlgebra

/-!
# The double ratchet

`ratchet.cpp`. Keys are of any type with an HMAC and an HKDF, and messages of any type that a cipher
writes and reads, so that one model serves the library's own byte strings and symbolic keys. No result
is `size_t(-1)`.
-/

namespace RubyOlm

structure KdfInfo where
  rootInfo : Bytes
  ratchetInfo : Bytes

/-- What `decode_message` found in a message. -/
structure Reading where
  version : UInt8
  counter : IntField
  ratchetKey : Option Bytes
  ciphertext : Option Bytes

/-- The messages of a ratchet, written and read by `message.cpp` and `ratchet_cipher`. `write` is given
an output buffer of `outputLength` bytes. -/
structure Wire (Key Msg : Type) where
  outputLength : (counter : UInt32) → (plaintextLength : Nat) → Nat
  write : Key → (counter : UInt32) → (ratchetKey : PublicKey) → (plaintext output : Bytes) → Msg
  read : Msg → Reading
  maxPlaintextLength : (ciphertextLength : Nat) → Nat
  decrypt : Key → (input : Msg) → (ciphertext : Bytes) → (maxPlaintextLength : Nat) → Option Bytes

/-- What a ratchet is built over. `zeroKey` is a key after `olm::unset`. -/
structure RatchetOps (Key Msg : Type) extends KeyAlgebra Key Bytes Bytes Bytes where
  zeroKey : Key
  curve25519 : Curve25519
  kdfInfo : KdfInfo
  wire : Wire Key Msg

structure ChainKey (Key : Type) where
  index : UInt32
  key : Key
  deriving DecidableEq

structure MessageKey (Key : Type) where
  index : UInt32
  key : Key
  deriving DecidableEq

structure SenderChain (Key : Type) where
  ratchetKey : Curve25519KeyPair
  chainKey : ChainKey Key
  deriving DecidableEq

structure ReceiverChain (Key : Type) where
  ratchetKey : PublicKey
  chainKey : ChainKey Key
  deriving DecidableEq

structure SkippedMessageKey (Key : Type) where
  ratchetKey : PublicKey
  messageKey : MessageKey Key
  deriving DecidableEq

def maxReceiverChains : Nat := 5

def maxSkippedMessageKeys : Nat := 40

def maxMessageGap : Nat := 2000

def chainKeySeed : Bytes := [2]

def messageKeySeed : Bytes := [1]

structure Ratchet (Key : Type) where
  lastError : OlmErrorCode
  rootKey : Key
  senderChain : OlmList (SenderChain Key) 1
  receiverChains : OlmList (ReceiverChain Key) maxReceiverChains
  skippedMessageKeys : OlmList (SkippedMessageKey Key) maxSkippedMessageKeys

/-- A reader whose fields have been checked: what is left to do is to decrypt. -/
structure CheckedReader (Msg : Type) where
  input : Msg
  counter : UInt32
  ratchetKey : PublicKey
  ciphertext : Bytes

namespace Ratchet

def protocolVersion : UInt8 := 3

variable {Key Msg : Type} (ops : RatchetOps Key Msg)

/-! ### Keys -/

/-- `create_chain_key`: the new root key and the first key of the new chain. -/
def createChainKey (rootKey : Key) (ourKey : Curve25519KeyPair) (theirKey : PublicKey) :
    Key × ChainKey Key :=
  let secret := sharedSecret ops.curve25519 ourKey theirKey
  let derived := ops.hkdf secret.val (some rootKey) ops.kdfInfo.ratchetInfo
  (derived.1, ⟨0, derived.2⟩)

def advanceChainKey (chainKey : ChainKey Key) : ChainKey Key :=
  ⟨chainKey.index + 1, ops.hmac chainKey.key chainKeySeed⟩

def createMessageKeys (chainKey : ChainKey Key) : MessageKey Key :=
  ⟨chainKey.index, ops.hmac chainKey.key messageKeySeed⟩

/-- The turns left in a loop `while (chain_key.index < counter)` that advances the chain key. -/
def turns (chainKey : ChainKey Key) (counter : UInt32) : Nat := counter.toNat - chainKey.index.toNat

def advanceWhile (counter : UInt32) : (fuel : Nat) → ChainKey Key → ChainKey Key
  | 0, chainKey => chainKey
  | fuel + 1, chainKey =>
    if chainKey.index < counter then advanceWhile counter fuel (advanceChainKey ops chainKey) else chainKey

/-! ### The start of a ratchet -/

/-- The constructor, over memory that already holds `memory`. -/
def new (memory : Ratchet Key) : Ratchet Key where
  lastError := .success
  rootKey := memory.rootKey
  senderChain := OlmList.new memory.senderChain.data
  receiverChains := OlmList.new memory.receiverChains.data
  skippedMessageKeys := OlmList.new memory.skippedMessageKeys.data

def initialiseAsBob (ratchet : Ratchet Key) (secret : Bytes) (theirRatchetKey : PublicKey) : Ratchet Key :=
  let derived := ops.hkdf secret none ops.kdfInfo.rootInfo
  { ratchet with
    rootKey := derived.1
    receiverChains := ratchet.receiverChains.pushFront ⟨theirRatchetKey, 0, derived.2⟩ }

def initialiseAsAlice (ratchet : Ratchet Key) (secret : Bytes) (ourRatchetKey : Curve25519KeyPair) :
    Ratchet Key :=
  let derived := ops.hkdf secret none ops.kdfInfo.rootInfo
  { ratchet with
    rootKey := derived.1
    senderChain := ratchet.senderChain.pushFront ⟨ourRatchetKey, 0, derived.2⟩ }

theorem initialiseAsAlice_sender (memory : Ratchet Key) (secret : Bytes) (ourRatchetKey : Curve25519KeyPair) :
    ((new memory).initialiseAsAlice ops secret ourRatchetKey).senderChain.toList =
      [⟨ourRatchetKey, 0, (ops.hkdf secret none ops.kdfInfo.rootInfo).2⟩] := by
  unfold initialiseAsAlice new
  rw [OlmList.toList_pushFront _ _ (by decide), OlmList.toList_new]
  rfl

theorem initialiseAsBob_receivers (memory : Ratchet Key) (secret : Bytes) (theirRatchetKey : PublicKey) :
    ((new memory).initialiseAsBob ops secret theirRatchetKey).receiverChains.toList =
      [⟨theirRatchetKey, 0, (ops.hkdf secret none ops.kdfInfo.rootInfo).2⟩] := by
  unfold initialiseAsBob new
  rw [OlmList.toList_pushFront _ _ (by decide), OlmList.toList_new]
  rfl

/-! ### Encryption -/

def sender (ratchet : Ratchet Key) : SenderChain Key := ratchet.senderChain.data[0]

def receiver (ratchet : Ratchet Key) : ReceiverChain Key :=
  have slots : 0 < maxReceiverChains := by decide
  ratchet.receiverChains.data[0]

def encryptOutputLength (ratchet : Ratchet Key) (plaintextLength : Nat) : Nat :=
  let counter := if ratchet.senderChain.empty then 0 else ratchet.sender.chainKey.index
  ops.wire.outputLength counter plaintextLength

def encryptRandomLength (ratchet : Ratchet Key) : Nat := if ratchet.senderChain.empty then 32 else 0

def startSenderChain (ratchet : Ratchet Key) (random : Block 32) : Ratchet Key :=
  let ratchetKey := generateKey ops.curve25519 random
  let (rootKey, chainKey) := createChainKey ops ratchet.rootKey ratchetKey ratchet.receiver.ratchetKey
  { ratchet with rootKey, senderChain := ratchet.senderChain.pushFront ⟨ratchetKey, chainKey⟩ }

theorem startSenderChain_live {ratchet : Ratchet Key} (none : ratchet.senderChain.toList = []) (random : Block 32) :
    (ratchet.startSenderChain ops random).senderChain.toList =
      [⟨generateKey ops.curve25519 random, (createChainKey ops ratchet.rootKey (generateKey ops.curve25519 random)
        ratchet.receiver.ratchetKey).2⟩] := by
  unfold startSenderChain
  simp only
  rw [OlmList.toList_pushFront _ _ (by decide), none]
  rfl

/-- The part of `encrypt` that has a sender chain to use, into `output`. -/
def encryptOnChain (ratchet : Ratchet Key) (plaintext output : Bytes) : Ratchet Key × Msg :=
  let chain := ratchet.sender
  let keys := createMessageKeys ops chain.chainKey
  ({ ratchet with
      senderChain := ratchet.senderChain.set 0 { chain with chainKey := advanceChainKey ops chain.chainKey } },
    ops.wire.write keys.key keys.index chain.ratchetKey.publicKey plaintext output)

/-- `encrypt`, into a buffer that holds `output`. -/
def encrypt (ratchet : Ratchet Key) (plaintext random output : Bytes) : Ratchet Key × Option Msg :=
  let outputLength := ratchet.encryptOutputLength ops plaintext.length
  if random.length < ratchet.encryptRandomLength then ({ ratchet with lastError := .notEnoughRandom }, none)
  else if output.length < outputLength then ({ ratchet with lastError := .outputBufferTooSmall }, none)
  else
    let ratchet :=
      if ratchet.senderChain.empty then ratchet.startSenderChain ops (Block.load 32 random) else ratchet
    let (ratchet, message) := ratchet.encryptOnChain ops plaintext (output.take outputLength)
    (ratchet, some message)

/-! ### Decryption -/

def decryptMaxPlaintextLength (ratchet : Ratchet Key) (input : Msg) : Ratchet Key × Option Nat :=
  match (ops.wire.read input).ciphertext with
  | none => ({ ratchet with lastError := .badMessageFormat }, none)
  | some ciphertext => (ratchet, some (ops.wire.maxPlaintextLength ciphertext.length))

/-- The checks of `decrypt` on the reader, in its order. -/
def checkReader (input : Msg) (maxPlaintextLength : Nat) : Except OlmErrorCode (CheckedReader Msg) :=
  let reader := ops.wire.read input
  if reader.version ≠ protocolVersion then .error .badMessageVersion
  else
    match reader.counter.has, reader.ratchetKey, reader.ciphertext with
    | true, some ratchetKey, some ciphertext =>
      if maxPlaintextLength < ops.wire.maxPlaintextLength ciphertext.length then .error .outputBufferTooSmall
      else if ratchetKey.length ≠ 32 then .error .badMessageFormat
      else .ok ⟨input, reader.counter.value, Block.load 32 ratchetKey, ciphertext⟩
    | _, _, _ => .error .badMessageFormat

def verifyMacAndDecrypt (messageKey : MessageKey Key) (reader : CheckedReader Msg) (maxPlaintextLength : Nat) :
    Option Bytes :=
  ops.wire.decrypt messageKey.key reader.input reader.ciphertext maxPlaintextLength

def verifyMacAndDecryptForExistingChain (chain : ChainKey Key) (reader : CheckedReader Msg)
    (maxPlaintextLength : Nat) : Option Bytes :=
  if reader.counter < chain.index then none
  else if (reader.counter - chain.index).toNat > maxMessageGap then none
  else
    let newChain := advanceWhile ops reader.counter (turns chain reader.counter) chain
    verifyMacAndDecrypt ops (createMessageKeys ops newChain) reader maxPlaintextLength

def verifyMacAndDecryptForNewChain (ratchet : Ratchet Key) (reader : CheckedReader Msg)
    (maxPlaintextLength : Nat) : Option Bytes :=
  if ratchet.senderChain.empty then none
  else if reader.counter.toNat > maxMessageGap then none
  else
    let (_, chainKey) := createChainKey ops ratchet.rootKey ratchet.sender.ratchetKey reader.ratchetKey
    verifyMacAndDecryptForExistingChain ops chainKey reader maxPlaintextLength

/-- The loop over `receiver_chains`: the first chain under the key, and its place. -/
def findChain (ratchetKey : PublicKey) : (chains : List (ReceiverChain Key)) → Option (Nat × ReceiverChain Key)
  | [] => none
  | chain :: chains =>
    if chain.ratchetKey = ratchetKey then some (0, chain)
    else (findChain ratchetKey chains).map fun found => (found.1 + 1, found.2)

/-- The loop over `skipped_message_keys`: the first key for the message that opens it, by its place,
and the plaintext. -/
def trySkipped (reader : CheckedReader Msg) (maxPlaintextLength : Nat) :
    (skipped : List (SkippedMessageKey Key)) → Option (Nat × Bytes)
  | [] => none
  | key :: skipped =>
    let result :=
      if reader.counter = key.messageKey.index ∧ key.ratchetKey = reader.ratchetKey then
        verifyMacAndDecrypt ops key.messageKey reader maxPlaintextLength
      else none
    match result with
    | some plaintext => some (0, plaintext)
    | none =>
      (trySkipped reader maxPlaintextLength skipped).map fun found => (found.1 + 1, found.2)

/-- `olm::unset` of a skipped key, and its removal. -/
def removeSkipped (ratchet : Ratchet Key) (pos : Nat) : Ratchet Key :=
  let zero : SkippedMessageKey Key := ⟨Block.zero 32, 0, ops.zeroKey⟩
  { ratchet with skippedMessageKeys := (ratchet.skippedMessageKeys.set pos zero).erase pos }

/-- A new receiver chain, which ends our own sender chain. -/
def startReceiverChain (ratchet : Ratchet Key) (ratchetKey : PublicKey) : Ratchet Key :=
  let (rootKey, chainKey) := createChainKey ops ratchet.rootKey ratchet.sender.ratchetKey ratchetKey
  let zero : SenderChain Key := ⟨⟨Block.zero 32, Block.zero 32⟩, 0, ops.zeroKey⟩
  { ratchet with
    rootKey
    receiverChains := ratchet.receiverChains.pushFront ⟨ratchetKey, chainKey⟩
    senderChain := (ratchet.senderChain.set 0 zero).erase 0 }

/-- The `while` loop at the end of `decrypt`, which stores the message keys that it passes. -/
def skipWhile (counter : UInt32) : (fuel : Nat) → ReceiverChain Key →
    OlmList (SkippedMessageKey Key) maxSkippedMessageKeys →
    ReceiverChain Key × OlmList (SkippedMessageKey Key) maxSkippedMessageKeys
  | 0, chain, skipped => (chain, skipped)
  | fuel + 1, chain, skipped =>
    if chain.chainKey.index < counter then
      skipWhile counter fuel { chain with chainKey := advanceChainKey ops chain.chainKey }
        (skipped.pushFront ⟨chain.ratchetKey, createMessageKeys ops chain.chainKey⟩)
    else (chain, skipped)

/-- The end of `decrypt`, for the receiver chain at `pos`. -/
def moveChain (ratchet : Ratchet Key) (pos : Nat) (chain : ReceiverChain Key) (counter : UInt32) :
    Ratchet Key :=
  let (chain, skipped) := skipWhile ops counter (turns chain.chainKey counter) chain ratchet.skippedMessageKeys
  { ratchet with
    skippedMessageKeys := skipped
    receiverChains :=
      ratchet.receiverChains.set pos { chain with chainKey := advanceChainKey ops chain.chainKey } }

/-- `decrypt` of a message that passed the checks. -/
def decryptChecked (ratchet : Ratchet Key) (reader : CheckedReader Msg) (maxPlaintextLength : Nat) :
    Ratchet Key × Option Bytes :=
  let failed := ({ ratchet with lastError := .badMessageMac }, none)
  match findChain reader.ratchetKey ratchet.receiverChains.toList with
  | none =>
    match verifyMacAndDecryptForNewChain ops ratchet reader maxPlaintextLength with
    | none => failed
    | some plaintext =>
      let ratchet := ratchet.startReceiverChain ops reader.ratchetKey
      (ratchet.moveChain ops 0 ratchet.receiver reader.counter, some plaintext)
  | some (pos, chain) =>
    if chain.chainKey.index > reader.counter then
      match trySkipped ops reader maxPlaintextLength ratchet.skippedMessageKeys.toList with
      | none => failed
      | some (skipped, plaintext) => (ratchet.removeSkipped ops skipped, some plaintext)
    else
      match verifyMacAndDecryptForExistingChain ops chain.chainKey reader maxPlaintextLength with
      | none => failed
      | some plaintext => (ratchet.moveChain ops pos chain reader.counter, some plaintext)

/-- `decrypt`, into a buffer of `maxPlaintextLength` bytes. -/
def decrypt (ratchet : Ratchet Key) (input : Msg) (maxPlaintextLength : Nat) : Ratchet Key × Option Bytes :=
  match checkReader ops input maxPlaintextLength with
  | .error error => ({ ratchet with lastError := error }, none)
  | .ok reader => ratchet.decryptChecked ops reader maxPlaintextLength

end Ratchet

/-! ### What a ratchet relies on -/

namespace Wire

variable {Key Msg : Type} (wire : Wire Key Msg)

/-- `message` was written with these fields under `key`, into a buffer of the right length. -/
def Writes (key : Key) (counter : UInt32) (ratchetKey : PublicKey) (plaintext : Bytes) (message : Msg) : Prop :=
  ∃ output : Buffer, output.val.length = wire.outputLength counter plaintext.length ∧
    message = wire.write key counter ratchetKey plaintext output.val

/-- A message reads back as what was written, and opens under the key that sealed it. -/
structure Correct : Prop where
  reads : ∀ {key counter ratchetKey plaintext message}, wire.Writes key counter ratchetKey plaintext message →
    ∃ ciphertext, wire.read message =
        ⟨Ratchet.protocolVersion, ⟨counter, true⟩, some ratchetKey.val, some ciphertext⟩ ∧
      ∀ maxPlaintextLength, wire.maxPlaintextLength ciphertext.length ≤ maxPlaintextLength →
        wire.decrypt key message ciphertext maxPlaintextLength = some plaintext

structure Ideal : Prop extends Correct wire where
  only : ∀ {key counter ratchetKey plaintext message}, wire.Writes key counter ratchetKey plaintext message →
    ∀ {key' ciphertext maxPlaintextLength plaintext'},
      wire.decrypt key' message ciphertext maxPlaintextLength = some plaintext' → key' = key

end Wire

end RubyOlm
