import RubyOlm.DoubleRatchet.Decrypted
import RubyOlm.Session.Session

/-!
# Failed calls leave a session as it was

Whatever the cipher and the hash functions are, a `decrypt` or an `encrypt` that fails changes the error
codes of the session and of its ratchet and nothing else.
-/

namespace RubyOlm.Session

variable {Key : Type}

/-- The session, up to its error codes. -/
structure Intact (before after : Session Key) : Prop where
  receivedMessage : after.receivedMessage = before.receivedMessage
  aliceIdentityKey : after.aliceIdentityKey = before.aliceIdentityKey
  aliceBaseKey : after.aliceBaseKey = before.aliceBaseKey
  bobOneTimeKey : after.bobOneTimeKey = before.bobOneTimeKey
  rootKey : after.ratchet.rootKey = before.ratchet.rootKey
  senderChain : after.ratchet.senderChain = before.ratchet.senderChain
  receiverChains : after.ratchet.receiverChains = before.ratchet.receiverChains
  skippedMessageKeys : after.ratchet.skippedMessageKeys = before.ratchet.skippedMessageKeys

theorem intact_takeError (session : Session Key) {ratchet : Ratchet Key}
    (same : ratchet = { session.ratchet with lastError := ratchet.lastError }) :
    session.Intact (session.takeError ratchet) := by
  rw [same]
  exact ⟨rfl, rfl, rfl, rfl, rfl, rfl, rfl, rfl⟩

variable (ops : RatchetOps Key Bytes)

theorem decrypt_failed_intact {session after : Session Key} {stack : PreKeyMessageReader} {messageType : MessageType}
    {message : Bytes} {maxPlaintextLength : Nat}
    (failed : session.decrypt ops stack messageType message maxPlaintextLength = (after, none)) :
    session.Intact after := by
  unfold decrypt at failed
  split at failed
  · obtain ⟨rfl, -⟩ := Prod.mk.inj failed
    exact ⟨rfl, rfl, rfl, rfl, rfl, rfl, rfl, rfl⟩
  · split at failed
    · rename_i ratchet ratchet_failed
      obtain ⟨rfl, -⟩ := Prod.mk.inj failed
      exact session.intact_takeError (Ratchet.decrypt_eq_none ops ratchet_failed)
    · cases failed

theorem encrypt_failed_intact {session after : Session Key} {plaintext random message : Bytes}
    (failed : session.encrypt ops plaintext random message = (after, none)) : session.Intact after := by
  unfold encrypt at failed
  split at failed
  · obtain ⟨rfl, -⟩ := Prod.mk.inj failed
    exact ⟨rfl, rfl, rfl, rfl, rfl, rfl, rfl, rfl⟩
  · simp only at failed
    split at failed
    · rename_i ratchet ratchet_failed
      obtain ⟨rfl, -⟩ := Prod.mk.inj failed
      exact session.intact_takeError (Ratchet.encrypt_eq_none ops ratchet_failed)
    · cases failed

theorem failed_calls_intact (session after : Session Key) :
    (∀ stack messageType message maxPlaintextLength,
      session.decrypt ops stack messageType message maxPlaintextLength = (after, none) → session.Intact after) ∧
      ∀ plaintext random message,
        session.encrypt ops plaintext random message = (after, none) → session.Intact after :=
  ⟨fun _ _ _ _ failed => decrypt_failed_intact ops failed, fun _ _ _ failed => encrypt_failed_intact ops failed⟩

def plainSession : Session (Block 32) where
  ratchet :=
    { lastError := .success
      rootKey := Block.zero 32
      senderChain := OlmList.new (Vector.replicate 1 ⟨⟨Block.zero 32, Block.zero 32⟩, 0, Block.zero 32⟩)
      receiverChains := OlmList.new (Vector.replicate maxReceiverChains ⟨Block.zero 32, 0, Block.zero 32⟩)
      skippedMessageKeys :=
        OlmList.new (Vector.replicate maxSkippedMessageKeys ⟨Block.zero 32, 0, Block.zero 32⟩) }
  lastError := .success
  receivedMessage := true
  aliceIdentityKey := Block.zero 32
  aliceBaseKey := Block.zero 32
  bobOneTimeKey := Block.zero 32

/-- It has a live chain that has come to index five, and the key of message three is skipped. -/
def skippingSession : Session (Block 32) :=
  { plainSession with
    ratchet :=
      { plainSession.ratchet with
        receiverChains := plainSession.ratchet.receiverChains.pushFront ⟨Block.zero 32, 5, Block.zero 32⟩
        skippedMessageKeys := plainSession.ratchet.skippedMessageKeys.pushFront ⟨Block.zero 32, 3, Block.zero 32⟩ } }

def genuineMessage (counter : UInt32) : Bytes := olmMessage Crypto.plain (Block.zero 32) counter (Block.zero 32) [7]

/-- The message under a MAC of zeros. -/
def forgedMessage (counter : UInt32) : Bytes :=
  (genuineMessage counter).take ((genuineMessage counter).length - cipherMacLength) ++
    List.replicate cipherMacLength 0

def plainOps : RatchetOps (Block 32) Bytes := olmRatchet Crypto.plain ⟨0, ⟨0, false⟩, none, none⟩

def skippingDecrypt (message : Bytes) : Session (Block 32) × Option Bytes :=
  skippingSession.decrypt plainOps ⟨0, none, none, none, none⟩ .message message 16

def skippingEncrypt (message : Bytes) : Session (Block 32) × Option (Nat × Bytes) :=
  skippingSession.encrypt plainOps [7] (List.replicate 32 1) message

theorem failed_calls_intact_forged :
    ((skippingDecrypt (genuineMessage 3)).2 = some [7] ∧ (skippingDecrypt (genuineMessage 7)).2 = some [7]) ∧
      (∀ counter ∈ [3, 7], ∃ after, skippingDecrypt (forgedMessage counter) = (after, none) ∧
        after.lastError = .badMessageMac ∧ skippingSession.Intact after) ∧
      ∃ after, skippingEncrypt [] = (after, none) ∧ after.lastError = .outputBufferTooSmall ∧
        skippingSession.Intact after := by
  have intact := failed_calls_intact plainOps skippingSession
  have refused (counter : UInt32) (mem : counter ∈ [3, 7]) : (skippingDecrypt (forgedMessage counter)).2 = none ∧
      (skippingDecrypt (forgedMessage counter)).1.lastError = .badMessageMac := by
    obtain rfl | mem := List.mem_cons.mp mem
    · decide +kernel
    · obtain rfl := List.mem_singleton.mp mem
      decide +kernel
  have small : (skippingEncrypt []).2 = none ∧ (skippingEncrypt []).1.lastError = .outputBufferTooSmall := by decide +kernel
  refine ⟨by decide +kernel, ?_, ?_⟩
  · intro counter mem
    obtain ⟨failed, error⟩ := refused counter mem
    rcases done : skippingDecrypt (forgedMessage counter) with ⟨after, result⟩
    rw [done] at failed error
    obtain rfl : result = none := failed
    exact ⟨after, rfl, error, (intact after).1 _ _ _ _ done⟩
  · obtain ⟨failed, error⟩ := small
    rcases done : skippingEncrypt [] with ⟨after, result⟩
    rw [done] at failed error
    obtain rfl : result = none := failed
    exact ⟨after, rfl, error, (intact after).2 _ _ _ done⟩

end RubyOlm.Session
