import RubyOlm.DoubleRatchet.Represents

/-!
# Symbolic ratchets

A ratchet whose keys are terms and whose messages show the key that sealed them: key derivation is free
and messages are ideal. Exchanging keys is addition of bits.
-/

namespace RubyOlm

structure SymbolicMessage where
  key : KeyTerm Bytes Bytes Bytes
  counter : UInt32
  ratchetKey : PublicKey
  plaintext : Bytes

def symbolicWire : Wire (KeyTerm Bytes Bytes Bytes) SymbolicMessage where
  outputLength _ plaintextLength := plaintextLength
  write key counter ratchetKey plaintext _ := ⟨key, counter, ratchetKey, plaintext⟩
  read message :=
    ⟨Ratchet.protocolVersion, ⟨message.counter, true⟩, some message.ratchetKey.val, some message.plaintext⟩
  maxPlaintextLength ciphertextLength := ciphertextLength
  decrypt key message _ _ := if key = message.key then some message.plaintext else none

def xorCurve : Curve25519 := fun secret point => ⟨List.zipWith (· ^^^ ·) secret.val point.val, by simp⟩

def symbolicRatchet : RatchetOps (KeyTerm Bytes Bytes Bytes) SymbolicMessage where
  toKeyAlgebra := KeyTerm.algebra
  zeroKey := .zero
  curve25519 := xorCurve
  kdfInfo := ⟨[0], [1]⟩
  wire := symbolicWire

theorem symbolicWire_opens (message : SymbolicMessage) (ciphertext : Bytes) (maxPlaintextLength : Nat) :
    symbolicWire.decrypt message.key message ciphertext maxPlaintextLength = some message.plaintext := if_pos rfl

theorem symbolicWire_ideal : symbolicWire.Ideal where
  reads := by
    rintro key counter ratchetKey plaintext message ⟨output, -, rfl⟩
    exact ⟨plaintext, rfl, fun n _ => symbolicWire_opens ⟨key, counter, ratchetKey, plaintext⟩ plaintext n⟩
  only := by
    rintro key counter ratchetKey plaintext message ⟨output, -, rfl⟩ key' ciphertext maxPlaintextLength plaintext' opened
    by_contra different
    have failed : (if key' = key then some plaintext else none) = some plaintext' := opened
    rw [if_neg different] at failed
    cases failed

theorem symbolicRatchet_free : symbolicRatchet.Free := KeyTerm.algebra_free

theorem xorCurve_commutes : Commutes xorCurve := by
  have swap (x y z : UInt8) : x ^^^ (y ^^^ z) = y ^^^ (x ^^^ z) := by
    rw [← UInt8.xor_assoc, ← UInt8.xor_assoc, UInt8.xor_comm x]
  intro a b
  apply Subtype.ext
  apply List.ext_getElem (by simp [xorCurve])
  intro i _ _
  simp only [xorCurve, List.getElem_zipWith]
  exact swap _ _ _

def clearedRatchet {Key : Type} (zero : Key) : Ratchet Key where
  lastError := .success
  rootKey := zero
  senderChain := OlmList.new (Vector.replicate 1 ⟨⟨Block.zero 32, Block.zero 32⟩, 0, zero⟩)
  receiverChains := OlmList.new (Vector.replicate maxReceiverChains ⟨Block.zero 32, 0, zero⟩)
  skippedMessageKeys := OlmList.new (Vector.replicate maxSkippedMessageKeys ⟨Block.zero 32, 0, zero⟩)

def symbolicPair : Curve25519KeyPair := generateKey xorCurve (Block.zero 32)

def symbolicWorld : World (KeyTerm Bytes Bytes Bytes) SymbolicMessage :=
  (World.start symbolicRatchet (fun _ => clearedRatchet .zero) [] symbolicPair).step symbolicRatchet
    (.encrypt .alice [104] [] ⟨[0], by decide⟩)

def symbolicMessage : SymbolicMessage := ⟨.hmac (.extract false [] [0]) [1], 0, symbolicPair.publicKey, [104]⟩

end RubyOlm
