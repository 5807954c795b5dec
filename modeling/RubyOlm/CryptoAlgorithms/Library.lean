import RubyOlm.Buffers.KeyDerivation
import RubyOlm.CryptoAlgorithms.AesCipher
import RubyOlm.CryptoAlgorithms.Sha256Hash
import RubyOlm.DoubleRatchet.Commute

/-!
# The library as a parameter

The block cipher and the hash function of `crypto.cpp` are parameters elsewhere, and stand for the functions of the
`crypto-algorithms` library. These have the properties that are asked of the parameters.
-/

namespace RubyOlm

/-! ### The block cipher -/

namespace Aes

/-- The calls of `aes_encrypt` and `aes_decrypt`, each under a schedule that has just been made in `keySchedule`. -/
def cryptoAlgorithms (keySchedule : List UInt32) (overread : Nat → UInt8) : Aes where
  encrypt key block := aesEncrypt block (aesKeySetup key.val keySchedule 256) 256
  decrypt key block := aesDecrypt block (aesKeySetup key.val keySchedule 256) 256
  overread := overread

variable (keySchedule : List UInt32) (overread : Nat → UInt8)

theorem cryptoAlgorithms_permutation : (cryptoAlgorithms keySchedule overread).Permutation := by
  have agreed : Agreed 256 := .inr (.inr (by decide))
  exact ⟨fun _ => aesDecrypt_aesEncrypt _ agreed, fun _ => aesEncrypt_aesDecrypt _ agreed⟩

/-- `key_schedule` has 60 words on the stack, and what was in them makes no difference. -/
theorem cryptoAlgorithms_stack {keySchedule keySchedule' : List UInt32} (words : keySchedule.length = 60)
    (words' : keySchedule'.length = 60) :
    cryptoAlgorithms keySchedule overread = cryptoAlgorithms keySchedule' overread := by
  have parameters : aesParameters 256 = some (14, 8) := by decide
  have agreed : Agreed 256 := .inr (.inr (by decide))
  have schedules (key : Bytes) := (scheduled_aesKeySetup key parameters (Nat.le_of_eq words.symm)).trans
    (scheduled_aesKeySetup key parameters (Nat.le_of_eq words'.symm)).symm
  have encrypts (key : Block 32) (block : Block 16) : aesEncrypt block (aesKeySetup key.val keySchedule 256) 256 =
      aesEncrypt block (aesKeySetup key.val keySchedule' 256) 256 := by
    apply block_ext
    rw [aesEncrypt_matrix, aesEncrypt_matrix, schedules]
  have decrypts (key : Block 32) (block : Block 16) : aesDecrypt block (aesKeySetup key.val keySchedule 256) 256 =
      aesDecrypt block (aesKeySetup key.val keySchedule' 256) 256 := by
    apply block_ext
    rw [aesDecrypt_matrix block _ agreed, aesDecrypt_matrix block _ agreed, schedules]
  rw [cryptoAlgorithms, cryptoAlgorithms, mk.injEq]
  exact ⟨funext fun key => funext (encrypts key), funext fun key => funext (decrypts key), rfl⟩

end Aes

/-! ### The hash function -/

namespace Sha256

/-- The functions on `SHA256_CTX`; a piece is one that `sha256_update` gets through. -/
def cryptoAlgorithms : Sha256 where
  Context := Sha256Ctx
  init := sha256Init
  update context input := input.foldl sha256Byte context
  final := sha256Final

theorem cryptoAlgorithms_update {input : Bytes} (short : input.length < 2 ^ 32) (context : Sha256Ctx) :
    sha256Update context input (2 ^ 32) 0 = some (cryptoAlgorithms.update context input) :=
  sha256Update_within short context

theorem cryptoAlgorithms_streams : cryptoAlgorithms.Streams Sha2.hash := by
  intro prior updates
  obtain ⟨count, hashing⟩ := Sha256Ctx.hashing_foldl (Sha256Ctx.hashing_init prior) updates.flatten
  rw [List.nil_append, List.foldl_flatten] at hashing
  exact Sha256Ctx.sha256Final_hash hashing

end Sha256

/-! ### All of it -/

/-- What `crypto.cpp` makes of the library, next to any two curves. -/
def Crypto.cryptoAlgorithms (curve25519 : Curve25519) (ed25519 : Ed25519) (keySchedule : List UInt32)
    (overread : Nat → UInt8) : Crypto where
  sha256 := Sha2.hash
  curve25519 := curve25519
  ed25519 := ed25519
  kdf := Kdf.standard Sha2.hash
  aes := Aes.cryptoAlgorithms keySchedule overread

section Library

variable (curve25519 : Curve25519) (ed25519 : Ed25519) (keySchedule : List UInt32) (overread : Nat → UInt8)

/-- Its hash, HMAC and HKDF are left at the output by the functions over pointers, whatever is in their contexts. -/
theorem Crypto.cryptoAlgorithms_written (context : Sha256Ctx) (stack : Nat → Sha256Ctx) {B : Type} [DecidableEq B]
    (memory : Memory B) (input : Pointer B) (inputLength : Nat) (output : Pointer B) :
    let crypto := Crypto.cryptoAlgorithms curve25519 ed25519 keySchedule overread
    let sha := Sha256.cryptoAlgorithms
    (sha.final (sha.update (sha.init context) (memory.read input inputLength))).2 =
        crypto.sha256 (memory.read input inputLength) ∧
      (∀ (key : Pointer B) (keyLength : Nat),
        (sha.hmacSha256At stack key keyLength input inputLength output memory).memory.read output 32 =
          (crypto.kdf.hmac (memory.read key keyLength) (memory.read input inputLength)).val) ∧
      ∀ (salt : Option (Pointer B × Nat)) (info : Pointer B) (infoLength outputLength : Nat),
        Memory.Apart output outputLength info infoLength →
        (sha.hkdfSha256At stack input inputLength salt info infoLength output outputLength memory).memory.read output
            outputLength =
          (crypto.kdf.hkdf (memory.read input inputLength) (salt.map fun salt => memory.read salt.1 salt.2)
            (memory.read info infoLength) outputLength).val := by
  intro crypto sha
  have streams := Sha256.cryptoAlgorithms_streams
  refine ⟨?_, Kdf.standard_written streams stack memory input inputLength output⟩
  have hashed := streams context [memory.read input inputLength]
  rwa [List.flatten_singleton] at hashed

/-- What a session seals with it can be read with it, in a buffer of any size that is large enough. -/
theorem Crypto.cryptoAlgorithms_wire (reader : MessageReader) :
    let wire := Wire.olm (olmCipher (Crypto.cryptoAlgorithms curve25519 ed25519 keySchedule overread)) reader
    wire.Correct ∧ wire.Roomy :=
  ⟨Wire.olm_correct (Aes.cryptoAlgorithms_permutation keySchedule overread) reader, Wire.olm_roomy _ reader⟩

end Library

end RubyOlm
