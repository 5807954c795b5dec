import RubyOlm.Basic

/-!
# Cryptographic functions

`crypto.h`. SHA-256, X25519, Ed25519 and the AES block function come from libraries and are
parameters here, as are HMAC and HKDF; `_olm_crypto_curve25519_generate_key` and
`_olm_crypto_curve25519_shared_secret` are `crypto.cpp`'s own few lines on top of X25519.
-/

namespace RubyOlm

/-! ### Curve25519 -/

abbrev PublicKey := Block 32

structure Curve25519KeyPair where
  publicKey : PublicKey
  privateKey : Block 32
  deriving DecidableEq

/-- `curve25519_donna`, from a secret and a point to a point. -/
abbrev Curve25519 := (secret point : Block 32) → Block 32

def basepoint : Block 32 := ⟨9 :: List.replicate 31 0, rfl⟩

def generateKey (curve : Curve25519) (random : Block 32) : Curve25519KeyPair :=
  { publicKey := curve random basepoint, privateKey := random }

def sharedSecret (curve : Curve25519) (ourKey : Curve25519KeyPair) (theirKey : PublicKey) : Block 32 :=
  curve ourKey.privateKey theirKey

def Commutes (curve : Curve25519) : Prop :=
  ∀ a b, curve a (curve b basepoint) = curve b (curve a basepoint)

/-- A key pair whose public half belongs to its private half. -/
def Curve25519KeyPair.Generated (curve : Curve25519) (pair : Curve25519KeyPair) : Prop :=
  pair.publicKey = curve pair.privateKey basepoint

theorem generateKey_generated (curve : Curve25519) (random : Block 32) :
    (generateKey curve random).Generated curve := rfl

theorem sharedSecret_comm {curve : Curve25519} (commutes : Commutes curve) {a b : Curve25519KeyPair}
    (ha : a.Generated curve) (hb : b.Generated curve) :
    sharedSecret curve a b.publicKey = sharedSecret curve b a.publicKey := by
  rw [sharedSecret, sharedSecret, ha, hb, commutes]

/-! ### Ed25519 -/

structure Ed25519KeyPair where
  publicKey : Block 32
  privateKey : Block 64
  deriving DecidableEq

structure Ed25519 where
  createKeypair : (seed : Block 32) → Ed25519KeyPair
  sign : Ed25519KeyPair → (message : Bytes) → Block 64
  verify : (signature : Block 64) → (message : Bytes) → (publicKey : Block 32) → Bool

def Ed25519.Complete (ed : Ed25519) : Prop :=
  ∀ seed message,
    ed.verify (ed.sign (ed.createKeypair seed) message) message (ed.createKeypair seed).publicKey = true

/-! ### Hashes and the block cipher -/

/-- `_olm_crypto_hmac_sha256` and `_olm_crypto_hkdf_sha256`. A missing salt is `none`. -/
structure Kdf where
  hmac : (key input : Bytes) → Block 32
  hkdf : (input : Bytes) → (salt : Option Bytes) → (info : Bytes) → (length : Nat) → Block length

/-- AES-256 on one block: `aes_encrypt` and `aes_decrypt` under a key schedule. `overread` stands for
whatever a read outside the ciphertext or the plaintext buffer finds there. -/
structure Aes where
  encrypt : (key : Block 32) → Block 16 → Block 16
  decrypt : (key : Block 32) → Block 16 → Block 16
  overread : Nat → UInt8

/-- The block function is a permutation and `decrypt` its inverse. -/
structure Aes.Permutation (aes : Aes) : Prop where
  decrypt_encrypt : ∀ key block, aes.decrypt key (aes.encrypt key block) = block
  encrypt_decrypt : ∀ key block, aes.encrypt key (aes.decrypt key block) = block

structure Crypto where
  sha256 : Bytes → Block 32
  curve25519 : Curve25519
  ed25519 : Ed25519
  kdf : Kdf
  aes : Aes

/-- No two inputs of at most `length` bytes have the same HMAC. -/
def Kdf.CollisionFree (kdf : Kdf) (length : Nat) : Prop :=
  ∀ {key a b}, a.length ≤ length → b.length ≤ length → kdf.hmac key a = kdf.hmac key b → a = b

/-! ### A plain instance -/

/-- For runs on fixed inputs: an HMAC and a signature show what they were made from, blocks are
encrypted to themselves, and everything else is zero. -/
def Crypto.plain : Crypto where
  sha256 _ := Block.zero 32
  curve25519 _ _ := Block.zero 32
  ed25519 :=
    { createKeypair := fun seed => ⟨seed, Block.append seed seed⟩
      sign := fun pair message => Block.append pair.publicKey (Block.load 32 message)
      verify := fun signature message publicKey => signature = Block.append publicKey (Block.load 32 message) }
  kdf :=
    { hmac := fun key input => Block.load 32 (1 :: UInt8.ofNat input.length :: input ++ key)
      hkdf := fun _ _ _ length => Block.zero length }
  aes := { encrypt := fun _ block => block, decrypt := fun _ block => block, overread := fun _ => 0 }

theorem Crypto.plain_complete : plain.ed25519.Complete := fun _ _ => decide_eq_true rfl

theorem Crypto.plain_verify_iff {signature : Block 64} {message : Bytes} {publicKey : Block 32} :
    plain.ed25519.verify signature message publicKey ↔ signature = Block.append publicKey (Block.load 32 message) :=
  decide_eq_true_iff

theorem Crypto.plain_permutation : plain.aes.Permutation := ⟨fun _ _ => rfl, fun _ _ => rfl⟩

theorem Crypto.plain_collisionFree : plain.kdf.CollisionFree 30 := by
  intro key a b short_a short_b same
  have bytes : (1 :: UInt8.ofNat a.length :: a ++ key ++ List.replicate 32 0).take 32 =
      (1 :: UInt8.ofNat b.length :: b ++ key ++ List.replicate 32 0).take 32 := congrArg Subtype.val same
  simp only [List.cons_append, List.take_succ_cons, List.cons.injEq, true_and] at bytes
  obtain ⟨length, rest⟩ := bytes
  have length : a.length = b.length := by
    have := congrArg UInt8.toNat length
    rw [UInt8.toNat_ofNat', UInt8.toNat_ofNat'] at this
    omega
  have front := congrArg (List.take a.length) rest
  rw [List.take_take, List.take_take, Nat.min_eq_left short_a, List.append_assoc, List.append_assoc,
    List.take_left, length, List.take_left] at front
  exact front

end RubyOlm
