import RubyOlm.Base64
import RubyOlm.Cipher
import RubyOlm.Megolm.Ratchet

/-!
# Pickling

The field readers and writers of `pickle.cpp` and the encryption of `pickle_encoding.c` around them.
A reader is given what is left of the body, from `pos` to `end`, and returns what is left after the
field. When the body is too short it returns `end`, so nothing is left, and the field keeps its
value.
-/

namespace RubyOlm

/-! ### Fields -/

def unpickleUint32 (rest : Bytes) : Bytes × UInt32 :=
  if rest.length < 4 then ([], 0) else (rest.drop 4, loadBigEndian (rest.take 4))

def pickleBool (value : Bool) : Bytes := [if value then 1 else 0]

def unpickleBool (rest : Bytes) (value : Bool) : Bytes × Bool :=
  match rest with
  | [] => ([], value)
  | byte :: rest => (rest, byte != 0)

def unpickleBytes {n : Nat} (rest : Bytes) (bytes : Block n) : Bytes × Block n :=
  if rest.length < n then ([], bytes) else (rest.drop n, Block.load n rest)

def Ed25519KeyPair.pickle (value : Ed25519KeyPair) : Bytes := value.publicKey.val ++ value.privateKey.val

def Ed25519KeyPair.unpickle (rest : Bytes) (value : Ed25519KeyPair) : Bytes × Ed25519KeyPair :=
  let (rest, publicKey) := unpickleBytes rest value.publicKey
  let (rest, privateKey) := unpickleBytes rest value.privateKey
  (rest, { publicKey, privateKey })

def Megolm.pickle (megolm : Megolm (Block 32)) : Bytes := megolm.getData.val ++ bigEndian megolm.counter

def Megolm.unpickle (rest : Bytes) (megolm : Megolm (Block 32)) : Bytes × Megolm (Block 32) :=
  let (rest, data) := unpickleBytes rest megolm.getData
  let (rest, counter) := unpickleUint32 rest
  (rest, Megolm.init data counter)

/-! ### What was written is read again -/

theorem unpickleUint32_append (value : UInt32) (rest : Bytes) :
    unpickleUint32 (bigEndian value ++ rest) = (rest, value) := by
  have long : ¬ (bigEndian value ++ rest).length < 4 := by
    rw [List.length_append, length_bigEndian]
    omega
  rw [unpickleUint32, if_neg long, ← length_bigEndian value, List.drop_left, List.take_left, loadBigEndian_bigEndian]

theorem unpickleBytes_append {n : Nat} (block old : Block n) (rest : Bytes) :
    unpickleBytes (block.val ++ rest) old = (rest, block) := by
  have long : ¬ (block.val ++ rest).length < n := by
    rw [List.length_append, Block.length_val]
    omega
  rw [unpickleBytes, if_neg long, Block.load_append, List.drop_left' block.property]

/-! ### Encryption -/

def pickleCipher (crypto : Crypto) : CipherOps Bytes := aesSha256 crypto.kdf crypto.aes (ascii "Pickle")

def encOutputLength (crypto : Crypto) (rawLength : Nat) : Nat :=
  encodeBase64Length ((pickleCipher crypto).encryptCiphertextLength rawLength + (pickleCipher crypto).macLength)

def encInput (crypto : Crypto) (key input : Bytes) : Except OlmErrorCode Bytes :=
  match decodeBase64Length input.length with
  | none => .error .invalidBase64
  | some encLength =>
    let input := decodeBase64 input
    let rawLength := encLength - (pickleCipher crypto).macLength
    match (pickleCipher crypto).decrypt key input (input.take rawLength) rawLength with
    | none => .error .badAccountKey
    | some raw => .ok raw

end RubyOlm
