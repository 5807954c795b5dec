import Mathlib.Algebra.GroupWithZero.Nat
import Mathlib.Data.List.Basic
import Mathlib.Data.UInt

/-!
# Bytes, arrays and errors

What every file of the library shares: byte strings, fixed-size arrays, writes into a buffer and
the error codes of `error.h`.
-/

namespace RubyOlm

abbrev Bytes := List UInt8

/-- A C array `uint8_t[n]`. -/
abbrev Block (n : Nat) := { bytes : Bytes // bytes.length = n }

namespace Block

@[simp] theorem length_val {n : Nat} (b : Block n) : b.val.length = n := b.property

/-- An array after `olm::unset`. -/
def zero (n : Nat) : Block n := ⟨List.replicate n 0, by simp⟩

/-- `load_array`: the first `n` bytes at the source. Callers check that `n` are there; a shorter
source reads as if zeros followed it. -/
def load (n : Nat) (source : Bytes) : Block n :=
  ⟨(source ++ List.replicate n 0).take n, by simp⟩

theorem load_append {n : Nat} (b : Block n) (rest : Bytes) : load n (b.val ++ rest) = b := by
  apply Subtype.ext
  simp [load, b.property]

theorem load_val {n : Nat} (b : Block n) : load n b.val = b := by
  simpa using load_append b []

theorem load_take_self (n : Nat) (source : Bytes) : load n (source.take n) = load n source := by
  apply Subtype.ext
  show (source.take n ++ List.replicate n 0).take n = (source ++ List.replicate n 0).take n
  by_cases long : n ≤ source.length
  · rw [List.take_append_of_le_length long, List.take_append_of_le_length (by rw [List.length_take]; omega),
      List.take_take, Nat.min_self]
  · have short : source.take n = source := List.take_of_length_le (by omega)
    rw [short]

def append {m n : Nat} (a : Block m) (b : Block n) : Block (m + n) := ⟨a.val ++ b.val, by simp⟩

end Block

/-! ### Writes into a buffer -/

abbrev Buffer := { bytes : Bytes // bytes.length < 2 ^ 64 }

/-- `memcpy(buffer + pos, bytes, bytes.length)`. -/
def writeAt (buffer : Bytes) (pos : Nat) (bytes : Bytes) : Bytes :=
  buffer.take pos ++ bytes ++ buffer.drop (pos + bytes.length)

theorem writeAt_append (done rest bytes : Bytes) :
    writeAt (done ++ rest) done.length bytes = done ++ bytes ++ rest.drop bytes.length := by
  simp [writeAt, List.drop_append]

theorem writeAt_replace (before old bytes after : Bytes) (same : bytes.length = old.length) :
    writeAt (before ++ old ++ after) before.length bytes = before ++ bytes ++ after := by
  rw [List.append_assoc, writeAt_append, same, List.drop_left]

/-- A plaintext and the message it was sent as. -/
structure Sent where
  plaintext : Bytes
  message : Bytes

/-! ### Text and big-endian numbers -/

def ascii (text : String) : Bytes := text.toList.map fun char => UInt8.ofNat char.toNat

def bigEndian (value : UInt32) : Bytes :=
  [(value >>> 24).toUInt8, (value >>> 16).toUInt8, (value >>> 8).toUInt8, value.toUInt8]

@[simp] theorem length_bigEndian (value : UInt32) : (bigEndian value).length = 4 := rfl

/-- `value <<= 8; value |= *(pos++)`, over all the bytes. -/
def loadBigEndian (bytes : Bytes) : UInt32 :=
  bytes.foldl (fun value byte => (value <<< 8) ||| byte.toUInt32) 0

theorem toNat_shift_or (value : UInt32) (byte : UInt8) :
    ((value <<< 8) ||| byte.toUInt32).toNat = value.toNat % 2 ^ 24 * 256 + byte.toNat := by
  have high : value.toNat <<< 8 % 2 ^ 32 = (value.toNat % 2 ^ 24) <<< 8 := by
    rw [Nat.shiftLeft_eq, Nat.shiftLeft_eq]
    omega
  rw [UInt32.toNat_or, UInt32.toNat_shiftLeft, UInt8.toNat_toUInt32]
  rw [show (8 : UInt32).toNat % 32 = 8 by rfl, high,
    ← Nat.shiftLeft_add_eq_or_of_lt byte.toNat_lt, Nat.shiftLeft_eq]

theorem loadBigEndian_bigEndian (value : UInt32) : loadBigEndian (bigEndian value) = value := by
  have byte (shift : UInt32) : (value >>> shift).toUInt8.toNat = value.toNat >>> (shift.toNat % 32) % 256 := by
    rw [UInt32.toNat_toUInt8, UInt32.toNat_shiftRight]
  have := value.toNat_lt
  apply UInt32.toNat_inj.mp
  simp only [loadBigEndian, bigEndian, List.foldl_cons, List.foldl_nil, toNat_shift_or, byte,
    UInt32.toNat_toUInt8, UInt32.toNat_ofNat, Nat.shiftRight_eq_div_pow, Nat.reduceMod, Nat.reducePow]
  omega

/-! ### Errors -/

inductive OlmErrorCode where
  | success
  | notEnoughRandom
  | outputBufferTooSmall
  | badMessageVersion
  | badMessageFormat
  | badMessageMac
  | badMessageKeyId
  | invalidBase64
  | badAccountKey
  | unknownPickleVersion
  | corruptedPickle
  | badSessionKey
  | unknownMessageIndex
  | badLegacyAccountPickle
  | badSignature
  | inputBufferTooSmall
  | errorNotInventedYet
  deriving DecidableEq, Repr

/-- A call returned `size_t(-1)` and left this error in its object. -/
def Fails {Object Result : Type} (lastError : Object → OlmErrorCode) (error : OlmErrorCode)
    (answer : Object × Option Result) : Prop :=
  answer.2 = none ∧ lastError answer.1 = error

theorem fails_iff {Object Result : Type} {lastError : Object → OlmErrorCode} {error : OlmErrorCode}
    {answer : Object × Option Result} :
    Fails lastError error answer ↔ ∃ after, answer = (after, none) ∧ lastError after = error := by
  constructor
  · rintro ⟨failed, left⟩
    exact ⟨answer.1, Prod.ext rfl failed, left⟩
  · rintro ⟨after, rfl, left⟩
    exact ⟨rfl, left⟩

end RubyOlm
