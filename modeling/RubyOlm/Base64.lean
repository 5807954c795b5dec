import Mathlib.Data.List.Basic
import RubyOlm.Basic

/-!
# Base64

`base64.cpp`: unpadded base64 in both directions. The C code also runs with input and output in one
buffer; here the output is a value of its own. It keeps no check of the alphabet: any byte is
looked up by its low seven bits.
-/

namespace RubyOlm

def encodeBase64Table : List UInt8 := [
  0x41, 0x42, 0x43, 0x44, 0x45, 0x46, 0x47, 0x48,
  0x49, 0x4A, 0x4B, 0x4C, 0x4D, 0x4E, 0x4F, 0x50,
  0x51, 0x52, 0x53, 0x54, 0x55, 0x56, 0x57, 0x58,
  0x59, 0x5A, 0x61, 0x62, 0x63, 0x64, 0x65, 0x66,
  0x67, 0x68, 0x69, 0x6A, 0x6B, 0x6C, 0x6D, 0x6E,
  0x6F, 0x70, 0x71, 0x72, 0x73, 0x74, 0x75, 0x76,
  0x77, 0x78, 0x79, 0x7A, 0x30, 0x31, 0x32, 0x33,
  0x34, 0x35, 0x36, 0x37, 0x38, 0x39, 0x2B, 0x2F]

/-- The entry of `DECODE_BASE64` for a byte outside the alphabet. -/
def E : Nat := 0xFF

def decodeBase64Table : List Nat := [
  E,  E,  E,  E,  E,  E,  E,  E,  E,  E,  E,  E,  E,  E,  E,  E,
  E,  E,  E,  E,  E,  E,  E,  E,  E,  E,  E,  E,  E,  E,  E,  E,
  E,  E,  E,  E,  E,  E,  E,  E,  E,  E,  E,  62, E,  E,  E,  63,
  52, 53, 54, 55, 56, 57, 58, 59, 60, 61, E,  E,  E,  E,  E,  E,
  E,  0,  1,  2,  3,  4,  5,  6,  7,  8,  9,  10, 11, 12, 13, 14,
  15, 16, 17, 18, 19, 20, 21, 22, 23, 24, 25, E,  E,  E,  E,  E,
  E,  26, 27, 28, 29, 30, 31, 32, 33, 34, 35, 36, 37, 38, 39, 40,
  41, 42, 43, 44, 45, 46, 47, 48, 49, 50, 51, E,  E,  E,  E,  E]

def encodeDigit (value : Nat) : UInt8 := encodeBase64Table.getD value 0

def decodeDigit (char : UInt8) : Nat := decodeBase64Table.getD (char &&& 0x7F).toNat 0

def encodeBase64Length (inputLength : Nat) : Nat :=
  4 * ((inputLength + 2) / 3) + (inputLength + 2) % 3 - 2

def encodeBase64 : (input : Bytes) → Bytes
  | a :: b :: c :: rest =>
    let value := ((a.toNat <<< 8 ||| b.toNat) <<< 8) ||| c.toNat
    encodeDigit (value >>> 18) :: encodeDigit (value >>> 12 &&& 0x3F) ::
      encodeDigit (value >>> 6 &&& 0x3F) :: encodeDigit (value &&& 0x3F) :: encodeBase64 rest
  | [a, b] =>
    let value := (a.toNat <<< 8 ||| b.toNat) <<< 2
    [encodeDigit (value >>> 12), encodeDigit (value >>> 6 &&& 0x3F), encodeDigit (value &&& 0x3F)]
  | [a] =>
    let value := a.toNat <<< 4
    [encodeDigit (value >>> 6), encodeDigit (value &&& 0x3F)]
  | [] => []

/-- `none` is `size_t(-1)`. -/
def decodeBase64Length (inputLength : Nat) : Option Nat :=
  if inputLength % 4 = 1 then none
  else some (3 * ((inputLength + 2) / 4) + (inputLength + 2) % 4 - 2)

/-- A single character left at the end makes the C loop read one byte too many, which is not among the
characters here, so nothing is decoded of it. `olm_pk_decrypt` adds that byte to an ephemeral key; every
other caller has the length refused and drops the output. -/
def decodeBase64 : (input : Bytes) → Bytes
  | a :: b :: c :: d :: rest =>
    let value := (((decodeDigit a <<< 6 ||| decodeDigit b) <<< 6 ||| decodeDigit c) <<< 6) ||| decodeDigit d
    UInt8.ofNat (value >>> 16) :: UInt8.ofNat (value >>> 8) :: UInt8.ofNat value :: decodeBase64 rest
  | [a, b, c] =>
    let value := ((decodeDigit a <<< 6 ||| decodeDigit b) <<< 6 ||| decodeDigit c) >>> 2
    [UInt8.ofNat (value >>> 8), UInt8.ofNat value]
  | [a, b] =>
    let value := (decodeDigit a <<< 6 ||| decodeDigit b) >>> 4
    [UInt8.ofNat value]
  | _ => []

/-! ### Lengths -/

theorem encodeBase64Length_add_three (n : Nat) :
    encodeBase64Length (n + 3) = encodeBase64Length n + 4 := by
  unfold encodeBase64Length; omega

theorem le_encodeBase64Length (n : Nat) : n ≤ encodeBase64Length n := by
  unfold encodeBase64Length; omega

@[simp] theorem length_encodeBase64 (input : Bytes) :
    (encodeBase64 input).length = encodeBase64Length input.length := by
  induction input using encodeBase64.induct with
  | case1 a b c rest ih =>
    simp only [encodeBase64, List.length_cons, ih]
    exact (encodeBase64Length_add_three rest.length).symm
  | case2 => simp [encodeBase64, encodeBase64Length]
  | case3 => simp [encodeBase64, encodeBase64Length]
  | case4 => simp [encodeBase64, encodeBase64Length]

theorem decodeBase64Length_eq_none_iff {inputLength : Nat} :
    decodeBase64Length inputLength = none ↔ inputLength % 4 = 1 := by
  unfold decodeBase64Length
  split
  · exact ⟨fun _ => by assumption, fun _ => rfl⟩
  · exact ⟨fun impossible => (nomatch impossible), fun single => absurd single (by assumption)⟩

@[simp] theorem decodeBase64Length_encode (n : Nat) :
    decodeBase64Length (encodeBase64Length n) = some n := by
  unfold decodeBase64Length encodeBase64Length
  rw [if_neg (by omega)]
  congr 1; omega

theorem length_decodeBase64 (input : Bytes) {n : Nat} (length : decodeBase64Length input.length = some n) :
    (decodeBase64 input).length = n := by
  induction input using decodeBase64.induct generalizing n with
  | case1 a b c d rest ih =>
    simp only [decodeBase64, List.length_cons, decodeBase64Length] at *
    split at length
    · cases length
    · have := ih (n := n - 3) (by
        rw [if_neg (by omega)]
        simp only [Option.some.injEq] at *
        omega)
      simp only [Option.some.injEq] at length
      omega
  | case2 | case3 => simp_all [decodeBase64, decodeBase64Length]
  | case4 input long three two =>
    match input, long, three, two with
    | [], _, _, _ => simp_all [decodeBase64, decodeBase64Length]
    | [_], _, _, _ => simp [decodeBase64Length] at length
    | [a, b], _, _, two => exact absurd rfl (two a b)
    | [a, b, c], _, three, _ => exact absurd rfl (three a b c)
    | a :: b :: c :: d :: rest, long, _, _ => exact absurd rfl (long a b c d rest)

/-! ### Round trip -/

theorem decodeDigit_encodeDigit {value : Nat} (digit : value < 64) :
    decodeDigit (encodeDigit value) = value := by
  have all : ∀ i : Fin 64, decodeDigit (encodeDigit i) = i := by decide
  exact all ⟨value, digit⟩

theorem join_byte (high : Nat) (low : UInt8) : high <<< 8 ||| low.toNat = high * 256 + low.toNat := by
  rw [← Nat.shiftLeft_add_eq_or_of_lt low.toNat_lt, Nat.shiftLeft_eq]

theorem join_digit {high low : Nat} (digit : low < 64) : high <<< 6 ||| low = high * 64 + low := by
  rw [← Nat.shiftLeft_add_eq_or_of_lt (i := 6) digit, Nat.shiftLeft_eq]

theorem and_sixBits (value : Nat) : value &&& 0x3F = value % 64 :=
  Nat.and_two_pow_sub_one_eq_mod value 6

theorem byte_eq {value : Nat} (byte : UInt8) (same : value % 256 = byte.toNat) : UInt8.ofNat value = byte :=
  UInt8.toNat_inj.mp (by rw [UInt8.toNat_ofNat', same])

theorem decode_encodeBase64 (input : Bytes) : decodeBase64 (encodeBase64 input) = input := by
  induction input using encodeBase64.induct with
  | case1 a b c rest ih =>
    have := a.toNat_lt; have := b.toNat_lt; have := c.toNat_lt
    simp only [encodeBase64, decodeBase64, ih, join_byte, and_sixBits, Nat.shiftRight_eq_div_pow]
    repeat rw [decodeDigit_encodeDigit (by omega)]
    repeat rw [join_digit (by omega)]
    rw [byte_eq a (by omega), byte_eq b (by omega), byte_eq c (by omega)]
  | case2 a b =>
    have := a.toNat_lt; have := b.toNat_lt
    simp only [encodeBase64, decodeBase64, join_byte, and_sixBits, Nat.shiftRight_eq_div_pow,
      Nat.shiftLeft_eq _ 2]
    repeat rw [decodeDigit_encodeDigit (by omega)]
    repeat rw [join_digit (by omega)]
    rw [byte_eq a (by omega), byte_eq b (by omega)]
  | case3 a =>
    have := a.toNat_lt
    simp only [encodeBase64, decodeBase64, and_sixBits, Nat.shiftRight_eq_div_pow, Nat.shiftLeft_eq _ 4]
    repeat rw [decodeDigit_encodeDigit (by omega)]
    rw [join_digit (by omega), byte_eq a (by omega)]
  | case4 => rfl

end RubyOlm
