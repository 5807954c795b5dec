import Mathlib.Tactic.Ring
import RubyOlm.Message.Format

/-!
# Varints

Seven bits a byte, the lowest first, and the high bit set in all bytes but the last. `varint_encode` writes the
shortest bytes for a number; what reads them takes any number of bytes.
-/

namespace RubyOlm

/-! ### Writing -/

theorem varintEncodeFrom_fuel {fuel fuel' value : Nat} (le : value ≤ fuel) (le' : value ≤ fuel') :
    varintEncodeFrom fuel value = varintEncodeFrom fuel' value := by
  induction fuel generalizing fuel' value with
  | zero =>
    obtain rfl : value = 0 := by omega
    cases fuel' <;> rfl
  | succ fuel ih =>
    cases fuel' with
    | zero =>
      obtain rfl : value = 0 := by omega
      rfl
    | succ fuel' =>
      rw [varintEncodeFrom, varintEncodeFrom]
      split
      · have smaller : value >>> 7 < value := by
          rw [Nat.shiftRight_eq_div_pow]; omega
        rw [@ih fuel' _ (by omega) (by omega)]
      · rfl

theorem or_highBit {low : Nat} (small : low < 128) : low ||| 0x80 = low + 128 := by
  rw [Nat.or_comm, show (0x80 : Nat) = 1 <<< 7 by rfl, ← Nat.shiftLeft_add_eq_or_of_lt (i := 7) small]
  omega

theorem and_sevenBits (value : Nat) : 0x7F &&& value = value % 128 := by
  rw [Nat.and_comm]
  exact Nat.and_two_pow_sub_one_eq_mod value 7

theorem varintEncode_eq (value : Nat) :
    varintEncode value =
      if 128 ≤ value then UInt8.ofNat (value % 128 + 128) :: varintEncode (value / 128)
      else [UInt8.ofNat value] := by
  have byte : 0x7F &&& value ||| 0x80 = value % 128 + 128 := by
    rw [and_sevenBits, or_highBit (Nat.mod_lt _ (by decide))]
  cases value with
  | zero => rfl
  | succ value =>
    rw [varintEncode, varintEncodeFrom, byte]
    split
    · rw [Nat.shiftRight_eq_div_pow, varintEncode,
        varintEncodeFrom_fuel (by omega) (le_refl ((value + 1) / 2 ^ 7))]
    · rfl

@[simp] theorem length_varintEncode (value : Nat) : (varintEncode value).length = varintLength value := by
  have fueled (fuel : Nat) : ∀ value, (varintEncodeFrom fuel value).length = varintLengthFrom fuel value := by
    induction fuel with
    | zero => exact fun _ => rfl
    | succ fuel ih =>
      intro value
      rw [varintEncodeFrom, varintLengthFrom]
      split
      · rw [List.length_cons, ih]
      · rfl
  exact fueled value value

theorem varintLength_le {value digits : Nat} (small : value < 128 ^ (digits + 1)) : varintLength value ≤ digits + 1 := by
  induction digits generalizing value with
  | zero =>
    rw [← length_varintEncode, varintEncode_eq, if_neg (by omega), List.length_singleton]
  | succ digits ih =>
    have shorter : varintLength (value / 128) ≤ digits + 1 := by
      apply ih
      rw [Nat.div_lt_iff_lt_mul (by decide), ← Nat.pow_succ]
      exact small
    rw [← length_varintEncode, varintEncode_eq]
    split
    · rw [List.length_cons, length_varintEncode]
      omega
    · rw [List.length_singleton]
      omega

/-! ### Reading -/

/-- The number that the bytes stand for, however large. -/
def varintValue (varint : Bytes) : Nat := varint.foldr (fun byte value => value * 128 + byte.toNat % 128) 0

/-- The high bit is set in all bytes but the last. -/
def CompleteVarint : Bytes → Prop
  | [] => False
  | byte :: rest => if byte &&& 0x80 = 0 then rest = [] else CompleteVarint rest

theorem and_highBit_eq_zero (byte : UInt8) : byte &&& 0x80 = 0 ↔ byte.toNat < 128 := by
  have all : ∀ i : Fin 256, UInt8.ofNat i &&& 0x80 = 0 ↔ i.val < 128 := by decide +kernel
  have := all ⟨byte.toNat, byte.toNat_lt⟩
  rwa [UInt8.ofNat_toNat] at this

theorem getD_of_drop {input rest : Bytes} {pos : Nat} {byte : UInt8} (read : input.drop pos = byte :: rest) :
    input.getD pos 0 = byte ∧ input.drop (pos + 1) = rest := by
  constructor
  · have here : input[pos]? = some byte := by
      rw [← List.head?_drop, read, List.head?_cons]
    rw [List.getD, here, Option.getD_some]
  · rw [← List.drop_drop, read, List.drop_one, List.tail_cons]

theorem varintDecode_eq {width : Nat} (wide : 7 ≤ width) (varint : Bytes) :
    varintDecode width varint = varintValue varint % 2 ^ width := by
  have power : 2 ^ width = 2 ^ (width - 7) * 128 := by
    rw [show 128 = 2 ^ 7 by rfl, ← Nat.pow_add, show width - 7 + 7 = width by omega]
  induction varint with
  | nil => exact (Nat.zero_mod (2 ^ width)).symm
  | cons byte varint ih =>
    rw [varintDecode] at ih
    rw [varintDecode, varintValue, List.foldr_cons, List.foldr_cons, ih, ← varintValue, and_sevenBits]
    obtain ⟨value, hvalue⟩ : ∃ value, varintValue varint = value := ⟨_, rfl⟩
    -- the bits that are lost are those that the shift takes over the width
    have high : (value % 2 ^ width) <<< 7 % 2 ^ width = (value % 2 ^ (width - 7)) <<< 7 := by
      rw [Nat.shiftLeft_eq, Nat.shiftLeft_eq, Nat.mod_mul_mod, power, show 2 ^ 7 = 128 by rfl, Nat.mul_mod_mul_right]
    rw [hvalue, high, ← Nat.shiftLeft_add_eq_or_of_lt (i := 7) (Nat.mod_lt _ (by decide)), Nat.shiftLeft_eq, power,
      Nat.mul_comm (2 ^ (width - 7)) 128, Nat.mod_mul, show (value * 128 + byte.toNat % 128) / 128 = value by omega]
    omega

theorem varintValue_varintEncode (value : Nat) : varintValue (varintEncode value) = value := by
  induction value using Nat.strongRecOn with
  | ind value ih =>
    rw [varintEncode_eq]
    split
    · have tail := ih (value / 128) (by omega)
      rw [varintValue] at tail ⊢
      rw [List.foldr_cons, tail, UInt8.toNat_ofNat']
      omega
    · rw [varintValue, List.foldr_cons, List.foldr_nil, UInt8.toNat_ofNat']
      omega

theorem varintDecode_varintEncode {width : Nat} (wide : 7 ≤ width) (value : Nat) :
    varintDecode width (varintEncode value) = value % 2 ^ width := by
  rw [varintDecode_eq wide, varintValue_varintEncode]

theorem completeVarint_varintEncode (value : Nat) : CompleteVarint (varintEncode value) := by
  induction value using Nat.strongRecOn with
  | ind value ih =>
    rw [varintEncode_eq]
    split
    · have goes_on : ¬ UInt8.ofNat (value % 128 + 128) &&& 0x80 = 0 := by
        rw [and_highBit_eq_zero, UInt8.toNat_ofNat']
        omega
      rw [CompleteVarint, if_neg goes_on]
      exact ih (value / 128) (by omega)
    · have ends : UInt8.ofNat value &&& 0x80 = 0 := by
        rw [and_highBit_eq_zero, UInt8.toNat_ofNat']
        omega
      rw [CompleteVarint, if_pos ends]

theorem CompleteVarint.length_pos {varint : Bytes} (complete : CompleteVarint varint) : 0 < varint.length := by
  cases varint with
  | nil => exact complete.elim
  | cons byte varint => exact Nat.succ_pos _

theorem varintSkip_complete {input varint rest : Bytes} {pos remaining : Nat} (complete : CompleteVarint varint)
    (read : input.drop pos = varint ++ rest) (room : varint.length ≤ remaining) :
    varintSkip input remaining pos = pos + varint.length := by
  induction varint generalizing remaining pos with
  | nil => exact complete.elim
  | cons byte varint ih =>
    obtain ⟨remaining, rfl⟩ : ∃ more, remaining = more + 1 := ⟨remaining - 1, by rw [List.length_cons] at room; omega⟩
    obtain ⟨here, next⟩ := getD_of_drop read
    rw [CompleteVarint] at complete
    rw [varintSkip, here, List.length_cons]
    by_cases last : byte &&& 0x80 = 0
    · rw [if_pos last] at complete ⊢
      rw [complete, List.length_nil]
    · rw [if_neg last] at complete ⊢
      rw [ih complete next (by rw [List.length_cons] at room; omega)]
      omega

end RubyOlm
