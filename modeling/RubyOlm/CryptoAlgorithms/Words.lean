import RubyOlm.Basic

/-!
# Words of four bytes

How the `crypto-algorithms` library puts the bytes of a block together to words.
-/

namespace RubyOlm

/-- `(a << 24) | (b << 16) | (c << 8) | d`. -/
def word (a b c d : UInt8) : UInt32 :=
  (a.toUInt32 <<< 24) ||| (b.toUInt32 <<< 16) ||| (c.toUInt32 <<< 8) ||| d.toUInt32

/-- Of numbers that have no bits in common. -/
theorem or_eq_add {high low : Nat} (n : Nat) (below : low < 2 ^ n) (multiple : high % 2 ^ n = 0) :
    high ||| low = high + low := by
  have shifted : high = (high / 2 ^ n) <<< n := by
    rw [Nat.shiftLeft_eq, Nat.div_mul_cancel (Nat.dvd_of_mod_eq_zero multiple)]
  rw [shifted, Nat.shiftLeft_add_eq_or_of_lt below]

theorem toNat_shiftLeft (byte : UInt8) {n : Nat} (bound : n ≤ 24) :
    (byte.toUInt32 <<< UInt32.ofNat n).toNat = byte.toNat * 2 ^ n := by
  have shift : (UInt32.ofNat n).toNat % 32 = n := by
    rw [UInt32.toNat_ofNat']
    omega
  have small : byte.toNat * 2 ^ n < 2 ^ 32 := calc
    byte.toNat * 2 ^ n < 2 ^ 8 * 2 ^ n := Nat.mul_lt_mul_of_pos_right byte.toNat_lt (Nat.two_pow_pos n)
    _ ≤ 2 ^ 8 * 2 ^ 24 := Nat.mul_le_mul_left _ (Nat.pow_le_pow_right (by decide) bound)
    _ = 2 ^ 32 := by decide
  rw [UInt32.toNat_shiftLeft, UInt8.toNat_toUInt32, shift, Nat.shiftLeft_eq, Nat.mod_eq_of_lt small]

theorem toNat_word (a b c d : UInt8) :
    (word a b c d).toNat = a.toNat * 2 ^ 24 + b.toNat * 2 ^ 16 + c.toNat * 2 ^ 8 + d.toNat := by
  have ha := a.toNat_lt
  have hb := b.toNat_lt
  have hc := c.toNat_lt
  have hd := d.toNat_lt
  have first : (a.toUInt32 <<< 24).toNat = a.toNat * 2 ^ 24 := toNat_shiftLeft a (by decide)
  have second : (b.toUInt32 <<< 16).toNat = b.toNat * 2 ^ 16 := toNat_shiftLeft b (by decide)
  have third : (c.toUInt32 <<< 8).toNat = c.toNat * 2 ^ 8 := toNat_shiftLeft c (by decide)
  have two : a.toNat * 2 ^ 24 ||| b.toNat * 2 ^ 16 = a.toNat * 2 ^ 24 + b.toNat * 2 ^ 16 :=
    or_eq_add 24 (by omega) (by omega)
  have three : (a.toNat * 2 ^ 24 + b.toNat * 2 ^ 16) ||| c.toNat * 2 ^ 8 =
      a.toNat * 2 ^ 24 + b.toNat * 2 ^ 16 + c.toNat * 2 ^ 8 := or_eq_add 16 (by omega) (by omega)
  have four : (a.toNat * 2 ^ 24 + b.toNat * 2 ^ 16 + c.toNat * 2 ^ 8) ||| d.toNat =
      a.toNat * 2 ^ 24 + b.toNat * 2 ^ 16 + c.toNat * 2 ^ 8 + d.toNat := or_eq_add 8 (by omega) (by omega)
  rw [word, UInt32.toNat_or, UInt32.toNat_or, UInt32.toNat_or, first, second, third, UInt8.toNat_toUInt32, two, three,
    four]

theorem bigEndian_word (a b c d : UInt8) : bigEndian (word a b c d) = [a, b, c, d] := by
  have ha := a.toNat_lt
  have hb := b.toNat_lt
  have hc := c.toNat_lt
  have hd := d.toNat_lt
  have byte (shift : UInt32) : ((word a b c d) >>> shift).toUInt8.toNat =
      (a.toNat * 2 ^ 24 + b.toNat * 2 ^ 16 + c.toNat * 2 ^ 8 + d.toNat) / 2 ^ (shift.toNat % 32) % 256 := by
    rw [UInt32.toNat_toUInt8, UInt32.toNat_shiftRight, toNat_word, Nat.shiftRight_eq_div_pow]
  have last : (word a b c d).toUInt8.toNat =
      (a.toNat * 2 ^ 24 + b.toNat * 2 ^ 16 + c.toNat * 2 ^ 8 + d.toNat) % 256 := by
    rw [UInt32.toNat_toUInt8, toNat_word]
  have first : ((word a b c d) >>> 24).toUInt8 = a := UInt8.toNat_inj.mp (by rw [byte]; simp; omega)
  have second : ((word a b c d) >>> 16).toUInt8 = b := UInt8.toNat_inj.mp (by rw [byte]; simp; omega)
  have third : ((word a b c d) >>> 8).toUInt8 = c := UInt8.toNat_inj.mp (by rw [byte]; simp; omega)
  have fourth : (word a b c d).toUInt8 = d := UInt8.toNat_inj.mp (by rw [last]; omega)
  rw [bigEndian, first, second, third, fourth]

/-- A word is made of its own bytes. -/
theorem word_bigEndian (value : UInt32) :
    word (value >>> 24).toUInt8 (value >>> 16).toUInt8 (value >>> 8).toUInt8 value.toUInt8 = value := by
  have here := value.toNat_lt
  apply UInt32.toNat_inj.mp
  simp only [toNat_word, UInt32.toNat_toUInt8, UInt32.toNat_shiftRight, Nat.shiftRight_eq_div_pow, UInt32.toNat_ofNat,
    Nat.reduceMod, Nat.reducePow]
  omega

/-! ### Loops over an array of words -/

/-- A `for` loop that stores `n` words from `idx` on. -/
def storeWords (next : List UInt32 → Nat → UInt32) : (w : List UInt32) → (idx n : Nat) → List UInt32
  | w, _, 0 => w
  | w, idx, n + 1 => storeWords next (w.set idx (next w idx)) (idx + 1) n

theorem getD_set_of_ne {w : List UInt32} {idx i : Nat} (value : UInt32) (other : i ≠ idx) :
    (w.set idx value).getD i 0 = w.getD i 0 := by
  rw [List.getD_eq_getElem?_getD, List.getElem?_set_ne (Ne.symm other), ← List.getD_eq_getElem?_getD]

theorem getD_set_self {w : List UInt32} {idx : Nat} (value : UInt32) (within : idx < w.length) :
    (w.set idx value).getD idx 0 = value := by
  rw [List.getD_eq_getElem?_getD, List.getElem?_set_self within, Option.getD_some]

/-- A loop leaves the array as long as it was, and what is behind it as it was. -/
theorem storeWords_keeps (next : List UInt32 → Nat → UInt32) (w : List UInt32) (idx n : Nat) :
    (storeWords next w idx n).length = w.length ∧ (storeWords next w idx n).drop (idx + n) = w.drop (idx + n) := by
  induction n generalizing w idx with
  | zero => exact ⟨rfl, rfl⟩
  | succ n ih =>
    obtain ⟨length, rest⟩ := ih (w.set idx (next w idx)) (idx + 1)
    refine ⟨length.trans (List.length_set ..), ?_⟩
    rw [storeWords, ← Nat.add_assoc, Nat.add_right_comm, rest, List.drop_set_of_lt (by omega)]

/-- What every turn of a loop establishes of the word it stores, if it holds of all words before. -/
theorem storeWords_words {View : Type} (view : UInt32 → View) {next : List UInt32 → Nat → UInt32} {expected : Nat → View}
    (first : Nat) {w : List UInt32} {idx n : Nat} (from_first : first ≤ idx) (within : idx + n ≤ w.length)
    (done : ∀ i < idx, view (w.getD i 0) = expected i)
    (turn : ∀ w i, first ≤ i → i < idx + n → (∀ j < i, view (w.getD j 0) = expected j) →
      view (next w i) = expected i) :
    ∀ i < idx + n, view ((storeWords next w idx n).getD i 0) = expected i := by
  induction n generalizing w idx with
  | zero => exact done
  | succ n ih =>
    have stored := turn w idx from_first (by omega) done
    rw [← Nat.add_assoc, Nat.add_right_comm]
    apply ih (Nat.le_succ_of_le from_first) (by rw [List.length_set]; omega)
    · intro i below
      by_cases last : i = idx
      · rw [last, getD_set_self _ (by omega), stored]
      · rw [getD_set_of_ne _ last]
        exact done i (by omega)
    · intro w i above below
      exact turn w i above (by omega)

theorem storeWords_getD {next : List UInt32 → Nat → UInt32} {expected : Nat → UInt32} (first : Nat) {w : List UInt32}
    {idx n : Nat} (from_first : first ≤ idx) (within : idx + n ≤ w.length) (done : ∀ i < idx, w.getD i 0 = expected i)
    (turn : ∀ w i, first ≤ i → i < idx + n → (∀ j < i, w.getD j 0 = expected j) → next w i = expected i) :
    ∀ i < idx + n, (storeWords next w idx n).getD i 0 = expected i :=
  storeWords_words id first from_first within done turn

end RubyOlm
