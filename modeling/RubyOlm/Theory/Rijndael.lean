import RubyOlm.Theory.Gf256
import Mathlib.LinearAlgebra.Matrix.Circulant
import Mathlib.Logic.Equiv.Fin.Rotate

/-!
# The Rijndael cipher

As FIPS 197 defines it, for any number of rounds and any permutation of the bytes as its S-box: a state is a matrix over
the field of 256 elements, and every transformation a permutation of the states.
-/

namespace RubyOlm

namespace Rijndael

/-- Row and column. -/
abbrev State := Matrix (Fin 4) (Fin 4) Gf256

/-! ### The transformations -/

def subBytes (box : Equiv.Perm Gf256) : Equiv.Perm State where
  toFun state := state.map box
  invFun state := state.map box.symm
  left_inv state := Matrix.ext fun row column => box.symm_apply_apply (state row column)
  right_inv state := Matrix.ext fun row column => box.apply_symm_apply (state row column)

/-- Row `r` is rotated by `r` to the left. -/
def shiftRows : Equiv.Perm State where
  toFun state := fun row column => state row (column + row)
  invFun state := fun row column => state row (column - row)
  left_inv state := funext fun row => funext fun column => congrArg (state row) (sub_add_cancel column row)
  right_inv state := funext fun row => funext fun column => congrArg (state row) (add_sub_cancel_right column row)

/-- Multiplication by the polynomial `{03}x^3 + {01}x^2 + {01}x + {02}` modulo `x^4 + 1`. -/
def mixMatrix : State := Matrix.circulant ![⟨2⟩, ⟨1⟩, ⟨1⟩, ⟨3⟩]

/-- Multiplication by `{0b}x^3 + {0d}x^2 + {09}x + {0e}`. -/
def invMixMatrix : State := Matrix.circulant ![⟨14⟩, ⟨9⟩, ⟨13⟩, ⟨11⟩]

theorem invMixMatrix_mul_mixMatrix : invMixMatrix * mixMatrix = 1 := by decide +kernel

theorem mixMatrix_mul_invMixMatrix : mixMatrix * invMixMatrix = 1 := by decide +kernel

def mixColumns : Equiv.Perm State where
  toFun state := mixMatrix * state
  invFun state := invMixMatrix * state
  left_inv state := by
    show invMixMatrix * (mixMatrix * state) = state
    rw [← Matrix.mul_assoc, invMixMatrix_mul_mixMatrix, Matrix.one_mul]
  right_inv state := by
    show mixMatrix * (invMixMatrix * state) = state
    rw [← Matrix.mul_assoc, mixMatrix_mul_invMixMatrix, Matrix.one_mul]

def addRoundKey (key : State) : Equiv.Perm State := Equiv.addRight key

/-- It is its own inverse. -/
theorem addRoundKey_symm (key : State) : (addRoundKey key).symm = addRoundKey key :=
  Equiv.ext fun state => congrArg (state + ·) (Matrix.ext fun row column => Gf256.neg_eq (key row column))

/-! ### The cipher -/

section Cipher

variable (box : Equiv.Perm Gf256)

def round (key : State) : Equiv.Perm State :=
  (subBytes box).trans (shiftRows.trans (mixColumns.trans (addRoundKey key)))

def rounds : (keys : List State) → Equiv.Perm State
  | [] => Equiv.refl State
  | key :: keys => (round box key).trans (rounds keys)

/-- The last round does not mix the columns. -/
def lastRound (key : State) : Equiv.Perm State :=
  (subBytes box).trans (shiftRows.trans (addRoundKey key))

def cipher (first : State) (middle : List State) (last : State) : Equiv.Perm State :=
  (addRoundKey first).trans ((rounds box middle).trans (lastRound box last))

theorem rounds_append (keys more : List State) : rounds box (keys ++ more) = (rounds box keys).trans (rounds box more) := by
  induction keys with
  | nil => rfl
  | cons key keys ih => rw [List.cons_append, rounds, ih, rounds, Equiv.trans_assoc]

/-- What is done for a key of the middle on the way back. -/
def inverseRound (key state : State) : State :=
  mixColumns.symm (addRoundKey key ((subBytes box).symm (shiftRows.symm state)))

theorem round_symm_apply (key state : State) :
    (round box key).symm state = (subBytes box).symm (shiftRows.symm (mixColumns.symm (addRoundKey key state))) := by
  show (subBytes box).symm (shiftRows.symm (mixColumns.symm ((addRoundKey key).symm state))) = _
  rw [addRoundKey_symm]

/-- The transformations of the rounds on the way back are grouped the other way. -/
theorem foldl_inverseRound (keys : List State) (state : State) :
    (subBytes box).symm (shiftRows.symm (keys.foldl (fun state key => inverseRound box key state) state)) =
      (rounds box keys.reverse).symm ((subBytes box).symm (shiftRows.symm state)) := by
  induction keys generalizing state with
  | nil => rfl
  | cons key keys ih =>
    rw [List.foldl_cons, ih, List.reverse_cons, rounds_append]
    refine congrArg (rounds box keys.reverse).symm ?_
    exact (round_symm_apply box key _).symm

theorem cipher_symm_apply (first : State) (middle : List State) (last state : State) :
    (cipher box first middle last).symm state = addRoundKey first ((subBytes box).symm (shiftRows.symm
      (middle.reverse.foldl (fun state key => inverseRound box key state) (addRoundKey last state)))) := by
  rw [foldl_inverseRound, List.reverse_reverse]
  show (addRoundKey first).symm ((rounds box middle).symm ((subBytes box).symm (shiftRows.symm
    ((addRoundKey last).symm state)))) = _
  rw [addRoundKey_symm, addRoundKey_symm]

end Cipher

/-! ### Key expansion -/

abbrev Word := Fin 4 → Gf256

def rotWord (word : Word) : Word := word ∘ finRotate 4

def subWord (box : Equiv.Perm Gf256) (word : Word) : Word := fun row => box (word row)

/-- `[x^(j-1), {00}, {00}, {00}]`. -/
def rcon (j : Nat) : Word := ![Gf256.power (j - 1), 0, 0, 0]

/-- What is added to the word `nk` places before. -/
def expansionStep (box : Equiv.Perm Gf256) (nk i : Nat) (temp : Word) : Word :=
  if i % nk = 0 then subWord box (rotWord temp) + rcon (i / nk)
  else if 6 < nk ∧ i % nk = 4 then subWord box temp
  else temp

/-- The words of the schedule of a key of `nk` words. -/
def expandedKey (box : Equiv.Perm Gf256) (nk : Nat) (key : Nat → Word) (i : Nat) : Word :=
  if i < nk ∨ nk = 0 then key i
  else expandedKey box nk key (i - nk) + expansionStep box nk i (expandedKey box nk key (i - 1))
termination_by i
decreasing_by all_goals omega

theorem expandedKey_of_lt (box : Equiv.Perm Gf256) {nk : Nat} (key : Nat → Word) {i : Nat} (below : i < nk) :
    expandedKey box nk key i = key i := by
  rw [expandedKey, if_pos (Or.inl below)]

theorem expandedKey_of_le (box : Equiv.Perm Gf256) {nk : Nat} (key : Nat → Word) {i : Nat} (positive : 0 < nk)
    (above : nk ≤ i) : expandedKey box nk key i =
      expandedKey box nk key (i - nk) + expansionStep box nk i (expandedKey box nk key (i - 1)) := by
  rw [expandedKey, if_neg (by omega)]

/-- The words from `4 * n` on are the columns of the round key. -/
def roundKey (schedule : Nat → Word) (n : Nat) : State := fun row column => schedule (4 * n + column) row

/-- The cipher with `nr` rounds under a schedule. -/
def scheduled (box : Equiv.Perm Gf256) (nr : Nat) (schedule : Nat → Word) : Equiv.Perm State :=
  cipher box (roundKey schedule 0) ((List.range' 1 (nr - 1)).map (roundKey schedule)) (roundKey schedule nr)

/-- The cipher under a key of `nk` words. -/
def encryption (box : Equiv.Perm Gf256) (nk nr : Nat) (key : Nat → Word) : Equiv.Perm State :=
  scheduled box nr (expandedKey box nk key)

theorem roundKey_congr {schedule schedule' : Nat → Word} {n : Nat} (same : ∀ i < 4 * (n + 1), schedule i = schedule' i) :
    roundKey schedule n = roundKey schedule' n :=
  funext fun row => funext fun column => congrFun (same _ (by omega)) row

/-- Only the words of the round keys are used. -/
theorem scheduled_congr (box : Equiv.Perm Gf256) {nr : Nat} {schedule schedule' : Nat → Word}
    (same : ∀ i < 4 * (nr + 1), schedule i = schedule' i) : scheduled box nr schedule = scheduled box nr schedule' := by
  have key (n : Nat) (within : n ≤ nr) : roundKey schedule n = roundKey schedule' n :=
    roundKey_congr fun i below => same i (by omega)
  have middle : (List.range' 1 (nr - 1)).map (roundKey schedule) = (List.range' 1 (nr - 1)).map (roundKey schedule') := by
    apply List.map_congr_left
    intro n member
    rw [List.mem_range'_1] at member
    exact key n (by omega)
  rw [scheduled, scheduled, key 0 (Nat.zero_le nr), key nr (Nat.le_refl nr), middle]

/-! ### The S-box -/

def rotateByte (byte n : UInt8) : UInt8 := byte <<< n ||| byte >>> (8 - n)

/-- The affine transformation of the bits. -/
def affine (a : Gf256) : Gf256 :=
  ⟨a.byte ^^^ rotateByte a.byte 1 ^^^ rotateByte a.byte 2 ^^^ rotateByte a.byte 3 ^^^ rotateByte a.byte 4 ^^^ 0x63⟩

/-- The way back. -/
def invAffine (a : Gf256) : Gf256 :=
  ⟨rotateByte a.byte 1 ^^^ rotateByte a.byte 3 ^^^ rotateByte a.byte 6 ^^^ 0x05⟩

/-- The multiplicative inverse, with `{00}` mapped to itself, and the affine transformation. -/
noncomputable def sBox (a : Gf256) : Gf256 := affine (Ring.inverse a)

theorem sBox_of_mul_eq_one {a b : Gf256} (inverse : a * b = 1) : sBox a = affine b := by
  have unit : Ring.inverse a = b := Ring.inverse_unit ⟨a, b, inverse, (mul_comm b a).trans inverse⟩
  rw [sBox, unit]

theorem sBox_zero : sBox 0 = affine 0 := congrArg affine (Ring.inverse_zero Gf256)

end Rijndael

end RubyOlm
