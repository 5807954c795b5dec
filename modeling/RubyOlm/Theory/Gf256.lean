import Mathlib.Algebra.Field.Defs
import Mathlib.Tactic.Abel

/-!
# The field of 256 elements

Bytes as polynomials over the field of two elements, modulo `x^8 + x^4 + x^3 + x + 1`.
-/

namespace RubyOlm

/-- The coefficients, that of `x^0` in the lowest bit. -/
@[ext] structure Gf256 where
  byte : UInt8
  deriving DecidableEq

namespace Gf256

/-! ### Addition -/

instance : Zero Gf256 := ⟨⟨0⟩⟩
instance : One Gf256 := ⟨⟨1⟩⟩
instance : Add Gf256 := ⟨fun a b => ⟨a.byte ^^^ b.byte⟩⟩
instance : Neg Gf256 := ⟨fun a => a⟩

@[simp] theorem byte_zero : (0 : Gf256).byte = 0 := rfl
@[simp] theorem byte_one : (1 : Gf256).byte = 1 := rfl
@[simp] theorem byte_add (a b : Gf256) : (a + b).byte = a.byte ^^^ b.byte := rfl
@[simp] theorem neg_eq (a : Gf256) : -a = a := rfl

instance : AddCommGroup Gf256 where
  add_assoc a b c := Gf256.ext (UInt8.xor_assoc a.byte b.byte c.byte)
  zero_add _ := Gf256.ext UInt8.zero_xor
  add_zero _ := Gf256.ext UInt8.xor_zero
  add_comm a b := Gf256.ext (UInt8.xor_comm a.byte b.byte)
  neg_add_cancel _ := Gf256.ext UInt8.xor_self
  nsmul := nsmulRec
  zsmul := zsmulRec

theorem add_self (a : Gf256) : a + a = 0 := Gf256.ext UInt8.xor_self

/-- Whether `x^n` is among the powers of `x`. -/
def bit (a : Gf256) (n : Nat) : Bool := a.byte.toBitVec.getLsbD n

theorem bit_add (a b : Gf256) (n : Nat) : bit (a + b) n = (bit a n ^^ bit b n) := BitVec.getLsbD_xor

/-- What is added for a coefficient. -/
def select (present : Bool) (a : Gf256) : Gf256 := if present then a else 0

theorem select_add (present : Bool) (a b : Gf256) : select present (a + b) = select present a + select present b := by
  cases present
  · exact (add_zero 0).symm
  · rfl

theorem select_xor (p q : Bool) (a : Gf256) : select (p ^^ q) a = select p a + select q a := by
  cases p <;> cases q
  · exact (add_zero 0).symm
  · exact (zero_add a).symm
  · exact (add_zero a).symm
  · exact (add_self a).symm

/-! ### Multiplication -/

/-- Multiplication by `x`. -/
def xtime (a : Gf256) : Gf256 := ⟨a.byte <<< 1⟩ + select (bit a 7) ⟨0x1b⟩

theorem xtime_add (a b : Gf256) : xtime (a + b) = xtime a + xtime b := by
  have shifted : (⟨(a + b).byte <<< 1⟩ : Gf256) = ⟨a.byte <<< 1⟩ + ⟨b.byte <<< 1⟩ :=
    Gf256.ext UInt8.shiftLeft_xor
  rw [xtime, shifted, bit_add, select_xor, xtime, xtime]
  exact add_add_add_comm ..

/-- `a` times the `n` powers of `x` of `b` from the first one on, where `a` is that times the first. -/
def mulFrom (b : Gf256) : (a : Gf256) → (first n : Nat) → Gf256
  | _, _, 0 => 0
  | a, first, n + 1 => select (bit b first) a + mulFrom b (xtime a) (first + 1) n

instance : Mul Gf256 := ⟨fun a b => mulFrom b a 0 8⟩

theorem mulFrom_add (a b c : Gf256) (first n : Nat) :
    mulFrom (b + c) a first n = mulFrom b a first n + mulFrom c a first n := by
  induction n generalizing a first with
  | zero => exact (add_zero 0).symm
  | succ n ih =>
    rw [mulFrom, ih, bit_add, select_xor, mulFrom, mulFrom]
    exact add_add_add_comm ..

theorem add_mulFrom (a b c : Gf256) (first n : Nat) :
    mulFrom c (a + b) first n = mulFrom c a first n + mulFrom c b first n := by
  induction n generalizing a b first with
  | zero => exact (add_zero 0).symm
  | succ n ih =>
    rw [mulFrom, xtime_add, ih, select_add, mulFrom, mulFrom]
    exact add_add_add_comm ..

theorem mul_add_mul (a b c : Gf256) : a * (b + c) = a * b + a * c := mulFrom_add a b c 0 8

theorem add_mul_mul (a b c : Gf256) : (a + b) * c = a * c + b * c := add_mulFrom a b c 0 8

def mulLeft (a : Gf256) : Gf256 →+ Gf256 := AddMonoidHom.mk' (fun b => a * b) (mul_add_mul a)

def mulRight (b : Gf256) : Gf256 →+ Gf256 := AddMonoidHom.mk' (fun a => a * b) fun a c => add_mul_mul a c b

/-! ### From the powers of `x` to all bytes -/

def power : (n : Nat) → Gf256
  | 0 => 1
  | n + 1 => xtime (power n)

theorem forall_of_bytes {P : Gf256 → Prop} (bytes : ∀ n < 256, P ⟨UInt8.ofNat n⟩) (a : Gf256) : P a := by
  have here := bytes a.byte.toNat a.byte.toNat_lt
  rwa [UInt8.ofNat_toNat] at here

/-- Every byte is the sum of its powers of `x`. -/
theorem one_mul_eq (a : Gf256) : 1 * a = a :=
  forall_of_bytes (P := fun a => 1 * a = a) (by decide +kernel) a

theorem map_select (f : Gf256 →+ Gf256) (present : Bool) (a : Gf256) : f (select present a) = select present (f a) := by
  cases present
  · exact f.map_zero
  · rfl

/-- Additive functions are the same if they are the same at the powers of `x`. -/
theorem additive_ext {f g : Gf256 →+ Gf256} (powers : ∀ n < 8, f (power n) = g (power n)) (a : Gf256) : f a = g a := by
  have sums (n first : Nat) (within : first + n ≤ 8) :
      f (mulFrom a (power first) first n) = g (mulFrom a (power first) first n) := by
    induction n generalizing first with
    | zero => exact f.map_zero.trans g.map_zero.symm
    | succ n ih =>
      have rest : f (mulFrom a (xtime (power first)) (first + 1) n) = g (mulFrom a (xtime (power first)) (first + 1) n) :=
        ih (first + 1) (by omega)
      rw [mulFrom, f.map_add, g.map_add, map_select, map_select, powers first (by omega), rest]
  have all := sums 8 0 (Nat.le_refl 8)
  rwa [show mulFrom a (power 0) 0 8 = a from one_mul_eq a] at all

theorem mul_comm_power : ∀ n < 8, ∀ m < 8, power n * power m = power m * power n := by decide +kernel

theorem mul_assoc_power : ∀ n < 8, ∀ m < 8, ∀ k < 8,
    power n * power m * power k = power n * (power m * power k) := by decide +kernel

theorem mul_comm_all (a b : Gf256) : a * b = b * a := by
  have first (n : Nat) (below : n < 8) (b : Gf256) : power n * b = b * power n :=
    additive_ext (f := mulLeft (power n)) (g := mulRight (power n)) (mul_comm_power n below) b
  exact additive_ext (f := mulRight b) (g := mulLeft b) (fun n below => first n below b) a

theorem mul_assoc_all (a b c : Gf256) : a * b * c = a * (b * c) := by
  have first (n : Nat) (hn : n < 8) (m : Nat) (hm : m < 8) (c : Gf256) :
      power n * power m * c = power n * (power m * c) :=
    additive_ext (f := mulLeft (power n * power m)) (g := (mulLeft (power n)).comp (mulLeft (power m)))
      (mul_assoc_power n hn m hm) c
  have second (n : Nat) (hn : n < 8) (b : Gf256) : power n * b * c = power n * (b * c) :=
    additive_ext (f := (mulRight c).comp (mulLeft (power n))) (g := (mulLeft (power n)).comp (mulRight c))
      (fun m hm => first n hn m hm c) b
  exact additive_ext (f := (mulRight c).comp (mulRight b)) (g := mulRight (b * c)) (fun n hn => second n hn b) a

instance : CommRing Gf256 where
  __ := (inferInstance : AddCommGroup Gf256)
  left_distrib := mul_add_mul
  right_distrib := add_mul_mul
  zero_mul a := (mulRight a).map_zero
  mul_zero a := (mulLeft a).map_zero
  mul_assoc := mul_assoc_all
  mul_comm := mul_comm_all
  one_mul := one_mul_eq
  mul_one a := (mul_comm_all a 1).trans (one_mul_eq a)

end Gf256

end RubyOlm
