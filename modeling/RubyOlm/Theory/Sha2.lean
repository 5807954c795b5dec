import Mathlib.Analysis.SpecialFunctions.Pow.NthRootLemmas
import Mathlib.Data.Nat.Prime.Defs
import Mathlib.Data.UInt
import RubyOlm.Theory.MerkleDamgard

/-!
# SHA-256

The hash function of FIPS 180-4: its functions on words, its constants, the message schedule, and the compression function
under the padding.
-/

namespace RubyOlm

namespace Sha2

/-! ### Functions -/

def rotr (n : Nat) (x : UInt32) : UInt32 := ⟨x.toBitVec.rotateRight n⟩

def shr (n : Nat) (x : UInt32) : UInt32 := ⟨x.toBitVec >>> n⟩

def ch (x y z : UInt32) : UInt32 := (x &&& y) ^^^ (~~~x &&& z)

def maj (x y z : UInt32) : UInt32 := (x &&& y) ^^^ (x &&& z) ^^^ (y &&& z)

def bigSigma0 (x : UInt32) : UInt32 := rotr 2 x ^^^ rotr 13 x ^^^ rotr 22 x

def bigSigma1 (x : UInt32) : UInt32 := rotr 6 x ^^^ rotr 11 x ^^^ rotr 25 x

def smallSigma0 (x : UInt32) : UInt32 := rotr 7 x ^^^ rotr 18 x ^^^ shr 3 x

def smallSigma1 (x : UInt32) : UInt32 := rotr 17 x ^^^ rotr 19 x ^^^ shr 10 x

/-! ### Constants -/

/-- The first 32 bits of the fractional part of a root. -/
@[irreducible] def fractionalRoot (degree n : Nat) : UInt32 := UInt32.ofNat (Nat.nthRoot degree (n * 2 ^ (32 * degree)))

/-- The primes below a bound, in order. -/
def primes (bound : Nat) : List Nat := (List.range bound).filter (Nat.Prime ·)

/-- From the cube roots of the first sixty-four primes. -/
def k (t : Nat) : UInt32 := fractionalRoot 3 ((primes 312).getD t 0)

/-- How to tell, of a root with the integer part `whole`. -/
theorem fractionalRoot_eq {degree n whole : Nat} {bits : UInt32} (positive : degree ≠ 0)
    (below : (whole * 2 ^ 32 + bits.toNat) ^ degree ≤ n * 2 ^ (32 * degree))
    (above : n * 2 ^ (32 * degree) < (whole * 2 ^ 32 + bits.toNat + 1) ^ degree) : fractionalRoot degree n = bits := by
  have root : Nat.nthRoot degree (n * 2 ^ (32 * degree)) = whole * 2 ^ 32 + bits.toNat := by
    apply Nat.le_antisymm
    · rw [← Nat.lt_succ_iff, Nat.nthRoot_lt_iff positive]
      exact above
    · exact (Nat.le_nthRoot_iff positive).mpr below
  apply UInt32.toNat_inj.mp
  have := bits.toNat_lt
  unfold fractionalRoot
  rw [root, UInt32.toNat_ofNat']
  omega

/-- Numbers without divisors below `root`. -/
def trialDivision (bound root : Nat) : List Nat :=
  (List.range bound).filter fun n => 2 ≤ n ∧ ∀ m < root, 2 ≤ m → m * m ≤ n → n % m ≠ 0

theorem primes_eq {bound root : Nat} (covers : bound ≤ root * root) : primes bound = trialDivision bound root := by
  apply List.filter_congr
  intro n member
  have below := List.mem_range.mp member
  apply decide_eq_decide.mpr
  rw [Nat.prime_def_le_sqrt]
  constructor
  · intro ⟨two, apart⟩
    refine ⟨two, fun m _ more square divides => ?_⟩
    exact apart m more (Nat.le_sqrt.mpr square) (Nat.dvd_of_mod_eq_zero divides)
  · intro ⟨two, apart⟩
    refine ⟨two, fun m more small divides => ?_⟩
    have square := Nat.le_sqrt.mp small
    exact apart m (Nat.mul_self_lt_mul_self_iff.mp (by omega)) more square (Nat.mod_eq_zero_of_dvd divides)

/-! ### Compression -/

/-- The working variables, and the hash value. -/
@[ext] structure State where
  a : UInt32
  b : UInt32
  c : UInt32
  d : UInt32
  e : UInt32
  f : UInt32
  g : UInt32
  h : UInt32
  deriving DecidableEq

/-- Four bytes as a number, the highest first. -/
def bigEndianWord (bytes : List UInt8) : UInt32 := UInt32.ofNat (bytes.foldl (fun n byte => n * 256 + byte.toNat) 0)

/-- `W_t`. -/
def schedule (block : List UInt8) (t : Nat) : UInt32 :=
  if t < 16 then bigEndianWord ((block.drop (4 * t)).take 4)
  else smallSigma1 (schedule block (t - 2)) + schedule block (t - 7) + smallSigma0 (schedule block (t - 15)) +
    schedule block (t - 16)
termination_by t
decreasing_by all_goals omega

theorem schedule_of_lt (block : List UInt8) {t : Nat} (below : t < 16) :
    schedule block t = bigEndianWord ((block.drop (4 * t)).take 4) := by
  rw [schedule, if_pos below]

theorem schedule_of_le (block : List UInt8) {t : Nat} (above : 16 ≤ t) :
    schedule block t = smallSigma1 (schedule block (t - 2)) + schedule block (t - 7) +
      smallSigma0 (schedule block (t - 15)) + schedule block (t - 16) := by
  rw [schedule, if_neg (by omega)]

def round (constant word : UInt32) (s : State) : State :=
  let t1 := s.h + bigSigma1 s.e + ch s.e s.f s.g + constant + word
  let t2 := bigSigma0 s.a + maj s.a s.b s.c
  { h := s.g, g := s.f, f := s.e, e := s.d + t1, d := s.c, c := s.b, b := s.a, a := t1 + t2 }

/-- The rounds before round `t`. -/
def rounds (words : Nat → UInt32) (s : State) : (t : Nat) → State
  | 0 => s
  | t + 1 => round (k t) (words t) (rounds words s t)

def add (s t : State) : State :=
  ⟨s.a + t.a, s.b + t.b, s.c + t.c, s.d + t.d, s.e + t.e, s.f + t.f, s.g + t.g, s.h + t.h⟩

def compress (s : State) (block : List UInt8) : State := add s (rounds (schedule block) s 64)

/-! ### The hash -/

/-- The lowest `count` bytes, the highest of them first. -/
def bigEndianBytes (count value : Nat) : List UInt8 :=
  (List.range count).map fun i => UInt8.ofNat (value / 256 ^ (count - 1 - i))

@[simp] theorem length_bigEndianBytes (count value : Nat) : (bigEndianBytes count value).length = count := by
  rw [bigEndianBytes, List.length_map, List.length_range]

/-- The length is counted in bits. Of a message with `2^64` of them or more, for which the standard has no hash, the lowest
bits are taken. -/
def sha256 : BlockHash State where
  blockLength := 64
  lengthLength := 8
  compress := compress
  encodeLength n := bigEndianBytes 8 (8 * n)
  fits := by decide
  length_encodeLength _ := length_bigEndianBytes 8 _

/-- From the square roots of the first eight primes. -/
def initial : State :=
  let root t := fractionalRoot 2 ((primes 20).getD t 0)
  ⟨root 0, root 1, root 2, root 3, root 4, root 5, root 6, root 7⟩

def State.bytes (s : State) : List UInt8 :=
  [s.a, s.b, s.c, s.d, s.e, s.f, s.g, s.h].flatMap fun word => bigEndianBytes 4 word.toNat

theorem State.length_bytes (s : State) : s.bytes.length = 32 := by
  simp [State.bytes]

def hash (message : List UInt8) : { digest : List UInt8 // digest.length = 32 } :=
  ⟨(sha256.digest initial message).bytes, State.length_bytes _⟩

end Sha2

end RubyOlm
