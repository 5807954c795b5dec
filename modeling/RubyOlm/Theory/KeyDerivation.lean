import Mathlib.Data.List.Basic

/-!
# HMAC and HKDF

The message authentication code of RFC 2104 and the key derivation of RFC 5869, over any hash function that works on
blocks.
-/

namespace RubyOlm

structure HashFunction where
  hash : List UInt8 → List UInt8
  blockLength : Nat
  hashLength : Nat
  length_hash : ∀ text, (hash text).length = hashLength

namespace HashFunction

variable (function : HashFunction)

/-! ### HMAC -/

/-- The key with zeros appended to make a block of it. A key that is longer than a block is hashed first. -/
def keyBlock (key : List UInt8) : List UInt8 :=
  let key := if key.length > function.blockLength then function.hash key else key
  key ++ List.replicate (function.blockLength - key.length) 0

/-- `H(K XOR opad, H(K XOR ipad, text))`. -/
def hmac (key text : List UInt8) : List UInt8 :=
  function.hash ((function.keyBlock key).map (· ^^^ 0x5C) ++
    function.hash ((function.keyBlock key).map (· ^^^ 0x36) ++ text))

@[simp] theorem length_hmac (key text : List UInt8) : (function.hmac key text).length = function.hashLength :=
  function.length_hash _

/-! ### HKDF -/

/-- A salt that is not provided is a string of `HashLen` zeros. -/
def extract (salt : Option (List UInt8)) (input : List UInt8) : List UInt8 :=
  function.hmac (salt.getD (List.replicate function.hashLength 0)) input

/-- `T(n)`, with `T(0)` the empty string. -/
def expandBlock (key info : List UInt8) : (n : Nat) → List UInt8
  | 0 => []
  | n + 1 => function.hmac key (expandBlock key info n ++ info ++ [UInt8.ofNat (n + 1)])

/-- `T(first) | T(first + 1) | ...`, so many of them. -/
def expandBlocks (key info : List UInt8) : (first count : Nat) → List UInt8
  | _, 0 => []
  | first, count + 1 => function.expandBlock key info first ++ expandBlocks key info (first + 1) count

/-- The first `length` bytes of `T(1) | T(2) | ... | T(N)`, where `N` is `length / HashLen`, rounded up. -/
def expand (key info : List UInt8) (length : Nat) : List UInt8 :=
  (function.expandBlocks key info 1 ((length + (function.hashLength - 1)) / function.hashLength)).take length

def derive (input : List UInt8) (salt : Option (List UInt8)) (info : List UInt8) (length : Nat) : List UInt8 :=
  function.expand (function.extract salt input) info length

@[simp] theorem length_expandBlock_succ (key info : List UInt8) (n : Nat) :
    (function.expandBlock key info (n + 1)).length = function.hashLength :=
  function.length_hmac _ _

theorem length_expandBlocks (key info : List UInt8) (n count : Nat) :
    (function.expandBlocks key info (n + 1) count).length = function.hashLength * count := by
  induction count generalizing n with
  | zero => rfl
  | succ count ih => rw [expandBlocks, List.length_append, length_expandBlock_succ, ih, Nat.mul_succ, Nat.add_comm]

theorem length_expand (key info : List UInt8) (length : Nat) (positive : 0 < function.hashLength) :
    (function.expand key info length).length = length := by
  rw [expand, List.length_take, length_expandBlocks]
  have rounded := Nat.lt_mul_div_succ (length + (function.hashLength - 1)) positive
  rw [Nat.mul_succ] at rounded
  omega

/-- Of more blocks than are needed the first are taken. -/
theorem take_expandBlocks_succ (key info : List UInt8) (n count : Nat) {length : Nat}
    (more : function.hashLength ≤ length) :
    (function.expandBlocks key info (n + 1) (count + 1)).take length =
      function.expandBlock key info (n + 1) ++
        (function.expandBlocks key info (n + 2) count).take (length - function.hashLength) := by
  rw [expandBlocks, List.take_append, length_expandBlock_succ,
    List.take_of_length_le (by rw [length_expandBlock_succ]; exact more)]

end HashFunction

end RubyOlm
