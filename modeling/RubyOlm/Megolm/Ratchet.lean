import Mathlib.Logic.Function.Iterate
import Mathlib.Data.Fintype.Basic
import Mathlib.Tactic.FinCases
import RubyOlm.Basic

/-!
# The Megolm ratchet

`megolm.c` without its pickling: the four-part ratchet, the single step `megolm_advance` and the
jump `megolm_advance_to`. The parts and the four hash functions are parameters, since nothing in
the file looks inside a part.
-/

namespace RubyOlm

structure Megolm (Part : Type) where
  data : Fin 4 → Part
  counter : UInt32

namespace Megolm

variable {Part : Type} (hash : Fin 4 → Part → Part)

/-- `hash to` is HMAC of the one-byte seed `HASH_KEY_SEEDS[to]`, keyed with the part. -/
def rehashPart (data : Fin 4 → Part) (rehashFrom rehashTo : Fin 4) : Fin 4 → Part :=
  Function.update data rehashTo (hash rehashTo (data rehashFrom))

/-- `for (i = 3; i >= h; i--) rehash_part(data, h, i)`, so `data[h]` itself goes last. -/
def rehashDown (data : Fin 4 → Part) (h : Fin 4) : Fin 4 → Part :=
  ([3, 2, 1, 0].filter (h ≤ ·)).foldl (fun data i => rehashPart hash data h i) data

/-- The `while` loop of `megolm_advance`, `parts` iterations from `h` on. -/
def rekeyFrom (counter : UInt32) : (parts h : Nat) → (mask : UInt32) → Nat
  | 0, h, _ => h
  | parts + 1, h, mask =>
    if counter &&& mask = 0 then h else rekeyFrom counter parts (h + 1) (mask >>> 8)

def advance (m : Megolm Part) : Megolm Part :=
  let counter := m.counter + 1
  let h := rekeyFrom counter 4 0 0x00FFFFFF
  { data := if inside : h < 4 then rehashDown hash m.data ⟨h, inside⟩ else m.data
    counter }

/-- `while (steps > 1) rehash_part(data, j, j)`. -/
def rehashSelf (data : Fin 4 → Part) (j : Fin 4) : (steps : Nat) → Fin 4 → Part
  | 0 => data
  | steps + 1 => rehashSelf (rehashPart hash data j j) j steps

/-- The body of the `for` loop of `megolm_advance_to`. -/
def advancePart (advanceTo : UInt32) (m : Megolm Part) (j : Fin 4) : Megolm Part :=
  let shift : UInt32 := (3 - UInt32.ofNat j) * 8
  let mask : UInt32 := (~~~0) <<< shift
  let rehash (steps : UInt32) : Megolm Part :=
    { data := rehashDown hash (rehashSelf hash m.data j (steps.toNat - 1)) j
      counter := advanceTo &&& mask }
  let steps := ((advanceTo >>> shift) - (m.counter >>> shift)) &&& 0xff
  if steps = 0 then
    -- only for part 0: the target wrapped around
    if advanceTo < m.counter then rehash 0x100 else m
  else rehash steps

def advanceTo (m : Megolm Part) (target : UInt32) : Megolm Part :=
  [0, 1, 2, 3].foldl (advancePart hash target) m

/-! ### Parts of bytes -/

def hashKeySeeds (i : Fin 4) : UInt8 := UInt8.ofNat i

/-- The hash that `rehash_part` writes to part `i`, for a given HMAC. -/
def partHash (hmac : Bytes → Bytes → Block 32) (i : Fin 4) (part : Block 32) : Block 32 :=
  hmac part.val [hashKeySeeds i]

def getData (m : Megolm (Block 32)) : Block 128 :=
  ⟨(m.data 0).val ++ (m.data 1).val ++ (m.data 2).val ++ (m.data 3).val, by simp⟩

def dataPart (data : Block 128) (i : Fin 4) : Block 32 := Block.load 32 (data.val.drop (32 * i))

def init (randomData : Block 128) (counter : UInt32) : Megolm (Block 32) := ⟨dataPart randomData, counter⟩

theorem dataPart_getData (m : Megolm (Block 32)) : dataPart m.getData = m.data := by
  funext i
  fin_cases i
  all_goals
    apply Subtype.ext
    simp [dataPart, getData, Block.load, List.drop_append, List.drop_of_length_le]

@[simp] theorem init_getData (m : Megolm (Block 32)) (counter : UInt32) :
    init m.getData counter = { m with counter } := by
  rw [init, dataPart_getData]

/-! ### What one rehash does -/

theorem rehashDown_apply (data : Fin 4 → Part) (h k : Fin 4) :
    rehashDown hash data h k = if h ≤ k then hash k (data h) else data k := by
  fin_cases h <;> fin_cases k <;> simp [rehashDown, rehashPart, Function.update]

theorem rehashSelf_apply (data : Fin 4 → Part) (j k : Fin 4) (steps : Nat) :
    rehashSelf hash data j steps k = if k = j then (hash j)^[steps] (data j) else data k := by
  induction steps generalizing data with
  | zero => rw [rehashSelf]; split <;> simp_all
  | succ steps ih =>
    rw [rehashSelf, ih, rehashPart]
    by_cases same : k = j
    · simp [same]
    · simp [same]

/-! ### The clock -/

/-- Part `j` changes exactly when the clock reaches a multiple of `block j`. -/
def block (j : Fin 4) : Nat := 2 ^ (8 * (3 - j.val))

/-- The part that a step reaching `time` spreads downwards. -/
def level (time : Nat) : Fin 4 :=
  if block 0 ∣ time then 0 else if block 1 ∣ time then 1 else if block 2 ∣ time then 2 else 3

end Megolm

end RubyOlm
