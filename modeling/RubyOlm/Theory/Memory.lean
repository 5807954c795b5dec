import Mathlib.Data.List.GetD
import Mathlib.Tactic.Linarith

/-!
# Programs over memory

Loops that read and write bytes through pointers. Nothing stops a program from leaving its buffers: it says
what it returns, what it leaves in memory and which bytes it touched on the way, and where it may go is then
a property of those accesses. Two pointers may lead into one block, so input and output can overlap.
-/

namespace RubyOlm

/-- A place in memory. `index` counts from the start of the block, which may be before it or behind its end. -/
structure Pointer (B : Type) where
  block : B
  index : Int
  deriving DecidableEq

namespace Pointer

variable {B : Type}

def start (block : B) : Pointer B := ⟨block, 0⟩

instance : HAdd (Pointer B) Nat (Pointer B) := ⟨fun p n => ⟨p.block, p.index + n⟩⟩

instance : HSub (Pointer B) Nat (Pointer B) := ⟨fun p n => ⟨p.block, p.index - n⟩⟩

@[simp] theorem block_start (block : B) : (start block).block = block := rfl

@[simp] theorem block_add (p : Pointer B) (n : Nat) : (p + n).block = p.block := rfl

@[simp] theorem block_sub (p : Pointer B) (n : Nat) : (p - n).block = p.block := rfl

@[simp] theorem index_add (p : Pointer B) (n : Nat) : (p + n).index = p.index + n := rfl

theorem add_zero (p : Pointer B) : p + 0 = p := by
  show Pointer.mk p.block (p.index + (0 : Nat)) = p
  rw [Int.natCast_zero, Int.add_zero]

theorem add_add (p : Pointer B) (m n : Nat) : p + m + n = p + (m + n) := by
  show Pointer.mk p.block (p.index + m + n) = ⟨p.block, p.index + (m + n : Nat)⟩
  rw [Int.natCast_add, Int.add_assoc]

theorem add_sub (p : Pointer B) {m n : Nat} (le : n ≤ m) : p + m - n = p + (m - n) := by
  show Pointer.mk p.block (p.index + m - n) = ⟨p.block, p.index + (m - n : Nat)⟩
  rw [Int.natCast_sub le, Int.add_sub_assoc]

end Pointer

/-! ### Memory -/

abbrev Memory (B : Type) := Pointer B → UInt8

namespace Memory

variable {B : Type}

/-- The `length` bytes at `p`. -/
def read (memory : Memory B) (p : Pointer B) (length : Nat) : List UInt8 :=
  (List.range length).map fun i => memory (p + i)

@[simp] theorem length_read (memory : Memory B) (p : Pointer B) (length : Nat) :
    (memory.read p length).length = length := by
  simp [read]

@[simp] theorem read_zero (memory : Memory B) (p : Pointer B) : memory.read p 0 = [] := rfl

theorem getElem_read (memory : Memory B) (p : Pointer B) {length i : Nat}
    (lt : i < (memory.read p length).length) : (memory.read p length)[i] = memory (p + i) := by
  simp [read]

theorem read_add (memory : Memory B) (p : Pointer B) (m n : Nat) :
    memory.read p (m + n) = memory.read p m ++ memory.read (p + m) n := by
  simp only [read, List.range_add, List.map_append, List.map_map, Pointer.add_add]
  rfl

theorem read_one (memory : Memory B) (p : Pointer B) : memory.read p 1 = [memory p] := by
  show [memory (p + 0)] = [memory p]
  rw [Pointer.add_zero]

theorem read_succ (memory : Memory B) (p : Pointer B) (n : Nat) :
    memory.read p (n + 1) = memory p :: memory.read (p + 1) n := by
  rw [Nat.add_comm, read_add, read_one, List.singleton_append]

theorem take_read (memory : Memory B) (p : Pointer B) {m n : Nat} (le : m ≤ n) :
    (memory.read p n).take m = memory.read p m := by
  obtain ⟨rest, rfl⟩ := Nat.exists_eq_add_of_le le
  rw [read_add, List.take_left' (length_read memory p m)]

theorem drop_read (memory : Memory B) (p : Pointer B) (m n : Nat) :
    (memory.read p n).drop m = memory.read (p + m) (n - m) := by
  by_cases le : m ≤ n
  · obtain ⟨rest, rfl⟩ := Nat.exists_eq_add_of_le le
    rw [read_add, List.drop_left' (length_read memory p m), Nat.add_sub_cancel_left]
  · rw [List.drop_of_length_le (by rw [length_read]; omega), Nat.sub_eq_zero_of_le (by omega), read_zero]

theorem read_congr {memory memory' : Memory B} {p : Pointer B} {length : Nat}
    (same : ∀ i < length, memory (p + i) = memory' (p + i)) : memory.read p length = memory'.read p length := by
  apply List.map_congr_left
  intro i range
  exact same i (List.mem_range.mp range)

/-- The `m` bytes at `p` and the `n` bytes at `q` have no place in common. -/
def Apart (p : Pointer B) (m : Nat) (q : Pointer B) (n : Nat) : Prop :=
  p.block = q.block → p.index + m ≤ q.index ∨ q.index + n ≤ p.index

theorem Apart.symm {p q : Pointer B} {m n : Nat} (apart : Apart p m q n) : Apart q n p m :=
  fun same => (apart same.symm).symm

theorem Apart.sub {p q : Pointer B} {m n : Nat} (apart : Apart p m q n) {j m' k n' : Nat} (left : j + m' ≤ m)
    (right : k + n' ≤ n) : Apart (p + j) m' (q + k) n' := by
  intro same
  rw [Pointer.index_add, Pointer.index_add]
  have := apart same
  omega

theorem Apart.front {p q : Pointer B} {m n n' : Nat} (apart : Apart p m q n) (le : n' ≤ n) : Apart p m q n' := by
  intro same
  have := apart same
  omega

theorem Apart.behind {p q : Pointer B} {m n k n' : Nat} (apart : Apart p m q n) (le : k + n' ≤ n) :
    Apart p m (q + k) n' := by
  intro same
  rw [Pointer.index_add]
  have := apart same
  omega

variable [DecidableEq B]

/-- Memory with `bytes` put at `p`. -/
def write (memory : Memory B) (p : Pointer B) (bytes : List UInt8) : Memory B := fun q =>
  if q.block = p.block ∧ p.index ≤ q.index then bytes.getD (q.index - p.index).toNat (memory q) else memory q

theorem write_add (memory : Memory B) (p : Pointer B) (bytes : List UInt8) (i : Nat) :
    memory.write p bytes (p + i) = bytes.getD i (memory (p + i)) := by
  rw [write, if_pos ⟨rfl, by rw [Pointer.index_add]; omega⟩, Pointer.index_add, show p.index + i - p.index = i by omega,
    Int.toNat_natCast]

@[simp] theorem write_nil (memory : Memory B) (p : Pointer B) : memory.write p [] = memory := by
  funext q
  unfold write
  split <;> simp

theorem write_apart (memory : Memory B) {p q : Pointer B} {bytes : List UInt8}
    (apart : Apart p bytes.length q 1) : memory.write p bytes q = memory q := by
  unfold write
  split
  · rename_i inside
    rcases apart inside.1.symm with behind | before
    · exact List.getD_eq_default _ _ (by omega)
    · omega
  · rfl

@[simp] theorem read_write (memory : Memory B) (p : Pointer B) (bytes : List UInt8) :
    (memory.write p bytes).read p bytes.length = bytes := by
  apply List.ext_getElem (length_read ..)
  intro i _ lt
  rw [getElem_read, write_add, List.getD_eq_getElem _ _ lt]

theorem read_write_of_length (memory : Memory B) (p : Pointer B) (bytes : List UInt8) {length : Nat}
    (same : bytes.length = length) : (memory.write p bytes).read p length = bytes := by
  rw [← same, read_write]

theorem read_write_apart (memory : Memory B) {p q : Pointer B} {bytes : List UInt8} {length : Nat}
    (apart : Apart p bytes.length q length) : (memory.write p bytes).read q length = memory.read q length := by
  apply read_congr
  intro i lt
  apply write_apart
  intro same
  rcases apart same with behind | before
  · exact .inl (by rw [Pointer.index_add]; omega)
  · exact .inr (by rw [Pointer.index_add]; omega)

theorem read_write_other (memory : Memory B) {p q : Pointer B} (bytes : List UInt8) (length : Nat)
    (other : ¬ p.block = q.block) : (memory.write p bytes).read q length = memory.read q length :=
  read_write_apart memory fun same => absurd same other

/-- More may be written than is read again, or less. -/
theorem read_write_take (memory : Memory B) (p : Pointer B) (bytes : List UInt8) (length : Nat) :
    (memory.write p bytes).read p length = (bytes ++ (memory.read p length).drop bytes.length).take length := by
  by_cases le : bytes.length ≤ length
  · obtain ⟨rest, rfl⟩ := Nat.exists_eq_add_of_le le
    rw [read_add, read_write, drop_read, Nat.add_sub_cancel_left, List.take_of_length_le (by simp),
      read_write_apart memory fun _ => .inl (by rw [Pointer.index_add])]
  · have whole := read_write memory p bytes
    rw [← take_read _ _ (show length ≤ bytes.length by omega), whole, List.take_append_of_le_length (by omega)]

theorem write_append (memory : Memory B) (p : Pointer B) (bytes rest : List UInt8) :
    memory.write p (bytes ++ rest) = (memory.write p bytes).write (p + bytes.length) rest := by
  funext q
  unfold write
  simp only [Pointer.block_add, Pointer.index_add]
  by_cases inside : q.block = p.block ∧ p.index ≤ q.index
  · rw [if_pos inside]
    by_cases behind : p.index + bytes.length ≤ q.index
    · rw [if_pos ⟨inside.1, behind⟩, if_pos inside, List.getD_append_right _ _ _ _ (by omega),
        List.getD_eq_default bytes _ (by omega)]
      congr 1
      omega
    · rw [if_neg (fun both => behind both.2), if_pos inside, List.getD_append _ _ _ _ (by omega)]
  · rw [if_neg inside, if_neg (fun both => inside ⟨both.1, by omega⟩), if_neg inside]

/-- Bytes that are all put over afterwards. -/
theorem write_over (memory : Memory B) (p : Pointer B) (k : Nat) {bytes bytes' : List UInt8}
    (le : k + bytes.length ≤ bytes'.length) : (memory.write (p + k) bytes).write p bytes' = memory.write p bytes' := by
  funext q
  by_cases inside : q.block = p.block ∧ p.index ≤ q.index ∧ q.index < p.index + bytes'.length
  · have low : (q.index - p.index).toNat < bytes'.length := by omega
    have put (memory : Memory B) : memory.write p bytes' q = bytes'[(q.index - p.index).toNat] := by
      rw [write, if_pos ⟨inside.1, inside.2.1⟩, List.getD_eq_getElem _ _ low]
    rw [put, put]
  · have outside (n : Nat) (bytes : List UInt8) (fits : n + bytes.length ≤ bytes'.length) :
        Apart (p + n) bytes.length q 1 := by
      intro same
      rw [Pointer.index_add]
      rw [not_and] at inside
      have := inside same.symm
      omega
    have apart := outside 0 bytes' (by omega)
    rw [Pointer.add_zero] at apart
    rw [write_apart _ apart, write_apart _ apart, write_apart _ (outside k bytes le)]

theorem write_write (memory : Memory B) (p : Pointer B) {bytes bytes' : List UInt8}
    (le : bytes.length ≤ bytes'.length) : (memory.write p bytes).write p bytes' = memory.write p bytes' := by
  have covered := @write_over B _ memory p 0 bytes bytes' (by omega)
  rwa [Pointer.add_zero] at covered

/-- Bytes put behind others that are put afterwards. -/
theorem write_before (memory : Memory B) (p : Pointer B) (bytes rest : List UInt8) :
    (memory.write (p + bytes.length) rest).write p bytes = memory.write p (bytes ++ rest) := by
  rw [write_append]
  funext q
  unfold write
  rw [Pointer.block_add, Pointer.index_add]
  by_cases block : q.block = p.block
  · by_cases behind : p.index + bytes.length ≤ q.index
    · have low : p.index ≤ q.index := by omega
      have none (default : UInt8) : bytes.getD (q.index - p.index).toNat default = default :=
        List.getD_eq_default bytes _ (by omega)
      simp only [block, behind, low, none, and_self, if_true]
    · simp only [behind, and_false, if_false]
  · simp only [block, false_and, if_false]

theorem write_one_before (memory : Memory B) (p : Pointer B) (byte : UInt8) (rest : List UInt8) :
    (memory.write (p + 1) rest).write p [byte] = memory.write p (byte :: rest) :=
  write_before memory p [byte] rest

end Memory

/-! ### Programs -/

inductive AccessKind where
  | read
  | write
  deriving DecidableEq

structure Access (B : Type) where
  kind : AccessKind
  place : Pointer B

structure Effect (B Result : Type) where
  value : Result
  memory : Memory B
  accesses : List (Access B)

/-- A program that starts from some memory. -/
def Prog (B Result : Type) : Type := Memory B → Effect B Result

namespace Prog

variable {B Result Result' State : Type}

instance : Monad (Prog B) where
  pure value := fun memory => ⟨value, memory, []⟩
  bind x next := fun memory =>
    let first := x memory
    let second := next first.value first.memory
    ⟨second.value, second.memory, first.accesses ++ second.accesses⟩

@[simp] theorem run_pure (value : Result) (memory : Memory B) :
    (pure value : Prog B Result) memory = ⟨value, memory, []⟩ := rfl

@[simp] theorem value_bind (x : Prog B Result) (next : Result → Prog B Result') (memory : Memory B) :
    ((x >>= next) memory).value = (next (x memory).value (x memory).memory).value := rfl

@[simp] theorem memory_bind (x : Prog B Result) (next : Result → Prog B Result') (memory : Memory B) :
    ((x >>= next) memory).memory = (next (x memory).value (x memory).memory).memory := rfl

theorem mem_accesses_bind (x : Prog B Result) (next : Result → Prog B Result') (memory : Memory B) (access : Access B) :
    access ∈ ((x >>= next) memory).accesses ↔
      access ∈ (x memory).accesses ∨ access ∈ (next (x memory).value (x memory).memory).accesses :=
  List.mem_append

/-- Every access of the run from `memory` is one of those that `P` allows. -/
def Within (x : Prog B Result) (memory : Memory B) (P : Access B → Prop) : Prop :=
  ∀ access ∈ (x memory).accesses, P access

variable {P : Access B → Prop}

@[simp] theorem within_pure (value : Result) (memory : Memory B) :
    (pure value : Prog B Result).Within memory P := by
  intro access none
  cases none

@[simp] theorem within_bind (x : Prog B Result) (next : Result → Prog B Result') (memory : Memory B) :
    (x >>= next).Within memory P ↔
      x.Within memory P ∧ (next (x memory).value).Within (x memory).memory P :=
  List.forall_mem_append

theorem within_ite {condition : Prop} [Decidable condition] (x y : Prog B Result) (memory : Memory B) :
    (if condition then x else y).Within memory P ↔
      (condition → x.Within memory P) ∧ (¬ condition → y.Within memory P) := by
  split
  · rename_i holds
    exact ⟨fun within => ⟨fun _ => within, fun fails => absurd holds fails⟩, fun both => both.1 holds⟩
  · rename_i fails
    exact ⟨fun within => ⟨fun holds => absurd holds fails, fun _ => within⟩, fun both => both.2 fails⟩

end Prog

/-! ### Bytes in a row -/

/-- `P` allows accesses of this kind to the `length` bytes at `p`. -/
def Covers {B : Type} (P : Access B → Prop) (kind : AccessKind) (p : Pointer B) (length : Nat) : Prop :=
  ∀ i < length, P ⟨kind, p + i⟩

section Covers

variable {B : Type} {P : Access B → Prop} {kind : AccessKind} {p : Pointer B}

@[simp] theorem covers_zero : Covers P kind p 0 := fun _ lt => absurd lt (Nat.not_lt_zero _)

theorem covers_add (m n : Nat) : Covers P kind p (m + n) ↔ Covers P kind p m ∧ Covers P kind (p + m) n := by
  constructor
  · intro covers
    refine ⟨fun i lt => covers i (by omega), fun i lt => ?_⟩
    rw [Pointer.add_add]
    exact covers (m + i) (by omega)
  · rintro ⟨first, second⟩ i lt
    by_cases low : i < m
    · exact first i low
    · have covered := second (i - m) (by omega)
      rwa [Pointer.add_add, Nat.add_sub_cancel' (by omega)] at covered

theorem covers_succ (n : Nat) : Covers P kind p (n + 1) ↔ Covers P kind p n ∧ P ⟨kind, p + n⟩ := by
  constructor
  · intro covers
    exact ⟨fun i lt => covers i (by omega), covers n (by omega)⟩
  · rintro ⟨before, last⟩ i lt
    rcases Nat.lt_succ_iff_lt_or_eq.mp lt with lt | rfl
    · exact before i lt
    · exact last

theorem covers_mul (width count : Nat) :
    (∀ turn < count, Covers P kind (p + width * turn) width) ↔ Covers P kind p (width * count) := by
  induction count with
  | zero =>
    constructor
    · intro _
      exact covers_zero
    · intro _ turn none
      exact absurd none (Nat.not_lt_zero _)
  | succ count ih =>
    rw [Nat.mul_succ, covers_add, ← ih]
    constructor
    · intro covers
      exact ⟨fun turn lt => covers turn (by omega), covers count (by omega)⟩
    · rintro ⟨before, last⟩ turn lt
      rcases Nat.lt_succ_iff_lt_or_eq.mp lt with lt | rfl
      · exact before turn lt
      · exact last

theorem covers_and {Q : Access B → Prop} (length : Nat) :
    Covers (fun access => P access ∧ Q access) kind p length ↔ Covers P kind p length ∧ Covers Q kind p length :=
  ⟨fun covers => ⟨fun i lt => (covers i lt).1, fun i lt => (covers i lt).2⟩,
    fun covers i lt => ⟨covers.1 i lt, covers.2 i lt⟩⟩

theorem covers_read (reads : ∀ place, P ⟨.read, place⟩) {length : Nat} : Covers P .read p length := fun _ _ => reads _

theorem Covers.mono {m n : Nat} (covers : Covers P kind p n) (le : m ≤ n) : Covers P kind p m :=
  fun i lt => covers i (by omega)

theorem Covers.sub {k m n : Nat} (covers : Covers P kind p n) (le : k + m ≤ n) : Covers P kind (p + k) m :=
  ((covers_add k m).mp (covers.mono le)).2

end Covers

namespace Prog

variable {B : Type} {P : Access B → Prop}

def load (p : Pointer B) : Prog B UInt8 := fun memory => ⟨memory p, memory, [⟨.read, p⟩]⟩

/-- What a `memcpy` or a hash function reads from `p`. -/
def loadBytes (p : Pointer B) (length : Nat) : Prog B (List UInt8) := fun memory =>
  ⟨memory.read p length, memory, (List.range length).map fun i => ⟨.read, p + i⟩⟩

@[simp] theorem value_load (p : Pointer B) (memory : Memory B) : (load p memory).value = memory p := rfl

@[simp] theorem memory_load (p : Pointer B) (memory : Memory B) : (load p memory).memory = memory := rfl

@[simp] theorem within_load (p : Pointer B) (memory : Memory B) : (load p).Within memory P ↔ P ⟨.read, p⟩ := by
  simp [Within, load]

@[simp] theorem value_loadBytes (p : Pointer B) (length : Nat) (memory : Memory B) :
    (loadBytes p length memory).value = memory.read p length := rfl

@[simp] theorem memory_loadBytes (p : Pointer B) (length : Nat) (memory : Memory B) :
    (loadBytes p length memory).memory = memory := rfl

@[simp] theorem within_loadBytes (p : Pointer B) (length : Nat) (memory : Memory B) :
    (loadBytes p length).Within memory P ↔ Covers P .read p length := by
  simp [Within, loadBytes, Covers]

variable [DecidableEq B]

def store (p : Pointer B) (byte : UInt8) : Prog B Unit := fun memory =>
  ⟨(), memory.write p [byte], [⟨.write, p⟩]⟩

def storeBytes (p : Pointer B) (bytes : List UInt8) : Prog B Unit := fun memory =>
  ⟨(), memory.write p bytes, (List.range bytes.length).map fun i => ⟨.write, p + i⟩⟩

@[simp] theorem memory_store (p : Pointer B) (byte : UInt8) (memory : Memory B) :
    (store p byte memory).memory = memory.write p [byte] := rfl

@[simp] theorem within_store (p : Pointer B) (byte : UInt8) (memory : Memory B) :
    (store p byte).Within memory P ↔ P ⟨.write, p⟩ := by
  simp [Within, store]

@[simp] theorem memory_storeBytes (p : Pointer B) (bytes : List UInt8) (memory : Memory B) :
    (storeBytes p bytes memory).memory = memory.write p bytes := rfl

@[simp] theorem within_storeBytes (p : Pointer B) (bytes : List UInt8) (memory : Memory B) :
    (storeBytes p bytes).Within memory P ↔ Covers P .write p bytes.length := by
  simp [Within, storeBytes, Covers]

/-- The places that a run writes to are the `length` bytes at `p`, and each of them. -/
def Writes {Result : Type} (x : Prog B Result) (memory : Memory B) (p : Pointer B) (length : Nat) : Prop :=
  ∀ place, ⟨.write, place⟩ ∈ (x memory).accesses ↔ ∃ i < length, place = p + i

section Writes

omit [DecidableEq B]

variable {Result : Type} {x : Prog B Result} {memory : Memory B} {p : Pointer B} {length : Nat}

/-- Where every read is allowed, only the writes matter. -/
theorem writes_of_covers (covers : ∀ {P : Access B → Prop}, (∀ place, P ⟨.read, place⟩) →
    (x.Within memory P ↔ Covers P .write p length)) : x.Writes memory p length := by
  intro place
  constructor
  · intro written
    have only : x.Within memory fun access => access.kind = .write → ∃ i < length, access.place = p + i := by
      rw [covers fun place read => (nomatch read)]
      intro i lt _
      exact ⟨i, lt, rfl⟩
    exact only _ written rfl
  · rintro ⟨i, lt, rfl⟩
    have all : x.Within memory fun access => access.kind = .read ∨ access ∈ (x memory).accesses :=
      fun access mem => .inr mem
    rw [covers fun place => .inl rfl] at all
    rcases all i lt with read | written
    · cases read
    · exact written

theorem Writes.within (writes : x.Writes memory p length) (reads : ∀ place, P ⟨.read, place⟩) :
    x.Within memory P ↔ Covers P .write p length := by
  constructor
  · intro within i lt
    exact within _ ((writes _).mpr ⟨i, lt, rfl⟩)
  · rintro covers ⟨kind, place⟩ mem
    cases kind with
    | read => exact reads place
    | write =>
      obtain ⟨i, lt, rfl⟩ := (writes place).mp mem
      exact covers i lt

/-- Whatever is read: the writes are those that have to be allowed. -/
theorem writes_of_within {Reads : (Access B → Prop) → Prop}
    (within : ∀ P, x.Within memory P ↔ Reads P ∧ Covers P .write p length)
    (reads : ∀ P : Access B → Prop, (∀ place, P ⟨.read, place⟩) → Reads P) : x.Writes memory p length := by
  apply writes_of_covers
  intro P allowed
  rw [within, and_iff_right (reads P allowed)]

end Writes

theorem storeBytes_writes (p : Pointer B) (bytes : List UInt8) (memory : Memory B) :
    (storeBytes p bytes).Writes memory p bytes.length :=
  writes_of_covers fun _ => within_storeBytes p bytes memory

end Prog

/-! ### Staying inside a block -/

/-- An access of this kind to this block stays below `length`. -/
def Inside {B : Type} (kind : AccessKind) (block : B) (length : Nat) (access : Access B) : Prop :=
  access.kind = kind → access.place.block = block → 0 ≤ access.place.index ∧ access.place.index < length

section Inside

variable {B Result : Type} {P Q : Access B → Prop}

theorem Prog.within_and (x : Prog B Result) (memory : Memory B) :
    x.Within memory (fun access => P access ∧ Q access) ↔ x.Within memory P ∧ x.Within memory Q :=
  ⟨fun within => ⟨fun access mem => (within access mem).1, fun access mem => (within access mem).2⟩,
    fun within access mem => ⟨within.1 access mem, within.2 access mem⟩⟩

variable {kind kind' : AccessKind} {block block' : B} {length : Nat}

theorem covers_inside_add (from' n : Nat) :
    Covers (Inside kind block length) kind' (Pointer.start block' + from') n ↔
      (kind' = kind → block' = block → n = 0 ∨ from' + n ≤ length) := by
  constructor
  · rintro covers rfl rfl
    cases n with
    | zero => exact .inl rfl
    | succ n =>
      have last := (covers n (by omega) rfl rfl).2
      rw [Pointer.add_add] at last
      have last : (0 : Int) + (from' + n : Nat) < length := last
      exact .inr (by omega)
  · intro fits i lt rfl rfl
    rw [Pointer.add_add]
    show (0 : Int) ≤ 0 + (from' + i : Nat) ∧ (0 : Int) + (from' + i : Nat) < length
    have := fits rfl rfl
    omega

theorem covers_inside (n : Nat) :
    Covers (Inside kind block length) kind' (Pointer.start block') n ↔
      (kind' = kind → block' = block → n ≤ length) := by
  have fits : (n = 0 ∨ 0 + n ≤ length) ↔ n ≤ length := by omega
  rw [← Pointer.add_zero (Pointer.start block'), covers_inside_add, fits]

end Inside

/-! ### Loops over groups of bytes -/

/-- A loop that takes `taken` bytes from the input at every turn, puts `put` bytes into the output, and hands a
state to the next turn. -/
def groups {B State : Type} (body : State → (input output : Pointer B) → Prog B State) (taken put : Nat) :
    (count : Nat) → State → (input output : Pointer B) → Prog B State
  | 0, state, _, _ => pure state
  | count + 1, state, input, output => do
    let state ← body state input output
    groups body taken put count state (input + taken) (output + put)

/-- One turn as a function: the next state and what is put, from the state and the bytes taken. -/
structure Turn (State : Type) where
  next : State → List UInt8 → State
  put : State → List UInt8 → List UInt8

namespace Turn

variable {State : Type} (turn : Turn State) (taken : Nat)

def outputs : (count : Nat) → State → (input : List UInt8) → List UInt8
  | 0, _, _ => []
  | count + 1, state, input =>
    turn.put state (input.take taken) ++ outputs count (turn.next state (input.take taken)) (input.drop taken)

def final : (count : Nat) → State → (input : List UInt8) → State
  | 0, state, _ => state
  | count + 1, state, input => final count (turn.next state (input.take taken)) (input.drop taken)

end Turn

/-- The output stays behind the input: what a turn puts ends no later than what it took. -/
def Trails {B : Type} (taken put count : Nat) (input output : Pointer B) : Prop :=
  input.block = output.block →
    ∀ turn < count, output.index + put * (turn + 1) ≤ input.index + taken * (turn + 1)

/-- What a turn puts has no place in common with what later turns take, or with the `behind` bytes after that. -/
def Clear {B : Type} (taken put count behind : Nat) (input output : Pointer B) : Prop :=
  ∀ turn < count, Memory.Apart (output + put * turn) put (input + taken * (turn + 1))
    (taken * (count - (turn + 1)) + behind)

section Groups

variable {B State : Type}

theorem Trails.clear {taken put count : Nat} {input output : Pointer B} (trails : Trails taken put count input output)
    (behind : Nat) : Clear taken put count behind input output := by
  intro turn lt same
  have before := trails same.symm turn lt
  rw [Pointer.index_add, Pointer.index_add]
  push_cast
  left
  linarith

theorem clear_of_apart {taken put count behind : Nat} {input output : Pointer B}
    (apart : Memory.Apart input (taken * count + behind) output (put * count)) :
    Clear taken put count behind input output := by
  intro turn lt
  obtain ⟨rest, rfl⟩ := Nat.exists_eq_add_of_lt lt
  apply apart.symm.sub
  · rw [← Nat.mul_succ]
    exact Nat.mul_le_mul_left put (by omega)
  · rw [← Nat.add_assoc, ← Nat.mul_add]
    exact Nat.add_le_add_right (Nat.mul_le_mul_left taken (by omega)) behind

theorem Clear.first {taken put count behind : Nat} {input output : Pointer B}
    (clear : Clear taken put (count + 1) behind input output) :
    Memory.Apart output put (input + taken) (taken * count + behind) := by
  have first := clear 0 (Nat.succ_pos count)
  rwa [Nat.mul_zero, Pointer.add_zero, Nat.zero_add, Nat.mul_one, Nat.add_sub_cancel] at first

theorem Clear.next {taken put count behind : Nat} {input output : Pointer B}
    (clear : Clear taken put (count + 1) behind input output) :
    Clear taken put count behind (input + taken) (output + put) := by
  intro turn lt
  have later := clear (turn + 1) (by omega)
  rwa [Nat.mul_succ put, Nat.mul_succ taken, Nat.add_comm _ put, Nat.add_comm _ taken, ← Pointer.add_add,
    ← Pointer.add_add, Nat.add_sub_add_right] at later

/-- What the turns touch together, when what one touches depends on its place alone. -/
theorem groups_within {body : State → (input output : Pointer B) → Prog B State} {taken put : Nat}
    {P : Access B → Prop} {allowed : (input output : Pointer B) → Prop}
    (turn : ∀ state input output memory, (body state input output).Within memory P ↔ allowed input output)
    (count : Nat) (state : State) (input output : Pointer B) (memory : Memory B) :
    (groups body taken put count state input output).Within memory P ↔
      ∀ turn < count, allowed (input + taken * turn) (output + put * turn) := by
  induction count generalizing state input output memory with
  | zero =>
    rw [groups]
    exact ⟨fun _ _ none => absurd none (Nat.not_lt_zero _), fun _ => Prog.within_pure _ _⟩
  | succ count ih =>
    rw [groups, Prog.within_bind, turn, ih]
    constructor
    · rintro ⟨first, later⟩ turn lt
      cases turn with
      | zero => rwa [Nat.mul_zero, Nat.mul_zero, Pointer.add_zero, Pointer.add_zero]
      | succ turn =>
        have allowed := later turn (by omega)
        rwa [Pointer.add_add, Pointer.add_add, Nat.add_comm taken, Nat.add_comm put, ← Nat.mul_succ,
          ← Nat.mul_succ] at allowed
    · intro all
      constructor
      · have allowed := all 0 (by omega)
        rwa [Nat.mul_zero, Nat.mul_zero, Pointer.add_zero, Pointer.add_zero] at allowed
      · intro turn lt
        rw [Pointer.add_add, Pointer.add_add, Nat.add_comm taken, Nat.add_comm put, ← Nat.mul_succ,
          ← Nat.mul_succ]
        exact all (turn + 1) (by omega)

variable [DecidableEq B]

/-- The body does what the function says, at any place and from any memory. -/
structure Does (body : State → (input output : Pointer B) → Prog B State) (taken put : Nat) (turn : Turn State) :
    Prop where
  value : ∀ state input output memory,
    (body state input output memory).value = turn.next state (memory.read input taken)
  memory : ∀ state input output memory,
    (body state input output memory).memory = memory.write output (turn.put state (memory.read input taken))
  length : ∀ state bytes, bytes.length = taken → (turn.put state bytes).length = put

theorem Does.length_outputs {body : State → (input output : Pointer B) → Prog B State} {taken put : Nat}
    {turn : Turn State} (does : Does body taken put turn) (count : Nat) (state : State) (input : List UInt8)
    (length : input.length = taken * count) : (turn.outputs taken count state input).length = put * count := by
  induction count generalizing state input with
  | zero => rfl
  | succ count ih =>
    rw [Nat.mul_succ] at length
    have first : (input.take taken).length = taken := by
      rw [List.length_take]
      omega
    have rest : (input.drop taken).length = taken * count := by
      rw [List.length_drop]
      omega
    rw [Turn.outputs, List.length_append, does.length _ _ first, ih _ _ rest, Nat.mul_succ, Nat.add_comm]

/-- A loop that never puts anything over what it has yet to take takes the input as it was before the loop. -/
theorem Does.groups_clear {body : State → (input output : Pointer B) → Prog B State} {taken put : Nat}
    {turn : Turn State} (does : Does body taken put turn) (count behind : Nat) (state : State)
    (input output : Pointer B) (memory : Memory B) (clear : Clear taken put count behind input output) :
    (groups body taken put count state input output memory).value =
        turn.final taken count state (memory.read input (taken * count)) ∧
      (groups body taken put count state input output memory).memory =
        memory.write output (turn.outputs taken count state (memory.read input (taken * count))) ∧
      (groups body taken put count state input output memory).memory.read (input + taken * count) behind =
        memory.read (input + taken * count) behind := by
  induction count generalizing state input output memory with
  | zero => simp [RubyOlm.groups, Turn.final, Turn.outputs]
  | succ count ih =>
    have all : memory.read input (taken * (count + 1)) =
        memory.read input taken ++ memory.read (input + taken) (taken * count) := by
      rw [Nat.mul_succ, Nat.add_comm, Memory.read_add]
    have first : (memory.read input (taken * (count + 1))).take taken = memory.read input taken := by
      rw [all, List.take_left' (Memory.length_read ..)]
    have rest : (memory.read input (taken * (count + 1))).drop taken =
        memory.read (input + taken) (taken * count) := by
      rw [all, List.drop_left' (Memory.length_read ..)]
    have length := does.length state _ (Memory.length_read memory input taken)
    -- what this turn puts is apart from everything that is still to be taken
    have apart := clear.first
    rw [← length] at apart
    have unread := Memory.read_write_apart memory apart
    rw [Memory.read_add, Memory.read_add] at unread
    obtain ⟨unread, unread_behind⟩ := List.append_inj unread (by rw [Memory.length_read, Memory.length_read])
    obtain ⟨value, left, kept⟩ := ih (turn.next state (memory.read input taken)) (input + taken) (output + put)
      (memory.write output (turn.put state (memory.read input taken))) clear.next
    have place : input + taken * (count + 1) = input + taken + taken * count := by
      rw [Pointer.add_add, Nat.mul_succ, Nat.add_comm]
    rw [unread] at value left
    rw [unread_behind] at kept
    rw [RubyOlm.groups, Prog.value_bind, Prog.memory_bind, does.value, does.memory, value, place, kept, left, Turn.final,
      Turn.outputs, first, rest, Memory.write_append, length]
    exact ⟨rfl, rfl, rfl⟩

/-- A loop whose output trails its input takes the input as it was before the loop. -/
theorem Does.groups {body : State → (input output : Pointer B) → Prog B State} {taken put : Nat}
    {turn : Turn State} (does : Does body taken put turn) (count : Nat) (state : State)
    (input output : Pointer B) (memory : Memory B) (trails : Trails taken put count input output) :
    (groups body taken put count state input output memory).value =
        turn.final taken count state (memory.read input (taken * count)) ∧
      (groups body taken put count state input output memory).memory =
        memory.write output (turn.outputs taken count state (memory.read input (taken * count))) := by
  obtain ⟨value, left, -⟩ := does.groups_clear count 0 state input output memory (trails.clear 0)
  exact ⟨value, left⟩

/-- What lies behind the input of the loop is still there when the loop ends. -/
theorem Does.groups_unread {body : State → (input output : Pointer B) → Prog B State} {taken put : Nat}
    {turn : Turn State} (does : Does body taken put turn) (count : Nat) (state : State)
    (input output : Pointer B) (memory : Memory B) (trails : Trails taken put count input output) (length : Nat) :
    (RubyOlm.groups body taken put count state input output memory).memory.read (input + taken * count) length =
      memory.read (input + taken * count) length := by
  obtain ⟨-, -, kept⟩ := does.groups_clear count length state input output memory (trails.clear length)
  exact kept

end Groups

end RubyOlm
