import RubyOlm.Account
import RubyOlm.Theory.Scan

/-!
# One-time keys and the random bytes for them

`generate_one_time_keys` over pointers. It asks for 32 bytes a key in a product that can wrap, and then counts the
keys in an `unsigned`, for which there can be too many.
-/

namespace RubyOlm.Account

variable (crypto : Crypto)

section Programs

variable {B : Type}

/-- The loop of `generate_one_time_keys`; it may take `fuel` turns. -/
def generateLoopAt (numberOfKeys : Nat) :
    (fuel : Nat) → (i : UInt32) → (random : Pointer B) → Account → Scan B Account
  | 0, _, _, _ => failure
  | fuel + 1, i, random, account =>
    if i.toNat < numberOfKeys then do
      let bytes ← Prog.loadBytes random 32
      generateLoopAt numberOfKeys fuel (i + 1) (random + 32) (account.generateOneTimeKey crypto bytes)
    else return account

def generateOneTimeKeysAt (fuel : Nat) (account : Account) (numberOfKeys : Nat) (random : Pointer B)
    (randomLength : Nat) : Scan B (Account × Option Nat) :=
  if randomLength < generateOneTimeKeysRandomLength numberOfKeys then
    return ({ account with lastError := .notEnoughRandom }, none)
  else do
    let account ← generateLoopAt crypto numberOfKeys fuel 0 random account
    return (account, some numberOfKeys)

variable [DecidableEq B]

/-- `olm_account_generate_one_time_keys`, which clears the random bytes. -/
def olmAccountGenerateOneTimeKeysAt (fuel : Nat) (account : Account) (numberOfKeys : Nat) (random : Pointer B)
    (randomLength : Nat) : Scan B (Account × Option Nat) := do
  let result ← generateOneTimeKeysAt crypto fuel account numberOfKeys random randomLength
  Prog.storeBytes random (List.replicate randomLength 0)
  return result

/-- `generate_one_time_keys` of `ext_account.c`, once the number is a `size_t`. The random bytes are a new string at
`random`; `none` is an exception from `get_random`. -/
def rubyGenerateOneTimeKeysAt (getRandom : (size : Nat) → Option Bytes) (fuel : Nat) (account : Account)
    (numberOfKeys : Nat) (random : Pointer B) : Scan B (Option (Account × Option Nat)) :=
  let size := generateOneTimeKeysRandomLength numberOfKeys
  match getRandom size with
  | none => return none
  | some bytes => do
    Prog.storeBytes random bytes
    let result ← olmAccountGenerateOneTimeKeysAt crypto fuel account numberOfKeys random size
    return some result

end Programs

/-! ### The keys that are added -/

/-- The keys of a call, first one first. -/
def addedKeys (nextOneTimeKeyId : UInt32) (numberOfKeys : Nat) (random : Bytes) : List OneTimeKey :=
  (List.range numberOfKeys).map fun i =>
    ⟨nextOneTimeKeyId + UInt32.ofNat (i + 1), false, generateKey crypto.curve25519 (Block.load 32 (random.drop (32 * i)))⟩

theorem addedKeys_succ (nextOneTimeKeyId : UInt32) (numberOfKeys : Nat) (random : Bytes) :
    addedKeys crypto nextOneTimeKeyId (numberOfKeys + 1) random =
      ⟨nextOneTimeKeyId + 1, false, generateKey crypto.curve25519 (Block.load 32 random)⟩ ::
        addedKeys crypto (nextOneTimeKeyId + 1) numberOfKeys (random.drop 32) := by
  unfold addedKeys
  rw [List.range_succ_eq_map, List.map_cons, List.map_map]
  congr 1
  apply List.map_congr_left
  intro i _
  have id : nextOneTimeKeyId + UInt32.ofNat (i + 1 + 1) = nextOneTimeKeyId + 1 + UInt32.ofNat (i + 1) := by
    rw [UInt32.ofNat_add (i + 1) 1, UInt32.add_comm (UInt32.ofNat (i + 1)), ← UInt32.add_assoc]
    rfl
  have chunk : random.drop (32 * (i + 1)) = (random.drop 32).drop (32 * i) := by
    rw [List.drop_drop, Nat.mul_succ, Nat.add_comm]
  rw [Function.comp, Nat.succ_eq_add_one, id, chunk]

/-- The account with `numberOfKeys` keys more, of which and of the old ones the last hundred are left. -/
structure Added (account : Account) (numberOfKeys : Nat) (random : Bytes) (account' : Account) : Prop where
  keys : account'.oneTimeKeys.toList =
    ((addedKeys crypto account.nextOneTimeKeyId numberOfKeys random).reverse ++ account.oneTimeKeys.toList).take
      maxOneTimeKeys
  next : account'.nextOneTimeKeyId = account.nextOneTimeKeyId + UInt32.ofNat numberOfKeys
  identity : account'.identityKeys = account.identityKeys
  lastError : account'.lastError = account.lastError

variable {crypto} {account account' : Account} {random : Bytes}

theorem Added.zero : Added crypto account 0 random account where
  keys := account.oneTimeKeys.take_toList.symm
  next := (UInt32.add_zero _).symm
  identity := rfl
  lastError := rfl

theorem Added.succ {numberOfKeys : Nat}
    (added : Added crypto (account.generateOneTimeKey crypto random) numberOfKeys (random.drop 32) account') :
    Added crypto account (numberOfKeys + 1) random account' where
  keys := by
    rw [added.keys, generateOneTimeKey, OlmList.toList_pushFront _ _ (by decide), addedKeys_succ, List.reverse_cons,
      List.append_assoc, List.singleton_append, OlmList.take_append_take]
  next := by
    rw [added.next, generateOneTimeKey, UInt32.ofNat_add, UInt32.add_assoc, UInt32.add_comm 1]
    rfl
  identity := added.identity
  lastError := added.lastError

/-! ### The loop -/

section Loop

open Scan

variable {B : Type} {memory : Memory B} {P : Access B → Prop} {numberOfKeys fuel left : Nat} {i : UInt32}
  {p : Pointer B}

/-- With a counter that can hold the number of the keys, each turn takes the next 32 bytes. -/
theorem generateLoopAt_ends (few : numberOfKeys < 2 ^ 32) (turns : i.toNat + left = numberOfKeys) (enough : left < fuel)
    (there : memory.read p random.length = random) (room : 32 * left ≤ random.length)
    (allowed : Covers P .read p (32 * left)) :
    ∃ account', Ends (generateLoopAt crypto numberOfKeys fuel i p account) memory P account' ∧
      generateLoop crypto numberOfKeys fuel i random account = some account' ∧
      Added crypto account left random account' := by
  induction fuel generalizing account left i random p with
  | zero => omega
  | succ fuel ih =>
    rw [generateLoopAt, generateLoop]
    cases left with
    | zero =>
      rw [if_neg (by omega), if_neg (by omega)]
      exact ⟨account, .pure account, rfl, .zero⟩
    | succ left =>
      rw [if_pos (by omega), if_pos (by omega)]
      have one : (1 : UInt32).toNat = 1 := rfl
      have next : (i + 1).toNat + left = numberOfKeys := by
        rw [UInt32.toNat_add, one]
        omega
      have covered := (covers_add 32 (32 * left)).mp (by rwa [Nat.add_comm, ← Nat.mul_succ])
      have first : memory.read p 32 = random.take 32 := by
        rw [← there, Memory.take_read _ _ (by omega)]
      have rest : memory.read (p + 32) (random.drop 32).length = random.drop 32 := by
        rw [List.length_drop, ← Memory.drop_read, there]
      have key : account.generateOneTimeKey crypto (memory.read p 32) = account.generateOneTimeKey crypto random := by
        rw [generateOneTimeKey, generateOneTimeKey, first, Block.load_take_self]
      obtain ⟨account', ends, looped, added⟩ := @ih (account.generateOneTimeKey crypto random)
        (random.drop 32) left (i + 1) (p + 32) next (by omega) rest (by rw [List.length_drop]; omega) covered.2
      rw [← key] at ends
      exact ⟨account', (Ends.loadBytes covered.1).bind ends, looped, added.succ⟩

/-- With one that cannot, there is always another turn. -/
theorem generateLoopAt_endless (many : 2 ^ 32 ≤ numberOfKeys) :
    ((generateLoopAt crypto numberOfKeys fuel i p account).run memory).value = none := by
  induction fuel generalizing account i p with
  | zero => rfl
  | succ fuel ih =>
    have turn : i.toNat < numberOfKeys := Nat.lt_of_lt_of_le i.toNat_lt many
    rw [generateLoopAt, if_pos turn, run_bind, Prog.value_bind]
    exact ih

end Loop

/-! ### The calls -/

/-- What is promised: nothing but an error when there are less than 32 bytes a key, and all the keys otherwise. -/
structure Answers (crypto : Crypto) (account : Account) (numberOfKeys : Nat) (random : Bytes)
    (answer : Account × Option Nat) : Prop where
  short : random.length < 32 * numberOfKeys → answer = ({ account with lastError := .notEnoughRandom }, none)
  long : 32 * numberOfKeys ≤ random.length →
    answer.2 = some numberOfKeys ∧ Added crypto account numberOfKeys random answer.1

/-- An access to one of the `length` bytes at `p`. -/
def Touches {B : Type} (p : Pointer B) (length : Nat) (access : Access B) : Prop := ∃ i < length, access.place = p + i

/-- With turns enough the program ends, has touched only the `length` bytes at `p`, and its answer is right. -/
def Confined {B Result : Type} (program : (fuel : Nat) → Scan B Result) (memory : Memory B) (p : Pointer B)
    (length : Nat) (Right : Result → Prop) : Prop :=
  ∃ fuel result, ((program fuel).run memory).value = some result ∧
    Prog.Within (program fuel).run memory (Touches p length) ∧ Right result

section Calls

open Scan

variable {B : Type} {memory : Memory B} {numberOfKeys : Nat} {p : Pointer B}

theorem covers_touches {kind : AccessKind} {length count : Nat} (le : count ≤ length) :
    Covers (Touches p length) kind p count := fun i lt => ⟨i, Nat.lt_of_lt_of_le lt le, rfl⟩

/-- The two ways in which the length that is asked for means what it should. -/
def CountsRight (numberOfKeys randomLength : Nat) : Prop :=
  numberOfKeys < 2 ^ 32 ∨ randomLength < generateOneTimeKeysRandomLength numberOfKeys

variable (crypto account)

theorem generateOneTimeKeysAt_ends (right : CountsRight numberOfKeys random.length)
    (there : memory.read p random.length = random) :
    ∃ answer, Ends (generateOneTimeKeysAt crypto (2 ^ 32) account numberOfKeys p random.length) memory
        (Touches p random.length) answer ∧ Answers crypto account numberOfKeys random answer := by
  rw [generateOneTimeKeysAt]
  split
  · rename_i short
    refine ⟨_, .pure _, fun _ => rfl, fun long => ?_⟩
    have wraps := Nat.mod_le (32 * numberOfKeys) (2 ^ 64)
    rw [generateOneTimeKeysRandomLength] at short
    omega
  · rename_i room
    have few := right.resolve_right room
    rw [generateOneTimeKeysRandomLength, Nat.mod_eq_of_lt (by omega)] at room
    have zero : (0 : UInt32).toNat + numberOfKeys = numberOfKeys := Nat.zero_add _
    have le : 32 * numberOfKeys ≤ random.length := Nat.le_of_not_lt room
    obtain ⟨account', ends, -, added⟩ := generateLoopAt_ends few zero few there le (covers_touches le)
    exact ⟨_, ends.bind (.pure _), fun short => absurd short room, fun _ => ⟨rfl, added⟩⟩

theorem generateOneTimeKeysAt_endless {fuel length : Nat} (wrong : ¬ CountsRight numberOfKeys length) :
    ((generateOneTimeKeysAt crypto fuel account numberOfKeys p length).run memory).value = none := by
  rw [CountsRight, not_or, Nat.not_lt] at wrong
  rw [generateOneTimeKeysAt, if_neg wrong.2, run_bind, Prog.value_bind, generateLoopAt_endless wrong.1]
  rfl

variable [DecidableEq B]

theorem olmAccountGenerateOneTimeKeysAt_confined (right : CountsRight numberOfKeys random.length)
    (there : memory.read p random.length = random) :
    Confined (olmAccountGenerateOneTimeKeysAt crypto · account numberOfKeys p random.length) memory p random.length
      (Answers crypto account numberOfKeys random) := by
  obtain ⟨answer, ends, answers⟩ := generateOneTimeKeysAt_ends crypto account right there
  refine ⟨2 ^ 32, answer, ?_, ?_, answers⟩ <;> beta_reduce
  · rw [olmAccountGenerateOneTimeKeysAt, ends.value_bind]
    rfl
  · rw [olmAccountGenerateOneTimeKeysAt, ends.within_bind]
    refine ⟨ends.within, within_storeBytes.mpr ⟨covers_touches ?_, Prog.within_pure _ _⟩⟩
    exact Nat.le_of_eq List.length_replicate

theorem olmAccountGenerateOneTimeKeysAt_endless {fuel length : Nat} (wrong : ¬ CountsRight numberOfKeys length) :
    ((olmAccountGenerateOneTimeKeysAt crypto fuel account numberOfKeys p length).run memory).value = none := by
  rw [olmAccountGenerateOneTimeKeysAt, run_bind, Prog.value_bind, generateOneTimeKeysAt_endless crypto account wrong]
  rfl

variable {getRandom : (size : Nat) → Option Bytes}
  (sized : ∀ {size random}, getRandom size = some random → random.length = size)
include sized

theorem rubyGenerateOneTimeKeysAt_confined
    (right : numberOfKeys < 2 ^ 32 ∨ getRandom (generateOneTimeKeysRandomLength numberOfKeys) = none) :
    Confined (rubyGenerateOneTimeKeysAt crypto getRandom · account numberOfKeys p) memory p
      (generateOneTimeKeysRandomLength numberOfKeys)
      fun result => ∀ random, getRandom (generateOneTimeKeysRandomLength numberOfKeys) = some random →
        ∃ answer, result = some answer ∧ Answers crypto account numberOfKeys random answer := by
  cases asked : getRandom (generateOneTimeKeysRandomLength numberOfKeys) with
  | none =>
    refine ⟨0, none, ?_, ?_, by rintro _ ⟨⟩⟩ <;> beta_reduce
    · rw [rubyGenerateOneTimeKeysAt, asked]
      rfl
    · rw [rubyGenerateOneTimeKeysAt, asked]
      exact Prog.within_pure _ _
  | some random =>
    have few := right.resolve_right (by rw [asked]; exact Option.some_ne_none _)
    obtain ⟨fuel, answer, returned, within, answers⟩ :=
      olmAccountGenerateOneTimeKeysAt_confined crypto account (.inl few) (Memory.read_write memory p random)
    rw [sized asked] at returned within
    refine ⟨fuel, some answer, ?_, ?_, ?_⟩ <;> beta_reduce
    · rw [rubyGenerateOneTimeKeysAt, asked]
      refine value_storeBytes.trans ?_
      rw [run_bind, Prog.value_bind, returned]
      rfl
    · rw [rubyGenerateOneTimeKeysAt, asked]
      refine within_storeBytes.mpr ⟨covers_touches (Nat.le_of_eq (sized asked)), ?_⟩
      rw [run_bind, Prog.within_bind, returned]
      exact ⟨within, Prog.within_pure _ _⟩
    · rintro _ ⟨⟩
      exact ⟨answer, rfl, answers⟩

end Calls

variable (crypto) in
/-- `generate_one_time_keys` and the method `generate_one_time_keys` keep to their random bytes and do as they should
exactly if the number of keys fits the counter, or they are stopped before they come to it. -/
theorem generation_confined_iff {B : Type} [DecidableEq B] (p : Pointer B) (account : Account) (numberOfKeys : Nat) :
    (∀ random, (∀ memory : Memory B, memory.read p random.length = random →
        Confined (generateOneTimeKeysAt crypto · account numberOfKeys p random.length) memory p random.length
          (Answers crypto account numberOfKeys random)) ↔
      numberOfKeys < 2 ^ 32 ∨ random.length < 32 * numberOfKeys % 2 ^ 64) ∧
    ∀ getRandom : (size : Nat) → Option Bytes, (∀ {size random}, getRandom size = some random → random.length = size) →
      ((∀ memory : Memory B, Confined (rubyGenerateOneTimeKeysAt crypto getRandom · account numberOfKeys p) memory p
          (generateOneTimeKeysRandomLength numberOfKeys)
          fun result => ∀ random, getRandom (generateOneTimeKeysRandomLength numberOfKeys) = some random →
            ∃ answer, result = some answer ∧ Answers crypto account numberOfKeys random answer) ↔
        numberOfKeys < 2 ^ 32 ∨ getRandom (32 * numberOfKeys % 2 ^ 64) = none) := by
  constructor
  · intro random
    constructor
    · intro confined
      obtain ⟨fuel, answer, returned, -⟩ := confined _ (Memory.read_write (fun _ => 0) p random)
      by_contra wrong
      exact absurd ((generateOneTimeKeysAt_endless crypto account wrong).symm.trans returned) (Option.some_ne_none _).symm
    · intro right memory there
      obtain ⟨answer, ends, answers⟩ := generateOneTimeKeysAt_ends crypto account right there
      exact ⟨2 ^ 32, answer, ends.returns, ends.within, answers⟩
  · intro getRandom sized
    constructor
    · intro confined
      obtain ⟨fuel, result, returned, -, -⟩ := confined fun _ => 0
      by_contra wrong
      rw [not_or] at wrong
      obtain ⟨random, asked⟩ := Option.ne_none_iff_exists'.mp wrong.2
      have size := sized asked
      beta_reduce at returned
      rw [rubyGenerateOneTimeKeysAt, generateOneTimeKeysRandomLength, asked] at returned
      have stored := Scan.value_storeBytes.symm.trans returned
      rw [Scan.run_bind, Prog.value_bind, olmAccountGenerateOneTimeKeysAt_endless] at stored
      · cases stored
      · rintro (few | short)
        · exact wrong.1 few
        · exact absurd short (Nat.lt_irrefl _)
    · intro right memory
      exact rubyGenerateOneTimeKeysAt_confined crypto account sized right

/-- 2 to the 59 keys ask for no random bytes at all: no error is returned, nor anything else, and the first turn
already reads behind an empty buffer. -/
theorem generation_outruns_random :
    ([] : Bytes).length < 32 * 2 ^ 59 ∧
      (∀ fuel, ((generateOneTimeKeysAt Crypto.plain fuel clearAccount (2 ^ 59) (Pointer.start ()) 0).run
        fun _ => 0).value = none) ∧
      ∀ fuel, ⟨.read, Pointer.start () + 0⟩ ∈
        ((generateOneTimeKeysAt Crypto.plain (fuel + 1) clearAccount (2 ^ 59) (Pointer.start ()) 0).run
          fun _ => 0).accesses := by
  have wrong : ¬ CountsRight (2 ^ 59) 0 := by
    rintro (few | short)
    · exact absurd few (by decide)
    · exact absurd short (by decide)
  refine ⟨by decide, fun fuel => generateOneTimeKeysAt_endless Crypto.plain clearAccount wrong, ?_⟩
  intro fuel
  rw [generateOneTimeKeysAt, if_neg (by decide), generateLoopAt, if_pos (by decide)]
  refine List.mem_append_left _ (List.mem_append_left _ (List.mem_append_left _ ?_))
  exact List.mem_map.mpr ⟨0, List.mem_range.mpr (by decide), rfl⟩

theorem generation_confined_five :
    Confined (rubyGenerateOneTimeKeysAt Crypto.plain (fun size => some (List.replicate size 0)) · clearAccount 5
        (Pointer.start ())) (fun _ => 0) (Pointer.start ()) 160 fun result =>
      ∀ random, some (List.replicate 160 0) = some random →
        ∃ answer, result = some answer ∧ Answers Crypto.plain clearAccount 5 random answer := by
  have confined := (generation_confined_iff Crypto.plain (Pointer.start ()) clearAccount 5).2
    (fun size => some (List.replicate size 0)) (by rintro size _ ⟨⟩; exact List.length_replicate)
  exact confined.mpr (.inl (by decide)) fun _ => 0

end RubyOlm.Account
