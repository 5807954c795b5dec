import Mathlib.Data.List.Basic

/-!
# Hashes that take their input in blocks

A compression function absorbs the padded input block by block. The input can be fed in pieces: what does not make a block
yet is kept for later.
-/

namespace RubyOlm

structure BlockHash (State : Type) where
  blockLength : Nat
  lengthLength : Nat
  compress : State → (block : List UInt8) → State
  encodeLength : Nat → List UInt8
  fits : lengthLength < blockLength
  length_encodeLength : ∀ n, (encodeLength n).length = lengthLength

namespace BlockHash

variable {State : Type} (hash : BlockHash State)

theorem blockLength_pos : 0 < hash.blockLength := Nat.zero_lt_of_lt hash.fits

/-! ### Absorbing -/

/-- All the whole blocks, one after the other. -/
def absorb (state : State) (bytes : List UInt8) : State :=
  if hash.blockLength ≤ bytes.length then
    absorb (hash.compress state (bytes.take hash.blockLength)) (bytes.drop hash.blockLength)
  else state
termination_by bytes.length
decreasing_by
  rw [List.length_drop]
  have := hash.blockLength_pos
  omega

theorem absorb_short (state : State) {bytes : List UInt8} (short : bytes.length < hash.blockLength) :
    hash.absorb state bytes = state := by
  rw [absorb, if_neg (Nat.not_le_of_lt short)]

theorem absorb_nil (state : State) : hash.absorb state [] = state :=
  hash.absorb_short state hash.blockLength_pos

theorem absorb_block (state : State) {block : List UInt8} (rest : List UInt8) (length : block.length = hash.blockLength) :
    hash.absorb state (block ++ rest) = hash.absorb (hash.compress state block) rest := by
  rw [absorb, if_pos (by rw [List.length_append]; omega), ← length, List.take_left, List.drop_left]

theorem absorb_one (state : State) {block : List UInt8} (length : block.length = hash.blockLength) :
    hash.absorb state block = hash.compress state block := by
  have one := hash.absorb_block state [] length
  rwa [List.append_nil, hash.absorb_nil] at one

/-- Blocks that are absorbed first can be absorbed apart. -/
theorem absorb_append (state : State) {bytes : List UInt8} (rest : List UInt8) {count : Nat}
    (whole : bytes.length = hash.blockLength * count) :
    hash.absorb state (bytes ++ rest) = hash.absorb (hash.absorb state bytes) rest := by
  induction count generalizing state bytes with
  | zero =>
    obtain rfl := List.eq_nil_of_length_eq_zero whole
    rw [hash.absorb_nil, List.nil_append]
  | succ count ih =>
    rw [Nat.mul_succ] at whole
    have first : (bytes.take hash.blockLength).length = hash.blockLength := by
      rw [List.length_take]
      omega
    have others : (bytes.drop hash.blockLength).length = hash.blockLength * count := by
      rw [List.length_drop]
      omega
    rw [← List.take_append_drop hash.blockLength bytes, List.append_assoc, hash.absorb_block state _ first,
      hash.absorb_block state _ first, ih _ others]

/-! ### Feeding -/

/-- A hash under way: the state, and the bytes that wait for their block to be complete. -/
structure Progress (State : Type) where
  state : State
  pending : List UInt8

/-- Where the hash of `fed` is: `count` blocks of it are absorbed. -/
structure Reached (initial : State) (fed : List UInt8) (count : Nat) (progress : Progress State) : Prop where
  short : progress.pending.length < hash.blockLength
  absorbed : ∃ whole, fed = whole ++ progress.pending ∧ whole.length = hash.blockLength * count ∧
    progress.state = hash.absorb initial whole

variable {hash} {initial : State} {fed : List UInt8} {count : Nat} {progress : Progress State}

theorem reached_start (initial : State) : hash.Reached initial [] 0 ⟨initial, []⟩ where
  short := hash.blockLength_pos
  absorbed := ⟨[], rfl, rfl, (hash.absorb_nil initial).symm⟩

theorem Reached.length (reached : hash.Reached initial fed count progress) :
    fed.length = hash.blockLength * count + progress.pending.length := by
  obtain ⟨whole, rfl, length, -⟩ := reached.absorbed
  rw [List.length_append, length]

theorem Reached.feed_pending (reached : hash.Reached initial fed count progress) (byte : UInt8)
    (more : progress.pending.length + 1 < hash.blockLength) :
    hash.Reached initial (fed ++ [byte]) count ⟨progress.state, progress.pending ++ [byte]⟩ := by
  obtain ⟨whole, rfl, length, state⟩ := reached.absorbed
  refine ⟨?_, whole, List.append_assoc .., length, state⟩
  rw [List.length_append]
  exact more

theorem Reached.feed_block (reached : hash.Reached initial fed count progress) (byte : UInt8)
    (full : progress.pending.length + 1 = hash.blockLength) :
    hash.Reached initial (fed ++ [byte]) (count + 1) ⟨hash.compress progress.state (progress.pending ++ [byte]), []⟩ := by
  obtain ⟨whole, rfl, length, state⟩ := reached.absorbed
  have block : (progress.pending ++ [byte]).length = hash.blockLength := by
    rw [List.length_append]
    exact full
  refine ⟨hash.blockLength_pos, whole ++ (progress.pending ++ [byte]), ?_, ?_, ?_⟩
  · rw [List.append_nil, List.append_assoc]
  · rw [List.length_append, length, block, Nat.mul_succ]
  · rw [hash.absorb_append initial _ length, ← state, hash.absorb_one _ block]

/-! ### Padding -/

variable (hash)

/-- The bytes with their top bit set, zeros, and the length: they fill up the last block. -/
def zeros (length : Nat) : Nat :=
  (hash.blockLength - (length + 1 + hash.lengthLength) % hash.blockLength) % hash.blockLength

def padding (length : Nat) : List UInt8 :=
  0x80 :: List.replicate (hash.zeros length) 0 ++ hash.encodeLength length

def digest (initial : State) (bytes : List UInt8) : State :=
  hash.absorb initial (bytes ++ hash.padding bytes.length)

/-- There are as few zeros as will do. -/
theorem zeros_least (length : Nat) :
    (length + 1 + hash.zeros length + hash.lengthLength) % hash.blockLength = 0 ∧
      ∀ n, (length + 1 + n + hash.lengthLength) % hash.blockLength = 0 → hash.zeros length ≤ n := by
  have positive := hash.blockLength_pos
  obtain ⟨rest, hrest⟩ : ∃ rest, (length + 1 + hash.lengthLength) % hash.blockLength = rest := ⟨_, rfl⟩
  have below : rest < hash.blockLength := by
    rw [← hrest]
    exact Nat.mod_lt _ positive
  have filled (n : Nat) : (length + 1 + n + hash.lengthLength) % hash.blockLength = (rest + n) % hash.blockLength := by
    rw [Nat.add_right_comm, Nat.add_mod, hrest, Nat.add_mod_mod]
  rw [filled, zeros, hrest]
  constructor
  · rw [Nat.add_mod_mod, Nat.add_sub_cancel' (Nat.le_of_lt below), Nat.mod_self]
  · intro n whole
    rw [filled] at whole
    by_cases none : rest = 0
    · rw [none, Nat.sub_zero, Nat.mod_self]
      exact Nat.zero_le n
    · rw [Nat.mod_eq_of_lt (by omega)]
      have divides := Nat.dvd_of_mod_eq_zero whole
      have := Nat.le_of_dvd (by omega) divides
      omega

variable {hash}

theorem Reached.digest_eq (reached : hash.Reached initial fed count progress) : hash.digest initial fed =
    hash.absorb progress.state (progress.pending ++ hash.padding fed.length) := by
  obtain ⟨whole, rfl, length, state⟩ := reached.absorbed
  rw [digest, List.append_assoc, hash.absorb_append initial _ length, ← state]

theorem Reached.zeros_eq (reached : hash.Reached initial fed count progress) : hash.zeros fed.length =
    (hash.blockLength - (progress.pending.length + 1 + hash.lengthLength) % hash.blockLength) % hash.blockLength := by
  rw [zeros, reached.length, Nat.add_assoc, Nat.add_assoc, Nat.mul_add_mod, ← Nat.add_assoc]

/-- There is room for the padding behind the bytes that wait. -/
theorem Reached.digest_one (reached : hash.Reached initial fed count progress)
    (room : progress.pending.length + 1 + hash.lengthLength ≤ hash.blockLength) :
    hash.digest initial fed = hash.compress progress.state (progress.pending ++ 0x80 ::
      List.replicate (hash.blockLength - hash.lengthLength - 1 - progress.pending.length) 0 ++
        hash.encodeLength fed.length) := by
  have zeros : hash.zeros fed.length = hash.blockLength - hash.lengthLength - 1 - progress.pending.length := by
    rw [reached.zeros_eq]
    by_cases full : progress.pending.length + 1 + hash.lengthLength = hash.blockLength
    · rw [full, Nat.mod_self, Nat.sub_zero, Nat.mod_self]
      omega
    · rw [Nat.mod_eq_of_lt (a := progress.pending.length + 1 + hash.lengthLength) (by omega), Nat.mod_eq_of_lt (by omega)]
      omega
  rw [reached.digest_eq, padding, zeros, ← List.append_assoc]
  apply hash.absorb_one
  simp only [List.length_append, List.length_cons, List.length_replicate, hash.length_encodeLength]
  omega

/-- There is not: another block is needed for the length. -/
theorem Reached.digest_two (reached : hash.Reached initial fed count progress)
    (full : hash.blockLength < progress.pending.length + 1 + hash.lengthLength) :
    hash.digest initial fed = hash.compress
      (hash.compress progress.state (progress.pending ++ 0x80 ::
        List.replicate (hash.blockLength - 1 - progress.pending.length) 0))
      (List.replicate (hash.blockLength - hash.lengthLength) 0 ++ hash.encodeLength fed.length) := by
  have short := reached.short
  have fits := hash.fits
  have zeros : hash.zeros fed.length = (hash.blockLength - 1 - progress.pending.length) +
      (hash.blockLength - hash.lengthLength) := by
    have beyond : (progress.pending.length + 1 + hash.lengthLength) % hash.blockLength =
        progress.pending.length + 1 + hash.lengthLength - hash.blockLength := by
      rw [Nat.mod_eq_sub_mod (by omega), Nat.mod_eq_of_lt (by omega)]
    rw [reached.zeros_eq, beyond, Nat.mod_eq_of_lt (by omega)]
    omega
  have first : (progress.pending ++ 0x80 :: List.replicate (hash.blockLength - 1 - progress.pending.length)
      (0 : UInt8)).length = hash.blockLength := by
    simp only [List.length_append, List.length_cons, List.length_replicate]
    omega
  have second : (List.replicate (hash.blockLength - hash.lengthLength) (0 : UInt8) ++
      hash.encodeLength fed.length).length = hash.blockLength := by
    rw [List.length_append, List.length_replicate, hash.length_encodeLength]
    omega
  have parts : progress.pending ++ hash.padding fed.length =
      (progress.pending ++ 0x80 :: List.replicate (hash.blockLength - 1 - progress.pending.length) 0) ++
        (List.replicate (hash.blockLength - hash.lengthLength) 0 ++ hash.encodeLength fed.length) := by
    rw [padding, zeros, ← List.replicate_append_replicate]
    simp only [List.append_assoc, List.cons_append]
  rw [reached.digest_eq, parts, hash.absorb_block _ _ first, hash.absorb_one _ second]

end BlockHash

end RubyOlm
