import Mathlib.Data.Nat.ModEq
import Mathlib.Tactic.Ring
import RubyOlm.Megolm.Ratchet

/-!
# The jump equals the single steps

`advanceTo` hashes each part a byte's worth of times; `advance` reseeds the lower parts at every
multiple of 2^8, 2^16 and 2^24. Both are read on an unbounded clock: `time` is the counter before
it is cut to 32 bits, so a wrapped target is just a later time.
-/

namespace RubyOlm.Megolm

variable {Part : Type} (hash : Fin 4 → Part → Part)

theorem block_pos (j : Fin 4) : 0 < block j := Nat.two_pow_pos _

theorem block_dvd {i j : Fin 4} (le : i ≤ j) : block j ∣ block i :=
  Nat.pow_dvd_pow 2 (by have := Fin.le_def.mp le; omega)

theorem block_dvd_word (j : Fin 4) : block j ∣ 2 ^ 32 :=
  Nat.pow_dvd_pow 2 (by omega)

theorem level_le_iff (time : Nat) (j : Fin 4) : level time ≤ j ↔ block j ∣ time := by
  have widen : ∀ {i j : Fin 4}, i ≤ j → block i ∣ time → block j ∣ time :=
    fun le h => (block_dvd le).trans h
  have last : block 3 ∣ time := by simp [block]
  unfold level
  split
  · rename_i h0; exact ⟨fun _ => widen (Fin.zero_le _) h0, fun _ => Fin.zero_le _⟩
  rename_i h0
  split
  · rename_i h1
    exact ⟨fun le => widen le h1, fun h => by fin_cases j <;> first | exact absurd h h0 | decide⟩
  rename_i h1
  split
  · rename_i h2
    exact ⟨fun le => widen le h2,
      fun h => by fin_cases j <;> first | exact absurd h h0 | exact absurd h h1 | decide⟩
  · rename_i h2
    exact ⟨fun le => widen le last,
      fun h => by
        fin_cases j <;> first | exact absurd h h0 | exact absurd h h1 | exact absurd h h2 | decide⟩

/-! ### One step on the clock -/

theorem toNat_and_mask (c : UInt32) (k : Nat) (hk : k ≤ 24) :
    (c &&& UInt32.ofNat (2 ^ k - 1)).toNat = c.toNat % 2 ^ k := by
  have small : 2 ^ k ≤ 2 ^ 24 := Nat.pow_le_pow_right (by decide) hk
  rw [UInt32.toNat_and, UInt32.toNat_ofNat_of_lt' (by simp [UInt32.size]; omega),
    Nat.and_two_pow_sub_one_eq_mod]

theorem and_mask_eq_zero (c : UInt32) (k : Nat) (hk : k ≤ 24) :
    c &&& UInt32.ofNat (2 ^ k - 1) = 0 ↔ 2 ^ k ∣ c.toNat := by
  rw [← UInt32.toNat_inj, toNat_and_mask c k hk, UInt32.toNat_zero, Nat.dvd_iff_mod_eq_zero]

theorem rekeyFrom_eq (c : UInt32) : rekeyFrom c 4 0 0x00FFFFFF = level c.toNat := by
  have h0 : c &&& 0x00FFFFFF = 0 ↔ block 0 ∣ c.toNat := and_mask_eq_zero c 24 (by decide)
  have h1 : c &&& 0x0000FFFF = 0 ↔ block 1 ∣ c.toNat := and_mask_eq_zero c 16 (by decide)
  have h2 : c &&& 0x000000FF = 0 ↔ block 2 ∣ c.toNat := and_mask_eq_zero c 8 (by decide)
  have h3 : c &&& 0 = 0 := UInt32.and_zero
  simp only [rekeyFrom, level]
  simp only [show (0x00FFFFFF : UInt32) >>> 8 = 0x0000FFFF from rfl,
    show (0x0000FFFF : UInt32) >>> 8 = 0x000000FF from rfl,
    show (0x000000FF : UInt32) >>> 8 = 0 from rfl, h0, h1, h2, h3, if_true]
  by_cases d0 : block 0 ∣ c.toNat
  · simp [d0]
  by_cases d1 : block 1 ∣ c.toNat
  · simp [d0, d1]
  by_cases d2 : block 2 ∣ c.toNat
  · simp [d0, d1, d2]
  · simp [d0, d1, d2]

theorem level_mod_word (time : Nat) : level (time % 2 ^ 32) = level time := by
  have same : ∀ j : Fin 4, block j ∣ time % 2 ^ 32 ↔ block j ∣ time :=
    fun j => Nat.dvd_mod_iff (block_dvd_word j)
  simp only [level, same]

@[simp] theorem advance_counter (m : Megolm Part) : (advance hash m).counter = m.counter + 1 := rfl

theorem advance_data (m : Megolm Part) (time : Nat) (at_time : m.counter = UInt32.ofNat time) :
    (advance hash m).data = rehashDown hash m.data (level (time + 1)) := by
  have counter : level (m.counter + 1).toNat = level (time + 1) := by
    rw [at_time, ← level_mod_word (time + 1)]
    congr 1
    simp
  simp only [advance, rekeyFrom_eq, counter, (level (time + 1)).isLt, dif_pos, Fin.eta]

theorem iterate_counter (m : Megolm Part) (n : Nat) :
    ((advance hash)^[n] m).counter = m.counter + UInt32.ofNat n := by
  induction n with
  | zero => simp
  | succ n ih =>
    rw [Function.iterate_succ_apply', advance_counter, ih]
    apply UInt32.toNat_inj.mp
    simp; omega

theorem iterate_data (m : Megolm Part) (time n : Nat) (at_time : m.counter = UInt32.ofNat time) :
    ((advance hash)^[n + 1] m).data =
      rehashDown hash ((advance hash)^[n] m).data (level (time + n + 1)) := by
  rw [Function.iterate_succ_apply']
  apply advance_data
  rw [iterate_counter, at_time, UInt32.ofNat_add]

/-! ### Runs of steps -/

/-- Until the clock meets a multiple of `block j`, parts `0..j` stay as they are. -/
theorem iterate_quiet (m : Megolm Part) (time n : Nat) (at_time : m.counter = UInt32.ofNat time)
    (j : Fin 4) (quiet : ∀ t, time < t → t ≤ time + n → ¬ block j ∣ t) (i : Fin 4) (le : i ≤ j) :
    ((advance hash)^[n] m).data i = m.data i := by
  induction n with
  | zero => rfl
  | succ n ih =>
    have above : j < level (time + n + 1) := by
      rw [← not_le, level_le_iff]
      exact quiet _ (by omega) (by omega)
    rw [iterate_data hash m time n at_time, rehashDown_apply, if_neg (by omega)]
    exact ih fun t after before => quiet t after (by omega)

theorem rehashDown_congr {data data' : Fin 4 → Part} (j : Fin 4)
    (same : ∀ i ≤ j, data i = data' i) : rehashDown hash data j = rehashDown hash data' j := by
  funext k
  rw [rehashDown_apply, rehashDown_apply, same j (le_refl j)]
  split
  · rfl
  · exact same k (by omega)

/-- From anywhere inside a block of part `j` to its end, when no larger block ends there. -/
theorem iterate_to_block_end (m : Megolm Part) (time n : Nat) (at_time : m.counter = UInt32.ofNat time)
    (j : Fin 4) (ends : level (time + n + 1) = j)
    (inside : ∀ t, time < t → t ≤ time + n → ¬ block j ∣ t) :
    ((advance hash)^[n + 1] m).data = rehashDown hash m.data j := by
  rw [iterate_data hash m time n at_time, ends]
  exact rehashDown_congr hash j fun i le => iterate_quiet hash m time n at_time j inside i le

theorem rehashDown_twice (data : Fin 4 → Part) (j : Fin 4) (steps : Nat) :
    rehashDown hash (rehashDown hash (rehashSelf hash data j steps) j) j =
      rehashDown hash (rehashSelf hash data j (steps + 1)) j := by
  funext k
  simp only [rehashDown_apply, rehashSelf_apply, le_refl, if_true, Function.iterate_succ_apply']
  split
  · rfl
  · rename_i above
    have other : k ≠ j := fun same => above (by omega)
    simp [other]

theorem not_dvd_between {b q t : Nat} (above : q * b < t) (below : t < (q + 1) * b) : ¬ b ∣ t := by
  rintro ⟨u, rfl⟩
  rw [Nat.mul_comm b u] at above below
  have := Nat.lt_of_mul_lt_mul_right above
  have := Nat.lt_of_mul_lt_mul_right below
  omega

theorem level_eq_of_no_larger {t : Nat} {j : Fin 4} (ends : block j ∣ t)
    (largest : ∀ i < j, ¬ block i ∣ t) : level t = j := by
  have le := (level_le_iff t j).mpr ends
  rcases lt_or_eq_of_le le with lt | eq
  · exact absurd ((level_le_iff t _).mp (le_refl _)) (largest _ lt)
  · exact eq

/-- `steps + 1` block ends of part `j` in a row, none of them the end of a larger block. -/
theorem iterate_blocks (m : Megolm Part) (time : Nat) (at_time : m.counter = UInt32.ofNat time)
    (j : Fin 4) (steps : Nat)
    (largest : ∀ t, time < t → t ≤ (time / block j + steps + 1) * block j → ∀ i < j, ¬ block i ∣ t) :
    ((advance hash)^[(time / block j + steps + 1) * block j - time] m).data =
      rehashDown hash (rehashSelf hash m.data j steps) j := by
  have started : time / block j * block j ≤ time := Nat.div_mul_le_self _ _
  have ahead : time < (time / block j + 1) * block j :=
    Nat.lt_mul_of_div_lt (Nat.lt_succ_self _) (block_pos j)
  have pos := block_pos j
  induction steps with
  | zero =>
    have reach : time + ((time / block j + 1) * block j - time - 1) + 1 = (time / block j + 1) * block j := by
      omega
    rw [Nat.add_zero, show (time / block j + 1) * block j - time =
      (time / block j + 1) * block j - time - 1 + 1 by omega]
    refine iterate_to_block_end hash m time _ at_time j ?_ fun t after before => ?_
    · rw [reach]
      exact level_eq_of_no_larger ⟨_, Nat.mul_comm _ _⟩ (largest _ ahead (by simp))
    · exact not_dvd_between (q := time / block j) (by omega) (by omega)
  | succ steps ih =>
    have grow : (time / block j + (steps + 1) + 1) * block j =
        (time / block j + steps + 1) * block j + block j := by ring
    have passed : (time / block j + 1) * block j ≤ (time / block j + steps + 1) * block j :=
      Nat.mul_le_mul_right _ (by omega)
    have before := ih fun t after le => largest t after (by omega)
    obtain ⟨mid, hmid⟩ : ∃ mid, (time / block j + steps + 1) * block j = mid := ⟨_, rfl⟩
    have split : (time / block j + (steps + 1) + 1) * block j - time =
        (block j - 1 + 1) + (mid - time) := by omega
    rw [hmid] at before
    rw [split, Function.iterate_add_apply]
    have at_mid : ((advance hash)^[mid - time] m).counter = UInt32.ofNat mid := by
      rw [iterate_counter, at_time, ← UInt32.ofNat_add]
      congr 1; omega
    rw [iterate_to_block_end hash _ mid (block j - 1) at_mid j ?_ fun t after le => ?_, before,
      rehashDown_twice]
    · apply level_eq_of_no_larger
      · exact ⟨time / block j + (steps + 1) + 1, by rw [Nat.mul_comm]; omega⟩
      · exact largest _ (by omega) (by omega)
    · refine not_dvd_between (q := time / block j + steps + 1) (by omega) ?_
      rw [Nat.add_mul, hmid]
      omega

/-! ### One part of the jump -/

def rounds (time target : Nat) (j : Fin 4) : Nat := target / block j - time / block j

theorem steps_toNat (time target : Nat) (j : Fin 4) (le : time ≤ target) :
    (((UInt32.ofNat target >>> ((3 - UInt32.ofNat j) * 8)) -
      (UInt32.ofNat time >>> ((3 - UInt32.ofNat j) * 8))) &&& 0xff).toNat =
      rounds time target j % 256 := by
  have byte (c : UInt32) : (c &&& 0xff).toNat = c.toNat % 2 ^ 8 := toNat_and_mask c 8 (by decide)
  rw [byte, UInt32.toNat_sub, UInt32.toNat_shiftRight, UInt32.toNat_shiftRight]
  fin_cases j <;> simp [rounds, block, Nat.shiftRight_eq_div_pow] <;> omega

/-- Only part 0 can need 256 rounds, and then the target has wrapped below the counter. -/
theorem rounds_bound (time target : Nat) (j : Fin 4) (le : time ≤ target) (near : target < time + 2 ^ 32)
    (agree : ∀ i < j, time / block i = target / block i) :
    rounds time target j ≤ 256 ∧
      (rounds time target j % 256 = 0 →
        (target % 2 ^ 32 < time % 2 ^ 32 ↔ rounds time target j = 256)) := by
  fin_cases j
  · simp [rounds, block]; omega
  · have := agree 0 (by decide)
    simp [rounds, block] at this ⊢; omega
  · have := agree 1 (by decide)
    simp [rounds, block] at this ⊢; omega
  · have := agree 2 (by decide)
    simp [rounds, block] at this ⊢; omega

theorem and_high_mask {x s : Nat} (word : x < 2 ^ 32) :
    x &&& ((2 ^ 32 - 1) <<< s % 2 ^ 32) = x / 2 ^ s * 2 ^ s := by
  rw [← Nat.shiftRight_eq_div_pow, ← Nat.shiftLeft_eq]
  apply Nat.eq_of_testBit_eq
  intro i
  rw [Nat.testBit_and, Nat.testBit_mod_two_pow, Nat.testBit_shiftLeft, Nat.testBit_shiftLeft,
    Nat.testBit_shiftRight, Nat.testBit_two_pow_sub_one]
  by_cases low : i < s
  · simp [show ¬ s ≤ i by omega]
  by_cases high : 32 ≤ i
  · have zero : x.testBit i = false :=
      Nat.testBit_lt_two_pow (lt_of_lt_of_le word (Nat.pow_le_pow_right (by decide) high))
    simp [show s + (i - s) = i by omega, zero]
  · simp [show s + (i - s) = i by omega, show s ≤ i by omega, show i < 32 by omega,
      show i - s < 32 by omega]

theorem and_mask_eq (c : UInt32) (j : Fin 4) :
    c &&& ((~~~0) <<< ((3 - UInt32.ofNat j) * 8)) = UInt32.ofNat (c.toNat / block j * block j) := by
  have fits : c.toNat / block j * block j < 2 ^ 32 :=
    lt_of_le_of_lt (Nat.div_mul_le_self _ _) c.toNat_lt
  apply UInt32.toNat_inj.mp
  rw [UInt32.toNat_ofNat_of_lt' fits, UInt32.toNat_and, UInt32.toNat_shiftLeft]
  have shift : ((3 - UInt32.ofNat j) * 8).toNat % 32 = 8 * (3 - j.val) := by fin_cases j <;> rfl
  rw [shift]
  exact and_high_mask c.toNat_lt

/-- What one turn of the jump's loop does, with its 0 and 256 step cases told apart. -/
theorem advancePart_eq (m : Megolm Part) (time target : Nat) (j : Fin 4)
    (at_time : m.counter = UInt32.ofNat time) (le : time ≤ target) (near : target < time + 2 ^ 32)
    (agree : ∀ i < j, time / block i = target / block i) :
    advancePart hash (UInt32.ofNat target) m j =
      if rounds time target j = 0 then m
      else { data := rehashDown hash (rehashSelf hash m.data j (rounds time target j - 1)) j
             counter := UInt32.ofNat (target / block j * block j) } := by
  have steps := steps_toNat time target j le
  obtain ⟨bound, wrapped⟩ := rounds_bound time target j le near agree
  have masked : UInt32.ofNat target &&& ((~~~0) <<< ((3 - UInt32.ofNat j) * 8)) =
      UInt32.ofNat (target / block j * block j) := by
    rw [and_mask_eq]
    apply UInt32.toNat_inj.mp
    fin_cases j <;> simp [block] <;> omega
  have below : UInt32.ofNat target < UInt32.ofNat time ↔ target % 2 ^ 32 < time % 2 ^ 32 := by
    simp [UInt32.lt_iff_toNat_lt]
  simp only [advancePart, at_time, masked, below]
  generalize ((UInt32.ofNat target >>> ((3 - UInt32.ofNat j) * 8)) -
    (UInt32.ofNat time >>> ((3 - UInt32.ofNat j) * 8))) &&& 0xff = word at steps ⊢
  by_cases none : rounds time target j % 256 = 0
  · have zero : word = 0 := UInt32.toNat_inj.mp (by rw [steps, none]; rfl)
    rw [if_pos zero]
    by_cases full : rounds time target j = 256
    · rw [if_pos ((wrapped none).mpr full), if_neg (by omega), full]
      rfl
    · rw [if_neg fun lt => full ((wrapped none).mp lt), if_pos (by omega)]
  · have some : word ≠ 0 := by
      rintro rfl
      exact none (by rw [← steps]; rfl)
    rw [if_neg some, if_neg (by omega), steps, Nat.mod_eq_of_lt (by omega)]

/-- One turn of the jump's loop is a number of single steps, after which the clock agrees with the
target down to part `j`. -/
theorem advancePart_eq_iterate (m : Megolm Part) (time target : Nat) (j : Fin 4)
    (at_time : m.counter = UInt32.ofNat time) (le : time ≤ target) (near : target < time + 2 ^ 32)
    (agree : ∀ i < j, time / block i = target / block i) :
    ∃ n, advancePart hash (UInt32.ofNat target) m j = (advance hash)^[n] m ∧
      time + n ≤ target ∧ (time + n) / block j = target / block j := by
  have passed : target / block j * block j ≤ target := Nat.div_mul_le_self _ _
  have monotone : time / block j ≤ target / block j := Nat.div_le_div_right le
  rw [advancePart_eq hash m time target j at_time le near agree]
  by_cases none : rounds time target j = 0
  · refine ⟨0, by rw [if_pos none]; rfl, le, ?_⟩
    unfold rounds at none
    rw [Nat.add_zero]
    omega
  rw [if_neg none]
  have ahead : time < target / block j * block j := by
    have started : time < (time / block j + 1) * block j :=
      Nat.lt_mul_of_div_lt (Nat.lt_succ_self _) (block_pos j)
    have : (time / block j + 1) * block j ≤ target / block j * block j :=
      Nat.mul_le_mul_right _ (by unfold rounds at none; omega)
    omega
  have reach : time + (target / block j * block j - time) = target / block j * block j := by omega
  refine ⟨target / block j * block j - time, ?_, by omega, ?_⟩
  · have blocks := iterate_blocks hash m time at_time j (rounds time target j - 1)
    rw [show time / block j + (rounds time target j - 1) + 1 = target / block j by
      unfold rounds at none ⊢; omega] at blocks
    have data := blocks fun t after before i lower => by
      refine not_dvd_between (q := time / block i) ?_ ?_
      · exact lt_of_le_of_lt (Nat.div_mul_le_self _ _) after
      · rw [agree i lower]
        exact lt_of_le_of_lt (before.trans passed)
          (Nat.lt_mul_of_div_lt (Nat.lt_succ_self _) (block_pos i))
    have counter := iterate_counter hash m (target / block j * block j - time)
    rw [at_time, ← UInt32.ofNat_add, reach] at counter
    rw [← data, ← counter]
  · rw [reach, Nat.mul_div_cancel _ (block_pos j)]

/-- The loop invariant of the jump: after the turn for part `j`, some number of single steps has
been made and the clock agrees with the target down to part `j`. -/
theorem advancePart_turn (m : Megolm Part) (time target n : Nat) (j : Fin 4)
    (at_time : m.counter = UInt32.ofNat time) (le : time + n ≤ target) (near : target < time + 2 ^ 32)
    (agree : ∀ i < j, (time + n) / block i = target / block i) :
    ∃ n', advancePart hash (UInt32.ofNat target) ((advance hash)^[n] m) j = (advance hash)^[n'] m ∧
      time + n' ≤ target ∧ ∀ i ≤ j, (time + n') / block i = target / block i := by
  have at_n : ((advance hash)^[n] m).counter = UInt32.ofNat (time + n) := by
    rw [iterate_counter, at_time, UInt32.ofNat_add]
  obtain ⟨more, eq, below, reached⟩ :=
    advancePart_eq_iterate hash _ (time + n) target j at_n le (by omega) agree
  refine ⟨more + n, by rw [eq, Function.iterate_add_apply], by omega, fun i lower => ?_⟩
  rw [show time + (more + n) = time + n + more by omega]
  rcases lt_or_eq_of_le lower with lt | rfl
  · have up : (time + n) / block i ≤ (time + n + more) / block i := Nat.div_le_div_right (by omega)
    have down : (time + n + more) / block i ≤ target / block i := Nat.div_le_div_right below
    have := agree i lt
    omega
  · exact reached

/-- The whole jump: as many single steps as the 32-bit distance to the target. -/
theorem advanceTo_eq_iterate (m : Megolm Part) (target : UInt32) :
    advanceTo hash m target = (advance hash)^[(target - m.counter).toNat] m := by
  obtain ⟨time, htime⟩ : ∃ time, m.counter.toNat = time := ⟨_, rfl⟩
  have at_time : m.counter = UInt32.ofNat time := by rw [← htime, UInt32.ofNat_toNat]
  have near : (target - m.counter).toNat < 2 ^ 32 := (target - m.counter).toNat_lt
  have arrive : target = UInt32.ofNat (time + (target - m.counter).toNat) := by
    rw [UInt32.ofNat_add, UInt32.ofNat_toNat, ← at_time, UInt32.add_comm, UInt32.sub_add_cancel]
  generalize (target - m.counter).toNat = distance at near arrive ⊢
  have turn := fun n j => advancePart_turn hash m time (time + distance) n j at_time
  obtain ⟨n₀, eq₀, le₀, agree₀⟩ := turn 0 0 (by omega) (by omega) (by simp)
  obtain ⟨n₁, eq₁, le₁, agree₁⟩ := turn n₀ 1 le₀ (by omega) fun i lt => agree₀ i (by omega)
  obtain ⟨n₂, eq₂, le₂, agree₂⟩ := turn n₁ 2 le₁ (by omega) fun i lt => agree₁ i (by omega)
  obtain ⟨n₃, eq₃, le₃, agree₃⟩ := turn n₂ 3 le₂ (by omega) fun i lt => agree₂ i (by omega)
  have last : n₃ = distance := by
    have := agree₃ 3 (le_refl _)
    simpa [block] using this
  rw [Function.iterate_zero_apply] at eq₀
  rw [arrive, advanceTo, List.foldl_cons, List.foldl_cons, List.foldl_cons, List.foldl_cons,
    List.foldl_nil, eq₀, eq₁, eq₂, eq₃, last]

/-- The library's own ratchet, for any HMAC: the jump is that many calls of `megolm_advance`. -/
theorem advanceTo_eq_single_steps (hmac : Bytes → Bytes → Block 32) (m : Megolm (Block 32))
    (target : UInt32) :
    advanceTo (partHash hmac) m target =
      (advance (partHash hmac))^[(target.toNat + 2 ^ 32 - m.counter.toNat) % 2 ^ 32] m := by
  have distance : (target - m.counter).toNat = (target.toNat + 2 ^ 32 - m.counter.toNat) % 2 ^ 32 := by
    have := m.counter.toNat_lt
    rw [UInt32.toNat_sub]
    congr 1
    omega
  rw [advanceTo_eq_iterate, distance]

end RubyOlm.Megolm
