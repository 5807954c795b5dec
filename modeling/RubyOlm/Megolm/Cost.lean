import RubyOlm.Megolm.AdvanceTo
import RubyOlm.Theory.Counted

/-!
# What the jump costs

The ratchet with the calls of `rehash_part` counted, each of which is one HMAC. Dropping the counts
gives back the functions of `Megolm.Ratchet`.
-/

namespace RubyOlm.Megolm

variable {Part : Type} (hash : Fin 4 → Part → Part)

def rehashPartCounted (data : Fin 4 → Part) (rehashFrom rehashTo : Fin 4) : Counted (Fin 4 → Part) :=
  ⟨rehashPart hash data rehashFrom rehashTo, 1⟩

def rehashDownCounted (data : Fin 4 → Part) (h : Fin 4) : Counted (Fin 4 → Part) :=
  ((List.finRange 4).reverse.filter (h ≤ ·)).foldlM (fun data i => rehashPartCounted hash data h i) data

def advanceCounted (m : Megolm Part) : Counted (Megolm Part) := do
  let counter := m.counter + 1
  let h := rekeyFrom counter 4 0 0x00FFFFFF
  let data ← if inside : h < 4 then rehashDownCounted hash m.data ⟨h, inside⟩ else pure m.data
  return { data, counter }

def rehashSelfCounted (data : Fin 4 → Part) (j : Fin 4) : (steps : Nat) → Counted (Fin 4 → Part)
  | 0 => pure data
  | steps + 1 => do rehashSelfCounted (← rehashPartCounted hash data j j) j steps

def advancePartCounted (advanceTo : UInt32) (m : Megolm Part) (j : Fin 4) : Counted (Megolm Part) :=
  let shift : UInt32 := (3 - UInt32.ofNat j) * 8
  let mask : UInt32 := (~~~0) <<< shift
  let rehash (steps : UInt32) : Counted (Megolm Part) := do
    let data ← rehashSelfCounted hash m.data j (steps.toNat - 1)
    let data ← rehashDownCounted hash data j
    return { data, counter := advanceTo &&& mask }
  let steps := ((advanceTo >>> shift) - (m.counter >>> shift)) &&& 0xff
  if steps = 0 then
    if advanceTo < m.counter then rehash 0x100 else pure m
  else rehash steps

def advanceToCounted (m : Megolm Part) (target : UInt32) : Counted (Megolm Part) :=
  (List.finRange 4).foldlM (advancePartCounted hash target) m

/-! ### Dropping the counts -/

@[simp] theorem rehashDownCounted_value (data : Fin 4 → Part) (h : Fin 4) :
    (rehashDownCounted hash data h).value = rehashDown hash data h :=
  Counted.value_foldlM _ _ _

@[simp] theorem rehashDownCounted_count (data : Fin 4 → Part) (h : Fin 4) :
    (rehashDownCounted hash data h).count = 4 - h := by
  rw [rehashDownCounted, Counted.count_foldlM _ 1 fun _ _ => rfl]
  fin_cases h <;> rfl

@[simp] theorem rehashSelfCounted_value (data : Fin 4 → Part) (j : Fin 4) (steps : Nat) :
    (rehashSelfCounted hash data j steps).value = rehashSelf hash data j steps := by
  induction steps generalizing data with
  | zero => rfl
  | succ steps ih => simp [rehashSelfCounted, rehashSelf, ih, rehashPartCounted]

@[simp] theorem rehashSelfCounted_count (data : Fin 4 → Part) (j : Fin 4) (steps : Nat) :
    (rehashSelfCounted hash data j steps).count = steps := by
  induction steps generalizing data with
  | zero => rfl
  | succ steps ih => simp [rehashSelfCounted, ih, rehashPartCounted, Nat.add_comm]

@[simp] theorem advanceCounted_value (m : Megolm Part) : (advanceCounted hash m).value = advance hash m := by
  simp only [advanceCounted, advance]
  split <;> simp

@[simp] theorem advancePartCounted_value (target : UInt32) (m : Megolm Part) (j : Fin 4) :
    (advancePartCounted hash target m j).value = advancePart hash target m j := by
  simp only [advancePartCounted, advancePart]
  split
  · split <;> simp
  · simp

theorem advanceToCounted_value (m : Megolm Part) (target : UInt32) :
    (advanceToCounted hash m target).value = advanceTo hash m target := by
  rw [advanceToCounted, Counted.value_foldlM, advanceTo, show List.finRange 4 = [0, 1, 2, 3] from rfl]
  simp

/-! ### One step -/

/-- The single steps' hashes from time 0 on: part `j` is rehashed at every multiple of its block. -/
def work (time : Nat) : Nat := time / 0x1000000 + time / 0x10000 + time / 0x100 + time

theorem work_eq (time : Nat) : work time = time / block 0 + time / block 1 + time / block 2 + time / block 3 := by
  simp [work, block]

theorem work_succ (time : Nat) : work (time + 1) = work time + (4 - level (time + 1)) := by
  have widen : ∀ {i j : Fin 4}, i ≤ j → block i ∣ time + 1 → block j ∣ time + 1 :=
    fun le divides => (block_dvd le).trans divides
  have last : block 3 ∣ time + 1 := by simp [block]
  simp only [work_eq, Nat.succ_div]
  unfold level
  by_cases d0 : block 0 ∣ time + 1
  · simp [d0, widen (Fin.zero_le 1) d0, widen (Fin.zero_le 2) d0, last]
    omega
  by_cases d1 : block 1 ∣ time + 1
  · simp [d0, d1, widen (show (1 : Fin 4) ≤ 2 by decide) d1, last]
    omega
  by_cases d2 : block 2 ∣ time + 1
  · simp [d0, d1, d2, last]
    omega
  · simp [d0, d1, d2, last]
    omega

theorem advanceCounted_count (m : Megolm Part) (time : Nat) (at_time : m.counter = UInt32.ofNat time) :
    work time + (advanceCounted hash m).count = work (time + 1) := by
  have counter : level (m.counter + 1).toNat = level (time + 1) := by
    rw [at_time, ← level_mod_word (time + 1)]
    congr 1
    simp
  rw [work_succ]
  simp only [advanceCounted, rekeyFrom_eq, counter, (level (time + 1)).isLt, dif_pos, Fin.eta]
  simp

theorem single_steps_count (m : Megolm Part) (time n : Nat) (at_time : m.counter = UInt32.ofNat time) :
    work time + (Counted.iterate (advanceCounted hash) n m).count = work (time + n) := by
  induction n generalizing m time with
  | zero => rfl
  | succ n ih =>
    have first := advanceCounted_count hash m time at_time
    have rest := ih (advance hash m) (time + 1) (by simp [at_time])
    simp only [Counted.iterate, Counted.count_bind, advanceCounted_value]
    rw [show time + (n + 1) = time + 1 + n by omega]
    omega

/-! ### One turn of the jump -/

/-- The clock after the jump's turn for part `j`. -/
def turnEnd (time target : Nat) (j : Fin 4) : Nat :=
  if rounds time target j = 0 then time else target / block j * block j

def turnHashes (time target : Nat) (j : Fin 4) : Nat :=
  if rounds time target j = 0 then 0 else rounds time target j + (3 - j)

/-- The clock agrees with the target down to the parts before `j`. -/
structure Aligned (time target : Nat) (j : Nat) : Prop where
  le : time ≤ target
  near : target < time + 2 ^ 32
  agree : ∀ i : Fin 4, i.val < j → time / block i = target / block i

variable {time target : Nat} {j : Fin 4}

theorem time_lt_turnEnd (some : rounds time target j ≠ 0) : time < target / block j * block j := by
  have started : time < (time / block j + 1) * block j := Nat.lt_mul_of_div_lt (Nat.lt_succ_self _) (block_pos j)
  have passed : (time / block j + 1) * block j ≤ target / block j * block j := by
    apply Nat.mul_le_mul_right
    unfold rounds at some
    omega
  omega

theorem Aligned.turn (aligned : Aligned time target j) : Aligned (turnEnd time target j) target (j + 1) := by
  obtain ⟨le, near, agree⟩ := aligned
  unfold turnEnd
  by_cases none : rounds time target j = 0
  · rw [if_pos none]
    refine ⟨le, near, ?_⟩
    intro i before
    by_cases earlier : i.val < j.val
    · exact agree i earlier
    have same : i = j := Fin.ext (by omega)
    subst same
    have monotone : time / block i ≤ target / block i := Nat.div_le_div_right le
    unfold rounds at none
    omega
  rw [if_neg none]
  have ahead := time_lt_turnEnd none
  have passed : target / block j * block j ≤ target := Nat.div_mul_le_self _ _
  refine ⟨passed, by omega, ?_⟩
  intro i before
  by_cases earlier : i.val < j.val
  · have up : time / block i ≤ target / block j * block j / block i := Nat.div_le_div_right ahead.le
    have down : target / block j * block j / block i ≤ target / block i := Nat.div_le_div_right passed
    have := agree i earlier
    omega
  · have same : i = j := Fin.ext (by omega)
    subst same
    exact Nat.mul_div_cancel _ (block_pos i)

/-- A turn does no more than the single steps over the same stretch of the clock: each of those hashes the parts below
`j` at least once. -/
theorem turnHashes_le (aligned : Aligned time target j) :
    work time + turnHashes time target j ≤ work (turnEnd time target j) := by
  unfold turnHashes turnEnd
  by_cases none : rounds time target j = 0
  · simp [none]
  rw [if_neg none, if_neg none]
  have ahead := time_lt_turnEnd none
  have monotone (i : Fin 4) : time / block i ≤ target / block j * block j / block i := Nat.div_le_div_right ahead.le
  have own : target / block j * block j / block j = target / block j := Nat.mul_div_cancel _ (block_pos j)
  have below (i : Fin 4) (lower : j < i) : time / block i < target / block j * block j / block i := by
    obtain ⟨q, hq⟩ : block i ∣ target / block j * block j := (block_dvd lower.le).mul_left _
    rw [hq] at ahead ⊢
    rw [Nat.mul_div_cancel_left _ (block_pos i)]
    exact (Nat.div_lt_iff_lt_mul (block_pos i)).mpr (by rwa [Nat.mul_comm] at ahead)
  have m0 := monotone 0
  have m1 := monotone 1
  have m2 := monotone 2
  have m3 := monotone 3
  have rounded : rounds time target j = target / block j - time / block j := rfl
  generalize target / block j * block j = clock at *
  rw [work_eq, work_eq]
  fin_cases j
  · have b1 := below 1 (by decide)
    have b2 := below 2 (by decide)
    have b3 := below 3 (by decide)
    simp at own rounded ⊢
    omega
  · have b2 := below 2 (by decide)
    have b3 := below 3 (by decide)
    simp at own rounded ⊢
    omega
  · have b3 := below 3 (by decide)
    simp at own rounded ⊢
    omega
  · simp at own rounded ⊢
    omega

theorem advancePart_counter (m : Megolm Part) (at_time : m.counter = UInt32.ofNat time)
    (aligned : Aligned time target j) :
    (advancePart hash (UInt32.ofNat target) m j).counter = UInt32.ofNat (turnEnd time target j) := by
  rw [advancePart_eq hash m time target j at_time aligned.le aligned.near aligned.agree, turnEnd]
  split
  · exact at_time
  · rfl

theorem advancePartCounted_count (m : Megolm Part) (at_time : m.counter = UInt32.ofNat time)
    (aligned : Aligned time target j) :
    (advancePartCounted hash (UInt32.ofNat target) m j).count = turnHashes time target j := by
  have steps := steps_toNat time target j aligned.le
  obtain ⟨bound, wrapped⟩ := rounds_bound time target j aligned.le aligned.near aligned.agree
  have below : UInt32.ofNat target < UInt32.ofNat time ↔ target % 2 ^ 32 < time % 2 ^ 32 := by
    simp [UInt32.lt_iff_toNat_lt]
  have part := j.isLt
  simp only [advancePartCounted, at_time, below]
  generalize ((UInt32.ofNat target >>> ((3 - UInt32.ofNat j) * 8)) -
    (UInt32.ofNat time >>> ((3 - UInt32.ofNat j) * 8))) &&& 0xff = word at steps ⊢
  unfold turnHashes
  by_cases none : rounds time target j % 256 = 0
  · have zero : word = 0 := UInt32.toNat_inj.mp (by rw [steps, none]; rfl)
    rw [if_pos zero]
    by_cases full : rounds time target j = 256
    · rw [if_pos ((wrapped none).mpr full), if_neg (by omega), full]
      simp
      omega
    · rw [if_neg fun lt => full ((wrapped none).mp lt), if_pos (by omega)]
      rfl
  · have some : word ≠ 0 := by
      intro zero
      rw [zero] at steps
      exact none (by simpa using steps.symm)
    rw [if_neg some, if_neg (by omega)]
    simp [steps]
    omega

/-! ### The whole jump -/

/-- The invariant of the jump's loop: the clock is aligned down to the parts of the turns made, and the hashes are no
more than those of the single steps to there. -/
structure Jumped (time target : Nat) (turns : Nat) (jump : Counted (Megolm Part)) (clock : Nat) : Prop where
  at_clock : jump.value.counter = UInt32.ofNat clock
  aligned : Aligned clock target turns
  cheap : work time + jump.count ≤ work clock

variable {turns clock : Nat} {jump : Counted (Megolm Part)}

theorem Jumped.count (jumped : Jumped time target j jump clock) :
    (jump >>= (advancePartCounted hash (UInt32.ofNat target) · j)).count = jump.count + turnHashes clock target j := by
  rw [Counted.count_bind, advancePartCounted_count hash jump.value jumped.at_clock jumped.aligned]

theorem Jumped.turn (jumped : Jumped time target j jump clock) :
    Jumped time target (j + 1) (jump >>= (advancePartCounted hash (UInt32.ofNat target) · j))
      (turnEnd clock target j) where
  at_clock := by simpa using advancePart_counter hash jump.value jumped.at_clock jumped.aligned
  aligned := jumped.aligned.turn
  cheap := by
    have least := turnHashes_le jumped.aligned
    have before := jumped.cheap
    rw [jumped.count]
    omega

theorem Jumped.arrived (jumped : Jumped time target 4 jump clock) : clock = target := by
  have agree := jumped.aligned.agree 3 (by decide)
  simpa [block] using agree

/-- Every turn but the first has at most 255 rounds; the first has 256 only when the target has wrapped to below the
counter, and then the other three cannot all have 255. -/
theorem turnHashes_sum_le (le : time ≤ target) (near : target < time + 2 ^ 32) {clock₁ clock₂ clock₃ : Nat}
    (first : clock₁ = turnEnd time target 0) (second : clock₂ = turnEnd clock₁ target 1)
    (third : clock₃ = turnEnd clock₂ target 2) :
    turnHashes time target 0 + turnHashes clock₁ target 1 + turnHashes clock₂ target 2 +
      turnHashes clock₃ target 3 ≤ 1026 := by
  have aligned₁ : Aligned clock₁ target 1 := first ▸ Aligned.turn (j := 0) ⟨le, near, by simp⟩
  have aligned₂ : Aligned clock₂ target 2 := second ▸ Aligned.turn (j := 1) aligned₁
  have aligned₃ : Aligned clock₃ target 3 := third ▸ Aligned.turn (j := 2) aligned₂
  have agree₁ := aligned₁.agree 0 (by decide)
  have agree₂ := aligned₂.agree 1 (by decide)
  have agree₃ := aligned₃.agree 2 (by decide)
  simp only [turnHashes, turnEnd, rounds, block] at *
  norm_num at *
  split_ifs at * <;> omega

theorem Jumped.start (m : Megolm Part) (at_time : m.counter = UInt32.ofNat time) (le : time ≤ target)
    (near : target < time + 2 ^ 32) : Jumped time target (0 : Fin 4) (pure m) time where
  at_clock := at_time
  aligned := ⟨le, near, fun i before => absurd before (Nat.not_lt_zero _)⟩
  cheap := by simp

/-- The four turns of the jump, each from the clock where the one before it ended. -/
theorem advanceToCounted_turns (m : Megolm Part) (time target : Nat) (at_time : m.counter = UInt32.ofNat time) (le : time ≤ target)
    (near : target < time + 2 ^ 32) :
    ∃ clock₁ clock₂ clock₃, clock₁ = turnEnd time target 0 ∧ clock₂ = turnEnd clock₁ target 1 ∧
      clock₃ = turnEnd clock₂ target 2 ∧
      (advanceToCounted hash m (UInt32.ofNat target)).count = turnHashes time target 0 + turnHashes clock₁ target 1 +
        turnHashes clock₂ target 2 + turnHashes clock₃ target 3 ∧
      work time + (advanceToCounted hash m (UInt32.ofNat target)).count ≤ work target := by
  have start := Jumped.start m at_time le near
  have first := start.turn hash
  have second := Jumped.turn hash (j := 1) first
  have third := Jumped.turn hash (j := 2) second
  have fourth := Jumped.turn hash (j := 3) third
  have whole : advanceToCounted hash m (UInt32.ofNat target) =
      ((((pure m >>= (advancePartCounted hash (UInt32.ofNat target) · 0)) >>=
        (advancePartCounted hash (UInt32.ofNat target) · 1)) >>=
        (advancePartCounted hash (UInt32.ofNat target) · 2)) >>=
        (advancePartCounted hash (UInt32.ofNat target) · 3)) := by
    rw [advanceToCounted, show List.finRange 4 = [0, 1, 2, 3] from rfl]
    simp
  refine ⟨_, _, _, rfl, rfl, rfl, ?_, ?_⟩
  · rw [whole, Jumped.count hash (j := 3) third, Jumped.count hash (j := 2) second, Jumped.count hash (j := 1) first,
      start.count hash]
    simp
  · have arrived := Jumped.arrived fourth
    have cheap := fourth.cheap
    rw [arrived] at cheap
    rwa [whole]

/-- The jump ends where the single steps end, with no more hashes than they take and never more than 1026, which the
jump from 0 to the last index needs (`docs/megolm.rst` says 1023). -/
theorem jump_hashes (m : Megolm Part) (target : UInt32) :
    (advanceToCounted hash m target).value = advanceTo hash m target ∧
      (Counted.iterate (advanceCounted hash) (target - m.counter).toNat m).value = advanceTo hash m target ∧
      (advanceToCounted hash m target).count ≤
        (Counted.iterate (advanceCounted hash) (target - m.counter).toNat m).count ∧
      (advanceToCounted hash m target).count ≤ 1026 ∧
      (advanceToCounted hash { m with counter := 0 } 0xFFFFFFFF).count = 1026 := by
  obtain ⟨time, htime⟩ : ∃ time, m.counter.toNat = time := ⟨_, rfl⟩
  have at_time : m.counter = UInt32.ofNat time := by rw [← htime, UInt32.ofNat_toNat]
  have near : (target - m.counter).toNat < 2 ^ 32 := (target - m.counter).toNat_lt
  have arrive : target = UInt32.ofNat (time + (target - m.counter).toNat) := by
    rw [UInt32.ofNat_add, UInt32.ofNat_toNat, ← at_time, UInt32.add_comm, UInt32.sub_add_cancel]
  have single := single_steps_count hash m time (target - m.counter).toNat at_time
  have steps : (Counted.iterate (advanceCounted hash) (target - m.counter).toNat m).value =
      advanceTo hash m target := by
    rw [Counted.value_iterate, advanceTo_eq_iterate]
    simp
  obtain ⟨_, _, _, first, second, third, count, cheap⟩ := advanceToCounted_turns hash m time
    (time + (target - m.counter).toNat) at_time (by omega) (by omega)
  rw [← arrive] at count cheap
  refine ⟨advanceToCounted_value hash m target, steps, by omega, ?_, ?_⟩
  · rw [count]
    exact turnHashes_sum_le (by omega) (by omega) first second third
  · obtain ⟨_, _, _, rfl, rfl, rfl, count, _⟩ := advanceToCounted_turns hash { m with counter := 0 } 0
      0xFFFFFFFF rfl (by omega) (by omega)
    exact count.trans (by simp [turnHashes, turnEnd, rounds, block])

end RubyOlm.Megolm
