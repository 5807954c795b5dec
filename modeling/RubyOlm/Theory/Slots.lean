import Mathlib.Logic.Function.Basic
import Mathlib.Tactic.Ring

/-!
# Slots

An array of values that a program moves about through pointers. A pointer is its distance from the start of the
array, so nothing stops it from leaving the array; the places that were read or written are kept.
-/

namespace RubyOlm

/-- What the slots hold, and the places that were touched so far. -/
structure Slots (α : Type) where
  held : Int → α
  touched : List Int

namespace Slots

variable {α : Type}

/-- `*dst = *src`. -/
def copy (slots : Slots α) (dst src : Int) : Slots α :=
  ⟨Function.update slots.held dst (slots.held src), dst :: src :: slots.touched⟩

/-- `*pos = value`. -/
def put (slots : Slots α) (pos : Int) (value : α) : Slots α :=
  ⟨Function.update slots.held pos value, pos :: slots.touched⟩

/-- `while (pos != stop) { *pos = *(pos + dir); pos += dir; }`, which comes to nothing when `turns` are too few. -/
def slide (dir stop : Int) : (turns : Nat) → (pos : Int) → Slots α → Option (Slots α)
  | 0, _, _ => none
  | turns + 1, pos, slots =>
    if pos = stop then some slots else slide dir stop turns (pos + dir) (slots.copy pos (pos + dir))

@[simp] theorem copy_same (slots : Slots α) (dst src : Int) : (slots.copy dst src).held dst = slots.held src :=
  Function.update_self ..

theorem copy_other {slots : Slots α} {dst src i : Int} (other : i ≠ dst) :
    (slots.copy dst src).held i = slots.held i :=
  Function.update_of_ne other ..

@[simp] theorem put_same (slots : Slots α) (pos : Int) (value : α) : (slots.put pos value).held pos = value :=
  Function.update_self ..

theorem put_other {slots : Slots α} {pos i : Int} {value : α} (other : i ≠ pos) :
    (slots.put pos value).held i = slots.held i :=
  Function.update_of_ne other ..

/-- The `count` slots before `stop` hold what the slot behind each of them held. -/
structure Slid (dir stop : Int) (count : Nat) (slots after : Slots α) : Prop where
  moved : ∀ k < count, after.held (stop - dir * (k + 1)) = slots.held (stop - dir * k)
  kept : ∀ i, (∀ k < count, i ≠ stop - dir * (k + 1)) → after.held i = slots.held i
  touched : ∀ i ∈ after.touched, i ∈ slots.touched ∨ 0 < count ∧ ∃ k ≤ count, i = stop - dir * k

/-- A loop that has `count` steps to go makes them, and stops. -/
theorem slide_eq (dir stop : Int) (moves : dir ≠ 0) {count turns : Nat} (enough : count < turns) (slots : Slots α) :
    ∃ after, slide dir stop turns (stop - dir * count) slots = some after ∧ Slid dir stop count slots after := by
  induction count generalizing turns slots with
  | zero =>
    obtain ⟨turns, rfl⟩ := Nat.exists_eq_succ_of_ne_zero (Nat.ne_of_gt enough)
    refine ⟨slots, ?_, fun k none => absurd none (Nat.not_lt_zero k), fun _ _ => rfl, fun i mem => .inl mem⟩
    rw [slide, if_pos (by simp)]
  | succ count ih =>
    obtain ⟨turns, rfl⟩ := Nat.exists_eq_succ_of_ne_zero (Nat.ne_of_gt (Nat.lt_of_le_of_lt (Nat.zero_le _) enough))
    have places (k k' : Nat) : stop - dir * k = stop - dir * k' ↔ k = k' := by
      rw [Int.sub_right_inj, Int.mul_eq_mul_left_iff moves, Int.natCast_inj]
    have next : stop - dir * (count + 1 : Nat) + dir = stop - dir * count := by
      push_cast
      ring
    obtain ⟨after, slid, moved, kept, touched⟩ :=
      ih (Nat.lt_of_succ_lt_succ enough) (slots.copy (stop - dir * (count + 1 : Nat)) (stop - dir * count))
    refine ⟨after, ?_, ?moved, ?kept, ?touched⟩
    · have further : stop - dir * (count + 1 : Nat) ≠ stop := by
        have apart := mt (places (count + 1) 0).mp (Nat.succ_ne_zero count)
        rwa [Int.natCast_zero, Int.mul_zero, Int.sub_zero] at apart
      rw [slide, if_neg further, next, slid]
    case moved =>
      intro k lt
      rcases Nat.lt_succ_iff_lt_or_eq.mp lt with lt | rfl
      · -- the slot was not the one that this turn has overwritten
        rw [moved k lt, copy_other]
        rw [ne_eq, places]
        omega
      · -- and the one that it has is not looked at again
        have unread : ∀ k' < k, stop - dir * ((k : Int) + 1) ≠ stop - dir * (k' + 1) := by
          intro k' lt same
          have same := (places (k + 1) (k' + 1)).mp (by push_cast; exact same)
          omega
        rw [kept _ unread]
        exact copy_same ..
    case kept =>
      intro i outside
      rw [kept i fun k lt => outside k (Nat.lt_succ_of_lt lt), copy_other]
      exact outside count (Nat.lt_succ_self count)
    case touched =>
      intro i mem
      rcases touched i mem with mem | ⟨-, k, le, same⟩
      · rw [copy, List.mem_cons, List.mem_cons] at mem
        rcases mem with rfl | rfl | mem
        · exact .inr ⟨Nat.succ_pos count, count + 1, Nat.le_refl _, rfl⟩
        · exact .inr ⟨Nat.succ_pos count, count, Nat.le_succ count, rfl⟩
        · exact .inl mem
      · exact .inr ⟨Nat.succ_pos count, k, Nat.le_succ_of_le le, same⟩

end Slots

end RubyOlm
