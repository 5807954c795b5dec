import Mathlib.Logic.Function.Iterate

/-!
# Counted computations

A value beside the number of operations that were paid for it.
-/

namespace RubyOlm

structure Counted (α : Type) where
  value : α
  count : Nat

namespace Counted

variable {α β : Type}

instance : Monad Counted where
  pure value := ⟨value, 0⟩
  bind c f := ⟨(f c.value).value, c.count + (f c.value).count⟩

@[simp] theorem value_pure (a : α) : (pure a : Counted α).value = a := rfl
@[simp] theorem count_pure (a : α) : (pure a : Counted α).count = 0 := rfl

@[simp] theorem value_bind (c : Counted α) (f : α → Counted β) : (c >>= f).value = (f c.value).value := rfl

@[simp] theorem count_bind (c : Counted α) (f : α → Counted β) :
    (c >>= f).count = c.count + (f c.value).count := rfl

instance : LawfulMonad Counted :=
  LawfulMonad.mk' Counted (fun _ => by simp [Functor.map]) (fun _ _ => by simp [bind, pure])
    (fun _ _ _ => by simp [bind, Nat.add_assoc])

@[simp] theorem value_map (f : α → β) (c : Counted α) : (f <$> c).value = f c.value := rfl
@[simp] theorem count_map (f : α → β) (c : Counted α) : (f <$> c).count = c.count := rfl

theorem value_foldlM (f : β → α → Counted β) (b : β) (items : List α) :
    (items.foldlM f b).value = items.foldl (fun b a => (f b a).value) b := by
  induction items generalizing b with
  | nil => rfl
  | cons a items ih => simp [List.foldlM_cons, ih]

theorem count_foldlM (f : β → α → Counted β) (price : Nat) (charge : ∀ b a, (f b a).count = price) (b : β)
    (items : List α) : (items.foldlM f b).count = items.length * price := by
  induction items generalizing b with
  | nil => simp
  | cons a items ih => simp [List.foldlM_cons, ih, charge, Nat.succ_mul, Nat.add_comm]

/-- `n` turns of one computation. -/
def iterate (f : α → Counted α) : (n : Nat) → α → Counted α
  | 0, a => pure a
  | n + 1, a => do iterate f n (← f a)

theorem value_iterate (f : α → Counted α) (n : Nat) (a : α) :
    (iterate f n a).value = (fun a => (f a).value)^[n] a := by
  induction n generalizing a with
  | zero => rfl
  | succ n ih => simp [iterate, ih]

end Counted

end RubyOlm
