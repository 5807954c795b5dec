import Mathlib.Data.Nat.Basic

/-!
# Free hash functions

A family of hash functions, one for each label, and what can be computed from a value by applying them. The
family is free when different applications never give the same value and no value is computed from itself.
-/

namespace RubyOlm

variable {Label Value : Type}

/-- What applications of the hash functions, in any order and number, make of a value. -/
inductive Hashes (hash : Label → Value → Value) (start : Value) : Value → Prop where
  | refl : Hashes hash start start
  | step (label : Label) {value : Value} : Hashes hash start value → Hashes hash start (hash label value)

/-- Different applications give different values, and no value is computed from itself. -/
structure FreeHash (hash : Label → Value → Value) : Prop where
  inj : ∀ {label label' value value'}, hash label value = hash label' value' → label = label' ∧ value = value'
  depth : ∃ depth : Value → Nat, ∀ label value, depth value < depth (hash label value)

section

variable {hash : Label → Value → Value}

theorem Hashes.of_hash {label : Label} {start value : Value} (h : Hashes hash (hash label start) value) :
    Hashes hash start value := by
  induction h with
  | refl => exact .step label .refl
  | step label' _ ih => exact .step label' ih

namespace FreeHash

theorem hashes_hash_iff (free : FreeHash hash) {label : Label} {start value : Value} :
    Hashes hash start (hash label value) ↔ start = hash label value ∨ Hashes hash start value := by
  constructor
  · intro h
    generalize target : hash label value = t at h
    cases h with
    | refl => exact .inl rfl
    | step label' h =>
      obtain ⟨-, same⟩ := free.inj target
      exact .inr (same ▸ h)
  · rintro (rfl | h)
    · exact .refl
    · exact .step label h

theorem not_hashes_self (free : FreeHash hash) {label : Label} {value : Value} :
    ¬ Hashes hash (hash label value) value := by
  obtain ⟨depth, deeper⟩ := free.depth
  have grows {start t : Value} (h : Hashes hash start t) : depth start ≤ depth t := by
    induction h with
    | refl => exact le_refl _
    | step label' _ ih => exact Nat.le_trans ih (Nat.le_of_lt (deeper _ _))
  intro h
  exact absurd (grows h) (Nat.not_le.mpr (deeper label value))

end FreeHash

end

/-! ### Terms -/

/-- Symbols, and the applications of hash functions to terms. -/
inductive HashTerm (Symbol Label : Type) where
  | symbol (symbol : Symbol)
  | hash (label : Label) (term : HashTerm Symbol Label)
  deriving DecidableEq

namespace HashTerm

variable {Symbol : Type}

def depth : HashTerm Symbol Label → Nat
  | symbol _ => 0
  | hash _ term => term.depth + 1

theorem free : FreeHash (HashTerm.hash : Label → HashTerm Symbol Label → HashTerm Symbol Label) where
  inj same := ⟨(hash.inj same).1, (hash.inj same).2⟩
  depth := ⟨depth, fun _ _ => Nat.lt_succ_self _⟩

end HashTerm

end RubyOlm
