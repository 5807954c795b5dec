import RubyOlm.Megolm.AdvanceTo
import RubyOlm.Theory.FreeHash

/-!
# The ratchet goes one way

With hash functions that are free and four unrelated parts to start from, no part can ever be computed from
another one, and the last part changes at every step: what it was before a step cannot be computed from
anything the ratchet holds later.
-/

namespace RubyOlm.Megolm

variable {Part : Type} {hash : Fin 4 → Part → Part}

/-- Four different symbols, none of them a hash. -/
structure Unrelated (hash : Fin 4 → Part → Part) (data : Fin 4 → Part) : Prop where
  distinct : ∀ {i j}, data i = data j → i = j
  symbols : ∀ i label part, data i ≠ hash label part

/-- No part can be computed from another one, and a part that is a hash was hashed for its own place. -/
structure Independent (hash : Fin 4 → Part → Part) (data : Fin 4 → Part) : Prop where
  apart : ∀ {i j}, Hashes hash (data i) (data j) → i = j
  own : ∀ {i label part}, data i = hash label part → label = i

theorem Unrelated.independent {data : Fin 4 → Part} (unrelated : Unrelated hash data) : Independent hash data where
  apart {i j} h := by
    generalize target : data j = part at h
    cases h with
    | refl => exact (unrelated.distinct target).symm
    | step label h => exact absurd target (unrelated.symbols j label _)
  own same := absurd same (unrelated.symbols _ _ _)

/-- Spreading part `h` downwards, itself last, keeps the parts independent. -/
theorem Independent.rehashDown (free : FreeHash hash) {data : Fin 4 → Part} (independent : Independent hash data)
    (h : Fin 4) : Independent hash (rehashDown hash data h) where
  apart {i j} reaches := by
    rw [rehashDown_apply, rehashDown_apply] at reaches
    split at reaches
    · split at reaches
      · -- both parts are new: hashes of one part under different labels
        rcases free.hashes_hash_iff.mp reaches with same | back
        · exact (free.inj same).1
        · exact absurd back free.not_hashes_self
      · -- an old part above `h` does not come from part `h`
        rename_i below above
        have := independent.apart reaches.of_hash
        subst this
        exact absurd (le_refl _) above
    · split at reaches
      · rename_i above below
        rcases free.hashes_hash_iff.mp reaches with same | back
        · have := independent.own same
          subst this
          exact absurd below above
        · have := independent.apart back
          subst this
          exact absurd (le_refl _) above
      · exact independent.apart reaches
  own {i label part} same := by
    rw [rehashDown_apply] at same
    split at same
    · exact (free.inj same).1.symm
    · exact independent.own same

variable {m : Megolm Part}

theorem advance_rehash (hash : Fin 4 → Part → Part) (m : Megolm Part) :
    ∃ h, (advance hash m).data = rehashDown hash m.data h :=
  ⟨_, advance_data hash m m.counter.toNat (UInt32.ofNat_toNat).symm⟩

theorem Independent.iterate (free : FreeHash hash) (independent : Independent hash m.data) (n : Nat) :
    Independent hash ((advance hash)^[n] m).data := by
  induction n with
  | zero => exact independent
  | succ n ih =>
    rw [Function.iterate_succ_apply']
    obtain ⟨h, step⟩ := advance_rehash hash ((advance hash)^[n] m)
    rw [step]
    exact ih.rehashDown free h

/-- What leads back to a part is that part, if it has not changed since. -/
theorem Independent.unchanged (free : FreeHash hash) (independent : Independent hash m.data) (n : Nat) {j k : Fin 4}
    (reaches : Hashes hash (((advance hash)^[n] m).data j) (m.data k)) :
    j = k ∧ ((advance hash)^[n] m).data k = m.data k := by
  induction n generalizing j with
  | zero => exact ⟨independent.apart reaches, rfl⟩
  | succ n ih =>
    rw [Function.iterate_succ_apply'] at reaches ⊢
    obtain ⟨h, step⟩ := advance_rehash hash ((advance hash)^[n] m)
    rw [step, rehashDown_apply] at reaches ⊢
    split at reaches
    · -- a part that was just hashed leads back to no older one
      obtain ⟨rfl, same⟩ := ih reaches.of_hash
      rw [same] at reaches
      exact absurd reaches free.not_hashes_self
    · rename_i kept
      obtain ⟨rfl, same⟩ := ih reaches
      exact ⟨rfl, by rw [if_neg kept, same]⟩

theorem not_wound_backwards (free : FreeHash hash) (unrelated : Unrelated hash m.data) {a b : Nat} (later : a < b)
    (j : Fin 4) : ¬ Hashes hash (((advance hash)^[b] m).data j) (((advance hash)^[a] m).data 3) := by
  have independent := unrelated.independent.iterate free a
  obtain ⟨n, rfl⟩ := Nat.exists_eq_add_of_lt later
  rw [show a + n + 1 = n + 1 + a by omega, Function.iterate_add_apply]
  generalize (advance hash)^[a] m = held at independent
  intro reaches
  obtain ⟨rfl, same⟩ := independent.unchanged free (n + 1) reaches
  -- the last part is hashed at every step
  rw [Function.iterate_succ_apply'] at same
  obtain ⟨h, step⟩ := advance_rehash hash ((advance hash)^[n] held)
  have last : h ≤ 3 := Fin.le_last h
  rw [step, rehashDown_apply, if_pos last] at same
  have before : Hashes hash (((advance hash)^[n] held).data h) (held.data 3) := same ▸ .step 3 .refl
  obtain ⟨rfl, kept⟩ := independent.unchanged free n before
  rw [kept] at same
  have itself : Hashes hash (hash 3 (held.data 3)) (held.data 3) := by
    rw [same]
    exact .refl
  exact free.not_hashes_self itself

/-- A ratchet of four symbols. -/
def symbolic (counter : UInt32) : Megolm (HashTerm (Fin 4) (Fin 4)) := ⟨.symbol, counter⟩

theorem symbolic_unrelated (counter : UInt32) : Unrelated HashTerm.hash (symbolic counter).data where
  distinct same := HashTerm.symbol.inj same
  symbols _ _ _ := nofun

theorem not_wound_backwards_symbolic :
    ¬ Hashes HashTerm.hash (((advance HashTerm.hash)^[256] (symbolic 0)).data 2)
      (((advance HashTerm.hash)^[255] (symbolic 0)).data 3) :=
  not_wound_backwards HashTerm.free (symbolic_unrelated 0) (by decide) 2

end RubyOlm.Megolm
