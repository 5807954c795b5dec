import Mathlib.Data.Nat.Basic
import Mathlib.Logic.Function.Iterate

/-!
# Free key derivation

Keys with two ways to derive new ones: a keyed hash under a label, and an extraction that turns an
input and a salt into a pair of keys. The algebra is free when different derivations never give the
same key. Chains of hashes then never meet again, and a key can be derived by hashing only from the
keys on its own chain.
-/

namespace RubyOlm

structure KeyAlgebra (Key Label Input Info : Type) where
  hmac : Key → Label → Key
  hkdf : Input → Option Key → Info → Key × Key

namespace KeyAlgebra

variable {Key Label Input Info : Type} (A : KeyAlgebra Key Label Input Info)

/-- Different derivations give different keys, and no key is derived from itself. -/
structure Free : Prop where
  hmac_inj : ∀ {k k' l l'}, A.hmac k l = A.hmac k' l' → k = k' ∧ l = l'
  fst_inj : ∀ {a a' s s' i i'}, (A.hkdf a s i).1 = (A.hkdf a' s' i').1 → a = a' ∧ s = s' ∧ i = i'
  snd_inj : ∀ {a a' s s' i i'}, (A.hkdf a s i).2 = (A.hkdf a' s' i').2 → a = a' ∧ s = s' ∧ i = i'
  fst_ne_snd : ∀ a a' s s' i i', (A.hkdf a s i).1 ≠ (A.hkdf a' s' i').2
  hmac_ne_fst : ∀ k l a s i, A.hmac k l ≠ (A.hkdf a s i).1
  hmac_ne_snd : ∀ k l a s i, A.hmac k l ≠ (A.hkdf a s i).2
  depth : ∃ depth : Key → Nat, (∀ k l, depth k < depth (A.hmac k l)) ∧
    (∀ a k i, depth k < depth (A.hkdf a (some k) i).1) ∧
    ∀ a k i, depth k < depth (A.hkdf a (some k) i).2

def chain (label : Label) (n : Nat) (start : Key) : Key := (fun k => A.hmac k label)^[n] start

@[simp] theorem chain_zero (label : Label) (start : Key) : A.chain label 0 start = start := rfl

theorem chain_succ (label : Label) (n : Nat) (start : Key) :
    A.chain label (n + 1) start = A.hmac (A.chain label n start) label :=
  Function.iterate_succ_apply' _ _ _

theorem chain_hmac (label : Label) (n : Nat) (start : Key) :
    A.chain label n (A.hmac start label) = A.chain label (n + 1) start :=
  (Function.iterate_succ_apply _ _ _).symm

theorem chain_add (label : Label) (m n : Nat) (start : Key) :
    A.chain label (m + n) start = A.chain label m (A.chain label n start) :=
  Function.iterate_add_apply _ _ _ _

def Root (k : Key) : Prop := ∀ k' l, A.hmac k' l ≠ k

inductive Derives (live : Key → Prop) : Key → Prop where
  | live {k : Key} : live k → Derives live k
  | hmac {k : Key} (l : Label) : Derives live k → Derives live (A.hmac k l)

variable {A}

theorem Free.snd_root (free : A.Free) (a : Input) (s : Option Key) (i : Info) :
    A.Root (A.hkdf a s i).2 := fun _ _ => free.hmac_ne_snd _ _ _ _ _

/-- Chains from roots meet only when they are the same chain at the same place. -/
theorem Free.chain_inj (free : A.Free) {label : Label} {m n : Nat} {c c' : Key} (hc : A.Root c)
    (hc' : A.Root c') (meet : A.chain label m c = A.chain label n c') : m = n ∧ c = c' := by
  induction m generalizing n with
  | zero =>
    cases n with
    | zero => exact ⟨rfl, meet⟩
    | succ n =>
      rw [chain_zero, chain_succ] at meet
      exact absurd meet.symm (hc _ _)
  | succ m ih =>
    cases n with
    | zero =>
      rw [chain_zero, chain_succ] at meet
      exact absurd meet (hc' _ _)
    | succ n =>
      rw [chain_succ, chain_succ] at meet
      obtain ⟨same, start⟩ := ih (free.hmac_inj meet).1
      exact ⟨by rw [same], start⟩

theorem Free.hmac_chain_inj (free : A.Free) {label label' : Label} {m n : Nat} {c c' : Key}
    (hc : A.Root c) (hc' : A.Root c')
    (meet : A.hmac (A.chain label m c) label' = A.hmac (A.chain label n c') label') : m = n ∧ c = c' :=
  free.chain_inj hc hc' (free.hmac_inj meet).1

theorem Free.derives_hmac (free : A.Free) {live : Key → Prop} {k : Key} {l : Label}
    (h : A.Derives live (A.hmac k l)) : live (A.hmac k l) ∨ A.Derives live k := by
  generalize target : A.hmac k l = t at h
  cases h with
  | live h => exact Or.inl h
  | hmac l' h => exact Or.inr (by rw [(free.hmac_inj target).1]; exact h)

theorem Root.derives {live : Key → Prop} {k : Key} (root : A.Root k) (h : A.Derives live k) : live k := by
  cases h with
  | live h => exact h
  | hmac l h => exact absurd rfl (root _ l)

/-- Hashing reaches a key of a chain only from that chain, at or before it. -/
theorem Free.derives_chain (free : A.Free) {live : Key → Prop} {label : Label} {n : Nat} {c : Key}
    (root : A.Root c) (h : A.Derives live (A.chain label n c)) : ∃ m ≤ n, live (A.chain label m c) := by
  induction n with
  | zero => exact ⟨0, le_refl _, root.derives h⟩
  | succ n ih =>
    rw [chain_succ] at h
    rcases free.derives_hmac h with here | before
    · exact ⟨n + 1, le_refl _, by rw [chain_succ]; exact here⟩
    · obtain ⟨m, le, earlier⟩ := ih before
      exact ⟨m, by omega, earlier⟩

end KeyAlgebra

/-! ### The term algebra -/

/-- Symbolic keys: each is the derivation that made it. -/
inductive KeyTerm (Label Input Info : Type) where
  | zero
  | hmac (key : KeyTerm Label Input Info) (label : Label)
  | extract (first : Bool) (input : Input) (info : Info)
  | extractSalted (first : Bool) (input : Input) (salt : KeyTerm Label Input Info) (info : Info)
  deriving DecidableEq

namespace KeyTerm

variable {Label Input Info : Type}

def depth : KeyTerm Label Input Info → Nat
  | zero => 0
  | hmac key _ => key.depth + 1
  | extract _ _ _ => 0
  | extractSalted _ _ salt _ => salt.depth + 1

def hkdf (input : Input) (salt : Option (KeyTerm Label Input Info)) (info : Info) :
    KeyTerm Label Input Info × KeyTerm Label Input Info :=
  match salt with
  | none => (extract true input info, extract false input info)
  | some salt => (extractSalted true input salt info, extractSalted false input salt info)

def algebra : KeyAlgebra (KeyTerm Label Input Info) Label Input Info := ⟨hmac, hkdf⟩

theorem algebra_free : (algebra : KeyAlgebra (KeyTerm Label Input Info) Label Input Info).Free where
  hmac_inj same := ⟨(hmac.inj same).1, (hmac.inj same).2⟩
  fst_inj {_ _ s s' _ _} same := by
    cases s <;> cases s' <;> simp_all [algebra, hkdf]
  snd_inj {_ _ s s' _ _} same := by
    cases s <;> cases s' <;> simp_all [algebra, hkdf]
  fst_ne_snd _ _ s s' _ _ := by
    cases s <;> cases s' <;> simp [algebra, hkdf]
  hmac_ne_fst _ _ _ s _ := by
    cases s <;> simp [algebra, hkdf]
  hmac_ne_snd _ _ _ s _ := by
    cases s <;> simp [algebra, hkdf]
  depth := ⟨depth, fun _ _ => Nat.lt_succ_self _, fun _ _ _ => Nat.lt_succ_self _,
    fun _ _ _ => Nat.lt_succ_self _⟩

end KeyTerm

end RubyOlm
