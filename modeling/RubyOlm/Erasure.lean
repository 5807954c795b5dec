import RubyOlm.Account.KeyStore
import RubyOlm.DoubleRatchet.Symbolic

/-!
# Erased keys

`erase` copies what is behind an entry down by one slot, and leaves in the slot that was last what was there. Of an
entry that is erased nothing is left in the array exactly if no other slot held a copy of it, and what is in the last
slot, if that was its own, is not secret. Ratchets unset an entry before, accounts do not.
-/

namespace RubyOlm

namespace OlmList

variable {α : Type} {maxSize : Nat} {list : OlmList α maxSize} {pos : Nat} {Secret : α → Prop}

/-- No slot of the array, live or behind the end, holds a secret. -/
def Clean (list : OlmList α maxSize) (Secret : α → Prop) : Prop :=
  ∀ (i : Nat) (value : α), list.data[i]? = some value → ¬ Secret value

/-- No slot but one. -/
def CleanBut (list : OlmList α maxSize) (pos : Nat) (Secret : α → Prop) : Prop :=
  ∀ (i : Nat) (value : α), i ≠ pos → list.data[i]? = some value → ¬ Secret value

theorem getElem?_erase (live : pos < list.size) (i : Nat) :
    (list.erase pos).data[i]? = if pos ≤ i ∧ i + 1 < list.size then list.data[i + 1]? else list.data[i]? := by
  have bound := list.size_le
  rw [erase, getElem?_shiftDown _ _ _ _ (by omega)]
  by_cases moved : pos ≤ i ∧ i + 1 < list.size
  · rw [if_pos moved, if_pos (by omega)]
  · rw [if_neg moved, if_neg (by omega)]

theorem clean_erase_iff (live : pos < list.size) :
    (list.erase pos).Clean Secret ↔ list.CleanBut pos Secret ∧
      (pos + 1 = list.size → ∀ value, list.data[pos]? = some value → ¬ Secret value) := by
  constructor
  · intro clean
    refine ⟨fun i value other holds => ?_, fun last value holds => ?_⟩
    · by_cases moved : pos < i ∧ i < list.size
      · refine clean (i - 1) value ?_
        rw [getElem?_erase live, if_pos (by omega), Nat.sub_add_cancel (by omega)]
        exact holds
      · refine clean i value ?_
        rw [getElem?_erase live, if_neg (by omega)]
        exact holds
    · refine clean pos value ?_
      rw [getElem?_erase live, if_neg (by omega)]
      exact holds
  · rintro ⟨others, last⟩ i value holds
    rw [getElem?_erase live] at holds
    split at holds
    · exact others (i + 1) value (by omega) holds
    · rename_i kept
      by_cases same : i = pos
      · subst same
        exact last (by omega) value holds
      · exact others i value same holds

/-- An entry that is overwritten before. -/
theorem clean_set_erase_iff (live : pos < list.size) (zero : α) :
    ((list.set pos zero).erase pos).Clean Secret ↔
      list.CleanBut pos Secret ∧ (pos + 1 = list.size → ¬ Secret zero) := by
  have bound := list.size_le
  have others (i : Nat) (other : i ≠ pos) : (list.set pos zero).data[i]? = list.data[i]? := by
    rw [set, Vector.getElem?_setIfInBounds, if_neg (Ne.symm other)]
  have own : (list.set pos zero).data[pos]? = some zero := by
    rw [set, Vector.getElem?_setIfInBounds, if_pos rfl, if_pos (by omega)]
  rw [clean_erase_iff (show pos < (list.set pos zero).size from live)]
  constructor
  · rintro ⟨clean, last⟩
    refine ⟨fun i value other holds => clean i value other ?_, fun end_pos => last end_pos zero own⟩
    rw [others i other]
    exact holds
  · rintro ⟨clean, last⟩
    refine ⟨fun i value other holds => clean i value other ?_, fun end_pos value holds => ?_⟩
    · rw [← others i other]
      exact holds
    · obtain rfl := Option.some.inj (own.symm.trans holds)
      exact last end_pos

end OlmList

/-! ### Runs -/

section Runs

variable {State Call : Type}

/-- A property of each call of a run and of the state it is made in. No state is left by a call that does not return. -/
def Throughout (call : State → Call → Option State) (Property : State → Call → Prop) (state : State) :
    (calls : List Call) → Prop
  | [] => True
  | next :: calls =>
    Property state next ∧ ∀ state', call state next = some state' → Throughout call Property state' calls

theorem throughout_congr {call : State → Call → Option State} {Property Condition : State → Call → Prop}
    (same : ∀ state next, Property state next ↔ Condition state next) (state : State) (calls : List Call) :
    Throughout call Property state calls ↔ Throughout call Condition state calls := by
  induction calls generalizing state with
  | nil => exact Iff.rfl
  | cons next calls ih =>
    unfold Throughout
    rw [same]
    exact and_congr_right fun _ => forall_congr' fun state' => imp_congr_right fun _ => ih state'

end Runs

/-! ### Skipped message keys -/

namespace Ratchet

variable {Key Msg : Type} (ops : RatchetOps Key Msg)

inductive Call (Msg : Type) where
  | encrypt (plaintext random output : Bytes)
  | decrypt (input : Msg) (maxPlaintextLength : Nat)

def call (ratchet : Ratchet Key) : Call Msg → Ratchet Key
  | .encrypt plaintext random output => (ratchet.encrypt ops plaintext random output).1
  | .decrypt input maxPlaintextLength => (ratchet.decrypt ops input maxPlaintextLength).1

/-- The place of the skipped message key that `decrypt` uses up. -/
def usedUp (ratchet : Ratchet Key) (input : Msg) (maxPlaintextLength : Nat) : Option Nat :=
  match checkReader ops input maxPlaintextLength with
  | .error _ => none
  | .ok reader =>
    match findChain reader.ratchetKey ratchet.receiverChains.toList with
    | none => none
    | some (_, chain) =>
      if chain.chainKey.index > reader.counter then
        (trySkipped ops reader maxPlaintextLength ratchet.skippedMessageKeys.toList).map Prod.fst
      else none

variable {ops} {ratchet : Ratchet Key} {input : Msg} {maxPlaintextLength pos : Nat}

theorem decrypt_of_usedUp (used : usedUp ops ratchet input maxPlaintextLength = some pos) :
    (ratchet.decrypt ops input maxPlaintextLength).1 = ratchet.removeSkipped ops pos ∧
      pos < ratchet.skippedMessageKeys.size := by
  cases checked : checkReader ops input maxPlaintextLength with
  | error error =>
    rw [usedUp, checked] at used
    cases used
  | ok reader =>
    rw [usedUp, checked] at used
    rw [decrypt, checked]
    dsimp only at used ⊢
    cases found : findChain reader.ratchetKey ratchet.receiverChains.toList with
    | none =>
      rw [found] at used
      cases used
    | some place =>
      rw [found] at used
      dsimp only at used
      split at used
      · rename_i behind
        obtain ⟨⟨pos', plaintext⟩, tried, same⟩ := Option.map_eq_some_iff.mp used
        obtain rfl : pos' = pos := same
        simp only [decryptChecked, found, if_pos behind, tried]
        obtain ⟨key, stored, -⟩ := trySkipped_eq_some ops tried
        rw [← OlmList.length_toList]
        exact ⟨trivial, (List.getElem?_eq_some_iff.mp stored).1⟩
      · cases used

variable (ops)

/-- A key that `decrypt` uses up is then in no slot. -/
def Erases (ratchet : Ratchet Key) : Call Msg → Prop
  | .encrypt _ _ _ => True
  | .decrypt input maxPlaintextLength => ∀ pos key, usedUp ops ratchet input maxPlaintextLength = some pos →
      ratchet.skippedMessageKeys.data[pos]? = some key →
      (ratchet.decrypt ops input maxPlaintextLength).1.skippedMessageKeys.Clean
        fun slot => slot.messageKey.key = key.messageKey.key

/-- A key that `decrypt` will use up is in one slot, and is not the key that unset ones have if that is the last one. -/
def Single (ratchet : Ratchet Key) : Call Msg → Prop
  | .encrypt _ _ _ => True
  | .decrypt input maxPlaintextLength => ∀ pos key, usedUp ops ratchet input maxPlaintextLength = some pos →
      ratchet.skippedMessageKeys.data[pos]? = some key →
      ratchet.skippedMessageKeys.CleanBut pos (fun slot => slot.messageKey.key = key.messageKey.key) ∧
        (pos + 1 = ratchet.skippedMessageKeys.size → ops.zeroKey ≠ key.messageKey.key)

theorem erases_iff_single (ratchet : Ratchet Key) (call : Call Msg) :
    ratchet.Erases ops call ↔ ratchet.Single ops call := by
  cases call with
  | encrypt plaintext random output => exact Iff.rfl
  | decrypt input maxPlaintextLength =>
    refine forall_congr' fun pos => forall_congr' fun key => imp_congr_right fun used => imp_congr_right fun _ => ?_
    obtain ⟨removed, live⟩ := decrypt_of_usedUp used
    rw [removed]
    exact OlmList.clean_set_erase_iff live _

end Ratchet

/-! ### One-time keys -/

namespace Account

/-- The place of the key that `remove_key` removes. -/
def removes (account : Account) (publicKey : PublicKey) : Option Nat :=
  account.oneTimeKeys.toList.findIdx? fun key => key.key.publicKey = publicKey

/-- The private key of a key that is removed is then in no slot. -/
def Erases (account : Account) : KeyStore.Op → Prop
  | .remove publicKey => ∀ pos key, account.removes publicKey = some pos →
      account.oneTimeKeys.data[pos]? = some key →
      (account.removeKey publicKey).1.oneTimeKeys.Clean fun slot => slot.key.privateKey = key.key.privateKey
  | _ => True

/-- The private key of a key that will be removed is in one slot, which is not the last one. -/
def Single (account : Account) : KeyStore.Op → Prop
  | .remove publicKey => ∀ pos key, account.removes publicKey = some pos →
      account.oneTimeKeys.data[pos]? = some key →
      account.oneTimeKeys.CleanBut pos (fun slot => slot.key.privateKey = key.key.privateKey) ∧
        pos + 1 ≠ account.oneTimeKeys.size
  | _ => True

theorem erases_iff_single (account : Account) (op : KeyStore.Op) : account.Erases op ↔ account.Single op := by
  cases op with
  | remove publicKey =>
    refine forall_congr' fun pos => forall_congr' fun key => imp_congr_right fun found => imp_congr_right fun own => ?_
    have removed : (account.removeKey publicKey).1.oneTimeKeys = account.oneTimeKeys.erase pos := by
      unfold removes at found
      rw [removeKey, found]
    have live : pos < account.oneTimeKeys.size := by
      rw [← OlmList.length_toList]
      exact (List.findIdx?_eq_some_iff_getElem.mp found).1
    rw [removed, OlmList.clean_erase_iff live]
    refine and_congr_right fun _ => ⟨fun last end_pos => last end_pos key own rfl, fun inside end_pos => ?_⟩
    exact absurd end_pos inside
  | _ => exact Iff.rfl

end Account

/-- In every run of a ratchet the keys that are used up leave the array, and in every run of an account the ones that are
removed, exactly if each was in one slot, and not last where it is not unset. -/
theorem erased_iff {Key Msg : Type} (ops : RatchetOps Key Msg) (crypto : Crypto) (fuel : Nat) :
    (∀ (ratchet : Ratchet Key) (calls : List (Ratchet.Call Msg)),
      Throughout (fun ratchet call => some (ratchet.call ops call)) (Ratchet.Erases ops) ratchet calls ↔
        Throughout (fun ratchet call => some (ratchet.call ops call)) (Ratchet.Single ops) ratchet calls) ∧
    ∀ (account : Account) (calls : List KeyStore.Op),
      Throughout (fun account op => (account.call crypto fuel op).map Prod.fst) Account.Erases account calls ↔
        Throughout (fun account op => (account.call crypto fuel op).map Prod.fst) Account.Single account calls :=
  ⟨throughout_congr (Ratchet.erases_iff_single ops), throughout_congr Account.erases_iff_single⟩

/-! ### Keys that stay -/

/-- Bob, before alice's first message. -/
def symbolicBob : Ratchet (KeyTerm Bytes Bytes Bytes) :=
  (Ratchet.new (clearedRatchet .zero)).initialiseAsBob symbolicRatchet [] symbolicPair.publicKey

/-- One of the messages of alice's first chain. -/
def firstChainMessage (n : Nat) : SymbolicMessage where
  key := Ratchet.messageKeyAt symbolicRatchet symbolicBob.receiver.chainKey.key n
  counter := UInt32.ofNat n
  ratchetKey := symbolicPair.publicKey
  plaintext := []

def plainAccount : Account := ((Account.new clearAccount).newAccount Crypto.plain (List.replicate 64 0)).1

/-- The first three messages of a chain arrive last one first, and an account removes its only one-time key. -/
theorem erased_not :
    ¬ Throughout (fun ratchet call => some (ratchet.call symbolicRatchet call)) (Ratchet.Erases symbolicRatchet)
      symbolicBob [.decrypt (firstChainMessage 2) 0, .decrypt (firstChainMessage 1) 0,
        .decrypt (firstChainMessage 0) 0] ∧
    ¬ Throughout (fun account op => (account.call Crypto.plain 2 op).map Prod.fst) Account.Erases plainAccount
      [.generate 1 (List.replicate 32 0), .remove (Block.zero 32)] := by
  constructor
  · rintro ⟨-, first⟩
    obtain ⟨-, second⟩ := first _ rfl
    obtain ⟨erases, -⟩ := second _ rfl
    -- the copy was left when the other key was erased
    obtain ⟨key, key_eq⟩ : ∃ key : SkippedMessageKey (KeyTerm Bytes Bytes Bytes), key =
      ⟨symbolicPair.publicKey, 0, (firstChainMessage 0).key⟩ := ⟨_, rfl⟩
    refine erases 0 key ?_ ?_ 1 key ?_ rfl
    · decide +kernel
    · rw [key_eq]
      decide +kernel
    · rw [key_eq]
      decide +kernel
  · rintro ⟨-, generated⟩
    obtain ⟨erases, -⟩ := generated _ rfl
    obtain ⟨key, key_eq⟩ : ∃ key : OneTimeKey, key = ⟨1, false, generateKey Crypto.plain.curve25519 (Block.zero 32)⟩ :=
      ⟨_, rfl⟩
    refine erases 0 key ?_ ?_ 0 key ?_ rfl
    · decide +kernel
    · rw [key_eq]
      rfl
    · rw [key_eq]
      rfl

end RubyOlm
